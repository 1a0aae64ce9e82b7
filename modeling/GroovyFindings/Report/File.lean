import GroovyFindings.Disk.Edit
import GroovyFindings.Report.Reader

/-!
# Reading a report from a file

A report that is not there has no violations: the linter leaves none when
it has nothing to look at. A file that cannot be opened for another reason
is not read at all; one that can be opened and then not read is a document
with a fault in it.

## Main definitions

* `openReport` — opening a path.
* `readOpened` — the reading of what opening it gave.
-/

namespace GroovyFindings.Report

/-- Opens a path as a document. -/
def openReport (d : Disk) (p : Path) : Except Disk.Fault Xml.Input :=
  match d.opened p with
  | .ok node =>
      match node.content with
      | .ok bytes => .ok ⟨bytes, none⟩
      | .error f => .ok ⟨[], some f⟩
  | .error f => .error f

/-- The reading of what opening a path gave. -/
def readOpened (opening : Except Disk.Fault Xml.Input) : Except Disk.Fault Reading :=
  match opening with
  | .ok input => .ok (read input)
  | .error .missing => .ok ⟨[], none⟩
  | .error f => .error f

end GroovyFindings.Report
