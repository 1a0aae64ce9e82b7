/-!
# Parameters of a rule

A rule may be given parameters. Each has a name, no name comes twice, and
they are kept in the order of their names, so that a rule is written the
same way every time.

## Main definitions

* `Params` — named values in the order of their names.
* `Params.insert`, `Params.ofList` — giving a parameter, or several.

## Main results

* `Params.sorted` — names ascend strictly, so each comes once.
* `Params.mem_insert_self` — a parameter that is given is there.
-/

namespace GroovyFindings

/-- The names of the pairs ascend strictly. -/
def Ascending (pairs : List (String × String)) : Prop :=
  pairs.Pairwise fun p q => p.1 < q.1

/-- `insertPair` keeps the pairs in order and replaces the value of a name
that is there. -/
def insertPair (name value : String) :
    (pairs : List (String × String)) → List (String × String)
  | [] => [(name, value)]
  | p :: rest =>
      if name < p.1 then (name, value) :: p :: rest
      else if name = p.1 then (name, value) :: rest
      else p :: insertPair name value rest

theorem fst_of_mem_insertPair {name value : String} {q : String × String}
    {pairs : List (String × String)} (h : q ∈ insertPair name value pairs) :
    q = (name, value) ∨ q ∈ pairs := by
  induction pairs with
  | nil => simpa [insertPair] using h
  | cons p rest ih =>
      simp only [insertPair] at h
      split at h
      · simpa using h
      · split at h
        · rcases List.mem_cons.1 h with h | h
          · exact .inl h
          · exact .inr (List.mem_cons_of_mem _ h)
        · rcases List.mem_cons.1 h with h | h
          · exact .inr (h ▸ List.mem_cons_self)
          · exact (ih h).imp_right (List.mem_cons_of_mem _)

theorem ascending_insertPair (name value : String)
    {pairs : List (String × String)} (h : Ascending pairs) :
    Ascending (insertPair name value pairs) := by
  induction pairs with
  | nil => simp [insertPair, Ascending]
  | cons p rest ih =>
      obtain ⟨hp, hrest⟩ := List.pairwise_cons.1 h
      simp only [insertPair]
      split
      · next hlt =>
        refine List.pairwise_cons.2 ⟨fun q hq => ?_, h⟩
        rcases List.mem_cons.1 hq with rfl | hq
        · exact hlt
        · exact String.lt_trans hlt (hp q hq)
      · split
        · next heq =>
          exact List.pairwise_cons.2 ⟨fun q hq => heq ▸ hp q hq, hrest⟩
        · next hnlt hne =>
          refine List.pairwise_cons.2 ⟨fun q hq => ?_, ih hrest⟩
          rcases fst_of_mem_insertPair hq with rfl | hq
          · exact Decidable.by_contra fun hge =>
              hne (String.le_antisymm (String.not_lt.1 hge) (String.not_lt.1 hnlt))
          · exact hp q hq

/-- Named values in the order of their names. -/
structure Params where
  pairs : List (String × String)
  sorted : Ascending pairs
deriving DecidableEq

namespace Params

/-- No parameters. -/
def empty : Params := ⟨[], List.Pairwise.nil⟩

instance : Inhabited Params := ⟨empty⟩

/-- The parameters with one more, which replaces one of the same name. -/
def insert (ps : Params) (name value : String) : Params :=
  ⟨insertPair name value ps.pairs, ascending_insertPair name value ps.sorted⟩

/-- The parameters given one after the other. -/
def ofList (pairs : List (String × String)) : Params :=
  pairs.foldl (fun ps p => ps.insert p.1 p.2) empty

theorem mem_insert_self (ps : Params) (name value : String) :
    (name, value) ∈ (ps.insert name value).pairs := by
  show (name, value) ∈ insertPair name value ps.pairs
  induction ps.pairs with
  | nil => simp [insertPair]
  | cons p rest ih =>
      simp only [insertPair]
      split
      · exact List.mem_cons_self
      · split
        · exact List.mem_cons_self
        · exact List.mem_cons_of_mem _ ih

end Params

end GroovyFindings
