import Mathlib.Data.List.Basic
import Mathlib.Logic.Function.Basic

/-!
# Stores that are written key by key

A write gives a key a value or takes its value away.  Where a list of writes ends
up depends on the store it starts from only at the keys it does not name, so a
list may be written again over what it has led to.
-/

/-- A key, and its new value if it keeps one. -/
abbrev KeyedWrite (κ ν : Type) := κ × Option ν

namespace KeyedStore

variable {κ ν : Type} [DecidableEq κ] {store left right : κ → Option ν}
  {writes front back : List (KeyedWrite κ ν)} {key : κ}

def write (store : κ → Option ν) (change : KeyedWrite κ ν) : κ → Option ν :=
  Function.update store change.1 change.2

def writeAll (store : κ → Option ν) (changes : List (KeyedWrite κ ν)) :
    κ → Option ν :=
  changes.foldl write store

theorem writeAll_append (store : κ → Option ν)
    (front back : List (KeyedWrite κ ν)) :
    writeAll store (front ++ back) = writeAll (writeAll store front) back :=
  List.foldl_append

/-- The writes name the key. -/
def Names (writes : List (KeyedWrite κ ν)) (key : κ) : Prop :=
  ∃ change ∈ writes, change.1 = key

theorem writeAll_of_not_names (silent : ¬Names writes key) :
    writeAll store writes key = store key := by
  induction writes generalizing store with
  | nil => rfl
  | cons change writes induction =>
      have other : change.1 ≠ key := fun same =>
        silent ⟨change, List.mem_cons_self, same⟩
      have later : ¬Names writes key := fun ⟨next, member, same⟩ =>
        silent ⟨next, List.mem_cons_of_mem _ member, same⟩
      have written : writeAll store (change :: writes) =
          writeAll (write store change) writes := rfl
      rw [written, induction later, write,
        Function.update_of_ne (Ne.symm other)]

theorem writeAll_congr
    (agree : ∀ key, ¬Names writes key → left key = right key) :
    writeAll left writes = writeAll right writes := by
  induction writes generalizing left right with
  | nil =>
      funext key
      exact agree key (by simp [Names])
  | cons change writes induction =>
      refine induction fun key silent => ?_
      by_cases named : change.1 = key
      · rw [write, write, named, Function.update_self, Function.update_self]
      · rw [write, write, Function.update_of_ne (Ne.symm named),
          Function.update_of_ne (Ne.symm named)]
        refine agree key ?_
        rintro ⟨other, member, same⟩
        rcases List.mem_cons.mp member with rfl | later
        · exact named same
        · exact silent ⟨other, later, same⟩

/-- A store that leads to where `front ++ middle ++ back` does when `back` is
written to it still leads there when `middle` is written again in front of
`back`. -/
theorem writeAll_again {middle : List (KeyedWrite κ ν)}
    (leads : writeAll left back = writeAll store (front ++ middle ++ back)) :
    writeAll left (middle ++ back) =
      writeAll store (front ++ middle ++ back) := by
  have whole : writeAll store (front ++ middle ++ back) =
      writeAll (writeAll store front) (middle ++ back) := by
    rw [List.append_assoc, writeAll_append]
  rw [whole] at leads ⊢
  refine writeAll_congr fun key silent => ?_
  have notBack : ¬Names back key := fun ⟨change, member, same⟩ =>
    silent ⟨change, List.mem_append_right _ member, same⟩
  have here := congrFun leads key
  rwa [writeAll_of_not_names notBack, writeAll_of_not_names silent] at here

end KeyedStore
