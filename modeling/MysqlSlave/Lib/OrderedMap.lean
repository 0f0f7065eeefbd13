import Mathlib.Data.List.Basic
import Mathlib.Data.List.Induction
import Mathlib.Order.Defs.Unbundled

/-!
# Maps ordered by a comparator

A map whose keys are compared only through a strict order `less`, in the manner
of a balanced search tree: two keys are the same key when neither is less than
the other, there is at most one entry for each key, and assigning to a key that
is there already keeps the spelling it was first inserted with.
-/

structure OrderedMap (κ α : Type) where
  entries : List (κ × α) := []
  deriving DecidableEq, Repr

namespace OrderedMap

variable {κ α : Type} (less : κ → κ → Bool)

/-- The equivalence a comparator induces on keys. -/
def sameKey (left right : κ) : Bool := !less left right && !less right left

def find? (map : OrderedMap κ α) (key : κ) : Option α :=
  (map.entries.find? fun entry => sameKey less entry.1 key).map Prod.snd

def assignEntries (key : κ) (value : α) : List (κ × α) → List (κ × α)
  | [] => [(key, value)]
  | entry :: rest =>
      if sameKey less entry.1 key then (entry.1, value) :: rest
      else entry :: assignEntries key value rest

def assign (map : OrderedMap κ α) (key : κ) (value : α) : OrderedMap κ α :=
  ⟨assignEntries less key value map.entries⟩

def assignAll (map : OrderedMap κ α) (pairs : List (κ × α)) :
    OrderedMap κ α :=
  pairs.foldl (fun map pair => map.assign less pair.1 pair.2) map

/-- What the last of the assignments to a key assigned. -/
def lastFor (key : κ) (pairs : List (κ × α)) : Option α :=
  (pairs.reverse.find? fun pair => sameKey less pair.1 key).map Prod.snd

@[simp] theorem lastFor_nil (key : κ) :
    lastFor less key ([] : List (κ × α)) = none := rfl

theorem lastFor_snoc (key : κ) (pairs : List (κ × α)) (pair : κ × α) :
    lastFor less key (pairs ++ [pair]) =
      if sameKey less pair.1 key then some pair.2
      else lastFor less key pairs := by
  unfold lastFor
  rw [List.reverse_append, List.reverse_singleton, List.singleton_append,
    List.find?_cons]
  cases sameKey less pair.1 key <;> rfl

theorem sameKey_comm (left right : κ) :
    sameKey less left right = sameKey less right left := by
  rw [sameKey, sameKey, Bool.and_comm]

variable {less} in
theorem sameKey_iff {left right : κ} :
    sameKey less left right = true ↔
      ¬less left right = true ∧ ¬less right left = true := by
  simp [sameKey]

section StrictWeakOrder

variable {less} [order : IsStrictWeakOrder κ fun left right =>
  less left right = true]

include order

theorem sameKey_trans {left middle right : κ}
    (first : sameKey less left middle = true)
    (second : sameKey less middle right = true) :
    sameKey less left right = true :=
  sameKey_iff.mpr
    (order.incomp_trans _ _ _ (sameKey_iff.mp first) (sameKey_iff.mp second))

theorem sameKey_congr {left right : κ} (same : sameKey less left right = true)
    (key : κ) : sameKey less left key = sameKey less right key := by
  rw [Bool.eq_iff_iff]
  constructor
  · intro leftSame
    rw [sameKey_comm] at same
    exact sameKey_trans same leftSame
  · exact sameKey_trans same

theorem find?_assign (map : OrderedMap κ α) (key : κ) (value : α)
    (other : κ) :
    (map.assign less key value).find? less other =
      if sameKey less key other then some value
      else map.find? less other := by
  obtain ⟨entries⟩ := map
  simp only [assign, find?]
  induction entries with
  | nil =>
      rw [assignEntries, List.find?_cons]
      cases sameKey less key other <;> rfl
  | cons entry rest induction =>
      rw [assignEntries]
      split
      case isTrue same =>
        have congr := sameKey_congr same other
        rw [List.find?_cons, List.find?_cons, congr]
        cases sameKey less key other <;> rfl
      case isFalse different =>
        rw [List.find?_cons, List.find?_cons]
        cases found : sameKey less entry.1 other with
        | false => simpa using induction
        | true =>
            have elsewhere : ¬sameKey less key other = true := by
              intro same
              rw [sameKey_comm] at same
              exact different (sameKey_trans found same)
            simp [elsewhere]

/-- After some assignments a key leads to what the last one for it assigned. -/
theorem find?_assignAll (map : OrderedMap κ α) (pairs : List (κ × α))
    (key : κ) :
    (map.assignAll less pairs).find? less key =
      (lastFor less key pairs).or (map.find? less key) := by
  induction pairs using List.reverseRecOn with
  | nil => rfl
  | append_singleton pairs pair induction =>
      rw [assignAll, List.foldl_concat, ← assignAll, find?_assign, induction,
        lastFor_snoc]
      split <;> rfl

end StrictWeakOrder

end OrderedMap
