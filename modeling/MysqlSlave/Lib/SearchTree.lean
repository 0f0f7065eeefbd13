import MysqlSlave.Lib.OrderedMap

/-!
# Search trees

A map kept in a binary tree, as a standard library does it: a lookup goes down to
the first key that is not less than the one asked for.  The comparator has to be a
strict weak order; then the lookups of a tree are those of the ordered map with
the same assignments, however the tree has been balanced in between.
-/

inductive SearchTree (κ α : Type)
  | leaf
  | node (left : SearchTree κ α) (entry : κ × α) (right : SearchTree κ α)

namespace SearchTree

open OrderedMap (sameKey sameKey_comm sameKey_iff sameKey_trans sameKey_congr
  lastFor lastFor_snoc)

variable {κ α : Type}

/-- The entries from left to right. -/
def entries : SearchTree κ α → List (κ × α)
  | leaf => []
  | node left entry right => left.entries ++ entry :: right.entries

section Operations

variable (less : κ → κ → Bool)

/-- The first entry whose key is not less than `key`, otherwise the candidate. -/
def lowerBound (key : κ) :
    SearchTree κ α → Option (κ × α) → Option (κ × α)
  | leaf, candidate => candidate
  | node left entry right, candidate =>
      if less entry.1 key then lowerBound key right candidate
      else lowerBound key left (some entry)

/-- The entry to report, if the lower bound is not beyond the key. -/
def reported (key : κ) : Option (κ × α) → Option α
  | none => none
  | some entry => if less key entry.1 then none else some entry.2

def find? (tree : SearchTree κ α) (key : κ) : Option α :=
  reported less key (tree.lowerBound less key none)

def assign (key : κ) (value : α) : SearchTree κ α → SearchTree κ α
  | leaf => node leaf (key, value) leaf
  | node left entry right =>
      if less key entry.1 then node (assign key value left) entry right
      else if less entry.1 key then node left entry (assign key value right)
      else node left (entry.1, value) right

/-- Every key is less than those right of it. -/
def Ordered (tree : SearchTree κ α) : Prop :=
  tree.entries.Pairwise fun left right => less left.1 right.1 = true

/-- A tree that has taken these assignments, one after the other.  It may have
been balanced at any time. -/
inductive Built : List (κ × α) → SearchTree κ α → Prop
  | leaf : Built [] leaf
  | assign {pairs : List (κ × α)} {tree : SearchTree κ α} (key : κ)
      (value : α) :
      Built pairs tree →
      Built (pairs ++ [(key, value)]) (tree.assign less key value)
  | balance {pairs : List (κ × α)} {tree balanced : SearchTree κ α} :
      Built pairs tree →
      balanced.entries = tree.entries →
      Built pairs balanced

end Operations

variable {less : κ → κ → Bool} {tree left right : SearchTree κ α}
  {entry : κ × α}

theorem ordered_node :
    (node left entry right).Ordered less ↔
      left.Ordered less ∧ right.Ordered less ∧
        (∀ other ∈ left.entries, less other.1 entry.1 = true) ∧
        (∀ other ∈ right.entries, less entry.1 other.1 = true) ∧
        ∀ first ∈ left.entries, ∀ second ∈ right.entries,
          less first.1 second.1 = true := by
  simp only [Ordered, entries, List.pairwise_append, List.pairwise_cons,
    List.forall_mem_cons, forall_and]
  tauto

theorem forall_entries_assign (property : κ → Prop) {key : κ} {value : α}
    (assigned : property key)
    (all : ∀ entry ∈ tree.entries, property entry.1) :
    ∀ entry ∈ (tree.assign less key value).entries, property entry.1 := by
  induction tree with
  | leaf => simpa [assign, entries] using assigned
  | node left entry right leftInduction rightInduction =>
      simp only [entries, List.forall_mem_append, List.forall_mem_cons] at all
      obtain ⟨leftAll, here, rightAll⟩ := all
      rw [assign]
      split
      · simp only [entries, List.forall_mem_append, List.forall_mem_cons]
        exact ⟨leftInduction leftAll, here, rightAll⟩
      · split
        · simp only [entries, List.forall_mem_append, List.forall_mem_cons]
          exact ⟨leftAll, here, rightInduction rightAll⟩
        · simp only [entries, List.forall_mem_append, List.forall_mem_cons]
          exact ⟨leftAll, here, rightAll⟩

variable [order : IsStrictWeakOrder κ fun left right => less left right = true]

include order

theorem not_sameKey_of_less {below key other : κ}
    (less_ : less below key = true) (same : sameKey less key other = true) :
    sameKey less below other = false := by
  rw [Bool.eq_false_iff]
  intro impossible
  rw [sameKey_comm] at same
  have equal := sameKey_trans impossible same
  exact (sameKey_iff.mp equal).1 less_

theorem lowerBound_eq {key : κ} (ordered : tree.Ordered less)
    (candidate : Option (κ × α)) :
    tree.lowerBound less key candidate =
      (tree.entries.find? fun entry => !less entry.1 key).or candidate := by
  induction tree generalizing candidate with
  | leaf => rfl
  | node left entry right leftInduction rightInduction =>
      obtain ⟨leftOrdered, rightOrdered, leftLess, _, _⟩ :=
        ordered_node.mp ordered
      rw [lowerBound, entries, List.find?_append, List.find?_cons]
      split
      case isTrue below =>
        have none : left.entries.find? (fun entry => !less entry.1 key) =
            none := by
          rw [List.find?_eq_none]
          intro other member
          have smaller : less other.1 key = true :=
            order.trans _ _ _ (leftLess other member) below
          simp [smaller]
        rw [rightInduction rightOrdered, none, below]
        rfl
      case isFalse notBelow =>
        have first : (!less entry.1 key) = true := by simpa using notBelow
        rw [leftInduction leftOrdered, first, Option.or_assoc]
        rfl

/-- In an ordered list the lower bound is the entry for the key, if there is
one. -/
theorem reported_find? {key : κ} {list : List (κ × α)}
    (ordered : list.Pairwise fun left right => less left.1 right.1 = true) :
    reported less key (list.find? fun entry => !less entry.1 key) =
      (list.find? fun entry => sameKey less entry.1 key).map Prod.snd := by
  induction list with
  | nil => rfl
  | cons entry rest induction =>
      obtain ⟨entryLess, restOrdered⟩ := List.pairwise_cons.mp ordered
      rw [List.find?_cons, List.find?_cons]
      cases below : less entry.1 key with
      | true =>
          have different : sameKey less entry.1 key = false := by
            simp [sameKey, below]
          simpa [different] using induction restOrdered
      | false =>
          cases above : less key entry.1 with
          | false =>
              have same : sameKey less entry.1 key = true := by
                simp [sameKey, below, above]
              simp [reported, above, same]
          | true =>
              have different : sameKey less entry.1 key = false := by
                simp [sameKey, above]
              have none : rest.find? (fun other => sameKey less other.1 key) =
                  none := by
                rw [List.find?_eq_none]
                intro other member
                have beyond : less key other.1 = true :=
                  order.trans _ _ _ above (entryLess other member)
                simp [sameKey, beyond]
              simp [reported, above, different, none]

/-- A lookup finds the entry for the key in an ordered tree of any shape. -/
theorem find?_eq {key : κ} (ordered : tree.Ordered less) :
    tree.find? less key =
      (tree.entries.find? fun entry => sameKey less entry.1 key).map
        Prod.snd := by
  rw [find?, lowerBound_eq ordered, Option.or_none, reported_find? ordered]

theorem assign_ordered (key : κ) (value : α) (ordered : tree.Ordered less) :
    (tree.assign less key value).Ordered less := by
  induction tree with
  | leaf => simp [assign, Ordered, entries]
  | node left entry right leftInduction rightInduction =>
      obtain ⟨leftOrdered, rightOrdered, leftLess, rightLess, across⟩ :=
        ordered_node.mp ordered
      rw [assign]
      split
      case isTrue below =>
        have small : ∀ other ∈ (left.assign less key value).entries,
            less other.1 entry.1 = true :=
          forall_entries_assign (less · entry.1 = true) below leftLess
        refine ordered_node.mpr ⟨leftInduction leftOrdered, rightOrdered,
          small, rightLess, ?_⟩
        intro first firstMember second secondMember
        exact order.trans _ _ _ (small first firstMember)
          (rightLess second secondMember)
      case isFalse =>
        split
        case isTrue above =>
          have large : ∀ other ∈ (right.assign less key value).entries,
              less entry.1 other.1 = true :=
            forall_entries_assign (less entry.1 · = true) above rightLess
          refine ordered_node.mpr ⟨leftOrdered, rightInduction rightOrdered,
            leftLess, large, ?_⟩
          intro first firstMember second secondMember
          exact order.trans _ _ _ (leftLess first firstMember)
            (large second secondMember)
        case isFalse =>
          exact ordered_node.mpr ⟨leftOrdered, rightOrdered, leftLess,
            rightLess, across⟩

theorem find?_entries_assign (key : κ) (value : α) (other : κ)
    (ordered : tree.Ordered less) :
    ((tree.assign less key value).entries.find? fun entry =>
        sameKey less entry.1 other).map Prod.snd =
      if sameKey less key other then some value
      else (tree.entries.find? fun entry =>
        sameKey less entry.1 other).map Prod.snd := by
  induction tree with
  | leaf =>
      simp only [assign, entries, List.nil_append, List.find?_cons]
      cases sameKey less key other <;> rfl
  | node left entry right leftInduction rightInduction =>
      obtain ⟨leftOrdered, rightOrdered, leftLess, _, _⟩ :=
        ordered_node.mp ordered
      -- nothing left of a key at or below the assigned one is the same
      have skipped : ∀ {bound : κ}, sameKey less bound other = true →
          (∀ first ∈ left.entries, less first.1 bound = true) →
          left.entries.find? (fun entry => sameKey less entry.1 other) =
            none := by
        intro bound same below
        rw [List.find?_eq_none]
        intro first member
        rw [not_sameKey_of_less (below first member) same]
        exact Bool.false_ne_true
      rw [assign]
      split
      case isTrue below =>
        simp only [entries, List.find?_append, Option.map_or,
          leftInduction leftOrdered]
        cases sameKey less key other <;> rfl
      case isFalse notBelow =>
        split
        case isTrue above =>
          simp only [entries, List.find?_append, Option.map_or,
            List.find?_cons]
          cases same : sameKey less key other with
          | false =>
              have induction := rightInduction rightOrdered
              rw [same] at induction
              cases sameKey less entry.1 other with
              | false => simpa using congrArg _ induction
              | true => rfl
          | true =>
              have induction := rightInduction rightOrdered
              rw [same, if_pos rfl] at induction
              have here := not_sameKey_of_less above same
              have front := skipped same fun first member =>
                order.trans _ _ _ (leftLess first member) above
              simp [front, here, induction]
        case isFalse notAbove =>
          have equal : sameKey less entry.1 key = true :=
            sameKey_iff.mpr ⟨notAbove, notBelow⟩
          have congr := sameKey_congr equal other
          simp only [entries, List.find?_append, Option.map_or,
            List.find?_cons, congr]
          cases same : sameKey less key other with
          | false => rfl
          | true =>
              have front := skipped (congr.trans same) leftLess
              simp [front]

theorem Built.ordered {pairs : List (κ × α)} (built : Built less pairs tree) :
    tree.Ordered less := by
  induction built with
  | leaf => exact List.Pairwise.nil
  | assign key value built induction => exact assign_ordered key value induction
  | balance built same induction =>
      rw [Ordered, same]
      exact induction

/-- Every tree that has taken the assignments finds the last one for a key. -/
theorem Built.find?_eq {pairs : List (κ × α)} (built : Built less pairs tree)
    (key : κ) : tree.find? less key = lastFor less key pairs := by
  rw [SearchTree.find?_eq built.ordered]
  induction built with
  | leaf => rfl
  | assign assigned value built induction =>
      rw [find?_entries_assign assigned value key built.ordered, induction,
        lastFor_snoc]
  | balance built same induction => rw [same, induction]

end SearchTree
