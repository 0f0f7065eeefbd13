import Mathlib.Data.List.Basic
import Mathlib.Tactic.Ring

/-!
# Bounded memory regions

A region is the list of bytes a program may legally touch.  Every read is
explicit and a read past the end is a fault, so "this run does not fault on the
region cut at address `n`" is the same statement as "this run reads below `n`".

`Stored memory address bytes` is the points-to assertion the proofs use: it is
closed under splitting and joining, and each reader has one lemma about it.
-/

/-- Why an execution has no result the language defines. -/
inductive Fault
  | outOfBounds
  | badIndex
  | nullPointer
  | overflow
  | useAfterFree
  | badShift
  | divergence
  deriving DecidableEq, Repr

abbrev Exec := Except Fault

abbrev Bytes := List UInt8

namespace Exec

variable {α β : Type}

@[simp] theorem ok_bind (value : α) (next : α → Exec β) :
    ((.ok value : Exec α) >>= next) = next value := rfl

@[simp] theorem error_bind (fault : Fault) (next : α → Exec β) :
    ((.error fault : Exec α) >>= next) = .error fault := rfl

@[simp] theorem pure_eq_ok (value : α) : (pure value : Exec α) = .ok value :=
  rfl

@[simp] theorem throw_eq_error (fault : Fault) :
    (throw fault : Exec α) = .error fault := rfl

theorem bind_eq_ok {run : Exec α} {next : α → Exec β} {result : β} :
    (run >>= next) = .ok result ↔
      ∃ value, run = .ok value ∧ next value = .ok result := by
  cases run with
  | error fault => simp
  | ok value => simp

theorem bind_returns {run : Exec α} {next : α → Exec β} {value : α}
    (first : run = .ok value) (later : ∃ result, next value = .ok result) :
    ∃ result, (run >>= next) = .ok result := by
  subst first
  exact later

theorem bind_congr {run run' : Exec α} {next next' : α → Exec β}
    (same : run = run')
    (later : ∀ value, run' = .ok value → next value = next' value) :
    run >>= next = run' >>= next' := by
  subst same
  cases run with
  | error fault => rfl
  | ok value => exact later value rfl

/-- Two computations that fault alike and whose results are related. -/
inductive Related (related : α → β → Prop) : Exec α → Exec β → Prop where
  | error (fault : Fault) : Related related (.error fault) (.error fault)
  | ok {left : α} {right : β} :
      related left right → Related related (.ok left) (.ok right)

namespace Related

variable {γ δ : Type} {first : α → β → Prop} {second : γ → δ → Prop}
  {left : Exec α} {right : Exec β}

theorem same {related : α → α → Prop} (all : ∀ value, related value value)
    (run : Exec α) : Related related run run := by
  cases run with
  | error fault => exact .error fault
  | ok value => exact .ok (all value)

theorem bind {next : α → Exec γ} {next' : β → Exec δ}
    (runs : Related first left right)
    (later : ∀ value value', first value value' →
      Related second (next value) (next' value')) :
    Related second (left >>= next) (right >>= next') := by
  cases runs with
  | error fault => exact .error fault
  | ok related => exact later _ _ related

end Related

end Exec

namespace Region

/-- `left - right` on an unsigned 64-bit size, which wraps below zero. -/
def sizeSub (left right : Nat) : Nat :=
  (left + 18446744073709551616 - right) % 18446744073709551616

/-- The byte at `address`. -/
def readByte (memory : Bytes) (address : Nat) : Exec UInt8 :=
  match memory[address]? with
  | some byte => .ok byte
  | none => .error .outOfBounds

/-- `width` bytes from `address` on, low byte first. -/
def readLE (memory : Bytes) (address : Nat) : Nat → Exec Nat
  | 0 => .ok 0
  | width + 1 => do
      let low ← readByte memory address
      let high ← readLE memory (address + 1) width
      return low.toNat + 256 * high

/-- A copy of `count` bytes from `address` on. -/
def readBytes (memory : Bytes) (address count : Nat) : Exec Bytes :=
  if count = 0 ∨ address + count ≤ memory.length then
    .ok ((memory.drop address).take count)
  else .error .outOfBounds

/-- The bytes in front of the first NUL. -/
def untilNul : Bytes → Exec Bytes
  | [] => .error .outOfBounds
  | byte :: rest =>
      if byte = 0 then .ok [] else do
        let tail ← untilNul rest
        return byte :: tail

/-- The NUL-terminated string at `address`. -/
def readCString (memory : Bytes) (address : Nat) : Exec Bytes :=
  untilNul (memory.drop address)

/-- The value of little-endian bytes. -/
def littleEndian : Bytes → Nat
  | [] => 0
  | byte :: rest => byte.toNat + 256 * littleEndian rest

/-- The `width` little-endian bytes of `value`. -/
def bytesLE : Nat → Nat → Bytes
  | 0, _ => []
  | width + 1, value => UInt8.ofNat value :: bytesLE width (value / 256)

/-- `bytes` lie in `memory` from `address` on. -/
def Stored (memory : Bytes) (address : Nat) (bytes : Bytes) : Prop :=
  ∃ before after, memory = before ++ bytes ++ after ∧ before.length = address

theorem sizeSub_eq {left right : Nat} (le : right ≤ left)
    (small : left < 18446744073709551616) :
    sizeSub left right = left - right := by
  unfold sizeSub
  omega

theorem sizeSub_of_add {total part rest : Nat} (same : total = part + rest)
    (small : total < 18446744073709551616) : sizeSub total part = rest := by
  rw [sizeSub_eq (by omega) small]
  omega

@[simp] theorem littleEndian_nil : littleEndian [] = 0 := rfl

@[simp] theorem littleEndian_cons (byte : UInt8) (rest : Bytes) :
    littleEndian (byte :: rest) = byte.toNat + 256 * littleEndian rest := rfl

theorem littleEndian_append (front back : Bytes) :
    littleEndian (front ++ back) =
      littleEndian front + 256 ^ front.length * littleEndian back := by
  induction front with
  | nil => simp
  | cons byte rest induction =>
      simp only [List.cons_append, littleEndian_cons, List.length_cons, induction]
      ring

theorem littleEndian_lt (bytes : Bytes) :
    littleEndian bytes < 256 ^ bytes.length := by
  induction bytes with
  | nil => simp
  | cons byte rest induction =>
      have low : byte.toNat < 256 := byte.toNat_lt
      simp only [littleEndian_cons, List.length_cons, Nat.pow_succ]
      omega

theorem littleEndian_inj {left right : Bytes}
    (length : left.length = right.length)
    (same : littleEndian left = littleEndian right) : left = right := by
  induction left generalizing right with
  | nil => exact (List.length_eq_zero_iff.mp length.symm).symm
  | cons byte rest induction =>
      cases right with
      | nil => cases length
      | cons other others =>
          have low := byte.toNat_lt
          have otherLow := other.toNat_lt
          simp only [littleEndian_cons] at same
          have first : byte = other := UInt8.toNat_inj.mp (by omega)
          have later : rest = others :=
            induction (Nat.succ.inj length) (by omega)
          rw [first, later]

theorem littleEndian_eq_zero_iff {bytes : Bytes} :
    littleEndian bytes = 0 ↔ ∀ byte ∈ bytes, byte = 0 := by
  induction bytes with
  | nil => simp
  | cons byte rest induction =>
      have low : byte.toNat = 0 ↔ byte = 0 := by
        rw [← UInt8.toNat_inj]
        rfl
      rw [littleEndian_cons, List.forall_mem_cons, ← induction, ← low]
      omega

theorem littleEndian_take {bytes : Bytes} {width : Nat}
    (inside : width ≤ bytes.length) :
    littleEndian (bytes.take width) = littleEndian bytes % 256 ^ width := by
  have length : (bytes.take width).length = width := by
    simp [inside]
  have low := littleEndian_lt (bytes.take width)
  have split := littleEndian_append (bytes.take width) (bytes.drop width)
  rw [List.take_append_drop, length] at split
  rw [length] at low
  rw [split, Nat.add_mul_mod_self_left, Nat.mod_eq_of_lt low]

@[simp] theorem bytesLE_length (width value : Nat) :
    (bytesLE width value).length = width := by
  induction width generalizing value with
  | zero => rfl
  | succ width induction => simp [bytesLE, induction]

theorem littleEndian_bytesLE (width value : Nat) :
    littleEndian (bytesLE width value) = value % 256 ^ width := by
  induction width generalizing value with
  | zero => simp [bytesLE, Nat.mod_one]
  | succ width induction =>
      have low : (UInt8.ofNat value).toNat = value % 256 := by simp
      rw [bytesLE, littleEndian_cons, induction, low, Nat.pow_succ',
        Nat.mod_mul]

theorem littleEndian_bytesLE_of_lt {width value : Nat}
    (small : value < 256 ^ width) :
    littleEndian (bytesLE width value) = value := by
  rw [littleEndian_bytesLE, Nat.mod_eq_of_lt small]

namespace Stored

theorem intro (before bytes after : Bytes) :
    Stored (before ++ bytes ++ after) before.length bytes :=
  ⟨before, after, rfl, rfl⟩

theorem left {memory : Bytes} {address : Nat} {front back : Bytes}
    (stored : Stored memory address (front ++ back)) :
    Stored memory address front := by
  obtain ⟨before, after, rfl, length⟩ := stored
  exact ⟨before, back ++ after, by simp, length⟩

theorem right {memory : Bytes} {address : Nat} {front back : Bytes}
    (stored : Stored memory address (front ++ back)) :
    Stored memory (address + front.length) back := by
  obtain ⟨before, after, rfl, length⟩ := stored
  exact ⟨before ++ front, after, by simp, by simp [length]⟩

theorem tail {memory : Bytes} {address : Nat} {byte : UInt8} {rest : Bytes}
    (stored : Stored memory address (byte :: rest)) :
    Stored memory (address + 1) rest := by
  have split : Stored memory address ([byte] ++ rest) := stored
  exact split.right

theorem append {memory : Bytes} {address : Nat} {front back : Bytes}
    (first : Stored memory address front)
    (second : Stored memory (address + front.length) back) :
    Stored memory address (front ++ back) := by
  obtain ⟨before, after, rfl, length⟩ := first
  obtain ⟨before', after', equality, length'⟩ := second
  have lengths : (before ++ front).length = before'.length := by
    simp [length, length']
  have tails : after = back ++ after' := by
    have split := equality
    rw [List.append_assoc before' back after'] at split
    exact (List.append_inj split lengths).2
  exact ⟨before, after', by simp [tails], length⟩

/-- The same bytes, at an address written another way. -/
theorem relocate {memory : Bytes} {address other : Nat} {bytes : Bytes}
    (stored : Stored memory address bytes) (same : address = other) :
    Stored memory other bytes :=
  same ▸ stored

theorem empty {memory : Bytes} {address : Nat}
    (inside : address ≤ memory.length) : Stored memory address [] :=
  ⟨memory.take address, memory.drop address, by simp, by simp [inside]⟩

theorem fits {memory : Bytes} {address : Nat} {bytes : Bytes}
    (stored : Stored memory address bytes) :
    address + bytes.length ≤ memory.length := by
  obtain ⟨before, after, rfl, length⟩ := stored
  simp [length]

theorem drop_take {memory : Bytes} {address : Nat} {bytes : Bytes}
    (stored : Stored memory address bytes) :
    (memory.drop address).take bytes.length = bytes := by
  obtain ⟨before, after, rfl, rfl⟩ := stored
  simp

theorem of_take_drop (memory : Bytes) {address count : Nat}
    (inside : address + count ≤ memory.length) :
    Stored memory address ((memory.drop address).take count) := by
  refine ⟨memory.take address, memory.drop (address + count), ?_, ?_⟩
  · rw [← List.drop_drop, List.append_assoc, List.take_append_drop,
      List.take_append_drop]
  · simp only [List.length_take]
    omega

theorem slice {memory : Bytes} {address offset : Nat} {bytes : Bytes}
    (stored : Stored memory address bytes) (count : Nat)
    (inside : offset ≤ bytes.length) :
    Stored memory (address + offset) ((bytes.drop offset).take count) := by
  have split : bytes = bytes.take offset ++
      ((bytes.drop offset).take count ++ (bytes.drop offset).drop count) := by
    rw [List.take_append_drop, List.take_append_drop]
  have length : (bytes.take offset).length = offset := by simp [inside]
  rw [split] at stored
  have tail := stored.right
  rw [length] at tail
  exact tail.left

theorem extend {memory : Bytes} {address : Nat} {bytes : Bytes}
    (stored : Stored memory address bytes) (more : Bytes) :
    Stored (memory ++ more) address bytes := by
  obtain ⟨before, after, rfl, length⟩ := stored
  exact ⟨before, after ++ more, by simp, length⟩

/-- What is stored in front of a cut stays stored in the cut memory. -/
theorem cut {memory : Bytes} {address limit : Nat} {bytes : Bytes}
    (stored : Stored memory address bytes)
    (inside : address + bytes.length ≤ limit) :
    Stored (memory.take limit) address bytes := by
  obtain ⟨before, after, rfl, length⟩ := stored
  refine ⟨before, after.take (limit - (before ++ bytes).length), ?_, length⟩
  rw [List.take_append, List.take_of_length_le]
  simp only [List.length_append]
  omega

theorem shift {memory : Bytes} {address : Nat} {bytes : Bytes}
    (front : Bytes) (stored : Stored memory address bytes) :
    Stored (front ++ memory) (front.length + address) bytes := by
  obtain ⟨before, after, rfl, length⟩ := stored
  exact ⟨front ++ before, after, by simp, by simp [length]⟩

end Stored

theorem readByte_eq_ok {memory : Bytes} {address : Nat}
    (inside : address < memory.length) :
    readByte memory address = .ok memory[address] := by
  simp [readByte, inside]

theorem readByte_eq_error {memory : Bytes} {address : Nat}
    (outside : memory.length ≤ address) :
    readByte memory address = .error .outOfBounds := by
  simp [readByte, outside]

theorem readByte_of_stored {memory : Bytes} {address : Nat} {byte : UInt8}
    {rest : Bytes} (stored : Stored memory address (byte :: rest)) :
    readByte memory address = .ok byte := by
  obtain ⟨before, after, rfl, rfl⟩ := stored
  simp [readByte]

theorem readLE_of_stored {memory : Bytes} {address : Nat} {bytes : Bytes}
    (stored : Stored memory address bytes) :
    readLE memory address bytes.length = .ok (littleEndian bytes) := by
  induction bytes generalizing address with
  | nil => rfl
  | cons byte rest induction =>
      have tail : Stored memory (address + 1) rest :=
        Stored.tail stored
      simp [readLE, readByte_of_stored stored, induction tail]

theorem readLE_eq_ok {memory : Bytes} {address width : Nat}
    (inside : address + width ≤ memory.length) :
    readLE memory address width =
      .ok (littleEndian ((memory.drop address).take width)) := by
  have stored := Stored.of_take_drop memory inside
  have length : ((memory.drop address).take width).length = width := by
    simp only [List.length_take, List.length_drop]
    omega
  have read := readLE_of_stored stored
  rwa [length] at read

theorem readLE_eq_error {memory : Bytes} {address width : Nat}
    (wide : 0 < width) (outside : memory.length < address + width) :
    readLE memory address width = .error .outOfBounds := by
  induction width generalizing address with
  | zero => omega
  | succ width induction =>
      by_cases inside : address < memory.length
      · have nonzero : 0 < width := by omega
        have tail := @induction (address + 1) nonzero (by omega)
        simp [readLE, readByte_eq_ok inside, tail]
      · simp [readLE, readByte_eq_error (Nat.le_of_not_lt inside)]

theorem readLE_inside {memory : Bytes} {address width value : Nat}
    (wide : 0 < width) (read : readLE memory address width = .ok value) :
    address + width ≤ memory.length := by
  by_contra outside
  rw [readLE_eq_error wide (Nat.lt_of_not_le outside)] at read
  cases read

theorem readLE_lt {memory : Bytes} {address width value : Nat}
    (read : readLE memory address width = .ok value) :
    value < 256 ^ width := by
  by_cases inside : address + width ≤ memory.length
  · rw [readLE_eq_ok inside] at read
    cases read
    calc
      littleEndian ((memory.drop address).take width)
          < 256 ^ ((memory.drop address).take width).length :=
        littleEndian_lt _
      _ ≤ 256 ^ width :=
        Nat.pow_le_pow_right (by omega) (List.length_take_le _ _)
  · cases width with
    | zero =>
        simp only [readLE, Except.ok.injEq] at read
        simp [← read]
    | succ width =>
        rw [readLE_eq_error (by omega) (Nat.lt_of_not_le inside)] at read
        cases read

/-- What stands in front does not matter to a read behind it. -/
theorem readByte_append (front rest : Bytes) (offset : Nat) :
    readByte (front ++ rest) (front.length + offset) =
      readByte rest offset := by
  unfold readByte
  rw [List.getElem?_append_right (Nat.le_add_right _ _),
    Nat.add_sub_cancel_left]

theorem readLE_append (front rest : Bytes) (offset width : Nat) :
    readLE (front ++ rest) (front.length + offset) width =
      readLE rest offset width := by
  induction width generalizing offset with
  | zero => rfl
  | succ width induction =>
      unfold readLE
      rw [readByte_append, Nat.add_assoc, induction]

theorem readBytes_of_stored {memory : Bytes} {address : Nat} {bytes : Bytes}
    (stored : Stored memory address bytes) :
    readBytes memory address bytes.length = .ok bytes := by
  simp [readBytes, stored.fits, stored.drop_take]

theorem untilNul_append {text : Bytes} (plain : 0 ∉ text) (after : Bytes) :
    untilNul (text ++ 0 :: after) = .ok text := by
  induction text with
  | nil => simp [untilNul]
  | cons byte rest induction =>
      simp only [List.mem_cons, not_or] at plain
      simp [untilNul, Ne.symm plain.1, induction plain.2]

theorem readCString_of_stored {memory : Bytes} {address : Nat} {text : Bytes}
    (plain : 0 ∉ text) (stored : Stored memory address (text ++ [0])) :
    readCString memory address = .ok text := by
  obtain ⟨before, after, rfl, rfl⟩ := stored
  simp [readCString, untilNul_append plain]

/-- The C string at `address`, as far as memory goes. -/
def cString (memory : Bytes) (address : Nat) : Bytes :=
  (memory.drop address).takeWhile (· ≠ 0)

theorem untilNul_eq_ok {bytes : Bytes} (ends : 0 ∈ bytes) :
    untilNul bytes = .ok (bytes.takeWhile (· ≠ 0)) := by
  induction bytes with
  | nil => simp at ends
  | cons byte rest induction =>
      by_cases nul : byte = 0
      · simp [untilNul, nul]
      · have later : 0 ∈ rest := by
          rcases List.mem_cons.mp ends with here | later
          · exact absurd here.symm nul
          · exact later
        simp [untilNul, nul, induction later]

theorem mem_of_untilNul {bytes text : Bytes}
    (run : untilNul bytes = .ok text) : 0 ∈ bytes := by
  induction bytes generalizing text with
  | nil => cases run
  | cons byte rest induction =>
      by_cases nul : byte = 0
      · exact List.mem_cons.mpr (Or.inl nul.symm)
      · rw [untilNul, if_neg nul] at run
        obtain ⟨tail, tailRun, _⟩ := Exec.bind_eq_ok.mp run
        exact List.mem_cons_of_mem _ (induction tailRun)

theorem readCString_eq_ok {memory : Bytes} {address : Nat}
    (ends : 0 ∈ memory.drop address) :
    readCString memory address = .ok (cString memory address) :=
  untilNul_eq_ok ends

theorem readCString_inv {memory text : Bytes} {address : Nat}
    (read : readCString memory address = .ok text) :
    0 ∈ memory.drop address ∧ text = cString memory address := by
  have ends := mem_of_untilNul read
  rw [readCString_eq_ok ends] at read
  cases read
  exact ⟨ends, rfl⟩

theorem takeWhile_length_lt_iff {bytes : Bytes} (count : Nat)
    (ends : 0 ∈ bytes) :
    (bytes.takeWhile (· ≠ 0)).length < count ↔ 0 ∈ bytes.take count := by
  induction bytes generalizing count with
  | nil => simp at ends
  | cons byte rest induction =>
      cases count with
      | zero => simp
      | succ count =>
          by_cases nul : byte = 0
          · simp [nul]
          · have later : 0 ∈ rest := by
              rcases List.mem_cons.mp ends with here | later
              · exact absurd here.symm nul
              · exact later
            have different : ¬0 = byte := fun same => nul same.symm
            have kept := induction count later
            simpa [nul, different] using kept

end Region
