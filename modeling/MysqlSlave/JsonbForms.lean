import MysqlSlave.JsonbBounds

/-!
# Bytes that are JSON values

Which bytes are the binary form of a JSON value, by the bytes alone: they need not
be laid out as a server does it.  Those that a server stores are.
-/

namespace MysqlSlave

open Region

namespace Jsonb

/-- The types whose values stand in a value entry themselves. -/
def IsInlined (large : Bool) (type : UInt8) : Prop :=
  type = 4 ∨ type = 5 ∨ type = 6 ∨ large = true ∧ (type = 7 ∨ type = 8)

/-- The size or offset at a place. -/
def offsetAt (large : Bool) (body : Bytes) (place : Nat) : Nat :=
  littleEndian ((body.drop place).take (CValue.slot large))

/-- The key of the key entry at a place lies behind the header, in the body. -/
def KeyInside (large : Bool) (body : Bytes) (header place : Nat) : Prop :=
  header ≤ offsetAt large body place ∧
    offsetAt large body place +
        littleEndian ((body.drop (place + CValue.slot large)).take 2) ≤
      body.length

mutual

/-- The bytes begin with a value of the type in its binary form. -/
inductive Formed : UInt8 → Bytes → Prop where
  | literal {value : UInt8} {rest : Bytes} :
      value.toNat ≤ 2 → Formed 4 (value :: rest)
  | integer (type : IntegerType) {data : Bytes} :
      type.width ≤ data.length → Formed type.code data
  | double {data : Bytes} : 8 ≤ data.length → Formed 11 data
  | string {text rest : Bytes} :
      text.length < 4294967296 →
      Formed 12 (lengthGroups text.length ++ text ++ rest)
  | custom {fieldType : UInt8} {content rest : Bytes} :
      content.length < 4294967296 →
      Formed 15 (fieldType :: lengthGroups content.length ++ content ++ rest)
  | array {large : Bool} {body rest : Bytes} :
      2 * CValue.slot large + count large body * (1 + CValue.slot large) ≤
        body.length →
      offsetAt large body (CValue.slot large) = body.length →
      (∀ i < count large body,
        FormedEntry large body
          (2 * CValue.slot large + i * (1 + CValue.slot large))) →
      Formed (if large then 3 else 2) (body ++ rest)
  | object {large : Bool} {body rest : Bytes} :
      keysStart large body + count large body * (1 + CValue.slot large) ≤
        body.length →
      offsetAt large body (CValue.slot large) = body.length →
      (∀ i < count large body,
        KeyInside large body
          (keysStart large body + count large body * (1 + CValue.slot large))
          (2 * CValue.slot large + i * (CValue.slot large + 2))) →
      (∀ i < count large body,
        FormedEntry large body
          (keysStart large body + i * (1 + CValue.slot large))) →
      Formed (if large then 1 else 0) (body ++ rest)

/-- A value entry: a type and a value of it, or the offset of one behind the
entry. -/
inductive FormedEntry : Bool → Bytes → Nat → Prop where
  | inlined {large : Bool} {body : Bytes} {place : Nat} {type : UInt8} :
      body[place]? = some type →
      IsInlined large type →
      Formed type ((body.drop (place + 1)).take (CValue.slot large)) →
      FormedEntry large body place
  | placed {large : Bool} {body : Bytes} {place : Nat} {type : UInt8} :
      body[place]? = some type →
      ¬IsInlined large type →
      place + 1 + CValue.slot large ≤ offsetAt large body (place + 1) →
      offsetAt large body (place + 1) ≤ body.length →
      Formed type (body.drop (offsetAt large body (place + 1))) →
      FormedEntry large body place

end

/-- The bytes are a JSON value in its binary form. -/
def FormedValue : Bytes → Prop
  | [] => False
  | type :: data => Formed type data

section Stored

variable {large : Bool} {body : Bytes}

theorem isInlined_integer (type : IntegerType) :
    IsInlined large type.code ↔
      type.width = 2 ∨ type.width = 4 ∧ large = true := by
  cases type <;> simp [IsInlined, IntegerType.code, IntegerType.width]

theorem inlined_literal {number : Int} (small : number = 0 ∨ number = 1 ∨ number = 2) :
    Formed 4 (integerBytes (CValue.slot large) number) := by
  rcases small with rfl | rfl | rfl
  · cases large <;> exact .literal (by decide)
  · cases large <;> exact .literal (by decide)
  · cases large <;> exact .literal (by decide)

theorem inlined_formed {value : Jsonb} {number : Int}
    (inlined : value.inlined large = some number) :
    IsInlined large value.code ∧
      Formed value.code (integerBytes (CValue.slot large) number) := by
  cases value with
  | null =>
      cases inlined
      exact ⟨Or.inl rfl, inlined_literal (Or.inl rfl)⟩
  | boolean value =>
      cases inlined
      refine ⟨Or.inl rfl, inlined_literal (Or.inr ?_)⟩
      cases value with
      | false => exact Or.inr rfl
      | true => exact Or.inl rfl
  | integer type value =>
      rw [Jsonb.inlined] at inlined
      split at inlined
      · rename_i fits
        refine ⟨(isInlined_integer type).mpr fits, .integer type ?_⟩
        rw [integerBytes, bytesLE_length, CValue.slot]
        rcases fits with two | ⟨four, wide⟩
        · split <;> omega
        · rw [four, if_pos wide]
      · cases inlined
  | string text => cases inlined
  | array large elements => cases inlined
  | object large names values => cases inlined

theorem not_isInlined {value : Jsonb}
    (placed : value.inlined large = none) : ¬IsInlined large value.code := by
  cases value with
  | null => cases placed
  | boolean value => cases placed
  | integer type value =>
      rw [Jsonb.inlined] at placed
      split at placed
      · cases placed
      · rename_i wide
        exact fun inlined => wide ((isInlined_integer type).mp inlined)
  | string text => simp [code, IsInlined]
  | array large elements => cases large <;> simp [code, IsInlined]
  | object large names values => cases large <;> simp [code, IsInlined]

theorem offsetAt_of_drop {place number : Nat} {rest : Bytes}
    (small : number < 256 ^ CValue.slot large)
    (here : body.drop place = bytesLE (CValue.slot large) number ++ rest) :
    offsetAt large body place = number := by
  rw [offsetAt, here, List.take_left' (bytesLE_length _ _),
    littleEndian_bytesLE_of_lt small]

/-- What follows the type in a value entry. -/
def entryBytes (large : Bool) (offset : Nat) (value : Jsonb) : Bytes :=
  match value.inlined large with
  | some number => integerBytes (CValue.slot large) number
  | none => bytesLE (CValue.slot large) offset

/-- What lies at the offset of a value entry. -/
def placedBytes (large : Bool) (value : Jsonb) : Bytes :=
  match value.inlined large with
  | some _ => []
  | none => value.payload

theorem entryBytes_length (offset : Nat) (value : Jsonb) :
    (entryBytes large offset value).length = CValue.slot large := by
  unfold entryBytes
  split
  · rw [integerBytes, bytesLE_length]
  · rw [bytesLE_length]

theorem valueEntries_cons (offset : Nat) (value : Jsonb) (rest : List Jsonb) :
    valueEntries large offset (value :: rest) =
      value.code :: (entryBytes large offset value ++
        valueEntries large (offset + (placedBytes large value).length) rest) := by
  cases placed : value.inlined large with
  | none => simp [valueEntries, entryBytes, placedBytes, placed]
  | some number => simp [valueEntries, entryBytes, placedBytes, placed]

theorem payloads_cons (value : Jsonb) (rest : List Jsonb) :
    payloads large (value :: rest) =
      placedBytes large value ++ payloads large rest := by
  cases placed : value.inlined large with
  | none => simp [payloads, placedBytes, placed]
  | some number => simp [payloads, placedBytes, placed]

theorem valueEntry_formed {place offset : Nat} {value : Jsonb}
    {entriesEnd valuesEnd : Bytes}
    (small : body.length < 256 ^ CValue.slot large)
    (behind : place + 1 + CValue.slot large ≤ offset)
    (inside : offset ≤ body.length)
    (formed : ∀ rest, Formed value.code (value.payload ++ rest))
    (here : body.drop place =
      value.code :: (entryBytes large offset value ++ entriesEnd))
    (there : body.drop offset = placedBytes large value ++ valuesEnd) :
    FormedEntry large body place := by
  obtain ⟨type, entry⟩ := getElem?_of_drop here
  rw [entryBytes] at entry
  rw [placedBytes] at there
  cases placed : value.inlined large with
  | some number =>
      obtain ⟨inlined, formedNumber⟩ := inlined_formed placed
      refine .inlined type inlined ?_
      have width : (integerBytes (CValue.slot large) number).length =
          CValue.slot large := bytesLE_length _ _
      rw [placed] at entry
      dsimp only at entry
      rw [entry, List.take_left' width]
      exact formedNumber
  | none =>
      rw [placed] at entry there
      have position : offsetAt large body (place + 1) = offset :=
        offsetAt_of_drop (inside.trans_lt small) entry
      refine .placed type (not_isInlined placed) ?_ ?_ ?_
      · rwa [position]
      · rwa [position]
      · rw [position, there]
        exact formed valuesEnd

/-- The value entries at a place, whose values lie at an offset behind them. -/
theorem valueEntries_formed {place offset : Nat} {values : List Jsonb}
    {entriesEnd valuesEnd : Bytes}
    (small : body.length < 256 ^ CValue.slot large)
    (behind : place + values.length * (1 + CValue.slot large) ≤ offset)
    (inside : offset + (payloads large values).length ≤ body.length)
    (formed : ∀ value ∈ values, ∀ rest,
      Formed value.code (value.payload ++ rest))
    (here : body.drop place = valueEntries large offset values ++ entriesEnd)
    (there : body.drop offset = payloads large values ++ valuesEnd) :
    ∀ i < values.length,
      FormedEntry large body (place + i * (1 + CValue.slot large)) := by
  induction values generalizing place offset with
  | nil =>
      intro i impossible
      cases impossible
  | cons value rest induction =>
      obtain ⟨first, later⟩ := List.forall_mem_cons.mp formed
      rw [List.length_cons, Nat.succ_mul] at behind
      rw [payloads_cons, List.length_append] at inside
      rw [valueEntries_cons, List.cons_append, List.append_assoc] at here
      rw [payloads_cons, List.append_assoc] at there
      have nextEntry := drop_of_append (getElem?_of_drop here).2
      rw [entryBytes_length, Nat.add_assoc] at nextEntry
      intro i below
      cases i with
      | zero =>
          rw [Nat.zero_mul]
          exact valueEntry_formed small (by omega) (by omega) first here there
      | succ i =>
          have entry := induction (by omega) (by omega) later nextEntry
            (drop_of_append there) i (Nat.lt_of_succ_lt_succ below)
          rwa [Nat.succ_mul, Nat.add_comm (i * _), ← Nat.add_assoc]

theorem keyEntries_inside {header place offset : Nat} {names : List Bytes}
    {entriesEnd : Bytes}
    (small : body.length < 256 ^ CValue.slot large)
    (short : ∀ name ∈ names, name.length < 65536)
    (behind : header ≤ offset)
    (inside : offset + names.flatten.length ≤ body.length)
    (here : body.drop place = keyEntries large offset names ++ entriesEnd) :
    ∀ i < names.length,
      KeyInside large body header (place + i * (CValue.slot large + 2)) := by
  induction names generalizing place offset with
  | nil =>
      intro i impossible
      cases impossible
  | cons name names induction =>
      obtain ⟨first, later⟩ := List.forall_mem_cons.mp short
      rw [List.flatten_cons, List.length_append] at inside
      rw [keyEntries, List.append_assoc, List.append_assoc] at here
      have position := offsetAt_of_drop (show offset < _ by omega) here
      have size := drop_of_append here
      have nextEntry := drop_of_append size
      rw [bytesLE_length] at size
      rw [bytesLE_length, bytesLE_length, Nat.add_assoc] at nextEntry
      intro i below
      cases i with
      | zero =>
          rw [Nat.zero_mul, Nat.add_zero, KeyInside, position, size,
            List.take_left' (bytesLE_length _ _),
            littleEndian_bytesLE_of_lt first]
          exact ⟨behind, by omega⟩
      | succ i =>
          have entry := induction later (show header ≤ offset + name.length by omega)
            (by omega) nextEntry i (Nat.lt_of_succ_lt_succ below)
          rwa [Nat.succ_mul, Nat.add_comm (i * _), ← Nat.add_assoc]

theorem array_formed {elements : List Jsonb}
    (fits : (payload (.array large elements)).length <
      256 ^ CValue.slot large)
    (formed : ∀ element ∈ elements, ∀ rest,
      Formed element.code (element.payload ++ rest)) (rest : Bytes) :
    Formed (if large then 3 else 2)
      (payload (.array large elements) ++ rest) := by
  have total : (payload (.array large elements)).length =
      2 * CValue.slot large + elements.length * (1 + CValue.slot large) +
        (payloads large elements).length := by
    simp only [payload, List.length_append, bytesLE_length,
      valueEntries_length]
    omega
  have whole : (payload (.array large elements)).drop 0 =
      bytesLE (CValue.slot large) elements.length ++
        (bytesLE (CValue.slot large)
            (payload (.array large elements)).length ++
          (valueEntries large
              (2 * CValue.slot large +
                elements.length * (1 + CValue.slot large)) elements ++
            (payloads large elements ++ []))) := by
    rw [total, List.drop_zero, payload]
    simp only [List.append_assoc, List.append_nil]
  have number : count large (payload (.array large elements)) =
      elements.length :=
    offsetAt_of_drop (array_count_small fits) whole
  have sizeAt := drop_of_append whole
  rw [bytesLE_length, Nat.zero_add] at sizeAt
  have size := offsetAt_of_drop fits sizeAt
  have entries := drop_of_append sizeAt
  rw [bytesLE_length, ← Nat.two_mul] at entries
  have values := drop_of_append entries
  rw [valueEntries_length] at values
  refine .array ?_ size ?_
  · rw [number]
    omega
  · rw [number]
    exact valueEntries_formed fits (le_refl _) total.ge formed entries values

theorem object_formed {names : List Bytes} {values : List Jsonb}
    (lengths : names.length = values.length)
    (short : ∀ name ∈ names, name.length < 65536)
    (fits : (payload (.object large names values)).length <
      256 ^ CValue.slot large)
    (formed : ∀ value ∈ values, ∀ rest,
      Formed value.code (value.payload ++ rest)) (rest : Bytes) :
    Formed (if large then 1 else 0)
      (payload (.object large names values) ++ rest) := by
  have total : (payload (.object large names values)).length =
      2 * CValue.slot large + names.length * (CValue.slot large + 2) +
        values.length * (1 + CValue.slot large) + names.flatten.length +
        (payloads large values).length := by
    simp only [payload, List.length_append, bytesLE_length,
      valueEntries_length, keyEntries_length]
    omega
  have whole : (payload (.object large names values)).drop 0 =
      bytesLE (CValue.slot large) names.length ++
        (bytesLE (CValue.slot large)
            (payload (.object large names values)).length ++
          (keyEntries large
              (2 * CValue.slot large + names.length * (CValue.slot large + 2) +
                values.length * (1 + CValue.slot large)) names ++
            (valueEntries large
                (2 * CValue.slot large +
                  names.length * (CValue.slot large + 2) +
                  values.length * (1 + CValue.slot large) +
                  names.flatten.length) values ++
              (names.flatten ++ (payloads large values ++ []))))) := by
    rw [total, List.drop_zero, payload]
    simp only [List.append_assoc, List.append_nil]
  have number : count large (payload (.object large names values)) =
      names.length :=
    offsetAt_of_drop (object_count_small fits) whole
  have sizeAt := drop_of_append whole
  rw [bytesLE_length, Nat.zero_add] at sizeAt
  have size := offsetAt_of_drop fits sizeAt
  have keys := drop_of_append sizeAt
  rw [bytesLE_length, ← Nat.two_mul] at keys
  have entries := drop_of_append keys
  rw [keyEntries_length] at entries
  have texts := drop_of_append entries
  rw [valueEntries_length] at texts
  have data := drop_of_append texts
  have start : keysStart large (payload (.object large names values)) =
      2 * CValue.slot large + names.length * (CValue.slot large + 2) := by
    rw [keysStart, number]
  refine .object ?_ size ?_ ?_
  · rw [start, number, lengths]
    rw [lengths] at total
    omega
  · rw [start, number]
    refine keyEntries_inside fits short ?_ (by omega) keys
    rw [lengths]
  · rw [start, number, lengths]
    rw [lengths] at total entries data
    exact valueEntries_formed fits (by omega) total.ge formed entries data

/-- Everything a server stores is in the binary form, whatever follows it. -/
theorem WellFormed.formed {tree : Jsonb} (wellFormed : tree.WellFormed)
    (rest : Bytes) : Formed tree.code (tree.payload ++ rest) := by
  induction wellFormed generalizing rest with
  | null => exact .literal (by decide)
  | boolean value =>
      cases value with
      | false => exact .literal (by decide)
      | true => exact .literal (by decide)
  | integer inRange =>
      refine .integer _ ?_
      rw [payload, List.length_append, integerBytes, bytesLE_length]
      omega
  | string short =>
      rw [payload]
      exact .string short
  | array fits _ induction => exact array_formed fits induction rest
  | object lengths _ short fits _ induction =>
      exact object_formed lengths short fits induction rest

end Stored

end Jsonb

end MysqlSlave
