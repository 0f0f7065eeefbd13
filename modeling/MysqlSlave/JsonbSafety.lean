import MysqlSlave.JsonbForms

/-!
# JSON values of any bytes

Whether `as_json` stays inside a value and comes to null for what is not the
binary form of a JSON value.  It never looks at the size of the value, so both
depend on the bytes.
-/

namespace MysqlSlave

open Region

namespace Jsonb

/-- The readers come to null: an object without members, a literal other than true
and false, a type without a reader. -/
def ReadAsNull (type : UInt8) (data : Bytes) : Prop :=
  match type.toNat with
  | 0 => count false data = 0
  | 1 => count true data = 0
  | 4 => ¬littleEndian (data.take 2) = 1 ∧ ¬littleEndian (data.take 2) = 2
  | 2 | 3 | 5 | 6 | 7 | 8 | 9 | 10 | 11 | 12 => False
  | _ => True

/-- What the readers look for is in the value, and bytes that are no JSON value are
of the kinds that are read as null. -/
def SafeBytes : Bytes → Prop
  | [] => False
  | type :: data =>
      Inside type data ∧ (Formed type data ∨ ReadAsNull type data)

/-- Wherever a value with these bytes is stored, `as_json` comes to a result
without a look at any other byte, and to null if they are no JSON value. -/
def ReadsSafely (field : Bytes) : Prop :=
  ∃ json : JsonValue,
    (∀ (front : Bytes) (value : CValue),
      value.storage = some front.length → value.size = field.length →
      value.asJson (front ++ field) = .ok json) ∧
    (¬FormedValue field → json = .null)

theorem nullObject_eq_null_iff (large : Bool) (data : Bytes) :
    nullObject large data = .null ↔ count large data = 0 := by
  unfold nullObject
  split
  case isTrue none => exact iff_of_true rfl none
  case isFalse some =>
    refine iff_of_false (fun impossible => ?_) some
    cases impossible

theorem literal_eq_null_iff (data : Bytes) :
    literal data = .null ↔
      ¬littleEndian (data.take 2) = 1 ∧ ¬littleEndian (data.take 2) = 2 := by
  unfold literal
  split
  · simp [*]
  · simp [*]
  · simp [*]
  · rename_i notTrue notFalse
    exact iff_of_true rfl ⟨notTrue, notFalse⟩

theorem result_eq_null_iff (type : UInt8) (data : Bytes) :
    result type data = .null ↔ ReadAsNull type data := by
  unfold result ReadAsNull
  generalize type.toNat = code
  match code with
  | 0 => exact nullObject_eq_null_iff false data
  | 1 => exact nullObject_eq_null_iff true data
  | 4 => exact literal_eq_null_iff data
  | 2 | 3 | 5 | 6 | 7 | 8 | 9 | 10 | 11 | 12 => simp [signed, unsigned]
  | _ + 13 => exact iff_of_true rfl trivial

/-- The bytes of a value at the front of memory. -/
def valueOf (field : Bytes) : CValue :=
  { type := .json, storage := some 0, size := field.length, null := false }

/-- Every value of any bytes is read safely exactly if what the readers look for is
there and what is no JSON value is read as null. -/
theorem readsSafely_iff (field : Bytes) :
    ReadsSafely field ↔ SafeBytes field := by
  cases field with
  | nil =>
      refine iff_of_false ?_ id
      rintro ⟨json, reads, _⟩
      have read := reads [] (valueOf []) rfl rfl
      rw [CValue.asJson_empty rfl] at read
      cases read
  | cons type data =>
      constructor
      · rintro ⟨json, reads, null⟩
        have read := reads [] (valueOf (type :: data)) rfl rfl
        obtain ⟨inside, same⟩ :=
          (CValue.asJson_yields rfl).eq_ok_iff.mp read
        refine ⟨inside, ?_⟩
        by_cases formed : Formed type data
        · exact Or.inl formed
        · exact Or.inr ((result_eq_null_iff type data).mp
            (same.symm.trans (null formed)))
      · rintro ⟨inside, formed⟩
        refine ⟨result type data, fun front value storage _ =>
          (CValue.asJson_yields storage).ok inside, fun malformed => ?_⟩
        exact (result_eq_null_iff type data).mpr
          (formed.resolve_left malformed)

/-- A stored value is read safely exactly if what its reader looks for is there. -/
theorem safeBytes_encode {tree : Jsonb} (wellFormed : tree.WellFormed) :
    SafeBytes tree.encode ↔ Inside tree.code tree.payload := by
  have formed := wellFormed.formed []
  rw [List.append_nil] at formed
  exact and_iff_left (Or.inl formed)

/-- The string `a`, as the server stores it, is read past its end. -/
theorem not_readsSafely_string :
    FormedValue [12, 1, 97] ∧ ¬ReadsSafely [12, 1, 97] := by
  constructor
  · have size : lengthGroups 1 = [1] := by simp [lengthGroups]
    have short : ([97] : Bytes).length < 4294967296 := by decide
    have formed := @Formed.string [97] [] short
    rw [List.length_singleton, size] at formed
    exact formed
  · rintro ⟨json, reads, _⟩
    have read := reads [] (valueOf [12, 1, 97]) rfl rfl
    have outside : (valueOf [12, 1, 97]).asJson ([] ++ [12, 1, 97]) =
        .error .outOfBounds := by
      rfl
    rw [outside] at read
    cases read

end Jsonb

end MysqlSlave
