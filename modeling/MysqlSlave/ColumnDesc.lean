import MysqlSlave.Lib.Region

/-!
# Column descriptions

`CColumnDesc` from `columndesc.hpp`: the position of a column in a row and, for
ENUM and SET columns, the member names quoted in the column's type text.
-/

namespace MysqlSlave

structure CColumnDesc where
  position : Nat := 0
  variants : List Bytes := []
  deriving DecidableEq, Repr

namespace CColumnDesc

def quote : UInt8 := 39

/-- The loop of `update`: what stands between one quote and the next is pushed,
until a quote is missing.  `text` is what is left of the type text; every round
takes at least two characters off it. -/
def pushVariants : Nat → Bytes → List Bytes → List Bytes
  | 0, _, variants => variants
  | rounds + 1, text, variants =>
      match text.dropWhile (· ≠ quote) with
      | [] => variants
      | _ :: opened =>
          match opened.dropWhile (· ≠ quote) with
          | [] => variants
          | _ :: rest =>
              pushVariants rounds rest
                (variants ++ [opened.takeWhile (· ≠ quote)])

def update (self : CColumnDesc) (pos : Nat) (fieldType : Bytes) : CColumnDesc :=
  let isEnum := fieldType.take 4 = "enum".toUTF8.toList
  let isSet := fieldType.take 3 = "set".toUTF8.toList
  let self := { self with position := pos, variants := [] }
  if fieldType ≠ [] ∧ (isEnum ∨ isSet) then
    { self with
      variants := pushVariants fieldType.length fieldType self.variants }
  else self

@[simp] theorem update_position (self : CColumnDesc) (pos : Nat)
    (fieldType : Bytes) : (self.update pos fieldType).position = pos := by
  unfold update
  dsimp only
  split <;> rfl

end CColumnDesc

end MysqlSlave
