import Mathlib.Data.Nat.Digits.Defs
import Mathlib.Tactic.Ring

/-!
# A fixed number of digits

`digitsBE base count value` are the last `count` digits of `value`, high digit
first and leading zeros included; `Nat.ofDigits` of the reversed list is their
value.
-/

/-- The last `count` digits of `value`, high digit first. -/
def digitsBE (base : Nat) : Nat → Nat → List Nat
  | 0, _ => []
  | count + 1, value =>
      value / base ^ count % base :: digitsBE base count value

/-- The value of digits, high digit first. -/
def valueBE (base : Nat) (digits : List Nat) : Nat :=
  Nat.ofDigits base digits.reverse

@[simp] theorem digitsBE_length (base count value : Nat) :
    (digitsBE base count value).length = count := by
  induction count with
  | zero => rfl
  | succ count induction => simp [digitsBE, induction]

theorem digitsBE_lt {base : Nat} (positive : 0 < base) {count value : Nat} :
    ∀ digit ∈ digitsBE base count value, digit < base := by
  induction count with
  | zero =>
      intro digit member
      cases member
  | succ count induction =>
      intro digit member
      rw [digitsBE] at member
      rcases List.mem_cons.mp member with first | later
      · rw [first]
        exact Nat.mod_lt _ positive
      · exact induction digit later

@[simp] theorem valueBE_nil (base : Nat) : valueBE base [] = 0 := rfl

theorem valueBE_cons (base digit : Nat) (rest : List Nat) :
    valueBE base (digit :: rest) =
      digit * base ^ rest.length + valueBE base rest := by
  rw [valueBE, List.reverse_cons, Nat.ofDigits_append, List.length_reverse,
    Nat.ofDigits_singleton, valueBE]
  ring

theorem valueBE_digitsBE (base count value : Nat) :
    valueBE base (digitsBE base count value) = value % base ^ count := by
  induction count with
  | zero => simp [digitsBE, Nat.mod_one]
  | succ count induction =>
      rw [digitsBE, valueBE_cons, induction, digitsBE_length, Nat.pow_succ,
        Nat.mod_mul, Nat.mul_comm, Nat.add_comm]

theorem valueBE_lt {base : Nat} {digits : List Nat}
    (small : ∀ digit ∈ digits, digit < base) :
    valueBE base digits < base ^ digits.length := by
  induction digits with
  | nil => simp
  | cons digit rest induction =>
      have head : digit < base := small digit List.mem_cons_self
      have tail : valueBE base rest < base ^ rest.length := by
        apply induction
        intro other member
        exact small other (List.mem_cons_of_mem digit member)
      have room : (digit + 1) * base ^ rest.length ≤
          base * base ^ rest.length :=
        Nat.mul_le_mul_right _ head
      rw [valueBE_cons, List.length_cons, Nat.pow_succ']
      calc
        digit * base ^ rest.length + valueBE base rest
            < digit * base ^ rest.length + base ^ rest.length :=
          Nat.add_lt_add_left tail _
        _ = (digit + 1) * base ^ rest.length := by ring
        _ ≤ base * base ^ rest.length := room

/-- Digits in front of the last `count` ones do not matter. -/
theorem digitsBE_add {base : Nat} (positive : 0 < base)
    (front : Nat) {count more value : Nat} (le : count ≤ more) :
    digitsBE base count (front * base ^ more + value) =
      digitsBE base count value := by
  induction count with
  | zero => rfl
  | succ count induction =>
      have power : base ^ more =
          base * base ^ (more - (count + 1)) * base ^ count := by
        rw [mul_assoc, ← Nat.pow_add, ← Nat.pow_succ']
        congr 1
        omega
      have first : (front * base ^ more + value) / base ^ count % base =
          value / base ^ count % base := by
        have regroup : front * base ^ more + value =
            value +
              front * (base * base ^ (more - (count + 1))) * base ^ count := by
          rw [power]
          ring
        rw [regroup, Nat.add_mul_div_right _ _ (Nat.pow_pos positive),
          Nat.mul_left_comm, Nat.add_mul_mod_self_left]
      rw [digitsBE, digitsBE, first, induction (Nat.le_of_succ_le le)]

theorem digitsBE_valueBE {base : Nat} (positive : 0 < base) {digits : List Nat}
    (small : ∀ digit ∈ digits, digit < base) :
    digitsBE base digits.length (valueBE base digits) = digits := by
  induction digits with
  | nil => rfl
  | cons digit rest induction =>
      have head : digit < base := small digit List.mem_cons_self
      have smallRest : ∀ other ∈ rest, other < base := by
        intro other member
        exact small other (List.mem_cons_of_mem digit member)
      have tail : valueBE base rest < base ^ rest.length :=
        valueBE_lt smallRest
      have first : valueBE base (digit :: rest) / base ^ rest.length % base =
          digit := by
        rw [valueBE_cons, Nat.add_comm,
          Nat.add_mul_div_right _ _ (Nat.pow_pos positive),
          Nat.div_eq_of_lt tail, Nat.zero_add, Nat.mod_eq_of_lt head]
      rw [List.length_cons, digitsBE, first, valueBE_cons,
        digitsBE_add positive digit (Nat.le_refl _), induction smallRest]

theorem valueBE_append (base : Nat) (front back : List Nat) :
    valueBE base (front ++ back) =
      valueBE base front * base ^ back.length + valueBE base back := by
  rw [valueBE, List.reverse_append, Nat.ofDigits_append, List.length_reverse]
  simp only [valueBE]
  ring
