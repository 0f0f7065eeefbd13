import MysqlSlave.ColumnDesc

/-!
# Member lists

The type text of an ENUM or SET column quotes the member names and doubles every
quote inside a name.  `CColumnDesc::update` takes each pair of quotes for one
name, so a name with a quote in it comes back in pieces.
-/

namespace MysqlSlave

open Region

namespace CColumnDesc

theorem skips {front : Bytes} (absent : quote ∉ front) :
    ∀ byte ∈ front, decide (byte ≠ quote) = true := by
  intro byte member
  apply decide_eq_true
  intro same
  exact absent (same ▸ member)

theorem dropWhile_quote {front : Bytes} (after : Bytes)
    (absent : quote ∉ front) :
    (front ++ quote :: after).dropWhile (· ≠ quote) = quote :: after := by
  rw [List.dropWhile_append_of_pos (skips absent)]
  simp

theorem takeWhile_quote {front : Bytes} (after : Bytes)
    (absent : quote ∉ front) :
    (front ++ quote :: after).takeWhile (· ≠ quote) = front := by
  rw [List.takeWhile_append_of_pos (skips absent)]
  simp

theorem dropWhile_unquoted {text : Bytes} (absent : quote ∉ text) :
    text.dropWhile (· ≠ quote) = [] := by
  have appended : (text ++ []).dropWhile (· ≠ quote) =
      ([] : Bytes).dropWhile (· ≠ quote) :=
    List.dropWhile_append_of_pos (skips absent)
  simpa using appended

/-- What stands between one quote and the next in a text. -/
def quotedParts : Nat → Bytes → List Bytes
  | 0, _ => []
  | rounds + 1, text =>
      match text.dropWhile (· ≠ quote) with
      | [] => []
      | _ :: opened =>
          match opened.dropWhile (· ≠ quote) with
          | [] => []
          | _ :: rest => opened.takeWhile (· ≠ quote) :: quotedParts rounds rest

theorem pushVariants_eq (rounds : Nat) (text : Bytes) (variants : List Bytes) :
    pushVariants rounds text variants = variants ++ quotedParts rounds text := by
  induction rounds generalizing text variants with
  | zero => simp [pushVariants, quotedParts]
  | succ rounds induction =>
      simp only [pushVariants, quotedParts]
      cases text.dropWhile (· ≠ quote) with
      | nil => simp
      | cons first opened =>
          cases closed : opened.dropWhile (· ≠ quote) with
          | nil => simp only [closed, List.append_nil]
          | cons second rest =>
              simp only [closed]
              rw [induction, List.append_assoc, List.singleton_append]

theorem quotedParts_quoted {before name : Bytes} (rounds : Nat) (after : Bytes)
    (noneBefore : quote ∉ before)
    (noneInside : quote ∉ name) :
    quotedParts (rounds + 1) (before ++ quote :: (name ++ quote :: after)) =
      name :: quotedParts rounds after := by
  simp only [quotedParts, dropWhile_quote _ noneBefore,
    dropWhile_quote _ noneInside, takeWhile_quote _ noneInside]

theorem quotedParts_unquoted {text : Bytes} (rounds : Nat)
    (none : quote ∉ text) :
    quotedParts rounds text = [] := by
  cases rounds with
  | zero => rfl
  | succ rounds => simp only [quotedParts, dropWhile_unquoted none]

theorem quotedParts_open {before opened : Bytes} (rounds : Nat)
    (noneBefore : quote ∉ before)
    (noneBehind : quote ∉ opened) :
    quotedParts rounds (before ++ quote :: opened) = [] := by
  cases rounds with
  | zero => rfl
  | succ rounds =>
      simp only [quotedParts, dropWhile_quote _ noneBefore,
        dropWhile_unquoted noneBehind]

theorem quote_cases (text : Bytes) :
    quote ∉ text ∨
      ∃ before after, quote ∉ before ∧ text = before ++ quote :: after := by
  by_cases member : quote ∈ text
  · right
    obtain ⟨before, after, same, absent⟩ :=
      List.eq_append_cons_of_mem member
    exact ⟨before, after, absent, same⟩
  · left
    exact member

/-- There is a part for every two quotes. -/
theorem quotedParts_length {text : Bytes} {rounds : Nat}
    (enough : text.length ≤ rounds) :
    (quotedParts rounds text).length = text.count quote / 2 := by
  induction rounds generalizing text with
  | zero =>
      have empty : text = [] := by
        simpa using enough
      subst empty
      rfl
  | succ rounds induction =>
      rcases quote_cases text with none | ⟨before, opened, absent, rfl⟩
      · rw [quotedParts_unquoted _ none, List.count_eq_zero_of_not_mem none]
        rfl
      · have noneBefore := List.count_eq_zero_of_not_mem absent
        rcases quote_cases opened with none | ⟨name, after, inside, rfl⟩
        · have once : (before ++ quote :: opened).count quote = 1 := by
            simp [noneBefore, List.count_eq_zero_of_not_mem none]
          rw [quotedParts_open _ absent none, once]
          rfl
        · have twice : (before ++ quote :: (name ++ quote :: after)).count
              quote = after.count quote + 2 := by
            simp [noneBefore, List.count_eq_zero_of_not_mem inside]
          have shorter : after.length ≤ rounds := by
            simp only [List.length_append, List.length_cons] at enough
            omega
          rw [quotedParts_quoted _ _ absent inside, List.length_cons,
            induction shorter, twice]
          omega

end CColumnDesc

/-- The two column types that have members. -/
inductive MemberType
  | enum
  | set
  deriving DecidableEq, Repr

namespace MemberType

open CColumnDesc

def keyword : MemberType → Bytes
  | enum => "enum".toUTF8.toList
  | set => "set".toUTF8.toList

/-- A name with every quote in it doubled. -/
def doubled (name : Bytes) : Bytes :=
  name.flatMap fun byte => if byte = quote then [quote, quote] else [byte]

/-- The members in quotes, with commas between them. -/
def printed : List Bytes → Bytes
  | [] => []
  | [name] => quote :: (doubled name ++ [quote])
  | name :: names => quote :: (doubled name ++ quote :: 44 :: printed names)

/-- The type text as SHOW COLUMNS prints it. -/
def typeText (kind : MemberType) (names : List Bytes) : Bytes :=
  kind.keyword ++ 40 :: (printed names ++ [41])

theorem quote_not_mem_keyword (kind : MemberType) :
    quote ∉ kind.keyword := by
  cases kind with
  | enum => decide +kernel
  | set => decide +kernel

theorem update_typeText (desc : CColumnDesc) (kind : MemberType)
    (names : List Bytes) (pos : Nat) :
    desc.update pos (kind.typeText names) =
      ⟨pos, quotedParts (kind.typeText names).length (kind.typeText names)⟩ := by
  have nonempty : kind.typeText names ≠ [] := by
    simp [typeText]
  cases kind with
  | enum =>
      have keyword : (typeText enum names).take 4 = "enum".toUTF8.toList := by
        have length : "enum".toUTF8.toList.length = 4 := by decide +kernel
        exact List.take_left' length
      simp only [update, nonempty, keyword, ne_eq, not_false_eq_true, true_or,
        and_self, if_true, pushVariants_eq, List.nil_append]
  | set =>
      have keyword : (typeText set names).take 3 = "set".toUTF8.toList := by
        have length : "set".toUTF8.toList.length = 3 := by decide +kernel
        exact List.take_left' length
      simp only [update, nonempty, keyword, ne_eq, not_false_eq_true, or_true,
        and_self, if_true, pushVariants_eq, List.nil_append]

theorem doubled_eq_self {name : Bytes} (plain : quote ∉ name) :
    doubled name = name := by
  induction name with
  | nil => rfl
  | cons byte name induction =>
      simp only [List.mem_cons, not_or] at plain
      have different : byte ≠ quote := Ne.symm plain.1
      have rest := induction plain.2
      simp only [doubled, List.flatMap_cons, different, if_false,
        List.cons_append, List.nil_append]
      exact congrArg (List.cons byte) rest

theorem count_doubled (name : Bytes) :
    (doubled name).count quote = 2 * name.count quote := by
  induction name with
  | nil => rfl
  | cons byte name induction =>
      have rest : (name.flatMap fun byte =>
          if byte = quote then [quote, quote] else [byte]).count quote =
            2 * name.count quote := induction
      by_cases same : byte = quote
      · simp [doubled, same, rest]
        omega
      · simp [doubled, same, rest]

/-- The quotes around the names, and two for each quote in them. -/
theorem count_printed (names : List Bytes) :
    (printed names).count quote =
      2 * names.length + 2 * (names.map (List.count quote)).sum := by
  induction names with
  | nil => rfl
  | cons name names induction =>
      have comma : (44 : UInt8) ≠ quote := by decide
      cases names with
      | nil =>
          simp [printed, count_doubled]
          omega
      | cons next names =>
          have rest := induction
          simp only [printed, List.count_cons, List.count_append,
            count_doubled, List.map_cons, List.sum_cons, List.length_cons]
            at rest ⊢
          simp [comma]
          omega

theorem quotedParts_printed {names : List Bytes} {before after : Bytes}
    {rounds : Nat}
    (noneBefore : quote ∉ before)
    (noneBehind : quote ∉ after)
    (plain : ∀ name ∈ names, quote ∉ name)
    (enough : names.length ≤ rounds) :
    quotedParts rounds (before ++ (printed names ++ after)) = names := by
  induction names generalizing before rounds with
  | nil =>
      apply quotedParts_unquoted
      simp [printed, noneBefore, noneBehind]
  | cons name names induction =>
      have unquoted : quote ∉ name := plain name List.mem_cons_self
      have others : ∀ other ∈ names, quote ∉ other := by
        intro other member
        exact plain other (List.mem_cons_of_mem _ member)
      cases rounds with
      | zero => simp at enough
      | succ rounds =>
          cases names with
          | nil =>
              simp only [printed, doubled_eq_self unquoted, List.cons_append,
                List.append_assoc, List.nil_append]
              rw [quotedParts_quoted _ _ noneBefore unquoted,
                quotedParts_unquoted _ noneBehind]
          | cons next names =>
              have comma : quote ∉ ([44] : Bytes) := by decide
              have fewer : (next :: names).length ≤ rounds := by
                simpa using enough
              have later := induction comma others fewer
              simp only [printed, doubled_eq_self unquoted, List.cons_append,
                List.append_assoc]
              rw [quotedParts_quoted _ _ noneBefore unquoted]
              exact congrArg (List.cons name) later

theorem length_le_printed (names : List Bytes) :
    names.length ≤ (printed names).length := by
  induction names with
  | nil => exact Nat.le_refl 0
  | cons name names induction =>
      cases names with
      | nil => simp [printed]
      | cons next names =>
          simp only [printed, List.length_cons, List.length_append] at *
          omega

/-- The members come back exactly if no name has a quote in it. -/
theorem variants_iff (desc : CColumnDesc) (kind : MemberType)
    (names : List Bytes) (pos : Nat) :
    (desc.update pos (kind.typeText names)).variants = names ↔
      ∀ name ∈ names, quote ∉ name := by
  rw [update_typeText]
  dsimp only
  constructor
  · intro same
    have parts := quotedParts_length (Nat.le_refl (kind.typeText names).length)
    have quotes : (kind.typeText names).count quote =
        2 * names.length + 2 * (names.map (List.count quote)).sum := by
      have keyword :=
        List.count_eq_zero_of_not_mem kind.quote_not_mem_keyword
      have opening : (40 : UInt8) ≠ quote := by decide
      have closing : (41 : UInt8) ≠ quote := by decide
      simp [typeText, keyword, opening, closing, count_printed]
    rw [same, quotes] at parts
    have none : (names.map (List.count quote)).sum = 0 := by omega
    intro name member
    apply List.count_eq_zero.mp
    exact List.sum_eq_zero_iff_forall_eq_nat.mp none _
      (List.mem_map_of_mem member)
  · intro plain
    have bracket : quote ∉ ([41] : Bytes) := by decide
    have opening : quote ∉ kind.keyword ++ [40] := by
      have absent := kind.quote_not_mem_keyword
      have different : quote ≠ 40 := by decide
      simp [absent, different]
    have enough : names.length ≤ (kind.typeText names).length := by
      have inside := length_le_printed names
      simp only [typeText, List.length_append, List.length_cons]
      omega
    have parts := quotedParts_printed opening bracket plain enough
    have text : kind.typeText names =
        kind.keyword ++ [40] ++ (printed names ++ [41]) := by
      simp [typeText]
    rw [← text] at parts
    exact parts

/-- The member `it's` comes back as two members. -/
theorem not_variants_quoted :
    enum.typeText ["it's".toUTF8.toList] = "enum('it''s')".toUTF8.toList ∧
      (({} : CColumnDesc).update 0
          (enum.typeText ["it's".toUTF8.toList])).variants =
        ["it".toUTF8.toList, "s".toUTF8.toList] := by
  constructor
  · decide +kernel
  · decide +kernel

end MemberType

end MysqlSlave
