import LdapFilter.Json.Parser
import LdapFilter.Json.Printer
import Mathlib.Data.List.TakeDrop

/-!
# Reading back strings and numbers

A string is written character by character, and reading it takes one written character off after
another (`readText_escapeChar`). Only an escape that spells a code unit needs care: the reader looks
at the escape behind it, for the two may be halves of a pair. What is written for a character is
never a half, so the reader takes it alone (`readText_unit`).

A number is written with its digits, of which the first is a zero only if it is the last. So it is
read as a whole as long as what comes behind it does not go on with a number (`EndsNumber`).
-/

namespace LdapFilter.Json

/-! ## Strings -/

variable {a b c d : Char} {unit : Nat} {rest : List Char}

/-- A string ends at the quotation mark behind it. -/
theorem readText_quote (rest : List Char) : readText ('"' :: rest) = some (some [], rest) :=
  rfl

/-- Of two escapes that both spell a unit, the second is read with the first if they are halves of
a pair. -/
theorem readText_pair (a b c d e f g h : Char) (rest : List Char) :
    readText ('\\' :: 'u' :: a :: b :: c :: d :: '\\' :: 'u' :: e :: f :: g :: h :: rest) =
      match unit? a b c d, unit? e f g h with
      | some first, some second =>
        if isHighSurrogate first && isLowSurrogate second then
          (readText rest).map (push (some (ofPair first second)))
        else (readText ('\\' :: 'u' :: e :: f :: g :: h :: rest)).map (push (ofUnit? first))
      | _, _ => none :=
  rfl

/-- An escape is read alone where no other escape comes behind it. -/
theorem readText_unit_alone (a b c d : Char)
    (alone : ∀ e f g h rest', rest ≠ '\\' :: 'u' :: e :: f :: g :: h :: rest') :
    readText ('\\' :: 'u' :: a :: b :: c :: d :: rest) =
      (unit? a b c d).bind fun unit => (readText rest).map (push (ofUnit? unit)) := by
  rw [readText.eq_4 _ _ _ _ _ alone]
  cases unit? a b c d <;> rfl

/-- An escape without four digits is no part of a string. -/
theorem readText_of_unit_none (h : unit? a b c d = none) (rest : List Char) :
    readText ('\\' :: 'u' :: a :: b :: c :: d :: rest) = none := by
  by_cases pair : ∃ e f g h rest', rest = '\\' :: 'u' :: e :: f :: g :: h :: rest'
  · obtain ⟨e, f, g, h', rest', rfl⟩ := pair
    rw [readText_pair, h]
  · simp only [not_exists] at pair
    rw [readText_unit_alone a b c d pair, h]
    rfl

/-- An escape that is not the first half of a pair is read alone, whatever comes behind it. -/
theorem readText_unit (hunit : unit? a b c d = some unit) (alone : isHighSurrogate unit = false)
    (rest : List Char) : readText ('\\' :: 'u' :: a :: b :: c :: d :: rest) =
      (readText rest).map (push (ofUnit? unit)) := by
  by_cases pair : ∃ e f g h rest', rest = '\\' :: 'u' :: e :: f :: g :: h :: rest'
  · obtain ⟨e, f, g, h, rest', rfl⟩ := pair
    cases hsecond : unit? e f g h with
    | none =>
      rw [readText_pair, hunit, hsecond, readText_of_unit_none hsecond]
      rfl
    | some second =>
      rw [readText_pair, hunit, hsecond]
      simp only [alone, Bool.false_and, if_neg Bool.false_ne_true]
  · simp only [not_exists] at pair
    rw [readText_unit_alone a b c d pair, hunit]
    rfl

/-- A backslash and a letter are read alone. -/
theorem readText_letter {letter ch : Char} (h : ofLetter? letter = some ch) (rest : List Char) :
    readText ('\\' :: letter :: rest) = (readText rest).map (push (some ch)) := by
  unfold ofLetter? at h
  split at h <;> cases h <;> rfl

/-- A character that needs no escape is read as itself. -/
theorem readText_plain {ch : Char} (quote : ch ≠ '"') (backslash : ch ≠ '\\')
    (visible : 0x20 ≤ ch.toNat) (rest : List Char) :
    readText (ch :: rest) = (readText rest).map (push (some ch)) := by
  rw [readText.eq_6, if_neg (Nat.not_lt.2 visible)]
  · exact quote
  · intro a b c d e f g h rest' hch
    exact absurd hch backslash
  · intro a b c d rest' hch
    exact absurd hch backslash
  · intro letter rest' hch
    exact absurd hch backslash

/-- The four digits of a control character spell it. -/
theorem exists_unit_of_lt {n : Nat} (h : n < 0x20) :
    ∃ a b c d, (Text.lowerHex 4 n).toList = [a, b, c, d] ∧ unit? a b c d = some n := by
  have table : ∀ n < 0x20,
      (Text.hexDigits n).leftpad 4 '0' = ['0', '0', (n / 16).digitChar, (n % 16).digitChar] ∧
        unit? '0' '0' (n / 16).digitChar (n % 16).digitChar = some n := by
    decide
  obtain ⟨digits, hunit⟩ := table n h
  exact ⟨'0', '0', _, _, by rw [Text.lowerHex, String.toList_ofList, digits], hunit⟩

/-- The three forms of a written character. -/
theorem escapeChar_forms (ch : Char) :
    (∃ letter, ofLetter? letter = some ch ∧ escapeChar ch = ['\\', letter]) ∨
      (ch.toNat < 0x20 ∧ escapeChar ch = '\\' :: 'u' :: (Text.lowerHex 4 ch.toNat).toList) ∨
      (ch ≠ '"' ∧ ch ≠ '\\' ∧ 0x20 ≤ ch.toNat ∧ escapeChar ch = [ch]) := by
  by_cases named : ch ∈ ['"', '\\', '\x08', '\x0c', '\n', '\r', '\t']
  · simp only [List.mem_cons, List.not_mem_nil, or_false] at named
    left
    rcases named with rfl | rfl | rfl | rfl | rfl | rfl | rfl
    · exact ⟨'"', rfl, rfl⟩
    · exact ⟨'\\', rfl, rfl⟩
    · exact ⟨'b', rfl, rfl⟩
    · exact ⟨'f', rfl, rfl⟩
    · exact ⟨'n', rfl, rfl⟩
    · exact ⟨'r', rfl, rfl⟩
    · exact ⟨'t', rfl, rfl⟩
  · simp only [List.mem_cons, List.not_mem_nil, or_false, not_or] at named
    by_cases control : ch.toNat < 0x20
    · exact .inr (.inl ⟨control, by simp [escapeChar, named, control]⟩)
    · refine .inr (.inr ⟨named.1, named.2.1, Nat.not_lt.1 control, ?_⟩)
      simp [escapeChar, named, control]

/-- A control character is no half of a pair. -/
theorem ofUnit?_of_lt {ch : Char} (h : ch.toNat < 0x20) :
    isHighSurrogate ch.toNat = false ∧ ofUnit? ch.toNat = some ch := by
  have high : isHighSurrogate ch.toNat = false := by
    simp only [isHighSurrogate, Bool.and_eq_false_iff, decide_eq_false_iff_not]
    omega
  have low : isLowSurrogate ch.toNat = false := by
    simp only [isLowSurrogate, Bool.and_eq_false_iff, decide_eq_false_iff_not]
    omega
  refine ⟨high, ?_⟩
  simp [ofUnit?, high, low, Char.ofNat_toNat]

/-- A written character is read as that character, whatever comes behind it. -/
theorem readText_escapeChar (ch : Char) (rest : List Char) :
    readText (escapeChar ch ++ rest) = (readText rest).map (push (some ch)) := by
  obtain ⟨letter, h, he⟩ | ⟨control, he⟩ | ⟨quote, backslash, visible, he⟩ := escapeChar_forms ch
  · rw [he]
    exact readText_letter h rest
  · obtain ⟨a, b, c, d, digits, hunit⟩ := exists_unit_of_lt control
    obtain ⟨alone, single⟩ := ofUnit?_of_lt control
    rw [he, digits, ← single]
    exact readText_unit hunit alone rest
  · rw [he]
    exact readText_plain quote backslash visible rest

/-- A text that is written is read back. -/
theorem readText_flatMap (s rest : List Char) :
    readText (s.flatMap escapeChar ++ '"' :: rest) = some (some s, rest) := by
  induction s with
  | nil => exact readText_quote rest
  | cons ch s ih =>
    rw [List.flatMap_cons, List.append_assoc, readText_escapeChar, ih]
    rfl

/-- A string is written between quotation marks, and read back behind the first. -/
theorem exists_writeText (t : Option String) : ∃ body, writeText t = '"' :: body ∧
    ∀ rest, readText (body ++ rest) = some (t.map String.toList, rest) := by
  cases t with
  | some s =>
    refine ⟨s.toList.flatMap escapeChar ++ ['"'], rfl, fun rest => ?_⟩
    rw [List.append_assoc]
    exact readText_flatMap s.toList rest
  | none =>
    refine ⟨['\\', 'u', 'd', '8', '0', '0', '"'], rfl, fun rest => ?_⟩
    -- half of a pair, with no escape behind it
    have half : unit? 'd' '8' '0' '0' = some 0xD800 := by decide
    show readText ('\\' :: 'u' :: 'd' :: '8' :: '0' :: '0' :: '"' :: rest) = _
    rw [readText_unit_alone 'd' '8' '0' '0' (by simp), half, readText_quote]
    rfl

/-! ## Numbers -/

/-- The text does not go on with a number. -/
def EndsNumber (rest : List Char) : Prop :=
  ∀ c ∈ rest.head?, ¬c.isDigit ∧ c ≠ '.' ∧ c ≠ 'e' ∧ c ≠ 'E'

theorem endsNumber_nil : EndsNumber [] :=
  nofun

theorem EndsNumber.cons {ch : Char} (h : ch ∈ [',', ']', '}']) (rest : List Char) :
    EndsNumber (ch :: rest) := by
  have ends : ∀ c ∈ [',', ']', '}'], ¬c.isDigit ∧ c ≠ '.' ∧ c ≠ 'e' ∧ c ≠ 'E' := by simp
  intro c hc
  cases hc
  exact ends ch h

theorem isDigit_of_mem_toDigits {n : Nat} {ch : Char} (h : ch ∈ Nat.toDigits 10 n) :
    ch.isDigit = true :=
  Nat.isDigit_of_mem_toDigits (by decide) (by decide) h

/-- A number has a digit at least. -/
theorem exists_toDigits_digit (n : Nat) :
    ∃ ch digits, Nat.toDigits 10 n = ch :: digits ∧ ch.isDigit = true := by
  obtain ⟨ch, digits, h⟩ :=
    List.exists_cons_of_ne_nil (Nat.toDigits_ne_nil (n := n) (b := 10))
  exact ⟨ch, digits, h, isDigit_of_mem_toDigits (h ▸ List.mem_cons_self)⟩

/-- The digits of a number other than zero do not begin with a zero. -/
theorem exists_toDigits_cons {n : Nat} (h : 0 < n) :
    ∃ ch digits, Nat.toDigits 10 n = ch :: digits ∧ ch ≠ '0' := by
  induction n using Nat.strongRecOn with
  | ind n ih =>
    by_cases small : n < 10
    · have one : ∀ n < 10, 0 < n → n.digitChar ≠ '0' := by decide
      exact ⟨_, [], Nat.toDigits_of_lt_base small, one n small h⟩
    · obtain ⟨ch, digits, hdigits, hch⟩ := ih (n / 10) (by omega) (by omega)
      refine ⟨ch, digits ++ [(n % 10).digitChar], ?_, hch⟩
      rw [Nat.toDigits_of_base_le (by decide) (Nat.not_lt.1 small), hdigits, List.cons_append]

theorem ofDigits_toDigits (n : Nat) : ofDigits (Nat.toDigits 10 n) = n := by
  have same := Nat.ofDigitChars_ten_toDigits (n := n)
  rw [Nat.ofDigitChars_eq_foldl] at same
  simp only [ofDigits, Nat.mul_comm _ 10]
  exact same

/-- Digits are taken up to where a number ends. -/
theorem readDigits_append {digits : List Char} (hne : digits ≠ [])
    (hd : ∀ c ∈ digits, c.isDigit = true) (hr : EndsNumber rest) :
    readDigits (digits ++ rest) = some (digits, rest) := by
  have stop : rest.takeWhile Char.isDigit = [] ∧ rest.dropWhile Char.isDigit = rest := by
    cases rest with
    | nil => exact ⟨rfl, rfl⟩
    | cons c rest =>
      have ends : ¬c.isDigit := (hr c rfl).1
      simp [ends]
  have taken : (digits ++ rest).span Char.isDigit = (digits, rest) := by
    rw [List.span_eq_takeWhile_dropWhile, List.takeWhile_append_of_pos hd,
      List.dropWhile_append_of_pos hd, stop.1, stop.2, List.append_nil]
  unfold readDigits
  rw [taken]
  cases digits with
  | nil => exact absurd rfl hne
  | cons c digits => rfl

/-- The digits of a number are read as its whole part. -/
theorem readWhole_toDigits (n : Nat) (hr : EndsNumber rest) :
    readWhole (Nat.toDigits 10 n ++ rest) = some (Nat.toDigits 10 n, rest) := by
  rcases Nat.eq_zero_or_pos n with rfl | pos
  · rfl
  · obtain ⟨ch, digits, hdigits, hch⟩ := exists_toDigits_cons pos
    have whole := readDigits_append (Nat.toDigits_ne_nil (n := n) (b := 10))
      (fun c hc => isDigit_of_mem_toDigits hc) hr
    rw [hdigits, List.cons_append] at whole ⊢
    rw [readWhole, whole]
    intro rest' hzero
    exact hch (List.cons.inj hzero).1

/-- Where a number ends there is no fraction and no exponent. -/
theorem readUnsigned_of_whole {text whole : List Char} (h : readWhole text = some (whole, rest))
    (hr : EndsNumber rest) : readUnsigned text = some (natural (ofDigits whole), rest) := by
  have fraction : skipFraction rest = some rest := by
    cases rest with
    | nil => rfl
    | cons c rest =>
      rw [skipFraction]
      rintro rest' hdot
      exact (hr c rfl).2.1 (List.cons.inj hdot).1
  have exponent : skipExponent rest = some rest := by
    cases rest with
    | nil => rfl
    | cons c rest =>
      rw [skipExponent]
      · rintro rest' he
        exact (hr c rfl).2.2.1 (List.cons.inj he).1
      · rintro rest' he
        exact (hr c rfl).2.2.2 (List.cons.inj he).1
  simp [readUnsigned, h, fraction, exponent]

/-- A number that is written is read back. -/
theorem readNumber_toDigits (n : Nat) (hr : EndsNumber rest) :
    readNumber (Nat.toDigits 10 n ++ rest) = some (natural n, rest) := by
  have read := readUnsigned_of_whole (readWhole_toDigits n hr) hr
  rw [ofDigits_toDigits] at read
  obtain ⟨ch, digits, hdigits, digit⟩ := exists_toDigits_digit n
  rw [hdigits, List.cons_append] at read ⊢
  rw [readNumber, read]
  rintro rest' hminus
  rw [(List.cons.inj hminus).1] at digit
  cases digit

end LdapFilter.Json
