import LdapFilter.Filter.Grammar
import LdapFilter.Proofs.Tracking
import LdapFilter.Token.Lexer

/-!
# Tokens that spell characters

A lexer gives one token for each character of a filter, of the kind that the character has and with
the character as its text: the token spells the character (`Token.Spells`). What a rule asks of
such a token is what the grammar asks of the character. A path of a lookahead whose tokens spell
the characters of a text reads that text.
-/

namespace LdapFilter

/-! ## Letters in numbers -/

theorem isUpper_iff_toNat {ch : Char} : ch.isUpper ↔ 65 ≤ ch.toNat ∧ ch.toNat ≤ 90 :=
  decide_eq_true_iff

theorem isLower_iff_toNat {ch : Char} : ch.isLower ↔ 97 ≤ ch.toNat ∧ ch.toNat ≤ 122 := by
  show (decide (97 ≤ ch.toNat) && decide (ch.toNat ≤ 122)) = true ↔ _
  rw [Bool.and_eq_true, decide_eq_true_iff, decide_eq_true_iff]

theorem isAlpha_iff_toNat {ch : Char} :
    ch.isAlpha ↔ (65 ≤ ch.toNat ∧ ch.toNat ≤ 90) ∨ (97 ≤ ch.toNat ∧ ch.toNat ≤ 122) := by
  show (ch.isUpper || ch.isLower) = true ↔ _
  rw [Bool.or_eq_true, isUpper_iff_toNat, isLower_iff_toNat]

theorem utf8Size_of_isAlpha {ch : Char} (h : ch.isAlpha) : ch.utf8Size = 1 := by
  rw [isAlpha_iff_toNat] at h
  rw [Char.utf8Size_eq_one_iff]
  show ch.toNat ≤ 127
  omega

/-- A character in lower case is a letter if it is that letter in either case. -/
theorem toLower_eq_iff {ch letter upper : Char} (hl : letter.isLower)
    (hu : upper.toNat + 32 = letter.toNat) :
    ch.toLower = letter ↔ ch = letter ∨ ch = upper := by
  rw [isLower_iff_toNat] at hl
  rw [← Char.toNat_inj, ← Char.toNat_inj, ← Char.toNat_inj]
  by_cases h : 65 ≤ ch.toNat ∧ ch.toNat ≤ 90
  · have lower : ch.toLower.toNat = (ch.val + ('a'.val - 'A'.val)).toNat :=
      congrArg Char.toNat (dif_pos h)
    have sum : (ch.val + ('a'.val - 'A'.val)).toNat = ch.toNat + 32 := by
      rw [UInt32.toNat_add, Nat.mod_eq_of_lt]
      · rfl
      · show ch.toNat + 32 < _
        omega
    rw [lower, sum]
    omega
  · have lower : ch.toLower = ch := dif_neg h
    rw [lower]
    omega

/-! ## Kinds of characters -/

namespace Terminal

/-- The character of a terminal that has only one. -/
def symbol? : Terminal → Option Char
  | hyphen => some '-'
  | esc => some '\\'
  | space => some ' '
  | comma => some ','
  | equals => some '='
  | tilde => some '~'
  | langle => some '<'
  | rangle => some '>'
  | colon => some ':'
  | semi => some ';'
  | lparen => some '('
  | rparen => some ')'
  | ampersand => some '&'
  | vertbar => some '|'
  | exclamation => some '!'
  | asterisk => some '*'
  | dot => some '.'
  | lsquare => some '['
  | rsquare => some ']'
  | _ => none

/-- A letter, a digit, NUL, a symbol of its own, or one of the many other characters. -/
theorem ofChar?_sorts (ch : Char) :
    (ch.isAlpha ∧ ofChar? ch = some .alpha) ∨ (ch.isDigit ∧ ofChar? ch = some .digit) ∨
      (ch = '\x00' ∧ ofChar? ch = none) ∨ (∃ k, ofChar? ch = some k ∧ k.symbol? = some ch) ∨
      ofChar? ch = some .utf1subset ∨ ofChar? ch = some .utfmb := by
  unfold ofChar?
  split
  · next h => exact .inl ⟨h, rfl⟩
  · split
    · next h => exact .inr (.inl ⟨h, rfl⟩)
    · split
      · exact .inr (.inr (.inl ⟨rfl, rfl⟩))
      rotate_right
      -- no symbol of its own: one of the other characters of one octet, or of more
      · split
        · exact .inr (.inr (.inr (.inr (.inl rfl))))
        · exact .inr (.inr (.inr (.inr (.inr rfl))))
      all_goals exact .inr (.inr (.inr (.inl ⟨_, rfl, rfl⟩)))

theorem eq_symbol_of_ofChar? {ch s : Char} {kind : Terminal} (h : ofChar? ch = some kind)
    (hs : kind.symbol? = some s) : ch = s := by
  obtain ⟨-, h'⟩ | ⟨-, h'⟩ | ⟨-, h'⟩ | ⟨k, h', hk⟩ | h' | h' := ofChar?_sorts ch <;>
    cases h.symm.trans h'
  case inr.inr.inr.inl => exact Option.some.inj (hk.symm.trans hs)
  all_goals cases hs

theorem ofChar?_of_isAlpha {ch : Char} (h : ch.isAlpha) : ofChar? ch = some .alpha := by
  unfold ofChar?
  rw [if_pos h]

theorem not_isAlpha_of_isDigit {ch : Char} (h : ch.isDigit) : ¬ch.isAlpha := by
  have h : 48 ≤ ch.toNat ∧ ch.toNat ≤ 57 := Char.isDigit_iff_toNat.1 h
  rw [isAlpha_iff_toNat]
  omega

theorem ofChar?_of_isDigit {ch : Char} (h : ch.isDigit) : ofChar? ch = some .digit := by
  unfold ofChar?
  rw [if_neg (not_isAlpha_of_isDigit h), if_pos h]

theorem isAlpha_of_ofChar? {ch : Char} (h : ofChar? ch = some .alpha) : ch.isAlpha := by
  obtain ⟨ha, -⟩ | ⟨-, h'⟩ | ⟨-, h'⟩ | ⟨k, h', hk⟩ | h' | h' := ofChar?_sorts ch
  · exact ha
  all_goals cases h.symm.trans h'
  cases hk

theorem isDigit_of_ofChar? {ch : Char} (h : ofChar? ch = some .digit) : ch.isDigit := by
  obtain ⟨-, h'⟩ | ⟨hd, -⟩ | ⟨-, h'⟩ | ⟨k, h', hk⟩ | h' | h' := ofChar?_sorts ch
  rotate_left
  · exact hd
  all_goals cases h.symm.trans h'
  cases hk

/-- Every character but NUL is a terminal. -/
theorem ofChar?_eq_none_iff {ch : Char} : ofChar? ch = none ↔ ch = '\x00' := by
  constructor
  · intro h
    obtain ⟨-, h'⟩ | ⟨-, h'⟩ | ⟨h0, -⟩ | ⟨k, h', -⟩ | h' | h' := ofChar?_sorts ch
    · cases h.symm.trans h'
    · cases h.symm.trans h'
    · exact h0
    all_goals cases h.symm.trans h'
  · rintro rfl
    rfl

theorem exists_ofChar? {ch : Char} (h : ch ≠ '\x00') : ∃ kind, ofChar? ch = some kind :=
  Option.ne_none_iff_exists'.1 fun hk => h (ofChar?_eq_none_iff.1 hk)

theorem ofChar?_ne_eof (ch : Char) : ofChar? ch ≠ some .eof := by
  intro h
  obtain ⟨-, h'⟩ | ⟨-, h'⟩ | ⟨-, h'⟩ | ⟨k, h', hk⟩ | h' | h' := ofChar?_sorts ch <;>
    cases h.symm.trans h'
  cases hk

theorem isKeychar_eq_true_iff (kind : Terminal) :
    kind.isKeychar ↔ kind = .alpha ∨ kind = .digit ∨ kind = .hyphen := by
  cases kind <;> decide

/-- What the kind of a character says of it, for the kinds of which the grammar has a class. -/
theorem isKeychar_iff {ch : Char} {kind : Terminal} (h : ofChar? ch = some kind) :
    kind.isKeychar ↔ Grammar.IsKeychar ch := by
  rw [isKeychar_eq_true_iff]
  constructor
  · rintro (rfl | rfl | rfl)
    · exact .inl (isAlpha_of_ofChar? h)
    · exact .inr (.inl (isDigit_of_ofChar? h))
    · exact .inr (.inr (eq_symbol_of_ofChar? h rfl))
  · rintro (ha | hd | rfl)
    · exact .inl (Option.some.inj (h.symm.trans (ofChar?_of_isAlpha ha)))
    · exact .inr (.inl (Option.some.inj (h.symm.trans (ofChar?_of_isDigit hd))))
    · exact .inr (.inr (Option.some.inj (h.symm.trans (by decide))))

/-- A symbol is normal unless the grammar of values gives it a meaning. -/
theorem isNormal_of_symbol {kind : Terminal} {ch : Char} (h : kind.symbol? = some ch)
    (hn : Grammar.IsNormal ch) : kind.isNormal := by
  obtain ⟨-, hl, hr, ha, he⟩ := hn
  cases kind <;> cases h <;> first | rfl | contradiction

theorem isNormal_iff {ch : Char} {kind : Terminal} (h : ofChar? ch = some kind) :
    kind.isNormal ↔ Grammar.IsNormal ch := by
  constructor
  · intro hk
    have ne {s : Char} {k : Terminal} (hs : ofChar? s = some k) (hn : k.isNormal = false) :
        ch ≠ s := by
      rintro rfl
      cases h.symm.trans hs
      rw [hn] at hk
      cases hk
    refine ⟨?_, ne (k := .lparen) (by decide) rfl, ne (k := .rparen) (by decide) rfl,
      ne (k := .asterisk) (by decide) rfl, ne (k := .esc) (by decide) rfl⟩
    rintro rfl
    cases h
  · intro hn
    obtain ⟨-, h'⟩ | ⟨-, h'⟩ | ⟨h0, -⟩ | ⟨k, h', hk⟩ | h' | h' := ofChar?_sorts ch
    · cases h.symm.trans h'
      rfl
    · cases h.symm.trans h'
      rfl
    · exact absurd h0 hn.1
    · cases h.symm.trans h'
      exact isNormal_of_symbol hk hn
    · cases h.symm.trans h'
      rfl
    · cases h.symm.trans h'
      rfl

end Terminal

/-! ## Tokens of characters -/

/-- A token that stands for the character `ch`. -/
structure Token.Spells (t : Token) (ch : Char) : Prop where
  kind : Terminal.ofChar? ch = some t.kind
  text : t.text = ch.toString

/-- A token that stands for a character or for the end of the input. -/
def Token.IsSpelled (t : Token) : Prop :=
  t.kind = .eof ∨ ∃ ch, t.Spells ch

namespace Token

/-- Kind and text are all that rules look at. -/
theorem alike_of_eq {t t' : Token} (hk : t'.kind = t.kind) (ht : t'.text = t.text) :
    t.Alike t' := by
  refine ⟨hk, fun letter => ?_, ?_, by rw [ht]⟩
  · rw [isLetter, isLetter, hk, ht]
  · rw [isHexDigit, isHexDigit, hk, ht]

namespace Spells

variable {t t' : Token} {ch ch' : Char}

theorem toList_text (h : t.Spells ch) : t.text.toList = [ch] := by
  rw [h.text]
  exact String.toList_singleton ch

theorem unique (h : t.Spells ch) (h' : t.Spells ch') : ch = ch' := by
  have := h.toList_text.symm.trans h'.toList_text
  simpa using this

theorem alike (h : t.Spells ch) (h' : t'.Spells ch) : t.Alike t' :=
  alike_of_eq (Option.some.inj (h'.kind.symm.trans h.kind)) (h'.text.trans h.text.symm)

theorem kind_eq (h : t.Spells ch) {kind : Terminal} (hk : Terminal.ofChar? ch = some kind) :
    t.kind = kind :=
  Option.some.inj (h.kind.symm.trans hk)

theorem kind_ne_eof (h : t.Spells ch) : t.kind ≠ .eof := by
  intro hk
  exact Terminal.ofChar?_ne_eof ch (hk ▸ h.kind)

theorem eq_symbol (h : t.Spells ch) {kind : Terminal} {s : Char} (hk : t.kind = kind)
    (hs : kind.symbol? = some s) : ch = s :=
  Terminal.eq_symbol_of_ofChar? (hk ▸ h.kind) hs

theorem kind_eq_alpha_iff (h : t.Spells ch) : t.kind = .alpha ↔ ch.isAlpha :=
  ⟨fun hk => Terminal.isAlpha_of_ofChar? (hk ▸ h.kind),
    fun ha => h.kind_eq (Terminal.ofChar?_of_isAlpha ha)⟩

theorem kind_eq_digit_iff (h : t.Spells ch) : t.kind = .digit ↔ ch.isDigit :=
  ⟨fun hk => Terminal.isDigit_of_ofChar? (hk ▸ h.kind),
    fun hd => h.kind_eq (Terminal.ofChar?_of_isDigit hd)⟩

theorem text_eq_zero_iff (h : t.Spells ch) : t.text = "0" ↔ ch = '0' := by
  constructor
  · intro ht
    have := h.toList_text
    rw [ht] at this
    simpa [eq_comm] using this
  · rintro rfl
    exact h.text

theorem isHexDigit_iff (h : t.Spells ch) : t.isHexDigit ↔ Grammar.IsHexDigit ch := by
  constructor
  · intro hx
    unfold isHexDigit at hx
    split at hx
    · next hk => exact .inl (h.kind_eq_digit_iff.1 hk)
    · simp only [h.toList_text, List.all_cons, List.all_nil, Bool.and_true, isHexChar,
        Bool.or_eq_true, Bool.and_eq_true, decide_eq_true_eq] at hx
      obtain (hd | hl) | hu := hx
      · exact .inl hd
      · exact .inr (.inr hl)
      · exact .inr (.inl hu)
    · cases hx
  · intro hx
    have hk : t.kind = .digit ∨ t.kind = .alpha := by
      obtain hd | hl := hx
      · exact .inl (h.kind_eq_digit_iff.2 hd)
      · have hl : (65 ≤ ch.toNat ∧ ch.toNat ≤ 70) ∨ (97 ≤ ch.toNat ∧ ch.toNat ≤ 102) := hl
        right
        rw [h.kind_eq_alpha_iff, isAlpha_iff_toNat]
        omega
    rw [isHexDigit]
    obtain hk | hk := hk
    · rw [hk]
    · rw [hk]
      simp only [h.toList_text, List.all_cons, List.all_nil, Bool.and_true, isHexChar,
        Bool.or_eq_true, Bool.and_eq_true, decide_eq_true_eq]
      obtain hd | hu | hl := hx
      · exact .inl (.inl hd)
      · exact .inr hu
      · exact .inl (.inr hl)

theorem isLetter_iff (h : t.Spells ch) (letter : Char) :
    t.isLetter letter ↔ ch.isAlpha ∧ ch.toLower = letter.toLower := by
  rw [isLetter, h.toList_text, Bool.and_eq_true, decide_eq_true_eq, h.kind_eq_alpha_iff]
  simp only [Bool.and_eq_true, decide_eq_true_eq]
  exact ⟨fun hc => ⟨hc.1, hc.2.2⟩, fun hc => ⟨hc.1, utf8Size_of_isAlpha hc.1, hc.2⟩⟩

theorem isLetter_d_iff (h : t.Spells ch) : t.isLetter 'd' ↔ ch = 'd' ∨ ch = 'D' := by
  rw [h.isLetter_iff, show 'd'.toLower = 'd' by decide,
    toLower_eq_iff (show 'd'.isLower by decide) (show 'D'.toNat + 32 = 'd'.toNat by decide)]
  refine and_iff_right_of_imp ?_
  rintro (rfl | rfl) <;> decide

theorem isLetter_n_iff (h : t.Spells ch) : t.isLetter 'n' ↔ ch = 'n' ∨ ch = 'N' := by
  rw [h.isLetter_iff, show 'n'.toLower = 'n' by decide,
    toLower_eq_iff (show 'n'.isLower by decide) (show 'N'.toNat + 32 = 'n'.toNat by decide)]
  refine and_iff_right_of_imp ?_
  rintro (rfl | rfl) <;> decide

end Spells

end Token

/-! ## Reading characters -/

/-- The octet where the part of an input begins that cannot be read. -/
def LexError.offset : LexError → Nat
  | invalidCharacter _ _ offset => offset
  | invalidByte _ offset => offset
  | malformedSequence _ offset _ _ => offset

/-- A source whose tokens stand for characters. -/
class SpellingSource (σ : Type) [TokenSource σ] : Prop where
  isSpelled : ∀ {s s' : σ} {t : Token}, TokenSource.next s = .ok t s' → t.IsSpelled

variable {σ : Type} [TokenSource σ]

/-- The tokens taken on the way from `c` to `m` spell `text`. -/
abbrev Reads (c : Lookahead σ) (text : List Char) (m : Lookahead σ) : Prop :=
  Path Token.Spells c text m

theorem Path.isSpelled [SpellingSource σ] {ι : Type} {R : Token → ι → Prop} {c m : Lookahead σ}
    {xs : List ι} (h : Path R c xs m) (hc : c.current.IsSpelled) : m.current.IsSpelled := by
  induction h with
  | nil => exact hc
  | cons _ taken _ ih => exact ih (SpellingSource.isSpelled taken.2)

/-- Whether a token of the character `ch` can be the first of `construct`. -/
def Construct.Begins (ch : Char) : Construct → Prop
  | terminal kind => Terminal.ofChar? ch = some kind
  | filterType => ch ∈ ['=', '~', '>', '<', ':']
  | oid => ch.isAlpha ∨ ch.isDigit
  | number => ch.isDigit
  | keychar => Grammar.IsKeychar ch
  | hexDigit => Grammar.IsHexDigit ch

end LdapFilter
