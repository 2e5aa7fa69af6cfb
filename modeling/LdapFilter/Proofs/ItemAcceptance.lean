import LdapFilter.Proofs.Factored
import LdapFilter.Proofs.Spelling

/-!
# The rules of an item accept their constructs

A rule on tokens that starts where a text of its construct can be read ends right after it. Loops
take all they can, so for most rules this needs that what comes next does not belong to them: a
name ends before anything but a keychar, and a value before an asterisk or a closing parenthesis.
-/

namespace LdapFilter

open Grammar

variable {σ : Type} [TokenSource σ]

/-- The first token of a text spells its first character. -/
theorem Path.spells_head {c m : Lookahead σ} {ch : Char} {s : List Char}
    (h : Reads c (ch :: s) m) : c.current.Spells ch := by
  cases h with
  | cons label => exact label

theorem Path.tail {c m : Lookahead σ} {ch : Char} {s : List Char} (h : Reads c (ch :: s) m) :
    ∃ d, c.Takes d ∧ Reads d s m := by
  cases h with
  | cons _ taken rest => exact ⟨_, taken, rest⟩

namespace TokenRule

variable {c d m : Lookahead σ} {u : List Char}

theorem run_skip (h : c.Takes d) : skip.run c = .ok () d := by
  rw [skip, Rule.run_bind, run_take_of_takes h]
  rfl

/-- A sequence accepts what its rules accept one after the other. -/
theorem run_bind_of_ok {rule : TokenRule σ Unit} {next : Unit → TokenRule σ Unit}
    (h : rule.run c = .ok () d) : (rule >>= next).run c = (next ()).run d := by
  rw [Rule.run_bind, h]

theorem run_terminal_of_takes {kind : Terminal} (hk : c.kind = kind) (h : c.Takes d) :
    (terminal kind).run c = .ok () d := by
  rw [run_terminal, if_pos hk, run_skip h]

/-- A terminal of a single character accepts that character. -/
theorem run_symbol {kind : Terminal} {ch : Char} (hch : Terminal.ofChar? ch = some kind)
    (h : Reads c [ch] m) : (terminal kind).run c = .ok () m := by
  obtain ⟨d, taken, rest⟩ := h.tail
  cases rest.eq_of_nil
  exact run_terminal_of_takes (h.spells_head.kind_eq hch) taken

section Many

variable {p : Terminal → Bool} {p_eof : p .eof = false} {after : Token → TokenRule σ Unit}

/-- A loop stops before a token that does not fit. -/
theorem run_many_of_stop (h : ¬p c.kind) : (many p after p_eof).run c = .ok () c := by
  rw [run_many, if_neg h]

/-- A loop takes a token that fits and what is read after it, and goes on. -/
theorem run_many_of_takes {n : Lookahead σ} (hp : p c.kind) (taken : c.Takes d)
    (hafter : (after c.current).run d = .ok () n) :
    (many p after p_eof).run c = (many p after p_eof).run n := by
  rw [run_many, if_pos hp, Rule.run_bind, Rule.run_bind, run_take_of_takes taken]
  simp only [hafter]

theorem run_many_pure {P : Char → Prop}
    (hp : ∀ {t : Token} {ch}, t.Spells ch → P ch → p t.kind) (hr : Reads c u m)
    (hu : ∀ ch ∈ u, P ch) (hm : ¬p m.kind) :
    (many p (fun _ => pure ()) p_eof).run c = .ok () m := by
  induction u generalizing c with
  | nil =>
    cases hr.eq_of_nil
    exact run_many_of_stop hm
  | cons ch u ih =>
    obtain ⟨hch, hu⟩ := List.forall_mem_cons.1 hu
    obtain ⟨d, taken, rest⟩ := hr.tail
    rw [run_many_of_takes (hp hr.spells_head hch) taken rfl]
    exact ih rest hu

end Many

theorem run_hex_of_takes {ch : Char} (hs : c.current.Spells ch) (hch : IsHexDigit ch)
    (h : c.Takes d) : hex.run c = .ok () d := by
  rw [run_hex, if_pos (hs.isHexDigit_iff.2 hch), run_skip h]

/-- A value goes on after a character that stands for itself. -/
theorem run_value_normal {ch : Char} (hs : c.current.Spells ch) (hch : IsNormal ch)
    (taken : c.Takes d) : value.run c = value.run d := by
  have hn : c.kind.isNormal := (Terminal.isNormal_iff hs.kind).2 hch
  have he : c.current.kind ≠ .esc := by
    intro he
    rw [show c.kind = .esc from he] at hn
    cases hn
  refine run_many_of_takes (by simp [hn]) taken ?_
  simp only [if_neg he]
  rfl

/-- A value goes on after an escape. -/
theorem run_value_escape {high low : Char} (hr : Reads c ['\\', high, low] m)
    (hh : IsHexDigit high) (hl : IsHexDigit low) : value.run c = value.run m := by
  have he : c.current.kind = .esc := hr.spells_head.kind_eq rfl
  obtain ⟨d, taken, at_high⟩ := hr.tail
  obtain ⟨k, taken_high, at_low⟩ := at_high.tail
  obtain ⟨n, taken_low, rest⟩ := at_low.tail
  cases rest.eq_of_nil
  refine run_many_of_takes (by simp [Lookahead.kind, he]) taken ?_
  simp only [if_pos he]
  rw [run_bind_of_ok (run_hex_of_takes at_high.spells_head hh taken_high),
    run_hex_of_takes at_low.spells_head hl taken_low]

/-- A value ends before a character that has no place in it. -/
theorem run_value_stop (hm : m.kind = .asterisk ∨ m.kind = .rparen) :
    value.run m = .ok () m := by
  apply run_many_of_stop
  obtain hm | hm := hm <;> rw [hm] <;> decide

theorem run_value (hr : Reads c u m) (hu : Value u) (hm : m.kind = .asterisk ∨ m.kind = .rparen) :
    value.run c = .ok () m := by
  induction hu generalizing c with
  | nil =>
    cases hr.eq_of_nil
    exact run_value_stop hm
  | normal hch _ ih =>
    obtain ⟨d, taken, rest⟩ := hr.tail
    exact (run_value_normal hr.spells_head hch taken).trans (ih rest)
  | @escaped high low s hh hl _ ih =>
    have hr : Reads c (['\\', high, low] ++ s) m := hr
    obtain ⟨d, escape, rest⟩ := hr.split
    exact (run_value_escape escape hh hl).trans (ih rest)

theorem run_number_of_reads (hr : Reads c u m) (hu : Number u) (hm : m.kind ≠ .digit) :
    number.run c = .ok () m := by
  cases hu with
  | zero =>
    obtain ⟨d, taken, rest⟩ := hr.tail
    cases rest.eq_of_nil
    have hk : c.kind = .digit := hr.spells_head.kind_eq rfl
    rw [run_number, if_pos hk, Rule.run_bind, run_take_of_takes taken]
    simp only [hr.spells_head.text_eq_zero_iff.2 rfl, if_true]
    rfl
  | @positive lead s hd h0 hs =>
    obtain ⟨d, taken, rest⟩ := hr.tail
    have hk : c.kind = .digit := hr.spells_head.kind_eq_digit_iff.2 hd
    rw [run_number, if_pos hk, Rule.run_bind, run_take_of_takes taken]
    simp only [if_neg fun ht => h0 (hr.spells_head.text_eq_zero_iff.1 ht)]
    refine run_many_pure (fun h hd => ?_) rest hs (by simpa using hm)
    exact decide_eq_true (h.kind_eq_digit_iff.2 hd)

theorem run_numericoid (hr : Reads c u m) (hu : Numericoid u) (hd : m.kind ≠ .digit)
    (hm : m.kind ≠ .dot) : numericoid.run c = .ok () m := by
  induction hu generalizing c with
  | number hn =>
    refine (run_bind_of_ok (run_number_of_reads hr hn hd)).trans ?_
    exact run_many_of_stop (by simpa using hm)
  | dot hn _ ih =>
    obtain ⟨d, hn', hr⟩ := hr.split
    have hk : d.kind = .dot := hr.spells_head.kind_eq rfl
    obtain ⟨n, taken, rest⟩ := hr.tail
    refine (run_bind_of_ok (run_number_of_reads hn' hn (by rw [hk]; decide))).trans ?_
    -- after the dot the loop and a numeric name read the same
    have round : (many (fun kind => kind = .dot) (fun _ => number) : TokenRule σ Unit).run d =
        numericoid.run n := by
      rw [run_many, if_pos (by simp [hk]), Rule.run_bind, Rule.run_bind, run_take_of_takes taken]
      rfl
    exact round.trans (ih rest)

theorem run_keychars (hr : Reads c u m) (hu : ∀ ch ∈ u, IsKeychar ch) (hm : ¬m.kind.isKeychar) :
    keychars.run c = .ok () m :=
  run_many_pure (fun h hch => (Terminal.isKeychar_iff h.kind).2 hch) hr hu hm

/-- What may come after a name. -/
def EndsName (kind : Terminal) : Prop :=
  ¬kind.isKeychar ∧ kind ≠ .dot

theorem run_oid_of_reads (hr : Reads c u m) (hu : Oid u) (hm : EndsName m.kind) :
    oid.run c = .ok () m := by
  cases hu with
  | descr hu =>
    cases hu with
    | mk ha hs =>
      have hk : c.kind = .alpha := hr.spells_head.kind_eq_alpha_iff.2 ha
      obtain ⟨d, taken, rest⟩ := hr.tail
      rw [run_oid, if_pos hk]
      exact (run_bind_of_ok (run_terminal_of_takes hk taken)).trans (run_keychars rest hs hm.1)
  | numericoid hu =>
    have hk : c.kind = .digit := by
      obtain ⟨ch, s, rfl, hd⟩ := hu.exists_digit
      exact hr.spells_head.kind_eq_digit_iff.2 hd
    rw [run_oid, if_neg (by rw [hk]; decide), if_pos hk]
    refine run_numericoid hr hu (fun hd => hm.1 ?_) hm.2
    rw [hd]
    rfl

theorem run_option (hr : Reads c u m) (hne : u ≠ []) (hu : ∀ ch ∈ u, IsKeychar ch)
    (hm : ¬m.kind.isKeychar) : option.run c = .ok () m := by
  obtain ⟨ch, s, rfl⟩ := List.exists_cons_of_ne_nil hne
  obtain ⟨hch, hs⟩ := List.forall_mem_cons.1 hu
  obtain ⟨d, taken, rest⟩ := hr.tail
  have hk : c.kind.isKeychar := (Terminal.isKeychar_iff hr.spells_head.kind).2 hch
  have first : keychar.run c = .ok () d := by
    rw [run_keychar, if_pos hk, run_skip taken]
  exact (run_bind_of_ok first).trans (run_keychars rest hs hm)

/-- A name ends before options. -/
theorem endsName_of_options (hr : Reads c u m) (hu : Options u) (hm : EndsName m.kind) :
    EndsName c.kind := by
  cases hu with
  | nil => exact hr.eq_of_nil ▸ hm
  | cons =>
    have hk : c.kind = .semi := hr.spells_head.kind_eq rfl
    rw [hk]
    exact ⟨by decide, by decide⟩

theorem run_attr (hr : Reads c u m) (hu : Attr u) (hm : EndsName m.kind) (hs : m.kind ≠ .semi) :
    attr.run c = .ok () m := by
  have options {c : Lookahead σ} {u : List Char} (hr : Reads c u m) (hu : Options u) :
      (many (fun kind => kind = .semi) fun _ => option : TokenRule σ Unit).run c = .ok () m := by
    induction hu generalizing c with
    | nil =>
      cases hr.eq_of_nil
      exact run_many_of_stop (by simpa using hs)
    | cons hne hkey hrest ih =>
      have hk : c.kind = .semi := hr.spells_head.kind_eq rfl
      obtain ⟨d, taken, hr⟩ := hr.tail
      obtain ⟨n, hopt, rest⟩ := hr.split
      have stop := (endsName_of_options rest hrest hm).1
      refine (run_many_of_takes (by simp [hk]) taken ?_).trans (ih rest)
      exact run_option hopt hne hkey stop
  cases hu with
  | mk ho hopt =>
    obtain ⟨d, hoid, rest⟩ := hr.split
    refine (run_bind_of_ok (run_oid_of_reads hoid ho (endsName_of_options rest hopt hm))).trans ?_
    exact options rest hopt

theorem run_matchingRuleTail (hr : Reads c (u ++ [':']) m) (hu : ∀ ch ∈ u, IsKeychar ch) :
    matchingRuleTail.run c = .ok () m := by
  obtain ⟨d, name, colon⟩ := hr.split
  have hk : d.kind = .colon := colon.spells_head.kind_eq rfl
  refine (run_bind_of_ok (run_keychars name hu (by rw [hk]; decide))).trans ?_
  exact run_symbol rfl colon

theorem run_matchingRule_of_reads (required : Bool) (hr : Reads c (u ++ [':']) m) (hu : Oid u) :
    (matchingRule required).run c = .ok () m := by
  obtain ⟨d, name, colon⟩ := hr.split
  have hk : d.kind = .colon := colon.spells_head.kind_eq rfl
  have lead : c.kind = .alpha ∨ c.kind = .digit := by
    obtain ⟨ch, s, rfl, ha | hd⟩ := hu.exists_lead
    · exact .inl (name.spells_head.kind_eq_alpha_iff.2 ha)
    · exact .inr (name.spells_head.kind_eq_digit_iff.2 hd)
  rw [run_matchingRule, if_pos (by obtain h | h := lead <;> simp [h])]
  refine (run_bind_of_ok (run_oid_of_reads name hu ?_)).trans (run_symbol rfl colon)
  rw [hk]
  exact ⟨by decide, by decide⟩

/-- A rule that is not required is not read before an equals sign. -/
theorem run_matchingRule_of_equals (hk : c.kind = .equals) :
    (matchingRule false).run c = .ok () c := by
  rw [run_matchingRule, if_neg (by simp [hk])]

/-- After the marker and its colon comes the rule. -/
theorem run_dnAndRule_of_marker (required : Bool) {dn : List Char} (hdn : Marker dn)
    (hr : Reads c (dn ++ [':']) d) :
    (dnAndRule required).run c = (matchingRule required).run d := by
  cases hdn with
  | mk hd hn =>
    obtain ⟨e, taken_d, at_n⟩ := hr.tail
    obtain ⟨k, taken_n, at_colon⟩ := at_n.tail
    obtain ⟨l, taken_colon, rest⟩ := at_colon.tail
    cases rest.eq_of_nil
    have hk : k.kind = .colon := at_colon.spells_head.kind_eq rfl
    rw [run_dnAndRule, if_pos (hr.spells_head.isLetter_d_iff.2 hd),
      run_bind_of_ok (run_skip taken_d), run_afterD,
      if_pos (at_n.spells_head.isLetter_n_iff.2 hn), run_bind_of_ok (run_skip taken_n),
      run_afterDn, if_pos hk, run_bind_of_ok (run_skip taken_colon)]

/-- A name that is not the marker is read as a rule, also if it begins like the marker. -/
theorem run_dnAndRule_of_name (required : Bool) (hu : Oid u) (hmark : ¬Marker u)
    (hr : Reads c (u ++ [':']) m) : (dnAndRule required).run c = .ok () m := by
  rw [run_dnAndRule]
  by_cases hd : c.current.isLetter 'd'
  swap
  · rw [if_neg hd]
    exact run_matchingRule_of_reads required hr hu
  rw [if_pos hd]
  -- only a name of letters begins with a letter
  cases hu with
  | numericoid hn =>
    obtain ⟨ch, s, rfl, hdigit⟩ := hn.exists_digit
    obtain rfl | rfl := hr.spells_head.isLetter_d_iff.1 hd <;> cases hdigit
  | descr hk =>
    cases hk with
    | @mk d s _ hs =>
      have isD := hr.spells_head.isLetter_d_iff.1 hd
      obtain ⟨k, taken, rest⟩ := hr.tail
      rw [run_bind_of_ok (run_skip taken), run_afterD]
      by_cases hn : k.current.isLetter 'n'
      swap
      · rw [if_neg hn]
        exact run_matchingRuleTail rest hs
      rw [if_pos hn]
      cases s with
      | nil =>
        have := rest.spells_head.isLetter_n_iff.1 hn
        exact absurd this (by decide)
      | cons n s =>
        have isN := rest.spells_head.isLetter_n_iff.1 hn
        obtain ⟨l, taken, rest⟩ := rest.tail
        rw [run_bind_of_ok (run_skip taken), run_afterDn, if_neg]
        · exact run_matchingRuleTail rest (List.forall_mem_cons.1 hs).2
        · -- a colon here would end the name after its two letters
          intro hk
          cases s with
          | nil => exact hmark (.mk isD isN)
          | cons ch s =>
            have hch : IsKeychar ch := hs ch (by simp)
            have := (Terminal.isKeychar_iff rest.spells_head.kind).2 hch
            rw [show l.current.kind = .colon from hk] at this
            cases this

theorem run_dnAndRule_of_reads {required : Bool} (hr : Reads c u m) (hu : DnAndRule required u)
    (hm : m.kind = .equals) : (dnAndRule required).run c = .ok () m := by
  cases hu with
  | none =>
    cases hr.eq_of_nil
    rw [run_dnAndRule, if_neg, run_matchingRule_of_equals hm]
    simp [Token.isLetter, show c.current.kind = .equals from hm]
  | marker hdn => exact (run_dnAndRule_of_marker false hdn hr).trans (run_matchingRule_of_equals hm)
  | @rule _ oid ho hmark =>
    by_cases hdn : Marker oid
    · cases required with
      | true => exact absurd hdn (hmark rfl)
      | false =>
        exact (run_dnAndRule_of_marker false hdn hr).trans (run_matchingRule_of_equals hm)
    · exact run_dnAndRule_of_name required ho hdn hr
  | @both _ dn oid hdn ho =>
    have hr : Reads c ((dn ++ [':']) ++ (oid ++ [':'])) m := by simpa using hr
    obtain ⟨d, marker, rule⟩ := hr.split
    refine (run_dnAndRule_of_marker required hdn marker).trans ?_
    exact run_matchingRule_of_reads required rule ho

theorem run_extensible {required : Bool} (hr : Reads c u m) (hu : Extensible required u)
    (hm : m.kind = .rparen) : (extensible required).run c = .ok () m := by
  cases hu with
  | @mk names v hn hv =>
    have hr : Reads c ([':'] ++ (names ++ (['='] ++ v))) m := by simpa using hr
    obtain ⟨d, colon, hr⟩ := hr.split
    obtain ⟨e, hnames, hr⟩ := hr.split
    obtain ⟨k, equals, hvalue⟩ := hr.split
    have hk : e.kind = .equals := equals.spells_head.kind_eq rfl
    refine (run_bind_of_ok (run_symbol rfl colon)).trans ?_
    refine (run_bind_of_ok (run_dnAndRule_of_reads hnames hn hk)).trans ?_
    exact (run_bind_of_ok (run_symbol rfl equals)).trans (run_value hvalue hv (.inr hm))

theorem run_equality (taken : c.Takes d) {v stars : List Char}
    (hr : Reads d (v ++ stars) m) (hv : Value v) (hs : Stars stars) (hm : m.kind = .rparen) :
    equality.run c = .ok () m := by
  have stop {c : Lookahead σ} {u : List Char} (hr : Reads c u m) (hu : Stars u) :
      c.kind = .asterisk ∨ c.kind = .rparen := by
    cases hu with
    | nil => exact .inr (hr.eq_of_nil ▸ hm)
    | cons => exact .inl (hr.spells_head.kind_eq rfl)
  have loop {c : Lookahead σ} {u : List Char} (hr : Reads c u m) (hu : Stars u) :
      (many (fun kind => kind = .asterisk) fun _ => value : TokenRule σ Unit).run c =
        .ok () m := by
    induction hu generalizing c with
    | nil =>
      cases hr.eq_of_nil
      exact run_many_of_stop (by simp [hm])
    | cons hv hs ih =>
      have hk : c.kind = .asterisk := hr.spells_head.kind_eq rfl
      obtain ⟨d, taken, hr⟩ := hr.tail
      obtain ⟨n, hvalue, rest⟩ := hr.split
      refine (run_many_of_takes (by simp [hk]) taken ?_).trans (ih rest)
      exact run_value hvalue hv (stop rest hs)
  obtain ⟨n, hvalue, rest⟩ := hr.split
  refine (run_bind_of_ok (run_skip taken)).trans ?_
  exact (run_bind_of_ok (run_value hvalue hv (stop rest hs))).trans (loop rest hs)

theorem kind_of_sign {t : Token} {ch : Char} (h : t.Spells ch)
    (hch : ch = '~' ∨ ch = '>' ∨ ch = '<') :
    t.kind = .tilde ∨ t.kind = .rangle ∨ t.kind = .langle := by
  obtain rfl | rfl | rfl := hch
  · exact .inl (h.kind_eq rfl)
  · exact .inr (.inl (h.kind_eq rfl))
  · exact .inr (.inr (h.kind_eq rfl))

theorem kind_of_extensible {required : Bool} (hr : Reads c u m) (hu : Extensible required u) :
    c.kind = .colon := by
  cases hu with
  | mk => exact hr.spells_head.kind_eq rfl

/-- What an attribute ends before. -/
theorem kind_of_itemTail (hr : Reads c u m) (hu : ItemTail u) :
    c.kind = .colon ∨ (c.kind = .tilde ∨ c.kind = .rangle ∨ c.kind = .langle) ∨
      c.kind = .equals := by
  cases hu with
  | extensible he => exact .inl (kind_of_extensible hr he)
  | ordering hs => exact .inr (.inl (kind_of_sign hr.spells_head hs))
  | equality => exact .inr (.inr (hr.spells_head.kind_eq rfl))

theorem run_itemTail_of_reads (hr : Reads c u m) (hu : ItemTail u) (hm : m.kind = .rparen) :
    itemTail.run c = .ok () m := by
  rw [run_itemTail]
  cases hu with
  | extensible he => rw [if_pos (kind_of_extensible hr he), run_extensible hr he hm]
  | @ordering sign v hs hv =>
    have hk : c.kind = .tilde ∨ c.kind = .rangle ∨ c.kind = .langle :=
      kind_of_sign hr.spells_head hs
    obtain ⟨d, taken, rest⟩ := hr.tail
    have rest : Reads d (['='] ++ v) m := rest
    obtain ⟨e, equals, hvalue⟩ := rest.split
    rw [if_neg (by obtain h | h | h := hk <;> rw [h] <;> decide), if_pos hk]
    refine (run_bind_of_ok (run_skip taken)).trans ?_
    exact (run_bind_of_ok (run_symbol rfl equals)).trans (run_value hvalue hv (.inr hm))
  | equality hv hs =>
    have hk : c.kind = .equals := hr.spells_head.kind_eq rfl
    obtain ⟨d, taken, rest⟩ := hr.tail
    rw [if_neg (by rw [hk]; decide), if_neg (by rw [hk]; decide), if_pos hk]
    exact run_equality taken rest hv hs hm

theorem kind_of_attr (hr : Reads c u m) (hu : Attr u) : c.kind = .alpha ∨ c.kind = .digit := by
  cases hu with
  | mk ho _ =>
    obtain ⟨ch, s, rfl, ha | hd⟩ := ho.exists_lead
    · exact .inl (hr.spells_head.kind_eq_alpha_iff.2 ha)
    · exact .inr (hr.spells_head.kind_eq_digit_iff.2 hd)

/-- No item begins like the composition of filters. -/
theorem kind_of_item (hr : Reads c u m) (hu : Item u) :
    c.kind = .alpha ∨ c.kind = .digit ∨ c.kind = .colon := by
  obtain ⟨a, tail, ha, _, rfl⟩ | he := item_iff.1 hu
  · obtain ⟨d, hattr, _⟩ := hr.split
    obtain h | h := kind_of_attr hattr ha
    · exact .inl h
    · exact .inr (.inl h)
  · exact .inr (.inr (kind_of_extensible hr he))

theorem run_item_of_reads (hr : Reads c u m) (hu : Item u) (hm : m.kind = .rparen) :
    item.run c = .ok () m := by
  rw [run_item]
  obtain ⟨a, tail, ha, ht, rfl⟩ | he := item_iff.1 hu
  · obtain ⟨d, hattr, htail⟩ := hr.split
    have hd := kind_of_itemTail htail ht
    have lead := kind_of_attr hattr ha
    have ends : EndsName d.kind ∧ d.kind ≠ .semi := by
      obtain h | (h | h | h) | h := hd <;> rw [h] <;> exact ⟨⟨by decide, by decide⟩, by decide⟩
    rw [if_pos (by obtain h | h := lead <;> simp [h])]
    refine (run_bind_of_ok (run_attr hattr ha ends.1 ends.2)).trans ?_
    exact run_itemTail_of_reads htail ht hm
  · rw [if_neg (by simp [kind_of_extensible hr he]), run_extensible hr he hm]

end TokenRule

end LdapFilter
