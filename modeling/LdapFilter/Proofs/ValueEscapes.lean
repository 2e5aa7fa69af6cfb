import LdapFilter.Proofs.EscapeScan
import LdapFilter.Proofs.Recognition

/-!
# The values of an item and the escapes in them

After an equals sign the parser reads values between asterisks, and what it takes for an escape is
what the scan of a value takes for one. Up to the first bad escape the values are read
(`TokenRule.run_values`); there a digit is lacking, at the first character after the backslash that
is none (`FilterRule.holds_item_broken`). So a text without parentheses and NUL can be put after
`a=` if and only if it can be decoded.
-/

namespace LdapFilter

open Grammar
open CharCursor (behind)
open Escape (Sound Broken IsHexOctet)

/-! ## The values after an equals sign -/

namespace TokenRule

variable {σ : Type} [TokenSource σ] {c d m : Lookahead σ} {u before digits rest : List Char}
  {x : Char} {limit : Nat}

theorem not_asterisk_eof : decide (Terminal.eof = .asterisk) = false := by decide

/-- `assertionvalue *( ASTERISK assertionvalue )`. -/
def values : TokenRule σ Unit := do
  value
  many (fun kind => kind = .asterisk) (fun _ => value) not_asterisk_eof

theorem run_equality_of_takes (taken : c.Takes d) : equality.run c = values.run d :=
  run_bind_of_ok (run_skip taken)

theorem run_values_of_value (h : value.run c = value.run d) : values.run c = values.run d := by
  rw [values, Rule.run_bind, Rule.run_bind, h]

/-- After an asterisk the values go on. -/
theorem run_values_asterisk (hs : c.current.Spells '*') (taken : c.Takes d) :
    values.run c = values.run d := by
  have hk : c.kind = .asterisk := hs.kind_eq rfl
  rw [values, run_bind_of_ok (run_value_stop (.inl hk)), run_many, if_pos (by simp [hk]),
    Rule.run_bind, Rule.run_bind, run_take_of_takes taken]
  rfl

/-- Values with good escapes are read, whatever comes after them. -/
theorem run_values (hr : Reads c u m) (hs : Sound u) (hp : Plain u) :
    values.run c = values.run m := by
  induction hs generalizing c with
  | nil =>
    cases hr.eq_of_nil
    rfl
  | @other ch rest hch _ ih =>
    obtain ⟨⟨hne, hl, hrp⟩, hp⟩ := plain_cons.1 hp
    obtain ⟨d, taken, hrest⟩ := hr.tail
    have first : values.run c = values.run d := by
      by_cases hstar : ch = '*'
      · subst hstar
        exact run_values_asterisk hr.spells_head taken
      · have normal : IsNormal ch := ⟨hne, hl, hrp, hstar, hch⟩
        exact run_values_of_value (run_value_normal hr.spells_head normal taken)
    exact first.trans (ih hrest hp)
  | @escape high low rest hh hl _ ih =>
    have hr : Reads c (['\\', high, low] ++ rest) m := hr
    have hp : Plain (['\\', high, low] ++ rest) := hp
    obtain ⟨d, escape, hrest⟩ := hr.split
    have first : values.run c = values.run d :=
      run_values_of_value (run_value_escape escape hh hl)
    exact first.trans (ih hrest (plain_append.1 hp).2)

/-! ## Where an escape breaks off -/

theorem holds_hex (hx : m.current.Spells x) (hne : ¬IsHexDigit x) :
    (Verdict.lacks .hexDigit).Holds (.tokens limit) m (hex.run m) := by
  rw [run_hex, if_neg (by rwa [hx.isHexDigit_iff])]
  rfl

/-- Fewer than two digits are read, and then one is lacking. -/
theorem holds_hexes (hr : Reads c digits m) (hx : m.current.Spells x)
    (hb : Broken digits (x :: rest)) :
    (Verdict.lacks .hexDigit).Holds (.tokens limit) m ((hex >>= fun _ => hex).run c) := by
  have stop : ¬IsHexDigit x := hb.stop x rfl
  match digits, hb with
  | [], _ =>
    cases hr.eq_of_nil
    exact (holds_hex hx stop).bind nofun _
  | [digit], hb =>
    obtain ⟨d, taken, rest⟩ := hr.tail
    cases rest.eq_of_nil
    rw [run_bind_of_ok (run_hex_of_takes hr.spells_head (hb.hex digit (by simp)) taken)]
    exact holds_hex hx stop
  | _ :: _ :: _, hb =>
    have := hb.few
    simp only [List.length_cons] at this
    omega

theorem holds_value_broken (hr : Reads c ('\\' :: digits) m) (hx : m.current.Spells x)
    (hb : Broken digits (x :: rest)) :
    (Verdict.lacks .hexDigit).Holds (.tokens limit) m (value.run c) := by
  have he : c.current.kind = .esc := hr.spells_head.kind_eq rfl
  obtain ⟨d, taken, hdigits⟩ := hr.tail
  rw [value, run_many, if_pos (by simp [Lookahead.kind, he])]
  refine Verdict.Holds.bind ?_ (by simp) _
  rw [Rule.run_bind, run_take_of_takes taken]
  simp only [if_pos he]
  exact holds_hexes hdigits hx hb

/-- Values are read up to their first bad escape. -/
theorem holds_values_broken (hr : Reads c (before ++ '\\' :: digits) m) (hx : m.current.Spells x)
    (hs : Sound before) (hp : Plain before) (hb : Broken digits (x :: rest)) :
    (Verdict.lacks .hexDigit).Holds (.tokens limit) m (values.run c) := by
  obtain ⟨d, hbefore, hr⟩ := hr.split
  rw [run_values hbefore hs hp]
  exact (holds_value_broken hr hx hb).bind nofun _

/-- The attribute `a`. -/
theorem attr_a : Attr ['a'] := by
  have name : Oid ['a'] := .descr (.mk (by decide) (by simp))
  simpa using Attr.mk name .nil

theorem holds_item_broken (hr : Reads c ('a' :: '=' :: (before ++ '\\' :: digits)) m)
    (hx : m.current.Spells x) (hs : Sound before) (hp : Plain before)
    (hb : Broken digits (x :: rest)) :
    (Verdict.lacks .hexDigit).Holds (.tokens limit) m (item.run c) := by
  have hr : Reads c (['a'] ++ '=' :: (before ++ '\\' :: digits)) m := hr
  obtain ⟨d, hattr, hr⟩ := hr.split
  have alpha : c.kind = .alpha := hattr.spells_head.kind_eq rfl
  have equals : d.kind = .equals := hr.spells_head.kind_eq rfl
  have ends : EndsName d.kind ∧ d.kind ≠ .semi := by
    rw [equals]
    exact ⟨⟨by decide, by decide⟩, by decide⟩
  obtain ⟨e, taken, hvalues⟩ := hr.tail
  rw [run_item, if_pos (by simp [alpha]), run_bind_of_ok (run_attr hattr attr_a ends.1 ends.2),
    run_itemTail, if_neg (by simp [equals]), if_neg (by simp [equals]), if_pos equals,
    run_equality_of_takes taken]
  exact holds_values_broken hvalues hx hs hp hb

end TokenRule

namespace FilterRule

variable {σ : Type} [TokenSource σ] {c m : Lookahead σ} {before digits rest : List Char} {x : Char}
  {depth limit levels : Nat}

/-- The filter around the item lacks what the item lacks. -/
theorem holds_filter_broken (hr : Reads c ('(' :: 'a' :: '=' :: (before ++ '\\' :: digits)) m)
    (hx : m.current.Spells x) (hs : Sound before) (hp : Plain before)
    (hb : Broken digits (x :: rest)) :
    (Verdict.lacks .hexDigit).Holds (.parser depth limit) m
      ((within (levels + 1)).val.run ⟨c, depth, limit⟩) := by
  have hr : Reads c (['('] ++ 'a' :: '=' :: (before ++ '\\' :: digits)) m := hr
  obtain ⟨d, opening, hr⟩ := hr.split
  have alpha : d.kind = .alpha := hr.spells_head.kind_eq rfl
  have inside : (Verdict.lacks .hexDigit).Holds (.parser (depth + 1) limit) m
      ((filtercomp (within levels).val (within levels).property).run ⟨d, depth + 1, limit⟩) := by
    rw [run_filtercomp, if_neg (by simp [alpha]), if_neg (by simp [alpha])]
    exact holds_onTokens (TokenRule.holds_item_broken hr hx hs hp hb)
  have opened : Accepts (depth + 1) limit (onTokens (TokenRule.terminal .lparen)) c d :=
    accepts_onTokens (TokenRule.run_symbol rfl opening)
  have whole : (Verdict.lacks .hexDigit).Holds (.parser (depth + 1) limit) m
      ((parenthesized (within levels).val (within levels).property).run
        ⟨c, depth + 1, limit⟩) := by
    rw [parenthesized, Rule.run_bind, opened]
    exact inside.bind nofun _
  show (Verdict.lacks .hexDigit).Holds (.parser depth limit) m
    ((nested fun _ => parenthesized (within levels).val (within levels).property).run _)
  exact holds_nested whole

end FilterRule

/-! ## Items of one value -/

/-- Values with good escapes between asterisks, from the first to the last. -/
theorem exists_values {u : List Char} (hs : Sound u) (hp : Plain u) :
    ∃ value stars, Value value ∧ Stars stars ∧ u = value ++ stars := by
  induction hs with
  | nil => exact ⟨[], [], .nil, .nil, rfl⟩
  | @other ch rest hch _ ih =>
    obtain ⟨⟨hne, hl, hr⟩, hp⟩ := plain_cons.1 hp
    obtain ⟨value, stars, hv, hstars, rfl⟩ := ih hp
    by_cases hstar : ch = '*'
    · subst hstar
      exact ⟨[], '*' :: value ++ stars, .nil, .cons hv hstars, rfl⟩
    · exact ⟨ch :: value, stars, .normal ⟨hne, hl, hr, hstar, hch⟩ hv, hstars, rfl⟩
  | escape hh hl _ ih =>
    obtain ⟨-, -, -, hp⟩ : _ ∧ _ ∧ _ ∧ Plain _ := by simpa using hp
    obtain ⟨value, stars, hv, hstars, rfl⟩ := ih hp
    exact ⟨_, stars, .escaped hh hl hv, hstars, rfl⟩

/-- The text of a filter that compares the attribute `a`. -/
theorem toList_item (v : String) :
    ("(a=" ++ v ++ ")").toList = '(' :: 'a' :: '=' :: (v.toList ++ [')']) := by
  simp

theorem filter_of_sound {v : List Char} (hs : Sound v) (hp : Plain v) (levels : Nat) :
    Filter (levels + 1) ('(' :: 'a' :: '=' :: (v ++ [')'])) := by
  obtain ⟨value, stars, hv, hstars, rfl⟩ := exists_values hs hp
  have item : Item (['a'] ++ ('=' :: value ++ stars)) :=
    item_iff.2 (.inl ⟨_, _, TokenRule.attr_a, .equality hv hstars, rfl⟩)
  exact .mk (.item item)

/-- What stands between the parentheses of an item has no others. -/
theorem plain_of_filter {levels : Nat} {v : List Char}
    (h : Filter levels ('(' :: 'a' :: '=' :: (v ++ [')']))) : Plain v := by
  generalize hs : '(' :: 'a' :: '=' :: (v ++ [')']) = s at h
  cases h with
  | @mk levels body hbody =>
    have inner : ('a' :: '=' :: v) ++ [')'] = body ++ [')'] := (List.cons.inj hs).2
    cases List.append_cancel_right inner
    cases hbody with
    | item hi =>
      have plain : Plain ('a' :: '=' :: v) := hi.plain
      exact (plain_cons.1 (plain_cons.1 plain).2).2

/-- A bad escape stays bad before a parenthesis, and what comes after its digits is there. -/
theorem Escape.Broken.exists_next {digits rest : List Char} (hb : Broken digits rest) :
    ∃ x tail, rest ++ [')'] = x :: tail ∧ Broken digits (x :: tail) := by
  cases rest with
  | nil =>
    refine ⟨')', [], rfl, hb.few, hb.hex, ?_⟩
    rintro ch ⟨⟩
    decide
  | cons x rest => exact ⟨x, rest ++ [')'], rfl, hb.few, hb.hex, hb.stop⟩

/-- A bad escape is noticed at the first character after its backslash that is no digit. -/
theorem parse_of_broken {v : String} {before digits rest : List Char}
    (hv : v.toList = before ++ '\\' :: (digits ++ rest)) (hs : Sound before)
    (hb : Broken digits rest) (hp : Plain v.toList) :
    ∃ found, parse ("(a=" ++ v ++ ")") = .error (.unexpected .hexDigit found) ∧
      found.span.start = 3 + (Utf8.encodeAll before).length + 1 + digits.length := by
  obtain ⟨x, tail, hnext, hb⟩ := hb.exists_next
  have htext : ("(a=" ++ v ++ ")").toList =
      ('(' :: 'a' :: '=' :: (before ++ '\\' :: digits)) ++ x :: tail := by
    rw [toList_item, hv, ← hnext]
    simp
  have hplain : Plain (before ++ '\\' :: (digits ++ rest)) := hv ▸ hp
  simp only [plain_append, plain_cons] at hplain
  obtain ⟨hbefore, -, hdigits, hrest⟩ := hplain
  have read : NulFree ('(' :: 'a' :: '=' :: (before ++ '\\' :: digits)) := by
    simp [hbefore.nulFree, hdigits.nulFree]
  have next : (x :: tail).head? ≠ some '\x00' := by
    rw [← hnext]
    exact hrest.nulFree.head?_append_ne (by simp)
  obtain ⟨c, hc⟩ : ∃ c : Lookahead CharCursor,
      c.Heads (behind [] ("(a=" ++ v ++ ")").toList) := by
    rw [htext]
    exact exists_heads (read.head?_append_ne next)
  obtain ⟨m, hr, hm⟩ := exists_reads_to read next (htext ▸ hc)
  have lacks : (Verdict.lacks .hexDigit).Holds (.parser 0 defaultLimit) m
      ((FilterRule.within defaultLimit).val.run ⟨c, 0, defaultLimit⟩) :=
    FilterRule.holds_filter_broken hr (CharCursor.spells_of_heads hm) hs hbefore hb
  refine ⟨m.current, lacks.answers hc, ?_⟩
  have octets : (Utf8.encodeAll digits).length = digits.length :=
    Escape.length_encodeAll_hex hb.hex
  have start := (CharCursor.place_of_heads hm).2
  simp only [List.nil_append, Utf8.encodeAll_cons, Utf8.encodeAll_append, List.length_append,
    Utf8.length_encode, octets] at start
  have one : '('.utf8Size = 1 ∧ 'a'.utf8Size = 1 ∧ '='.utf8Size = 1 ∧ '\\'.utf8Size = 1 := by
    decide
  omega

/-- **Escapes.** A value can be put into an item if it has neither NUL nor parentheses and can be
decoded. Where it cannot for its escapes, the parser lacks a digit after the first backslash that
the scan of the value reports, or after the digit that follows it. -/
theorem parse_item_of_escapes (v : String) :
    (parse ("(a=" ++ v ++ ")") = .ok () ↔
      Plain v.toList ∧ ∃ octets, Escape.decode v = .ok octets) ∧
    ∀ e errors, Plain v.toList → Escape.validate v = e :: errors →
      ∃ found, parse ("(a=" ++ v ++ ")") = .error (.unexpected .hexDigit found) ∧
        (¬Escape.IsHexAt v (e.offset + 1) → found.span.start = 3 + e.offset + 1) ∧
        (Escape.IsHexAt v (e.offset + 1) → found.span.start = 3 + e.offset + 2) := by
  have ok_iff : parse ("(a=" ++ v ++ ")") = .ok () ↔
      Filter defaultLimit ('(' :: 'a' :: '=' :: (v.toList ++ [')'])) := by
    rw [← toList_item]
    exact recognize_eq_ok_iff
  have view := Escape.scan v.toList
  generalize hv : v.toList = s at view
  cases view with
  | whole sound =>
    subst hv
    have none : Escape.validate v = [] := Escape.validate_of_sound sound
    constructor
    · rw [ok_iff, Escape.exists_decode_iff]
      constructor
      · intro h
        exact ⟨plain_of_filter h, none⟩
      · rintro ⟨hp, -⟩
        exact filter_of_sound sound hp 255
    · intro e errors _ h
      cases none.symm.trans h
  | broken before digits rest sound bad =>
    obtain ⟨e, errors, herrors, hoffset⟩ := Escape.validate_of_broken hv sound bad
    have reject (hp : Plain v.toList) := parse_of_broken hv sound bad hp
    rw [← hv]
    constructor
    · constructor
      · intro h
        have hp : Plain v.toList := plain_of_filter (ok_iff.1 h)
        obtain ⟨found, herr, -⟩ := reject hp
        cases h.symm.trans herr
      · rintro ⟨-, h⟩
        cases (Escape.exists_decode_iff.1 h).symm.trans herrors
    · intro e' errors' hp h
      obtain ⟨rfl, -⟩ := List.cons.inj (herrors.symm.trans h)
      obtain ⟨found, herr, hstart⟩ := reject hp
      have few := bad.few
      refine ⟨found, herr, ?_, ?_⟩
      · rw [hoffset, bad.isHexAt_iff hv]
        omega
      · rw [hoffset, bad.isHexAt_iff hv]
        omega

/-- A value of a letter of two octets, an asterisk and an escape of one digit. -/
theorem parse_item_of_escapes_short :
    ∃ found, parse ("(a=" ++ "ü*\\4" ++ ")") = .error (.unexpected .hexDigit found) ∧
      found.span.start = 8 := by
  have bad : Escape.validate "ü*\\4" = [.incomplete 3] := by decide +kernel
  have plain : Plain "ü*\\4".toList := by decide +kernel
  have digit : Escape.IsHexAt "ü*\\4" 4 := ⟨0x34, by decide +kernel, by decide⟩
  obtain ⟨found, h, -, start⟩ := (parse_item_of_escapes "ü*\\4").2 _ _ plain bad
  exact ⟨found, h, start digit⟩

end LdapFilter
