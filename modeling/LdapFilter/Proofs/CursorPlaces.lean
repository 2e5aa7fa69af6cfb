import Mathlib.Logic.Function.Iterate
import LdapFilter.Proofs.CharReading

/-!
# The places of a cursor

A cursor that keeps its text holds three things that have to fit each other: how many characters
lie behind it, how many octets these have, and which character comes next. Each step changes all
three, and finds the new character by cutting the text at the new offset. The invariant is that the
cursor stands at a split of the characters in two (`TextCursor.behind`). A step leads from such a
place to the next one, where the text can be cut (`TextCursor.advance?_behind_cons`), and from the
end nowhere else, so the number of steps determines where a run ends (`Walks.iterate`). The cursor
by which texts are read walks over the same places.
-/

namespace LdapFilter

open Utf8 (encodeAll)

/-! ## Runs of steps -/

/-- The function `f` steps from each place in `text` to the place behind the next character, and
stays at the end. A place is given by what lies on both sides of it. -/
structure Walks {α : Type} (f : α → α) (place : List Char → List Char → α) (text : List Char) :
    Prop where
  step : ∀ before ch rest, text = before ++ ch :: rest →
    f (place before (ch :: rest)) = place (before ++ [ch]) rest
  stop : f (place text []) = place text []

namespace Walks

variable {α : Type} {f : α → α} {place : List Char → List Char → α} {text : List Char}

theorem iterate_from (w : Walks f place text) (n : Nat) {before rest : List Char}
    (split : text = before ++ rest) :
    f^[n] (place before rest) = place (before ++ rest.take n) (rest.drop n) := by
  induction n generalizing before rest with
  | zero => simp
  | succ n ih =>
    rw [Function.iterate_succ_apply]
    cases rest with
    | nil =>
      obtain rfl : text = before := by simpa using split
      rw [w.stop, ih split]
      simp
    | cons ch rest =>
      rw [w.step before ch rest split, ih (by simpa using split)]
      simp

/-- The `n`-th step from the beginning leads behind the first `n` characters. -/
theorem iterate (w : Walks f place text) (n : Nat) :
    f^[n] (place [] text) = place (text.take n) (text.drop n) :=
  w.iterate_from n rfl

end Walks

/-! ## The cursor that keeps its text -/

namespace TextCursor

/-- At a place between characters a text can be cut, and the characters behind it are left. -/
theorem textFrom?_of_toList {text : String} {before after : List Char}
    (h : text.toList = before ++ after) :
    ∃ rest, textFrom? text (encodeAll before).length = some rest ∧ rest.copy.toList = after := by
  have valid := Utf8.isValid_of_toList h
  have splits : (String.Pos.mk _ valid).Splits (.ofList before) (.ofList after) :=
    ⟨Utf8.eq_ofList_append h, (Utf8.rawEndPos_ofList before).symm⟩
  refine ⟨text.sliceFrom ⟨_, valid⟩, dif_pos valid, ?_⟩
  rw [splits.copy_sliceFrom_eq, String.toList_ofList]

/-- The cursor in `text` behind `before`, in front of `rest`. -/
def behind (text : String) (before rest : List Char) : TextCursor :=
  ⟨text, before.length, (encodeAll before).length, rest.head?⟩

theorem ofText_eq (text : String) : ofText text = behind text [] text.toList := by
  rw [ofText, String.front?_eq]
  rfl

theorem advance?_behind_nil (text : String) (before : List Char) :
    (behind text before []).advance? = some (behind text before []) :=
  rfl

theorem advance?_behind_cons {text : String} {before rest : List Char} {ch : Char}
    (h : text.toList = before ++ ch :: rest) :
    (behind text before (ch :: rest)).advance? = some (behind text (before ++ [ch]) rest) := by
  have next : text.toList = (before ++ [ch]) ++ rest := by
    rw [h, List.append_assoc, List.singleton_append]
  obtain ⟨ahead, cut, left⟩ := textFrom?_of_toList next
  rw [Utf8.length_encodeAll_concat] at cut
  have current : ahead.front? = rest.head? := by rw [String.Slice.front?_eq, left]
  simp only [behind, advance?, List.head?_cons, cut, Option.map_some, current,
    Utf8.length_encodeAll_concat, List.length_append, List.length_singleton]

/-- The cursor after `n` steps from the beginning of a text; none if one of them fails. -/
def after? (text : String) (n : Nat) : Option TextCursor :=
  (Option.bind · advance?)^[n] (some (ofText text))

theorem walks (text : String) :
    Walks (Option.bind · advance?) (fun before rest => some (behind text before rest))
      text.toList where
  step _ _ _ split := advance?_behind_cons split
  stop := advance?_behind_nil text text.toList

theorem after?_eq (text : String) (n : Nat) :
    after? text n = some (behind text (text.toList.take n) (text.toList.drop n)) := by
  rw [after?, ofText_eq]
  exact (walks text).iterate n

/-- The cursor stands in `text` behind `k` characters, and everything that it shows is what is
there. -/
structure StandsIn (c : TextCursor) (text : String) (k : Nat) : Prop where
  text_eq : c.text = text
  position_eq : c.position = k
  offset_eq : c.offset = (encodeAll (text.toList.take c.position)).length
  offset_valid : String.Pos.Raw.IsValid text ⟨c.offset⟩
  current_eq : c.current? = text.toList[c.position]?
  atEnd_iff_position : c.atEnd ↔ c.position = text.length
  atEnd_iff_offset : c.atEnd ↔ c.offset = text.utf8ByteSize

section Places

variable {text : String} {before rest : List Char} (h : text.toList = before ++ rest)

theorem atEnd_behind_iff : (behind text before rest).atEnd ↔ rest = [] := by
  simp [atEnd, behind]

include h

/-- All the characters are behind a place if none is ahead. -/
theorem length_eq_iff : before.length = text.length ↔ rest = [] := by
  rw [← String.length_toList, h, List.length_append, ← List.length_eq_zero_iff]
  omega

/-- All the octets are behind a place if no character is ahead, since each has an octet. -/
theorem length_encodeAll_eq_iff : (encodeAll before).length = text.utf8ByteSize ↔ rest = [] := by
  rw [← Utf8.length_encodeAll_toList, h, Utf8.encodeAll_append, List.length_append]
  constructor
  · intro same
    exact Utf8.eq_nil_of_length_encodeAll (by omega)
  · rintro rfl
    rfl

theorem standsIn_behind : (behind text before rest).StandsIn text before.length where
  text_eq := rfl
  position_eq := rfl
  offset_eq := by
    show (encodeAll before).length = (encodeAll (text.toList.take before.length)).length
    rw [h, List.take_left]
  offset_valid := Utf8.isValid_of_toList h
  current_eq := by
    show rest.head? = text.toList[before.length]?
    rw [h, List.getElem?_append_right (Nat.le_refl _), Nat.sub_self, List.head?_eq_getElem?]
  atEnd_iff_position := atEnd_behind_iff.trans (length_eq_iff h).symm
  atEnd_iff_offset := atEnd_behind_iff.trans (length_encodeAll_eq_iff h).symm

end Places

end TextCursor

/-! ## The cursor that holds what lies ahead -/

namespace CharCursor

theorem walks (text : List Char) : Walks advance behind text where
  step before ch rest _ := advance_behind_cons before rest ch
  stop := rfl

/-- Two cursors are at the same place, and one holds the characters that the other has to look up
in its text. -/
structure Shows (k : CharCursor) (c : TextCursor) : Prop where
  position_eq : k.position = c.position
  offset_eq : k.offset = c.offset
  current_eq : k.current? = c.current?
  atEnd_eq : k.atEnd = c.atEnd
  ahead : ∃ rest, TextCursor.textFrom? c.text c.offset = some rest ∧ rest.copy.toList = k.rest

theorem shows_behind {text : String} {before rest : List Char} (h : text.toList = before ++ rest) :
    (behind before rest).Shows (.behind text before rest) where
  position_eq := rfl
  offset_eq := rfl
  current_eq := rfl
  atEnd_eq := by cases rest <;> rfl
  ahead := TextCursor.textFrom?_of_toList h

end CharCursor

/-- **Cursors keep in step with their text.** However many steps a cursor takes from the beginning
of a text, each of them can be taken, and they lead behind as many characters, or behind all of
them. There the offset counts the octets of the characters behind the cursor, and the text can be
cut at it; the character that the cursor holds is the one at its place; and the cursor is at the end
if all the characters are behind it, or all the octets, and only then. The cursor by which texts
are read shows the same after as many steps. -/
theorem cursors_keep_in_step (text : String) (n : Nat) :
    ∃ c, TextCursor.after? text n = some c ∧ c.StandsIn text (min n text.length) ∧
      (CharCursor.advance^[n] (.ofList text.toList)).Shows c := by
  have split : text.toList = text.toList.take n ++ text.toList.drop n :=
    (List.take_append_drop n _).symm
  have stands := TextCursor.standsIn_behind split
  rw [List.length_take, String.length_toList] at stands
  have walked : CharCursor.advance^[n] (.ofList text.toList) =
      CharCursor.behind (text.toList.take n) (text.toList.drop n) :=
    (CharCursor.walks text.toList).iterate n
  refine ⟨_, TextCursor.after?_eq text n, stands, ?_⟩
  rw [walked]
  exact CharCursor.shows_behind split

/-- Characters of one to four octets, and two steps more than there are characters. -/
example : TextCursor.after? "aé€𝄞" 3 = some ⟨"aé€𝄞", 3, 6, some '𝄞'⟩ ∧
    TextCursor.after? "aé€𝄞" 6 = some ⟨"aé€𝄞", 4, 10, none⟩ := by decide +kernel

end LdapFilter
