import LdapFilter.Text.Cursor
import LdapFilter.Token.Source

/-!
# Lexers

Both kinds of cursor are sources of tokens. Over characters a token is one character, and only
NUL is none. Over octets a token is the spelling of one character; the lexer checks the octets
against the tables of RFC 3629 as it goes, and leaves its cursor at the octet that is missing
or wrong.
-/

namespace LdapFilter

/-- Which units a text is read by. -/
inductive Mode where
  | codePoint
  | byte
  deriving DecidableEq

/-- The name of a mode. -/
def Mode.name : Mode → String
  | codePoint => "code-point"
  | byte => "byte"

namespace CharCursor

/-- The next token of a text. -/
def nextToken : EStateM LexError CharCursor Token := fun c =>
  match c.current? with
  | none => .ok (.eof c.position c.offset) c
  | some ch =>
    match Terminal.ofChar? ch with
    | none => .error (.invalidCharacter ch c.position c.offset) c
    | some kind =>
      .ok ⟨kind, ch.toString, c.position, ⟨c.offset, c.advance.offset⟩⟩ c.advance

theorem length_rest_advance {c : CharCursor} {ch : Char} (h : c.current? = some ch) :
    c.advance.rest.length + 1 = c.rest.length := by
  obtain ⟨rest, position, offset⟩ := c
  cases rest with
  | nil => cases h
  | cons a l => rfl

theorem length_rest_nextToken {c c' : CharCursor} {t : Token} (h : nextToken c = .ok t c') :
    c'.rest.length + t.weight ≤ c.rest.length := by
  unfold nextToken at h
  split at h
  · cases h
    exact Nat.le_refl _
  · next ch hch =>
    split at h
    · cases h
    · cases h
      rw [← length_rest_advance hch]
      exact Nat.add_le_add_left (Token.weight_le_one _) _

instance : TokenSource CharCursor where
  next := nextToken
  position := position
  remaining c := c.rest.length
  remaining_next := length_rest_nextToken

end CharCursor

namespace ByteCursor

/-- The token of the `length` octets from the cursor on, of which `lead` is the first. -/
def spelledToken (kind : Terminal) (lead : UInt8) (length : Nat) :
    EStateM LexError ByteCursor Token := fun c =>
  match Utf8.scalar? (c.rest.take length) with
  | some ch =>
    .ok ⟨kind, ch.toString, c.position, ⟨c.position, (advanceBy length c).position⟩⟩
      (advanceBy length c)
  | none => .error (.malformedSequence lead c.position length c.position) (advanceBy length c)

/-- The token of a character of `length` octets: `lead`, and after it `found` octets that
continue it. -/
def multibyteToken (lead : UInt8) (length found : Nat) : EStateM LexError ByteCursor Token :=
  fun c =>
    if found + 1 = length then spelledToken .utfmb lead length c
    else
      .error (.malformedSequence lead c.position length (c.position + 1 + found))
        (advanceBy (1 + found) c)

/-- The next token of a sequence of octets. -/
def nextToken : EStateM LexError ByteCursor Token := fun c =>
  match c.rest with
  | [] => .ok (.eof c.position c.position) c
  | b :: rest =>
    if b < 0x80 then
      match Terminal.ofAscii? b with
      | some kind => spelledToken kind b 1 c
      | none => .error (.invalidCharacter (Char.ofNat b.toNat) c.position c.position) c
    else
      match Utf8.sequenceLength? b with
      | none => .error (.invalidByte b c.position) c
      | some length => multibyteToken b length (Utf8.continuations b 1 (length - 1) rest) c

theorem rest_of_spelledToken {kind : Terminal} {lead : UInt8} {length : Nat}
    {c c' : ByteCursor} {t : Token} (h : spelledToken kind lead length c = .ok t c') :
    c'.rest = c.rest.drop length := by
  unfold spelledToken at h
  split at h
  · cases h
    exact rest_advanceBy length c
  · cases h

theorem length_rest_nextToken {c c' : ByteCursor} {t : Token} (h : nextToken c = .ok t c') :
    c'.rest.length + t.weight ≤ c.rest.length := by
  unfold nextToken at h
  split at h
  · cases h
    exact Nat.le_refl _
  · next b rest hrest =>
    have drop_lt (n : Nat) : (c.rest.drop (n + 1)).length + t.weight ≤ c.rest.length := by
      have := t.weight_le_one
      rw [hrest, List.length_drop, List.length_cons]
      omega
    split at h
    · split at h
      · exact rest_of_spelledToken h ▸ drop_lt 0
      · cases h
    · split at h
      · cases h
      · unfold multibyteToken at h
        split at h
        · next hfound => exact rest_of_spelledToken h ▸ hfound ▸ drop_lt _
        · cases h

instance : TokenSource ByteCursor where
  next := nextToken
  position := position
  remaining c := c.rest.length
  remaining_next := length_rest_nextToken

end ByteCursor

/-- The tokens of a text, read by characters. -/
def tokenize (text : String) : Except LexError (List Token) :=
  TokenSource.tokens (CharCursor.ofList text.toList)

/-- The tokens of a sequence of octets. -/
def tokenizeBytes (bytes : List UInt8) : Except LexError (List Token) :=
  TokenSource.tokens (ByteCursor.ofList bytes)

end LdapFilter
