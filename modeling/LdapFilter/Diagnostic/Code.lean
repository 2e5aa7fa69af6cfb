/-!
# Diagnostic codes

Every kind of failure has a code. Codes from `LDAP1001` are lexical, from `LDAP2001` syntactic,
and from `LDAP3001` on they concern the escapes of an assertion value.
-/

namespace LdapFilter

/-- A kind of failure that has a code. -/
inductive Code where
  /-- A character that is no terminal of the filter grammar. -/
  | invalidCharacter
  /-- An octet that cannot begin a character. -/
  | invalidByte
  /-- A lead octet without the continuation octets it announces. -/
  | malformedSequence
  /-- A token that does not fit the rule at its place. -/
  | unexpectedToken
  /-- Input after a complete filter. -/
  | trailingInput
  /-- Filters inside one another beyond the limit. -/
  | nestingTooDeep
  /-- A backslash that is not followed by two hexadecimal digits. -/
  | invalidEscape
  /-- A backslash too close to the end of its value. -/
  | incompleteEscape
  deriving DecidableEq

namespace Code

/-- Every code, in numeric order. -/
def all : List Code :=
  [invalidCharacter, invalidByte, malformedSequence, unexpectedToken, trailingInput,
    nestingTooDeep, invalidEscape, incompleteEscape]

/-- The written form of a code. -/
def id : Code → String
  | invalidCharacter => "LDAP1001"
  | invalidByte => "LDAP1002"
  | malformedSequence => "LDAP1003"
  | unexpectedToken => "LDAP2001"
  | trailingInput => "LDAP2002"
  | nestingTooDeep => "LDAP2003"
  | invalidEscape => "LDAP3001"
  | incompleteEscape => "LDAP3002"

/-- The code that is written `id`. -/
def ofId? (id : String) : Option Code :=
  all.find? fun c => c.id = id

/-- What a code means and what to do about it. -/
def explanation : Code → String
  | invalidCharacter =>
    "The input contains a character that no filter terminal accepts. " ++
      "NUL cannot appear in a filter; write it as the escape \\00."
  | invalidByte =>
    "The input contains a byte that cannot begin a UTF-8 sequence " ++
      "(0xC0, 0xC1, 0xF5-0xFF or a stray continuation byte 0x80-0xBF)."
  | malformedSequence =>
    "A UTF-8 lead byte is not followed by the continuation bytes RFC 3629 " ++
      "requires, or the sequence is overlong or encodes a surrogate."
  | unexpectedToken =>
    "The filter does not follow the RFC 4515 grammar at this point. " ++
      "The diagnostic names the construct the parser expected."
  | trailingInput =>
    "A complete parenthesized filter was recognized but more input follows it. " ++
      "A filter string holds exactly one top-level filter."
  | nestingTooDeep =>
    "And, or and not filters are nested deeper than the parser allows. " ++
      "Flatten the filter or raise the depth limit."
  | invalidEscape =>
    "An assertion value escape must be a backslash followed by two hex digits, " ++
      "e.g. \\2a for an asterisk."
  | incompleteEscape =>
    "The assertion value ends in the middle of a \\XX escape sequence."

/-- The explanation of a written code, if it is one. -/
def explain? (id : String) : Option String :=
  (ofId? id).map explanation

end Code

end LdapFilter
