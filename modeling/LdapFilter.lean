import LdapFilter.CommandLine.Run
import LdapFilter.Filter.Grammar
import LdapFilter.Main
import LdapFilter.Proofs.ByteTokens
import LdapFilter.Proofs.FirstViolation
import LdapFilter.Proofs.Modes
import LdapFilter.Token.Replay
import LdapFilter.Proofs.Truncation
import LdapFilter.Proofs.Incremental
import LdapFilter.Proofs.Locality
import LdapFilter.Proofs.EscapeScan
import LdapFilter.Proofs.ValueEscapes
import LdapFilter.Proofs.Placement
import LdapFilter.Proofs.NestingLimit
import LdapFilter.Proofs.LexicalErrors
import LdapFilter.Proofs.Calls
import LdapFilter.Proofs.Tiling
import LdapFilter.Proofs.Decoding
import LdapFilter.Proofs.ErrorPlaces
import LdapFilter.Proofs.Checking
import LdapFilter.Proofs.CheckCommand
import LdapFilter.Proofs.OpenFilters
import LdapFilter.Proofs.ByteRuns
import LdapFilter.Proofs.InStep
import LdapFilter.Proofs.LetterCase
import LdapFilter.Proofs.ParserCalls
import LdapFilter.Proofs.EndOfInput
import LdapFilter.Proofs.OpenCount
import LdapFilter.Proofs.EscapeDecoding
import LdapFilter.Proofs.EscapePlaces
import LdapFilter.Proofs.EscapeKinds
import LdapFilter.Proofs.EscapeSpans
import LdapFilter.Proofs.FileLines
import LdapFilter.Proofs.ShownText
import LdapFilter.Proofs.DiagnosticJson
import LdapFilter.Proofs.CursorPlaces
