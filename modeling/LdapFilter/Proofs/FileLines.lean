import LdapFilter.CommandLine.Run
import Mathlib.Data.List.Basic

/-!
# Filters by the lines of a file

A file is written line by line, each line with an ending of its own, and the last one perhaps
without any (`FilterFile.IsWritten`). Whatever the endings are, reading gives the lines back
(`IsWritten.lines_eq`): a line feed is never part of a line, and a carriage return is dropped only
where it belongs to the ending. An ending after the last line leaves an empty piece behind it, which
holds no filter and is the last to be numbered, so every filter has the number of its line.
-/

namespace LdapFilter

namespace FilterFile

/-! ## Lines and their endings -/

/-- The octets of a line without its ending. -/
structure Line where
  octets : List UInt8
  no_lineFeed : lineFeed ∉ octets
  /-- A carriage return in front of the ending would be read as part of it. -/
  no_return : octets.getLast? ≠ some carriageReturn

/-- How a line ends. -/
inductive Ending where
  | lineFeed
  | returnLineFeed

/-- The octets of an ending. -/
def Ending.octets : Ending → List UInt8
  | lineFeed => [FilterFile.lineFeed]
  | returnLineFeed => [carriageReturn, FilterFile.lineFeed]

/-- The file consists of the lines, each with some ending, but for the last one, which may also have
none. -/
inductive IsWritten : List Line → List UInt8 → Prop where
  | nil : IsWritten [] []
  | last (line : Line) : IsWritten [line] line.octets
  | cons (line : Line) (ending : Ending) {lines : List Line} {data : List UInt8} :
      IsWritten lines data → IsWritten (line :: lines) (line.octets ++ ending.octets ++ data)

/-- There is nothing but spaces, tabs, line feeds, form feeds and carriage returns in the line. -/
def Line.IsBlank (line : Line) : Prop :=
  ∀ b ∈ line.octets, b ∈ [(0x20 : UInt8), 0x09, 0x0A, 0x0C, 0x0D]

/-- The line begins with a number sign. -/
def Line.IsComment (line : Line) : Prop :=
  line.octets.head? = some 0x23

instance (line : Line) : Decidable line.IsBlank :=
  inferInstanceAs (Decidable (∀ b ∈ line.octets, b ∈ [(0x20 : UInt8), 0x09, 0x0A, 0x0C, 0x0D]))

instance (line : Line) : Decidable line.IsComment :=
  inferInstanceAs (Decidable (_ = _))

/-- The lines with a filter, each with its number, where the first line has the number `n`. -/
def numbered (n : Nat) (lines : List Line) : List (Line × Nat) :=
  (lines.zipIdx n).filter fun l => ¬l.1.IsBlank ∧ ¬l.1.IsComment

/-! ## Reading lines -/

variable {s data : List UInt8} {lines : List Line}

/-- Octets without a line feed are one piece. -/
theorem pieces_of_not_mem (h : lineFeed ∉ s) : pieces s = [s] := by
  induction s with
  | nil => rfl
  | cons b s ih =>
    obtain ⟨hb, hs⟩ := not_or.1 (mt List.mem_cons.2 h)
    simp only [pieces, if_neg (Ne.symm hb), ih hs]

/-- A line feed ends the first piece. -/
theorem pieces_append (h : lineFeed ∉ s) (rest : List UInt8) :
    pieces (s ++ lineFeed :: rest) = s :: pieces rest := by
  induction s with
  | nil => simp only [List.nil_append, pieces, if_true]
  | cons b s ih =>
    obtain ⟨hb, hs⟩ := not_or.1 (mt List.mem_cons.2 h)
    simp only [List.cons_append, pieces, if_neg (Ne.symm hb), ih hs]

theorem dropReturn_append_return (s : List UInt8) : dropReturn (s ++ [carriageReturn]) = s := by
  simp [dropReturn]

theorem Line.dropReturn_octets (line : Line) : dropReturn line.octets = line.octets :=
  if_neg line.no_return

/-- An ending is dropped with what it ends, and the lines behind it are left. -/
theorem lines_append (line : Line) (ending : Ending) (data : List UInt8) :
    FilterFile.lines (line.octets ++ ending.octets ++ data) =
      line.octets :: FilterFile.lines data := by
  cases ending with
  | lineFeed =>
    have first : pieces (line.octets ++ Ending.lineFeed.octets ++ data) =
        line.octets :: pieces data := by
      rw [List.append_assoc]
      exact pieces_append line.no_lineFeed data
    simp only [FilterFile.lines, first, List.map_cons, line.dropReturn_octets]
  | returnLineFeed =>
    have no_lineFeed : lineFeed ∉ line.octets ++ [carriageReturn] :=
      List.not_mem_append line.no_lineFeed (by decide)
    have first : pieces (line.octets ++ Ending.returnLineFeed.octets ++ data) =
        (line.octets ++ [carriageReturn]) :: pieces data := by
      rw [← pieces_append no_lineFeed, List.append_assoc, List.append_assoc]
      rfl
    simp only [FilterFile.lines, first, List.map_cons, dropReturn_append_return]

/-- The lines come back, with an empty one behind them if the last line has an ending. -/
theorem IsWritten.lines_eq (h : IsWritten lines data) :
    FilterFile.lines data = lines.map Line.octets ∨
      FilterFile.lines data = lines.map Line.octets ++ [[]] := by
  induction h with
  | nil => exact .inr rfl
  | last line =>
    left
    simp only [FilterFile.lines, pieces_of_not_mem line.no_lineFeed, List.map_cons, List.map_nil,
      line.dropReturn_octets]
  | cons line ending _ ih =>
    rw [lines_append, List.map_cons, List.cons_append]
    rcases ih with ih | ih
    · exact .inl (by rw [ih])
    · exact .inr (by rw [ih])

/-! ## Lines with a filter -/

theorem isBlank_iff {b : UInt8} :
    isBlank b = true ↔ b ∈ [(0x20 : UInt8), 0x09, 0x0A, 0x0C, 0x0D] := by
  simp [isBlank, or_assoc]

theorem Line.holdsFilter_iff (line : Line) :
    holdsFilter line.octets = true ↔ ¬line.IsBlank ∧ ¬line.IsComment := by
  have blank : line.octets.all isBlank = true ↔ line.IsBlank := by
    simp only [List.all_eq_true, isBlank_iff, Line.IsBlank]
  simp only [holdsFilter, Bool.and_eq_true, Bool.not_eq_true', ← Bool.not_eq_true, blank,
    decide_eq_true_eq, ne_eq, Line.IsComment]

/-- The filters among lines that are numbered from `n` on. -/
theorem filterMap_zipIdx_octets (lines : List Line) (n : Nat) :
    ((lines.map Line.octets).zipIdx n).filterMap
        (fun l => if holdsFilter l.1 then some (l.2, l.1) else none) =
      (numbered n lines).map fun l => (l.2, l.1.octets) := by
  unfold numbered
  induction lines generalizing n with
  | nil => rfl
  | cons line lines ih =>
    simp only [List.map_cons, List.zipIdx_cons, List.filterMap_cons, List.filter_cons,
      line.holdsFilter_iff, decide_eq_true_eq]
    by_cases h : ¬line.IsBlank ∧ ¬line.IsComment
    · simp only [if_pos h, ih, List.map_cons]
    · simp only [if_neg h, ih]

/-- The filters of a file are its lines with a filter, under their numbers. -/
theorem IsWritten.filters_eq (h : IsWritten lines data) :
    filters data = (numbered 1 lines).map fun l => (l.2, l.1.octets) := by
  rcases h.lines_eq with he | he
  · rw [filters, he, filterMap_zipIdx_octets]
  · -- an empty line holds no filter, whatever its number is
    rw [filters, he, List.zipIdx_append, List.filterMap_append, filterMap_zipIdx_octets]
    simp [holdsFilter]

end FilterFile

namespace CommandLine

open FilterFile (Line IsWritten numbered)

/-- The path can be read, and names `data`, whose lines are reported under `label`. A hyphen names
the input of the program. -/
inductive Environment.Reads (env : Environment) : (path label : String) → List UInt8 → Prop where
  | input : Reads env "-" "<stdin>" env.input
  | file {path : String} {data : List UInt8} (ne : path ≠ "-")
      (read : env.readFile path = .ok data) : Reads env path path data

/-- The inputs of the lines of a file: one for each line with a filter, in order, with the octets of
the line and under the label and the number of the line. -/
def lineInputs (label : String) (lines : List Line) : List FilterInput :=
  (numbered 1 lines).map fun l => ⟨label ++ ":" ++ toString l.2, l.1.octets⟩

theorem fileInputs_of_isWritten {lines : List Line} {data : List UInt8} (h : IsWritten lines data)
    (label : String) : fileInputs label data = lineInputs label lines := by
  rw [fileInputs, h.filters_eq, List.map_map]
  rfl

/-- **Filters from a file.** A file that is written line by line gives the lines with a filter, in
order, unchanged and under the numbers that count all lines, whatever the endings of the lines are
and whether or not the last one has any. They come between the arguments and the samples. -/
theorem inputs_by_line {env : Environment} {path label : String} {data : List UInt8}
    {lines : List Line} (reads : env.Reads path label data) (written : IsWritten lines data)
    (filters : List String) (samples : Bool) :
    collectInputs env filters (some path) samples =
      .ok (namedInputs "arg" filters ++ lineInputs label lines ++
        if samples then namedInputs "sample" Samples.all else []) := by
  have read : readInputs env path = .ok (lineInputs label lines) := by
    rw [← fileInputs_of_isWritten written]
    cases reads with
    | input => rfl
    | file ne read => simp only [readInputs, if_neg ne, read]
  simp only [collectInputs, read]
  rfl

/-- A comment, a line with a carriage return inside it, and a last line without an ending, behind
endings of both kinds. -/
theorem inputs_by_line_mixed :
    ∃ lines : List Line, lines.map Line.octets = [[0x23], [0x61, 0x0D, 0x62], [0x63]] ∧
      IsWritten lines [0x23, 0x0A, 0x61, 0x0D, 0x62, 0x0D, 0x0A, 0x63] ∧
      collectInputs ⟨fun _ => .ok [0x23, 0x0A, 0x61, 0x0D, 0x62, 0x0D, 0x0A, 0x63], []⟩ []
        (some "f") false = .ok [⟨"f:2", [0x61, 0x0D, 0x62]⟩, ⟨"f:3", [0x63]⟩] := by
  let comment : Line := ⟨[0x23], by decide, by decide⟩
  let inner : Line := ⟨[0x61, 0x0D, 0x62], by decide, by decide⟩
  let final : Line := ⟨[0x63], by decide, by decide⟩
  have written : IsWritten [comment, inner, final]
      [0x23, 0x0A, 0x61, 0x0D, 0x62, 0x0D, 0x0A, 0x63] :=
    .cons comment .lineFeed (.cons inner .returnLineFeed (.last final))
  have reads : Environment.Reads
      ⟨fun _ => .ok [0x23, 0x0A, 0x61, 0x0D, 0x62, 0x0D, 0x0A, 0x63], []⟩ "f" "f"
      [0x23, 0x0A, 0x61, 0x0D, 0x62, 0x0D, 0x0A, 0x63] := .file (by decide) rfl
  have kept : numbered 1 [comment, inner, final] = [(inner, 2), (final, 3)] := by
    simp [numbered, comment, inner, final, Line.IsBlank, Line.IsComment]
  have second : "f" ++ ":" ++ toString 2 = "f:2" := by decide +kernel
  have third : "f" ++ ":" ++ toString 3 = "f:3" := by decide +kernel
  have collected := inputs_by_line reads written [] false
  rw [lineInputs, kept, List.map_cons, List.map_cons, second, third] at collected
  exact ⟨_, rfl, written, collected⟩

end CommandLine

end LdapFilter
