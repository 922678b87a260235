import WireRecords.Extraction
import WireRecords.Proofs.Lines

/-!
# Extraction finds the directives that were written

A host source is written line by line, and each line either holds a directive or has no marker that
could open one. Extraction gives back the directives and the numbers of their lines. Lines may end
with or without a carriage return: at the end of a line it is white space like any other, so it
makes no difference whether the division into lines has dropped it.
-/
namespace WireRecords

open Text

namespace DirectiveLine

/-- A marker starts with a character that is not blank. -/
def IsMarker (marker : List Char) : Prop := ∃ c ∈ marker.head?, isBlank c = false

instance (marker : List Char) : Decidable (IsMarker marker) :=
  decidable_of_iff (marker.head?.any (!isBlank ·) = true) (by simp [IsMarker, Option.any_eq_true])

theorem IsMarker.first_append {marker : List Char} (h : IsMarker marker) (rest : List Char) :
    ∀ c ∈ (marker ++ rest).head?, isBlank c = false := by
  obtain ⟨c, hc, hblank⟩ := h
  intro d hd
  rw [List.head?_append, hc] at hd
  cases hd
  exact hblank

/-! ### A single line -/

/-- Behind its leading white space the line starts with the marker and a blank. -/
def Opens (marker line : List Char) : Prop :=
  ∃ c rest, line.dropWhile isBlank = marker ++ c :: rest ∧ isBlank c = true

instance (marker line : List Char) : Decidable (Opens marker line) :=
  decidable_of_iff (marker <+: line.dropWhile isBlank ∧
      (line.dropWhile isBlank)[marker.length]?.any isBlank = true) <| by
    rw [Option.any_eq_true]
    constructor
    · rintro ⟨⟨rest, hrest⟩, c, hc, hblank⟩
      cases rest with
      | nil => simp [← hrest] at hc
      | cons d rest =>
        obtain rfl : d = c := by simpa [← hrest] using hc
        exact ⟨d, rest, hrest.symm, hblank⟩
    · rintro ⟨c, rest, hline, hblank⟩
      exact ⟨⟨c :: rest, hline.symm⟩, c, by simp [hline], hblank⟩

/-- The line consists of the marker and the directive `text`, with white space between them and
around them. -/
structure Holds (marker text line : List Char) : Prop where
  nonempty : text ≠ []
  trimmed : Trimmed text
  written : ∃ indent gap tail, line = indent ++ marker ++ gap ++ text ++ tail ∧
    AllBlank indent ∧ gap ≠ [] ∧ AllBlank gap ∧ AllBlank tail

section Line

variable {marker line text : List Char}

theorem ofLine?_eq_some : ofLine? marker line = some text ↔
    ∃ c rest, trimStart line = marker ++ c :: rest ∧ isBlank c = true ∧
      trim (c :: rest) = text ∧ text ≠ [] := by
  simp only [← dropPrefix?_eq_some, ofLine?]
  rcases dropPrefix? marker (trimStart line) with _ | _ | ⟨c, rest⟩
  · simp
  · simp
  · by_cases hc : isBlank c = true
    · cases htrim : trim (c :: rest) with
      | nil => simp [hc, htrim]
      | cons d directive =>
        have hne : d :: directive = text → text ≠ [] := fun h => h ▸ List.cons_ne_nil d directive
        simpa [hc, htrim] using hne
    · simp [hc]

/-- What is recognised in a line, said by how the line is written. -/
theorem ofLine?_iff_holds (hmarker : IsMarker marker) :
    ofLine? marker line = some text ↔ Holds marker text line := by
  rw [ofLine?_eq_some]
  constructor
  · rintro ⟨c, rest, hline, hc, htrim, hne⟩
    obtain ⟨indent, hindent, hblank⟩ := trimStart_split line
    obtain ⟨htext, gap, tail, hrest, hgap, htail⟩ := (trim_eq_iff hne).mp htrim
    refine ⟨hne, htext, indent, gap, tail, ?_, hblank, ?_, hgap, htail⟩
    · rw [hindent, hline, hrest]
      simp only [List.append_assoc]
    · -- Without a gap the blank behind the marker would be the start of the directive.
      rintro rfl
      have hfirst : c ∈ text.head? := by
        have hstarts := congrArg List.head? hrest
        rw [List.nil_append, List.head?_append_of_ne_nil text hne] at hstarts
        exact hstarts.symm
      simp [htext.first c hfirst] at hc
  · rintro ⟨hne, htext, indent, gap, tail, rfl, hindent, hgap, hblank, htail⟩
    obtain ⟨c, gap, rfl⟩ := List.exists_cons_of_ne_nil hgap
    refine ⟨c, gap ++ text ++ tail, ?_, hblank c List.mem_cons_self, ?_, hne⟩
    · simp only [List.append_assoc]
      rw [trimStart_append hindent (hmarker.first_append _)]
      simp
    · exact (trim_eq_iff hne).mpr ⟨htext, c :: gap, tail, by simp, hblank, htail⟩

theorem ofLine?_eq_none (h : ¬ Opens marker line) : ofLine? marker line = none := by
  cases hline : ofLine? marker line with
  | none => rfl
  | some text =>
    obtain ⟨c, rest, hstart, hc, _⟩ := ofLine?_eq_some.mp hline
    exact absurd ⟨c, rest, hstart, hc⟩ h

/-- A carriage return at the end belongs to the white space behind the directive. -/
theorem holds_append_return : Holds marker text (line ++ ['\r']) ↔ Holds marker text line := by
  constructor
  · rintro ⟨hne, htext, indent, gap, tail, hline, hindent, hgap, hblank, htail⟩
    refine ⟨hne, htext, ?_⟩
    rcases List.eq_nil_or_concat' tail with rfl | ⟨tail, c, rfl⟩
    · have hlast : '\r' ∈ text.getLast? := by
        have hends := congrArg List.getLast? hline
        rw [List.append_nil, List.getLast?_append_of_ne_nil _ hne, List.getLast?_concat] at hends
        exact hends.symm
      have hreturn := htext.last '\r' hlast
      exact absurd hreturn (by decide)
    · rw [← List.append_assoc] at hline
      obtain ⟨rfl, _⟩ := List.append_inj' hline rfl
      exact ⟨indent, gap, tail, rfl, hindent, hgap, hblank, (List.forall_mem_append.mp htail).1⟩
  · rintro ⟨hne, htext, indent, gap, tail, rfl, hindent, hgap, hblank, htail⟩
    have hreturn : AllBlank ['\r'] := by decide
    exact ⟨hne, htext, indent, gap, tail ++ ['\r'], by simp, hindent, hgap, hblank,
      List.forall_mem_append.mpr ⟨htail, hreturn⟩⟩

theorem ofLine?_dropReturn (hmarker : IsMarker marker) (line : List Char) :
    ofLine? marker (dropReturn line) = ofLine? marker line := by
  rcases dropReturn_cases line with hkept | hdropped
  · rw [hkept]
  · refine Option.ext fun text => ?_
    rw [ofLine?_iff_holds hmarker, ofLine?_iff_holds hmarker, hdropped, dropReturn_append]
    exact holds_append_return.symm

end Line

/-! ### Lines as they are written -/

/-- A line of a host: one that holds a directive, or one on which none is opened. -/
inductive HostLine (marker : List Char) where
  | directive (text line : List Char) (holds : Holds marker text line) (inLine : '\n' ∉ line)
  | other (line : List Char) (unopened : ¬ Opens marker line) (inLine : '\n' ∉ line)

/-- How a line ends. -/
inductive LineEnd where
  | feed
  | returnFeed
deriving DecidableEq, Repr

def LineEnd.chars : LineEnd → List Char
  | feed => ['\n']
  | returnFeed => ['\r', '\n']

namespace HostLine

variable {marker : List Char}

def chars : HostLine marker → List Char
  | directive _ line _ _ => line
  | other line _ _ => line

/-- The directive that a line holds. -/
def directive? : HostLine marker → Option (List Char)
  | directive text _ _ _ => some text
  | other _ _ _ => none

theorem feed_notMem_chars : ∀ l : HostLine marker, '\n' ∉ l.chars
  | directive _ _ _ inLine => inLine
  | other _ _ inLine => inLine

theorem ofLine?_chars (hmarker : IsMarker marker) :
    ∀ l : HostLine marker, ofLine? marker l.chars = l.directive?
  | directive _ _ holds _ => (ofLine?_iff_holds hmarker).mpr holds
  | other _ unopened _ => ofLine?_eq_none unopened

/-- The line that is seen of a line that ends. -/
theorem lines_chars_end (hmarker : IsMarker marker) (l : HostLine marker) (e : LineEnd)
    (rest : List Char) : ∃ line, Text.lines (l.chars ++ e.chars ++ rest) = line :: Text.lines rest ∧
      ofLine? marker line = l.directive? := by
  have hfeed := l.feed_notMem_chars
  cases e with
  | feed =>
    refine ⟨dropReturn l.chars, ?_, ?_⟩
    · simpa [LineEnd.chars] using lines_append_feed hfeed rest
    · rw [ofLine?_dropReturn hmarker, l.ofLine?_chars hmarker]
  | returnFeed =>
    refine ⟨l.chars, ?_, l.ofLine?_chars hmarker⟩
    have hreturn : '\n' ∉ l.chars ++ ['\r'] := by simpa using hfeed
    simpa [LineEnd.chars, dropReturn_append] using lines_append_feed hreturn rest

end HostLine

/-- A host source: lines with their ends, and maybe a last line without one. -/
structure HostSource (marker : List Char) where
  ended : List (HostLine marker × LineEnd)
  last : Option (HostLine marker)

namespace HostSource

variable {marker : List Char}

def lines (s : HostSource marker) : List (HostLine marker) := s.ended.map Prod.fst ++ s.last.toList

def chars (s : HostSource marker) : List Char :=
  s.ended.flatMap (fun (l, e) => l.chars ++ e.chars) ++ (s.last.map HostLine.chars).getD []

/-- The directives written on lines of which the first has the number `number`. -/
def directivesFrom (number : Nat) (ls : List (HostLine marker)) : List DirectiveLine :=
  (ls.zipIdx number).filterMap fun (l, n) => l.directive?.map fun text => ⟨n, String.ofList text⟩

theorem directivesFrom_cons (number : Nat) (l : HostLine marker) (ls : List (HostLine marker)) :
    directivesFrom number (l :: ls) =
      (l.directive?.map fun text => ⟨number, String.ofList text⟩).toList ++
        directivesFrom (number + 1) ls := by
  cases h : l.directive? <;> simp [directivesFrom, List.zipIdx_cons, h]

theorem ofLines_cons (number : Nat) (line : List Char) (ls : List (List Char)) :
    ofLines marker number (line :: ls) =
      ((ofLine? marker line).map fun text => ⟨number, String.ofList text⟩).toList ++
        ofLines marker (number + 1) ls := by
  cases h : ofLine? marker line <;> simp [ofLines, h]

theorem ofLines_last (hmarker : IsMarker marker) (number : Nat) (l : HostLine marker) :
    ofLines marker number (Text.lines l.chars) = directivesFrom number [l] := by
  have hline := l.ofLine?_chars hmarker
  rw [lines_open l.feed_notMem_chars, directivesFrom_cons]
  split_ifs with hempty
  · -- No line is seen, and an empty line holds no directive.
    have hnone : l.directive? = none := by
      rw [← hline, hempty]
      exact ofLine?_eq_none (by simp [Opens])
    simp [ofLines, directivesFrom, hnone]
  · rw [ofLines_cons, hline]
    simp [ofLines, directivesFrom]

theorem ofLines_chars (hmarker : IsMarker marker) (ended : List (HostLine marker × LineEnd))
    (last : Option (HostLine marker)) (number : Nat) :
    ofLines marker number (Text.lines (chars ⟨ended, last⟩)) =
      directivesFrom number (lines ⟨ended, last⟩) := by
  induction ended generalizing number with
  | nil =>
    cases last with
    | none => rfl
    | some l => simpa [chars, lines] using ofLines_last hmarker number l
  | cons first ended ih =>
    obtain ⟨l, e⟩ := first
    obtain ⟨line, hlines, hline⟩ := l.lines_chars_end hmarker e (chars ⟨ended, last⟩)
    have hchars : chars ⟨(l, e) :: ended, last⟩ = l.chars ++ e.chars ++ chars ⟨ended, last⟩ := by
      simp [chars]
    rw [hchars, hlines, ofLines_cons, hline, ih]
    exact (directivesFrom_cons number l (lines ⟨ended, last⟩)).symm

end HostSource

/-- From a source that is put together line by line, the directives are extracted that its lines
hold, in their order and with the numbers of their lines. -/
theorem extraction_recovers_directives {marker : String} (hmarker : IsMarker marker.toList)
    (source : HostSource marker.toList) :
    extract marker (String.ofList source.chars) = HostSource.directivesFrom 1 source.lines := by
  rw [extract, String.toList_ofList]
  exact HostSource.ofLines_chars hmarker source.ended source.last 1

/-- A source in which carriage returns stand at the end of lines and behind a marker. -/
def returningLines : HostSource "//w".toList where
  ended :=
    [(.directive "A x[1]".toList "\t//w\u00a0A x[1] \r".toList
        ⟨by decide, by decide, ['\t'], ['\u00a0'], [' ', '\r'], by decide⟩
        (by decide), .returnFeed),
      (.other "//wB".toList (by decide) (by decide), .feed),
      (.other [] (by decide) (by decide), .returnFeed)]
  last := some (.directive "C".toList "//w\rC".toList
    ⟨by decide, by decide, [], ['\r'], [], by decide⟩ (by decide))

theorem extraction_recovers_directives_returning : IsMarker "//w".toList ∧
    returningLines.chars = "\t//w\u00a0A x[1] \r\r\n//wB\n\r\n//w\rC".toList ∧
    extract "//w" (String.ofList returningLines.chars) = [⟨1, "A x[1]"⟩, ⟨4, "C"⟩] := by
  refine ⟨by decide, by decide, ?_⟩
  rw [extraction_recovers_directives (by decide) returningLines]
  decide

end DirectiveLine

end WireRecords
