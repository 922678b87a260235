import WireRecords.Proofs.Codec.Faults
import WireRecords.Proofs.Execution.Files

/-!
# Safety of generated procedures

The procedures of a generated file never make an access that the machine refuses, and what they
return is what reading and writing return. So a fault has only one cause: the arithmetic of a width
that is computed from other fields.
-/
namespace WireRecords.Execution

open Codec Program

/-- A run without an access out of range, in which every step means something. -/
def Allowed {α : Type} (run : Except Halt α) : Prop :=
  run ≠ .error .outOfRange ∧ run ≠ .error .stuck

theorem allowed_ended {α : Type} (q : Option α) : Allowed (ended q) := by
  cases q with
  | none => exact ⟨by simp [ended], by simp [ended]⟩
  | some a => exact ⟨by simp [ended], by simp [ended]⟩

theorem ended_eq_ok_iff {α : Type} {q : Option α} {a : α} : ended q = .ok a ↔ q = some a := by
  cases q with
  | none => simp [ended]
  | some b => simp [ended]

section Run

variable {r : Registry} {items : List Item} {known : String → Prop} (h : Covers r items known)
  {n : Nat} {path : String} {v : Value} (hpath : known path)
  (hv : v.fits r (.nested path) = true) {bytes : List UInt8}

include h hpath hv

/-- A run that ends has read what reading reads. -/
theorem readTo_of_runRead {q : Reading Value} (hrun : runRead r items n path v bytes = .ok q) :
    ∃ q', readTo r n path v bytes = some q' ∧ Agrees q q' := by
  rw [runRead_eq h hpath hv] at hrun
  exact readTo_of_readInhabited h.determined n bytes (List.suffix_refl _) hv hv
    (ended_eq_ok_iff.mp hrun) trivial

/-- What can be read to its end is read by a run. -/
theorem runRead_of_readTo {w : Value} {rest : List UInt8}
    (hread : readTo r n path v bytes = some ⟨w, rest, none⟩) :
    runRead r items n path v bytes = .ok ⟨w, rest, none⟩ := by
  obtain ⟨q, hq, hagree⟩ :=
    readInhabited_of_readTo h.determined n bytes (List.suffix_refl _) hv hv hread rfl
  rw [hagree.eq_of_ok rfl] at hq
  rw [runRead_eq h hpath hv, hq]
  rfl

end Run

/-- In every accepted run whose records nest only records that have a name and variable-length
integers, reading and writing a record fault exactly if they come to a field, of the record or of one
inside, whose computed width breaks off. The procedures of a file that is generated for the run read
and write the same, with any input and any room, and make no access out of range. -/
theorem only_computed_widths_fault {config : Config} {units : List CompilationUnit} {p : Progress}
    (h : compile config units = .ok p) (hread : Readable (named p.compilation)) {path : String}
    (hpath : path ∈ (named p.compilation).map (·.id)) {v : Value}
    (hv : v.fits p.compilation.registry (.nested path) = true) :
    (∀ n bytes fault,
      Reading.Fails (.fault fault) (readTo p.compilation.registry n path v bytes) ↔
        ∃ stage, ReadVisits p.compilation.registry n path v bytes stage ∧ stage.Faults fault) ∧
    (∀ n room fault,
      Writing.Fails (.fault fault) (writeTo p.compilation.registry n path v room) ↔
        ∃ stage, WriteVisits p.compilation.registry n path v room stage ∧ stage.Faults fault) ∧
    ∀ isFlat items, (generate (p.compilation.against {}) isFlat).2 = .ok items → ∀ n,
      (∀ bytes,
        Allowed (runRead p.compilation.registry items n path v bytes) ∧
        (∀ q, runRead p.compilation.registry items n path v bytes = .ok q →
          ∃ q', readTo p.compilation.registry n path v bytes = some q' ∧ Agrees q q') ∧
        ∀ w rest, readTo p.compilation.registry n path v bytes = some ⟨w, rest, none⟩ →
          runRead p.compilation.registry items n path v bytes = .ok ⟨w, rest, none⟩) ∧
      ∀ room,
        Allowed (runWrite p.compilation.registry items n path v room) ∧
        runWrite p.compilation.registry items n path v room =
          ended (writeTo p.compilation.registry n path v room) := by
  have hwell : ∀ {id entry}, p.compilation.registry.find? id = some entry → entry.WellFormed :=
    fun hfind => compile_wellFormed h hfind
  refine ⟨fun n bytes fault => readTo_faults_iff hwell,
    fun n room fault => writeTo_faults_iff hwell, fun isFlat items hitems n => ?_⟩
  have hcovers := covers_of_generated h hitems hread
  have hknown : path ∈ (named p.compilation).map (·.id) ∨ path = Varint.path := Or.inl hpath
  refine ⟨fun bytes => ⟨?_, ?_, ?_⟩, fun room => ⟨?_, ?_⟩⟩
  · rw [runRead_eq hcovers hknown hv]
    exact allowed_ended _
  · exact fun q hq => readTo_of_runRead hcovers hknown hv hq
  · exact fun w rest hreads => runRead_of_readTo hcovers hknown hv hreads
  · rw [runWrite_eq hcovers hknown hv]
    exact allowed_ended _
  · exact runWrite_eq hcovers hknown hv room

/-- The length of the data in a cell is one less than a number in front of it. -/
def cells : List CompilationUnit :=
  [.inline "cells"
    ["Cell n[1] data[n - 1]", "Grid count[1] cells[count, []Cell] last[, *Cell] mark[3, \"ab\"]"]]

def cell (n : Int) (data : List UInt8) : Value :=
  .record [("n", .integer n), ("data", .bytes data)]

/-- A grid with a cell that has no length. -/
def brokenGrid : Value :=
  .record [("count", .integer 2), ("cells", .list [cell 2 [7], cell 0 []]), ("last", cell 1 [])]

def brokenCell : Fault := .ofPanic "Cell" (.arithmetic .subtraction)

theorem cells_run : ∃ p ∈ (compile {} cells).toOption, Readable (named p.compilation) ∧
    ((generate (p.compilation.against {}) true).2.toOption).isSome = true ∧
      "Grid" ∈ (named p.compilation).map (·.id) ∧
      brokenGrid.fits p.compilation.registry (.nested "Grid") = true ∧
      (readInhabited p.compilation.registry 2 "Grid" brokenGrid [2, 2, 7, 0]).map (·.error) =
        some (some (.fault brokenCell)) ∧
      writeTo p.compilation.registry 2 "Grid" brokenGrid 9 =
        some ⟨[2, 2, 7, 0], some (.fault brokenCell)⟩ := by
  decide +kernel

/-- Reading and writing the grid break off at its second cell. -/
theorem only_computed_widths_fault_grid :
    ∃ p items q, compile {} cells = .ok p ∧ Readable (named p.compilation) ∧
      (generate (p.compilation.against {}) true).2 = .ok items ∧
      "Grid" ∈ (named p.compilation).map (·.id) ∧
      brokenGrid.fits p.compilation.registry (.nested "Grid") = true ∧
      runRead p.compilation.registry items 2 "Grid" brokenGrid [2, 2, 7, 0] = .ok q ∧
      q.error = some (.fault brokenCell) ∧
      (∃ stage, ReadVisits p.compilation.registry 2 "Grid" brokenGrid [2, 2, 7, 0] stage ∧
        stage.Faults brokenCell) ∧
      runWrite p.compilation.registry items 2 "Grid" brokenGrid 9 =
        .ok ⟨[2, 2, 7, 0], some (.fault brokenCell)⟩ ∧
      ∃ stage, WriteVisits p.compilation.registry 2 "Grid" brokenGrid 9 stage ∧
        stage.Faults brokenCell := by
  obtain ⟨p, hp, hread, hgenerated, hgrid, hfits, hreading, hwriting⟩ := cells_run
  have h := compile_of_toOption hp
  obtain ⟨items, hsome⟩ := Option.isSome_iff_exists.mp hgenerated
  have hitems := ok_of_toOption hsome
  obtain ⟨q, hq, herror⟩ := Option.map_eq_some_iff.mp hreading
  have hrun : runRead p.compilation.registry items 2 "Grid" brokenGrid [2, 2, 7, 0] = .ok q := by
    rw [runRead_eq (covers_of_generated h hitems hread) (Or.inl hgrid) hfits, hq]
    rfl
  obtain ⟨hreads, hwrites, hfiles⟩ := only_computed_widths_fault h hread hgrid hfits
  obtain ⟨hreading, hwriting'⟩ := hfiles true items hitems 2
  obtain ⟨q', hq', hagree⟩ := (hreading _).2.1 q hrun
  have hfails : Reading.Fails (.fault brokenCell)
      (readTo p.compilation.registry 2 "Grid" brokenGrid [2, 2, 7, 0]) :=
    ⟨q', hq', hagree.error ▸ herror⟩
  have hwrite : runWrite p.compilation.registry items 2 "Grid" brokenGrid 9 =
      .ok ⟨[2, 2, 7, 0], some (.fault brokenCell)⟩ := by
    rw [(hwriting' 9).2, hwriting]
    rfl
  exact ⟨p, items, q, h, hread, hitems, hgrid, hfits, hrun, herror, (hreads _ _ _).mp hfails,
    hwrite, (hwrites _ _ _).mp ⟨_, hwriting, rfl⟩⟩

-- A procedure that reads without looking how much input is left would be refused.
example (c : Context) :
    completed (runBlock c
      [perform (.assign (place "n" false) (.method buffer "get_u8" []))] parameters
      { fields := [("n", .integer 0)] }) = .error .outOfRange := by
  rfl

end WireRecords.Execution
