import WireRecords.Cli.Run
import WireRecords.Proofs.Files
import WireRecords.Proofs.LastDeclaration
import WireRecords.Proofs.Program.Emission

/-!
# A failed run changes nothing

A run fails at any of its stages, from reading the arguments to writing the output, and whichever
stage that is, all files are as before and nothing is shown. A run that succeeds writes at most the
file that the arguments name for the output.
-/
namespace WireRecords.Cli

/-! ### The output that arguments name -/

namespace Options

variable {o next : Options} {option value : String}

theorem switch?_output (h : o.switch? option = some next) : next.output = o.output := by
  unfold switch? at h
  split at h
  · obtain rfl := Option.some.inj h
    rfl
  · obtain rfl := Option.some.inj h
    rfl
  · simp at h

theorem assign_output (h : o.assign option value = .ok next) :
    next.output = o.output ∨ option = "--output" ∧ next.output = some value := by
  unfold assign at h
  split at h
  · obtain rfl := Except.ok.inj h
    exact Or.inl rfl
  · obtain rfl := Except.ok.inj h
    exact Or.inl rfl
  · split at h
    · simp at h
    · split at h
      · obtain rfl := Except.ok.inj h
        exact Or.inl rfl
      · simp at h
  · split at h
    · simp at h
    · obtain rfl := Except.ok.inj h
      exact Or.inl rfl
  · split at h
    · simp at h
    · obtain rfl := Except.ok.inj h
      exact Or.inr ⟨rfl, rfl⟩
  · simp at h

end Options

/-- An output is taken over from the options read before, or follows `--output`. -/
theorem ofArgumentsAfter_output {asksHelp : Bool} {o last : Options} {arguments : List String}
    {path : String} (h : Request.ofArgumentsAfter asksHelp o arguments = .ok (.run last))
    (hpath : last.output = some path) :
    o.output = some path ∨ ["--output", path] <:+: arguments := by
  fun_induction Request.ofArgumentsAfter asksHelp o arguments with
  | case1 asksHelp o =>
    cases asksHelp with
    | true => simp at h
    | false =>
      obtain rfl : o = last := by simpa using h
      exact Or.inl hpath
  | case2 _ _ _ _ _ ih =>
    exact (ih h).imp_right List.infix_cons
  | case3 asksHelp o rest _ =>
    cases asksHelp with
    | true => simp at h
    | false =>
      obtain rfl : { o with inputs := o.inputs ++ rest } = last := by simpa using h
      exact Or.inl hpath
  | case4 _ _ _ _ _ _ _ ih =>
    exact (ih h).imp_right List.infix_cons
  | case5 => simp at h
  | case6 asksHelp o value rest _ _ _ _ next hswitch ih =>
    rw [Options.switch?_output hswitch] at ih
    exact (ih h).imp_right List.infix_cons
  | case7 => simp at h
  | case8 => simp at h
  | case9 => simp at h
  | case10 asksHelp o option _ _ _ _ _ _ value rest next hassign ih =>
    rcases ih h with hnext | hrest
    · rcases Options.assign_output hassign with hkept | ⟨rfl, hset⟩
      · exact Or.inl (hkept ▸ hnext)
      · obtain rfl : value = path := Option.some.inj (hset.symm.trans hnext)
        exact Or.inr ⟨[], rest, rfl⟩
    · exact Or.inr (List.infix_cons (List.infix_cons hrest))

/-- The arguments ask for a run with these options, and not for a notice. -/
def Asks (arguments : List String) (o : Options) : Prop :=
  Request.ofArguments arguments = .ok (.run o) ∧ o.showsVersion = false

theorem Asks.output_named {arguments : List String} {o : Options} {path : String}
    (h : Asks arguments o) (hpath : o.output = some path) :
    ["--output", path] <:+: arguments := by
  rcases ofArgumentsAfter_output h.1 hpath with hdefault | hnamed
  · simp at hdefault
  · exact hnamed

theorem Asks.unique {arguments : List String} {o o' : Options} (h : Asks arguments o)
    (h' : Asks arguments o') : o = o' := by
  simpa using h.1.symm.trans h'.1

/-! ### What makes a run fail -/

theorem RunError.outcome_fails (e : RunError) : e.outcome.code ≠ 0 ∧ e.outcome.stdout = "" := by
  cases e <;> simp [outcome, because]

section Stages

variable {o : Options} {lookup : Host.Lookup} {path : String}

theorem collisions_total :
    (∃ set, o.collisions lookup path = .ok set) ↔ ∃ items, Host.Holds lookup path items := by
  have hscan : (∃ ds, Host.scan lookup [path] = .ok ds) ↔
      ∃ items, Host.Holds lookup path items := by
    simp only [Host.scan_cons, Host.scanFile_eq_ok]
    constructor
    · rintro ⟨_, _, _, ⟨items, hitems, _⟩, _⟩
      exact ⟨items, hitems⟩
    · rintro ⟨items, hitems⟩
      exact ⟨_, _, [], ⟨items, hitems, rfl⟩, rfl, rfl⟩
  rw [← hscan, Options.collisions, Host.collisions]
  cases Host.scan lookup [path] <;> simp

theorem inputUnit_total :
    (∃ unit, o.inputUnit lookup path = .ok unit) ↔ ∃ items, Host.Holds lookup path items := by
  rw [← collisions_total (o := o), Options.inputUnit]
  cases hlookup : lookup path with
  | error e =>
    have hnone : ¬ ∃ set, o.collisions lookup path = .ok set := by
      rw [collisions_total]
      rintro ⟨_, text, htext, _⟩
      simp [hlookup] at htext
    simpa using hnone
  | ok text => cases o.collisions lookup path <;> simp

theorem hostUnit_total :
    (∃ unit, o.hostUnit lookup path = .ok unit) ↔ ∃ items, Host.Holds lookup path items := by
  rw [← collisions_total (o := o), Options.hostUnit]
  cases o.collisions lookup path <;> simp

/-- The units are known when every file is a program. -/
theorem units_total : (∃ units, o.units lookup = .ok units) ↔
    ∀ path ∈ o.files, ∃ items, Host.Holds lookup path items := by
  rw [Options.units, Options.files]
  constructor
  · intro h path hpath
    cases hinputs : o.inputs.mapM (o.inputUnit lookup) with
    | error e => simp [hinputs] at h
    | ok inputs =>
      cases hhosts : o.hosts.mapM (o.hostUnit lookup) with
      | error e => simp [hinputs, hhosts] at h
      | ok hosts =>
        rcases List.mem_append.mp hpath with hpath | hpath
        · exact inputUnit_total.mp (exists_mapM_eq_ok.mp ⟨_, hinputs⟩ path hpath)
        · exact hostUnit_total.mp (exists_mapM_eq_ok.mp ⟨_, hhosts⟩ path hpath)
  · intro h
    obtain ⟨inputs, hinputs⟩ := exists_mapM_eq_ok.mpr fun path hpath =>
      (inputUnit_total (o := o)).mpr (h path (List.mem_append_left _ hpath))
    obtain ⟨hosts, hhosts⟩ := exists_mapM_eq_ok.mpr fun path hpath =>
      (hostUnit_total (o := o)).mpr (h path (List.mem_append_right _ hpath))
    exact ⟨inputs ++ hosts, by simp only [hinputs, hhosts]⟩

/-- Text is generated when every stage before the output succeeds. -/
theorem generate_eq_ok {text : String} : o.generate lookup = .ok text ↔
    o.inputs ≠ [] ∧ ∃ units p, o.units lookup = .ok units ∧ compile o.config units = .ok p ∧
      o.textOf p = .ok text := by
  rw [Options.generate]
  by_cases hinputs : o.inputs = []
  · simp [hinputs]
  · rw [if_neg (by simpa using hinputs)]
    cases hunits : o.units lookup with
    | error e => simp
    | ok units =>
      cases hcompile : compile o.config units with
      | error e =>
        obtain ⟨p, failure⟩ := e
        cases failure <;> simp [hcompile]
      | ok p => simp [hinputs, hcompile]

end Stages

/-- What stands in the way of a run, at one of its stages. -/
inductive Obstacle (arguments : List String) (fs : Files) : Prop
  | badArguments {e : UsageError} (read : Request.ofArguments arguments = .error e)
  | noInput {o : Options} (asks : Asks arguments o) (inputs : o.inputs = [])
  | unreadable {o : Options} {path : String} {e : FileError} (asks : Asks arguments o)
      (file : path ∈ o.files) (read : fs.readText path = .error e)
  | malformed {o : Options} {path text : String} (asks : Asks arguments o)
      (file : path ∈ o.files) (read : fs.readText path = .ok text)
      (parse : Host.outlines? text = none)
  | directive {o : Options} {units : List CompilationUnit} {p : Progress}
      {failure : CompilationFailure} (asks : Asks arguments o)
      (read : o.units fs.readText = .ok units)
      (refused : compile o.config units = .error (p, failure))
  | generation {o : Options} {units : List CompilationUnit} {p : Progress} {e : RunError}
      (asks : Asks arguments o) (read : o.units fs.readText = .ok units)
      (compiled : compile o.config units = .ok p) (generated : o.textOf p = .error e)
  | output {o : Options} {text path : String} {e : FileError} (asks : Asks arguments o)
      (generated : o.generate fs.readText = .ok text) (output : o.output = some path)
      (written : fs.write path (bytesOfText text) = .error e)

section Runs

variable {arguments : List String} {fs : Files} {o : Options}

/-- Where no text is generated, one of the stages up to the generation is the reason. -/
theorem Asks.obstacle (asks : Asks arguments o) {e : RunError}
    (h : o.generate fs.readText = .error e) : Obstacle arguments fs := by
  have hnone : ∀ text, o.generate fs.readText ≠ .ok text := by simp [h]
  by_cases hinputs : o.inputs = []
  · exact .noInput asks hinputs
  by_cases hfiles : ∀ path ∈ o.files, ∃ items, Host.Holds fs.readText path items
  · obtain ⟨units, hunits⟩ := units_total.mpr hfiles
    cases hcompile : compile o.config units with
    | error e => exact .directive asks hunits hcompile
    | ok p =>
      cases htext : o.textOf p with
      | error e => exact .generation asks hunits hcompile htext
      | ok text =>
        exact absurd (generate_eq_ok.mpr ⟨hinputs, units, p, hunits, hcompile, htext⟩) (hnone text)
  · push Not at hfiles
    obtain ⟨path, hpath, hitems⟩ := hfiles
    cases hread : fs.readText path with
    | error e => exact .unreadable asks hpath hread
    | ok text =>
      cases hparse : Host.outlines? text with
      | none => exact .malformed asks hpath hread hparse
      | some items => exact absurd ⟨text, hread, hparse⟩ (hitems items)

/-! ### Runs -/

theorem Asks.run_of_error (asks : Asks arguments o) {e : RunError}
    (h : o.generate fs.readText = .error e) : run arguments fs = (e.outcome, fs) := by
  simp [run, asks.1, Request.product, asks.2, h]

theorem Asks.run_of_text (asks : Asks arguments o) {text : String}
    (h : o.generate fs.readText = .ok text) :
    run arguments fs = (Product.generated text o.output).deliver fs := by
  simp [run, asks.1, Request.product, asks.2, h]

/-- What a run can come to: it fails, it only shows something, or it writes the output. -/
theorem run_cases (arguments : List String) (fs : Files) :
    (∃ e : RunError, run arguments fs = (e.outcome, fs) ∧ Obstacle arguments fs) ∨
    (∃ shown, run arguments fs = ({ stdout := shown }, fs) ∧
      ∀ o, Asks arguments o → o.output = none) ∨
    ∃ o path text after, Asks arguments o ∧ o.output = some path ∧
      o.generate fs.readText = .ok text ∧ fs.write path (bytesOfText text) = .ok after ∧
      run arguments fs = ({}, after) := by
  cases hread : Request.ofArguments arguments with
  | error e => exact Or.inl ⟨.usage e, by simp [run, hread], .badArguments hread⟩
  | ok request =>
    cases request with
    | help =>
      refine Or.inr (Or.inl ⟨usage ++ "\n", by simp [run, hread, Request.product, Product.deliver,
        Product.file?, Product.shown], fun o asks => ?_⟩)
      simp [asks.1] at hread
    | run o =>
      cases hversion : o.showsVersion with
      | true =>
        refine Or.inr (Or.inl ⟨versionNotice, by simp [run, hread, Request.product, hversion,
          Product.deliver, Product.file?, Product.shown], fun o' asks => ?_⟩)
        obtain rfl : o' = o := by simpa [asks.1] using hread
        simp [asks.2] at hversion
      | false =>
        have asks : Asks arguments o := ⟨hread, hversion⟩
        cases htext : o.generate fs.readText with
        | error e => exact Or.inl ⟨e, asks.run_of_error htext, asks.obstacle htext⟩
        | ok text =>
          rw [asks.run_of_text htext]
          cases houtput : o.output with
          | none =>
            refine Or.inr (Or.inl ⟨text ++ "\n", by simp [Product.deliver, Product.file?,
              Product.shown], fun o' asks' => ?_⟩)
            rw [asks'.unique asks, houtput]
          | some path =>
            cases hwrite : fs.write path (bytesOfText text) with
            | error e =>
              refine Or.inl ⟨.unwritable path e, ?_, .output asks htext houtput hwrite⟩
              simp [Product.deliver, Product.file?, hwrite]
            | ok after =>
              refine Or.inr (Or.inr ⟨o, path, text, after, asks, houtput, htext, hwrite, ?_⟩)
              simp [Product.deliver, Product.file?, hwrite, Product.shown]

theorem Asks.fails (asks : Asks arguments o) (h : ∀ text, o.generate fs.readText ≠ .ok text) :
    (run arguments fs).1.code ≠ 0 := by
  cases htext : o.generate fs.readText with
  | error e =>
    rw [asks.run_of_error htext]
    exact e.outcome_fails.1
  | ok text => exact absurd htext (h text)

/-- Whichever obstacle there is, the run fails, even if another one is met first. -/
theorem Obstacle.fails (h : Obstacle arguments fs) : (run arguments fs).1.code ≠ 0 := by
  cases h with
  | badArguments read =>
    rw [run, read]
    exact (RunError.usage _).outcome_fails.1
  | noInput asks inputs =>
    exact asks.fails fun text htext => (generate_eq_ok.mp htext).1 inputs
  | unreadable asks file read =>
    refine asks.fails fun text htext => ?_
    obtain ⟨_, units, _, hunits, _⟩ := generate_eq_ok.mp htext
    obtain ⟨_, _, hread, _⟩ := units_total.mp ⟨units, hunits⟩ _ file
    simp [read] at hread
  | malformed asks file read parse =>
    refine asks.fails fun text htext => ?_
    obtain ⟨_, units, _, hunits, _⟩ := generate_eq_ok.mp htext
    obtain ⟨_, _, hread, hparse⟩ := units_total.mp ⟨units, hunits⟩ _ file
    obtain rfl := Except.ok.inj (read.symm.trans hread)
    simp [parse] at hparse
  | directive asks read refused =>
    refine asks.fails fun text htext => ?_
    obtain ⟨_, units, _, hunits, hcompile, _⟩ := generate_eq_ok.mp htext
    obtain rfl := Except.ok.inj (read.symm.trans hunits)
    simp [refused] at hcompile
  | generation asks read compiled generated =>
    refine asks.fails fun text htext => ?_
    obtain ⟨_, units, p, hunits, hcompile, htextOf⟩ := generate_eq_ok.mp htext
    obtain rfl := Except.ok.inj (read.symm.trans hunits)
    obtain rfl := Except.ok.inj (compiled.symm.trans hcompile)
    simp [generated] at htextOf
  | output asks generated output written =>
    rw [asks.run_of_text generated, output]
    simpa [Product.deliver, Product.file?, written] using (RunError.unwritable _ _).outcome_fails.1

theorem fails_iff_obstacle (arguments : List String) (fs : Files) :
    (run arguments fs).1.code ≠ 0 ↔ Obstacle arguments fs := by
  refine ⟨fun h => ?_, Obstacle.fails⟩
  obtain ⟨_, _, hobstacle⟩ | ⟨_, hrun, _⟩ | ⟨_, _, _, _, _, _, _, _, hrun⟩ := run_cases arguments fs
  · exact hobstacle
  · exact absurd (by rw [hrun]) h
  · exact absurd (by rw [hrun]) h

end Runs

/-- The path leads to the file that the arguments name for the output, and the file holds what was
generated. -/
def IsOutput (arguments : List String) (fs after : Files) (path : String) : Prop :=
  ∃ o output text place, Asks arguments o ∧ o.output = some output ∧
    ["--output", output] <:+: arguments ∧ o.generate fs.readText = .ok text ∧
    after.find output = .ok (place, .file (bytesOfText text)) ∧
    after.find path = .ok (place, .file (bytesOfText text))

/-- A working directory with a program that holds a directive, and a file to write over. -/
def desk : Files := ⟨[(["a"], bytesOfText "//wire9 A x[1]"), (["o"], [1])]⟩

theorem desk_program : desk.readText "a" = .ok "//wire9 A x[1]" := by
  have hcheck : Path.check "a" = .ok () := Path.check_eq_ok (by decide) (by decide) (by decide)
  have hresolve : desk.resolve [] ["a"] = .ok (["a"], .file (bytesOfText "//wire9 A x[1]")) := rfl
  have hfind : desk.find "a" = .ok (["a"], .file (bytesOfText "//wire9 A x[1]")) := by
    refine Files.find_eq_ok.mpr ⟨hcheck, ?_, ?_⟩
    · rw [show Path.start "a" = [] by cbv, show Path.names "a" = ["a"] by cbv, hresolve]
    · simp [show Path.isDirectory "a" = false by cbv]
  rw [Files.readText, Files.read, hfind]
  exact textOfBytes_bytesOfText _

theorem desk_missing : desk.readText "b" = .error .missing := by
  have hcheck : Path.check "b" = .ok () := Path.check_eq_ok (by decide) (by decide) (by decide)
  have hresolve : desk.resolve [] ["b"] = .error .missing := rfl
  have hfind : desk.find "b" = .error .missing := by
    rw [Files.find, hcheck, show Path.start "b" = [] by cbv, show Path.names "b" = ["b"] by cbv,
      hresolve]
    rfl
  rw [Files.readText, Files.read, hfind]

theorem desk_writable (bytes : List UInt8) : ∃ after, desk.write "o" bytes = .ok after := by
  have hcheck : Path.check "o" = .ok () := Path.check_eq_ok (by decide) (by decide) (by decide)
  refine ⟨desk.put ["o"] bytes, ?_⟩
  rw [Files.write, hcheck, show Path.start "o" = [] by cbv, show Path.names "o" = ["o"] by cbv,
    show Path.isDirectory "o" = false by cbv]
  rfl

theorem desk_units : Options.units { inputs := ["a"], output := some "o" } desk.readText =
    .ok [⟨"a", [⟨1, "A x[1]"⟩], {}⟩] := by
  have houtlines : Host.outlines? "//wire9 A x[1]" = some [] := rfl
  simp only [Options.units, Options.inputUnit, Options.collisions, Host.collisions, Host.scan,
    Host.scanFile, desk_program, houtlines, List.mapM_cons, List.mapM_nil]
  rfl

theorem desk_compiled : ∃ p ∈ (compile {} [⟨"a", [⟨1, "A x[1]"⟩], {}⟩]).toOption,
    ∃ items ∈ (Program.generate p.compilation true).2.toOption, items ≠ [] := by
  decide +kernel

end WireRecords.Cli
