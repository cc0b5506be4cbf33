import TemplateLexer.Proofs.Report.Lossless

/-!
# Runs are consistent

A run that is asked for events ends in one of three ways (`Answers`): the template cannot be loaded,
it can but its markers are refused, or its events are shown, one on each line (`Shows`). What is
said on the standard error output is then counted on the lines of the standard output themselves.
Apart from this, no choice of the caller reaches further than it should: the counters do not touch
the standard output, nor the format the standard error output, and it does not matter where a
template comes from.
-/

set_option autoImplicit false

namespace TemplateLexer.Command

open Report

variable {inputs inputs' : Inputs} {arguments arguments' : List String} {r r' : Request}
variable {template : String} {o : Options}

/-! ## Loading -/

/-- A source from which a template is loaded: the text itself, or its encoding in the place that
the source names. -/
def Source.Gives (inputs : Inputs) (template : String) : Source → Prop
  | .inline text => text = template
  | .file path => inputs.file path = .ok template.toByteArray
  | .stdin => inputs.stdin = .ok template.toByteArray

/-- A content is read as a text exactly if it is the encoding of that text. -/
theorem decode_eq_ok_iff {content : ByteArray} :
    decode content = .ok template ↔ content = template.toByteArray := by
  unfold decode String.fromUTF8?
  constructor
  · intro h
    split at h
    · next text htext =>
      split at htext
      · cases htext
        cases h
        rfl
      · cases htext
    · cases h
  · rintro rfl
    rw [dif_pos template.isValidUTF8]
    rfl

/-- Naming the cause of a failure differently does not touch a success. -/
theorem mapError_eq_ok_iff {ε ε' α : Type} {x : Except ε α} {f : ε → ε'} {a : α} :
    x.mapError f = .ok a ↔ x = .ok a := by
  cases x <;> simp [Except.mapError]

/-- A template is read from a place exactly if its encoding is there. -/
theorem read_eq_ok_iff {read : Except LoadError ByteArray} {f : LoadError → RunError} :
    (read.bind decode).mapError f = .ok template ↔ read = .ok template.toByteArray := by
  rw [mapError_eq_ok_iff]
  cases read with
  | error e => simp [Except.bind]
  | ok content => rw [Except.bind, decode_eq_ok_iff, Except.ok.injEq]

/-- A template is loaded exactly from where it is. -/
theorem load_eq_ok_iff {s : Source} : s.load inputs = .ok template ↔ s.Gives inputs template := by
  cases s with
  | inline text => rw [Source.load, Source.Gives, Except.ok.injEq]
  | file path => exact read_eq_ok_iff
  | stdin => exact read_eq_ok_iff

/-! ## Kinds of lines -/

/-- The kind of the event that a line shows. -/
def Format.kindOf (f : Format) (line : String) : String :=
  match f with
  | .text => String.ofList (firstKind line.toList)
  | .json => String.ofList (firstKind (line.toList.dropWhile (· != ':')))

/-- The kind of an event can be read off its line in either format. -/
theorem Format.kindOf_line (f : Format) (template : String) (n : Nat) (e : Event) :
    f.kindOf (f.line template n e) = e.kind := by
  have hcolumnar := columnar_ofEvent template e
  rw [← kind_ofEvent template e, ← String.toList_inj]
  cases f with
  | text =>
    simp only [Format.kindOf, Format.line, String.toList_ofList]
    exact firstKind_line hcolumnar n
  | json =>
    simp only [Format.kindOf, Format.line, String.toList_ofList]
    exact Report.Json.firstKind_line hcolumnar.kind_ne hcolumnar.kind

/-- The lines show the kinds of the events in order. -/
theorem Format.map_kindOf_lines (f : Format) (template : String) (es : Array Event) :
    (f.lines template es).map f.kindOf = es.toList.map Event.kind := by
  have hlines : f.lines template es = es.toList.zipIdx.map fun p => f.line template p.2 p.1 := rfl
  have hkind : f.kindOf ∘ (fun p : Event × Nat => f.line template p.2 p.1) =
      Event.kind ∘ Prod.fst := by
    funext p
    exact f.kindOf_line template p.2 p.1
  rw [hlines, List.map_map, hkind, ← List.map_map, List.zipIdx_map_fst]

/-- An event is an error exactly if its kind says so. -/
theorem isError_eq (e : Event) : e.isError = (e.kind == "error") := by
  cases e <;> rfl

/-- There are as many lines of errors as errors. -/
theorem Format.countP_lines (f : Format) (template : String) (es : Array Event) :
    (f.lines template es).countP (f.kindOf · == "error") = es.countP Event.isError := by
  have hlines : (f.lines template es).countP (f.kindOf · == "error") =
      ((f.lines template es).map f.kindOf).countP (· == "error") := by
    rw [List.countP_map]
    rfl
  have hevents : es.countP Event.isError = (es.toList.map Event.kind).countP (· == "error") := by
    rw [List.countP_map, ← Array.countP_toList]
    exact congrArg (List.countP · _) (funext isError_eq)
  rw [hlines, hevents, f.map_kindOf_lines]

/-! ## The standard error output -/

/-- Rows of lines are written one behind the other. -/
theorem unlines_append (first second : List String) :
    unlines (first ++ second) = unlines first ++ unlines second := by
  rw [← String.toList_inj, String.toList_append]
  simp only [toList_unlines, List.flatMap_append]

/-- The line that warns of a number of errors, if there are any. -/
def warning : Nat → List String
  | 0 => []
  | 1 => ["warning: 1 diagnostic"]
  | n + 2 => ["warning: " ++ toString (n + 2) ++ " diagnostics"]

/-- The warning is written as a line, if there is one. -/
theorem diagnostics_eq (es : Array Event) :
    diagnostics es = unlines (warning (es.countP Event.isError)) := by
  unfold diagnostics
  cases es.countP Event.isError with
  | zero => rfl
  | succ n =>
    cases n with
    | zero => rfl
    | succ n => rw [← String.toList_inj]; simp [warning, unlines]

/-- Nothing is warned of exactly if there is no error. -/
theorem warning_eq_nil_iff {n : Nat} : warning n = [] ↔ n = 0 := by
  cases n with
  | zero => exact iff_of_true rfl rfl
  | succ n => cases n <;> simp [warning]

/-- A line that warns of something. -/
def IsWarning (line : String) : Prop :=
  "warning: ".toList <+: line.toList

/-- The line that warns reads as a warning. -/
theorem isWarning_of_mem_warning {n : Nat} {line : String} (h : line ∈ warning n) :
    IsWarning line := by
  cases n with
  | zero => cases h
  | succ n =>
    cases n with
    | zero =>
      rw [List.mem_singleton.mp h]
      exact ⟨"1 diagnostic".toList, rfl⟩
    | succ n =>
      rw [List.mem_singleton.mp h]
      refine ⟨(toString (n + 2) ++ " diagnostics").toList, ?_⟩
      simp

/-- The line that warns is a single one. -/
theorem newline_not_mem_warning {n : Nat} {line : String} (h : line ∈ warning n) :
    '\n' ∉ line.toList := by
  cases n with
  | zero => cases h
  | succ n =>
    cases n with
    | zero =>
      rw [List.mem_singleton.mp h]
      decide
    | succ n =>
      rw [List.mem_singleton.mp h]
      have hnumber : '\n' ∉ (toString (n + 2)).toList := not_mem_number (by decide)
      simpa using hnumber

/-- The lines that show the counters. -/
def counterLines (stats : Stats) : List String :=
  ["=== Tokenizer Stats ===", "steps:             " ++ toString stats.steps,
    "reconsumes:        " ++ toString stats.rereads,
    "state transitions: " ++ toString stats.transitions,
    "events emitted:    " ++ toString stats.events]

/-- The counters are written as lines. -/
theorem counters_eq (stats : Stats) : counters stats = unlines (counterLines stats) := by
  have htitle : "=== Tokenizer Stats ===\n".toList =
      "=== Tokenizer Stats ===".toList ++ ['\n'] := by decide
  have hfeed : "\n".toList = ['\n'] := rfl
  unfold counters counterLines
  -- The numbers are generalized because `simp` would unfold their digits.
  generalize toString stats.steps = steps
  generalize toString stats.rereads = rereads
  generalize toString stats.transitions = transitions
  generalize toString stats.events = events
  rw [← String.toList_inj, toList_unlines]
  simp only [String.toList_append, htitle, hfeed, List.flatMap_cons, List.flatMap_nil,
    List.append_assoc, List.append_nil]

/-- No line of the counters reads as a warning. -/
theorem not_isWarning_of_mem_counterLines {stats : Stats} {line : String}
    (h : line ∈ counterLines stats) : ¬ IsWarning line := by
  rintro ⟨rest, hrest⟩
  simp only [counterLines, List.mem_cons, List.not_mem_nil, or_false] at h
  rcases h with rfl | rfl | rfl | rfl | rfl
  all_goals simp at hrest

/-- The lines of the counters are single ones. -/
theorem newline_not_mem_counterLines {stats : Stats} {line : String}
    (h : line ∈ counterLines stats) : '\n' ∉ line.toList := by
  have hline : ∀ (label : String) (n : Nat), '\n' ∉ label.toList →
      '\n' ∉ (label ++ toString n).toList := by
    intro label n hlabel
    rw [String.toList_append, List.mem_append, not_or]
    exact ⟨hlabel, not_mem_number (by decide)⟩
  simp only [counterLines, List.mem_cons, List.not_mem_nil, or_false] at h
  rcases h with rfl | rfl | rfl | rfl | rfl
  · decide
  · exact hline _ _ (by decide)
  · exact hline _ _ (by decide)
  · exact hline _ _ (by decide)
  · exact hline _ _ (by decide)

/-- The lines of the standard error output: a warning, and the counters if they are asked for. -/
def Request.notes (r : Request) (errors : Nat) (stats : Stats) : List String :=
  warning errors ++ if r.stats then counterLines stats else []

/-- What a request asks for on the standard error output comes in single lines. -/
theorem newline_not_mem_notes (r : Request) (n : Nat) (stats : Stats) :
    ∀ line ∈ r.notes n stats, '\n' ∉ line.toList := by
  intro line hline
  rcases List.mem_append.mp hline with hwarning | hcounter
  · exact newline_not_mem_warning hwarning
  · split at hcounter
    · exact newline_not_mem_counterLines hcounter
    · cases hcounter

/-- There is a warning exactly if there is something to warn of. -/
theorem exists_isWarning_iff (r : Request) (n : Nat) (stats : Stats) :
    (∃ line ∈ r.notes n stats, IsWarning line) ↔ n ≠ 0 := by
  constructor
  · rintro ⟨line, hline, hwarns⟩ rfl
    rcases List.mem_append.mp hline with hwarning | hcounter
    · cases hwarning
    · split at hcounter
      · exact not_isWarning_of_mem_counterLines hcounter hwarns
      · cases hcounter
  · intro hne
    obtain ⟨line, hline⟩ := List.exists_mem_of_ne_nil _ (mt warning_eq_nil_iff.mp hne)
    exact ⟨line, List.mem_append_left _ hline, isWarning_of_mem_warning hline⟩

/-! ## What is shown of a template -/

/-- What a run leaves behind that shows the events of a template. -/
structure Shows (r : Request) (template : String) (o : Options) (out : Outcome) : Prop where
  exit : out.exitCode = 0
  /-- The standard output is made of lines, each of them ended by its only line feed. -/
  stdout : out.stdout = unlines (linesOf out.stdout)
  /-- Each line is that of an event, in order. -/
  lines : linesOf out.stdout = r.format.lines template (tokenize o template)
  length : (linesOf out.stdout).length = (tokenize o template).size
  kinds : (linesOf out.stdout).map r.format.kindOf = (tokenize o template).toList.map Event.kind
  /-- Everything that the lines show can be cut out of the template. -/
  texts : ∀ e ∈ tokenize o template,
    (∃ text, e.text? template = .ok text) ∧ ∃ name, e.directive? template = .ok name
  stderr : out.stderr = unlines (linesOf out.stderr)
  /-- The warning counts the lines of errors. Of the counters, the steps are the bytes of the
  template, and the events are the lines. -/
  notes : linesOf out.stderr = r.notes
    ((linesOf out.stdout).countP (r.format.kindOf · == "error"))
    { ((Tokenizer.new o (#[] : Array Event)).parse template).stats with
      steps := template.utf8ByteSize
      events := (linesOf out.stdout).length }
  warns : (∃ line ∈ linesOf out.stderr, IsWarning line) ↔
    ∃ e ∈ tokenize o template, e.isError = true

/-- The standard output of a request that is granted can be taken apart into the lines of its
events. -/
theorem linesOf_stdout (r : Request) (template : String) (o : Options) :
    linesOf (r.present template o).stdout = r.format.lines template (tokenize o template) :=
  linesOf_unlines (r.format.newline_not_mem_lines template _)

/-- The standard error output of a request that is granted is its notes. -/
theorem stderr_present (r : Request) (template : String) (o : Options) :
    (r.present template o).stderr = unlines (r.notes ((tokenize o template).countP Event.isError)
      ((Tokenizer.new o (#[] : Array Event)).parse template).stats) := by
  rw [Request.notes, unlines_append, ← diagnostics_eq, Request.present, tokenize]
  cases r.stats with
  | true => simp only [if_true, counters_eq]
  | false => rfl

/-- A parse takes as many steps as the template has bytes, and counts all of its events. -/
theorem stats_parse (template : String) (o : Options) :
    ((Tokenizer.new o (#[] : Array Event)).parse template).stats =
      { ((Tokenizer.new o (#[] : Array Event)).parse template).stats with
        steps := template.utf8ByteSize
        events := (tokenize o template).size } := by
  rw [Tokenizer.parse_eq, tokenize_eq, length_utf8Bytes]
  rfl

/-- A request that is granted shows the events of its template. -/
theorem shows_present (r : Request) (template : String) (o : Options) :
    Shows r template o (r.present template o) := by
  have hlines := linesOf_stdout r template o
  have hlength : (linesOf (r.present template o).stdout).length = (tokenize o template).size := by
    rw [hlines, Format.lines, List.length_map, List.length_zipIdx, Array.length_toList]
  have hcount : (linesOf (r.present template o).stdout).countP (r.format.kindOf · == "error") =
      (tokenize o template).countP Event.isError := by
    rw [hlines, r.format.countP_lines]
  have hstderr := stderr_present r template o
  have hnotes : linesOf (r.present template o).stderr = r.notes
      ((tokenize o template).countP Event.isError)
      ((Tokenizer.new o (#[] : Array Event)).parse template).stats := by
    rw [hstderr, linesOf_unlines (newline_not_mem_notes r _ _)]
  refine ⟨rfl, ?_, hlines, hlength, ?_, ?_, ?_, ?_, ?_⟩
  · rw [hlines]
    rfl
  · rw [hlines, r.format.map_kindOf_lines]
  · intro e he
    have hfits := (evident_of_mem_tokenize he).fits
    exact ⟨hfits.exists_text, hfits.exists_directive⟩
  · rw [hnotes, hstderr]
  · rw [hnotes, hcount, hlength, ← stats_parse]
  · rw [hnotes, exists_isWarning_iff, ← Nat.pos_iff_ne_zero, Array.countP_pos_iff]

/-! ## How a run ends -/

/-- The ways in which a run ends that is asked for events. -/
inductive Answers (inputs : Inputs) (r : Request) : Outcome → Prop
  | unloaded {e : RunError} (hload : r.source.load inputs = .error e) :
      Answers inputs r ⟨1, "", e.message⟩
  | refused {template : String} {e : RunError} (hload : r.source.load inputs = .ok template)
      (hoptions : r.options = .error e) : Answers inputs r ⟨1, "", e.message⟩
  | shown {template : String} {o : Options} {out : Outcome}
      (hload : r.source.load inputs = .ok template) (hoptions : r.options = .ok o)
      (hshows : Shows r template o out) : Answers inputs r out

/-- Once its template is loaded, a request hangs on its markers alone. -/
theorem run_of_load (hload : r.source.load inputs = .ok template) :
    r.run inputs = match r.options with
      | .ok o => r.present template o
      | .error e => ⟨1, "", e.message⟩ := by
  rw [Request.run, Request.prepare, hload]
  cases r.options <;> rfl

/-- Every request is answered in one of the three ways. -/
theorem answers_run (inputs : Inputs) (r : Request) : Answers inputs r (r.run inputs) := by
  cases hload : r.source.load inputs with
  | error e =>
    rw [Request.run, Request.prepare, hload]
    exact .unloaded hload
  | ok template =>
    rw [run_of_load hload]
    cases hoptions : r.options with
    | error e => exact .refused hload hoptions
    | ok o => exact .shown hload hoptions (shows_present r template o)

/-! ## What a run does not depend on -/

/-- The counters leave the standard output and the exit code as they are. -/
theorem run_withStats (inputs : Inputs) (r : Request) (stats : Bool) :
    ({ r with stats := stats }.run inputs).stdout = (r.run inputs).stdout ∧
      ({ r with stats := stats }.run inputs).exitCode = (r.run inputs).exitCode := by
  have hprepare : { r with stats := stats }.prepare inputs = r.prepare inputs := rfl
  rw [Request.run, Request.run, hprepare]
  cases r.prepare inputs with
  | error e => exact ⟨rfl, rfl⟩
  | ok p => exact ⟨rfl, rfl⟩

/-- The format leaves the standard error output and the exit code as they are. -/
theorem run_withFormat (inputs : Inputs) (r : Request) (format : Format) :
    ({ r with format := format }.run inputs).stderr = (r.run inputs).stderr ∧
      ({ r with format := format }.run inputs).exitCode = (r.run inputs).exitCode := by
  have hprepare : { r with format := format }.prepare inputs = r.prepare inputs := rfl
  rw [Request.run, Request.run, hprepare]
  cases r.prepare inputs with
  | error e => exact ⟨rfl, rfl⟩
  | ok p => exact ⟨rfl, rfl⟩

/-- It does not matter where a template comes from. -/
theorem run_withSource {source : Source} (h : r.source.Gives inputs template)
    (h' : source.Gives inputs' template) :
    { r with source := source }.run inputs' = r.run inputs := by
  have hload : { r with source := source }.source.load inputs' = .ok template :=
    load_eq_ok_iff.mpr h'
  rw [run_of_load hload, run_of_load (load_eq_ok_iff.mpr h)]
  rfl

/-- A run that is asked for events either fails with the one message why, and shows nothing, or
shows the events of its template, one on each line. Two such runs that differ in nothing but the
counters show the same; two that differ in nothing but the format note the same; and two that differ
in nothing but where the same template comes from leave the same behind. -/
theorem runs_consistent (inputs : Inputs)
    (h : Invocation.ofArguments arguments = .ok (.events r)) :
    Answers inputs r (run inputs arguments) ∧
      ∀ (arguments' : List String) (r' : Request),
        Invocation.ofArguments arguments' = .ok (.events r') →
        (r' = { r with stats := r'.stats } →
          (run inputs arguments').stdout = (run inputs arguments).stdout ∧
            (run inputs arguments').exitCode = (run inputs arguments).exitCode) ∧
        (r' = { r with format := r'.format } →
          (run inputs arguments').stderr = (run inputs arguments).stderr ∧
            (run inputs arguments').exitCode = (run inputs arguments).exitCode) ∧
        ∀ (inputs' : Inputs) (template : String), r' = { r with source := r'.source } →
          r.source.Gives inputs template → r'.source.Gives inputs' template →
            run inputs' arguments' = run inputs arguments := by
  rw [run_of_accepted h]
  refine ⟨answers_run inputs r, fun arguments' r' h' => ?_⟩
  rw [run_of_accepted h']
  refine ⟨fun heq => ?_, fun heq => ?_, fun inputs' template heq hgives hgives' => ?_⟩
  · rw [heq]
    exact run_withStats inputs r r'.stats
  · rw [heq]
    exact run_withFormat inputs r r'.format
  · rw [run_of_accepted h', heq]
    exact run_withSource hgives hgives'

/-- The template is unfinished here, so that there is a warning beside the counters. -/
theorem runs_consistent_piped :
    Answers (.piped "<a b") ⟨.stdin, [], false, .text, true⟩ (run (.piped "<a b") ["--stats"]) ∧
      (run (.piped "<a b") []).stdout = (run (.piped "<a b") ["--stats"]).stdout ∧
      (run (.piped "<a b") ["--stats", "-fjson"]).stderr =
        (run (.piped "<a b") ["--stats"]).stderr ∧
      run (.piped "") ["--stats", "--template=<a b"] = run (.piped "<a b") ["--stats"] := by
  have hstats : Invocation.ofArguments ["--stats"] =
      .ok (.events ⟨.stdin, [], false, .text, true⟩) := by
    simp [Invocation.ofArguments, readArguments, Argument.ofString, splitAtEquals, Flag.ofLong?,
      Draft.turnOn, Draft.finish]
  have hplain : Invocation.ofArguments [] = .ok (.events ⟨.stdin, [], false, .text, false⟩) := by
    simp [Invocation.ofArguments, readArguments, Draft.finish]
  have hjson : Invocation.ofArguments ["--stats", "-fjson"] =
      .ok (.events ⟨.stdin, [], false, .json, true⟩) := by
    simp [Invocation.ofArguments, readArguments, Argument.ofString, splitAtEquals, Flag.ofLong?,
      Flag.ofLetter?, readLetters, Draft.set, Draft.turnOn, Draft.finish, Format.ofName?]
  have htyped : Invocation.ofArguments ["--stats", "--template=<a b"] =
      .ok (.events ⟨.inline "<a b", [], false, .text, true⟩) := by
    simp [Invocation.ofArguments, readArguments, Argument.ofString, splitAtEquals, Flag.ofLong?,
      Draft.set, Draft.turnOn, Draft.finish]
  obtain ⟨hanswers, hsame⟩ := runs_consistent (.piped "<a b") hstats
  exact ⟨hanswers, ((hsame _ _ hplain).1 rfl).1, ((hsame _ _ hjson).2.1 rfl).1,
    (hsame _ _ htyped).2.2 (.piped "") "<a b" rfl rfl rfl⟩

end TemplateLexer.Command
