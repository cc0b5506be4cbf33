import TemplateLexer.Command.Flag
import TemplateLexer.Command.Request

/-!
# Arguments of the command

The arguments are read from left to right, and the first one that cannot be read ends the reading
with the reason. A request for the version or for help is granted as soon as it is met; what
stands behind it is not looked at. That a file and a template exclude each other is only seen at
the end.
-/

set_option autoImplicit false

namespace TemplateLexer.Command

/-- Why the arguments cannot be read. -/
inductive ArgumentError where
  | unknownOption (argument : String)
  | missingValue (setting : Setting)
  /-- A value is attached to an option that takes none in this form. -/
  | unexpectedValue (argument : String)
  /-- The value of an option is not among those allowed. -/
  | invalidValue (setting : Setting) (value : String)
  | repeated (name : String)
  | extraFile (path : String)
  | emptyFile
  | fileAndTemplate
  deriving DecidableEq, Repr

/-- The message of a refusal, which names what was given and is at fault. -/
def ArgumentError.message : ArgumentError → String
  | .unknownOption argument => "unexpected argument '" ++ argument ++ "' found"
  | .missingValue setting => "a value is required for '" ++ setting.name ++ "'"
  | .unexpectedValue argument => "unexpected value in '" ++ argument ++ "'"
  | .invalidValue setting value => "invalid value '" ++ value ++ "' for '" ++ setting.name ++ "'"
  | .repeated name => "the argument '" ++ name ++ "' cannot be used multiple times"
  | .extraFile path => "unexpected argument '" ++ path ++ "' found"
  | .emptyFile => "a value is required for '[FILE]'"
  | .fileAndTemplate => "the argument '[FILE]' cannot be used with '--template'"

/-- What the arguments read so far have settled. -/
structure Draft where
  file : Option String := none
  template : Option String := none
  /-- The markers of all occurrences in a row. -/
  markers : List String := []
  format : Option Format := none
  vPre : Bool := false
  stats : Bool := false
  deriving DecidableEq, Repr

namespace Draft

/-- Settles the file. There is one at most, and it has a name. -/
def setFile (d : Draft) (path : String) : Except ArgumentError Draft :=
  if d.file.isSome then .error (.extraFile path)
  else if path = "" then .error .emptyFile
  else .ok { d with file := some path }

/-- Settles an option by the values of one occurrence. Only the markers may be given again, and they
add up. -/
def set (d : Draft) (setting : Setting) (values : List String) : Except ArgumentError Draft :=
  match setting, values with
  | .template, [value] =>
    if d.template.isSome then .error (.repeated setting.name)
    else .ok { d with template := some value }
  | .format, [value] =>
    match Format.ofName? value with
    | none => .error (.invalidValue setting value)
    | some format =>
      if d.format.isSome then .error (.repeated setting.name)
      else .ok { d with format := some format }
  | .delimiters, [opening, closing] => .ok { d with markers := d.markers ++ [opening, closing] }
  | _, _ => .error (.missingValue setting)

/-- What the arguments ask for, once all of them are read. -/
def finish (d : Draft) : Except ArgumentError Invocation :=
  let request (source : Source) : Request :=
    ⟨source, d.markers, d.vPre, d.format.getD .text, d.stats⟩
  match d.file, d.template with
  | some _, some _ => .error .fileAndTemplate
  | some path, none => .ok (.events (request (.file path)))
  | none, some template => .ok (.events (request (.inline template)))
  | none, none => .ok (.events (request .stdin))

/-- Turns a switch on. A request for the version or for help leaves nothing more to read. -/
def turnOn (d : Draft) : Switch → Except ArgumentError (Draft ⊕ Invocation)
  | .vPre => if d.vPre then .error (.repeated "--v-pre") else .ok (.inl { d with vPre := true })
  | .stats => if d.stats then .error (.repeated "--stats") else .ok (.inl { d with stats := true })
  | .version => .ok (.inr .version)
  | .help => .ok (.inr .help)

end Draft

/-- Takes the values of an option from the arguments behind it. Nothing that reads as an option is a
value. -/
def takeValues (setting : Setting) :
    Nat → List String → Except ArgumentError (List String × List String)
  | 0, rest => .ok ([], rest)
  | _ + 1, [] => .error (.missingValue setting)
  | n + 1, argument :: rest =>
    match Argument.ofString argument with
    | .plain value => do
      let (values, rest) ← takeValues setting n rest
      .ok (value :: values, rest)
    | _ => .error (.missingValue setting)

/-- Taking values leaves no more arguments than there were, so the reading of the rest ends. -/
theorem length_takeValues_le {setting : Setting} {n : Nat} {args values rest : List String}
    (h : takeValues setting n args = .ok (values, rest)) : rest.length ≤ args.length := by
  induction n generalizing args values with
  | zero =>
    simp only [takeValues, Except.ok.injEq, Prod.mk.injEq] at h
    exact Nat.le_of_eq (congrArg List.length h.2.symm)
  | succ n ih =>
    cases args with
    | nil => cases h
    | cons argument args =>
      simp only [takeValues] at h
      split at h
      · cases hrest : takeValues setting n args with
        | error e => rw [hrest] at h; cases h
        | ok p =>
          obtain ⟨vs, r⟩ := p
          rw [hrest] at h
          cases h
          exact Nat.le_succ_of_le (ih hrest)
      · cases h

/-- Settles an option by the values behind it, and gives the arguments behind these. -/
def setFrom (d : Draft) (setting : Setting) (arguments : List String) :
    Except ArgumentError { p : Draft × List String // p.2.length ≤ arguments.length } :=
  match taken : takeValues setting setting.arity arguments with
  | .error e => .error e
  | .ok (values, rest) =>
    match d.set setting values with
    | .error e => .error e
    | .ok d => .ok ⟨(d, rest), length_takeValues_le taken⟩

/-- What is left of a row of letters after its switches: nothing, a granted request, or an option
with the text attached to it. -/
inductive Letters where
  /-- Every letter was a switch. -/
  | done (draft : Draft)
  /-- A letter asked for something else than a run. -/
  | granted (invocation : Invocation)
  /-- A letter takes a value, and this is the text behind it. -/
  | setting (draft : Draft) (setting : Setting) (attached : List Char)

/-- Turns switches on letter by letter, up to the first letter that takes a value. -/
def readLetters (d : Draft) : List Char → Except ArgumentError Letters
  | [] => .ok (.done d)
  | c :: rest =>
    match Flag.ofLetter? c with
    | none => .error (.unknownOption ("-" ++ String.singleton c))
    | some (.setting setting) => .ok (.setting d setting rest)
    | some (.switch switch) =>
      match d.turnOn switch with
      | .error e => .error e
      | .ok (.inl d) => readLetters d rest
      | .ok (.inr invocation) => .ok (.granted invocation)

/-- Reads arguments all of which are files. -/
def readFiles (d : Draft) : List String → Except ArgumentError Invocation
  | [] => d.finish
  | argument :: rest => do
    let d ← d.setFile argument
    readFiles d rest

/-- Reads arguments on top of what earlier ones have settled. -/
def readArguments (d : Draft) : List String → Except ArgumentError Invocation
  | [] => d.finish
  | argument :: rest =>
    match Argument.ofString argument with
    | .filesOnly => readFiles d rest
    | .plain path =>
      match d.setFile path with
      | .error e => .error e
      | .ok d => readArguments d rest
    | .long name attached =>
      match Flag.ofLong? name, attached with
      | none, _ => .error (.unknownOption argument)
      | some (.switch _), some _ => .error (.unexpectedValue argument)
      | some (.switch switch), none =>
        match d.turnOn switch with
        | .error e => .error e
        | .ok (.inl d) => readArguments d rest
        | .ok (.inr invocation) => .ok invocation
      | some (.setting setting), some value =>
        match d.set setting [value] with
        | .error e => .error e
        | .ok d => readArguments d rest
      | some (.setting setting), none =>
        match setFrom d setting rest with
        | .error e => .error e
        | .ok ⟨taken, _⟩ => readArguments taken.1 taken.2
    | .short letters =>
      match readLetters d letters with
      | .error e => .error e
      | .ok (.done d) => readArguments d rest
      | .ok (.granted invocation) => .ok invocation
      | .ok (.setting d setting []) =>
        match setFrom d setting rest with
        | .error e => .error e
        | .ok ⟨taken, _⟩ => readArguments taken.1 taken.2
      | .ok (.setting d setting (c :: attached)) =>
        let value := if c = '=' then attached else c :: attached
        match d.set setting [String.ofList value] with
        | .error e => .error e
        | .ok d => readArguments d rest
termination_by arguments => arguments.length
decreasing_by all_goals (simp only [List.length_cons]; omega)

/-- What a row of arguments asks for. -/
def Invocation.ofArguments (arguments : List String) : Except ArgumentError Invocation :=
  readArguments {} arguments

end TemplateLexer.Command
