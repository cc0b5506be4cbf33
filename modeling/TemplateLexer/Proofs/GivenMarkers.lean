import TemplateLexer.Proofs.Consistency

/-!
# Markers given with a command

The markers of a template are given with an option that may stand more than once among the
arguments. The values of all its occurrences are collected in a row (`collects`), and only a
row of one pair is looked at: a single pair is checked and then used, while several pairs are
neither checked nor used (`run_of_markers`).
-/

set_option autoImplicit false

namespace TemplateLexer.Command

variable {inputs : Inputs} {arguments rest values : List String} {argument name text : String}
  {d d' : Draft} {r : Request} {invocation : Invocation} {setting : Setting} {switch : Switch}
  {letters : List Char} {template : String}

/-- The pairs of markers among arguments, one for each occurrence of their option. Behind the mark
for files there are none. -/
def markerPairs : List String → List (String × String)
  | [] => []
  | argument :: rest =>
    if argument = "--" then []
    else if argument = "--delimiters" then
      match rest with
      | opening :: closing :: rest => (opening, closing) :: markerPairs rest
      | _ => []
    else markerPairs rest

/-- The markers of pairs in a row. -/
def inRow (pairs : List (String × String)) : List String :=
  pairs.flatMap fun p => [p.1, p.2]

/-! ## Single arguments -/

/-- A name to which no value is attached is the whole text. -/
theorem eq_of_splitAtEquals {cs row : List Char} (h : splitAtEquals cs = (row, none)) :
    cs = row := by
  induction cs generalizing row with
  | nil =>
    cases h
    rfl
  | cons c cs ih =>
    rw [splitAtEquals] at h
    split at h
    · cases h
    · obtain ⟨hrow, hnone⟩ := Prod.mk.inj h
      rw [← hrow]
      exact congrArg (c :: ·) (ih (Prod.ext rfl hnone))

/-- An option by its long name alone is the name behind two dashes. -/
theorem toList_of_long (h : Argument.ofString argument = .long name none) :
    argument.toList = '-' :: '-' :: name.toList := by
  unfold Argument.ofString at h
  split at h
  · cases h
  · next row _ hrow =>
    obtain ⟨hname, hnone⟩ := Argument.long.inj h
    have hsplit : row = (splitAtEquals row).1 :=
      eq_of_splitAtEquals (Prod.ext rfl (Option.map_eq_none_iff.mp hnone))
    rw [← hname, String.toList_ofList, hrow, ← hsplit]
  · cases h
  · cases h

/-- A plain argument stands for itself. -/
theorem eq_of_plain (h : Argument.ofString argument = .plain text) : text = argument := by
  unfold Argument.ofString at h
  split at h
  · cases h
  · cases h
  · cases h
  · exact (Argument.plain.inj h).symm

/-- Behind the mark that makes everything a file there are no markers. -/
theorem markerPairs_files (h : Argument.ofString argument = .filesOnly) :
    markerPairs (argument :: rest) = [] := by
  have hargument : argument = "--" := by
    unfold Argument.ofString at h
    split at h
    · next htext =>
      rw [← String.toList_inj, htext]
      decide
    all_goals cases h
  rw [hargument, markerPairs.eq_def]
  exact if_pos rfl

/-- An argument gives no markers and leaves those behind it if it is neither of the two marks. -/
theorem markerPairs_cons (hfiles : Argument.ofString argument ≠ .filesOnly)
    (hoption : Argument.ofString argument ≠ .long "delimiters" none) :
    markerPairs (argument :: rest) = markerPairs rest := by
  have hdashes : argument ≠ "--" := by
    rintro rfl
    exact hfiles (by decide)
  have hlong : argument ≠ "--delimiters" := by
    rintro rfl
    exact hoption (by decide)
  rw [markerPairs.eq_def]
  dsimp only
  rw [if_neg hdashes, if_neg hlong]

/-- Plain arguments give no markers. -/
theorem markerPairs_append (h : ∀ value ∈ values, Argument.ofString value = .plain value) :
    markerPairs (values ++ rest) = markerPairs rest := by
  induction values with
  | nil => rfl
  | cons value values ih =>
    obtain ⟨hvalue, hvalues⟩ := List.forall_mem_cons.mp h
    rw [List.cons_append, markerPairs_cons (by simp [hvalue]) (by simp [hvalue]), ih hvalues]

/-- The option takes the two arguments behind it as a pair. -/
theorem markerPairs_option (h : Argument.ofString argument = .long "delimiters" none)
    (opening closing : String) :
    markerPairs (argument :: opening :: closing :: rest) =
      (opening, closing) :: markerPairs rest := by
  have hargument : argument = "--delimiters" := by
    rw [← String.toList_inj, toList_of_long h]
    decide
  rw [hargument, markerPairs, if_neg (by decide), if_pos rfl]

/-- There is one long name for markers only. -/
theorem name_of_ofLong? (h : Flag.ofLong? name = some (.setting .delimiters)) :
    name = "delimiters" := by
  unfold Flag.ofLong? at h
  split at h
  all_goals cases h
  rfl

/-- An option by its long name that is not the one of the markers is no mark for them. -/
theorem ne_option_of_ofLong? {flag : Flag} (hlong : Argument.ofString argument = .long name none)
    (hflag : Flag.ofLong? name = some flag) (hne : flag ≠ .setting .delimiters) :
    Argument.ofString argument ≠ .long "delimiters" none := by
  intro hoption
  obtain ⟨rfl, -⟩ := Argument.long.inj (hlong.symm.trans hoption)
  exact hne (Option.some.inj (hflag.symm.trans rfl))

/-- No letter stands for the option of the markers. -/
theorem ne_delimiters_of_ofLetter? {c : Char} (h : Flag.ofLetter? c = some (.setting setting)) :
    setting ≠ .delimiters := by
  unfold Flag.ofLetter? at h
  split at h
  all_goals cases h
  all_goals exact nofun

/-! ## What is settled -/

/-- The request has the markers that were settled last. -/
theorem markers_finish (h : d.finish = .ok (.events r)) : r.markers = d.markers := by
  unfold Draft.finish at h
  split at h
  all_goals cases h
  all_goals rfl

/-- A file leaves the markers alone. -/
theorem markers_setFile (h : d.setFile text = .ok d') : d'.markers = d.markers := by
  unfold Draft.setFile at h
  split at h
  · cases h
  · split at h
    · cases h
    · cases h
      rfl

/-- A switch leaves the markers alone. -/
theorem markers_turnOn (h : d.turnOn switch = .ok (.inl d')) : d'.markers = d.markers := by
  unfold Draft.turnOn at h
  split at h
  · split at h
    all_goals cases h
    rfl
  · split at h
    all_goals cases h
    rfl
  · cases h
  · cases h

/-- What a switch grants is no run. -/
theorem ne_events_of_turnOn (h : d.turnOn switch = .ok (.inr invocation)) :
    invocation ≠ .events r := by
  unfold Draft.turnOn at h
  split at h
  · split at h <;> cases h
  · split at h <;> cases h
  · cases h
    exact nofun
  · cases h
    exact nofun

/-- The values of the option of the markers are a pair, which goes behind the markers given before
it; no other option touches the markers. -/
theorem markers_set (h : d.set setting values = .ok d') :
    setting ≠ .delimiters ∧ d'.markers = d.markers ∨
      setting = .delimiters ∧ ∃ opening closing, values = [opening, closing] ∧
        d'.markers = d.markers ++ [opening, closing] := by
  unfold Draft.set at h
  split at h
  · split at h
    all_goals cases h
    exact Or.inl ⟨nofun, rfl⟩
  · split at h
    · cases h
    · split at h
      all_goals cases h
      exact Or.inl ⟨nofun, rfl⟩
  · cases h
    exact Or.inr ⟨rfl, _, _, rfl, rfl⟩
  · cases h

/-- An option with a single value leaves the markers alone. -/
theorem markers_set_one (h : d.set setting [text] = .ok d') : d'.markers = d.markers := by
  rcases markers_set h with ⟨-, hmarkers⟩ | ⟨-, _, _, hpair, -⟩
  · exact hmarkers
  · cases hpair

/-- The values taken are the arguments in front of the rest, all of them plain. -/
theorem spec_takeValues {n : Nat} (h : takeValues setting n arguments = .ok (values, rest)) :
    arguments = values ++ rest ∧ ∀ value ∈ values, Argument.ofString value = .plain value := by
  induction n generalizing arguments values with
  | zero =>
    cases h
    exact ⟨rfl, nofun⟩
  | succ n ih =>
    cases arguments with
    | nil => cases h
    | cons argument arguments =>
      rw [takeValues] at h
      split at h
      · next value hplain =>
        obtain rfl := eq_of_plain hplain
        cases htaken : takeValues setting n arguments with
        | error e =>
          rw [htaken] at h
          cases h
        | ok p =>
          rw [htaken] at h
          cases h
          obtain ⟨happend, hvalues⟩ := ih htaken
          exact ⟨by rw [happend]; rfl, List.forall_mem_cons.mpr ⟨hplain, hvalues⟩⟩
      · cases h

/-- An option with its values behind it leaves the markers given before it and those behind its
values; the option of the markers gives one more pair between them. -/
theorem markers_setFrom {taken : { p : Draft × List String // p.2.length ≤ arguments.length }}
    (h : setFrom d setting arguments = .ok taken) :
    setting ≠ .delimiters ∧ taken.1.1.markers = d.markers ∧
        markerPairs arguments = markerPairs taken.1.2 ∨
      setting = .delimiters ∧ ∃ opening closing, arguments = opening :: closing :: taken.1.2 ∧
        taken.1.1.markers = d.markers ++ [opening, closing] := by
  unfold setFrom at h
  split at h
  · cases h
  · next values rest htaken =>
    obtain ⟨happend, hplain⟩ := spec_takeValues htaken
    split at h
    · cases h
    · next d' hset =>
      cases h
      rcases markers_set hset with ⟨hne, hmarkers⟩ | ⟨hsetting, opening, closing, rfl, hmarkers⟩
      · have hpairs : markerPairs arguments = markerPairs rest := by
          rw [happend, markerPairs_append hplain]
        exact Or.inl ⟨hne, hmarkers, hpairs⟩
      · exact Or.inr ⟨hsetting, opening, closing, happend, hmarkers⟩

/-- What letters leave to be read has the markers given before them, and they lead neither to the
option of the markers nor to a run. -/
def Letters.Keeps (d : Draft) : Letters → Prop
  | .done d' => d'.markers = d.markers
  | .granted invocation => ∀ r, invocation ≠ .events r
  | .setting d' setting _ => d'.markers = d.markers ∧ setting ≠ .delimiters

/-- Letters leave the markers alone, as there is none for them. -/
theorem keeps_readLetters {read : Letters} (h : readLetters d letters = .ok read) :
    read.Keeps d := by
  induction letters generalizing d with
  | nil =>
    cases h
    rfl
  | cons c letters ih =>
    rw [readLetters] at h
    split at h
    · cases h
    · next setting hflag =>
      cases h
      exact ⟨rfl, ne_delimiters_of_ofLetter? hflag⟩
    · split at h
      · cases h
      · next d' hon =>
        have hrest := ih h
        unfold Letters.Keeps at hrest ⊢
        rwa [markers_turnOn hon] at hrest
      · next invocation hon =>
        cases h
        exact fun r => ne_events_of_turnOn hon

/-- Files leave the markers alone. -/
theorem markers_readFiles (h : readFiles d arguments = .ok (.events r)) :
    r.markers = d.markers := by
  induction arguments generalizing d with
  | nil => exact markers_finish h
  | cons argument arguments ih =>
    rw [readFiles] at h
    cases hfile : d.setFile argument with
    | error e =>
      rw [hfile] at h
      cases h
    | ok d' =>
      rw [hfile] at h
      rw [ih h, markers_setFile hfile]

/-! ## All arguments -/

/-- The markers of a request are those given before arguments were read, and behind them those of
the arguments, pair by pair. -/
def Collects (r : Request) (arguments : List String) : Prop :=
  ∀ d, readArguments d arguments = .ok (.events r) →
    r.markers = d.markers ++ inRow (markerPairs arguments)

/-- Without arguments no markers are given. -/
theorem collects_nil : Collects r [] := by
  intro d h
  rw [readArguments] at h
  rw [markers_finish h]
  exact (List.append_nil _).symm

/-- Where only files follow no markers are given. -/
theorem collects_files (hfiles : Argument.ofString argument = .filesOnly) :
    Collects r (argument :: rest) := by
  intro d h
  rw [readArguments, hfiles] at h
  rw [markers_readFiles h, markerPairs_files hfiles]
  exact (List.append_nil _).symm

/-- A file in front gives no markers. -/
theorem collects_plain (hplain : Argument.ofString argument = .plain text)
    (hrest : Collects r rest) : Collects r (argument :: rest) := by
  intro d h
  rw [readArguments, hplain] at h
  dsimp only at h
  split at h
  · cases h
  · next d' hfile =>
    rw [hrest d' h, markers_setFile hfile, markerPairs_cons (by simp [hplain]) (by simp [hplain])]

/-- An option by its long name: only that of the markers adds to them, with the values behind it. -/
theorem collects_long {attached : Option String}
    (hlong : Argument.ofString argument = .long name attached)
    (hrest : ∀ rest', rest'.length ≤ rest.length → Collects r rest') :
    Collects r (argument :: rest) := by
  have hfiles : Argument.ofString argument ≠ .filesOnly := by simp [hlong]
  intro d h
  rw [readArguments, hlong] at h
  dsimp only at h
  split at h
  · cases h
  · cases h
  · next switch hflag =>
    split at h
    · cases h
    · next d' hon =>
      rw [hrest rest (Nat.le_refl _) d' h, markers_turnOn hon,
        markerPairs_cons hfiles (ne_option_of_ofLong? hlong hflag (by simp))]
    · next invocation hon =>
      cases h
      exact (ne_events_of_turnOn hon rfl).elim
  · next setting value hflag =>
    split at h
    · cases h
    · next d' hset =>
      rw [hrest rest (Nat.le_refl _) d' h, markers_set_one hset,
        markerPairs_cons hfiles (by simp [hlong])]
  · next setting hflag =>
    split at h
    · cases h
    · next taken hle hset =>
      rcases markers_setFrom hset with ⟨hne, hmarkers, hpairs⟩ |
        ⟨rfl, opening, closing, hvalues, hmarkers⟩
      · have hoption := ne_option_of_ofLong? hlong hflag fun heq => hne (Flag.setting.inj heq)
        rw [hrest taken.2 hle taken.1 h, hmarkers, markerPairs_cons hfiles hoption, hpairs]
      · have hpairs : markerPairs (argument :: rest) =
            (opening, closing) :: markerPairs taken.2 := by
          rw [name_of_ofLong? hflag] at hlong
          rw [hvalues]
          exact markerPairs_option hlong opening closing
        rw [hrest taken.2 hle taken.1 h, hmarkers, hpairs, List.append_assoc]
        rfl

/-- Letters do not add to the markers, nor do the values behind the last one. -/
theorem collects_short (hshort : Argument.ofString argument = .short letters)
    (hrest : ∀ rest', rest'.length ≤ rest.length → Collects r rest') :
    Collects r (argument :: rest) := by
  have hpairs : markerPairs (argument :: rest) = markerPairs rest :=
    markerPairs_cons (by simp [hshort]) (by simp [hshort])
  intro d h
  rw [readArguments, hshort] at h
  dsimp only at h
  split at h
  · cases h
  · next d' hletters =>
    have hkeeps : d'.markers = d.markers := keeps_readLetters hletters
    rw [hrest rest (Nat.le_refl _) d' h, hkeeps, hpairs]
  · next invocation hletters =>
    cases h
    exact (keeps_readLetters hletters r rfl).elim
  · next d' setting hletters =>
    obtain ⟨hkeeps, hsetting⟩ := keeps_readLetters hletters
    split at h
    · cases h
    · next taken hle hset =>
      rcases markers_setFrom hset with ⟨-, hmarkers, hvalues⟩ | ⟨heq, -⟩
      · rw [hrest taken.2 hle taken.1 h, hmarkers, hkeeps, hpairs, hvalues]
      · exact (hsetting heq).elim
  · next d' setting c attached hletters =>
    have hkeeps : d'.markers = d.markers := (keeps_readLetters hletters).1
    split at h
    · cases h
    · next d'' hset =>
      rw [hrest rest (Nat.le_refl _) d'' h, markers_set_one hset, hkeeps, hpairs]

/-- Every request collects its markers from its arguments. An option takes values with it, so the
induction is on the number of the arguments. -/
theorem collects (r : Request) (arguments : List String) : Collects r arguments := by
  induction hlength : arguments.length using Nat.strongRecOn generalizing arguments with
  | ind n ih =>
    subst hlength
    cases arguments with
    | nil => exact collects_nil
    | cons argument rest =>
      have hrest : ∀ rest', rest'.length ≤ rest.length → Collects r rest' :=
        fun rest' hle => ih _ (Nat.lt_succ_of_le hle) rest' rfl
      cases hargument : Argument.ofString argument with
      | filesOnly => exact collects_files hargument
      | plain text => exact collects_plain hargument (hrest rest (Nat.le_refl _))
      | long name attached => exact collects_long hargument hrest
      | short letters => exact collects_short hargument hrest

/-- An occurrence of the option of the markers puts its values behind those given before it. -/
theorem readArguments_markers {opening closing : String}
    (hopening : Argument.ofString opening = .plain opening)
    (hclosing : Argument.ofString closing = .plain closing) :
    readArguments d ("--delimiters" :: opening :: closing :: rest) =
      readArguments { d with markers := d.markers ++ [opening, closing] } rest := by
  have htaken : takeValues .delimiters 2 (opening :: closing :: rest) =
      .ok ([opening, closing], rest) := by
    simp only [takeValues, hopening, hclosing]
    rfl
  have hset : setFrom d .delimiters (opening :: closing :: rest) =
      .ok ⟨({ d with markers := d.markers ++ [opening, closing] }, rest),
        length_takeValues_le htaken⟩ := by
    unfold setFrom
    split
    · next herror =>
      cases htaken.symm.trans herror
    · next values rest' htaken' =>
      cases htaken.symm.trans htaken'
      rfl
  have hlong : Argument.ofString "--delimiters" = .long "delimiters" none := by decide
  have hflag : Flag.ofLong? "delimiters" = some (.setting .delimiters) := rfl
  rw [readArguments]
  simp only [hlong, hflag, hset]

/-! ## Runs -/

/-- What a run leaves behind that heeds the pairs of markers it was given: the message that one is
refused, or the events read with one of them, none of them being refused. -/
def Heeds (pairs : List (String × String)) (r : Request) (template : String) (out : Outcome) :
    Prop :=
  (∃ e, out = ⟨1, "", (RunError.delimiters e).message⟩) ∨
    (∀ p ∈ pairs, ∃ ds, Delimiters.ofMarkers p.1 p.2 = .ok ds) ∧
      ∃ p ∈ pairs, ∃ ds, Delimiters.ofMarkers p.1 p.2 = .ok ds ∧
        Shows r template ⟨ds, r.vPre⟩ out

/-- Pairs in a row are twice as many markers. -/
theorem length_inRow (pairs : List (String × String)) :
    (inRow pairs).length = 2 * pairs.length := by
  induction pairs with
  | nil => rfl
  | cons p pairs ih =>
    have hpair : [p.1, p.2].length = 2 := rfl
    rw [inRow, List.flatMap_cons, List.length_append, ← inRow, ih, hpair, List.length_cons]
    omega

/-- Markers that are not a single pair are passed over. -/
theorem options_of_length_ne (h : r.markers.length ≠ 2) : r.options = .ok ⟨.braces, r.vPre⟩ := by
  unfold Request.options
  split
  · next hmarkers =>
    rw [hmarkers] at h
    exact (h rfl).elim
  · rfl

/-- Arguments that give a pair of markers twice which is refused when it is given once. -/
def refusedTwice : List String :=
  ["--template=x", "--delimiters", "<%", "%>", "--delimiters", "<%", "%>"]

/-- A pair that would be refused on its own is collected twice, and not looked at. -/
theorem ofArguments_refusedTwice :
    Invocation.ofArguments refusedTwice =
      .ok (.events ⟨.inline "x", ["<%", "%>", "<%", "%>"], false, .text, false⟩) := by
  have hopening : Argument.ofString "<%" = .plain "<%" := by decide
  have hclosing : Argument.ofString "%>" = .plain "%>" := by decide
  have htemplate : Argument.ofString "--template=x" = .long "template" (some "x") := by decide
  rw [Invocation.ofArguments, refusedTwice, readArguments]
  simp only [htemplate, Flag.ofLong?, Draft.set, Option.isSome_none, Bool.false_eq_true, if_false]
  rw [readArguments_markers hopening hclosing, readArguments_markers hopening hclosing,
    readArguments]
  rfl

/-- A request for the events of a template that can be loaded heeds a single pair of markers, and
the pair alone decides whether it is refused. As soon as there are more pairs, all of them are
passed over: none is checked, and the events are those read with the usual markers, as if there were
no pair. -/
theorem run_of_markers (h : Invocation.ofArguments arguments = .ok (.events r))
    (hload : r.source.load inputs = .ok template) :
    (∀ p, markerPairs arguments = [p] →
      Heeds [p] r template (run inputs arguments) ∧
        ((run inputs arguments).exitCode = 0 ↔
          ∃ ds, Delimiters.ofMarkers p.1 p.2 = .ok ds)) ∧
      ((markerPairs arguments).length ≠ 1 →
        Shows r template ⟨.braces, r.vPre⟩ (run inputs arguments)) := by
  have hmarkers : r.markers = inRow (markerPairs arguments) := collects r arguments {} h
  rw [run_of_accepted h, run_of_load hload]
  constructor
  · rintro ⟨opening, closing⟩ hone
    have hpair : r.markers = [opening, closing] := by
      rw [hmarkers, hone]
      rfl
    rw [Request.options, hpair]
    dsimp only
    cases hchecked : Delimiters.ofMarkers opening closing with
    | error e => exact ⟨Or.inl ⟨e, rfl⟩, iff_of_false nofun nofun⟩
    | ok ds =>
      have hshows := shows_present r template ⟨ds, r.vPre⟩
      have hall : ∀ p ∈ [(opening, closing)], ∃ ds, Delimiters.ofMarkers p.1 p.2 = .ok ds :=
        List.forall_mem_singleton.mpr ⟨ds, hchecked⟩
      exact ⟨Or.inr ⟨hall, _, List.mem_singleton_self _, ds, hchecked, hshows⟩,
        iff_of_true hshows.exit ⟨ds, rfl⟩⟩
  · intro hother
    have hlength : r.markers.length ≠ 2 := by
      rw [hmarkers, length_inRow]
      omega
    rw [options_of_length_ne hlength]
    exact shows_present r template _

/-- One pair is used where two are passed over. -/
theorem run_of_markers_inline :
    Heeds [("[[", "]]")] ⟨.inline "[[x]]", ["[[", "]]"], true, .json, false⟩ "[[x]]"
        (run (.piped "")
          ["--template=[[x]]", "--v-pre", "--delimiters", "[[", "]]", "--format=json"]) ∧
      Shows ⟨.inline "x", ["<%", "%>", "<%", "%>"], false, .text, false⟩ "x" ⟨.braces, false⟩
        (run (.piped "") refusedTwice) := by
  have hone : Invocation.ofArguments
      ["--template=[[x]]", "--v-pre", "--delimiters", "[[", "]]", "--format=json"] =
        .ok (.events ⟨.inline "[[x]]", ["[[", "]]"], true, .json, false⟩) := by
    have htemplate : Argument.ofString "--template=[[x]]" = .long "template" (some "[[x]]") := by
      decide
    have hvPre : Argument.ofString "--v-pre" = .long "v-pre" none := by decide
    have hformat : Argument.ofString "--format=json" = .long "format" (some "json") := by decide
    rw [Invocation.ofArguments, readArguments]
    simp only [htemplate, Flag.ofLong?, Draft.set, Option.isSome_none, Bool.false_eq_true, if_false]
    rw [readArguments]
    simp only [hvPre, Flag.ofLong?, Draft.turnOn, Bool.false_eq_true, if_false]
    rw [readArguments_markers (by decide) (by decide), readArguments]
    simp only [hformat, Flag.ofLong?, Draft.set, Format.ofName?, Option.isSome_none,
      Bool.false_eq_true, if_false]
    rw [readArguments]
    rfl
  exact ⟨((run_of_markers hone rfl).1 _ (by decide)).1,
    (run_of_markers ofArguments_refusedTwice rfl).2 (by decide)⟩

/-- Of several pairs none is heeded, even if each of them is one that is refused alone. -/
theorem not_heeds_refusedTwice :
    Invocation.ofArguments refusedTwice =
        .ok (.events ⟨.inline "x", ["<%", "%>", "<%", "%>"], false, .text, false⟩) ∧
      (Source.inline "x").load (.piped "") = .ok "x" ∧
      markerPairs refusedTwice = [("<%", "%>"), ("<%", "%>")] ∧
      ¬ Heeds (markerPairs refusedTwice)
        ⟨.inline "x", ["<%", "%>", "<%", "%>"], false, .text, false⟩ "x"
        (run (.piped "") refusedTwice) := by
  have hpairs : markerPairs refusedTwice = [("<%", "%>"), ("<%", "%>")] := by decide
  have hrefused : ¬ ∃ ds, Delimiters.ofMarkers "<%" "%>" = .ok ds := by
    rw [Delimiters.ofMarkers_isOk_iff]
    exact fun hmarkers => hmarkers.2.2 (by decide)
  have hexit : (run (.piped "") refusedTwice).exitCode = 0 := by
    rw [run_of_accepted ofArguments_refusedTwice]
    rfl
  refine ⟨ofArguments_refusedTwice, rfl, hpairs, ?_⟩
  rintro (⟨e, hfails⟩ | ⟨hall, -⟩)
  · rw [hfails] at hexit
    cases hexit
  · rw [hpairs] at hall
    exact hrefused (hall _ (List.mem_cons_self ..))

end TemplateLexer.Command
