import TemplateLexer.Proofs.Concatenation
import TemplateLexer.Proofs.Lexeme

/-!
# White space inside tags

Between the parts of a tag, white space can be put in without a change to what is found: the events
behind it move along, and nothing else is different (`parsed_spaces`). Two scans are kept in step,
one of which has read more white space than the other. They differ by the moving of offsets from a
place on (`Scan.relocate`), and not by the moving of all of them (`Scan.shift`), since the end of a
name may still be kept from in front of that place.
-/

set_option autoImplicit false

namespace TemplateLexer

/-! ## Moving offsets from a place on -/

/-- An offset behind bytes put in at a place is moved along, one in front of them is not. -/
def spread (n k x : Nat) : Nat :=
  if x < n then x else x + k

/-- The span with both offsets mapped. -/
def Span.relocate (f : Nat → Nat) (s : Span) : Span :=
  ⟨f s.start, f s.stop⟩

/-- The event with a function applied to all its offsets. -/
def Event.relocate (f : Nat → Nat) : Event → Event
  | .text s => .text (s.relocate f)
  | .interpolation s => .interpolation (s.relocate f)
  | .openTagName s => .openTagName (s.relocate f)
  | .openTagEnd n => .openTagEnd (f n)
  | .selfClosingTag n => .selfClosingTag (f n)
  | .closeTag s => .closeTag (s.relocate f)
  | .attribName s => .attribName (s.relocate f)
  | .attribNameEnd n => .attribNameEnd (f n)
  | .attribData s => .attribData (s.relocate f)
  | .attribEnd quote n => .attribEnd quote (f n)
  | .dirName s shorthand => .dirName (s.relocate f) shorthand
  | .dirArg s => .dirArg (s.relocate f)
  | .dirDynamicArg s => .dirDynamicArg (s.relocate f)
  | .dirModifier s => .dirModifier (s.relocate f)
  | .error code n => .error code (f n)
  | .endOfInput => .endOfInput

/-- The scan with its offsets mapped. -/
def Scan.relocate (f : Nat → Nat) (s : Scan) : Scan :=
  { s with cursor := f s.cursor, sectionStart := s.sectionStart.map f }

/-- The turn with a function applied to all its offsets. -/
def Turn.relocate (f : Nat → Nat) (t : Turn) : Turn :=
  t.map (Scan.relocate f) (Event.relocate f)

/-- The reading with a function applied to all its offsets. -/
def Reading.relocate (f : Nat → Nat) (r : Reading) : Reading :=
  r.map (Scan.relocate f) (Event.relocate f)

variable {d : Dialect} {w bytes : List UInt8} {s : Scan} {c : UInt8} {next : Option UInt8}
  {n k x : Nat} {es : List Event}

/-- An offset in front of the place stays. -/
theorem spread_of_lt (h : x < n) : spread n k x = x :=
  if_pos h

/-- An offset from the place on moves. -/
theorem spread_of_le (h : n ≤ x) : spread n k x = x + k :=
  if_neg (Nat.not_lt.mpr h)

/-- Offsets that have been moved behind a place are moved on with it. -/
theorem spread_add (n k x : Nat) : spread n k (x + n) = x + (n + k) := by
  rw [spread_of_le (Nat.le_add_left n x), Nat.add_assoc]

/-- A span that was moved to the place moves on from there. -/
theorem Span.relocate_shift (s : Span) : (s.shift n).relocate (spread n k) = s.shift (n + k) := by
  simp only [Span.shift, Span.relocate, spread_add]

/-- An event that was moved to the place moves on from there. -/
theorem Event.relocate_shift (e : Event) :
    (e.shift n).relocate (spread n k) = e.shift (n + k) := by
  cases e <;> simp only [Event.shift, Event.relocate, Span.relocate_shift, spread_add]

/-- Events that were moved to the place move on from there. -/
theorem map_relocate_shift (es : List Event) :
    (es.map (Event.shift n)).map (Event.relocate (spread n k)) =
      es.map (Event.shift (n + k)) := by
  rw [List.map_map]
  exact List.map_congr_left fun e _ => e.relocate_shift

/-- A scan that was moved to the place moves on from there. -/
theorem Scan.relocate_shift (s : Scan) : (s.shift n).relocate (spread n k) = s.shift (n + k) := by
  obtain ⟨mode, cursor, sectionStart, matcher, argShape⟩ := s
  cases sectionStart <;> simp [Scan.shift, Scan.relocate, spread_add]

/-- A turn that was moved to the place moves on from there. -/
theorem Turn.relocate_shift (t : Turn) : (t.shift n).relocate (spread n k) = t.shift (n + k) := by
  simp only [Turn.shift, Turn.relocate, Turn.map, Scan.relocate_shift, map_relocate_shift]

/-! ## What is kept from in front of a place -/

/-- The modes behind a name, in which the end of the name is kept. -/
def Mode.keepsNameEnd : Mode → Bool
  | .afterAttrName | .beforeAttrValue => true
  | _ => false

/-- Nothing but the end of a name is kept from in front of a place. -/
structure Recent (n : Nat) (s : Scan) : Prop where
  cursor : n ≤ s.cursor
  start : s.mode.keepsNameEnd = false → ∀ b, s.sectionStart = some b → n ≤ b

namespace Layout

/-- The bytes compared with the opening marker lie behind the start of the text. -/
theorem Underway.opening_le (h : Underway d w s es) (hmode : s.mode = .interpolationOpen) :
    ∃ i, s.sectionStart = some i ∧ i + s.matcher.position ≤ s.cursor := by
  cases h with
  | @interpolationOpen i m k _ _ hi _ _ _ _ => exact ⟨i, rfl, Nat.add_le_add_right hi k⟩
  | _ => cases hmode

end Layout

open Layout

/-- A scan that keeps nothing from in front of a place is one that has been moved there. -/
theorem exists_eq_shift (h : Underway d w s es) (hrecent : Recent n s)
    (hmode : s.mode.keepsNameEnd = false) : ∃ s' : Scan, s'.Exact d ∧ s = s'.shift n := by
  have hexact := h.exact
  have hopening := h.opening_le
  have hcursor := hrecent.cursor
  have hstart := hrecent.start hmode
  obtain ⟨mode, cursor, sectionStart, matcher, argShape⟩ := s
  refine ⟨⟨mode, cursor - n, sectionStart.map (· - n), matcher, argShape⟩,
    ⟨fun b hb => ?_, fun hm => ?_, fun hm => ?_, fun henc => ?_⟩, ?_⟩
  · obtain ⟨i, hi, rfl⟩ := Option.map_eq_some_iff.mp hb
    exact Nat.sub_le_sub_right (hexact.section_le i hi) n
  · obtain ⟨i, hi, hle⟩ := hopening hm
    have hni := hstart i hi
    simp only at hle ⊢
    omega
  · obtain ⟨i, hi, hle⟩ := hexact.closing hm
    have hni := hstart i hi
    refine ⟨i - n, Option.map_eq_some_iff.mpr ⟨i, hi, rfl⟩, ?_⟩
    simp only at hle ⊢
    omega
  · obtain ⟨i, hi, hle⟩ := hexact.brackets henc
    have hni := hstart i hi
    refine ⟨i - n, Option.map_eq_some_iff.mpr ⟨i, hi, rfl⟩, ?_⟩
    simp only at hle ⊢
    omega
  · cases sectionStart with
    | none => simp only [Scan.shift, Option.map_none, Nat.sub_add_cancel hcursor]
    | some b =>
      simp only [Scan.shift, Option.map_some, Nat.sub_add_cancel hcursor,
        Nat.sub_add_cancel (hstart b rfl)]

/-! ## Turns -/

namespace Scan

/-- The start of an attribute moves along, as it stands behind the place. -/
theorem attrStart_relocate (h : n ≤ s.cursor) :
    (s.relocate (spread n k)).attrStart c next =
      (s.attrStart c next).relocate (spread n k) := by
  have hcursor : (s.relocate (spread n k)).cursor = s.cursor + k := spread_of_le h
  simp only [attrStart, hcursor]
  split
  · simp [Turn.relocate, Turn.map, relocate, enter, since, spread_of_le h]
  · split
    · simp [Turn.relocate, Turn.map, relocate, enter, since, Event.relocate, Span.relocate,
        spread_of_le h, spread_of_le (Nat.le_succ_of_le h), Nat.add_right_comm]
    · simp [Turn.relocate, Turn.map, relocate, enter, since, spread_of_le h]

/-- The end of an attribute without a value moves along, or stays if it lies in front of the
place. -/
theorem absentValue_relocate {f : Nat → Nat} :
    (s.relocate f).absentValue = s.absentValue.relocate f := by
  obtain ⟨mode, cursor, sectionStart, matcher, argShape⟩ := s
  cases sectionStart <;> rfl

/-- What follows a name moves along, while the end of the name need not. -/
theorem readAfterAttrName_relocate (h : n ≤ s.cursor) :
    (s.relocate (spread n k)).readAfterAttrName c next =
      (s.readAfterAttrName c next).relocate (spread n k) := by
  simp only [readAfterAttrName, attrStart_relocate h, absentValue_relocate]
  repeat' split
  all_goals rfl

/-- What follows the sign of a value moves along, while the end of the name need not. -/
theorem readBeforeAttrValue_relocate (h : n ≤ s.cursor) :
    (s.relocate (spread n k)).readBeforeAttrValue c =
      (s.readBeforeAttrValue c).relocate (spread n k) := by
  have hcursor : (s.relocate (spread n k)).cursor = s.cursor + k := spread_of_le h
  simp only [readBeforeAttrValue, hcursor]
  repeat' split
  all_goals simp [Turn.relocate, Turn.map, relocate, enter, since, spread_of_le h,
    spread_of_le (Nat.le_succ_of_le h), Nat.add_right_comm]

/-- A turn behind a place where bytes are put in is the same, moved along. -/
theorem turn_relocate (h : Underway d w s es) (hrecent : Recent n s) :
    (s.relocate (spread n k)).turn d c next = (s.turn d c next).relocate (spread n k) := by
  cases hmode : s.mode.keepsNameEnd with
  | false =>
    -- The scan has been moved behind the place, so to move on from there is to be moved further.
    obtain ⟨s', hexact, rfl⟩ := exists_eq_shift h hrecent hmode
    rw [relocate_shift, turn_shift hexact, turn_shift hexact, Turn.relocate_shift]
  | true =>
    have hsame : (s.relocate (spread n k)).mode = s.mode := rfl
    unfold turn
    rw [hsame]
    cases hcase : s.mode with
    | afterAttrName => exact readAfterAttrName_relocate hrecent.cursor
    | beforeAttrValue => exact readBeforeAttrValue_relocate hrecent.cursor
    | _ =>
      rw [hcase] at hmode
      cases hmode

/-- Going on to the next byte leaves the start of what is under way where it is. -/
theorem Turn.sectionStart_onward (t : Turn) : t.onward.sectionStart = t.scan.sectionStart := by
  unfold Turn.onward
  split <;> rfl

/-- What a turn keeps behind a place, it does not keep from in front of it. -/
theorem recent_turn (h : Underway d w s es) (hrecent : Recent n s) :
    Recent n (s.turn d c next).onward := by
  have hcursor : n ≤ (s.turn d c next).onward.cursor := by
    refine Nat.le_trans ?_ (Turn.le_cursor_onward _)
    rw [cursor_turn]
    exact hrecent.cursor
  refine ⟨hcursor, ?_⟩
  rw [Turn.mode_onward, Turn.sectionStart_onward]
  -- Only the two modes that keep the end of a name can hold an offset from in front of the place.
  cases hmode : s.mode.keepsNameEnd with
  | false =>
    obtain ⟨s', hexact, rfl⟩ := exists_eq_shift h hrecent hmode
    rw [turn_shift hexact]
    rintro - b hb
    obtain ⟨i, -, rfl⟩ := Option.map_eq_some_iff.mp hb
    exact Nat.le_add_left n i
  | true =>
    have hle := hrecent.cursor
    unfold turn
    cases hcase : s.mode with
    | afterAttrName =>
      simp only [readAfterAttrName, attrStart]
      repeat' split
      all_goals simp [hcase, enter, closed, since, Mode.keepsNameEnd]
      all_goals omega
    | beforeAttrValue =>
      simp only [readBeforeAttrValue]
      repeat' split
      all_goals simp [hcase, enter, since, Mode.keepsNameEnd]
      all_goals omega
    | _ =>
      rw [hcase] at hmode
      cases hmode

/-! ## Runs -/

/-- A scan that has got somewhere in a template and keeps nothing from in front of a place. -/
structure Behind (d : Dialect) (w : List UInt8) (n : Nat) (s : Scan) (es : List Event) : Prop where
  underway : Underway d w s es
  recent : Recent n s

/-- What is kept in front of the place stays there. -/
theorem Behind.kept (ho : d.opening ≠ []) (hcl : d.closing ≠ []) :
    Kept d w (Behind d w n) := by
  intro s es c h hw
  exact ⟨Underway.kept ho hcl s es c h.underway hw, recent_turn h.underway h.recent⟩

/-- Moving the offsets from a place on commutes with every turn behind that place. -/
theorem mapped_relocate (ho : d.opening ≠ []) (hcl : d.closing ≠ []) (n k : Nat) :
    Mapped d w (Behind d w n) (relocate (spread n k)) (Event.relocate (spread n k)) where
  kept := Behind.kept ho hcl
  mode _ := rfl
  turn _ _ _ _ h := turn_relocate h.underway h.recent
  next s es s' h heq := by
    have hle : n ≤ s'.cursor := heq ▸ h.recent.cursor
    have hnext : spread n k (s'.cursor + 1) = spread n k s'.cursor + 1 := by
      rw [spread_of_le hle, spread_of_le (Nat.le_succ_of_le hle), Nat.add_right_comm]
    simp only [relocate, hnext]

/-- The ending of a template moves along. -/
theorem ending_relocate (h : Behind d w n s es) :
    (s.relocate (spread n k)).ending = s.ending.map (Event.relocate (spread n k)) := by
  cases hmode : s.mode.keepsNameEnd with
  | false =>
    obtain ⟨s', -, rfl⟩ := exists_eq_shift h.underway h.recent hmode
    rw [relocate_shift, ending_shift, ending_shift, map_relocate_shift]
  | true =>
    have hsame : (s.relocate (spread n k)).mode = s.mode := rfl
    unfold ending leftover
    rw [hsame]
    cases hcase : s.mode with
    | afterAttrName | beforeAttrValue => rfl
    | _ =>
      rw [hcase] at hmode
      cases hmode

/-! ## White space -/

end Scan

/-- The modes inside a tag in which white space has no meaning. -/
def Mode.skipsSpace : Mode → Bool
  | .beforeAttrName | .afterAttrName | .beforeAttrValue | .inSelfClosingTag
  | .afterClosingTagName => true
  | _ => false

namespace Scan

/-- White space leaves a mode that skips it as it is. -/
theorem turn_space (h : s.mode.skipsSpace = true) (hc : Byte.isSpace c = true) :
    s.turn d c next = { scan := s } := by
  have hend : c ≠ Byte.tagEnd ∧ c ≠ Byte.slash ∧ c ≠ Byte.equals ∧ c ≠ Byte.doubleQuote ∧
      c ≠ Byte.singleQuote := by
    refine ⟨?_, ?_, ?_, ?_, ?_⟩ <;> rintro rfl <;> cases hc
  obtain ⟨hend, hslash, hequals, hdouble, hsingle⟩ := hend
  unfold turn
  cases hmode : s.mode with
  | beforeAttrName => simp [readBeforeAttrName, hend, hslash, hc]
  | afterAttrName => simp [readAfterAttrName, hend, hslash, hequals, hc]
  | beforeAttrValue => simp [readBeforeAttrValue, hdouble, hsingle, hc]
  | inSelfClosingTag => simp [readInSelfClosingTag, hend, hc]
  | afterClosingTagName => simp [readAfterClosingTagName, hend]
  | _ =>
    rw [hmode] at h
    cases h

/-- White space that has no meaning only moves the cursor. -/
theorem run_spaces (h : s.mode.skipsSpace = true) (hbytes : ∀ c ∈ bytes, Byte.isSpace c = true)
    (next : Option UInt8) :
    s.run d bytes next = .nothing { s with cursor := s.cursor + bytes.length } := by
  induction bytes generalizing s with
  | nil => rfl
  | cons c bytes ih =>
    obtain ⟨hc, hrest⟩ := List.forall_mem_cons.mp hbytes
    have hstep : s.step d c (bytes.head?.or next) =
        .nothing { s with cursor := s.cursor + 1 } := by
      rw [step, settle_of_done (turn_space h hc) rfl]
      simp [Reading.nothing]
    have hmore := ih (s := { s with cursor := s.cursor + 1 }) h hrest
    simp only [run, hstep]
    rw [Reading.nothing_andThen, Reading.nothing, hmore, List.length_cons, Nat.add_right_comm]
    rfl

end Scan

/-! ## Templates -/

namespace Layout

/-- Where white space has no meaning and no end of a name is kept, no part is under way. -/
theorem Underway.sectionStart_eq_none (h : Underway d w s es) (hmode : s.mode.skipsSpace = true)
    (hkeeps : s.mode.keepsNameEnd = false) : s.sectionStart = none := by
  cases h with
  | beforeAttrName => rfl
  | inSelfClosingTag => rfl
  | afterClosingTagName => rfl
  | afterAttrName => cases hkeeps
  | beforeAttrValue => cases hkeeps
  | _ => cases hmode

/-- The end of a name that is kept has been reported. -/
theorem Underway.attribNameEnd_mem (h : Underway d w s es) (hkeeps : s.mode.keepsNameEnd = true) :
    ∃ m, s.sectionStart = some m ∧ .attribNameEnd m ∈ es := by
  cases h with
  | @afterAttrName i m => exact ⟨m, rfl, by simp⟩
  | @beforeAttrValue i m => exact ⟨m, rfl, by simp⟩
  | _ => cases hkeeps

end Layout

/-- The end of a name that has been reported is in front of a byte. -/
theorem lt_of_attribNameEnd_mem {o : Options} {rawText : Bool} {template : String}
    (h : .attribNameEnd x ∈ (o.dialect rawText).events template) :
    x < (utf8Bytes template).length := by
  have hall := (lexemes_events o rawText template).forall_mem
    (P := fun e => ∀ m, e = .attribNameEnd m → m < (utf8Bytes template).length)
    (fun e he m heq => by
      subst heq
      cases he with
      | attribNameEnd hw _ => exact (List.getElem?_eq_some_iff.mp hw).1)
    (fun _ _ _ _ _ _ => nofun) (fun _ _ _ _ => nofun)
  exact hall _ h x rfl

namespace Concatenation

open Lookahead

variable {o : Options} {rawText : Bool} {first spaces second : String}

/-- To a mode that skips white space it does not matter what follows. -/
theorem runBefore_of_skipsSpace
    (hmode : ((o.dialect rawText).run first).scan.mode.skipsSpace = true) (second : String) :
    runBefore (o.dialect rawText) first second = (o.dialect rawText).run first := by
  rcases runBefore_cases (o.dialect rawText) first second with ⟨-, hname, -⟩ | ⟨-, heq⟩
  · rw [hname] at hmode
    cases hmode
  · exact heq

/-- What has been read of the first template lies in front of the place. -/
theorem behind_runBefore
    (hmode : ((o.dialect rawText).run first).scan.mode.skipsSpace = true) (second : String) :
    Scan.Behind (o.dialect rawText) (utf8Bytes (first ++ second)) (utf8Bytes first).length
      ((o.dialect rawText).run first).scan ((o.dialect rawText).run first).events := by
  have hunderway : Underway (o.dialect rawText) (utf8Bytes (first ++ second))
      ((o.dialect rawText).run first).scan ((o.dialect rawText).run first).events := by
    have hstart : Underway (o.dialect rawText) (utf8Bytes (first ++ second)) {} [] := .fresh
    have hkept := Underway.kept (w := utf8Bytes (first ++ second))
      (utf8Bytes_ne_nil o.delimiters.opening_ne_empty)
      (utf8Bytes_ne_nil o.delimiters.closing_ne_empty) (d := o.dialect rawText)
    have hall : (utf8Bytes (first ++ second)).drop 0 = utf8Bytes first ++ utf8Bytes second := by
      rw [List.drop_zero, utf8Bytes_append]
    have hrun := hkept.run hstart hall
    have hbefore := runBefore_of_skipsSpace hmode second
    rw [runBefore] at hbefore
    rwa [hbefore] at hrun
  have hcursor := (o.dialect rawText).cursor_run first
  refine ⟨hunderway, hcursor ▸ Nat.le_refl _, fun hkeeps b hb => ?_⟩
  rw [hunderway.sectionStart_eq_none hmode hkeeps] at hb
  cases hb

/-- What is put in behind a template moves the cursor of its scan, but nothing that the scan has
kept. -/
theorem relocate_run (hmode : ((o.dialect rawText).run first).scan.mode.skipsSpace = true)
    (k : Nat) :
    ((o.dialect rawText).run first).scan.relocate (spread (utf8Bytes first).length k) =
      { ((o.dialect rawText).run first).scan with
        cursor := ((o.dialect rawText).run first).scan.cursor + k } := by
  have hunderway := o.underway_run rawText first
  have hcursor : spread (utf8Bytes first).length k ((o.dialect rawText).run first).scan.cursor =
      ((o.dialect rawText).run first).scan.cursor + k := by
    rw [Dialect.cursor_run]
    exact spread_of_le (Nat.le_refl _)
  have hstart : ((o.dialect rawText).run first).scan.sectionStart.map
      (spread (utf8Bytes first).length k) =
        ((o.dialect rawText).run first).scan.sectionStart := by
    cases hkeeps : ((o.dialect rawText).run first).scan.mode.keepsNameEnd with
    | false => rw [hunderway.sectionStart_eq_none hmode hkeeps, Option.map_none]
    | true =>
      obtain ⟨m, hm, hmem⟩ := hunderway.attribNameEnd_mem hkeeps
      have hlt : m < (utf8Bytes first).length :=
        lt_of_attribNameEnd_mem (List.mem_append_left _ hmem)
      rw [hm, Option.map_some, spread_of_lt hlt]
  rw [Scan.relocate, hcursor, hstart]

/-- Behind a template that ends where white space has no meaning, two runs are the same but for the
white space that one of them has read. -/
theorem run_append_spaces (hmode : ((o.dialect rawText).run first).scan.mode.skipsSpace = true)
    (hspaces : ∀ c ∈ utf8Bytes spaces, Byte.isSpace c = true) (second : String) :
    let f := spread (utf8Bytes first).length (utf8Bytes spaces).length
    ∃ later : Reading,
      (o.dialect rawText).run (first ++ second) = ((o.dialect rawText).run first).andThen later ∧
      (o.dialect rawText).run (first ++ spaces ++ second) =
        ((o.dialect rawText).run first).andThen (later.relocate f) ∧
      (later.scan.relocate f).ending = later.scan.ending.map (Event.relocate f) := by
  intro f
  have ho := utf8Bytes_ne_nil o.delimiters.opening_ne_empty
  have hcl := utf8Bytes_ne_nil o.delimiters.closing_ne_empty
  have hbehind := behind_runBefore hmode second
  have hdrop : (utf8Bytes (first ++ second)).drop ((o.dialect rawText).run first).scan.cursor =
      utf8Bytes second ++ [] := by
    rw [Dialect.cursor_run, utf8Bytes_append, List.drop_left, List.append_nil]
  have hmoved := (Scan.mapped_relocate ho hcl _ (utf8Bytes spaces).length).run hbehind hdrop
  have hlast := (Scan.Behind.kept ho hcl).run hbehind hdrop
  have hskipped := Scan.run_spaces (d := o.dialect rawText) hmode hspaces
    (utf8Bytes second).head?
  refine ⟨((o.dialect rawText).run first).scan.run (o.dialect rawText) (utf8Bytes second) none,
    ?_, ?_, ?_⟩
  · rw [run_append_eq, runBefore_of_skipsSpace hmode]
  · rw [String.append_assoc, run_append_eq, runBefore_of_skipsSpace hmode, utf8Bytes_append,
      Scan.run_append, Option.or_none, hskipped, Reading.nothing_andThen, Reading.nothing,
      ← relocate_run hmode]
    exact congrArg _ hmoved
  · exact Scan.ending_relocate hlast

/-- White space that is put in where it has no meaning changes nothing but the offsets behind it:
what has been reported in front of it stays, what is reported behind it moves along, and mode and
counters at the end of the template are the same. -/
theorem parsed_spaces (o : Options) (rawText : Bool) (first spaces second : String)
    (hmode : (parsed o rawText first).mode.skipsSpace = true)
    (hspaces : ∀ c ∈ utf8Bytes spaces, Byte.isSpace c = true) :
    (∃ later : List Event,
      (parsed o rawText (first ++ second)).sink =
          (((o.dialect rawText).run first).events ++ later).toArray ∧
        (parsed o rawText (first ++ spaces ++ second)).sink =
          (((o.dialect rawText).run first).events ++ later.map (Event.relocate
            (spread (utf8Bytes first).length (utf8Bytes spaces).length))).toArray) ∧
      (parsed o rawText (first ++ spaces ++ second)).mode =
        (parsed o rawText (first ++ second)).mode ∧
      (parsed o rawText (first ++ spaces ++ second)).stats.rereads =
        (parsed o rawText (first ++ second)).stats.rereads ∧
      (parsed o rawText (first ++ spaces ++ second)).stats.transitions =
        (parsed o rawText (first ++ second)).stats.transitions := by
  simp only [parsed_eq, Tokenizer.mode] at hmode ⊢
  obtain ⟨later, hshort, hlong, hending⟩ := run_append_spaces hmode hspaces second
  refine ⟨⟨later.events ++ later.scan.ending, ?_, ?_⟩, ?_, ?_, ?_⟩
  · rw [Dialect.events, hshort]
    simp only [Reading.andThen, List.append_assoc]
  · rw [Dialect.events, hlong]
    simp only [Reading.andThen, Reading.relocate, Reading.map, hending, List.map_append,
      List.append_assoc]
  · rw [hshort, hlong]
    rfl
  · rw [hshort, hlong]
    rfl
  · rw [hshort, hlong]
    rfl

/-- The end of a name is kept across the white space that is put in behind it. -/
theorem parsed_spaces_attr :
    (parsed {} false "<a b ").mode.skipsSpace = true ∧
      (∀ c ∈ utf8Bytes "\t\n", Byte.isSpace c = true) ∧
      (∃ later : List Event,
        (parsed {} false ("<a b " ++ "c=d>")).sink =
            ((Dialect.run (Options.dialect {} false) "<a b ").events ++ later).toArray ∧
          (parsed {} false ("<a b " ++ "\t\n" ++ "c=d>")).sink =
            ((Dialect.run (Options.dialect {} false) "<a b ").events ++ later.map (Event.relocate
              (spread (utf8Bytes "<a b ").length (utf8Bytes "\t\n").length))).toArray) ∧
      (parsed {} false ("<a b " ++ "\t\n" ++ "c=d>")).mode =
        (parsed {} false ("<a b " ++ "c=d>")).mode ∧
      (parsed {} false ("<a b " ++ "\t\n" ++ "c=d>")).stats.rereads =
        (parsed {} false ("<a b " ++ "c=d>")).stats.rereads ∧
      (parsed {} false ("<a b " ++ "\t\n" ++ "c=d>")).stats.transitions =
        (parsed {} false ("<a b " ++ "c=d>")).stats.transitions := by
  have hmode : (parsed {} false "<a b ").mode.skipsSpace = true := by decide +kernel
  have hspaces : ∀ c ∈ utf8Bytes "\t\n", Byte.isSpace c = true := by decide +kernel
  exact ⟨hmode, hspaces, parsed_spaces {} false "<a b " "\t\n" "c=d>" hmode hspaces⟩

end Concatenation

end TemplateLexer
