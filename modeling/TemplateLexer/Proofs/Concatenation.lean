import TemplateLexer.Proofs.Exact
import TemplateLexer.Proofs.Mapping

/-!
# Templates put together

A scan does not know where its template begins: moved to a later place, it makes the same turns,
with every offset moved along (`turn_shift`). A template behind one that leaves nothing under way is
therefore read as if it stood alone (`parsed_append`).
-/

set_option autoImplicit false

namespace TemplateLexer

/-! ## Moving offsets -/

/-- The span with both offsets moved. -/
def Span.shift (k : Nat) (s : Span) : Span :=
  ⟨s.start + k, s.stop + k⟩

/-- The event with all its offsets moved. -/
def Event.shift (k : Nat) : Event → Event
  | .text s => .text (s.shift k)
  | .interpolation s => .interpolation (s.shift k)
  | .openTagName s => .openTagName (s.shift k)
  | .openTagEnd n => .openTagEnd (n + k)
  | .selfClosingTag n => .selfClosingTag (n + k)
  | .closeTag s => .closeTag (s.shift k)
  | .attribName s => .attribName (s.shift k)
  | .attribNameEnd n => .attribNameEnd (n + k)
  | .attribData s => .attribData (s.shift k)
  | .attribEnd quote n => .attribEnd quote (n + k)
  | .dirName s shorthand => .dirName (s.shift k) shorthand
  | .dirArg s => .dirArg (s.shift k)
  | .dirDynamicArg s => .dirDynamicArg (s.shift k)
  | .dirModifier s => .dirModifier (s.shift k)
  | .error code n => .error code (n + k)
  | .endOfInput => .endOfInput

/-- The scan with its offsets moved. What it knows of the bytes stays as it is. -/
def Scan.shift (k : Nat) (s : Scan) : Scan :=
  { s with cursor := s.cursor + k, sectionStart := s.sectionStart.map (· + k) }

/-- The turn with the offsets of its scan and its events moved. -/
def Turn.shift (k : Nat) (t : Turn) : Turn :=
  { t with scan := t.scan.shift k, events := t.events.map (Event.shift k) }

/-- The reading with its offsets moved. Its counters stay as they are. -/
def Reading.shift (k : Nat) (r : Reading) : Reading :=
  { r with scan := r.scan.shift k, events := r.events.map (Event.shift k) }

namespace Scan

variable {d : Dialect} {w : List UInt8} {s : Scan} {c : UInt8} {next : Option UInt8} {k : Nat}
  {es : List Event}

/-! ## What is under way -/

/-- The part under way moves along. -/
theorem pending_shift : (s.shift k).pending = s.pending.shift k := by
  obtain ⟨mode, cursor, sectionStart, matcher, argShape⟩ := s
  cases sectionStart <;> rfl

/-- The text under way moves along, and stays absent if it is. -/
theorem pendingText_shift (stop : Nat) :
    (s.shift k).pendingText (stop + k) = (s.pendingText stop).map (Event.shift k) := by
  obtain ⟨mode, cursor, sectionStart, matcher, argShape⟩ := s
  cases sectionStart with
  | none => simp [pendingText, shift]
  | some i =>
    simp only [pendingText, shift, Option.map_some, Option.getD_some, Nat.add_lt_add_iff_right]
    split <;> rfl

/-- The argument under way moves along, its brackets taken off or not. -/
theorem pendingArg_shift (h : s.Exact d) : (s.shift k).pendingArg = s.pendingArg.shift k := by
  simp only [pendingArg, pending_shift]
  have hshape : (s.shift k).argShape = s.argShape := rfl
  rw [hshape]
  split
  · next henc =>
    obtain ⟨i, hi, hle⟩ := h.brackets henc
    have hstop : s.pending.stop = s.cursor := rfl
    simp only [Event.shift, Span.shift, hstop, Nat.add_right_comm]
    rw [Nat.sub_add_comm (show 1 ≤ s.cursor by omega)]
  · rfl

/-- The end of an attribute without a value moves along. -/
theorem absentValue_shift : (s.shift k).absentValue = s.absentValue.shift k := by
  obtain ⟨mode, cursor, sectionStart, matcher, argShape⟩ := s
  cases sectionStart <;> rfl

/-! ## Turns -/

/-- The end of a name moves along with what stands in front of it. -/
theorem nameEnd_shift (last : List Event) :
    (s.shift k).nameEnd (last.map (Event.shift k)) = (s.nameEnd last).shift k := by
  simp [nameEnd, Turn.shift, shift, enter, since, shaped, Event.shift]

/-- The start of an attribute moves along. -/
theorem attrStart_shift : (s.shift k).attrStart c next = (s.attrStart c next).shift k := by
  simp only [attrStart]
  split
  · rfl
  · split
    · simp [Turn.shift, shift, enter, since, Event.shift, Span.shift, Nat.add_right_comm]
    · rfl

/-- The opening marker moves along. What has been compared of it lies behind the cursor, so the way
back to its first byte does not fall below zero. -/
theorem readInterpolationOpen_shift (h : s.matcher.position ≤ s.cursor) :
    (s.shift k).readInterpolationOpen d c = (s.readInterpolationOpen d c).shift k := by
  have hmatcher : (s.shift k).matcher = s.matcher := rfl
  have hcursor : (s.shift k).cursor = s.cursor + k := rfl
  by_cases hbyte : d.opening[s.matcher.position]? = some c
  · by_cases hlast : s.matcher.position + 1 = d.opening.length
    · have hstart : s.cursor + k + 1 - d.opening.length = s.cursor + 1 - d.opening.length + k := by
        omega
      simp only [readInterpolationOpen, hmatcher, Matcher.step_completed hbyte hlast, hcursor,
        hstart, pendingText_shift]
      rfl
    · simp only [readInterpolationOpen, hmatcher, Matcher.step_advanced hbyte hlast]
      rfl
  · simp only [readInterpolationOpen, hmatcher, Matcher.step_mismatched hbyte]
    rfl

/-- The closing marker moves along, for the same reason. -/
theorem readInterpolationClose_shift
    (h : ∃ i, s.sectionStart = some i ∧ i + d.opening.length + s.matcher.position ≤ s.cursor) :
    (s.shift k).readInterpolationClose d c = (s.readInterpolationClose d c).shift k := by
  obtain ⟨i, hi, hle⟩ := h
  have hmatcher : (s.shift k).matcher = s.matcher := rfl
  have hcursor : (s.shift k).cursor = s.cursor + k := rfl
  have hsection : (s.shift k).sectionStart = some (i + k) := by simp [shift, hi]
  by_cases hbyte : d.closing[s.matcher.position]? = some c
  · by_cases hlast : s.matcher.position + 1 = d.closing.length
    · have hstop : s.cursor + 1 + k - d.closing.length = s.cursor + 1 - d.closing.length + k := by
        omega
      simp only [readInterpolationClose, hmatcher, Matcher.step_completed hbyte hlast, hcursor,
        hsection, hi, Nat.add_right_comm _ k, hstop]
      rfl
    · simp only [readInterpolationClose, hmatcher, Matcher.step_advanced hbyte hlast]
      rfl
  · simp only [readInterpolationClose, hmatcher, Matcher.step_mismatched hbyte]
    rfl

/-- An argument moves along, whatever ends it. -/
theorem readInDirArg_shift (h : s.Exact d) :
    (s.shift k).readInDirArg c = (s.readInDirArg c).shift k := by
  have hshape : (s.shift k).argShape = s.argShape := rfl
  have hcursor : (s.shift k).cursor = s.cursor + k := rfl
  simp only [readInDirArg, pendingArg_shift h, hshape, hcursor, Nat.add_right_comm _ k]
  split
  · exact nameEnd_shift [s.pendingArg]
  · split
    · rfl
    · split <;> rfl

/-- A turn does not depend on the place where it is made. -/
theorem turn_shift (h : s.Exact d) : (s.shift k).turn d c next = (s.turn d c next).shift k := by
  have hcursor : (s.shift k).cursor = s.cursor + k := rfl
  unfold turn
  rw [show (s.shift k).mode = s.mode from rfl]
  cases hmode : s.mode with
  -- The modes that subtract need to know that what they take away lies in front of the cursor.
  | interpolationOpen => exact readInterpolationOpen_shift (h.opening hmode)
  | interpolationClose => exact readInterpolationClose_shift (h.closing hmode)
  | inDirArg => exact readInDirArg_shift h
  | text =>
    simp only [readText, hcursor, pendingText_shift]
    split
    · rfl
    · split <;> rfl
  | beforeAttrName =>
    simp only [readBeforeAttrName, attrStart_shift, hcursor, Nat.add_right_comm _ k]
    repeat' split
    all_goals rfl
  | inAttrName =>
    simp only [readInAttrName, pending_shift]
    split
    · exact nameEnd_shift [.attribName s.pending]
    · rfl
  | inDirName =>
    simp only [readInDirName, pending_shift, hcursor, Nat.add_right_comm _ k]
    split
    · exact nameEnd_shift [.dirName s.pending none]
    · split
      · rfl
      · split <;> rfl
  | inDirDynamicArg =>
    simp only [readInDirDynamicArg, pending_shift, hcursor]
    split
    · rfl
    · split
      · exact nameEnd_shift [.error .missingDynamicArgumentEnd s.cursor, .dirArg s.pending]
      · rfl
  | inDirModifier =>
    simp only [readInDirModifier, pending_shift, hcursor, Nat.add_right_comm _ k]
    split
    · exact nameEnd_shift [.dirModifier s.pending]
    · split <;> rfl
  | afterAttrName =>
    simp only [readAfterAttrName, attrStart_shift, absentValue_shift]
    repeat' split
    all_goals rfl
  | reserved mode => rfl
  | _ =>
    simp only [readInterpolation, readBeforeTagName, readInTagName, readInSelfClosingTag,
      readBeforeClosingTagName, readInClosingTagName, readAfterClosingTagName, readBeforeAttrValue,
      readInQuotedValue, readInBareValue, pending_shift, hcursor, Nat.add_right_comm _ k]
    repeat' split
    all_goals rfl

/-! ## Runs -/

/-- Moving commutes with every turn of a scan that has found what is under way. -/
theorem mapped_shift (ho : d.opening ≠ []) (hcl : d.closing ≠ []) (k : Nat) :
    Mapped d w (Layout.Underway d w) (shift k) (Event.shift k) where
  kept := Layout.Underway.kept ho hcl
  mode _ := rfl
  turn _ _ _ _ h := turn_shift h.exact
  next _ _ s' _ _ := by simp only [shift, Nat.add_right_comm]

/-- A run does not depend on the place where it begins. -/
theorem run_shift {bytes rest : List UInt8} (ho : d.opening ≠ []) (hcl : d.closing ≠ [])
    (h : Layout.Underway d w s es) (hw : w.drop s.cursor = bytes ++ rest) :
    (s.shift k).run d bytes rest.head? = (s.run d bytes rest.head?).shift k :=
  (mapped_shift ho hcl k).run h hw

/-- What is reported at the end is moved along too. -/
theorem ending_shift : (s.shift k).ending = s.ending.map (Event.shift k) := by
  have hcursor : (s.shift k).cursor = s.cursor + k := rfl
  have hstart : (s.shift k).sectionStart.getD (s.cursor + k) =
      s.sectionStart.getD s.cursor + k := by
    obtain ⟨mode, cursor, sectionStart, matcher, argShape⟩ := s
    cases sectionStart <;> rfl
  have hempty : (s.pending.shift k).isEmpty = s.pending.isEmpty := by
    rw [Bool.eq_iff_iff]
    simp [Span.isEmpty, Span.shift]
  have hleft : (s.shift k).leftover = s.leftover.map (Event.shift k) := by
    unfold leftover
    rw [show (s.shift k).mode = s.mode from rfl]
    cases s.mode with
    | text | interpolationOpen | beforeTagName | beforeClosingTagName | reserved mode =>
      exact pendingText_shift s.cursor
    | interpolation | interpolationClose =>
      simp only [hcursor, hstart, pendingText_shift, List.map_cons, Event.shift]
    | inQuotedValue mark =>
      simp only [pending_shift, hempty]
      split <;> rfl
    | inBareValue =>
      simp only [pending_shift, hempty]
      split <;> rfl
    | _ => rfl
  rw [ending, ending, hleft, List.map_append]
  rfl

end Scan

/-! ## Templates -/

namespace Concatenation

open Lookahead

/-- A fresh tokenizer that has read a template. -/
def parsed (o : Options) (rawText : Bool) (template : String) : Tokenizer (Array Event) :=
  ((Tokenizer.new o #[]).setRawText rawText).parse template

variable {o : Options} {rawText : Bool} {first template : String}

/-- A parse is put together from a run over all bytes and its ending. -/
theorem parsed_eq : parsed o rawText template =
    { options := o
      rawText := rawText
      scan := ((o.dialect rawText).run template).scan
      stats := ⟨(utf8Bytes template).length, ((o.dialect rawText).run template).rereads,
        ((o.dialect rawText).run template).transitions,
        ((o.dialect rawText).events template).length⟩
      sink := ((o.dialect rawText).events template).toArray } := by
  rw [parsed, Tokenizer.parse_eq]
  simp [Tokenizer.new, Tokenizer.setRawText, Sink.emitAll_array]

/-- A scan in text that has nothing to report is as fresh as the first one, at its place. -/
theorem eq_shift_of_done {d : Dialect} {w : List UInt8} {s : Scan} {es : List Event}
    (h : Layout.Underway d w s es) (hmode : s.mode = .text)
    (hdone : ∀ i, .text ⟨i, s.cursor⟩ ∉ s.leftover) : s = ({} : Scan).shift s.cursor := by
  cases h with
  | @text i n _ _ hi _ =>
    have hle : ¬ i < n := by
      intro hlt
      apply hdone i
      simp [Scan.leftover, Scan.pendingText, hlt]
    obtain rfl : i = n := by omega
    simp [Scan.shift]
  | _ => cases hmode

/-- The run over a template that leaves nothing under way, with the run over what follows it. -/
theorem run_append_of_done (second : String)
    (hmode : ((o.dialect rawText).run first).scan.mode = .text)
    (hdone : ∀ i, .text ⟨i, (utf8Bytes first).length⟩ ∉ (o.dialect rawText).events first) :
    ((o.dialect rawText).run first).scan.ending = [.endOfInput] ∧
      (o.dialect rawText).run (first ++ second) = ((o.dialect rawText).run first).andThen
        (((o.dialect rawText).run second).shift (utf8Bytes first).length) := by
  have ho := utf8Bytes_ne_nil o.delimiters.opening_ne_empty
  have hcl := utf8Bytes_ne_nil o.delimiters.closing_ne_empty
  have hcursor := (o.dialect rawText).cursor_run first
  have hscan : ((o.dialect rawText).run first).scan =
      ({} : Scan).shift (utf8Bytes first).length := by
    rw [← hcursor]
    refine eq_shift_of_done (o.underway_run rawText first) hmode fun i hi => ?_
    rw [hcursor] at hi
    apply hdone i
    simp [Dialect.events, Scan.ending, hi]
  have hbefore : runBefore (o.dialect rawText) first second = (o.dialect rawText).run first := by
    rcases runBefore_cases (o.dialect rawText) first second with ⟨_, hname, _⟩ | ⟨_, heq⟩
    · rw [hmode] at hname
      cases hname
    · exact heq
  have hstart : Layout.Underway (o.dialect rawText) (utf8Bytes second) {} [] := .fresh
  have hall : (utf8Bytes second).drop 0 = utf8Bytes second ++ [] := by simp
  have hrun := Scan.run_shift (k := (utf8Bytes first).length) ho hcl hstart hall
  constructor
  · rw [hscan, Scan.ending_shift]
    rfl
  · rw [run_append_eq, hbefore, hscan]
    exact congrArg _ hrun

/-- A template behind one that leaves nothing under way is read as if it stood alone: its events
follow those of the first one, with their offsets moved, and the counters add up. -/
theorem parsed_append (o : Options) (rawText : Bool) (first second : String)
    (hmode : (parsed o rawText first).mode = .text)
    (hdone : ∀ i, .text ⟨i, (utf8Bytes first).length⟩ ∉ (parsed o rawText first).sink) :
    (∃ es, (parsed o rawText first).sink = es.push .endOfInput ∧
        (parsed o rawText (first ++ second)).sink =
          es ++ (parsed o rawText second).sink.map (Event.shift (utf8Bytes first).length)) ∧
      (parsed o rawText (first ++ second)).mode = (parsed o rawText second).mode ∧
      (parsed o rawText (first ++ second)).stats.steps =
        (parsed o rawText first).stats.steps + (parsed o rawText second).stats.steps ∧
      (parsed o rawText (first ++ second)).stats.rereads =
        (parsed o rawText first).stats.rereads + (parsed o rawText second).stats.rereads ∧
      (parsed o rawText (first ++ second)).stats.transitions =
        (parsed o rawText first).stats.transitions +
          (parsed o rawText second).stats.transitions := by
  simp only [parsed_eq, Tokenizer.mode, List.mem_toArray] at hmode hdone ⊢
  obtain ⟨hending, hrun⟩ := run_append_of_done second hmode hdone
  have hevents : (o.dialect rawText).events (first ++ second) =
      ((o.dialect rawText).run first).events ++
        ((o.dialect rawText).events second).map (Event.shift (utf8Bytes first).length) := by
    rw [Dialect.events, hrun]
    simp only [Reading.andThen, Reading.shift, Scan.ending_shift, Dialect.events, List.map_append,
      List.append_assoc]
  refine ⟨⟨((o.dialect rawText).run first).events.toArray, ?_, ?_⟩, ?_, ?_, ?_, ?_⟩
  · rw [Dialect.events, hending]
    simp
  · rw [hevents]
    simp
  · rw [hrun]
    rfl
  · rw [utf8Bytes_append, List.length_append]
  · rw [hrun]
    rfl
  · rw [hrun]
    rfl

/-- The first template ends with a tag here, and the second one is left unfinished. -/
theorem parsed_append_tag :
    (parsed {} false "<a v-b>").mode = .text ∧
      (∀ i, .text ⟨i, (utf8Bytes "<a v-b>").length⟩ ∉ (parsed {} false "<a v-b>").sink) ∧
      (∃ es, (parsed {} false "<a v-b>").sink = es.push .endOfInput ∧
        (parsed {} false ("<a v-b>" ++ "x</a")).sink =
          es ++ (parsed {} false "x</a").sink.map
            (Event.shift (utf8Bytes "<a v-b>").length)) ∧
      (parsed {} false ("<a v-b>" ++ "x</a")).mode = (parsed {} false "x</a").mode ∧
      (parsed {} false ("<a v-b>" ++ "x</a")).stats.steps =
        (parsed {} false "<a v-b>").stats.steps + (parsed {} false "x</a").stats.steps ∧
      (parsed {} false ("<a v-b>" ++ "x</a")).stats.rereads =
        (parsed {} false "<a v-b>").stats.rereads + (parsed {} false "x</a").stats.rereads ∧
      (parsed {} false ("<a v-b>" ++ "x</a")).stats.transitions =
        (parsed {} false "<a v-b>").stats.transitions +
          (parsed {} false "x</a").stats.transitions := by
  have hevents : (parsed {} false "<a v-b>").sink =
      #[.openTagName ⟨1, 2⟩, .dirName ⟨3, 6⟩ none, .attribNameEnd 6, .attribEnd .absent 6,
        .openTagEnd 6, .endOfInput] := by decide +kernel
  have hmode : (parsed {} false "<a v-b>").mode = .text := by decide +kernel
  have hdone : ∀ i, .text ⟨i, (utf8Bytes "<a v-b>").length⟩ ∉
      (parsed {} false "<a v-b>").sink := by
    intro i
    rw [hevents]
    simp
  exact ⟨hmode, hdone, parsed_append {} false "<a v-b>" "x</a" hmode hdone⟩

end Concatenation

end TemplateLexer
