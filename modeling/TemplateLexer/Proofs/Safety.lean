import TemplateLexer.Proofs.Exact
import TemplateLexer.Proofs.Lexeme
import TemplateLexer.Scan.Checked

/-!
# Safety

No difference that a scan computes falls below zero and no span that it puts together is reversed:
the checked scan of a template meets no fault and finds the events that the scan finds. Every span
found names a part of the template, so the text of an event can always be asked for (`events_safe`).
-/

set_option autoImplicit false

namespace TemplateLexer

open Layout

variable {d : Dialect} {w : List UInt8} {s : Scan} {es : List Event} {c : UInt8}
  {next : Option UInt8} {e : Event} {span : Span}

/-! ## The spans of lexemes -/

/-- A span is in order and begins and ends at seams. -/
structure Span.Cut (d : Dialect) (w : List UInt8) (span : Span) : Prop where
  le : span.start ≤ span.stop
  start : Seam d w span.start
  stop : Seam d w span.stop

/-- The name of a tag can be cut out: a letter begins it, and a seam ends it. -/
theorem cut_of_tagName {a b : Nat} (h : TagName w a b) (hb : Seam d w b) :
    Span.Cut d w ⟨a, b⟩ := by
  obtain ⟨c, hc, hletter⟩ := h.letter
  exact ⟨Nat.le_of_succ_le h.rest.le, .front hc (Byte.lt_of_isTagStart hletter), hb⟩

/-- The span of a lexeme can be cut out. -/
theorem Lexeme.cut (h : Lexeme d w e) (hspan : e.span? = some span) : span.Cut d w := by
  cases h
  case text hlt hi hj =>
    obtain rfl := Option.some.inj hspan
    exact ⟨Nat.le_of_lt hlt, hi, hj⟩
  case interpolation hin hle hclose =>
    obtain rfl := Option.some.inj hspan
    exact ⟨hle, .behindMarker .opening hin.marker, .marker .closing hclose⟩
  case openTagName hname hb | closeTag hname hb =>
    obtain rfl := Option.some.inj hspan
    exact cut_of_tagName hname hb
  case attribName hi hname hn =>
    obtain rfl := Option.some.inj hspan
    exact ⟨Nat.le_of_succ_le hname.rest.le, hi, hn⟩
  case longName hname hj =>
    obtain rfl := Option.some.inj hspan
    exact ⟨Nat.le_of_add_right_le hname.two_le, .front hname.letter (by decide), hj⟩
  case sigil s hw =>
    obtain rfl := Option.some.inj hspan
    exact ⟨Nat.le_succ _, .front hw (sigil_lt s), .behind hw (sigil_lt s)⟩
  case dirArg s hsigil harg _ hk =>
    obtain rfl := Option.some.inj hspan
    exact ⟨harg.le, .behind hsigil (sigil_lt s), hk⟩
  case dirDynamicArg harg henc =>
    obtain rfl := Option.some.inj hspan
    obtain ⟨htwo, hopen, hclose⟩ := henc
    exact ⟨Nat.le_sub_of_add_le htwo, .behind hopen (by decide), .front hclose (by decide)⟩
  case dirModifier hdot hmod hk =>
    obtain rfl := Option.some.inj hspan
    exact ⟨hmod.le, .behind hdot (by decide), hk⟩
  all_goals cases hspan

/-- All spans of a row of lexemes can be cut out, those of values included. -/
theorem Lexemes.cut (h : Lexemes d w es) :
    ∀ e ∈ es, ∀ span, e.span? = some span → span.Cut d w := by
  refine h.forall_mem (fun e he span => he.cut) ?_ (fun _ _ _ => nofun)
  rintro v stop hle hv hstop span hspan
  obtain rfl := Option.some.inj hspan
  exact ⟨hle, hv, hstop⟩

/-! ## Turns -/

/-- The check of lexemes finds no fault. -/
theorem checkEvents_eq (h : Lexemes d w es) : checkEvents es = .ok es := by
  have hcut := h.cut
  have hforM : es.forM Event.check = .ok () := by
    clear h
    induction es with
    | nil => rfl
    | cons e es ih =>
      obtain ⟨he, hes⟩ := List.forall_mem_cons.mp hcut
      have hcheck : e.check = .ok () := by
        unfold Event.check
        split
        · rfl
        · next span hspan =>
          exact map_eq_ok_iff.mpr ⟨span, checked_eq_ok_iff.mpr ⟨(he span hspan).le, rfl⟩, rfl⟩
      exact bind_eq_ok_iff.mpr ⟨(), hcheck, ih hes⟩
  exact map_eq_ok_iff.mpr ⟨(), hforM, rfl⟩

namespace Scan

/-- The part under way does not end in front of its start. -/
theorem checkedPending_eq (h : s.Exact d) : s.checkedPending = .ok s.pending := by
  refine checked_eq_ok_iff.mpr ⟨?_, rfl⟩
  cases hstart : s.sectionStart with
  | none => exact Nat.le_refl _
  | some i => exact h.section_le i hstart

/-- The argument under way has room for the brackets taken off. -/
theorem checkedPendingArg_eq (h : s.Exact d) : s.checkedPendingArg = .ok s.pendingArg := by
  refine bind_eq_ok_iff.mpr ⟨_, checkedPending_eq h, ?_⟩
  split
  · next hshape =>
    obtain ⟨i, hi, hle⟩ := h.brackets hshape
    have hstart : s.pending.start = i := by simp [pending, hi]
    have hstop : s.pending.stop = s.cursor := rfl
    have hsub : checkedSub s.pending.stop 1 = .ok (s.pending.stop - 1) :=
      checkedSub_eq_ok_iff.mpr ⟨by omega, rfl⟩
    have hspan : Span.checked (s.pending.start + 1) (s.pending.stop - 1) =
        .ok ⟨s.pending.start + 1, s.pending.stop - 1⟩ :=
      checked_eq_ok_iff.mpr ⟨by omega, rfl⟩
    refine bind_eq_ok_iff.mpr ⟨_, hsub, bind_eq_ok_iff.mpr ⟨_, hspan, ?_⟩⟩
    simp only [pendingArg, if_pos hshape]
    rfl
  · next hshape =>
    simp only [pendingArg, if_neg hshape]
    rfl

/-- The first byte of the opening marker lies in the template, and the text ends there. -/
theorem checkedInterpolationOpen_eq (h : s.Exact d) (hmode : s.mode = .interpolationOpen)
    (hes : Lexemes d w (s.readInterpolationOpen d c).events) :
    s.checkedInterpolationOpen d c = .ok (s.readInterpolationOpen d c) := by
  unfold checkedInterpolationOpen
  split
  · next m hstep =>
    have hlen := Matcher.length_of_completed hstep
    have hle := h.opening hmode
    simp only [readInterpolationOpen, hstep] at hes ⊢
    refine bind_eq_ok_iff.mpr ⟨_, checkedSub_eq_ok_iff.mpr ⟨by omega, rfl⟩, ?_⟩
    exact bind_eq_ok_iff.mpr ⟨_, checkEvents_eq hes, rfl⟩
  · rfl

/-- The first byte of the closing marker lies behind the opening one. -/
theorem checkedInterpolationClose_eq (h : s.Exact d) (hmode : s.mode = .interpolationClose) :
    s.checkedInterpolationClose d c = .ok (s.readInterpolationClose d c) := by
  unfold checkedInterpolationClose
  split
  · next m hstep =>
    have hlen := Matcher.length_of_completed hstep
    obtain ⟨i, hi, hle⟩ := h.closing hmode
    simp only [readInterpolationClose, hstep, hi]
    refine bind_eq_ok_iff.mpr ⟨_, checkedSub_eq_ok_iff.mpr ⟨by omega, rfl⟩, ?_⟩
    exact bind_eq_ok_iff.mpr ⟨_, checked_eq_ok_iff.mpr ⟨by omega, rfl⟩, rfl⟩
  · rfl

/-- An argument is reported without a fault, whatever ends it. -/
theorem checkedInDirArg_eq (h : s.Exact d) : s.checkedInDirArg c = .ok (s.readInDirArg c) := by
  unfold checkedInDirArg
  split
  · next hend =>
    simp only [readInDirArg, if_pos hend]
    exact map_eq_ok_iff.mpr ⟨_, checkedPendingArg_eq h, rfl⟩
  · next hend =>
    split
    · next hdot =>
      subst hdot
      simp only [readInDirArg, if_neg hend]
      exact map_eq_ok_iff.mpr ⟨_, checkedPendingArg_eq h, rfl⟩
    · rfl

/-- A turn whose differences are exact and whose events are lexemes is made without a fault. -/
theorem checkedTurn_eq (h : s.Exact d) (hes : Lexemes d w (s.turn d c next).events) :
    s.checkedTurn d c next = .ok (s.turn d c next) := by
  obtain ⟨mode, cursor, sectionStart, matcher, argShape⟩ := s
  cases mode
  case interpolationOpen => exact checkedInterpolationOpen_eq h rfl hes
  case interpolationClose => exact checkedInterpolationClose_eq h rfl
  case inDirArg => exact checkedInDirArg_eq h
  all_goals
    simp only [checkedTurn]
    exact map_eq_ok_iff.mpr ⟨_, checkEvents_eq hes, rfl⟩

/-! ## Runs -/

/-- A checked reading begins with its first turn, if that is without a fault. -/
theorem checkedSettle_of_turn {t : Turn} (h : s.checkedTurn d c next = .ok t) :
    s.checkedSettle d c next =
      if t.again = true then
        (t.scan.checkedSettle d c next).map fun r =>
          ⟨r.scan, t.events ++ r.events, r.rereads + 1,
            r.transitions + if t.scan.mode = s.mode then 0 else 1⟩
      else .ok ⟨t.scan, t.events, 0, if t.scan.mode = s.mode then 0 else 1⟩ := by
  rw [checkedSettle]
  split
  · next fault hfault =>
    rw [h] at hfault
    cases hfault
  · next t' hturn =>
    obtain rfl := Except.ok.inj (h.symm.trans hturn)
    split <;> rfl

/-- A byte is read without a fault. -/
theorem checkedSettle_eq (hkept : Kept d w (Sound d w)) (s : Scan) (c : UInt8)
    (next : Option UInt8) : ∀ es, Sound d w s es → w[s.cursor]? = some c →
      next = w[s.cursor + 1]? → s.checkedSettle d c next = .ok (s.settle d c next) := by
  -- A turn that hands its byte over leaves the scan sound in front of the same byte.
  fun_induction Scan.settle d s c next with
  | case1 s t moved again r ih =>
    intro es hs hc hnext
    have hturn : s.checkedTurn d c next = .ok t :=
      checkedTurn_eq hs.underway.exact (hs.finds hc next).lexemes
    have hcursor : t.scan.cursor = s.cursor := cursor_turn d s c next
    have hsound := hkept s es c hs hc
    rw [← hnext, Turn.onward, if_pos again] at hsound
    have hrest := ih _ hsound (by rw [hcursor]; exact hc) (by rw [hcursor]; exact hnext)
    rw [checkedSettle_of_turn hturn, if_pos again, hrest]
    rfl
  | case2 s t moved done =>
    intro es hs hc hnext
    have hturn : s.checkedTurn d c next = .ok t :=
      checkedTurn_eq hs.underway.exact (hs.finds hc next).lexemes
    rw [checkedSettle_of_turn hturn, if_neg done]
    rfl

/-- A run over any part of an input meets no fault. -/
theorem checkedRun_eq (hkept : Kept d w (Sound d w)) {bytes rest : List UInt8}
    (hs : Sound d w s es) (hw : w.drop s.cursor = bytes ++ rest) :
    s.checkedRun d bytes rest.head? = .ok (s.run d bytes rest.head?) := by
  induction bytes generalizing s es with
  | nil => rfl
  | cons c bytes ih =>
    obtain ⟨hc, hnext, hdrop⟩ := ahead_of_drop hw
    have hsettle := checkedSettle_eq hkept s c _ es hs hc hnext.symm
    have hstep : s.checkedStep d c (bytes.head?.or rest.head?) =
        .ok (s.step d c (bytes.head?.or rest.head?)) :=
      map_eq_ok_iff.mpr ⟨_, hsettle, rfl⟩
    have hsound := hkept.step hs hc
    rw [hnext] at hsound
    have hrest := ih hsound (by rw [cursor_step]; exact hdrop)
    exact bind_eq_ok_iff.mpr ⟨_, hstep, map_eq_ok_iff.mpr ⟨_, hrest, rfl⟩⟩

/-- The ending of a template finds no fault. -/
theorem checkedEnding_eq (hs : Sound d w s es) (hcursor : s.cursor = w.length) :
    s.checkedEnding = .ok s.ending := by
  unfold checkedEnding
  split
  · exact map_eq_ok_iff.mpr ⟨_, checkedPending_eq hs.underway.exact, rfl⟩
  · exact map_eq_ok_iff.mpr ⟨_, checkedPending_eq hs.underway.exact, rfl⟩
  · exact checkEvents_eq (hs.ending hcursor)

end Scan

/-! ## Templates -/

variable {o : Options} {rawText : Bool} {template : String}

/-- A span is in order, reaches no further than a template, and cuts none of its characters. -/
structure Span.Fits (template : String) (span : Span) : Prop where
  le : span.start ≤ span.stop
  stop_le : span.stop ≤ template.utf8ByteSize
  start : CutsAt template span.start
  stop : CutsAt template span.stop

/-- The offsets of an event lie in a template. The end of a name and that of a tag stand at one of
its bytes, the end of an attribute and an error perhaps behind the last one. -/
def Event.Fits (template : String) : Event → Prop
  | .text span | .interpolation span | .openTagName span | .closeTag span | .attribName span
  | .attribData span | .dirName span _ | .dirArg span | .dirDynamicArg span | .dirModifier span =>
    span.Fits template
  | .openTagEnd n | .selfClosingTag n | .attribNameEnd n => n < template.utf8ByteSize
  | .attribEnd _ n | .error _ n => n ≤ template.utf8ByteSize
  | .endOfInput => True

/-- A span that can be cut out of the bytes fits the template. -/
theorem Span.Cut.fits (h : span.Cut (o.dialect rawText) (utf8Bytes template)) :
    span.Fits template := by
  have hstop := h.stop.cutsAt
  refine ⟨h.le, ?_, h.start.cutsAt, hstop⟩
  rw [← length_utf8Bytes]
  exact (cutsAt_iff_exists.mp hstop).1

/-- A lexeme fits its template. -/
theorem Lexeme.fits (h : Lexeme (o.dialect rawText) (utf8Bytes template) e) :
    e.Fits template := by
  have hspan : ∀ span, e.span? = some span → span.Fits template := fun _ hs => (h.cut hs).fits
  have hbyte : ∀ {n : Nat} {c : UInt8}, (utf8Bytes template)[n]? = some c →
      n < template.utf8ByteSize := by
    intro n c hw
    rw [← length_utf8Bytes]
    exact (List.getElem?_eq_some_iff.mp hw).1
  cases h
  case openTagEnd hw | selfClosingTag hw | attribNameEnd hw _ => exact hbyte hw
  case absent hle | error hle =>
    rw [length_utf8Bytes] at hle
    exact hle
  case endOfInput => exact trivial
  all_goals exact hspan _ rfl

/-- The span of an event that fits its template fits it too. -/
theorem Event.Fits.span_fits (h : e.Fits template) (hspan : e.span? = some span) :
    span.Fits template := by
  cases e <;> cases hspan <;> exact h

/-- A span that fits its template gives a text. -/
theorem Span.Fits.exists_slice (h : span.Fits template) :
    ∃ text, (span.slice template).map some = .ok text := by
  obtain ⟨part, hpart⟩ := (slice_isOk_iff span template).mpr ⟨h.le, h.start, h.stop⟩
  exact ⟨some part, by rw [hpart]; rfl⟩

/-- The text of an event that fits can be asked for. -/
theorem Event.Fits.exists_text (h : e.Fits template) : ∃ text, e.text? template = .ok text := by
  unfold Event.text?
  split
  · exact ⟨none, rfl⟩
  · next span hspan => exact (h.span_fits hspan).exists_slice

/-- So can the name of the directive that it announces. -/
theorem Event.Fits.exists_directive (h : e.Fits template) :
    ∃ name, e.directive? template = .ok name := by
  unfold Event.directive?
  split
  · exact ⟨_, rfl⟩
  · exact (h.span_fits rfl).exists_slice
  · exact ⟨none, rfl⟩

/-- The checked scan of a template meets no fault. -/
theorem checkedEvents_eq (o : Options) (rawText : Bool) (template : String) :
    (o.dialect rawText).checkedEvents template = .ok ((o.dialect rawText).events template) := by
  have hkept := Sound.kept (d := o.dialect rawText) (w := utf8Bytes template)
    (utf8Bytes_ne_nil o.delimiters.opening_ne_empty)
    (utf8Bytes_ne_nil o.delimiters.closing_ne_empty)
  have hall : (utf8Bytes template).drop 0 = utf8Bytes template ++ [] := by simp
  have hrun := Scan.checkedRun_eq hkept Sound.fresh hall
  have hending := Scan.checkedEnding_eq (o.sound_run rawText template)
    (Dialect.cursor_run _ template)
  exact bind_eq_ok_iff.mpr ⟨_, hrun, bind_eq_ok_iff.mpr ⟨_, hending, rfl⟩⟩

/-- Every event of a template fits it. -/
theorem fits_of_mem (he : e ∈ (o.dialect rawText).events template) : e.Fits template := by
  refine (lexemes_events o rawText template).forall_mem (fun e he => he.fits) ?_ ?_ e he
  · intro v stop hle hv hstop
    exact Span.Cut.fits ⟨hle, hv, hstop⟩
  · intro quote n hle
    rw [length_utf8Bytes] at hle
    exact hle

/-- The scan of a template meets no fault: no difference of offsets falls below zero and no span is
reversed. All offsets of its events lie in the template and no span cuts a character, so the text
of every event and the name of every directive can be asked for. -/
theorem events_safe (o : Options) (rawText : Bool) (template : String) :
    (o.dialect rawText).checkedEvents template = .ok ((o.dialect rawText).events template) ∧
      ∀ e ∈ (o.dialect rawText).events template,
        e.Fits template ∧ (∃ text, e.text? template = .ok text) ∧
          ∃ name, e.directive? template = .ok name := by
  refine ⟨checkedEvents_eq o rawText template, fun e he => ?_⟩
  have hfits := fits_of_mem he
  exact ⟨hfits, hfits.exists_text, hfits.exists_directive⟩

end TemplateLexer
