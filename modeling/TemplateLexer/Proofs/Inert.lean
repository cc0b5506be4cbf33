import TemplateLexer.Proofs.Concatenation
import TemplateLexer.Proofs.Content
import TemplateLexer.Proofs.Printing.Templates

/-!
# What the markers have no part in

Where markers are read as text, templates are read in the same way whatever the markers are. Where
they are not, a template without an opening marker need not be read as if they were: a comparison
that has begun takes a `<` that the marker goes on with, and the tag behind it is lost. This is all
that can happen, so it is enough to look at the bytes of the opening marker but the last
(`markers_inert`).
-/

set_option autoImplicit false

namespace TemplateLexer

open Layout Marker Concatenation

/-- The modes that have nothing to do with markers. -/
def Mode.isAloof : Mode → Bool
  | .interpolationOpen | .interpolation | .interpolationClose => false
  | _ => true

/-- Two dialects that read markers as text and do not differ in what they make of tags. -/
structure Dialect.Verbatim (d d' : Dialect) : Prop where
  left : d.vPre = true
  right : d'.vPre = true
  tags : d.rawText = d'.rawText

namespace Scan

variable {d d' : Dialect} {w : List UInt8} {s : Scan} {c : UInt8} {next : Option UInt8}
  {es : List Event}

/-! ## Markers read as text -/

/-- Apart from text, a mode that has nothing to do with markers reads a byte in the same way in all
dialects, and leads to such a mode again. -/
theorem turn_of_aloof (d d' : Dialect) (c : UInt8) (next : Option UInt8)
    (h : s.mode.isAloof = true) (htext : s.mode ≠ .text) :
    s.turn d c next = s.turn d' c next ∧ (s.turn d c next).scan.mode.isAloof = true := by
  obtain ⟨mode, cursor, start, matcher, shape⟩ := s
  cases mode
  case interpolationOpen | interpolation | interpolationClose => cases h
  case text => exact (htext rfl).elim
  all_goals
    refine ⟨rfl, ?_⟩
    simp only [turn, readBeforeTagName, readInTagName, readInSelfClosingTag,
      readBeforeClosingTagName, readInClosingTagName, readAfterClosingTagName, readBeforeAttrName,
      readInAttrName, readInDirName, readInDirArg, readInDirDynamicArg, readInDirModifier,
      readAfterAttrName, readBeforeAttrValue, readInQuotedValue, readInBareValue, attrStart]
    repeat' split
    all_goals rfl

/-- Where markers are read as text, turns do not look at them, and lead to no mode that does. -/
theorem turn_verbatim (hd : d.Verbatim d') (c : UInt8) (next : Option UInt8)
    (h : s.mode.isAloof = true) :
    s.turn d c next = s.turn d' c next ∧ (s.turn d c next).scan.mode.isAloof = true := by
  by_cases htext : s.mode = .text
  · have hpre : ¬ (d.vPre = false ∧ d.opening.head? = some c) := fun ho => by
      rw [hd.left] at ho
      cases ho.1
    have hpre' : ¬ (d'.vPre = false ∧ d'.opening.head? = some c) := fun ho => by
      rw [hd.right] at ho
      cases ho.1
    simp only [turn, htext, readText, if_neg hpre, if_neg hpre', hd.tags, true_and]
    split
    · rfl
    · exact h
  · exact turn_of_aloof d d' c next h htext

/-- Where markers are read as text, a byte is read in the same way whatever the markers are. -/
theorem settle_verbatim (hd : d.Verbatim d') (c : UInt8) (next : Option UInt8)
    (h : s.mode.isAloof = true) :
    s.settle d c next = s.settle d' c next ∧ (s.settle d c next).scan.mode.isAloof = true := by
  fun_induction Scan.settle d s c next with
  | case1 s t moved again r ih =>
    obtain ⟨hturn, haloof⟩ := turn_verbatim hd c next h
    obtain ⟨hrest, hmode⟩ := ih haloof
    refine ⟨?_, hmode⟩
    rw [settle_of_again hturn.symm again, ← hrest]
    rfl
  | case2 s t moved done =>
    obtain ⟨hturn, haloof⟩ := turn_verbatim hd c next h
    refine ⟨?_, haloof⟩
    rw [settle_of_done hturn.symm (Bool.not_eq_true _ ▸ done)]
    rfl

/-- Where markers are read as text, runs are the same whatever the markers are. -/
theorem run_verbatim (hd : d.Verbatim d') (bytes : List UInt8) (h : s.mode.isAloof = true) :
    s.run d bytes next = s.run d' bytes next := by
  induction bytes generalizing s with
  | nil => rfl
  | cons c bytes ih =>
    obtain ⟨hsettle, hmode⟩ := settle_verbatim hd c (bytes.head?.or next) h
    have hstep : s.step d c (bytes.head?.or next) = s.step d' c (bytes.head?.or next) := by
      rw [step, step, hsettle]
    have haloof : (s.step d c (bytes.head?.or next)).scan.mode.isAloof = true := hmode
    simp only [run, ← hstep, ih haloof]

/-! ## Markers that never stand in the template -/

/-- The scan as it would be if it had not begun to compare the opening marker. -/
def heedless (s : Scan) : Scan :=
  if s.mode = .interpolationOpen then (s.enter .text).matching .idle else s

/-- Only the comparison with the opening marker is forgotten. -/
theorem heedless_of_ne (h : s.mode ≠ .interpolationOpen) : s.heedless = s :=
  if_neg h

/-- Where markers are read as text, text goes on but for the opening of a tag. -/
theorem turn_text_of_vPre {i n : Nat} (hpre : d.vPre = true)
    (hc : ¬ (c = Byte.tagOpen ∧ d.rawText = false)) :
    turn d ⟨.text, n, some i, .idle, .empty⟩ c next =
      ⟨⟨.text, n, some i, .idle, .empty⟩, [], false⟩ := by
  have hopen : ¬ (d.vPre = false ∧ d.opening.head? = some c) := fun ho => by
    rw [hpre] at ho
    cases ho.1
  simp only [turn, readText, if_neg hc, if_neg hopen]

/-- In a mode that does not look at markers, a turn is the same without them. -/
theorem leads_heedless_of_aloof (h : s.mode.isAloof = true) (htext : s.mode ≠ .text)
    (hw : w[s.cursor]? = some c) :
    Leads d' w s.heedless (s.turn d c w[s.cursor + 1]?).events
      (s.turn d c w[s.cursor + 1]?).onward.heedless := by
  obtain ⟨hturn, hmode⟩ := turn_of_aloof d d' c w[s.cursor + 1]? h htext
  have hs : s.mode ≠ .interpolationOpen := by
    intro heq
    rw [heq] at h
    cases h
  have honward : (s.turn d c w[s.cursor + 1]?).onward.mode ≠ .interpolationOpen := by
    intro heq
    rw [← Turn.mode_onward, heq] at hmode
    cases hmode
  rw [heedless_of_ne hs, heedless_of_ne honward]
  exact .one hw hturn.symm

/-- In text, a turn is the same without markers, unless it only begins a comparison. -/
theorem leads_heedless_text {i n : Nat} (hpre : d'.vPre = true) (htags : d.rawText = d'.rawText)
    (hw : w[n]? = some c) :
    Leads d' w ⟨.text, n, some i, .idle, .empty⟩
      (readText d ⟨.text, n, some i, .idle, .empty⟩ c).events
      (readText d ⟨.text, n, some i, .idle, .empty⟩ c).onward.heedless := by
  unfold readText
  split
  · next htag =>
    have hturn : turn d' ⟨.text, n, some i, .idle, .empty⟩ c w[n + 1]? =
        ⟨⟨.beforeTagName, n, some n, .idle, .empty⟩,
          pendingText ⟨.text, n, some i, .idle, .empty⟩ n, false⟩ := by
      simp only [turn, readText, if_pos (htags ▸ htag)]
      rfl
    exact .one hw hturn
  · next htag =>
    split
    · exact .refl _
    · exact .one hw (turn_text_of_vPre hpre (htags ▸ htag))

/-- The bytes compared with an opening marker that is never complete are text, as long as the marker
does not go on with a `<`. -/
theorem leads_heedless_open {i m k : Nat} (hpre : d'.vPre = true)
    (hlast : Byte.tagOpen ∉ d.opening.dropLast) (habsent : ∀ p, ¬ OccursAt d.opening w p)
    (hk : k < d.opening.length) (hmatch : OccursAt (d.opening.take k) w m)
    (hw : w[m + k]? = some c) :
    Leads d' w ⟨.text, m + k, some i, .idle, .empty⟩
      (readInterpolationOpen d ⟨.interpolationOpen, m + k, some i, ⟨some k⟩, .empty⟩ c).events
      (readInterpolationOpen d ⟨.interpolationOpen, m + k, some i, ⟨some k⟩, .empty⟩
        c).onward.heedless := by
  by_cases hbyte : d.opening[k]? = some c
  · have hmore := hmatch.take_succ hbyte hw
    by_cases hend : k + 1 = d.opening.length
    · rw [hend, List.take_length] at hmore
      exact (habsent m hmore).elim
    · have hc : c ≠ Byte.tagOpen := by
        rintro rfl
        apply hlast
        apply List.mem_of_getElem? (i := k)
        rw [List.getElem?_dropLast, if_pos (by omega)]
        exact hbyte
      simp only [readInterpolationOpen, Matcher.step_advanced (m := ⟨some k⟩) hbyte hend]
      exact Leads.one (s := ⟨.text, m + k, some i, .idle, .empty⟩) hw
        (turn_text_of_vPre hpre fun htag => hc htag.1)
  · simp only [readInterpolationOpen, Matcher.step_mismatched (m := ⟨some k⟩) hbyte]
    exact .refl _

/-- A template without an opening marker is read as if markers were text, turn by turn, but for the
comparisons, which have no counterpart there. -/
theorem leads_heedless (hpre : d'.vPre = true) (htags : d.rawText = d'.rawText)
    (hlast : Byte.tagOpen ∉ d.opening.dropLast) (habsent : ∀ p, ¬ OccursAt d.opening w p)
    (h : Underway d w s es) (hw : w[s.cursor]? = some c) :
    Leads d' w s.heedless (s.turn d c w[s.cursor + 1]?).events
      (s.turn d c w[s.cursor + 1]?).onward.heedless := by
  cases h with
  | text _ _ _ => exact leads_heedless_text hpre htags hw
  | interpolationOpen _ _ _ _ hk hmatch =>
    exact leads_heedless_open hpre hlast habsent hk hmatch hw
  | interpolation _ hin _ _ => exact (habsent _ hin.marker).elim
  | interpolationClose _ hin _ _ _ _ => exact (habsent _ hin.marker).elim
  | _ => exact leads_heedless_of_aloof rfl (by simp) hw

/-- An unfinished comparison with the opening marker ends as text. -/
theorem ending_heedless : s.heedless.ending = s.ending := by
  unfold heedless
  split
  · next hmode =>
    simp only [ending, leftover, hmode, enter, matching]
    rfl
  · rfl

end Scan

/-! ## Templates -/

section

variable {ds : Delimiters} {template : String}

/-- A template without an opening marker is read as if markers were text, if the opening marker can
take no `<` before it is complete. -/
theorem events_of_absent (hlast : Byte.tagOpen ∉ (utf8Bytes ds.opening).dropLast)
    (habsent : ∀ p, ¬ OccursAt (utf8Bytes ds.opening) (utf8Bytes template) p) :
    (Options.dialect ⟨ds, false⟩ false).events template =
      (Options.dialect ⟨ds, true⟩ false).events template := by
  let d := Options.dialect ⟨ds, false⟩ false
  let d' := Options.dialect ⟨ds, true⟩ false
  have hkept : Scan.Kept d (utf8Bytes template) fun s es =>
      Underway d (utf8Bytes template) s es ∧
        Scan.Leads d' (utf8Bytes template) {} es s.heedless := by
    rintro s es c ⟨hunder, hpath⟩ hw
    have hnext : Scan.Leads d' (utf8Bytes template) s.heedless
        (s.turn d c (utf8Bytes template)[s.cursor + 1]?).events
        (s.turn d c (utf8Bytes template)[s.cursor + 1]?).onward.heedless :=
      Scan.leads_heedless rfl rfl hlast habsent hunder hw
    refine ⟨Underway.kept ?_ ?_ s es c hunder hw, hpath.trans hnext⟩
    · exact utf8Bytes_ne_nil ds.opening_ne_empty
    · exact utf8Bytes_ne_nil ds.closing_ne_empty
  have hrun := Dialect.run_of_kept hkept ⟨.fresh, .refl _⟩
  have hcursor : (d.run template).scan.heedless.cursor = (utf8Bytes template).length := by
    rw [← d.cursor_run template]
    unfold Scan.heedless
    split <;> rfl
  have hevents := hrun.2.events_eq
  rw [Scan.finish_of_length_le (Nat.le_of_eq hcursor.symm)] at hevents
  refine Eq.trans ?_ hevents.symm
  simp only [Reading.nothing, List.nil_append, Scan.ending_heedless]
  rfl

/-- A template that ends in the middle of an opening marker is one text. -/
theorem events_of_partial {k : Nat} (hk : k < (utf8Bytes ds.opening).length) (hpos : 0 < k)
    (htemplate : utf8Bytes template = (utf8Bytes ds.opening).take k) :
    (Options.dialect ⟨ds, false⟩ false).events template = [.text ⟨0, k⟩, .endOfInput] := by
  let d := Options.dialect ⟨ds, false⟩ false
  have hlen : (utf8Bytes template).length = k := by
    rw [htemplate, List.length_take, Nat.min_eq_left (Nat.le_of_lt hk)]
  have hfirst : (utf8Bytes template)[0]? = (utf8Bytes ds.opening)[0]? := by
    rw [htemplate, List.getElem?_take, if_pos hpos]
  have hocc : OccursAt ((utf8Bytes ds.opening).take k) (utf8Bytes template) 0 := by
    rw [htemplate]
    exact List.prefix_refl _
  have hseeks : ∀ c, (d.marker .opening).head? = some c → d.Seeks c .opening := by
    intro c hc
    refine ⟨rfl, fun htag => Printing.head?_utf8Bytes_ne ds.opening_not_tag ?_⟩
    rw [← htag.1]
    exact hc
  have hpath := Scan.leads_compared (d := d) (i := 0) .opening hk hfirst hocc hseeks
  refine hpath.events_eq.trans ?_
  rw [Scan.finish_of_length_le (by simp [hlen])]
  simp [Reading.nothing, Scan.ending, Scan.leftover, Side.comparing, Scan.pendingText, hpos]

/-- An opening marker that can take a `<` before it is complete hides a `<` in some template. -/
theorem exists_events_ne (hmem : Byte.tagOpen ∈ (utf8Bytes ds.opening).dropLast) :
    ∃ template, (∀ p, ¬ OccursAt (utf8Bytes ds.opening) (utf8Bytes template) p) ∧
      (Options.dialect ⟨ds, false⟩ false).events template ≠
        (Options.dialect ⟨ds, true⟩ false).events template := by
  obtain ⟨p, hp⟩ := List.mem_iff_getElem?.mp hmem
  rw [List.getElem?_dropLast] at hp
  have hlt : p < (utf8Bytes ds.opening).length - 1 := by
    by_contra hge
    rw [if_neg hge] at hp
    cases hp
  rw [if_pos hlt] at hp
  have hpos : 0 < p := by
    rcases Nat.eq_zero_or_pos p with rfl | hpos
    · rw [← List.head?_eq_getElem?] at hp
      exact (Printing.head?_utf8Bytes_ne ds.opening_not_tag hp).elim
    · exact hpos
  -- The template ends behind the `<` of its incomplete marker.
  have hcut : Span.CutsAt ds.opening (p + 1) :=
    (Seam.behind (d := Options.dialect ⟨ds, false⟩ false) hp (by decide)).cutsAt
  obtain ⟨hle, template, htemplate⟩ := Span.cutsAt_iff_exists.mp hcut
  refine ⟨template, fun q hocc => ?_, fun heq => ?_⟩
  · have hfits := hocc.add_length_le (utf8Bytes_ne_nil ds.opening_ne_empty)
    rw [htemplate, List.length_take] at hfits
    omega
  · have hone := events_of_partial (k := p + 1) (by omega) (Nat.succ_pos p) htemplate
    have hfirst : ((Options.dialect ⟨ds, true⟩ false).events template)[0]? =
        some (.text ⟨0, p + 1⟩) := by
      rw [← heq, hone]
      rfl
    have hopens : OpensTags (Options.dialect ⟨ds, true⟩ false) := ⟨rfl, Or.inl rfl⟩
    rcases told_or_unclosed hfirst with htold | ⟨_, _, hunclosed, _⟩
    · apply (htold.tag hopens).behind p hpos (Nat.lt_succ_self p)
      rw [htemplate, List.getElem?_take, if_pos (Nat.lt_succ_self p)]
      exact hp
    · cases hunclosed.inside.interpolates

/-- Where markers are read as text, no interpolation is reported, closed or not. -/
theorem not_interpolation_of_vPre {e : Event}
    (he : e ∈ (Options.dialect ⟨ds, true⟩ false).events template) :
    (∀ s, e ≠ .interpolation s) ∧ ∀ i, e ≠ .error .missingInterpolationEnd i := by
  obtain ⟨k, hk⟩ := List.mem_iff_getElem?.mp he
  rcases told_or_unclosed hk with htold | ⟨_, _, hunclosed, _⟩
  · constructor
    · rintro s rfl
      obtain ⟨_, _, hin, _⟩ := htold
      cases hin.interpolates
    · rintro i rfl
      exact htold
  · cases hunclosed.inside.interpolates

end

/-- Where markers are read as text, every template is read in the same way whatever the markers are,
and no interpolation is found. Where they are not, the templates without an opening marker are read
as if they were exactly if the opening marker has no `<` but as its last byte. -/
theorem markers_inert (ds ds' : Delimiters) :
    (∀ template,
      (parsed ⟨ds, true⟩ false template).sink = (parsed ⟨ds', true⟩ false template).sink ∧
        (parsed ⟨ds, true⟩ false template).scan = (parsed ⟨ds', true⟩ false template).scan ∧
        (parsed ⟨ds, true⟩ false template).stats = (parsed ⟨ds', true⟩ false template).stats ∧
        ∀ e ∈ (parsed ⟨ds, true⟩ false template).sink,
          (∀ s, e ≠ .interpolation s) ∧ ∀ i, e ≠ .error .missingInterpolationEnd i) ∧
    ((∀ template, (∀ p, ¬ OccursAt (utf8Bytes ds.opening) (utf8Bytes template) p) →
        (parsed ⟨ds, false⟩ false template).sink = (parsed ⟨ds, true⟩ false template).sink) ↔
      Byte.tagOpen ∉ (utf8Bytes ds.opening).dropLast) := by
  constructor
  · intro template
    have hverbatim : (Options.dialect ⟨ds, true⟩ false).Verbatim
        (Options.dialect ⟨ds', true⟩ false) := ⟨rfl, rfl, rfl⟩
    have hrun : (Options.dialect ⟨ds, true⟩ false).run template =
        (Options.dialect ⟨ds', true⟩ false).run template :=
      Scan.run_verbatim (s := {}) hverbatim (utf8Bytes template) rfl
    simp only [parsed_eq, Dialect.events, hrun, true_and]
    intro e he
    rw [← hrun] at he
    exact not_interpolation_of_vPre (List.mem_toArray.mp he)
  · simp only [parsed_eq]
    constructor
    · intro hall hmem
      obtain ⟨template, habsent, hne⟩ := exists_events_ne hmem
      exact hne (List.toArray_inj (hall template habsent))
    · intro hlast template habsent
      rw [events_of_absent hlast habsent]

-- The comparison takes the `<` of the tag.
example :
    let ds : Delimiters := ⟨"\x7b<%", "%\x7d", by decide, by decide, by decide⟩
    (Options.dialect ⟨ds, false⟩ false).events "\x7b<b>" = [.text ⟨0, 4⟩, .endOfInput] := by
  decide +kernel

end TemplateLexer
