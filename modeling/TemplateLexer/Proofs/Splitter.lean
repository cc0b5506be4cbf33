import TemplateLexer.Proofs.Layout.Plain
import TemplateLexer.Proofs.Overlooked
import TemplateLexer.Proofs.Seam

/-!
# Splitting at the markers

Where no tag begins, the events of a template ought to be those of a plain splitter, which looks for
the leftmost opening marker, then for the leftmost closing one behind it, and goes on behind that.
They are for all templates exactly if both markers are restartable (`events_eq_split`): only then
nothing is missed by a scan that never goes back.
-/

set_option autoImplicit false

namespace TemplateLexer.Splitter

open Marker Layout

/-! ## The reference -/

/-- The leftmost offset, not before a given one, where a marker stands. -/
def find? (m w : List UInt8) (p : Nat) : Option Nat :=
  (List.range' p (w.length - p)).find? fun i => decide (OccursAt m w i)

variable {m w : List UInt8} {i j p : Nat}

/-- The search finds the first place where the marker stands. -/
theorem find?_eq_some_iff (hm : m ≠ []) :
    find? m w p = some i ↔ p ≤ i ∧ OccursAt m w i ∧ Absent m w p i := by
  have hpos := List.length_pos_iff.mpr hm
  simp only [find?, List.find?_range'_eq_some, decide_eq_true_eq, List.mem_range'_1,
    Bool.not_eq_true', decide_eq_false_iff_not]
  constructor
  · intro ⟨hocc, hmem, hbefore⟩
    exact ⟨hmem.1, hocc, hbefore⟩
  · intro ⟨hle, hocc, habsent⟩
    have hend := hocc.add_length_le hm
    exact ⟨hocc, by omega, habsent⟩

/-- The search finds nothing where the marker is absent. -/
theorem find?_eq_none (h : Absent m w p w.length) : find? m w p = none := by
  simp only [find?, List.find?_range'_eq_none, Bool.not_eq_true', decide_eq_false_iff_not]
  intro k hp hk
  exact h k hp (by omega)

/-- The search finds a marker that stands somewhere, or one in front of it. -/
theorem exists_find?_eq_some (hocc : OccursAt m w i) (hp : p ≤ i) (hm : m ≠ []) :
    ∃ k ≤ i, find? m w p = some k := by
  have hend := hocc.add_length_le hm
  have hpos := List.length_pos_iff.mpr hm
  cases hfind : find? m w p with
  | none =>
    simp only [find?, List.find?_range'_eq_none, Bool.not_eq_true', decide_eq_false_iff_not]
      at hfind
    exact (hfind i hp (by omega) hocc).elim
  | some k =>
    obtain ⟨_, _, habsent⟩ := (find?_eq_some_iff hm).mp hfind
    refine ⟨k, Nat.le_of_not_lt fun hlt => ?_, rfl⟩
    exact habsent i hp hlt hocc

/-- What a splitter reports from an offset on: the text up to the leftmost opening marker, the
interpolation up to the leftmost closing marker behind it, and what it reports from there on. If
there is no opening marker, the rest is text; if there is no closing one, this is an error and the
rest, from the opening marker on, is text. -/
def splitFrom (ds : Delimiters) (w : List UInt8) (p : Nat) : List Event :=
  match _hopen : find? (utf8Bytes ds.opening) w p with
  | none => textBetween p w.length
  | some i =>
    let inner := i + (utf8Bytes ds.opening).length
    textBetween p i ++
      match _hclose : find? (utf8Bytes ds.closing) w inner with
      | none => [.error .missingInterpolationEnd i, .text ⟨i, w.length⟩]
      | some j =>
        .interpolation ⟨inner, j⟩ :: splitFrom ds w (j + (utf8Bytes ds.closing).length)
termination_by w.length - p
decreasing_by
  have hcl := utf8Bytes_ne_nil ds.closing_ne_empty
  have hpos := List.length_pos_iff.mpr hcl
  obtain ⟨hp, _, _⟩ := (find?_eq_some_iff (utf8Bytes_ne_nil ds.opening_ne_empty)).mp _hopen
  obtain ⟨hi, hocc, _⟩ := (find?_eq_some_iff hcl).mp _hclose
  have hend := hocc.add_length_le hcl
  omega

/-- What a splitter reports of an input. -/
def split (ds : Delimiters) (w : List UInt8) : List Event :=
  splitFrom ds w 0 ++ [.endOfInput]

variable {ds : Delimiters}

/-- A split goes from one interpolation to the next, and ends with a text or an unclosed one. -/
theorem splitFrom_eq : splitFrom ds w p =
    match find? (utf8Bytes ds.opening) w p with
    | none => textBetween p w.length
    | some i =>
      let inner := i + (utf8Bytes ds.opening).length
      textBetween p i ++
        match find? (utf8Bytes ds.closing) w inner with
        | none => [.error .missingInterpolationEnd i, .text ⟨i, w.length⟩]
        | some j =>
          .interpolation ⟨inner, j⟩ :: splitFrom ds w (j + (utf8Bytes ds.closing).length) := by
  rw [splitFrom]
  split
  · next hopen => rw [hopen]
  · next i hopen =>
    rw [hopen]
    show textBetween p i ++ _ = textBetween p i ++ _
    split
    · next hclose => rw [hclose]
    · next j hclose => rw [hclose]

/-- Without an opening marker, the rest is text. -/
theorem splitFrom_text (h : Absent (utf8Bytes ds.opening) w p w.length) :
    splitFrom ds w p = textBetween p w.length := by
  rw [splitFrom_eq, find?_eq_none h]

/-- At the end nothing is left to be split. -/
theorem splitFrom_length : splitFrom ds w w.length = [] := by
  have hnone : Absent (utf8Bytes ds.opening) w w.length w.length := .refl
  rw [splitFrom_text hnone, textBetween, if_neg (Nat.lt_irrefl _)]

/-- The search for the opening marker finds the first one. -/
theorem find?_opening (hp : p ≤ i) (hopen : OccursAt (utf8Bytes ds.opening) w i)
    (hnone : Absent (utf8Bytes ds.opening) w p i) :
    find? (utf8Bytes ds.opening) w p = some i :=
  (find?_eq_some_iff (utf8Bytes_ne_nil ds.opening_ne_empty)).mpr ⟨hp, hopen, hnone⟩

/-- The text in front of an opening marker comes first. -/
theorem splitFrom_opening (hp : p ≤ i) (hopen : OccursAt (utf8Bytes ds.opening) w i)
    (hnone : Absent (utf8Bytes ds.opening) w p i) :
    splitFrom ds w p = textBetween p i ++ splitFrom ds w i := by
  have hself : textBetween i i = [] := if_neg (Nat.lt_irrefl i)
  rw [splitFrom_eq, splitFrom_eq (p := i), find?_opening hp hopen hnone,
    find?_opening (Nat.le_refl i) hopen .refl]
  simp only [hself, List.nil_append]

/-- An interpolation ends at the first closing marker, and the split goes on behind it. -/
theorem splitFrom_interpolation (hopen : OccursAt (utf8Bytes ds.opening) w i)
    (hj : i + (utf8Bytes ds.opening).length ≤ j) (hclose : OccursAt (utf8Bytes ds.closing) w j)
    (hnone : Absent (utf8Bytes ds.closing) w (i + (utf8Bytes ds.opening).length) j) :
    splitFrom ds w i = .interpolation ⟨i + (utf8Bytes ds.opening).length, j⟩ ::
      splitFrom ds w (j + (utf8Bytes ds.closing).length) := by
  have hfind : find? (utf8Bytes ds.closing) w (i + (utf8Bytes ds.opening).length) = some j :=
    (find?_eq_some_iff (utf8Bytes_ne_nil ds.closing_ne_empty)).mpr ⟨hj, hclose, hnone⟩
  rw [splitFrom_eq, find?_opening (Nat.le_refl i) hopen .refl]
  simp only [hfind, textBetween, if_neg (Nat.lt_irrefl i), List.nil_append]

/-- An interpolation that is never closed takes the rest with it. -/
theorem splitFrom_unclosed (hopen : OccursAt (utf8Bytes ds.opening) w i)
    (hnone : Absent (utf8Bytes ds.closing) w (i + (utf8Bytes ds.opening).length) w.length) :
    splitFrom ds w i = [.error .missingInterpolationEnd i, .text ⟨i, w.length⟩] := by
  rw [splitFrom_eq, find?_opening (Nat.le_refl i) hopen .refl]
  simp only [find?_eq_none hnone, textBetween, if_neg (Nat.lt_irrefl i), List.nil_append]

/-! ## Restartable markers -/

variable {rawText : Bool} {es rest : List Event}

/-- In a template without tags a restartable opening marker is found wherever it stands. -/
theorem searchable_of_plain (ho : Restartable (utf8Bytes ds.opening))
    (hplain : Plain (Options.dialect ⟨ds, false⟩ rawText) w) :
    Searchable (Options.dialect ⟨ds, false⟩ rawText) w := by
  refine ⟨rfl, ho, ?_⟩
  rcases hplain with hraw | hfree
  · exact Or.inl hraw
  · exact Or.inr (Or.inl hfree)

/-- A layout without tags is what the splitter reports up to its end. -/
theorem splitFrom_of_laid (ho : Restartable (utf8Bytes ds.opening))
    (hcl : Restartable (utf8Bytes ds.closing))
    (hplain : Plain (Options.dialect ⟨ds, false⟩ rawText) w)
    (h : Laid (Options.dialect ⟨ds, false⟩ rawText) w i es) :
    splitFrom ds w 0 = es ++ splitFrom ds w i := by
  have hsearch := searchable_of_plain ho hplain
  induction h with
  | nil => rfl
  | @text i j es _ hij hstop hmissed ih =>
    have hnone : Absent (utf8Bytes ds.opening) w i j := hmissed hsearch
    have htext : splitFrom ds w i = .text ⟨i, j⟩ :: splitFrom ds w j := by
      rcases hstop with ⟨htags, hopen⟩ | ⟨_, hopen⟩ | rfl
      · exact (hplain.not_opener ⟨htags, hopen, .refl⟩).elim
      · rw [splitFrom_opening (Nat.le_of_lt hij) hopen hnone, textBetween, if_pos hij]
        rfl
      · rw [splitFrom_text hnone, splitFrom_length, textBetween, if_pos hij]
    rw [ih, htext, List.append_assoc]
    rfl
  | interpolation _ hin hj hclose habsent ih =>
    rw [ih, splitFrom_interpolation hin.marker hj hclose (habsent hcl), List.append_assoc]
    rfl
  | closeTag _ hop _ _ _ _ => exact (hplain.not_opener hop.opener).elim
  | openTag _ hop _ _ _ _ _ => exact (hplain.not_opener hop).elim

/-- The rest of a template is split as it is reported. -/
theorem splitFrom_of_rest (ho : Restartable (utf8Bytes ds.opening))
    (hcl : Restartable (utf8Bytes ds.closing))
    (hplain : Plain (Options.dialect ⟨ds, false⟩ rawText) w)
    (h : Rest (Options.dialect ⟨ds, false⟩ rawText) w i rest) : splitFrom ds w i = rest := by
  have hsearch := searchable_of_plain ho hplain
  cases h with
  | text _ hmissed => exact splitFrom_text (hmissed hsearch)
  | interpolation hin hle habsent =>
    have hpos := List.length_pos_iff.mpr (utf8Bytes_ne_nil ds.opening_ne_empty)
    have hlt : i < w.length := by
      have hlen : i + (utf8Bytes ds.opening).length ≤ w.length := hle
      omega
    rw [splitFrom_unclosed hin.marker (habsent hcl), textBetween, if_pos hlt]

/-- With restartable markers, the events of a template without tags are its split. -/
theorem events_of_restartable (ho : Restartable (utf8Bytes ds.opening))
    (hcl : Restartable (utf8Bytes ds.closing)) (template : String)
    (hplain : Plain (Options.dialect ⟨ds, false⟩ rawText) (utf8Bytes template)) :
    (Options.dialect ⟨ds, false⟩ rawText).events template = split ds (utf8Bytes template) := by
  obtain ⟨i, es, rest, hl, hrest, hevents⟩ := rest_of_run _ rawText template hplain
  rw [hevents, split, splitFrom_of_laid ho hcl hplain hl, splitFrom_of_rest ho hcl hplain hrest,
    List.append_assoc]

/-! ## Other markers -/

/-- A text can be cut where a byte equals its first one. -/
theorem exists_utf8Bytes_take {s : String} (hlt : p < (utf8Bytes s).length)
    (hfirst : (utf8Bytes s)[p]? = (utf8Bytes s)[0]?) :
    ∃ t, utf8Bytes t = (utf8Bytes s).take p := by
  have hget := List.getElem?_eq_getElem hlt
  have hcut : Span.CutsAt s p :=
    Span.cutsAt_of_firstByte hget (Span.isUTF8FirstByte_of_getElem? (by rw [← hfirst, hget]))
  exact (Span.cutsAt_iff_exists.mp hcut).2

/-- A template with an opening marker is not split into a text alone. -/
theorem splitFrom_ne_textBetween (hocc : OccursAt (utf8Bytes ds.opening) w i) :
    splitFrom ds w 0 ≠ textBetween 0 w.length := by
  intro heq
  obtain ⟨k, _, hfind⟩ := exists_find?_eq_some hocc (Nat.zero_le i)
    (utf8Bytes_ne_nil ds.opening_ne_empty)
  have htext : ∀ e ∈ splitFrom ds w 0, e = .text ⟨0, w.length⟩ := by
    intro e he
    rw [heq, textBetween] at he
    split at he
    · exact List.mem_singleton.mp he
    · cases he
  rw [splitFrom_eq, hfind] at htext
  cases hclose : find? (utf8Bytes ds.closing) w (k + (utf8Bytes ds.opening).length) with
  | none =>
    have herror := htext (.error .missingInterpolationEnd k) (by simp [hclose])
    cases herror
  | some j =>
    have hinterp := htext (.interpolation ⟨k + (utf8Bytes ds.opening).length, j⟩) (by simp [hclose])
    cases hinterp

/-- An interpolation with a closing marker is not split as an unclosed one. -/
theorem splitFrom_ne_error (hopen : OccursAt (utf8Bytes ds.opening) w i)
    (hocc : OccursAt (utf8Bytes ds.closing) w j) (hj : i + (utf8Bytes ds.opening).length ≤ j) :
    splitFrom ds w i ≠ .error .missingInterpolationEnd i :: rest := by
  have hcl := utf8Bytes_ne_nil ds.closing_ne_empty
  obtain ⟨k, _, hfind⟩ := exists_find?_eq_some hocc hj hcl
  obtain ⟨hk, hclose, hnone⟩ := (find?_eq_some_iff hcl).mp hfind
  rw [splitFrom_interpolation hopen hk hclose hnone]
  intro heq
  cases heq

/-- If tags are read as text, any byte of a marker is looked at. -/
theorem seeks_rawText (side : Side) (c : UInt8) :
    (Options.dialect ⟨ds, false⟩ true).Seeks c side := by
  cases side with
  | opening => exact ⟨rfl, fun hc => by cases hc.2⟩
  | closing => trivial

/-- An opening marker that is not restartable is overlooked behind its own beginning. -/
theorem exists_events_ne_of_opening (h : ¬ Restartable (utf8Bytes ds.opening)) :
    ∃ template, (Options.dialect ⟨ds, false⟩ true).events template ≠
      split ds (utf8Bytes template) := by
  obtain ⟨p, hlt, hfirst, k, hspoilt⟩ := exists_spoilt h []
  obtain ⟨t, ht⟩ := exists_utf8Bytes_take hlt hfirst
  have hocc := occursAt_behind [] (Nat.le_of_lt hlt)
  have hbytes : utf8Bytes (t ++ ds.opening) =
      [] ++ ((utf8Bytes ds.opening).take p ++ utf8Bytes ds.opening) := by
    rw [utf8Bytes_append, ht, List.nil_append]
  rw [← hbytes] at hspoilt hocc
  have hpath : Scan.Leads (Options.dialect ⟨ds, false⟩ true) (utf8Bytes (t ++ ds.opening)) {} []
      ⟨Side.opening.seeking, 0, some 0, .idle, .empty⟩ := .refl _
  refine ⟨t ++ ds.opening, fun heq => splitFrom_ne_textBetween hocc ?_⟩
  rw [hpath.events_of_spoilt hspoilt (seeks_rawText _) (Nat.zero_le _), split,
    List.nil_append] at heq
  exact (List.append_cancel_right heq).symm

/-- A closing marker that is not restartable is overlooked behind its own beginning. -/
theorem exists_events_ne_of_closing (h : ¬ Restartable (utf8Bytes ds.closing)) :
    ∃ template, (Options.dialect ⟨ds, false⟩ true).events template ≠
      split ds (utf8Bytes template) := by
  obtain ⟨p, hlt, hfirst, k, hspoilt⟩ := exists_spoilt h (utf8Bytes ds.opening)
  obtain ⟨t, ht⟩ := exists_utf8Bytes_take hlt hfirst
  have hocc := occursAt_behind (utf8Bytes ds.opening) (Nat.le_of_lt hlt)
  have hbytes : utf8Bytes (ds.opening ++ (t ++ ds.closing)) =
      utf8Bytes ds.opening ++ ((utf8Bytes ds.closing).take p ++ utf8Bytes ds.closing) := by
    rw [utf8Bytes_append, utf8Bytes_append, ht]
  have hopen : OccursAt (utf8Bytes ds.opening) (utf8Bytes (ds.opening ++ (t ++ ds.closing))) 0 := by
    rw [hbytes]
    exact List.prefix_append _ _
  rw [← hbytes] at hspoilt hocc
  have hpath : Scan.Leads (Options.dialect ⟨ds, false⟩ true)
      (utf8Bytes (ds.opening ++ (t ++ ds.closing))) {} []
      ⟨Side.closing.seeking, 0 + (utf8Bytes ds.opening).length, some 0, .idle, .empty⟩ :=
    Scan.leads_opening hopen (utf8Bytes_ne_nil ds.opening_ne_empty) fun c _ => seeks_rawText _ c
  rw [Nat.zero_add] at hpath
  have hle : (utf8Bytes ds.opening).length ≤
      (utf8Bytes (ds.opening ++ (t ++ ds.closing))).length := by
    rw [utf8Bytes_append, List.length_append]
    exact Nat.le_add_right _ _
  refine ⟨ds.opening ++ (t ++ ds.closing), fun heq => ?_⟩
  rw [hpath.events_of_spoilt hspoilt (seeks_rawText _) hle, split, List.nil_append] at heq
  have hsplit := (List.append_cancel_right heq).symm
  refine splitFrom_ne_error hopen hocc ?_ hsplit
  rw [Nat.zero_add]
  exact Nat.le_add_right _ _

/-- Where no tag begins, the events of every template are those of the splitter if both markers are
restartable. If one is not, there is a template in which the scan overlooks it. -/
theorem events_eq_split (ds : Delimiters) :
    (Restartable (utf8Bytes ds.opening) ∧ Restartable (utf8Bytes ds.closing) →
      ∀ (rawText : Bool) (template : String),
        Plain (Options.dialect ⟨ds, false⟩ rawText) (utf8Bytes template) →
          (Options.dialect ⟨ds, false⟩ rawText).events template =
            split ds (utf8Bytes template)) ∧
      (¬ (Restartable (utf8Bytes ds.opening) ∧ Restartable (utf8Bytes ds.closing)) →
        ∃ template, (Options.dialect ⟨ds, false⟩ true).events template ≠
          split ds (utf8Bytes template)) := by
  refine ⟨fun h rawText template hplain => ?_, fun h => ?_⟩
  · exact events_of_restartable h.1 h.2 template hplain
  · by_cases ho : Restartable (utf8Bytes ds.opening)
    · exact exists_events_ne_of_closing fun hcl => h ⟨ho, hcl⟩
    · exact exists_events_ne_of_opening ho

/-- The braces are restartable, while three braces in a row are enough to miss the other pair. -/
theorem events_eq_split_comment :
    (Restartable (utf8Bytes Delimiters.braces.opening) ∧
        Restartable (utf8Bytes Delimiters.braces.closing)) ∧
      Plain (Options.dialect ⟨.braces, false⟩ false) (utf8Bytes "a\x7b\x7b\x7b") ∧
      (Options.dialect ⟨.braces, false⟩ false).events "a\x7b\x7b\x7b" =
        split .braces (utf8Bytes "a\x7b\x7b\x7b") ∧
      ¬ (Restartable (utf8Bytes "\x7b\x7b!") ∧ Restartable (utf8Bytes "!\x7d\x7d")) ∧
      ∃ template, (Options.dialect ⟨⟨"\x7b\x7b!", "!\x7d\x7d", by decide, by decide, by decide⟩,
          false⟩ true).events template ≠
        split ⟨"\x7b\x7b!", "!\x7d\x7d", by decide, by decide, by decide⟩
          (utf8Bytes template) := by
  have hgood : Restartable (utf8Bytes Delimiters.braces.opening) ∧
      Restartable (utf8Bytes Delimiters.braces.closing) := by decide
  have hplain : Plain (Options.dialect ⟨.braces, false⟩ false) (utf8Bytes "a\x7b\x7b\x7b") :=
    Or.inr (by decide)
  have hbad : ¬ (Restartable (utf8Bytes "\x7b\x7b!") ∧ Restartable (utf8Bytes "!\x7d\x7d")) := by
    decide
  exact ⟨hgood, hplain, (events_eq_split .braces).1 hgood false _ hplain, hbad,
    (events_eq_split ⟨"\x7b\x7b!", "!\x7d\x7d", by decide, by decide, by decide⟩).2 hbad⟩

end TemplateLexer.Splitter
