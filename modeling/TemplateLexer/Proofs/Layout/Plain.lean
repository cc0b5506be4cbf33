import TemplateLexer.Proofs.Layout.Progress

/-!
# Templates without tags

If tags are read as text, or if no byte opens one, a template consists of text and interpolations
only. A scan then ends in text or inside an interpolation (`Underway.rest`), and the bytes of the
template can be put together again from its events (`rebuild_events`).
-/

set_option autoImplicit false

namespace TemplateLexer.Layout

open Marker

/-- No tag begins in an input. -/
def Plain (d : Dialect) (w : List UInt8) : Prop :=
  d.rawText = true ∨ Byte.tagOpen ∉ w

/-- What a template without tags has behind its complete parts, with the events that report it. -/
inductive Rest (d : Dialect) (w : List UInt8) (i : Nat) : List Event → Prop
  | text : i ≤ w.length → NoneMissed d w i w.length →
      Rest d w i (textBetween i w.length)
  | interpolation : Inside d w i → i + d.opening.length ≤ w.length →
      (Restartable d.closing → Absent d.closing w (i + d.opening.length) w.length) →
      Rest d w i (.error .missingInterpolationEnd i :: textBetween i w.length)

variable {d : Dialect} {w : List UInt8} {i j a n : Nat} {s : Scan} {es : List Event}

/-- In a template without tags no opening of a tag is met. -/
theorem Plain.not_opener (h : Plain d w) (hop : Opener d w i a) : False := by
  rcases h with hraw | hfree
  · have htags := hop.tags
    rw [hraw] at htags
    cases htags
  · exact hfree (List.mem_of_getElem? hop.bracket)

/-- In a template without tags no scan is in a tag. -/
theorem Plain.not_tagged (h : Plain d w) (ht : Tagged d w n es) : False := by
  obtain ⟨_, hop, _, _⟩ := ht
  exact h.not_opener hop

/-- A scan of a template without tags ends in text or inside an interpolation. -/
theorem Underway.rest (hplain : Plain d w) (h : Underway d w s es) (hs : s.cursor = w.length)
    (ho : d.opening ≠ []) (hcl : d.closing ≠ []) :
    ∃ i, Laid d w i es ∧ Rest d w i s.leftover := by
  cases h with
  | text hl hi hmissed =>
    obtain rfl := hs
    exact ⟨_, hl, .text hi hmissed⟩
  | @interpolationOpen i m k _ hl hi hmissed _ hk _ =>
    have hs : m + k = w.length := hs
    simp only [Scan.leftover, hs]
    refine ⟨i, hl, .text (by omega) fun hsearch => ?_⟩
    exact (hmissed hsearch).trans (.of_length_lt ho (by omega))
  | interpolation hl hin hn habsent =>
    obtain rfl := hs
    exact ⟨_, hl, .interpolation hin hn habsent⟩
  | @interpolationClose i m k _ hl hin hm habsent hk _ =>
    have hs : m + k = w.length := hs
    simp only [Scan.leftover, hs]
    refine ⟨i, hl, .interpolation hin (by omega) fun hr => ?_⟩
    exact (habsent hr).trans (.of_length_lt hcl (by omega))
  | beforeTagName _ hop => exact (hplain.not_opener hop).elim
  | inTagName _ hop _ => exact (hplain.not_opener hop).elim
  | beforeClosingTagName _ hop => exact (hplain.not_opener hop.opener).elim
  | inClosingTagName _ hop _ => exact (hplain.not_opener hop.opener).elim
  | afterClosingTagName _ hop _ _ => exact (hplain.not_opener hop.opener).elim
  | beforeAttrName h => exact (hplain.not_tagged h).elim
  | inSelfClosingTag h => exact (hplain.not_tagged h).elim
  | inAttrName h _ => exact (hplain.not_tagged h).elim
  | inDirName h _ _ _ => exact (hplain.not_tagged h).elim
  | inDirArg h _ _ => exact (hplain.not_tagged h).elim
  | inDirDynamicArg h _ _ => exact (hplain.not_tagged h).elim
  | inDirModifier h _ _ _ => exact (hplain.not_tagged h).elim
  | afterAttrName h _ _ => exact (hplain.not_tagged h).elim
  | beforeAttrValue h _ _ => exact (hplain.not_tagged h).elim
  | inQuotedValue _ h _ _ _ => exact (hplain.not_tagged h).elim
  | inBareValue h _ _ => exact (hplain.not_tagged h).elim

/-- The complete parts and the rest of a template without tags. -/
theorem rest_of_run (o : Options) (rawText : Bool) (template : String)
    (hplain : Plain (o.dialect rawText) (utf8Bytes template)) :
    ∃ i es rest, Laid (o.dialect rawText) (utf8Bytes template) i es ∧
      Rest (o.dialect rawText) (utf8Bytes template) i rest ∧
      (o.dialect rawText).events template = es ++ (rest ++ [.endOfInput]) := by
  obtain ⟨i, hl, hrest⟩ := (o.underway_run rawText template).rest hplain
    (Dialect.cursor_run _ template) (utf8Bytes_ne_nil o.delimiters.opening_ne_empty)
    (utf8Bytes_ne_nil o.delimiters.closing_ne_empty)
  exact ⟨i, _, _, hl, hrest, rfl⟩

/-! ## Putting a template together again -/

/-- The bytes that a span names. -/
def bytesAt (w : List UInt8) (s : Span) : List UInt8 :=
  (w.drop s.start).take s.length

/-- The bytes of the texts and, between the markers, of the interpolations in a row of events. -/
def rebuild (d : Dialect) (w : List UInt8) (es : List Event) : List UInt8 :=
  es.flatMap fun
    | .text s => bytesAt w s
    | .interpolation s => d.opening ++ bytesAt w s ++ d.closing
    | _ => []

/-- The bytes of a span take the template on from its start to its end. -/
theorem take_append_bytesAt (h : i ≤ j) : w.take i ++ bytesAt w ⟨i, j⟩ = w.take j := by
  obtain ⟨k, rfl⟩ := Nat.exists_eq_add_of_le h
  rw [bytesAt, Span.length, List.take_add]
  simp

/-- The bytes where a marker stands are the marker. -/
theorem bytesAt_of_occursAt {m : List UInt8} (h : OccursAt m w i) :
    bytesAt w ⟨i, i + m.length⟩ = m := by
  rw [bytesAt, Span.length]
  simpa using (List.prefix_iff_eq_take.mp h).symm

/-- An interpolation goes on from what is in front of it to what is behind its closing marker. -/
theorem take_append_interpolation (hopen : OccursAt d.opening w i)
    (hj : i + d.opening.length ≤ j) (hclose : OccursAt d.closing w j) :
    w.take i ++ (d.opening ++ bytesAt w ⟨i + d.opening.length, j⟩ ++ d.closing) =
      w.take (j + d.closing.length) := by
  have hfirst := take_append_bytesAt (w := w) (Nat.le_add_right i d.opening.length)
  have hlast := take_append_bytesAt (w := w) (Nat.le_add_right j d.closing.length)
  rw [bytesAt_of_occursAt hopen] at hfirst
  rw [bytesAt_of_occursAt hclose, ← take_append_bytesAt hj, ← hfirst] at hlast
  rw [← hlast]
  simp only [List.append_assoc]

/-- Rows of events are put together one behind the other. -/
theorem rebuild_append (first last : List Event) :
    rebuild d w (first ++ last) = rebuild d w first ++ rebuild d w last := by
  simp [rebuild]

/-- What is described by a layout without tags is put together from its events. -/
theorem rebuild_of_laid (hplain : Plain d w) (h : Laid d w i es) :
    rebuild d w es = w.take i := by
  induction h with
  | nil => simp [rebuild]
  | text _ hij _ _ ih =>
    rw [rebuild_append, ih, ← take_append_bytesAt (Nat.le_of_lt hij)]
    simp [rebuild]
  | interpolation _ hin hj hclose _ ih =>
    rw [rebuild_append, ih, ← take_append_interpolation hin.marker hj hclose]
    simp [rebuild]
  | closeTag _ hop _ _ _ _ => exact (hplain.not_opener hop.opener).elim
  | openTag _ hop _ _ _ _ _ => exact (hplain.not_opener hop).elim

/-- The rest of the template is put together from what is reported at its end. -/
theorem rebuild_of_rest {rest : List Event} (h : Rest d w i rest) :
    w.take i ++ rebuild d w (rest ++ [.endOfInput]) = w := by
  have htext : i ≤ w.length → w.take i ++ rebuild d w (textBetween i w.length) = w := by
    intro hi
    unfold textBetween
    split
    · have hall := take_append_bytesAt (w := w) hi
      rw [List.take_length] at hall
      simpa [rebuild] using hall
    · simp [rebuild, show i = w.length by omega]
  rw [rebuild_append]
  cases h with
  | text hi _ => simpa [rebuild] using htext hi
  | interpolation _ hi _ => simpa [rebuild] using htext (by omega)

/-- Text and interpolations, with their markers, are all there is in a template without tags. -/
theorem rebuild_events (o : Options) (rawText : Bool) (template : String)
    (hplain : Plain (o.dialect rawText) (utf8Bytes template)) :
    rebuild (o.dialect rawText) (utf8Bytes template) ((o.dialect rawText).events template) =
      utf8Bytes template := by
  obtain ⟨i, es, rest, hl, hrest, hevents⟩ := rest_of_run o rawText template hplain
  rw [hevents, rebuild_append, rebuild_of_laid hplain hl]
  exact rebuild_of_rest hrest

end TemplateLexer.Layout
