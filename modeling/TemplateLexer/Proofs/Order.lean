import TemplateLexer.Proofs.Safety

/-!
# The order of the events

A template is reported from left to right: the places of the events never go back, their spans do
not overlap, and nothing begins in front of what has been reported (`events_inOrder`). The one
exception is an argument whose bracket is never closed. This is noticed where the argument ends, but
reported in front of it. The layout of a template is therefore measured in more than one way, and
`InOrder` is shown once for every way of measuring that stays within the stretches of the events.
-/

set_option autoImplicit false

namespace TemplateLexer

open Layout

/-! ## Places and stretches -/

/-- The place of an event: the end of its span, or its offset. -/
def Event.position? : Event → Option Nat
  | .text s | .interpolation s | .openTagName s | .closeTag s | .attribName s | .attribData s
  | .dirName s _ | .dirArg s | .dirDynamicArg s | .dirModifier s => some s.stop
  | .openTagEnd n | .selfClosingTag n | .attribNameEnd n | .attribEnd _ n | .error _ n => some n
  | .endOfInput => none

/-- The stretch of a template that belongs to an event: its span, for an interpolation with both
markers, or the empty stretch at its offset. -/
def Event.stretch? (d : Dialect) : Event → Option Span
  | .interpolation s => some ⟨s.start - d.opening.length, s.stop + d.closing.length⟩
  | .text s | .openTagName s | .closeTag s | .attribName s | .attribData s | .dirName s _
  | .dirArg s | .dirDynamicArg s | .dirModifier s => some s
  | .openTagEnd n | .selfClosingTag n | .attribNameEnd n | .attribEnd _ n | .error _ n =>
    some ⟨n, n⟩
  | .endOfInput => none

/-- The stretch of an event that begins behind all that has been reported in front of it. A bracket
that is never closed has none, for it is noticed behind the argument. -/
def Event.firmStretch? (d : Dialect) (e : Event) : Option Span :=
  match e with
  | .error .missingDynamicArgumentEnd _ => none
  | e => e.stretch? d

/-- The place of an event as an empty stretch. -/
def Event.place? (e : Event) : Option Span :=
  e.position?.map fun n => ⟨n, n⟩

/-- The stretches of a row of events, in some way of measuring, lie between two offsets, and each of
them ends before the next one begins. -/
structure InOrder (f : Event → Option Span) (i j : Nat) (es : List Event) : Prop where
  le : i ≤ j
  within : ∀ e ∈ es, ∀ s, f e = some s → i ≤ s.start ∧ s.start ≤ s.stop ∧ s.stop ≤ j
  sorted : es.Pairwise fun e e' => ∀ s s', f e = some s → f e' = some s' → s.stop ≤ s'.start

/-- A way of measuring that gives every event a part of its stretch, and that puts a bracket that is
never closed in order with its argument. -/
structure Measure (d : Dialect) (f : Event → Option Span) : Prop where
  narrows : ∀ e s, f e = some s → ∃ t n, e.stretch? d = some t ∧ e.position? = some n ∧
    (t.start ≤ n → n ≤ t.stop → t.start ≤ s.start ∧ s.start ≤ s.stop ∧ s.stop ≤ t.stop)
  unclosed : ∀ a k, a ≤ k →
    InOrder f a k [.error .missingDynamicArgumentEnd k, .dirArg ⟨a, k⟩]

variable {d : Dialect} {f : Event → Option Span} {w : List UInt8} {i j k a b n m : Nat}
  {e : Event} {es first last : List Event}

namespace InOrder

/-- No events are in order anywhere. -/
theorem nil (h : i ≤ j) : InOrder f i j [] :=
  ⟨h, nofun, .nil⟩

/-- Events in order stay so between wider offsets. -/
theorem mono (h : InOrder f i j es) (hi : a ≤ i) (hj : j ≤ b) : InOrder f a b es := by
  have hle := h.le
  refine ⟨by omega, fun e he s hs => ?_, h.sorted⟩
  have hwithin := h.within e he s hs
  omega

/-- Rows in order are in order one behind the other if they meet. -/
theorem append (h₁ : InOrder f i j first) (h₂ : InOrder f j k last) :
    InOrder f i k (first ++ last) := by
  refine ⟨Nat.le_trans h₁.le h₂.le, ?_, ?_⟩
  · intro e he
    rcases List.mem_append.mp he with hmem | hmem
    · exact (h₁.mono (Nat.le_refl i) h₂.le).within e hmem
    · exact (h₂.mono h₁.le (Nat.le_refl k)).within e hmem
  · apply List.pairwise_append.mpr
    refine ⟨h₁.sorted, h₂.sorted, ?_⟩
    intro e he e' he' s s' hs hs'
    have hbefore := h₁.within e he s hs
    have hbehind := h₂.within e' he' s' hs'
    omega

/-- A single event is in order within its stretch if its place lies there. -/
theorem of_position (hf : Measure d f) (he : e.stretch? d = some ⟨i, j⟩)
    (hn : e.position? = some n) (hi : i ≤ n) (hj : n ≤ j) : InOrder f i j [e] := by
  refine ⟨Nat.le_trans hi hj, ?_, List.pairwise_singleton _ _⟩
  intro e' he' s hs
  obtain rfl := List.mem_singleton.mp he'
  obtain ⟨t, m, ht, hm, hpart⟩ := hf.narrows e' s hs
  obtain rfl := Option.some.inj (he.symm.trans ht)
  obtain rfl := Option.some.inj (hn.symm.trans hm)
  exact hpart hi hj

/-- A single event whose stretch ends at its place. -/
theorem one (hf : Measure d f) (he : e.stretch? d = some ⟨i, j⟩) (hj : e.position? = some j)
    (h : i ≤ j) : InOrder f i j [e] :=
  .of_position hf he hj h (Nat.le_refl j)

/-- The end of the template has no stretch in any way of measuring. -/
theorem endOfInput (hf : Measure d f) : InOrder f i i [.endOfInput] := by
  refine ⟨Nat.le_refl i, ?_, List.pairwise_singleton _ _⟩
  intro e he s hs
  obtain rfl := List.mem_singleton.mp he
  obtain ⟨t, n, ht, _⟩ := hf.narrows _ s hs
  cases ht

end InOrder

/-! ## Attributes -/

/-- An argument is in order within its bytes, its brackets included. -/
theorem inOrder_arg (hf : Measure d f) (h : Arg w a k e) : InOrder f a k [e] := by
  cases h with
  | static hrow _ => exact .one hf rfl rfl hrow.le
  | dynamic _ henc =>
    have htwo := henc.1
    have hinner : InOrder f (a + 1) (k - 1) [.dirDynamicArg ⟨a + 1, k - 1⟩] :=
      .one hf rfl rfl (by omega)
    exact hinner.mono (Nat.le_succ a) (Nat.sub_le k 1)

/-- What stands in front of an argument is in order up to where the argument begins. -/
theorem inOrder_head (hf : Measure d f) (h : ArgHead w i a e) : InOrder f i a [e] := by
  cases h with
  | @long j hlong _ =>
    have hle := hlong.two_le
    have hname : InOrder f i j [.dirName ⟨i, j⟩ none] := .one hf rfl rfl (by omega)
    exact hname.mono (Nat.le_refl i) (Nat.le_succ j)
  | sigil s _ => exact .one hf rfl rfl (Nat.le_succ i)

/-- The parts of a directive are in order. -/
theorem inOrder_directive (hf : Measure d f) (h : Directive w i j es) : InOrder f i j es := by
  induction h with
  | long hlong =>
    have hle := hlong.two_le
    exact .one hf rfl rfl (by omega)
  | arg hhead harg => exact (inOrder_head hf hhead).append (inOrder_arg hf harg)
  | @modifier j k es _ _ hmod ih =>
    have hlast : InOrder f (j + 1) k [.dirModifier ⟨j + 1, k⟩] := .one hf rfl rfl hmod.le
    exact ih.append (hlast.mono (Nat.le_succ j) (Nat.le_refl k))

/-- The parts of a name are in order. An argument without its closing bracket is put in order by the
measure. -/
theorem inOrder_name (hf : Measure d f) (h : Name w i j es) : InOrder f i j es := by
  cases h with
  | plain hname => exact .one hf rfl rfl (Nat.le_of_succ_le hname.rest.le)
  | directive hdir => exact inOrder_directive hf hdir
  | unclosed hhead hrow => exact (inOrder_head hf hhead).append (hf.unclosed _ _ hrow.le)

/-- The end of a name comes behind its parts. -/
theorem inOrder_named (hf : Measure d f) (h : Name w i n es) :
    InOrder f i n (es ++ [.attribNameEnd n]) :=
  (inOrder_name hf h).append (.one hf rfl rfl (Nat.le_refl n))

/-- A value does not begin in front of the end of its name. -/
theorem Layout.Announced.le {v : Nat} (h : Announced w n v) : n ≤ v := by
  obtain ⟨q, hbefore, _, hafter⟩ := h
  have hle₁ := hbefore.le
  have hle₂ := hafter.le
  omega

/-- The parts of an attribute are in order. -/
theorem inOrder_attr (hf : Measure d f) (h : Attr w i j es) : InOrder f i j es := by
  cases h with
  | absent hname =>
    rw [List.append_cons]
    exact (inOrder_named hf hname).append (.one hf rfl rfl (Nat.le_refl j))
  | @quoted n v e name mark hname hquoted hvalue _ =>
    have hle := hquoted.announced.le
    have hdata : InOrder f (v + 1) e [.attribData ⟨v + 1, e⟩] := .one hf rfl rfl hvalue.le
    have hend : InOrder f (e + 1) (e + 1) [.attribEnd mark.quote (e + 1)] :=
      .one hf rfl rfl (Nat.le_refl _)
    have hvalue := hdata.append (hend.mono (Nat.le_succ e) (Nat.le_refl _))
    rw [List.append_cons]
    exact (inOrder_named hf hname).append (hvalue.mono (by omega) (Nat.le_refl _))
  | @bare n v _ name hname hbare =>
    have hdata : InOrder f v j [.attribData ⟨v, j⟩] := .one hf rfl rfl hbare.value.le
    have hend : InOrder f j j [.attribEnd .bare j] := .one hf rfl rfl (Nat.le_refl j)
    rw [List.append_cons]
    exact (inOrder_named hf hname).append
      ((hdata.append hend).mono hbare.announced.le (Nat.le_refl j))

/-- Attributes are in order one behind the other. -/
theorem inOrder_attrs (hf : Measure d f) (h : Attrs w b n es) : InOrder f b n es := by
  induction h with
  | nil => exact .nil (Nat.le_refl b)
  | @gap n c es _ _ _ ih => exact ih.mono (Nat.le_refl b) (Nat.le_succ n)
  | attr _ hattr ih => exact ih.append (inOrder_attr hf hattr)

/-! ## Templates -/

/-- The name of a tag comes behind what is in front of the tag, and its attributes behind the
name. -/
theorem inOrder_tag (hf : Measure d f) (hes : InOrder f 0 i es) (hop : Opener d w i a)
    (hname : TagName w a b) (hattrs : Attrs w b n first) :
    InOrder f 0 n (es ++ .openTagName ⟨a, b⟩ :: first) := by
  have hmarks := hop.marks.le
  have hrest := hname.rest.le
  have hspan : InOrder f a b [.openTagName ⟨a, b⟩] := .one hf rfl rfl (by omega)
  exact (hes.mono (Nat.le_refl 0) (by omega)).append (hspan.append (inOrder_attrs hf hattrs))

/-- A closing tag comes behind what is in front of it. -/
theorem inOrder_closeTag (hf : Measure d f) (hes : InOrder f 0 i es) (hop : CloseOpener d w i a)
    (hname : TagName w a b) : InOrder f 0 b (es ++ [.closeTag ⟨a, b⟩]) := by
  have hslash := hop.slash_le
  have hrest := hname.rest.le
  have hspan : InOrder f a b [.closeTag ⟨a, b⟩] := .one hf rfl rfl (by omega)
  exact (hes.mono (Nat.le_refl 0) (by omega)).append hspan

/-- What is described by a layout is in order. -/
theorem inOrder_laid (hf : Measure d f) (h : Laid d w i es) : InOrder f 0 i es := by
  induction h with
  | nil => exact .nil (Nat.le_refl 0)
  | text _ hij _ _ ih => exact ih.append (.one hf rfl rfl (Nat.le_of_lt hij))
  | @interpolation i j es _ _ hj _ _ ih =>
    refine ih.append (.of_position hf ?_ rfl (Nat.le_of_add_right_le hj) (Nat.le_add_right j _))
    rw [Event.stretch?, Nat.add_sub_cancel]
  | @closeTag i a b n es _ hop hname hskip _ ih =>
    exact (inOrder_closeTag hf ih hop hname).mono (Nat.le_refl 0) (Nat.le_succ_of_le hskip.le)
  | @openTag i a b n es attrs stop _ hop hname hattrs _ hstop ih =>
    have hend : InOrder f n n [stop] := by
      cases hstop with
      | openTag => exact .one hf rfl rfl (Nat.le_refl n)
      | selfClosing => exact .one hf rfl rfl (Nat.le_refl n)
    have hall := (inOrder_tag hf ih hop hname hattrs).append hend
    rw [List.append_assoc] at hall
    exact hall.mono (Nat.le_refl 0) (Nat.le_succ n)

/-- What has been reported of a tag is in order. -/
theorem inOrder_tagged (hf : Measure d f) (h : Tagged d w n es) : InOrder f 0 n es := by
  obtain ⟨hl, hop, hname, hattrs⟩ := h
  exact inOrder_tag hf (inOrder_laid hf hl) hop hname hattrs

/-- The text under way is in order. -/
theorem inOrder_pendingText (hf : Measure d f) {s : Scan} (hs : s.sectionStart = some i)
    (h : i ≤ n) : InOrder f i n (s.pendingText n) := by
  simp only [Scan.pendingText, hs, Option.getD_some]
  split
  · exact .one hf rfl rfl h
  · exact .nil h

/-- The error of an interpolation that is never closed stands in front of its bytes. -/
theorem inOrder_interpolationRest (hf : Measure d f) {s : Scan} (hs : s.sectionStart = some i)
    (h : i ≤ n) : InOrder f i n (.error .missingInterpolationEnd i :: s.pendingText n) := by
  have herror : InOrder f i i [.error .missingInterpolationEnd i] := .one hf rfl rfl (Nat.le_refl i)
  exact herror.append (inOrder_pendingText hf hs h)

/-- The bytes of an unfinished value are in order. -/
theorem inOrder_valueRest (hf : Measure d f) (h : i ≤ n) :
    InOrder f i n (if (⟨i, n⟩ : Span).isEmpty then [] else [.attribData ⟨i, n⟩]) := by
  split
  · exact .nil h
  · exact .one hf rfl rfl h

/-- The error of a tag that is never finished stands at the end of the template. -/
theorem inOrder_eofInTag (hf : Measure d f) (h : i ≤ n) : InOrder f i n [.error .eofInTag n] :=
  (InOrder.one hf rfl rfl (Nat.le_refl n)).mono h (Nat.le_refl n)

/-- What has been reported of a tag is in order up to the end of the name last read. -/
theorem inOrder_taggedName (hf : Measure d f) {name : List Event} (h : Tagged d w i es)
    (hname : Name w i m name) : InOrder f 0 m (es ++ (name ++ [.attribNameEnd m])) :=
  (inOrder_tagged hf h).append (inOrder_named hf hname)

/-- What a scan has reported is in order up to where the part under way begins, and what it would
report at the end is in order from there on. -/
theorem inOrder_underway (hf : Measure d f) {s : Scan} (h : Underway d w s es) :
    ∃ b, InOrder f 0 b es ∧ InOrder f b s.cursor s.leftover := by
  cases h with
  | text hl hi _ => exact ⟨_, inOrder_laid hf hl, inOrder_pendingText hf rfl hi⟩
  | interpolationOpen hl hi _ _ _ _ =>
    exact ⟨_, inOrder_laid hf hl, inOrder_pendingText hf rfl (Nat.le_add_right_of_le hi)⟩
  | interpolation hl _ hn _ =>
    have hle := Nat.le_of_add_right_le hn
    exact ⟨_, inOrder_laid hf hl, inOrder_interpolationRest hf rfl hle⟩
  | @interpolationClose i m k _ hl _ hm _ _ _ =>
    have hle : i ≤ m + k := Nat.le_add_right_of_le (Nat.le_of_add_right_le hm)
    exact ⟨_, inOrder_laid hf hl, inOrder_interpolationRest hf rfl hle⟩
  | beforeTagName hl hop =>
    have hle := Nat.le_of_succ_le hop.marks.le
    exact ⟨_, inOrder_laid hf hl, inOrder_pendingText hf rfl hle⟩
  | beforeClosingTagName hl hop =>
    have hle := Nat.le_of_add_right_le hop.slash_le
    exact ⟨_, inOrder_laid hf hl, inOrder_pendingText hf rfl hle⟩
  | inTagName hl hop hname =>
    have hle := Nat.le_trans hop.marks.le (Nat.le_of_succ_le hname.rest.le)
    exact ⟨_, inOrder_laid hf hl, inOrder_eofInTag hf (Nat.le_of_succ_le hle)⟩
  | inClosingTagName hl hop hname =>
    have hle := Nat.le_trans hop.slash_le (Nat.le_of_succ_le hname.rest.le)
    exact ⟨_, inOrder_laid hf hl, inOrder_eofInTag hf (Nat.le_of_add_right_le hle)⟩
  | afterClosingTagName hl hop hname hskip =>
    exact ⟨_, inOrder_closeTag hf (inOrder_laid hf hl) hop hname, inOrder_eofInTag hf hskip.le⟩
  | beforeAttrName h => exact ⟨_, inOrder_tagged hf h, inOrder_eofInTag hf (Nat.le_refl _)⟩
  | inSelfClosingTag h => exact ⟨_, inOrder_tagged hf h, inOrder_eofInTag hf (Nat.le_refl _)⟩
  | inAttrName h hname =>
    exact ⟨_, inOrder_tagged hf h, inOrder_eofInTag hf (Nat.le_of_succ_le hname.rest.le)⟩
  | inDirName h _ _ hrest =>
    exact ⟨_, inOrder_tagged hf h, inOrder_eofInTag hf (Nat.le_of_succ_le hrest.le)⟩
  | inDirArg h hhead harg =>
    exact ⟨_, (inOrder_tagged hf h).append (inOrder_head hf hhead), inOrder_eofInTag hf harg.le⟩
  | inDirDynamicArg h hhead harg =>
    exact ⟨_, (inOrder_tagged hf h).append (inOrder_head hf hhead), inOrder_eofInTag hf harg.le⟩
  | inDirModifier h hdir _ hmod =>
    exact ⟨_, (inOrder_tagged hf h).append (inOrder_directive hf hdir),
      inOrder_eofInTag hf (Nat.le_of_succ_le hmod.le)⟩
  | afterAttrName h hname hs => exact ⟨_, inOrder_taggedName hf h hname, inOrder_eofInTag hf hs.le⟩
  | beforeAttrValue h hname hann =>
    exact ⟨_, inOrder_taggedName hf h hname, inOrder_eofInTag hf hann.le⟩
  -- The end of a name is told before the value, so the value begins a stretch of its own.
  | inQuotedValue mark h hname hquoted hvalue =>
    have hle := hquoted.announced.le
    exact ⟨_, (inOrder_taggedName hf h hname).mono (Nat.le_refl 0) (Nat.le_succ_of_le hle),
      inOrder_valueRest hf hvalue.le⟩
  | inBareValue h hname hbare =>
    exact ⟨_, (inOrder_taggedName hf h hname).mono (Nat.le_refl 0) hbare.announced.le,
      inOrder_valueRest hf hbare.value.le⟩

/-- The events of a template are in order, however they are measured. -/
theorem inOrder_events (o : Options) (rawText : Bool) (template : String)
    (hf : Measure (o.dialect rawText) f) :
    InOrder f 0 (utf8Bytes template).length ((o.dialect rawText).events template) := by
  obtain ⟨b, hfirst, hlast⟩ := inOrder_underway hf (o.underway_run rawText template)
  rw [Dialect.cursor_run] at hlast
  exact hfirst.append (hlast.append (.endOfInput hf))

/-! ## Two ways of measuring -/

/-- The place of an event is a way of measuring. -/
theorem measure_place : Measure d Event.place? := by
  constructor
  · intro e s hs
    obtain ⟨n, hn, rfl⟩ := Option.map_eq_some_iff.mp hs
    cases e with
    | endOfInput => cases hn
    | _ => exact ⟨_, n, rfl, hn, fun hi hj => ⟨hi, Nat.le_refl n, hj⟩⟩
  · intro a k hle
    refine ⟨hle, ?_, ?_⟩
    · intro e he s hs
      have hplace : s = ⟨k, k⟩ := by
        rcases List.mem_cons.mp he with rfl | hlast
        · exact (Option.some.inj hs).symm
        · obtain rfl := List.mem_singleton.mp hlast
          exact (Option.some.inj hs).symm
      subst hplace
      exact ⟨hle, Nat.le_refl k, Nat.le_refl k⟩
    · apply List.pairwise_pair.mpr
      intro s s' hs hs'
      obtain rfl := Option.some.inj hs
      obtain rfl := Option.some.inj hs'
      exact Nat.le_refl k

/-- The stretch of an event is a way of measuring, once a bracket that is never closed has none. -/
theorem measure_firmStretch : Measure d (Event.firmStretch? d) := by
  constructor
  · intro e s hs
    have hstretch : e.stretch? d = some s := by
      unfold Event.firmStretch? at hs
      split at hs
      · cases hs
      · exact hs
    cases e with
    | endOfInput => cases hstretch
    | _ =>
      refine ⟨s, _, hstretch, rfl, fun hi hj => ?_⟩
      exact ⟨Nat.le_refl _, Nat.le_trans hi hj, Nat.le_refl _⟩
  · intro a k hle
    refine ⟨hle, ?_, ?_⟩
    · intro e he s hs
      rcases List.mem_cons.mp he with rfl | hlast
      · cases hs
      · obtain rfl := List.mem_singleton.mp hlast
        obtain rfl := Option.some.inj hs
        exact ⟨Nat.le_refl a, hle, Nat.le_refl k⟩
    · apply List.pairwise_pair.mpr
      intro s s' hs
      cases hs

/-! ## Places and spans -/

/-- The span of an event lies within its stretch. -/
theorem exists_stretch_of_span {s : Span} (h : e.span? = some s) :
    ∃ t, e.firmStretch? d = some t ∧ t.start ≤ s.start ∧ s.stop ≤ t.stop := by
  cases e <;> cases h
  case interpolation =>
    exact ⟨_, rfl, Nat.sub_le _ _, Nat.le_add_right _ _⟩
  all_goals exact ⟨_, rfl, Nat.le_refl _, Nat.le_refl _⟩

/-- The place of an event is not behind its stretch. -/
theorem exists_stretch_of_position (h : e.position? = some n)
    (he : ∀ k, e ≠ .error .missingDynamicArgumentEnd k) :
    ∃ t, e.firmStretch? d = some t ∧ n ≤ t.stop := by
  cases e with
  | endOfInput => cases h
  | interpolation s =>
    obtain rfl := Option.some.inj h
    exact ⟨_, rfl, Nat.le_add_right _ _⟩
  | error code k =>
    obtain rfl := Option.some.inj h
    cases code with
    | missingDynamicArgumentEnd => exact (he k rfl).elim
    | _ => exact ⟨_, rfl, Nat.le_refl _⟩
  | _ =>
    obtain rfl := Option.some.inj h
    exact ⟨_, rfl, Nat.le_refl _⟩

/-- The places of the events of a template never go back. Its spans are in order and do not overlap,
and each of them begins behind the places of all events in front of it but for a bracket that is
never closed. -/
theorem events_inOrder (o : Options) (rawText : Bool) (template : String) :
    (((o.dialect rawText).events template).filterMap Event.position?).Pairwise (· ≤ ·) ∧
      (∀ s ∈ ((o.dialect rawText).events template).filterMap Event.span?, s.start ≤ s.stop) ∧
      (((o.dialect rawText).events template).filterMap Event.span?).Pairwise
        (fun s s' => s.stop ≤ s'.start) ∧
      ((o.dialect rawText).events template).Pairwise fun e e' =>
        (∀ k, e ≠ .error .missingDynamicArgumentEnd k) →
          ∀ n s, e.position? = some n → e'.span? = some s → n ≤ s.start := by
  have hplaces := inOrder_events o rawText template measure_place
  have hfirm := inOrder_events o rawText template measure_firmStretch
  refine ⟨?_, ?_, ?_, ?_⟩
  · apply List.pairwise_filterMap.mpr
    refine hplaces.sorted.imp fun {e e'} hsorted n hn n' hn' => ?_
    exact hsorted ⟨n, n⟩ ⟨n', n'⟩ (by rw [Event.place?, hn]; rfl) (by rw [Event.place?, hn']; rfl)
  · intro s hs
    obtain ⟨e, he, hspan⟩ := List.mem_filterMap.mp hs
    exact ((fits_of_mem he).span_fits hspan).le
  · apply List.pairwise_filterMap.mpr
    refine hfirm.sorted.imp fun {e e'} hsorted s hs s' hs' => ?_
    obtain ⟨t, ht, _, hstop⟩ := exists_stretch_of_span (d := o.dialect rawText) hs
    obtain ⟨t', ht', hstart, _⟩ := exists_stretch_of_span (d := o.dialect rawText) hs'
    exact Nat.le_trans hstop (Nat.le_trans (hsorted t t' ht ht') hstart)
  · refine hfirm.sorted.imp fun {e e'} hsorted he n s hn hs => ?_
    obtain ⟨t, ht, hstop⟩ := exists_stretch_of_position (d := o.dialect rawText) hn he
    obtain ⟨t', ht', hstart, _⟩ := exists_stretch_of_span (d := o.dialect rawText) hs
    exact Nat.le_trans hstop (Nat.le_trans (hsorted t t' ht ht') hstart)

-- The bracket that is never closed is noticed at `6`, the argument in front of it begins at `4`.
example : (Options.dialect {} false).events "<a :[b>" =
    [.openTagName ⟨1, 2⟩, .dirName ⟨3, 4⟩ (some .bind), .error .missingDynamicArgumentEnd 6,
      .dirArg ⟨4, 6⟩, .attribNameEnd 6, .attribEnd .absent 6, .openTagEnd 6, .endOfInput] := by
  decide +kernel

end TemplateLexer
