import TemplateLexer.Proofs.Layout.Plain

/-!
# No byte is lost

Every byte of a template is held by exactly one span of the events, or it belongs to the markup that
no span holds: a marker, what stands in front of the name of a tag, what stands behind the name of a
closing tag, or the punctuation of an opening tag (`Skipped`). Only the bytes of a tag that the
template ends in are not accounted for, and then the events say so.
-/

set_option autoImplicit false

namespace TemplateLexer.Layout

open Marker

/-! ## Offsets in spans -/

/-- Whether the span of an event holds an offset. -/
def holds (p : Nat) (e : Event) : Bool :=
  e.span?.any fun s => s.start ≤ p && p < s.stop

/-- The number of spans that hold an offset. -/
def spansAt (es : List Event) (p : Nat) : Nat :=
  es.countP (holds p)

/-- The spans of a row of events hold no offset outside of a stretch, and each offset inside of it
once, or not at all if the offset has a certain property. -/
structure Covers (Q : Nat → Prop) (i j : Nat) (es : List Event) : Prop where
  le : i ≤ j
  outside : ∀ p, p < i ∨ j ≤ p → spansAt es p = 0
  inside : ∀ p, i ≤ p → p < j → spansAt es p = 1 ∨ spansAt es p = 0 ∧ Q p

variable {Q R : Nat → Prop} {i j k : Nat} {e : Event} {es first last : List Event}

/-- The spans that hold an offset add up over two rows. -/
theorem spansAt_append (p : Nat) :
    spansAt (first ++ last) p = spansAt first p + spansAt last p := by
  simp [spansAt]

/-- Two stretches that meet are covered by their events in a row. -/
theorem Covers.append (h₁ : Covers Q i j first) (h₂ : Covers Q j k last) :
    Covers Q i k (first ++ last) := by
  refine ⟨Nat.le_trans h₁.le h₂.le, fun p hp => ?_, fun p hi hk => ?_⟩
  · have hle₁ := h₁.le
    have hle₂ := h₂.le
    rw [spansAt_append, h₁.outside p (by omega), h₂.outside p (by omega)]
  · rw [spansAt_append]
    by_cases hp : p < j
    · rw [h₂.outside p (Or.inl hp)]
      exact h₁.inside p hi hp
    · rw [h₁.outside p (Or.inr (by omega)), Nat.zero_add]
      exact h₂.inside p (by omega) hk

/-- A stretch without spans is covered if each of its offsets is excused. -/
theorem Covers.gap (h : i ≤ j) (hQ : ∀ p, i ≤ p → p < j → Q p) : Covers Q i j [] := by
  refine ⟨h, fun p _ => rfl, fun p hi hj => ?_⟩
  exact Or.inr ⟨rfl, hQ p hi hj⟩

/-- An empty stretch needs no events. -/
theorem Covers.nil : Covers Q i i [] := by
  apply Covers.gap (Nat.le_refl i)
  intro p hi hj
  omega

/-- A single byte without a span is covered if it is excused. -/
theorem Covers.byte (h : Q i) : Covers Q i (i + 1) [] := by
  apply Covers.gap (Nat.le_succ i)
  intro p hi hj
  rwa [show p = i by omega]

/-- A span covers exactly the bytes that it holds. -/
theorem Covers.span (he : e.span? = some ⟨i, j⟩) (h : i ≤ j) : Covers Q i j [e] := by
  refine ⟨h, fun p hp => ?_, fun p hi hj => Or.inl ?_⟩
  · simp [spansAt, holds, he]
    omega
  · simp [spansAt, holds, he, hi, hj]

/-- An event without a span covers nothing and spoils nothing. -/
theorem Covers.silent (he : e.span? = none) : Covers Q i i [e] := by
  refine ⟨Nat.le_refl i, fun p _ => ?_, fun p hi hj => by omega⟩
  simp [spansAt, holds, he]

/-- An excuse can be replaced by a wider one. -/
theorem Covers.mono (h : Covers Q i j es) (hQ : ∀ p, i ≤ p → p < j → Q p → R p) :
    Covers R i j es := by
  refine ⟨h.le, h.outside, fun p hi hj => ?_⟩
  rcases h.inside p hi hj with hone | ⟨hzero, hp⟩
  · exact Or.inl hone
  · exact Or.inr ⟨hzero, hQ p hi hj hp⟩

/-! ## The bytes that no span holds -/

/-- The bytes that stand in a tag for themselves. -/
def isSeparator (c : UInt8) : Bool :=
  Byte.isSpace c || c == Byte.slash || c == Byte.tagEnd || c == Byte.equals

/-- What the bytes of an opening tag are for that no span holds. -/
inductive Punctuation (w : List UInt8) (es : List Event) (p : Nat) : Prop
  | separator {c : UInt8} : w[p]? = some c → isSeparator c = true → Punctuation w es p
  | openQuote {e : Nat} (mark : QuoteMark) : w[p]? = some mark.byte →
      .attribData ⟨p + 1, e⟩ ∈ es → Punctuation w es p
  | closeQuote {v : Nat} (mark : QuoteMark) : w[v]? = some mark.byte → w[p]? = some mark.byte →
      .attribData ⟨v + 1, p⟩ ∈ es → Punctuation w es p
  | lastQuote {m : Nat} (mark : QuoteMark) : Quoted w m mark p → .attribNameEnd m ∈ es →
      p + 1 = w.length → Punctuation w es p
  | colon {i k : Nat} : w[p]? = some Byte.colon → .dirName ⟨i, p⟩ none ∈ es →
      .dirArg ⟨p + 1, k⟩ ∈ es ∨ .dirDynamicArg ⟨p + 2, k⟩ ∈ es → Punctuation w es p
  | dot {k : Nat} : w[p]? = some Byte.dot → .dirModifier ⟨p + 1, k⟩ ∈ es → Punctuation w es p
  | openBracket {k : Nat} : w[p]? = some Byte.bracketOpen → .dirDynamicArg ⟨p + 1, k⟩ ∈ es →
      Punctuation w es p
  | closeBracket {a : Nat} : w[p]? = some Byte.bracketClose → .dirDynamicArg ⟨a, p⟩ ∈ es →
      Punctuation w es p

/-- Whether an event is the end of an opening tag. -/
def endsTag : Event → Bool
  | .openTagEnd _ | .selfClosingTag _ => true
  | _ => false

/-- The events behind which a template can end within a value. -/
def opensValue : Event → Bool
  | .attribNameEnd _ | .attribData _ => true
  | _ => false

/-- An offset behind the name of an opening tag, up to the `>` of that tag, or up to the end of the
template if this comes within a value. -/
inductive InOpenTag (w : List UInt8) (es : List Event) (p : Nat) : Prop
  | ended {a b n : Nat} {stop : Event} {before attrs behind : List Event} :
      es = before ++ .openTagName ⟨a, b⟩ :: (attrs ++ stop :: behind) →
      (∀ e ∈ attrs, endsTag e = false) → TagEnd n stop → w[n]? = some Byte.tagEnd → b ≤ p →
      p ≤ n → InOpenTag w es p
  | unfinished {a b : Nat} {last : Event} {before attrs : List Event} :
      es = before ++ .openTagName ⟨a, b⟩ :: (attrs ++ [last, .endOfInput]) →
      (∀ e ∈ attrs, endsTag e = false) → opensValue last = true → b ≤ p → InOpenTag w es p

/-- What the bytes are that no span holds. -/
inductive Skipped (d : Dialect) (w : List UInt8) (es : List Event) (p : Nat) : Prop
  | openMarker {i b : Nat} : .interpolation ⟨i + d.opening.length, b⟩ ∈ es →
      OccursAt d.opening w i → i ≤ p → p < i + d.opening.length → Skipped d w es p
  | closeMarker {a b : Nat} : .interpolation ⟨a, b⟩ ∈ es → OccursAt d.closing w b → b ≤ p →
      p < b + d.closing.length → Skipped d w es p
  | opener {i a b : Nat} : .openTagName ⟨a, b⟩ ∈ es → Opener d w i a → i ≤ p → p < a →
      Skipped d w es p
  | closeOpener {i a b : Nat} : .closeTag ⟨a, b⟩ ∈ es → CloseOpener d w i a → i ≤ p → p < a →
      Skipped d w es p
  | behindName {a b : Nat} : .closeTag ⟨a, b⟩ ∈ es → Only (· != Byte.tagEnd) w b p →
      Skipped d w es p
  | inTag : InOpenTag w es p → Punctuation w es p → Skipped d w es p

/-! ## Attributes -/

variable {d : Dialect} {w : List UInt8} {a b m n v : Nat} {all : List Event}

/-- Bytes that separate attributes are punctuation. -/
theorem covers_separators {q : UInt8 → Bool} (h : Only q w i j)
    (hq : ∀ c, q c = true → isSeparator c = true) : Covers (Punctuation w all) i j [] := by
  apply Covers.gap h.le
  intro p hi hj
  obtain ⟨c, hw, hc⟩ := h.byte p hi hj
  exact .separator hw (hq c hc)

/-- White space is punctuation. -/
theorem covers_spaces (h : Only Byte.isSpace w i j) : Covers (Punctuation w all) i j [] := by
  apply covers_separators h
  intro c hc
  simp [isSeparator, hc]

/-- An argument covers its bytes: brackets of its own are punctuation. -/
theorem covers_arg (h : Arg w a k e) (he : e ∈ all) : Covers (Punctuation w all) a k [e] := by
  cases h with
  | static hrow _ => exact .span rfl hrow.le
  | dynamic _ henc =>
    obtain ⟨htwo, hopen, hclose⟩ := henc
    have hfirst : Covers (Punctuation w all) a (a + 1) [] := .byte (.openBracket hopen he)
    have hlast := Covers.byte (i := k - 1) (Punctuation.closeBracket hclose he)
    rw [show k - 1 + 1 = k by omega] at hlast
    exact (hfirst.append (.span rfl (by omega))).append hlast

/-- What stands in front of an argument covers its bytes, up to the colon of the long form. -/
theorem covers_head (h : ArgHead w i a e) (he : e ∈ all)
    (harg : .dirArg ⟨a, k⟩ ∈ all ∨ .dirDynamicArg ⟨a + 1, k⟩ ∈ all) :
    Covers (Punctuation w all) i a [e] := by
  cases h with
  | @long j hlong hcolon =>
    have hle := hlong.two_le
    have hname : Covers (Punctuation w all) i j [.dirName ⟨i, j⟩ none] := .span rfl (by omega)
    exact hname.append (.byte (.colon hcolon he harg))
  | sigil s _ => exact .span rfl (Nat.le_succ i)

/-- A directive covers its bytes, up to its colon and its dots. -/
theorem covers_directive (h : Directive w i j es) (hes : es ⊆ all) :
    Covers (Punctuation w all) i j es := by
  induction h with
  | long hlong =>
    have hle := hlong.two_le
    exact .span rfl (by omega)
  | @arg a k head arg hhead harg =>
    have hmem : arg ∈ all := hes (by simp)
    have hfirst : Covers (Punctuation w all) i a [head] := by
      cases harg with
      | static _ _ => exact covers_head hhead (hes (by simp)) (Or.inl hmem)
      | dynamic _ _ => exact covers_head hhead (hes (by simp)) (Or.inr hmem)
    exact hfirst.append (covers_arg harg hmem)
  | @modifier j k es _ hdot hmod ih =>
    have hfirst := ih fun e he => hes (List.mem_append_left _ he)
    have hmem : Event.dirModifier ⟨j + 1, k⟩ ∈ all := hes (by simp)
    have hbyte : Covers (Punctuation w all) j (j + 1) [] := .byte (.dot hdot hmem)
    exact hfirst.append (hbyte.append (.span rfl hmod.le))

/-- A name covers its bytes. -/
theorem covers_name (h : Name w i j es) (hes : es ⊆ all) : Covers (Punctuation w all) i j es := by
  cases h with
  | plain hname =>
    have hle := hname.rest.le
    exact .span rfl (by omega)
  | directive hdir => exact covers_directive hdir hes
  | @unclosed a _ head hhead hrow =>
    have harg : Event.dirArg ⟨a, j⟩ ∈ all := hes (by simp)
    have hfirst := covers_head hhead (hes (by simp)) (Or.inl harg)
    have herror : Covers (Punctuation w all) a a [.error .missingDynamicArgumentEnd j] :=
      .silent rfl
    exact hfirst.append (herror.append (.span rfl hrow.le))

/-- The end of a name has no bytes. -/
theorem covers_named (h : Name w i n es) (hes : es ⊆ all) :
    Covers (Punctuation w all) i n (es ++ [.attribNameEnd n]) :=
  (covers_name h hes).append (.silent rfl)

/-- The sign of a value and the white space around it are punctuation. -/
theorem covers_announced (h : Announced w n v) : Covers (Punctuation w all) n v [] := by
  obtain ⟨q, hbefore, heq, hafter⟩ := h
  have hsign : Covers (Punctuation w all) q (q + 1) [] := .byte (.separator heq rfl)
  exact (covers_spaces hbefore).append (hsign.append (covers_spaces hafter))

/-- An attribute covers its bytes, up to the sign of its value and the quotation marks. -/
theorem covers_attr (h : Attr w i j es) (hes : es ⊆ all) : Covers (Punctuation w all) i j es := by
  have hsub : ∀ {first last : List Event}, first ++ last ⊆ all → first ⊆ all := by
    intro first last h e he
    exact h (List.mem_append_left last he)
  cases h with
  | absent hname =>
    rw [List.append_cons]
    exact (covers_named hname (hsub hes)).append (.silent rfl)
  | @quoted n v e name mark hname hquoted hvalue hend =>
    have hdata : Event.attribData ⟨v + 1, e⟩ ∈ all := hes (by simp)
    have hopen : Covers (Punctuation w all) v (v + 1) [] :=
      .byte (.openQuote mark hquoted.quote hdata)
    have hspan : Covers (Punctuation w all) (v + 1) e [.attribData ⟨v + 1, e⟩] :=
      .span rfl hvalue.le
    have hclose : Covers (Punctuation w all) e (e + 1) [] :=
      .byte (.closeQuote mark hquoted.quote hend hdata)
    have hlast : Covers (Punctuation w all) (e + 1) (e + 1) [.attribEnd mark.quote (e + 1)] :=
      .silent rfl
    rw [List.append_cons]
    exact (covers_named hname (hsub hes)).append ((covers_announced hquoted.announced).append
      (hopen.append (hspan.append (hclose.append hlast))))
  | @bare n v e name hname hbare =>
    have hspan : Covers (Punctuation w all) v j [.attribData ⟨v, j⟩] := .span rfl hbare.value.le
    rw [List.append_cons]
    exact (covers_named hname (hsub hes)).append
      ((covers_announced hbare.announced).append (hspan.append (.silent rfl)))

/-- Attributes and what separates them leave no byte out. -/
theorem covers_attrs (h : Attrs w b n es) (hes : es ⊆ all) : Covers (Punctuation w all) b n es := by
  induction h with
  | nil => exact .nil
  | @gap n c es _ hw hc ih =>
    have hsep : isSeparator c = true := by
      rcases hc with hspace | rfl
      · simp [isSeparator, hspace]
      · rfl
    have hbyte : Covers (Punctuation w all) n (n + 1) [] := .byte (.separator hw hsep)
    have hboth := (ih hes).append hbyte
    rwa [List.append_nil] at hboth
  | attr _ ha ih =>
    have hfirst := ih fun e he => hes (List.mem_append_left _ he)
    exact hfirst.append (covers_attr ha fun e he => hes (List.mem_append_right _ he))

/-! ## No tag ends inside an attribute -/

/-- The name of a directive is not the end of a tag. -/
theorem endsTag_of_head (h : ArgHead w i a e) : endsTag e = false := by
  cases h <;> rfl

/-- No event of a directive is the end of a tag. -/
theorem endsTag_of_directive (h : Directive w i j es) : ∀ e ∈ es, endsTag e = false := by
  induction h with
  | long _ => simp [endsTag]
  | @arg _ _ _ arg hhead harg =>
    have hargument : endsTag arg = false := by cases harg <;> rfl
    simp [endsTag_of_head hhead, hargument]
  | modifier _ _ _ ih => exact List.forall_mem_append.mpr ⟨ih, by simp [endsTag]⟩

/-- No event of a name is the end of a tag. -/
theorem endsTag_of_name (h : Name w i j es) : ∀ e ∈ es, endsTag e = false := by
  cases h with
  | plain _ => simp [endsTag]
  | directive hdir => exact endsTag_of_directive hdir
  | unclosed hhead _ =>
    exact List.forall_mem_cons.mpr ⟨endsTag_of_head hhead, by simp [endsTag]⟩

/-- No event of an attribute is the end of a tag. -/
theorem endsTag_of_attr (h : Attr w i j es) : ∀ e ∈ es, endsTag e = false := by
  cases h with
  | absent hname =>
    exact List.forall_mem_append.mpr ⟨endsTag_of_name hname, by simp [endsTag]⟩
  | quoted mark hname _ _ _ =>
    exact List.forall_mem_append.mpr ⟨endsTag_of_name hname, by simp [endsTag]⟩
  | bare hname _ =>
    exact List.forall_mem_append.mpr ⟨endsTag_of_name hname, by simp [endsTag]⟩

/-- No event between the name of a tag and its end is the end of a tag. -/
theorem endsTag_of_attrs (h : Attrs w b n es) : ∀ e ∈ es, endsTag e = false := by
  induction h with
  | nil => simp
  | gap _ _ _ ih => exact ih
  | attr _ ha ih => exact List.forall_mem_append.mpr ⟨ih, endsTag_of_attr ha⟩

/-! ## Templates -/

/-- An opening tag goes on covering what its attributes cover. -/
theorem covers_tag {inside : List Event} (hes : Covers (Skipped d w all) 0 i es)
    (hop : Opener d w i a) (hname : TagName w a b)
    (hinside : Covers (Punctuation w all) b n inside)
    (hin : ∀ p, b ≤ p → p < n → InOpenTag w all p) (hmem : .openTagName ⟨a, b⟩ ∈ all) :
    Covers (Skipped d w all) 0 n (es ++ .openTagName ⟨a, b⟩ :: inside) := by
  have hmarks := hop.marks.le
  have hrest := hname.rest.le
  have hopener : Covers (Skipped d w all) i a [] :=
    .gap (by omega) fun p hi ha => .opener hmem hop hi ha
  have hspan : Covers (Skipped d w all) a b [.openTagName ⟨a, b⟩] := .span rfl (by omega)
  have htag : Covers (Skipped d w all) b n inside :=
    hinside.mono fun p hb hn hp => .inTag (hin p hb hn) hp
  exact hes.append (hopener.append (hspan.append htag))

/-- A closing tag covers its name, and what stands around the name is skipped. -/
theorem covers_closeTag (hes : Covers (Skipped d w all) 0 i es) (hop : CloseOpener d w i a)
    (hname : TagName w a b) (hskip : Only (· != Byte.tagEnd) w b n)
    (hmem : .closeTag ⟨a, b⟩ ∈ all) :
    Covers (Skipped d w all) 0 (n + 1) (es ++ [.closeTag ⟨a, b⟩]) := by
  have hslash := hop.slash_le
  have hrest := hname.rest.le
  have hopener : Covers (Skipped d w all) i a [] :=
    .gap (by omega) fun p hi ha => .closeOpener hmem hop hi ha
  have hspan : Covers (Skipped d w all) a b [.closeTag ⟨a, b⟩] := .span rfl (by omega)
  have hbehind : Covers (Skipped d w all) b (n + 1) [] := by
    apply Covers.gap (Nat.le_succ_of_le hskip.le)
    intro p hb hn
    exact .behindName hmem ⟨hb, fun k hk hkp => hskip.byte k hk (by omega)⟩
  exact hes.append (hopener.append (hspan.append hbehind))

/-- What is described by a layout is covered, in view of all the events there are. -/
theorem covers_laid (h : Laid d w i es) (hall : es <+: all) :
    Covers (Skipped d w all) 0 i es := by
  induction h with
  | nil => exact .nil
  | text _ hij _ _ ih =>
    have hfirst := ih ((List.prefix_append _ _).trans hall)
    exact hfirst.append (.span rfl (Nat.le_of_lt hij))
  | @interpolation i j es _ hin hj hclose _ ih =>
    have hfirst := ih ((List.prefix_append _ _).trans hall)
    have hmem : Event.interpolation ⟨i + d.opening.length, j⟩ ∈ all := hall.mem (by simp)
    have hopen : Covers (Skipped d w all) i (i + d.opening.length) [] :=
      .gap (Nat.le_add_right _ _) fun p hi hp => .openMarker hmem hin.marker hi hp
    have hspan : Covers (Skipped d w all) (i + d.opening.length) j
        [.interpolation ⟨i + d.opening.length, j⟩] := .span rfl hj
    have hlast : Covers (Skipped d w all) j (j + d.closing.length) [] :=
      .gap (Nat.le_add_right _ _) fun p hp hk => .closeMarker hmem hclose hp hk
    exact hfirst.append (hopen.append (hspan.append hlast))
  | closeTag _ hop hname hskip _ ih =>
    have hfirst := ih ((List.prefix_append _ _).trans hall)
    exact covers_closeTag hfirst hop hname hskip (hall.mem (by simp))
  | @openTag i a b n es attrs stop _ hop hname hattrs hend hstop ih =>
    have hfirst := ih ((List.prefix_append _ _).trans hall)
    obtain ⟨behind, hbehind⟩ := hall
    have hmem : Event.openTagName ⟨a, b⟩ ∈ all := by simp [← hbehind]
    have hsub : attrs ⊆ all := by
      intro e he
      simp [← hbehind, he]
    have hbyte : Covers (Punctuation w all) n (n + 1) [] := .byte (.separator hend rfl)
    have hsilent : Covers (Punctuation w all) n n [stop] := by
      cases hstop <;> exact .silent rfl
    have hinside := (covers_attrs hattrs hsub).append (hsilent.append hbyte)
    have hrow : all = es ++ .openTagName ⟨a, b⟩ :: (attrs ++ stop :: behind) := by
      simp [← hbehind]
    refine covers_tag hfirst hop hname hinside (fun p hb hn => ?_) hmem
    exact .ended hrow (endsTag_of_attrs hattrs) hstop hend hb (by omega)

/-- A template that ends within a value: its end is within the opening tag. -/
theorem inOpenTag_of_value {p : Nat} {inner data : List Event}
    (hinner : ∀ e ∈ inner, endsTag e = false)
    (hdata : data = [] ∨ ∃ s, data = [.attribData s])
    (hall : all = es ++ .openTagName ⟨a, b⟩ ::
      (inner ++ .attribNameEnd m :: (data ++ [.endOfInput])))
    (hb : b ≤ p) : InOpenTag w all p := by
  rcases hdata with rfl | ⟨s, rfl⟩
  · exact .unfinished hall hinner rfl hb
  · have hend : all = es ++ .openTagName ⟨a, b⟩ ::
        ((inner ++ [.attribNameEnd m]) ++ [.attribData s, .endOfInput]) := by
      rw [hall]
      simp
    have hnamed : ∀ e ∈ inner ++ [.attribNameEnd m], endsTag e = false :=
      List.forall_mem_append.mpr ⟨hinner, by simp [endsTag]⟩
    exact .unfinished hend hnamed rfl hb

/-- A tag that the template ends in behind a name covers what its value covers. -/
theorem covers_value {data name : List Event} (h : Tagged d w i es) (hname : Name w i m name)
    (hdata : data = [] ∨ ∃ s, data = [.attribData s])
    (hall : all = (es ++ (name ++ [.attribNameEnd m])) ++ (data ++ [.endOfInput]))
    (hvalue : Covers (Punctuation w all) m n data) : Covers (Skipped d w all) 0 n all := by
  obtain ⟨hl, hop, htag, hattrs⟩ := h
  next i₀ a b es attrs =>
  have hfirst : Covers (Skipped d w all) 0 i₀ es := by
    apply covers_laid hl
    rw [hall]
    simp only [List.append_assoc]
    exact List.prefix_append _ _
  have hsub : ∀ {part : List Event}, part ⊆ attrs ++ name → part ⊆ all := by
    intro part hpart e he
    have hmem := hpart he
    rw [hall]
    rcases List.mem_append.mp hmem with hmem | hmem <;> simp [hmem]
  have hinside := (covers_attrs hattrs (hsub (List.subset_append_left _ _))).append
    ((covers_named hname (hsub (List.subset_append_right _ _))).append
      (hvalue.append (.silent (e := .endOfInput) rfl)))
  have hrow : all = es ++ .openTagName ⟨a, b⟩ ::
      (attrs ++ ((name ++ [.attribNameEnd m]) ++ (data ++ [.endOfInput]))) := by
    rw [hall]
    simp
  have hquiet : ∀ e ∈ attrs ++ name, endsTag e = false :=
    List.forall_mem_append.mpr ⟨endsTag_of_attrs hattrs, endsTag_of_name hname⟩
  have hin : ∀ p, b ≤ p → InOpenTag w all p := by
    intro p hb
    have hinner : all = es ++ .openTagName ⟨a, b⟩ ::
        ((attrs ++ name) ++ .attribNameEnd m :: (data ++ [.endOfInput])) := by
      rw [hrow]
      simp
    exact inOpenTag_of_value hquiet hdata hinner hb
  have hcovers := covers_tag hfirst hop htag hinside (fun p hb _ => hin p hb)
    (by rw [hrow]; simp)
  rwa [← hrow] at hcovers

/-- The text under way covers its bytes, and no text covers none. -/
theorem covers_pendingText {s : Scan} (hs : s.sectionStart = some i) (hi : i ≤ n) :
    Covers Q i n (s.pendingText n) := by
  simp only [Scan.pendingText, hs, Option.getD_some]
  by_cases hlt : i < n
  · rw [if_pos hlt]
    exact .span rfl hi
  · rw [if_neg hlt, show i = n by omega]
    exact .nil

/-- Nothing is left open if the rest covers what is left of the template. -/
theorem covers_rest (hl : Laid d w i es) (hrest : Covers (Skipped d w all) i n last)
    (hall : all = es ++ (last ++ [.endOfInput])) : Covers (Skipped d w all) 0 n all := by
  have hfirst : Covers (Skipped d w all) 0 i es := by
    apply covers_laid hl
    rw [hall]
    exact List.prefix_append _ _
  have hcovers := hfirst.append (hrest.append (.silent (e := .endOfInput) rfl))
  rwa [← hall] at hcovers

/-- What is reported of a value that a template ends in. -/
def valueRest (v n : Nat) : List Event :=
  if (⟨v, n⟩ : Span).isEmpty then [] else [.attribData ⟨v, n⟩]

/-- Of a value without bytes nothing is reported. -/
theorem valueRest_self : valueRest n n = [] := by
  simp [valueRest, Span.isEmpty]

/-- Of any other value its bytes are reported. -/
theorem valueRest_of_ne (h : v ≠ n) : valueRest v n = [.attribData ⟨v, n⟩] := by
  simp [valueRest, Span.isEmpty, h]

/-- Of an unfinished value nothing is reported, or its bytes. -/
theorem valueRest_cases : valueRest v n = [] ∨ ∃ s, valueRest v n = [.attribData s] := by
  by_cases h : v = n
  · subst h
    exact Or.inl valueRest_self
  · exact Or.inr ⟨_, valueRest_of_ne h⟩

/-- What is reported of an unfinished value covers it. -/
theorem covers_valueRest (h : v ≤ n) : Covers Q v n (valueRest v n) := by
  by_cases hvn : v = n
  · subst hvn
    rw [valueRest_self]
    exact .nil
  · rw [valueRest_of_ne hvn]
    exact .span rfl h

/-- An unfinished value covers its bytes, and the mark in front of it is punctuation. -/
theorem covers_quotedRest {mark : QuoteMark} (hquoted : Quoted w m mark v)
    (hvalue : Only (· != mark.byte) w (v + 1) n) (hn : n = w.length)
    (hname : .attribNameEnd m ∈ all) (hdata : valueRest (v + 1) n ⊆ all) :
    Covers (Punctuation w all) m n (valueRest (v + 1) n) := by
  have hmark : Punctuation w all v := by
    by_cases hvn : v + 1 = n
    · exact .lastQuote mark hquoted hname (hvn.trans hn)
    · rw [valueRest_of_ne hvn] at hdata
      exact .openQuote mark hquoted.quote (hdata List.mem_cons_self)
  have hbyte : Covers (Punctuation w all) v (v + 1) [] := .byte hmark
  exact (covers_announced hquoted.announced).append
    (hbyte.append (covers_valueRest hvalue.le))

/-- Unless a scan ends in a tag, outside of its values, the events cover every byte. -/
theorem covers_underway {s : Scan} (h : Underway d w s es) (hs : s.cursor = w.length)
    (htag : ∀ n, .error .eofInTag n ∉ es ++ s.ending) :
    Covers (Skipped d w (es ++ s.ending)) 0 w.length (es ++ s.ending) := by
  have hno : s.leftover ≠ [.error .eofInTag s.cursor] := by
    intro hleft
    apply htag s.cursor
    simp [Scan.ending, hleft]
  rw [← hs]
  cases h with
  | text hl hi _ => exact covers_rest hl (covers_pendingText rfl hi) rfl
  | interpolationOpen hl hi _ _ _ _ =>
    exact covers_rest hl (covers_pendingText rfl (Nat.le_add_right_of_le hi)) rfl
  | interpolation hl _ hn _ =>
    have hle := Nat.le_of_add_right_le hn
    exact covers_rest hl ((Covers.silent rfl).append (covers_pendingText rfl hle)) rfl
  | @interpolationClose i m k _ hl _ hm _ _ _ =>
    have hle : i ≤ m + k := by omega
    exact covers_rest hl ((Covers.silent rfl).append (covers_pendingText rfl hle)) rfl
  | beforeTagName hl hop =>
    have hle := hop.marks.le
    exact covers_rest hl (covers_pendingText rfl (Nat.le_of_succ_le hle)) rfl
  | beforeClosingTagName hl hop =>
    have hle := hop.slash_le
    exact covers_rest hl (covers_pendingText rfl (Nat.le_of_add_right_le hle)) rfl
  -- In a tag, outside of its values, the end is the error that is ruled out.
  | inTagName _ _ _ => exact (hno rfl).elim
  | inClosingTagName _ _ _ => exact (hno rfl).elim
  | afterClosingTagName _ _ _ _ => exact (hno rfl).elim
  | beforeAttrName _ => exact (hno rfl).elim
  | inSelfClosingTag _ => exact (hno rfl).elim
  | inAttrName _ _ => exact (hno rfl).elim
  | inDirName _ _ _ _ => exact (hno rfl).elim
  | inDirArg _ _ _ => exact (hno rfl).elim
  | inDirDynamicArg _ _ _ => exact (hno rfl).elim
  | inDirModifier _ _ _ _ => exact (hno rfl).elim
  | afterAttrName _ _ _ => exact (hno rfl).elim
  | beforeAttrValue _ _ _ => exact (hno rfl).elim
  -- The bytes of an unfinished value are its data, but its quote is closed nowhere.
  | inQuotedValue mark h hname hquoted hvalue =>
    refine covers_value h hname valueRest_cases rfl (covers_quotedRest hquoted hvalue hs ?_ ?_)
    · simp
    · intro e he
      apply List.mem_append_right
      exact List.mem_append_left _ he
  | inBareValue h hname hbare =>
    refine covers_value h hname valueRest_cases rfl ?_
    exact (covers_announced hbare.announced).append (covers_valueRest hbare.value.le)

/-- Unless a template ends in a tag, outside of its values, every byte of it is held by exactly one
span, or it is markup that no span holds. The bytes of a template without tags are those of its
texts and interpolations, with the markers. -/
theorem byte_covered_or_skipped (o : Options) (rawText : Bool) (template : String) :
    ((∀ n, .error .eofInTag n ∉ (o.dialect rawText).events template) →
      ∀ p < (utf8Bytes template).length,
        spansAt ((o.dialect rawText).events template) p = 1 ∨
          spansAt ((o.dialect rawText).events template) p = 0 ∧
            Skipped (o.dialect rawText) (utf8Bytes template)
              ((o.dialect rawText).events template) p) ∧
      (Plain (o.dialect rawText) (utf8Bytes template) →
        rebuild (o.dialect rawText) (utf8Bytes template) ((o.dialect rawText).events template) =
          utf8Bytes template) := by
  refine ⟨fun htag p hp => ?_, rebuild_events o rawText template⟩
  have hcovers := covers_underway (o.underway_run rawText template) (Dialect.cursor_run _ template)
    htag
  exact hcovers.inside p (Nat.zero_le p) hp

/-- The template ends inside a value here, the one end of a tag that no error reports. -/
theorem byte_covered_or_skipped_unclosed :
    (∀ n, .error .eofInTag n ∉ (Options.dialect {} false).events "<b c='") ∧
      (spansAt ((Options.dialect {} false).events "<b c='") 5 = 1 ∨
        spansAt ((Options.dialect {} false).events "<b c='") 5 = 0 ∧
          Skipped (Options.dialect {} false) (utf8Bytes "<b c='")
            ((Options.dialect {} false).events "<b c='") 5) ∧
      Plain (Options.dialect {} true) (utf8Bytes "<b c='") ∧
      rebuild (Options.dialect {} true) (utf8Bytes "<b c='")
        ((Options.dialect {} true).events "<b c='") = utf8Bytes "<b c='" := by
  have hevents : (Options.dialect {} false).events "<b c='" =
      [.openTagName ⟨1, 2⟩, .attribName ⟨3, 4⟩, .attribNameEnd 4, .endOfInput] := by decide +kernel
  have htag : ∀ n, .error .eofInTag n ∉ (Options.dialect {} false).events "<b c='" := by
    intro n
    rw [hevents]
    simp
  have hraw : Plain (Options.dialect {} true) (utf8Bytes "<b c='") := Or.inl rfl
  exact ⟨htag, (byte_covered_or_skipped {} false "<b c='").1 htag 5 (by decide), hraw,
    (byte_covered_or_skipped {} true "<b c='").2 hraw⟩

end TemplateLexer.Layout
