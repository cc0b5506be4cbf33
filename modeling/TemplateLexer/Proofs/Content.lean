import TemplateLexer.Proofs.Order

/-!
# Text and interpolations among tags

Text and markers are looked for in what the tags leave over. A `<` interrupts the comparison of a
marker, and one that turns back into text hands its bytes over again. Every interpolation is found
between its markers all the same, and if the markers are restartable none is overlooked, neither in
the texts nor in the interpolations (`content_exact`). A text holds no `<` but the one that turned
back into it.
-/

set_option autoImplicit false

namespace TemplateLexer

/-- The modes outside of tags and those in which an opening can still turn back into text. -/
def Mode.isContent : Mode → Bool
  | .text | .interpolationOpen | .interpolation | .interpolationClose | .beforeTagName
  | .beforeClosingTagName | .reserved _ => true
  | _ => false

/-- The modes with a text under way, the comparison of an opening marker included. -/
def Mode.readsText : Mode → Bool
  | .text | .interpolationOpen => true
  | _ => false

namespace Layout

open Marker

/-! ## Texts without tags -/

/-- No tag opens from one offset to another, and a `<` can only stand at the first of them. -/
structure Unopened (w : List UInt8) (i j : Nat) : Prop where
  behind : ∀ p, i < p → p < j → w[p]? ≠ some Byte.tagOpen
  front : i < j → w[i]? = some Byte.tagOpen → ∀ c, w[i + 1]? = some c → Byte.isTagStart c = false

/-- A `<` is always read as the opening of a tag: no marker under comparison can take it. -/
structure OpensTags (d : Dialect) : Prop where
  tags : d.rawText = false
  unmarked : d.vPre = true ∨ Byte.tagOpen ∉ d.opening

variable {d : Dialect} {w : List UInt8} {i j k m n : Nat} {c : UInt8} {s : Scan} {e : Event}
  {es : List Event}

namespace Unopened

/-- There is no byte in which a tag could open. -/
theorem refl : Unopened w i i :=
  ⟨fun p hi hj => by omega, fun hlt => by omega⟩

/-- In a part of the stretch from its start on, no tag opens either. -/
theorem mono (h : Unopened w i j) (hk : k ≤ j) : Unopened w i k :=
  ⟨fun p hi hp => h.behind p hi (by omega), fun hlt => h.front (by omega)⟩

/-- A byte other than `<` opens no tag. -/
theorem succ (h : Unopened w i n) (hw : w[n]? = some c) (hc : c ≠ Byte.tagOpen) :
    Unopened w i (n + 1) := by
  have hn : w[n]? ≠ some Byte.tagOpen := by
    rw [hw]
    exact fun heq => hc (Option.some.inj heq)
  constructor
  · intro p hi hp
    by_cases hpn : p = n
    · rwa [hpn]
    · exact h.behind p hi (by omega)
  · intro hle hopen
    have hlt : i < n := by
      rcases Nat.lt_or_ge i n with hlt | hge
      · exact hlt
      · obtain rfl : i = n := by omega
        exact (hn hopen).elim
    exact h.front hlt hopen

/-- Marks stand between the opening of a tag and what turned it back into text. -/
theorem of_opener (h : Opener d w i n) (hw : ∀ c, w[n]? = some c → Byte.isTagStart c = false) :
    Unopened w i n := by
  have hle := h.marks.le
  constructor
  · intro p hi hp
    obtain ⟨c, hc, hmark⟩ := h.marks.byte p hi hp
    rw [hc]
    rintro heq
    obtain rfl := Option.some.inj heq
    cases hmark
  · intro _ _ c hc
    by_cases hn : n = i + 1
    · subst hn
      exact hw c hc
    · obtain ⟨b, hb, hmark⟩ := h.marks.byte (i + 1) (Nat.le_refl _) (by omega)
      obtain rfl : c = b := by
        rw [hb] at hc
        exact (Option.some.inj hc).symm
      simp only [isDeclarationMark, Bool.or_eq_true, beq_iff_eq] at hmark
      rcases hmark with rfl | rfl <;> rfl

/-- The opening of a closing tag that turned back into text is the only `<` up to there. -/
theorem of_closeOpener (h : CloseOpener d w i n) : Unopened w i n := by
  have hle := h.slash_le
  have hmarks : Unopened w i (n - 1) := by
    refine .of_opener h.opener fun c hc => ?_
    obtain rfl : c = Byte.slash := by
      rw [h.slash] at hc
      exact (Option.some.inj hc).symm
    rfl
  have hslash := h.slash
  have hall := hmarks.succ hslash (by decide)
  rwa [Nat.sub_add_cancel (by omega)] at hall

end Unopened

/-! ## What is told -/

/-- A stretch of text in which neither a marker nor a tag has been overlooked. -/
structure Searched (d : Dialect) (w : List UInt8) (i j : Nat) : Prop where
  marker : NoneMissed d w i j
  tag : OpensTags d → Unopened w i j

/-- What a text or an interpolation tells about the bytes that it names. -/
def Told (d : Dialect) (w : List UInt8) : Event → Prop
  | .text s => Searched d w s.start s.stop
  | .interpolation s =>
    ∃ i, s.start = i + d.opening.length ∧ Inside d w i ∧ s.start ≤ s.stop ∧
      OccursAt d.closing w s.stop ∧ (Restartable d.closing → Absent d.closing w s.start s.stop)
  | .error .missingInterpolationEnd _ => False
  | _ => True

/-- The text under way has no tag in it. -/
def Tidy (d : Dialect) (w : List UInt8) (s : Scan) : Prop :=
  s.mode = .text ∨ s.mode = .interpolationOpen → OpensTags d →
    ∀ i, s.sectionStart = some i → Unopened w i s.cursor

/-- What a scan has found, with a tidy text under way and events that tell the truth. -/
structure Telling (d : Dialect) (w : List UInt8) (s : Scan) (es : List Event) : Prop where
  underway : Underway d w s es
  tidy : Tidy d w s
  told : ∀ e ∈ es, Told d w e

/-- A turn keeps the text under way tidy, and its events tell the truth. -/
structure Tells (d : Dialect) (w : List UInt8) (t : Turn) : Prop where
  tidy : Tidy d w t.onward
  told : ∀ e ∈ t.events, Told d w e

/-- The text under way is tidy if no tag opens in it. -/
theorem Tidy.of_unopened {mode : Mode} {matcher : Matcher} {shape : ArgShape}
    (h : OpensTags d → Unopened w i n) : Tidy d w ⟨mode, n, some i, matcher, shape⟩ := by
  intro _ hopens j hj
  obtain rfl := Option.some.inj hj
  exact h hopens

/-- Without a text under way there is nothing to be untidy. -/
theorem Tidy.of_mode (h : s.mode.readsText = false) : Tidy d w s := by
  rintro (hmode | hmode)
  · rw [hmode] at h
    cases h
  · rw [hmode] at h
    cases h

/-- A byte that is handed over without an event tells nothing. -/
theorem Tells.again (h : Tidy d w s) : Tells d w ⟨s, [], true⟩ :=
  ⟨h, nofun⟩

/-- A byte that is kept without an event tells nothing. -/
theorem Tells.next (h : Tidy d w { s with cursor := s.cursor + 1 }) : Tells d w ⟨s, [], false⟩ :=
  ⟨h, nofun⟩

/-- The text under way tells the truth if it has been searched. -/
theorem told_pendingText {mode : Mode} {matcher : Matcher} {shape : ArgShape}
    (h : Searched d w i n) :
    ∀ e ∈ Scan.pendingText ⟨mode, m, some i, matcher, shape⟩ n, Told d w e := by
  intro e he
  simp only [Scan.pendingText, Option.getD_some] at he
  split at he
  · obtain rfl := List.mem_singleton.mp he
    exact h
  · cases he

/-! ## Turns outside of tags -/

/-- A text ends in front of a tag, and any other byte goes on with it. -/
theorem tells_readText (hmissed : NoneMissed d w i n) (hopen : OpensTags d → Unopened w i n)
    (hw : w[n]? = some c) :
    Tells d w (Scan.readText d ⟨.text, n, some i, .idle, .empty⟩ c) := by
  unfold Scan.readText
  split
  · exact ⟨.of_mode rfl, told_pendingText ⟨hmissed, hopen⟩⟩
  · next htag =>
    split
    · exact .again (.of_unopened hopen)
    · refine .next (.of_unopened fun hopens => (hopen hopens).succ hw ?_)
      intro hc
      exact htag ⟨hc, hopens.tags⟩

/-- The bytes compared with the opening marker belong to the text until the marker is complete. -/
theorem tells_readInterpolationOpen (hmissed : NoneMissed d w i m)
    (hopen : OpensTags d → Unopened w i (m + k)) (hpre : d.vPre = false) (hw : w[m + k]? = some c) :
    Tells d w (Scan.readInterpolationOpen d
      ⟨.interpolationOpen, m + k, some i, ⟨some k⟩, .empty⟩ c) := by
  by_cases hbyte : d.opening[k]? = some c
  · by_cases hlast : k + 1 = d.opening.length
    · have hstart : m + k + 1 - d.opening.length = m := by omega
      simp only [Scan.readInterpolationOpen,
        Matcher.step_completed (m := ⟨some k⟩) hbyte hlast, hstart]
      refine ⟨.of_mode rfl, told_pendingText ⟨hmissed, fun hopens => ?_⟩⟩
      exact (hopen hopens).mono (Nat.le_add_right m k)
    · simp only [Scan.readInterpolationOpen, Matcher.step_advanced (m := ⟨some k⟩) hbyte hlast]
      refine .next (.of_unopened fun hopens => (hopen hopens).succ hw ?_)
      rintro rfl
      rcases hopens.unmarked with hvPre | hfree
      · rw [hpre] at hvPre
        cases hvPre
      · exact hfree (List.mem_of_getElem? hbyte)
  · simp only [Scan.readInterpolationOpen, Matcher.step_mismatched (m := ⟨some k⟩) hbyte]
    exact .again (.of_unopened hopen)

/-- Within an interpolation nothing is told. -/
theorem tells_readInterpolation :
    Tells d w (Scan.readInterpolation d ⟨.interpolation, n, some i, .idle, .empty⟩ c) := by
  unfold Scan.readInterpolation
  split
  · exact .again (.of_mode rfl)
  · exact .next (.of_mode rfl)

/-- An interpolation tells the truth once its closing marker is complete. -/
theorem tells_readInterpolationClose (hin : Inside d w i) (hm : i + d.opening.length ≤ m)
    (habsent : Restartable d.closing → Absent d.closing w (i + d.opening.length) m)
    (hmatch : OccursAt (d.closing.take k) w m) (hw : w[m + k]? = some c) :
    Tells d w (Scan.readInterpolationClose d
      ⟨.interpolationClose, m + k, some i, ⟨some k⟩, .empty⟩ c) := by
  by_cases hbyte : d.closing[k]? = some c
  · by_cases hlast : k + 1 = d.closing.length
    · have hmarker := hmatch.take_succ hbyte hw
      rw [hlast, List.take_length] at hmarker
      have hstop : m + k + 1 - d.closing.length = m := by omega
      simp only [Scan.readInterpolationClose,
        Matcher.step_completed (m := ⟨some k⟩) hbyte hlast, hstop]
      refine ⟨.of_unopened fun _ => .refl, fun e he => ?_⟩
      obtain rfl := List.mem_singleton.mp he
      exact ⟨i, rfl, hin, hm, hmarker, habsent⟩
    · simp only [Scan.readInterpolationClose, Matcher.step_advanced (m := ⟨some k⟩) hbyte hlast]
      exact .next (.of_mode rfl)
  · simp only [Scan.readInterpolationClose, Matcher.step_mismatched (m := ⟨some k⟩) hbyte]
    exact .again (.of_mode rfl)

/-- An opening that turns back into text leaves its `<` in front, with no letter behind. -/
theorem tells_readBeforeTagName (hop : Opener d w i n) (hw : w[n]? = some c) :
    Tells d w (Scan.readBeforeTagName ⟨.beforeTagName, n, some i, .idle, .empty⟩ c) := by
  unfold Scan.readBeforeTagName
  split
  · exact .next (.of_mode rfl)
  · split
    · exact .next (.of_mode rfl)
    · split
      · exact .next (.of_mode rfl)
      · next hletter =>
        refine .again (.of_unopened fun _ => .of_opener hop fun b hb => ?_)
        rw [hw] at hb
        obtain rfl := Option.some.inj hb
        exact Bool.not_eq_true _ ▸ hletter

/-- The opening of a closing tag that turns back into text leaves its `<` in front, too. -/
theorem tells_readBeforeClosingTagName (hop : CloseOpener d w i n) :
    Tells d w
      (Scan.readBeforeClosingTagName ⟨.beforeClosingTagName, n, some i, .idle, .empty⟩ c) := by
  unfold Scan.readBeforeClosingTagName
  split
  · exact .next (.of_mode rfl)
  · exact .again (.of_unopened fun _ => .of_closeOpener hop)

/-! ## Turns inside of tags -/

/-- An argument tells nothing about text. -/
theorem told_pendingArg : Told d w s.pendingArg := by
  simp only [Scan.pendingArg]
  split
  · exact trivial
  · exact trivial

/-- Behind a tag, text begins at the cursor. -/
theorem Tidy.fresh {matcher : Matcher} {shape : ArgShape} :
    Tidy d w ⟨.text, n, some n, matcher, shape⟩ :=
  .of_unopened fun _ => .refl

/-- An event that names no text tells the truth in a turn behind which no text is under way. -/
theorem Tells.silent {again : Bool} (h : s.mode.readsText = false) (he : Told d w e) :
    Tells d w ⟨s, [e], again⟩ := by
  refine ⟨.of_mode ?_, List.forall_mem_singleton.mpr he⟩
  rw [Turn.mode_onward]
  exact h

/-- The end of a name tells the truth if what stands in front of it does. -/
theorem tells_nameEnd (h : ∀ e ∈ es, Told d w e) : Tells d w (s.nameEnd es) := by
  refine ⟨.of_mode rfl, fun e he => ?_⟩
  rcases List.mem_append.mp he with hmem | hlast
  · exact h e hmem
  · obtain rfl := List.mem_singleton.mp hlast
    exact trivial

/-- The start of an attribute tells nothing about text. -/
theorem tells_attrStart {next : Option UInt8} : Tells d w (s.attrStart c next) := by
  unfold Scan.attrStart
  split
  · exact .next (.of_mode rfl)
  · split
    · exact .silent rfl trivial
    · exact .next (.of_mode rfl)

section

variable (h : s.mode.readsText = false)

include h

/-- The name of a tag is no text. -/
theorem tells_readInTagName : Tells d w (s.readInTagName c) := by
  unfold Scan.readInTagName
  split
  · exact .silent rfl trivial
  · exact .next (.of_mode h)

/-- The end of a tag that closes itself leaves a text behind that has only begun. -/
theorem tells_readInSelfClosingTag : Tells d w (s.readInSelfClosingTag c) := by
  unfold Scan.readInSelfClosingTag
  split
  · exact ⟨.fresh, List.forall_mem_singleton.mpr trivial⟩
  · split
    · exact .next (.of_mode h)
    · exact .again (.of_mode rfl)

/-- The name of a closing tag is no text. -/
theorem tells_readInClosingTagName : Tells d w (s.readInClosingTagName c) := by
  unfold Scan.readInClosingTagName
  split
  · exact .silent rfl trivial
  · exact .next (.of_mode h)

/-- The end of a closing tag leaves a text behind that has only begun. -/
theorem tells_readAfterClosingTagName : Tells d w (s.readAfterClosingTagName c) := by
  unfold Scan.readAfterClosingTagName
  split
  · exact .next .fresh
  · exact .next (.of_mode h)

/-- The end of an opening tag leaves a text behind that has only begun. -/
theorem tells_readBeforeAttrName {next : Option UInt8} :
    Tells d w (s.readBeforeAttrName c next) := by
  unfold Scan.readBeforeAttrName
  split
  · exact ⟨.fresh, List.forall_mem_singleton.mpr trivial⟩
  · split
    · exact .next (.of_mode rfl)
    · split
      · exact .next (.of_mode h)
      · exact tells_attrStart

/-- The name of an attribute is no text. -/
theorem tells_readInAttrName : Tells d w (s.readInAttrName c) := by
  unfold Scan.readInAttrName
  split
  · exact tells_nameEnd (List.forall_mem_singleton.mpr trivial)
  · exact .next (.of_mode h)

/-- The name of a directive is no text, nor is what it announces. -/
theorem tells_readInDirName : Tells d w (s.readInDirName c) := by
  unfold Scan.readInDirName
  split
  · exact tells_nameEnd (List.forall_mem_singleton.mpr trivial)
  · split
    · exact .silent rfl trivial
    · split
      · exact .silent rfl trivial
      · exact .next (.of_mode h)

/-- The argument of a directive is no text, in brackets or not. -/
theorem tells_readInDirArg : Tells d w (s.readInDirArg c) := by
  unfold Scan.readInDirArg
  split
  · exact tells_nameEnd (List.forall_mem_singleton.mpr told_pendingArg)
  · split
    · exact .next (.of_mode rfl)
    · split
      · exact .silent rfl told_pendingArg
      · exact .next (.of_mode h)

/-- An argument that lacks its closing bracket is no text, nor is the error that says so. -/
theorem tells_readInDirDynamicArg : Tells d w (s.readInDirDynamicArg c) := by
  unfold Scan.readInDirDynamicArg
  split
  · exact .next (.of_mode rfl)
  · split
    · apply tells_nameEnd
      exact List.forall_mem_cons.mpr ⟨trivial, List.forall_mem_singleton.mpr trivial⟩
    · exact .next (.of_mode h)

/-- The modifiers of a directive are no text. -/
theorem tells_readInDirModifier : Tells d w (s.readInDirModifier c) := by
  unfold Scan.readInDirModifier
  split
  · exact tells_nameEnd (List.forall_mem_singleton.mpr trivial)
  · split
    · exact .silent h trivial
    · exact .next (.of_mode h)

/-- The end of an attribute without a value tells nothing about text, nor does the start of the next
one. -/
theorem tells_readAfterAttrName {next : Option UInt8} :
    Tells d w (s.readAfterAttrName c next) := by
  unfold Scan.readAfterAttrName
  split
  · exact .next (.of_mode rfl)
  · split
    · exact .silent rfl trivial
    · split
      · exact .next (.of_mode h)
      · have hstart : Tells d w (s.attrStart c next) := tells_attrStart
        exact ⟨hstart.tidy, List.forall_mem_cons.mpr ⟨trivial, hstart.told⟩⟩

/-- In front of a value nothing is told. -/
theorem tells_readBeforeAttrValue : Tells d w (s.readBeforeAttrValue c) := by
  unfold Scan.readBeforeAttrValue
  split
  · exact .next (.of_mode rfl)
  · split
    · exact .next (.of_mode rfl)
    · split
      · exact .next (.of_mode h)
      · exact .again (.of_mode rfl)

/-- A value between quotation marks is no text. -/
theorem tells_readInQuotedValue {mark : QuoteMark} : Tells d w (s.readInQuotedValue mark c) := by
  unfold Scan.readInQuotedValue
  split
  · refine ⟨.of_mode rfl, ?_⟩
    exact List.forall_mem_cons.mpr ⟨trivial, List.forall_mem_singleton.mpr trivial⟩
  · exact .next (.of_mode h)

/-- A value without quotation marks is no text. -/
theorem tells_readInBareValue : Tells d w (s.readInBareValue c) := by
  unfold Scan.readInBareValue
  split
  · refine ⟨.of_mode rfl, ?_⟩
    exact List.forall_mem_cons.mpr ⟨trivial, List.forall_mem_singleton.mpr trivial⟩
  · exact .next (.of_mode h)

end

/-- In a tag nothing is told about text. -/
theorem tells_of_tag {next : Option UInt8} (h : s.mode.isContent = false) :
    Tells d w (s.turn d c next) := by
  obtain ⟨mode, cursor, start, matcher, shape⟩ := s
  cases mode
  case text | interpolationOpen | interpolation | interpolationClose | beforeTagName
      | beforeClosingTagName | reserved => cases h
  case inTagName => exact tells_readInTagName rfl
  case inSelfClosingTag => exact tells_readInSelfClosingTag rfl
  case inClosingTagName => exact tells_readInClosingTagName rfl
  case afterClosingTagName => exact tells_readAfterClosingTagName rfl
  case beforeAttrName => exact tells_readBeforeAttrName rfl
  case inAttrName => exact tells_readInAttrName rfl
  case inDirName => exact tells_readInDirName rfl
  case inDirArg => exact tells_readInDirArg rfl
  case inDirDynamicArg => exact tells_readInDirDynamicArg rfl
  case inDirModifier => exact tells_readInDirModifier rfl
  case afterAttrName => exact tells_readAfterAttrName rfl
  case beforeAttrValue => exact tells_readBeforeAttrValue rfl
  case inQuotedValue => exact tells_readInQuotedValue rfl
  case inBareValue => exact tells_readInBareValue rfl

/-! ## Runs -/

/-- Every turn of a scan that tells the truth does so too. -/
theorem Telling.tells (h : Telling d w s es) (hw : w[s.cursor]? = some c) (next : Option UInt8) :
    Tells d w (s.turn d c next) := by
  obtain ⟨h, htidy, -⟩ := h
  cases h with
  | text _ _ hmissed =>
    exact tells_readText hmissed (fun hopens => htidy (Or.inl rfl) hopens _ rfl) hw
  | interpolationOpen _ _ hmissed hpre _ _ =>
    have hopen := fun hopens => htidy (Or.inr rfl) hopens _ rfl
    exact tells_readInterpolationOpen hmissed hopen hpre hw
  | interpolation _ _ _ _ => exact tells_readInterpolation
  | interpolationClose _ hin hm habsent _ hmatch =>
    exact tells_readInterpolationClose hin hm habsent hmatch hw
  | beforeTagName _ hop => exact tells_readBeforeTagName hop hw
  | beforeClosingTagName _ hop => exact tells_readBeforeClosingTagName hop
  | _ => exact tells_of_tag rfl

/-- A scan that has read nothing has told nothing. -/
theorem Telling.fresh : Telling d w {} [] :=
  ⟨.fresh, .fresh, nofun⟩

/-- Every turn keeps telling the truth. -/
theorem Telling.kept (ho : d.opening ≠ []) (hcl : d.closing ≠ []) :
    Scan.Kept d w (Telling d w) := by
  intro s es c h hw
  have htells := h.tells hw w[s.cursor + 1]?
  exact ⟨Underway.kept ho hcl s es c h.underway hw, htells.tidy,
    List.forall_mem_append.mpr ⟨h.told, htells.told⟩⟩

/-- A scan tells the truth at the end of a template. -/
theorem telling_run (o : Options) (rawText : Bool) (template : String) :
    Telling (o.dialect rawText) (utf8Bytes template) ((o.dialect rawText).run template).scan
      ((o.dialect rawText).run template).events := by
  refine Dialect.run_of_kept (Telling.kept ?_ ?_) Telling.fresh
  · exact utf8Bytes_ne_nil o.delimiters.opening_ne_empty
  · exact utf8Bytes_ne_nil o.delimiters.closing_ne_empty

/-! ## The end of a template -/

/-- What is reported of the part under way at the end of a template: what tells the truth, or an
interpolation without its closing marker. -/
inductive Tail (d : Dialect) (w : List UInt8) : List Event → Prop
  | told {last : List Event} : (∀ e ∈ last, Told d w e) → Tail d w last
  | unclosed {i : Nat} : Inside d w i → i < w.length →
      (Restartable d.closing → Absent d.closing w (i + d.opening.length) w.length) →
      Tail d w [.error .missingInterpolationEnd i, .text ⟨i, w.length⟩]

/-- An interpolation under way is never closed. -/
theorem tail_interpolation {mode : Mode} {matcher : Matcher} (hin : Inside d w i)
    (hi : i < w.length)
    (habsent : Restartable d.closing → Absent d.closing w (i + d.opening.length) w.length) :
    Tail d w (.error .missingInterpolationEnd i ::
      Scan.pendingText ⟨mode, w.length, some i, matcher, .empty⟩ w.length) := by
  simp only [Scan.pendingText, Option.getD_some, if_pos hi]
  exact .unclosed hin hi habsent

/-- What is reported of an unfinished value tells nothing about text. -/
theorem tail_value {v : Nat} :
    Tail d w (if (⟨v, n⟩ : Span).isEmpty then [] else [.attribData ⟨v, n⟩]) := by
  split
  · exact .told nofun
  · exact .told (List.forall_mem_singleton.mpr trivial)

/-- What is left at the end of a template tells the truth, or it is an interpolation that is never
closed. -/
theorem Telling.tail (h : Telling d w s es) (ho : d.opening ≠ []) (hcl : d.closing ≠ [])
    (hcursor : s.cursor = w.length) : Tail d w s.leftover := by
  have hpos := List.length_pos_iff.mpr ho
  obtain ⟨h, htidy, -⟩ := h
  cases h with
  | text _ _ hmissed =>
    exact .told (told_pendingText ⟨hmissed, fun hopens => htidy (Or.inl rfl) hopens _ rfl⟩)
  | @interpolationOpen i m k _ _ _ hmissed _ hk _ =>
    have hend : m + k = w.length := hcursor
    refine .told (told_pendingText ⟨fun hsearch => ?_, fun hopens => ?_⟩)
    · exact (hmissed hsearch).trans (.of_length_lt ho (by omega))
    · exact htidy (Or.inr rfl) hopens _ rfl
  | @interpolation i n _ _ hin hn habsent =>
    obtain rfl := hcursor
    have hlt : i < w.length := by omega
    exact tail_interpolation hin hlt habsent
  | @interpolationClose i m k _ _ hin hm habsent hk _ =>
    have hend : m + k = w.length := hcursor
    simp only [Scan.leftover, hend, Option.getD_some]
    refine tail_interpolation hin (by omega) fun hr => ?_
    exact (habsent hr).trans (.of_length_lt hcl (by omega))
  | @beforeTagName i n _ _ hop =>
    obtain rfl := hcursor
    refine .told (told_pendingText ⟨hop.noneMissed ho, fun _ => .of_opener hop ?_⟩)
    intro c hc
    rw [List.getElem?_eq_none (Nat.le_refl _)] at hc
    cases hc
  | beforeClosingTagName _ hop =>
    exact .told (told_pendingText ⟨hop.noneMissed ho, fun _ => .of_closeOpener hop⟩)
  | inQuotedValue _ _ _ _ _ => exact tail_value
  | inBareValue _ _ _ => exact tail_value
  | _ => exact .told (List.forall_mem_singleton.mpr trivial)

/-- The events of a template tell the truth, up to an interpolation that is never closed. -/
theorem exists_tail (o : Options) (rawText : Bool) (template : String) :
    ∃ es last, (∀ e ∈ es, Told (o.dialect rawText) (utf8Bytes template) e) ∧
      Tail (o.dialect rawText) (utf8Bytes template) last ∧
      (o.dialect rawText).events template = es ++ (last ++ [.endOfInput]) := by
  have htelling := telling_run o rawText template
  have htail := htelling.tail (utf8Bytes_ne_nil o.delimiters.opening_ne_empty)
    (utf8Bytes_ne_nil o.delimiters.closing_ne_empty) (Dialect.cursor_run _ template)
  exact ⟨_, _, htelling.told, htail, rfl⟩

/-- An interpolation that is never closed, with the bytes behind its opening marker. -/
structure Unclosed (d : Dialect) (w : List UInt8) (i : Nat) : Prop where
  inside : Inside d w i
  absent : Restartable d.closing → ∀ p, i + d.opening.length ≤ p → ¬ OccursAt d.closing w p

/-- An interpolation without a closing marker up to the last byte is never closed: a marker does not
begin at the end either. -/
theorem Unclosed.of_absent (hcl : d.closing ≠ []) (hin : Inside d w i)
    (habsent : Restartable d.closing → Absent d.closing w (i + d.opening.length) w.length) :
    Unclosed d w i := by
  refine ⟨hin, fun hr p hp hocc => ?_⟩
  have hle := hocc.add_length_le hcl
  have hpos := List.length_pos_iff.mpr hcl
  have hlt : p < w.length := by omega
  exact habsent hr p hp hlt hocc

/-- An event of a template tells the truth, or it is one of the last two in front of the end, after
an interpolation that is never closed. -/
theorem told_or_unclosed {o : Options} {rawText : Bool} {template : String}
    (he : ((o.dialect rawText).events template)[k]? = some e) :
    Told (o.dialect rawText) (utf8Bytes template) e ∨
      ∃ n i, Unclosed (o.dialect rawText) (utf8Bytes template) i ∧
        ((o.dialect rawText).events template).drop n =
          [.error .missingInterpolationEnd i, .text ⟨i, (utf8Bytes template).length⟩,
            .endOfInput] ∧
        (k = n ∧ e = .error .missingInterpolationEnd i ∨
          k = n + 1 ∧ e = .text ⟨i, (utf8Bytes template).length⟩) := by
  obtain ⟨es, last, hes, hlast, hall⟩ := exists_tail o rawText template
  rw [hall] at he ⊢
  rcases Nat.lt_or_ge k es.length with hlt | hge
  · rw [List.getElem?_append_left hlt] at he
    exact Or.inl (hes e (List.mem_of_getElem? he))
  · obtain ⟨q, rfl⟩ := Nat.exists_eq_add_of_le hge
    rw [List.getElem?_append_right hge, Nat.add_sub_cancel_left] at he
    cases hlast with
    | told htold =>
      refine Or.inl ?_
      rcases List.mem_append.mp (List.mem_of_getElem? he) with hmem | hend
      · exact htold e hmem
      · obtain rfl := List.mem_singleton.mp hend
        exact trivial
    | @unclosed i hin _ habsent =>
      have hclosed : Unclosed (o.dialect rawText) (utf8Bytes template) i :=
        .of_absent (utf8Bytes_ne_nil o.delimiters.closing_ne_empty) hin habsent
      -- The error, the text behind it and the end are all that is left.
      match q with
      | 0 =>
        obtain rfl := Option.some.inj he
        exact Or.inr ⟨es.length, i, hclosed, List.drop_left, Or.inl ⟨rfl, rfl⟩⟩
      | 1 =>
        obtain rfl := Option.some.inj he
        exact Or.inr ⟨es.length, i, hclosed, List.drop_left, Or.inr ⟨rfl, rfl⟩⟩
      | 2 =>
        obtain rfl := Option.some.inj he
        exact Or.inl trivial
      | q + 3 => cases he

/-- The stretch of an interpolation, with both markers, overlaps no span of another event. -/
theorem apart_of_interpolation {o : Options} {rawText : Bool} {template : String} {s : Span}
    {a b : Nat} (hk : ((o.dialect rawText).events template)[k]? = some (.interpolation ⟨a, b⟩))
    (he : ((o.dialect rawText).events template)[n]? = some e) (hne : n ≠ k)
    (hspan : e.span? = some s) :
    s.stop ≤ a - (o.dialect rawText).opening.length ∨
      b + (o.dialect rawText).closing.length ≤ s.start := by
  have hsorted := (inOrder_events o rawText template measure_firmStretch).sorted
  obtain ⟨t, ht, hstart, hstop⟩ := exists_stretch_of_span (d := o.dialect rawText) hspan
  obtain ⟨hnlt, hnget⟩ := List.getElem?_eq_some_iff.mp he
  obtain ⟨hklt, hkget⟩ := List.getElem?_eq_some_iff.mp hk
  rw [List.pairwise_iff_getElem] at hsorted
  rcases Nat.lt_or_gt_of_ne hne with hlt | hgt
  · have hbefore := hsorted n k hnlt hklt hlt t _ (by rw [hnget]; exact ht) (by rw [hkget]; rfl)
    exact Or.inl (Nat.le_trans hstop hbefore)
  · have hbehind := hsorted k n hklt hnlt hgt _ t (by rw [hkget]; rfl) (by rw [hnget]; exact ht)
    exact Or.inr (Nat.le_trans hbehind hstart)

/-- An interpolation that is reported tells the truth: one that is never closed is reported as an
error and a text. -/
theorem told_interpolation {o : Options} {rawText : Bool} {template : String} {s : Span}
    (hk : ((o.dialect rawText).events template)[k]? = some (.interpolation s)) :
    Told (o.dialect rawText) (utf8Bytes template) (.interpolation s) := by
  rcases told_or_unclosed hk with htold | ⟨_, _, _, _, ⟨_, he⟩ | ⟨_, he⟩⟩
  · exact htold
  · cases he
  · cases he

/-- The error of an interpolation that is never closed is reported with the rest of the template as
its text. -/
theorem unclosed_of_error {o : Options} {rawText : Bool} {template : String}
    (hk : ((o.dialect rawText).events template)[k]? = some (.error .missingInterpolationEnd i)) :
    Unclosed (o.dialect rawText) (utf8Bytes template) i ∧
      ((o.dialect rawText).events template).drop (k + 1) =
        [.text ⟨i, (utf8Bytes template).length⟩, .endOfInput] := by
  rcases told_or_unclosed hk with htold | ⟨n, m, hopen, hdrop, ⟨rfl, he⟩ | ⟨_, he⟩⟩
  · exact htold.elim
  · cases he
    refine ⟨hopen, ?_⟩
    rw [← List.tail_drop, hdrop]
    rfl
  · cases he

/-- A text tells the truth, unless it is the rest of the template behind such an error. -/
theorem told_text {o : Options} {rawText : Bool} {template : String} {s : Span}
    (hk : ((o.dialect rawText).events template)[k]? = some (.text s))
    (hplain : ∀ n m : Nat, k = n + 1 →
      ((o.dialect rawText).events template)[n]? ≠ some (.error .missingInterpolationEnd m)) :
    Told (o.dialect rawText) (utf8Bytes template) (.text s) := by
  rcases told_or_unclosed hk with htold | ⟨n, m, _, hdrop, ⟨_, he⟩ | ⟨hkn, _⟩⟩
  · exact htold
  · cases he
  · have herror : ((o.dialect rawText).events template)[n]? =
        some (.error .missingInterpolationEnd m) := by
      rw [← List.head?_drop, hdrop]
      rfl
    exact (hplain n m hkn herror).elim

/-- An opening marker that has nothing in common with the opening of a tag is found wherever it
stands, and no comparison with it can take a `<`. -/
theorem searchable_of_untagged (hraw : d.rawText = false) (hpre : d.vPre = false)
    (hr : Restartable d.opening)
    (hfree : ∀ c ∈ d.opening,
      c ≠ Byte.tagOpen ∧ c ≠ Byte.bang ∧ c ≠ Byte.slash ∧ c ≠ Byte.question) :
    Searchable d w ∧ OpensTags d := by
  refine ⟨⟨hpre, hr, Or.inr (Or.inr fun c hc => ?_)⟩, hraw, Or.inr fun hmem => ?_⟩
  · obtain ⟨htag, hbang, hslash, hquestion⟩ := hfree c hc
    exact ⟨htag, hslash, by simp [isDeclarationMark, hbang, hquestion]⟩
  · exact (hfree _ hmem).1 rfl

/-- In a template with tags, every interpolation stands between its markers, apart from all other
spans, and one that is never closed is reported with the rest of the template as its text. If the
closing marker is restartable, an interpolation ends at the first one. If the opening marker is
restartable too and has nothing in common with the opening of a tag, no text but that rest holds
one, nor the opening of a tag: a `<` can only be its first byte, with no letter behind it. -/
theorem content_exact (ds : Delimiters) (template : String) :
    let d := Options.dialect ⟨ds, false⟩ false
    let w := utf8Bytes template
    let es := d.events template
    (∀ k a b : Nat, es[k]? = some (.interpolation ⟨a, b⟩) →
      (d.opening.length ≤ a ∧ OccursAt d.opening w (a - d.opening.length) ∧ a ≤ b ∧
        OccursAt d.closing w b) ∧
      (∀ (n : Nat) (e : Event) (s : Span), n ≠ k → es[n]? = some e → e.span? = some s →
        s.stop ≤ a - d.opening.length ∨ b + d.closing.length ≤ s.start) ∧
      (Restartable d.closing → Absent d.closing w a b)) ∧
    (∀ k i : Nat, es[k]? = some (.error .missingInterpolationEnd i) →
      OccursAt d.opening w i ∧ es.drop (k + 1) = [.text ⟨i, w.length⟩, .endOfInput] ∧
      (Restartable d.closing →
        ∀ p, i + d.opening.length ≤ p → ¬ OccursAt d.closing w p)) ∧
    (Restartable d.opening →
      (∀ c ∈ d.opening, c ≠ Byte.tagOpen ∧ c ≠ Byte.bang ∧ c ≠ Byte.slash ∧ c ≠ Byte.question) →
      ∀ k i j : Nat, es[k]? = some (.text ⟨i, j⟩) →
        (∀ n m : Nat, k = n + 1 → es[n]? ≠ some (.error .missingInterpolationEnd m)) →
        (∀ p, i ≤ p → p + d.opening.length ≤ j → ¬ OccursAt d.opening w p) ∧
          ∀ p, i ≤ p → p < j → w[p]? = some Byte.tagOpen →
            p = i ∧ ∀ c, w[p + 1]? = some c → Byte.isTagStart c = false) := by
  intro d w es
  refine ⟨?_, ?_, ?_⟩
  · intro k a b hk
    obtain ⟨i, ha, hin, hle, hclose, habsent⟩ := told_interpolation hk
    obtain rfl : a = i + d.opening.length := ha
    rw [Nat.add_sub_cancel]
    refine ⟨⟨Nat.le_add_left _ _, hin.marker, hle, hclose⟩, ?_, habsent⟩
    intro n e s hne he hspan
    have hapart := apart_of_interpolation hk he hne hspan
    rwa [Nat.add_sub_cancel] at hapart
  · intro k i hk
    obtain ⟨hopen, hdrop⟩ := unclosed_of_error hk
    exact ⟨hopen.inside.marker, hdrop, hopen.absent⟩
  · intro hr hfree k i j hk hplain
    obtain ⟨hsearch, hopens⟩ := searchable_of_untagged (w := w) rfl rfl hr hfree
    have htold : Told d w (.text ⟨i, j⟩) := told_text hk hplain
    have hopened := htold.tag hopens
    constructor
    · intro p hi hj
      have hpos := List.length_pos_iff.mpr (utf8Bytes_ne_nil ds.opening_ne_empty)
      have hlen : d.opening.length = (utf8Bytes ds.opening).length := rfl
      have hlt : p < j := by omega
      exact htold.marker hsearch p hi hlt
    · intro p hi hj hp
      obtain rfl : i = p := by
        rcases Nat.eq_or_lt_of_le hi with heq | hlt
        · exact heq
        · exact (hopened.behind p hlt hj hp).elim
      exact ⟨rfl, hopened.front hj hp⟩

/-- The template has a `<` that turns back into text, an interpolation, a tag, and an interpolation
that is never closed. -/
theorem content_exact_unclosed :
    let d := Options.dialect ⟨.braces, false⟩ false
    let w := utf8Bytes "< \x7b\x7bb\x7d\x7d<c>\x7b\x7bd"
    let es := d.events "< \x7b\x7bb\x7d\x7d<c>\x7b\x7bd"
    (es[1]? = some (.interpolation ⟨4, 5⟩) ∧ Restartable d.closing ∧ Absent d.closing w 4 5) ∧
      (es[4]? = some (.error .missingInterpolationEnd 10) ∧
        es.drop 5 = [.text ⟨10, w.length⟩, .endOfInput] ∧
        ∀ p, 10 + d.opening.length ≤ p → ¬ OccursAt d.closing w p) ∧
      Restartable d.opening ∧
      (∀ c ∈ d.opening, c ≠ Byte.tagOpen ∧ c ≠ Byte.bang ∧ c ≠ Byte.slash ∧ c ≠ Byte.question) ∧
      es[0]? = some (.text ⟨0, 2⟩) ∧
      (∀ n m : Nat, 0 = n + 1 → es[n]? ≠ some (.error .missingInterpolationEnd m)) ∧
      w[0]? = some Byte.tagOpen ∧ ∀ c, w[1]? = some c → Byte.isTagStart c = false := by
  intro d w es
  obtain ⟨hinter, herror, htext⟩ := content_exact .braces "< \x7b\x7bb\x7d\x7d<c>\x7b\x7bd"
  have hclosing : Restartable d.closing := by decide
  have hopening : Restartable d.opening := by decide
  have hfree : ∀ c ∈ d.opening,
      c ≠ Byte.tagOpen ∧ c ≠ Byte.bang ∧ c ≠ Byte.slash ∧ c ≠ Byte.question := by decide +kernel
  have h₀ : es[0]? = some (.text ⟨0, 2⟩) := by decide +kernel
  have h₁ : es[1]? = some (.interpolation ⟨4, 5⟩) := by decide +kernel
  have h₄ : es[4]? = some (.error .missingInterpolationEnd 10) := by decide +kernel
  have hopen : w[0]? = some Byte.tagOpen := by decide +kernel
  have hplain : ∀ n m : Nat, 0 = n + 1 → es[n]? ≠ some (.error .missingInterpolationEnd m) :=
    fun n m hn => by cases hn
  refine ⟨⟨h₁, hclosing, (hinter 1 4 5 h₁).2.2 hclosing⟩,
    ⟨h₄, (herror 4 10 h₄).2.1, (herror 4 10 h₄).2.2 hclosing⟩,
    hopening, hfree, h₀, hplain, hopen, ?_⟩
  exact ((htext hopening hfree 0 0 2 h₀ hplain).2 0 (Nat.le_refl 0) (by decide) hopen).2

end Layout

end TemplateLexer
