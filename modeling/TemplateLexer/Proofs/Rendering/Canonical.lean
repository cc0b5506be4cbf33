import TemplateLexer.Proofs.Rendering.Names

/-!
# The canonical form is a fixed point

A template that ends in text can be written down in its canonical form, and this is read as the same
tokens again (`rendered_fixed`), so writing it down once more changes nothing. What a scan has
reported of the template is read again from its canonical form as soon as the part under way ends;
`Ready` says for every mode what is known until then, and a turn keeps it.
-/

set_option autoImplicit false

namespace TemplateLexer

open Layout Marker Printing Scan

namespace Rendering

variable {d : Dialect} {u w : List UInt8} {i k m n a : Nat} {s : Scan} {es name : List Event}
  {c : UInt8}

/-! ## Text and interpolations -/

/-- A scan outside of tags: what it has found behind the last tag is found there in any other
template with the same bytes behind a tag. -/
inductive InContent (d : Dialect) (w : List UInt8) : Scan → List Event → Prop
  | behind {i : Nat} {s : Scan} {es content : List Event} :
      Reread d Anywhere AtFresh (tokens w es) → Underway d (w.drop i) s content →
      (∀ e ∈ content, isContent e = true) →
      Portable d (w.drop i) (fun _ => AtFresh) (s.cursor + 1) content s →
      InContent d w (s.shift i) (es ++ content.map (Event.shift i))

/-- The text under way is content. -/
theorem content_of_pendingText (stop : Nat) : ∀ e ∈ s.pendingText stop, isContent e = true := by
  intro e he
  simp only [pendingText] at he
  split at he
  · obtain rfl := List.mem_singleton.mp he
    rfl
  · cases he

/-- Content stays content with a text behind it. -/
theorem content_append_textBetween (h : ∀ e ∈ es, isContent e = true) :
    ∀ e ∈ es ++ textBetween i n, isContent e = true :=
  List.forall_mem_append.mpr
    ⟨h, content_of_pendingText (s := ⟨.text, n, some i, .idle, .empty⟩) n⟩

/-- Outside of tags, turns report nothing but content. -/
theorem content_of_turn {next : Option UInt8} (h : s.mode.isContent = true) :
    ∀ e ∈ (s.turn d c next).events, isContent e = true := by
  intro e he
  obtain ⟨mode, cursor, sectionStart, matcher, argShape⟩ := s
  cases mode with
  | text =>
    simp only [turn, readText] at he
    split at he
    · exact content_of_pendingText _ e he
    · split at he <;> cases he
  | interpolationOpen =>
    simp only [turn, readInterpolationOpen] at he
    split at he
    · cases he
    · exact content_of_pendingText _ e he
    · cases he
  | interpolation =>
    simp only [turn, readInterpolation] at he
    split at he <;> cases he
  | interpolationClose =>
    simp only [turn, readInterpolationClose] at he
    split at he
    · cases he
    · obtain rfl := List.mem_singleton.mp he
      rfl
    · cases he
  | beforeTagName =>
    simp only [turn, readBeforeTagName] at he
    repeat' split at he
    all_goals cases he
  | beforeClosingTagName =>
    simp only [turn, readBeforeClosingTagName] at he
    split at he <;> cases he
  | reserved mode => cases he
  | _ => cases h

namespace InContent

/-- Behind a tag there is nothing to be read again. -/
theorem fresh (h : Reread d Anywhere AtFresh (tokens w es)) :
    InContent d w ⟨.text, n, some n, .idle, .empty⟩ es := by
  have hbehind := InContent.behind (i := n) (s := {}) h .fresh nofun
    (fun w k s owed hs _ => by
      cases hs
      have hpath := Leads.refl (d := d) (w := w) ⟨.text, k, some k, .idle, .empty⟩
      simpa [Scan.shift] using hpath)
  simpa [Scan.shift] using hbehind

/-- A turn outside of tags leads to a scan that is still outside, or at the opening of a tag. -/
theorem turn (ho : d.opening ≠ []) (hcl : d.closing ≠ []) (h : InContent d w s es)
    (hmode : s.mode.isContent = true) (hw : w[s.cursor]? = some c) :
    InContent d w (s.turn d c w[s.cursor + 1]?).onward
      (es ++ (s.turn d c w[s.cursor + 1]?).events) := by
  cases h with
  | @behind i s es content htokens hunder hcontent hpath =>
    have hu : (w.drop i)[s.cursor]? = some c := by rw [getElem?_drop_cursor, hw]
    have hawaits : s.mode.awaitsAttr = false := by
      have hsame : s.mode.isContent = true := hmode
      cases hcase : s.mode <;> rw [hcase] at hsame <;> first | rfl | cases hsame
    have hcursor := Turn.le_cursor_onward (s.turn d c (w.drop i)[s.cursor + 1]?)
    rw [cursor_turn] at hcursor
    have hmore := (hpath.turn (Nat.le_refl _) hunder.exact hawaits hu).mono
      (Nat.succ_le_succ hcursor)
    have hall : ∀ e ∈ content ++ (s.turn d c (w.drop i)[s.cursor + 1]?).events,
        isContent e = true :=
      List.forall_mem_append.mpr ⟨hcontent, content_of_turn hmode⟩
    have hnext := InContent.behind htokens (Underway.kept ho hcl s content c hunder hu) hall hmore
    rw [turn_drop hunder.exact, onward_shift, List.append_assoc]
    rw [List.map_append] at hnext
    exact hnext

/-- In front of a tag, the text under way is complete. -/
theorem beforeTag (h : InContent d w s es) (hmode : s.mode = .text) (hraw : d.rawText = false)
    (hw : w[s.cursor]? = some Byte.tagOpen) :
    Reread d BeforeTag AtText (tokens w (es ++ s.pendingText s.cursor)) := by
  cases h with
  | @behind i s es content htokens hunder hcontent hpath =>
    have hu : (w.drop i)[s.cursor]? = some Byte.tagOpen := by rw [getElem?_drop_cursor, hw]
    cases hunder with
    | @text b n _ hl hb hmissed =>
      have hlaid : Laid d (w.drop i) n (content ++ textBetween b n) :=
        hl.pendingText (s := ⟨.text, n, some b, .idle, .empty⟩) rfl hb (Or.inl ⟨hraw, hu⟩) hmissed
      have hall := content_append_textBetween (i := b) (n := n) hcontent
      have hspans := span_stop_le (inOrder_laid (measure_firmStretch (d := d)) hlaid)
      have hreread := htokens.content hpath hu hlaid hall hspans
      rw [← tokens_shift hspans same_drop, ← tokens_append, List.map_append,
        textBetween_shift, ← List.append_assoc] at hreread
      exact hreread
    | _ => cases hmode

end InContent

/-! ## Turns -/

/-- What can stand behind the canonical form, if the next byte of the template is at an offset. An
empty value without quotation marks is followed by the end of its tag in both. -/
structure Front (w : List UInt8) (n : Nat) (w' : List UInt8) (r : Nat) : Prop where
  stops : Stops w' r
  tagEnd : w[n]? = some Byte.tagEnd → w'[r]? = some Byte.tagEnd

/-- What a scan has reported is read again from its canonical form, if this goes on with what the
mode of the scan lets expect. -/
def Ready (d : Dialect) (w : List UInt8) (s : Scan) (es : List Event) : Prop :=
  match s.mode with
  | .text | .interpolationOpen | .interpolation | .interpolationClose | .reserved _ =>
    InContent d w s es
  | .beforeTagName | .beforeClosingTagName =>
    InContent d w s es ∧ Reread d BeforeTag AtText (tokens w es)
  | .inTagName | .inClosingTagName => Reread d BeforeTag AtText (tokens w es)
  | .afterClosingTagName => Reread d Anywhere AtFresh (tokens w es)
  | .beforeAttrName => Reread d (Front w s.cursor) AtAttrs (tokens w es)
  | .inSelfClosingTag => Reread d Stops AtAttrs (tokens w es)
  | .inAttrName | .inDirName | .inDirArg | .inDirDynamicArg | .inDirModifier => Naming d w s es
  | .afterAttrName | .beforeAttrValue | .inQuotedValue _ =>
    Reread d BehindName AtValue (tokens w es)
  | .inBareValue =>
    Reread d BehindName AtValue (tokens w es) ∧
      ∀ v c, s.sectionStart = some v → w[v]? = some c → Byte.isSpace c = false

/-- A turn leaves what has been reported ready to be read again. -/
def Readies (d : Dialect) (w : List UInt8) (es : List Event) (t : Turn) : Prop :=
  Ready d w t.onward (es ++ t.events)

/-- A byte that is handed over leaves the mode ready that reads it again. -/
theorem Readies.again (h : Ready d w s es) : Readies d w es ⟨s, [], true⟩ := by
  rwa [Readies, List.append_nil]

/-- A byte that is kept leaves the mode ready that reads the next one. -/
theorem Readies.next (h : Ready d w { s with cursor := s.cursor + 1 } es) :
    Readies d w es ⟨s, [], false⟩ := by
  rwa [Readies, List.append_nil]

/-! ### Outside of tags -/

/-- Outside of tags a scan is ready if it is in content. -/
theorem InContent.ready (h : InContent d w s es)
    (hmode : s.mode = .text ∨ s.mode = .interpolationOpen ∨ s.mode = .interpolation ∨
      s.mode = .interpolationClose) : Ready d w s es := by
  rcases hmode with hmode | hmode | hmode | hmode <;> simpa only [Ready, hmode] using h

/-- In text, a scan that is ready is in content. -/
theorem Ready.inContent (h : Ready d w s es) (hmode : s.mode = .text) : InContent d w s es := by
  simpa only [Ready, hmode] using h

/-- A tag opens behind a text that is complete, and a marker may begin in it. -/
theorem readies_readText (ho : d.opening ≠ []) (hcl : d.closing ≠ [])
    (h : InContent d w ⟨.text, n, some i, .idle, .empty⟩ es) (hw : w[n]? = some c) :
    Readies d w es (readText d ⟨.text, n, some i, .idle, .empty⟩ c) := by
  have hnext : InContent d w (readText d ⟨.text, n, some i, .idle, .empty⟩ c).onward
      (es ++ (readText d ⟨.text, n, some i, .idle, .empty⟩ c).events) := h.turn ho hcl rfl hw
  unfold readText at hnext ⊢
  by_cases htag : c = Byte.tagOpen ∧ d.rawText = false
  · rw [if_pos htag] at hnext ⊢
    obtain ⟨rfl, hraw⟩ := htag
    exact ⟨hnext, h.beforeTag rfl hraw hw⟩
  · rw [if_neg htag] at hnext ⊢
    split at hnext
    · next hmark =>
      rw [if_pos hmark]
      exact hnext
    · next hmark =>
      rw [if_neg hmark]
      exact hnext

/-- The comparison of a marker and the search for its end stay outside of tags. -/
theorem mode_turn_marker {next : Option UInt8} (hmode : s.mode = .interpolationOpen ∨
      s.mode = .interpolation ∨ s.mode = .interpolationClose) :
    (s.turn d c next).scan.mode = .text ∨ (s.turn d c next).scan.mode = .interpolationOpen ∨
      (s.turn d c next).scan.mode = .interpolation ∨
        (s.turn d c next).scan.mode = .interpolationClose := by
  obtain ⟨mode, cursor, sectionStart, matcher, argShape⟩ := s
  obtain rfl | rfl | rfl := hmode
  · simp only [turn, readInterpolationOpen]
    split <;> simp [enter, matching, since]
  · simp only [turn, readInterpolation]
    split <;> simp [enter, matching]
  · simp only [turn, readInterpolationClose]
    split <;> simp [enter, matching, since]

/-- A marker under comparison belongs to the content, however the comparison ends. -/
theorem readies_marker (ho : d.opening ≠ []) (hcl : d.closing ≠ [])
    (hmode : s.mode = .interpolationOpen ∨ s.mode = .interpolation ∨
      s.mode = .interpolationClose) (h : InContent d w s es) (hw : w[s.cursor]? = some c) :
    Readies d w es (s.turn d c w[s.cursor + 1]?) := by
  have hcontent : s.mode.isContent = true := by
    rcases hmode with hmode | hmode | hmode <;> rw [hmode] <;> rfl
  refine (h.turn ho hcl hcontent hw).ready ?_
  rw [Turn.mode_onward]
  exact mode_turn_marker hmode

/-! ### Tags -/

/-- An opening that turns back into text gives the bytes read so far back to it. -/
theorem readies_readBeforeTagName (ho : d.opening ≠ []) (hcl : d.closing ≠ [])
    (h : Ready d w ⟨.beforeTagName, n, some i, .idle, .empty⟩ es) (hw : w[n]? = some c) :
    Readies d w es (readBeforeTagName ⟨.beforeTagName, n, some i, .idle, .empty⟩ c) := by
  obtain ⟨hcontent, htokens⟩ := h
  have hnext : InContent d w
      (readBeforeTagName ⟨.beforeTagName, n, some i, .idle, .empty⟩ c).onward
      (es ++ (readBeforeTagName ⟨.beforeTagName, n, some i, .idle, .empty⟩ c).events) :=
    hcontent.turn ho hcl rfl hw
  unfold readBeforeTagName at hnext ⊢
  split
  · next hmark =>
    rw [if_pos hmark, List.append_nil] at hnext
    exact .next ⟨hnext, htokens⟩
  · next hmark =>
    rw [if_neg hmark] at hnext
    split
    · next hslash =>
      rw [if_pos hslash, List.append_nil] at hnext
      exact .next ⟨hnext, htokens⟩
    · next hslash =>
      rw [if_neg hslash] at hnext
      split
      · exact .next htokens
      · next hletter =>
        rw [if_neg hletter] at hnext
        exact hnext

/-- The opening of a closing tag that turns back into text gives its bytes back, too. -/
theorem readies_readBeforeClosingTagName (ho : d.opening ≠ []) (hcl : d.closing ≠ [])
    (h : Ready d w ⟨.beforeClosingTagName, n, some i, .idle, .empty⟩ es) (hw : w[n]? = some c) :
    Readies d w es
      (readBeforeClosingTagName ⟨.beforeClosingTagName, n, some i, .idle, .empty⟩ c) := by
  obtain ⟨hcontent, htokens⟩ := h
  have hnext : InContent d w
      (readBeforeClosingTagName ⟨.beforeClosingTagName, n, some i, .idle, .empty⟩ c).onward
      (es ++
        (readBeforeClosingTagName ⟨.beforeClosingTagName, n, some i, .idle, .empty⟩ c).events) :=
    hcontent.turn ho hcl rfl hw
  unfold readBeforeClosingTagName at hnext ⊢
  split
  · exact .next htokens
  · next hletter =>
    rw [if_neg hletter] at hnext
    exact hnext

/-- The bytes of one class from one offset to another as a row that can be printed. -/
def row {p : UInt8 → Bool} (h : Only p w i n) : Row p :=
  ⟨bytesAt w ⟨i, n⟩, List.all_eq_true.mpr (forall_mem_bytesAt h)⟩

/-- The name of a tag as a word that can be printed. -/
theorem exists_tagWord (h : TagName w a n) : ∃ word : TagWord, word.bytes = bytesAt w ⟨a, n⟩ := by
  obtain ⟨b, hb, hletter⟩ := h.letter
  exact ⟨⟨b, hletter, row h.rest⟩, (bytesAt_cons hb h.rest.le).symm⟩

/-- The name of a tag is written down behind the opening, without the marks skipped in front of
it. -/
theorem readies_readInTagName (hraw : d.rawText = false) (hname : TagName w a n)
    (h : Reread d BeforeTag AtText (tokens w es)) :
    Readies d w es (readInTagName ⟨.inTagName, n, some a, .idle, .empty⟩ c) := by
  unfold readInTagName
  split
  · obtain ⟨word, hword⟩ := exists_tagWord hname
    have htag := h.openTagName hraw word
    rw [hword] at htag
    show Reread d (Front w n) AtAttrs (tokens w (es ++ [.openTagName ⟨a, n⟩]))
    rw [tokens_append]
    exact htag.mono fun _ _ hfront => hfront.stops
  · exact .next h

/-- The name of a closing tag is written down between its slash and its end. -/
theorem readies_readInClosingTagName (hraw : d.rawText = false) (hname : TagName w a n)
    (h : Reread d BeforeTag AtText (tokens w es)) :
    Readies d w es (readInClosingTagName ⟨.inClosingTagName, n, some a, .idle, .empty⟩ c) := by
  unfold readInClosingTagName
  split
  · obtain ⟨word, hword⟩ := exists_tagWord hname
    have htag := h.closeTag hraw word
    rw [hword] at htag
    show Reread d Anywhere AtFresh (tokens w (es ++ [.closeTag ⟨a, n⟩]))
    rw [tokens_append]
    exact htag
  · exact .next h

/-- What a closing tag skips is not written down. -/
theorem readies_readAfterClosingTagName (h : Reread d Anywhere AtFresh (tokens w es)) :
    Readies d w es (readAfterClosingTagName ⟨.afterClosingTagName, n, none, .idle, .empty⟩ c) := by
  unfold readAfterClosingTagName
  split
  · exact .next (InContent.fresh h)
  · exact .next h

/-! ### Between two attributes -/

/-- In front of a byte that does not end the tag, nothing more is asked than that names stop. -/
theorem front_of_stops {w' : List UInt8} {r : Nat} (hw : w[n]? = some c) (hc : c ≠ Byte.tagEnd)
    (h : Stops w' r) : Front w n w' r := by
  refine ⟨h, fun htag => ?_⟩
  rw [hw] at htag
  exact (hc (Option.some.inj htag)).elim

/-- In a name, a scan is ready if it is naming. -/
theorem Naming.ready (h : Naming d w s es) : Ready d w s es := by
  cases h with
  | spelled htokens hbegun hpath =>
    have hnaming := Naming.spelled htokens hbegun hpath
    cases hbegun <;> exact hnaming
  | stray hequals hlt => exact Naming.stray hequals hlt

/-- A turn within a name keeps it ready, as long as the name stays unambiguous. -/
theorem readies_naming (h : Naming d w s es) (hw : w[s.cursor]? = some c)
    (hnames : Unambiguous w (es ++ (s.turn d c w[s.cursor + 1]?).events)) :
    Readies d w es (s.turn d c w[s.cursor + 1]?) := by
  cases hc : Byte.endsName c with
  | true =>
    obtain ⟨hmode, htokens⟩ := h.stops hw hc hnames
    simpa only [Readies, Ready, hmode] using htokens
  | false => exact (h.spells hw hc).ready

/-- The start of an attribute is a name of which nothing has been read. -/
theorem readies_attrStart {mode : Mode} {start : Option Nat}
    (h : Reread d Stops AtAttrs (tokens w es)) (hw : w[n]? = some c)
    (hc : Byte.endsSection c = false) :
    Readies d w es (attrStart ⟨mode, n, start, .idle, .empty⟩ c w[n + 1]?) :=
  (Naming.start h hw hc).ready

/-- Between two attributes one space is enough, and the end of the tag needs none. -/
theorem readies_readBeforeAttrName (h : Reread d (Front w n) AtAttrs (tokens w es))
    (hw : w[n]? = some c) :
    Readies d w es (readBeforeAttrName ⟨.beforeAttrName, n, none, .idle, .empty⟩ c w[n + 1]?) := by
  unfold readBeforeAttrName
  split
  · have hend := h.openTagEnd fun _ _ htag => ⟨Or.inr htag, fun _ => htag⟩
    have hfresh : Reread d Anywhere AtFresh (tokens w (es ++ [.openTagEnd n])) := by
      rw [tokens_append]
      exact hend
    exact InContent.fresh hfresh
  · next hend =>
    have hstops : Reread d Stops AtAttrs (tokens w es) :=
      h.mono fun _ _ => front_of_stops hw hend
    split
    · exact .next hstops
    · next hslash =>
      split
      · exact .next (hstops.mono fun _ _ hfront => hfront.stops)
      · next hspace =>
        exact readies_attrStart hstops hw (by simp [Byte.endsSection, hend, hslash, hspace])

/-- A slash without the end of the tag behind it is not written down. -/
theorem readies_readInSelfClosingTag (h : Reread d Stops AtAttrs (tokens w es)) :
    Readies d w es (readInSelfClosingTag ⟨.inSelfClosingTag, n, none, .idle, .empty⟩ c) := by
  unfold readInSelfClosingTag
  split
  · have hfresh : Reread d Anywhere AtFresh (tokens w (es ++ [.selfClosingTag n])) := by
      rw [tokens_append]
      exact h.selfClosingTag
    exact InContent.fresh hfresh
  · split
    · exact .next h
    · exact .again (h.mono fun _ _ hfront => hfront.stops)

/-! ### Values -/

/-- Behind a name an attribute ends without a value, or its value is announced. -/
theorem readies_readAfterAttrName (h : Reread d BehindName AtValue (tokens w es))
    (hw : w[n]? = some c) :
    Readies d w es
      (readAfterAttrName ⟨.afterAttrName, n, some m, .idle, .empty⟩ c w[n + 1]?) := by
  have habsent : Reread d Stops AtAttrs (tokens w (es ++ [.attribEnd .absent m])) := by
    rw [tokens_append]
    exact h.absent
  unfold readAfterAttrName
  split
  · exact .next h
  · split
    · exact habsent.mono fun _ _ hfront => hfront.stops
    · next hend =>
      split
      · exact .next h
      · next hspace =>
        have hc : Byte.endsSection c = false := by simpa [Byte.endsSection, hspace] using hend
        have hstart : Readies d w (es ++ [.attribEnd .absent m])
            (attrStart ⟨.afterAttrName, n, some m, .idle, .empty⟩ c w[n + 1]?) :=
          readies_attrStart habsent hw hc
        rw [Readies, List.append_assoc] at hstart
        exact hstart

/-- The white space in front of a value is not written down. -/
theorem readies_readBeforeAttrValue (h : Reread d BehindName AtValue (tokens w es))
    (hw : w[n]? = some c) :
    Readies d w es (readBeforeAttrValue ⟨.beforeAttrValue, n, some m, .idle, .empty⟩ c) := by
  unfold readBeforeAttrValue
  split
  · exact .next h
  · split
    · exact .next h
    · split
      · exact .next h
      · next hspace =>
        refine .again ⟨h, fun v b hv hb => ?_⟩
        obtain rfl := Option.some.inj hv
        obtain rfl := Option.some.inj (hw.symm.trans hb)
        exact Bool.not_eq_true _ ▸ hspace

/-- A value between quotation marks is written down with the same marks. -/
theorem readies_readInQuotedValue {v : Nat} {mark : QuoteMark}
    (hvalue : Only (· != mark.byte) w v n) (h : Reread d BehindName AtValue (tokens w es)) :
    Readies d w es
      (readInQuotedValue ⟨.inQuotedValue mark, n, some v, .idle, .empty⟩ mark c) := by
  unfold readInQuotedValue
  split
  · have hattr : Reread d Anywhere AtAttrs
        (tokens w (es ++ [.attribData ⟨v, n⟩, .attribEnd mark.quote (n + 1)])) := by
      rw [tokens_append]
      exact h.quoted mark (row hvalue)
    exact hattr.mono fun _ _ _ => trivial
  · exact .next h

/-- A value without quotation marks as a word that can be printed, if it has a byte. -/
theorem exists_bareWord {v : Nat} (hfirst : w[v]? ≠ some Byte.doubleQuote ∧
      w[v]? ≠ some Byte.singleQuote) (hvalue : Only inBareValue w v n) (hlt : v < n) :
    ∃ word : BareWord, word.bytes = bytesAt w ⟨v, n⟩ := by
  obtain ⟨b, hb, hin⟩ := hvalue.byte v (Nat.le_refl v) hlt
  have hrest : Only inBareValue w (v + 1) n :=
    ⟨hlt, fun k hk hkn => hvalue.byte k (Nat.le_of_succ_le hk) hkn⟩
  rw [hb] at hfirst
  refine ⟨⟨b, ⟨hin, ?_, ?_⟩, row hrest⟩, (bytesAt_cons hb hlt).symm⟩
  · exact fun heq => hfirst.1 (congrArg some heq)
  · exact fun heq => hfirst.2 (congrArg some heq)

/-- A value without quotation marks is written down as it is. -/
theorem readies_readInBareValue {v : Nat} (hbare : Bare w m v n)
    (h : Ready d w ⟨.inBareValue, n, some v, .idle, .empty⟩ es) (hw : w[n]? = some c) :
    Readies d w es (readInBareValue ⟨.inBareValue, n, some v, .idle, .empty⟩ c) := by
  obtain ⟨htokens, hspace⟩ := h
  unfold readInBareValue
  split
  · next hend =>
    show Reread d (Front w n) AtAttrs
      (tokens w (es ++ [.attribData ⟨v, n⟩, .attribEnd .bare n]))
    rw [tokens_append]
    by_cases hlt : v < n
    · obtain ⟨word, hword⟩ := exists_bareWord hbare.first hbare.value hlt
      have hattr := htokens.bare word
      rw [hword] at hattr
      exact hattr.mono fun _ _ hfront => hfront.stops
    · -- An empty value ends at the byte that began it, and this is no white space.
      obtain rfl : v = n := Nat.le_antisymm hbare.value.le (Nat.le_of_not_lt hlt)
      have htag : w[v]? = some Byte.tagEnd := by
        have hno := hspace v c rfl hw
        rw [hno] at hend
        simpa [hw] using hend
      have hattr := htokens.bareEmpty
      rw [← bytesAt_self (w := w) (i := v)] at hattr
      exact hattr.mono fun _ _ hfront => hfront.tagEnd htag
  · exact .next ⟨htokens, hspace⟩

/-! ## Runs -/

/-- The names of the first events are unambiguous if those of all are. -/
theorem Unambiguous.of_append {new : List Event} (h : Unambiguous w (es ++ new)) :
    Unambiguous w es := by
  intro span hspan
  apply h span
  rw [List.filterMap_append]
  exact List.mem_append_left _ hspan

/-- What a scan has found, ready to be read again. -/
structure Found (d : Dialect) (w : List UInt8) (s : Scan) (es : List Event) : Prop where
  underway : Underway d w s es
  ready : Unambiguous w es → Ready d w s es

/-- Every turn leaves ready what it reports, in the mode that it leads to. -/
theorem Found.readies (ho : d.opening ≠ []) (hcl : d.closing ≠ []) (h : Found d w s es)
    (hw : w[s.cursor]? = some c)
    (hnames : Unambiguous w (es ++ (s.turn d c w[s.cursor + 1]?).events)) :
    Readies d w es (s.turn d c w[s.cursor + 1]?) := by
  obtain ⟨hunder, hready⟩ := h
  have hready := hready hnames.of_append
  cases hunder with
  | text _ _ _ => exact readies_readText ho hcl hready hw
  | interpolationOpen _ _ _ _ _ _ => exact readies_marker ho hcl (Or.inl rfl) hready hw
  | interpolation _ _ _ _ => exact readies_marker ho hcl (Or.inr (Or.inl rfl)) hready hw
  | interpolationClose _ _ _ _ _ _ => exact readies_marker ho hcl (Or.inr (Or.inr rfl)) hready hw
  | beforeTagName _ _ => exact readies_readBeforeTagName ho hcl hready hw
  | inTagName _ hop hname => exact readies_readInTagName hop.tags hname hready
  | beforeClosingTagName _ _ => exact readies_readBeforeClosingTagName ho hcl hready hw
  | inClosingTagName _ hop hname => exact readies_readInClosingTagName hop.opener.tags hname hready
  | afterClosingTagName _ _ _ _ => exact readies_readAfterClosingTagName hready
  | beforeAttrName _ => exact readies_readBeforeAttrName hready hw
  | inSelfClosingTag _ => exact readies_readInSelfClosingTag hready
  | inAttrName _ _ => exact readies_naming hready hw hnames
  | inDirName _ _ _ _ => exact readies_naming hready hw hnames
  | inDirArg _ _ _ => exact readies_naming hready hw hnames
  | inDirDynamicArg _ _ _ => exact readies_naming hready hw hnames
  | inDirModifier _ _ _ _ => exact readies_naming hready hw hnames
  | afterAttrName _ _ _ => exact readies_readAfterAttrName hready hw
  | beforeAttrValue _ _ _ => exact readies_readBeforeAttrValue hready hw
  | inQuotedValue mark _ _ _ hvalue => exact readies_readInQuotedValue hvalue hready
  | inBareValue _ _ hbare => exact readies_readInBareValue hbare hready hw

/-- What a scan has found and the readiness of its mode are kept together. -/
theorem Found.kept (ho : d.opening ≠ []) (hcl : d.closing ≠ []) : Scan.Kept d w (Found d w) := by
  intro s es c h hw
  exact ⟨Underway.kept ho hcl s es c h.underway hw, fun hnames => h.readies ho hcl hw hnames⟩

/-- A scan is ready at the end of a template. -/
theorem found_run (o : Options) (rawText : Bool) (template : String) :
    Found (o.dialect rawText) (utf8Bytes template) ((o.dialect rawText).run template).scan
      ((o.dialect rawText).run template).events := by
  refine Dialect.run_of_kept (Found.kept ?_ ?_) ⟨.fresh, fun _ => InContent.fresh .nil⟩
  · exact utf8Bytes_ne_nil o.delimiters.opening_ne_empty
  · exact utf8Bytes_ne_nil o.delimiters.closing_ne_empty

/-! ## Templates -/

/-- The last part of a template is reported as the same tokens wherever it stands. -/
theorem tokens_last {content : List Event} {b : Nat}
    (hspans : ∀ e ∈ content ++ textBetween b n, ∀ span, e.span? = some span → span.stop ≤ n)
    (hsame : ∀ q < n, w[k + q]? = u[q]?) (first : List Event) :
    tokens w (first ++ content.map (Event.shift k) ++
        (Scan.shift k ⟨.text, n, some b, .idle, .empty⟩).ending) =
      tokens w first ++ (tokens u (content ++ textBetween b n) ++ [.endOfInput]) := by
  rw [← tokens_shift hspans hsame, ending_shift, Scan.ending]
  simp only [List.map_append, tokens_append, List.append_assoc]
  rfl

/-- The last part of a template is written as it stands there. -/
theorem render_last {ts : List Token} (hlaid : Laid d u n es) (hn : n = u.length)
    (hes : ∀ e ∈ es, isContent e = true) :
    render d (ts ++ (tokens u es ++ [.endOfInput])) = render d ts ++ u := by
  have hend : ∀ t ∈ [Token.endOfInput].head?, isFree t = true := by simp [isFree]
  have hfree : ∀ t ∈ (tokens u es ++ [Token.endOfInput]).head?, isFree t = true := by
    have hcontent := free_of_content (w := u) hes
    cases es with
    | nil => exact hend
    | cons e es => exact hcontent
  rw [render_append hfree, render_append hend, render_of_laid hlaid hes, hn, List.take_length]
  exact congrArg _ (List.append_nil u)

/-- The canonical form of a template that ends in text is read up to its end as the same tokens. -/
theorem InContent.exists_leads (h : InContent d w s es) (hmode : s.mode = .text)
    (hend : s.cursor = w.length) {w' : List UInt8}
    (hw' : w' = render d (tokens w (es ++ s.ending))) :
    ∃ s' es', Leads d w' {} es' s' ∧ s'.mode = .text ∧ w'.length ≤ s'.cursor ∧
      tokens w' (es' ++ s'.ending) = tokens w (es ++ s.ending) := by
  cases h with
  | @behind i s es content htokens hunder hcontent hpath =>
    cases hunder with
    | @text b n _ hl hb hmissed =>
      have hlen : n = (w.drop i).length := by
        have hcursor : n + i = w.length := hend
        rw [List.length_drop]
        omega
      have hlaid : Laid d (w.drop i) n (content ++ textBetween b n) :=
        hl.pendingText (s := ⟨.text, n, some b, .idle, .empty⟩) rfl hb
          (Or.inr (Or.inr hlen)) hmissed
      have hall := content_append_textBetween (i := b) (n := n) hcontent
      have hspans := span_stop_le (inOrder_laid (measure_firmStretch (d := d)) hlaid)
      have hw := tokens_last hspans (same_drop (w := w) (k := i)) es
      rw [hw, render_last hlaid hlen hall] at hw'
      -- First comes the canonical form of what ends with the last tag, then the rest as it stands.
      have hocc : OccursAt (render d (tokens w es)) w' 0 := by
        rw [hw']
        exact List.prefix_append _ _
      have hsame : ∀ q, w'[(render d (tokens w es)).length + q]? = (w.drop i)[q]? := by
        intro q
        rw [hw', List.getElem?_append_right (Nat.le_add_right _ _), Nat.add_sub_cancel_left]
      obtain ⟨es', hreach, htokens'⟩ := htokens w' hocc trivial
      have hleads := hreach.leads fun s' owed hs' =>
        hpath w' _ s' owed hs' fun q _ => hsame q
      refine ⟨_, _, hleads, rfl, ?_, ?_⟩
      · rw [hw', List.length_append, ← hlen, Nat.add_comm]
        exact Nat.le_refl _
      · rw [tokens_last hspans (fun q _ => hsame q), htokens']
        exact hw.symm
    | _ => cases hmode

/-- If a template ends in text and no name of a plain attribute begins with the sign of a value, its
canonical form is a template that is read as the same tokens and ends in text again; so the
canonical form of this one is itself. -/
theorem rendered_fixed (o : Options) (rawText : Bool) (template : String)
    (hmode : ((o.dialect rawText).run template).scan.mode = .text)
    (hnames : Unambiguous (utf8Bytes template) ((o.dialect rawText).events template)) :
    let d := o.dialect rawText
    let ts := tokens (utf8Bytes template) (d.events template)
    ∃ rendered : String, utf8Bytes rendered = render d ts ∧
      tokens (utf8Bytes rendered) (d.events rendered) = ts ∧
      (d.run rendered).scan.mode = .text ∧
      render d (tokens (utf8Bytes rendered) (d.events rendered)) = utf8Bytes rendered := by
  intro d ts
  obtain ⟨rendered, hrendered⟩ := exists_rendered o rawText template
  have hready := (found_run o rawText template).ready hnames.of_append
  obtain ⟨s, es, hpath, htext, hend, htokens⟩ :=
    (hready.inContent hmode).exists_leads hmode (d.cursor_run template) hrendered
  have hfinish := finish_of_length_le (d := d) hend
  have hevents : d.events rendered = es ++ s.ending := by
    rw [hpath.events_eq, hfinish]
    rfl
  have hsame : tokens (utf8Bytes rendered) (d.events rendered) = ts := by
    rw [hevents]
    exact htokens
  refine ⟨rendered, hrendered, hsame, ?_, ?_⟩
  · refine (congrArg Scan.mode hpath.finish_eq.1).trans ?_
    rw [hfinish]
    exact htext
  · rw [hsame]
    exact hrendered.symm

/-- A template with much in it that its canonical form leaves out. -/
def untidyTemplate : String :=
  "a<b!\t:[c v-d:=e f= ><!g/h /></i j>k < l"

/-- The template holds much of what the canonical form leaves out. -/
theorem rendered_fixed_untidy :
    let d := Options.dialect {} false
    let ts := tokens (utf8Bytes untidyTemplate) (d.events untidyTemplate)
    (d.run untidyTemplate).scan.mode = .text ∧
      Unambiguous (utf8Bytes untidyTemplate) (d.events untidyTemplate) ∧
      ∃ rendered : String, utf8Bytes rendered = render d ts ∧
        tokens (utf8Bytes rendered) (d.events rendered) = ts ∧
        (d.run rendered).scan.mode = .text ∧
        render d (tokens (utf8Bytes rendered) (d.events rendered)) = utf8Bytes rendered := by
  have hmode : ((Options.dialect {} false).run untidyTemplate).scan.mode = .text := by
    decide +kernel
  have hnames : Unambiguous (utf8Bytes untidyTemplate)
      ((Options.dialect {} false).events untidyTemplate) := by decide +kernel
  exact ⟨hmode, hnames, rendered_fixed {} false untidyTemplate hmode hnames⟩

example :
    let d := Options.dialect {} false
    render d (tokens (utf8Bytes untidyTemplate) (d.events untidyTemplate)) =
      utf8Bytes "a<b! :[c v-d:=e f=><g h /></i>k < l" := by
  decide +kernel

end Rendering

end TemplateLexer
