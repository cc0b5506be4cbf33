import TemplateLexer.Proofs.Induction
import TemplateLexer.Proofs.Layout

/-!
# The layout that a scan finds

`Underway d w s es` says what a scan `s` in front of a byte of `w` has found, if it has reported
`es`: which bytes the events describe, and what is known of the bytes of the part under way. It
names each mode that a scan can be in, with all that the scan keeps in it. Every turn keeps it
(`Underway.kept`), so it holds of every run.
-/

set_option autoImplicit false

namespace TemplateLexer.Layout

open Marker

/-- An opening tag has been read up to an offset. -/
inductive Tagged (d : Dialect) (w : List UInt8) (n : Nat) : List Event → Prop
  | intro {i a b : Nat} {es attrs : List Event} : Laid d w i es → Opener d w i a →
      TagName w a b → Attrs w b n attrs → Tagged d w n (es ++ .openTagName ⟨a, b⟩ :: attrs)

/-- The shape of the bytes from one offset to another, read as an argument. -/
def shapeOf (w : List UInt8) (a n : Nat) : ArgShape :=
  .ofBytes ((w.drop a).take (n - a))

/-- What a scan has found, mode by mode. -/
inductive Underway (d : Dialect) (w : List UInt8) : Scan → List Event → Prop
  | text {i n : Nat} {es : List Event} : Laid d w i es → i ≤ n → NoneMissed d w i n →
      Underway d w ⟨.text, n, some i, .idle, .empty⟩ es
  | interpolationOpen {i m k : Nat} {es : List Event} : Laid d w i es → i ≤ m →
      NoneMissed d w i m → d.vPre = false → k < d.opening.length →
      OccursAt (d.opening.take k) w m →
      Underway d w ⟨.interpolationOpen, m + k, some i, ⟨some k⟩, .empty⟩ es
  | interpolation {i n : Nat} {es : List Event} : Laid d w i es → Inside d w i →
      i + d.opening.length ≤ n →
      (Restartable d.closing → Absent d.closing w (i + d.opening.length) n) →
      Underway d w ⟨.interpolation, n, some i, .idle, .empty⟩ es
  | interpolationClose {i m k : Nat} {es : List Event} : Laid d w i es → Inside d w i →
      i + d.opening.length ≤ m →
      (Restartable d.closing → Absent d.closing w (i + d.opening.length) m) →
      k < d.closing.length → OccursAt (d.closing.take k) w m →
      Underway d w ⟨.interpolationClose, m + k, some i, ⟨some k⟩, .empty⟩ es
  | beforeTagName {i n : Nat} {es : List Event} : Laid d w i es → Opener d w i n →
      Underway d w ⟨.beforeTagName, n, some i, .idle, .empty⟩ es
  | inTagName {i a n : Nat} {es : List Event} : Laid d w i es → Opener d w i a → TagName w a n →
      Underway d w ⟨.inTagName, n, some a, .idle, .empty⟩ es
  | beforeClosingTagName {i n : Nat} {es : List Event} : Laid d w i es → CloseOpener d w i n →
      Underway d w ⟨.beforeClosingTagName, n, some i, .idle, .empty⟩ es
  | inClosingTagName {i a n : Nat} {es : List Event} : Laid d w i es → CloseOpener d w i a →
      TagName w a n → Underway d w ⟨.inClosingTagName, n, some a, .idle, .empty⟩ es
  | afterClosingTagName {i a b n : Nat} {es : List Event} : Laid d w i es →
      CloseOpener d w i a → TagName w a b → Only (· != Byte.tagEnd) w b n →
      Underway d w ⟨.afterClosingTagName, n, none, .idle, .empty⟩ (es ++ [.closeTag ⟨a, b⟩])
  | beforeAttrName {n : Nat} {es : List Event} : Tagged d w n es →
      Underway d w ⟨.beforeAttrName, n, none, .idle, .empty⟩ es
  | inSelfClosingTag {n : Nat} {es : List Event} : Tagged d w n es →
      Underway d w ⟨.inSelfClosingTag, n, none, .idle, .empty⟩ es
  | inAttrName {i n : Nat} {es : List Event} : Tagged d w i es → PlainName w i n →
      Underway d w ⟨.inAttrName, n, some i, .idle, .empty⟩ es
  | inDirName {i n : Nat} {es : List Event} : Tagged d w i es → w[i]? = some Byte.letterV →
      w[i + 1]? = some Byte.hyphen → Only inLongName w (i + 1) n →
      Underway d w ⟨.inDirName, n, some i, .idle, .empty⟩ es
  | inDirArg {i a n : Nat} {es : List Event} {head : Event} : Tagged d w i es →
      ArgHead w i a head → Only inName w a n →
      Underway d w ⟨.inDirArg, n, some a, .idle, shapeOf w a n⟩ (es ++ [head])
  | inDirDynamicArg {i a n : Nat} {es : List Event} {head : Event} : Tagged d w i es →
      ArgHead w i a head → Only inName w a n →
      Underway d w ⟨.inDirDynamicArg, n, some a, .idle, shapeOf w a n⟩ (es ++ [head])
  | inDirModifier {i j n : Nat} {es directive : List Event} : Tagged d w i es →
      Directive w i j directive → w[j]? = some Byte.dot → Only inModifier w (j + 1) n →
      Underway d w ⟨.inDirModifier, n, some (j + 1), .idle, .empty⟩ (es ++ directive)
  | afterAttrName {i m n : Nat} {es name : List Event} : Tagged d w i es → Name w i m name →
      Only Byte.isSpace w m n →
      Underway d w ⟨.afterAttrName, n, some m, .idle, .empty⟩
        (es ++ (name ++ [.attribNameEnd m]))
  | beforeAttrValue {i m n : Nat} {es name : List Event} : Tagged d w i es → Name w i m name →
      Announced w m n →
      Underway d w ⟨.beforeAttrValue, n, some m, .idle, .empty⟩
        (es ++ (name ++ [.attribNameEnd m]))
  | inQuotedValue {i m v n : Nat} {es name : List Event} (mark : QuoteMark) : Tagged d w i es →
      Name w i m name → Quoted w m mark v → Only (· != mark.byte) w (v + 1) n →
      Underway d w ⟨.inQuotedValue mark, n, some (v + 1), .idle, .empty⟩
        (es ++ (name ++ [.attribNameEnd m]))
  | inBareValue {i m v n : Nat} {es name : List Event} : Tagged d w i es → Name w i m name →
      Bare w m v n →
      Underway d w ⟨.inBareValue, n, some v, .idle, .empty⟩
        (es ++ (name ++ [.attribNameEnd m]))

/-- A turn goes on from a row of events to what a scan has found next. -/
def Follows (d : Dialect) (w : List UInt8) (es : List Event) (t : Turn) : Prop :=
  Underway d w t.onward (es ++ t.events)

variable {d : Dialect} {w : List UInt8} {i a n m : Nat} {c : UInt8} {es : List Event}

/-- A turn without events leaves its byte to the next mode. -/
theorem Follows.again {s : Scan} (h : Underway d w s es) : Follows d w es ⟨s, [], true⟩ := by
  rwa [Follows, List.append_nil]

/-- A turn without events goes on to the next byte. -/
theorem Follows.next {s : Scan} (h : Underway d w { s with cursor := s.cursor + 1 } es) :
    Follows d w es ⟨s, [], false⟩ := by
  rwa [Follows, List.append_nil]

/-! ## Text and interpolations -/

/-- The text under way is described as soon as it is reported. -/
theorem Laid.pendingText {s : Scan} (hl : Laid d w i es) (hs : s.sectionStart = some i)
    (hi : i ≤ n) (hstop : TextStop d w n) (hmissed : NoneMissed d w i n) :
    Laid d w n (es ++ s.pendingText n) := by
  simp only [Scan.pendingText, hs, Option.getD_some]
  by_cases hlt : i < n
  · rw [if_pos hlt]
    exact .text hl hlt hstop hmissed
  · rw [if_neg hlt, List.append_nil]
    obtain rfl : i = n := by omega
    exact hl

/-- A byte that does not begin the opening marker misses none. -/
theorem NoneMissed.succ (h : NoneMissed d w i n) (ho : d.opening ≠ []) (hw : w[n]? = some c)
    (hc : ¬ (d.vPre = false ∧ d.opening.head? = some c)) : NoneMissed d w i (n + 1) := by
  intro hsearch
  exact (h hsearch).trans (.of_head_ne hw ho fun hhead => hc ⟨hsearch.interpolates, hhead⟩)

/-- A text goes on byte by byte, up to a tag or to what may be the opening marker. -/
theorem follows_readText (ho : d.opening ≠ []) (hl : Laid d w i es) (hi : i ≤ n)
    (hmissed : NoneMissed d w i n) (hw : w[n]? = some c) :
    Follows d w es (Scan.readText d ⟨.text, n, some i, .idle, .empty⟩ c) := by
  unfold Scan.readText
  split
  · next htag =>
    obtain ⟨rfl, htags⟩ := htag
    have hstop : TextStop d w n := Or.inl ⟨htags, hw⟩
    exact Underway.beforeTagName (hl.pendingText rfl hi hstop hmissed) ⟨htags, hw, .refl⟩
  · split
    · next hmark =>
      refine .again
        (Underway.interpolationOpen (m := n) (k := 0) hl hi hmissed hmark.1 ?_ .take_zero)
      exact List.length_pos_iff.mpr ho
    · next hmark => exact .next (.text hl (Nat.le_succ_of_le hi) (hmissed.succ ho hw hmark))

/-- A complete opening marker ends the text at its first byte, and a comparison that fails leaves
the text under way. -/
theorem follows_readInterpolationOpen {k : Nat} (hl : Laid d w i es) (hi : i ≤ m)
    (hmissed : NoneMissed d w i m) (hpre : d.vPre = false) (hk : k < d.opening.length)
    (hmatch : OccursAt (d.opening.take k) w m) (hw : w[m + k]? = some c) :
    Follows d w es (Scan.readInterpolationOpen d
      ⟨.interpolationOpen, m + k, some i, ⟨some k⟩, .empty⟩ c) := by
  by_cases hbyte : d.opening[k]? = some c
  · have hmore := hmatch.take_succ hbyte hw
    by_cases hlast : k + 1 = d.opening.length
    · rw [hlast, List.take_length] at hmore
      have hstart : m + k + 1 - d.opening.length = m := by omega
      simp only [Scan.readInterpolationOpen,
        Matcher.step_completed (m := ⟨some k⟩) hbyte hlast, hstart]
      exact Underway.interpolation (n := m + k + 1)
        (hl.pendingText rfl hi (Or.inr (Or.inl ⟨hpre, hmore⟩)) hmissed) ⟨hpre, hmore⟩ (by omega)
        fun _ => by rw [← hlast, ← Nat.add_assoc]; exact .refl
    · simp only [Scan.readInterpolationOpen, Matcher.step_advanced (m := ⟨some k⟩) hbyte hlast]
      exact .next (Underway.interpolationOpen (k := k + 1) hl hi hmissed hpre (by omega) hmore)
  · simp only [Scan.readInterpolationOpen, Matcher.step_mismatched (m := ⟨some k⟩) hbyte]
    have hfail : NoneMissed d w i (m + k) := fun hsearch =>
      (hmissed hsearch).trans (.of_mismatch hsearch.restartable hk hmatch hw hbyte)
    exact .again (Underway.text (n := m + k) hl (by omega) hfail)

/-- An interpolation goes on byte by byte, up to what may be the closing marker. -/
theorem follows_readInterpolation (hcl : d.closing ≠ []) (hl : Laid d w i es)
    (hin : Inside d w i) (hn : i + d.opening.length ≤ n)
    (habsent : Restartable d.closing → Absent d.closing w (i + d.opening.length) n)
    (hw : w[n]? = some c) :
    Follows d w es (Scan.readInterpolation d ⟨.interpolation, n, some i, .idle, .empty⟩ c) := by
  unfold Scan.readInterpolation
  split
  · refine .again (Underway.interpolationClose (m := n) (k := 0) hl hin hn habsent ?_ .take_zero)
    exact List.length_pos_iff.mpr hcl
  · next hhead =>
    exact .next (Underway.interpolation (n := n + 1) hl hin (Nat.le_succ_of_le hn)
      fun hm => (habsent hm).trans (.of_head_ne hw hcl hhead))

/-- A complete closing marker ends the interpolation, and a comparison that fails leaves it under
way. -/
theorem follows_readInterpolationClose {k : Nat} (hl : Laid d w i es) (hin : Inside d w i)
    (hm : i + d.opening.length ≤ m)
    (habsent : Restartable d.closing → Absent d.closing w (i + d.opening.length) m)
    (hk : k < d.closing.length) (hmatch : OccursAt (d.closing.take k) w m)
    (hw : w[m + k]? = some c) :
    Follows d w es (Scan.readInterpolationClose d
      ⟨.interpolationClose, m + k, some i, ⟨some k⟩, .empty⟩ c) := by
  by_cases hbyte : d.closing[k]? = some c
  · have hmore := hmatch.take_succ hbyte hw
    by_cases hlast : k + 1 = d.closing.length
    · rw [hlast, List.take_length] at hmore
      have hstop : m + k + 1 - d.closing.length = m := by omega
      simp only [Scan.readInterpolationClose,
        Matcher.step_completed (m := ⟨some k⟩) hbyte hlast, hstop]
      have hlaid := Laid.interpolation hl hin hm hmore habsent
      rw [← hlast, ← Nat.add_assoc] at hlaid
      exact Underway.text (n := m + k + 1) hlaid (Nat.le_refl _) fun _ => .refl
    · simp only [Scan.readInterpolationClose, Matcher.step_advanced (m := ⟨some k⟩) hbyte hlast]
      exact .next (Underway.interpolationClose (k := k + 1) hl hin hm habsent (by omega) hmore)
  · simp only [Scan.readInterpolationClose, Matcher.step_mismatched (m := ⟨some k⟩) hbyte]
    exact .again (Underway.interpolation (n := m + k) hl hin (by omega)
      fun hr => (habsent hr).trans (.of_mismatch hr hk hmatch hw hbyte))

/-! ## Tags -/

/-- The bytes up to the name of a tag, should they turn back into text, hide no opening marker. -/
theorem NoneMissed.of_tag_bytes (ho : d.opening ≠ []) (htags : d.rawText = false)
    (hi : w[i]? = some Byte.tagOpen)
    (hbytes : ∀ p, i < p → p < n → ∃ c, w[p]? = some c ∧
      (c = Byte.slash ∨ isDeclarationMark c = true)) : NoneMissed d w i n := by
  intro hsearch p hip hpn hocc
  obtain ⟨b, rest, hb⟩ := List.exists_cons_of_ne_nil ho
  have hwp : w[p]? = some b := hocc.getElem? (k := 0) (by rw [hb]; rfl)
  rcases hsearch.plain with hraw | hfree | hplain
  · rw [htags] at hraw
    cases hraw
  · exact hfree (List.mem_of_getElem? hi)
  · obtain ⟨hopen, hslash, hmark⟩ := hplain b (by rw [hb]; exact List.mem_cons_self)
    by_cases hp : p = i
    · rw [hp, hi] at hwp
      exact hopen (Option.some.inj hwp).symm
    · obtain ⟨c, hc, hcs⟩ := hbytes p (by omega) hpn
      rw [hwp] at hc
      obtain rfl := Option.some.inj hc
      rcases hcs with rfl | hdecl
      · exact hslash rfl
      · rw [hmark] at hdecl
        cases hdecl

/-- No opening marker is missed in the opening of a tag that turns back into text. -/
theorem Opener.noneMissed (h : Opener d w i n) (ho : d.opening ≠ []) : NoneMissed d w i n := by
  refine .of_tag_bytes ho h.tags h.bracket fun p hip hpn => ?_
  obtain ⟨c, hc, hmark⟩ := h.marks.byte p hip hpn
  exact ⟨c, hc, Or.inr hmark⟩

/-- No opening marker is missed in the opening of a closing tag that turns back into text. -/
theorem CloseOpener.noneMissed (h : CloseOpener d w i n) (ho : d.opening ≠ []) :
    NoneMissed d w i n := by
  refine .of_tag_bytes ho h.opener.tags h.opener.bracket fun p hip hpn => ?_
  by_cases hp : p = n - 1
  · exact ⟨Byte.slash, by rw [hp]; exact h.slash, Or.inl rfl⟩
  · obtain ⟨c, hc, hmark⟩ := h.opener.marks.byte p hip (by omega)
    exact ⟨c, hc, Or.inr hmark⟩

/-- Behind the opening of a tag, marks are skipped until a letter begins its name, or it is no tag
at all. -/
theorem follows_readBeforeTagName (ho : d.opening ≠ []) (hl : Laid d w i es)
    (hop : Opener d w i n) (hw : w[n]? = some c) :
    Follows d w es (Scan.readBeforeTagName ⟨.beforeTagName, n, some i, .idle, .empty⟩ c) := by
  have hle := hop.marks.le
  unfold Scan.readBeforeTagName
  split
  · next hmark =>
    have hc : isDeclarationMark c = true := by
      rcases hmark with rfl | rfl <;> rfl
    exact .next (.beforeTagName hl ⟨hop.tags, hop.bracket, hop.marks.concat hw hc⟩)
  · split
    · next hslash =>
      subst hslash
      exact .next (Underway.beforeClosingTagName (n := n + 1) hl ⟨by omega, hop, hw⟩)
    · split
      · next hletter =>
        exact .next (Underway.inTagName (n := n + 1) hl hop ⟨⟨c, hw, hletter⟩, .refl⟩)
      · exact .again (Underway.text (n := n) hl (by omega) (hop.noneMissed ho))

/-- The name of a tag goes on up to a byte that ends it, and attributes may follow. -/
theorem follows_readInTagName (hl : Laid d w i es) (hop : Opener d w i a) (hname : TagName w a n)
    (hw : w[n]? = some c) :
    Follows d w es (Scan.readInTagName ⟨.inTagName, n, some a, .idle, .empty⟩ c) := by
  unfold Scan.readInTagName
  split
  · exact Underway.beforeAttrName (.intro hl hop hname .nil)
  · next hend =>
    have hc : inTagName c = true := by simp [inTagName, hend]
    exact .next (.inTagName hl hop ⟨hname.letter, hname.rest.concat hw hc⟩)

/-- Behind the slash of a closing tag, a letter begins its name, or it is no tag at all. -/
theorem follows_readBeforeClosingTagName (ho : d.opening ≠ []) (hl : Laid d w i es)
    (hop : CloseOpener d w i n) (hw : w[n]? = some c) :
    Follows d w es
      (Scan.readBeforeClosingTagName ⟨.beforeClosingTagName, n, some i, .idle, .empty⟩ c) := by
  have hle := hop.slash_le
  unfold Scan.readBeforeClosingTagName
  split
  · next hletter =>
    exact .next (Underway.inClosingTagName (n := n + 1) hl hop ⟨⟨c, hw, hletter⟩, .refl⟩)
  · exact .again (Underway.text (n := n) hl (by omega) (hop.noneMissed ho))

/-- The name of a closing tag goes on up to a byte that ends it, and the rest is skipped. -/
theorem follows_readInClosingTagName (hl : Laid d w i es) (hop : CloseOpener d w i a)
    (hname : TagName w a n) (hw : w[n]? = some c) :
    Follows d w es (Scan.readInClosingTagName ⟨.inClosingTagName, n, some a, .idle, .empty⟩ c) := by
  unfold Scan.readInClosingTagName
  split
  · exact Underway.afterClosingTagName hl hop hname .refl
  · next hend =>
    have hc : inTagName c = true := by simp [inTagName, hend]
    exact .next (.inClosingTagName hl hop ⟨hname.letter, hname.rest.concat hw hc⟩)

/-- What a closing tag skips goes on up to its end. -/
theorem follows_readAfterClosingTagName {b : Nat} (hl : Laid d w i es)
    (hop : CloseOpener d w i a) (hname : TagName w a b) (hskip : Only (· != Byte.tagEnd) w b n)
    (hw : w[n]? = some c) :
    Follows d w (es ++ [.closeTag ⟨a, b⟩])
      (Scan.readAfterClosingTagName ⟨.afterClosingTagName, n, none, .idle, .empty⟩ c) := by
  unfold Scan.readAfterClosingTagName
  split
  · next hend =>
    subst hend
    have hlaid := Laid.closeTag hl hop hname hskip hw
    exact .next (Underway.text (n := n + 1) hlaid (Nat.le_refl _) fun _ => .refl)
  · next hend =>
    exact .next (.afterClosingTagName hl hop hname (hskip.concat hw (by simpa using hend)))

/-! ## Between two attributes -/

/-- White space and slashes keep a tag as it is. -/
theorem Tagged.gap (h : Tagged d w n es) (hw : w[n]? = some c)
    (hc : Byte.isSpace c = true ∨ c = Byte.slash) : Tagged d w (n + 1) es := by
  obtain ⟨hl, hop, hname, hattrs⟩ := h
  exact ⟨hl, hop, hname, .gap hattrs hw hc⟩

/-- A complete attribute takes a tag on to its end. -/
theorem Tagged.attr {attr : List Event} (h : Tagged d w n es) (ha : Attr w n m attr) :
    Tagged d w m (es ++ attr) := by
  obtain ⟨hl, hop, hname, hattrs⟩ := h
  rw [List.append_assoc, List.cons_append]
  exact ⟨hl, hop, hname, .attr hattrs ha⟩

/-- White space of any length keeps a tag as it is. -/
theorem Tagged.spaces (h : Tagged d w n es) (hs : Only Byte.isSpace w n m) :
    Tagged d w m es := by
  obtain ⟨k, rfl⟩ := Nat.exists_eq_add_of_le hs.le
  induction k with
  | zero => exact h
  | succ k ih =>
    obtain ⟨c, hw, hc⟩ := hs.byte (n + k) (by omega) (by omega)
    have hshort : Only Byte.isSpace w n (n + k) :=
      ⟨by omega, fun p hp hk => hs.byte p hp (by omega)⟩
    exact (ih hshort).gap hw (Or.inl hc)

/-- The end of a tag makes it an item of the layout. -/
theorem Tagged.finish {stop : Event} (h : Tagged d w n es) (hw : w[n]? = some Byte.tagEnd)
    (hstop : TagEnd n stop) : Laid d w (n + 1) (es ++ [stop]) := by
  obtain ⟨hl, hop, hname, hattrs⟩ := h
  rw [List.append_assoc, List.cons_append]
  exact .openTag hl hop hname hattrs hw hstop

/-- A slash closes the tag if the end of the tag follows, perhaps behind white space. -/
theorem follows_readInSelfClosingTag (h : Tagged d w n es) (hw : w[n]? = some c) :
    Follows d w es
      (Scan.readInSelfClosingTag ⟨.inSelfClosingTag, n, none, .idle, .empty⟩ c) := by
  unfold Scan.readInSelfClosingTag
  split
  · next hend =>
    subst hend
    exact Underway.text (n := n + 1) (h.finish hw .selfClosing) (Nat.le_refl _) fun _ => .refl
  · split
    · next hspace => exact .next (.inSelfClosingTag (h.gap hw (Or.inl hspace)))
    · exact .again (.beforeAttrName h)

/-! ## Names of attributes -/

/-- The long form of a name is complete at a byte that cannot continue it. -/
theorem LongName.of_stop (hv : w[i]? = some Byte.letterV) (hh : w[i + 1]? = some Byte.hyphen)
    (hrest : Only inLongName w (i + 1) n) (hw : w[n]? = some c) (hc : inLongName c = false) :
    LongName w i n := by
  refine ⟨hv, hh, ?_, hrest⟩
  have hne : n ≠ i + 1 := by
    rintro rfl
    rw [hh] at hw
    obtain rfl := Option.some.inj hw
    cases hc
  have hle := hrest.le
  omega

/-- The shape of an argument follows from that of its bytes but the last, and from the last. -/
theorem shapeOf_succ (ha : a ≤ n) (hw : w[n]? = some c) :
    shapeOf w a (n + 1) = (shapeOf w a n).push c := by
  have hget : (w.drop a)[n - a]? = some c := by
    rw [List.getElem?_drop, Nat.add_sub_cancel' ha, hw]
  rw [shapeOf, shapeOf, Nat.succ_sub ha, List.take_add_one, hget, Option.toList_some,
    ArgShape.ofBytes_concat]

/-- A row has two given bytes at its ends exactly if it begins with one, ends with the other, and
has room for both. -/
theorem exists_eq_cons_concat_iff {row : List UInt8} {b e : UInt8} :
    (∃ inner, row = b :: (inner ++ [e])) ↔
      2 ≤ row.length ∧ row.head? = some b ∧ row.getLast? = some e := by
  constructor
  · rintro ⟨inner, rfl⟩
    refine ⟨?_, rfl, ?_⟩
    · simp
    · rw [← List.cons_append, List.getLast?_concat]
  · rintro ⟨htwo, hfirst, hlast⟩
    cases row with
    | nil => cases hfirst
    | cons b' rest =>
      obtain rfl : b' = b := Option.some.inj hfirst
      rcases List.eq_nil_or_concat rest with rfl | ⟨inner, e', rfl⟩
      · simp at htwo
      · rw [List.concat_eq_append, ← List.cons_append, List.getLast?_concat] at hlast
        obtain rfl : e' = e := Option.some.inj hlast
        exact ⟨inner, by rw [List.concat_eq_append]⟩

/-- The shape of an argument shows whether it stands between two brackets of its own. -/
theorem shapeOf_eq_enclosed_iff {p : UInt8 → Bool} (h : Only p w a n) :
    shapeOf w a n = .enclosed ↔ Enclosed w a n := by
  have hle := h.le
  have hlen : ((w.drop a).take (n - a)).length = n - a := by
    rw [List.length_take, List.length_drop, Nat.min_eq_left]
    by_cases han : a = n
    · omega
    · obtain ⟨c, hc, -⟩ := h.byte (n - 1) (by omega) (by omega)
      have hlt := (List.getElem?_eq_some_iff.mp hc).1
      omega
  have hget : ∀ k, k < n - a → ((w.drop a).take (n - a))[k]? = w[a + k]? := by
    intro k hk
    rw [List.getElem?_take, if_pos hk, List.getElem?_drop]
  rw [shapeOf, ArgShape.ofBytes_eq_enclosed_iff, exists_eq_cons_concat_iff,
    List.head?_eq_getElem?, List.getLast?_eq_getElem?, hlen]
  have hiff : 2 ≤ n - a ↔ a + 2 ≤ n := by omega
  rw [hiff, Enclosed]
  refine and_congr_right fun htwo => ?_
  rw [hget 0 (by omega), hget (n - a - 1) (by omega), Nat.add_zero,
    show a + (n - a - 1) = n - 1 by omega]

/-- The argument under way is reported as what its bytes are. -/
theorem Arg.pendingArg {mode : Mode} (h : Only inName w a n) :
    Arg w a n (Scan.pendingArg ⟨mode, n, some a, .idle, shapeOf w a n⟩) := by
  simp only [Scan.pendingArg, Scan.pending, Option.getD_some]
  by_cases hshape : shapeOf w a n = .enclosed
  · rw [if_pos hshape]
    exact .dynamic h ((shapeOf_eq_enclosed_iff h).mp hshape)
  · rw [if_neg hshape]
    exact .static h fun henc => hshape ((shapeOf_eq_enclosed_iff h).mpr henc)

/-- The name of an attribute has begun at an offset: the scan in it, with what has been reported of
it. -/
inductive Begun (w : List UInt8) (i : Nat) : Scan → List Event → Prop
  | plain {n : Nat} : PlainName w i n → Begun w i ⟨.inAttrName, n, some i, .idle, .empty⟩ []
  | long {n : Nat} : w[i]? = some Byte.letterV → w[i + 1]? = some Byte.hyphen →
      Only inLongName w (i + 1) n → Begun w i ⟨.inDirName, n, some i, .idle, .empty⟩ []
  | arg {a n : Nat} {head : Event} : ArgHead w i a head → Only inName w a n →
      Begun w i ⟨.inDirArg, n, some a, .idle, shapeOf w a n⟩ [head]
  | brackets {a n : Nat} {head : Event} : ArgHead w i a head → Only inName w a n →
      Begun w i ⟨.inDirDynamicArg, n, some a, .idle, shapeOf w a n⟩ [head]
  | modifier {j n : Nat} {es : List Event} : Directive w i j es → w[j]? = some Byte.dot →
      Only inModifier w (j + 1) n →
      Begun w i ⟨.inDirModifier, n, some (j + 1), .idle, .empty⟩ es

/-- A turn goes on to the next byte of a name. -/
structure Spells (w : List UInt8) (i : Nat) (es : List Event) (t : Turn) : Prop where
  done : t.again = false
  begun : Begun w i t.onward (es ++ t.events)

namespace Begun

variable {s : Scan} {next : Option UInt8}

/-- The first byte of a name. -/
theorem start {mode : Mode} {start : Option Nat} (hw : w[n]? = some c)
    (hc : Byte.endsSection c = false) :
    Spells w n [] (Scan.attrStart ⟨mode, n, start, .idle, .empty⟩ c w[n + 1]?) := by
  unfold Scan.attrStart
  split
  · next hlong =>
    obtain ⟨rfl, hhyphen⟩ := hlong
    exact ⟨rfl, .long (n := n + 1) hw hhyphen .refl⟩
  · next hlong =>
    split
    · next sign hsigil =>
      rw [Shorthand.ofSigil?_eq_some_iff] at hsigil
      subst hsigil
      have hshape : shapeOf w (n + 1) (n + 1) = .empty := by simp [shapeOf, ArgShape.ofBytes]
      have harg := Begun.arg (n := n + 1) (.sigil sign hw) .refl
      rw [hshape] at harg
      exact ⟨rfl, harg⟩
    · next hsigil =>
      exact ⟨rfl, .plain (n := n + 1) ⟨⟨c, hw, hc, hsigil, hlong⟩, .refl⟩⟩

/-- A byte of the long form goes on with it, or begins an argument or a modifier. -/
theorem next_long (hv : w[i]? = some Byte.letterV) (hh : w[i + 1]? = some Byte.hyphen)
    (hrest : Only inLongName w (i + 1) n) (hw : w[n]? = some c)
    (hc : Byte.endsName c = false) :
    Spells w i [] (Scan.readInDirName ⟨.inDirName, n, some i, .idle, .empty⟩ c) := by
  have hlong : inLongName c = false → LongName w i n := LongName.of_stop hv hh hrest hw
  simp only [Scan.readInDirName, hc, Bool.false_eq_true, if_false]
  split
  · next hcolon =>
    subst hcolon
    have hshape : shapeOf w (n + 1) (n + 1) = .empty := by simp [shapeOf, ArgShape.ofBytes]
    have harg := Begun.arg (n := n + 1) (.long (hlong rfl) hw) .refl
    rw [hshape] at harg
    exact ⟨rfl, harg⟩
  · next hcolon =>
    split
    · next hdot =>
      subst hdot
      exact ⟨rfl, .modifier (n := n + 1) (.long (hlong rfl)) hw .refl⟩
    · next hdot =>
      have hin : inLongName c = true := by simp [inLongName, hc, hcolon, hdot]
      exact ⟨rfl, .long hv hh (hrest.concat hw hin)⟩

/-- A byte of an argument goes on with it, opens brackets, or begins a modifier. -/
theorem next_arg {head : Event} (hhead : ArgHead w i a head) (harg : Only inName w a n)
    (hw : w[n]? = some c) (hc : Byte.endsName c = false) :
    Spells w i [head] (Scan.readInDirArg ⟨.inDirArg, n, some a, .idle, shapeOf w a n⟩ c) := by
  have hin : inName c = true := by simp [inName, hc]
  have hmore := harg.concat hw hin
  have hpush := shapeOf_succ harg.le hw
  simp only [Scan.readInDirArg, hc, Bool.false_eq_true, if_false]
  split
  · have hnext := Begun.brackets hhead hmore
    rw [hpush] at hnext
    exact ⟨rfl, hnext⟩
  · split
    · next hdot =>
      subst hdot
      exact ⟨rfl, .modifier (n := n + 1) (.arg hhead (.pendingArg harg)) hw .refl⟩
    · have hnext := Begun.arg hhead hmore
      rw [hpush] at hnext
      exact ⟨rfl, hnext⟩

/-- A byte inside of brackets goes on with the argument, and a closing bracket leads out of them. -/
theorem next_brackets {head : Event} (hhead : ArgHead w i a head) (harg : Only inName w a n)
    (hw : w[n]? = some c) (hc : Byte.endsName c = false) :
    Spells w i [head]
      (Scan.readInDirDynamicArg ⟨.inDirDynamicArg, n, some a, .idle, shapeOf w a n⟩ c) := by
  have hin : inName c = true := by simp [inName, hc]
  have hmore := harg.concat hw hin
  have hpush := shapeOf_succ harg.le hw
  simp only [Scan.readInDirDynamicArg, hc, Bool.false_eq_true, if_false]
  split
  · have hnext := Begun.arg hhead hmore
    rw [hpush] at hnext
    exact ⟨rfl, hnext⟩
  · have hnext := Begun.brackets hhead hmore
    rw [hpush] at hnext
    exact ⟨rfl, hnext⟩

/-- A byte of a modifier goes on with it, or begins another one. -/
theorem next_modifier {j : Nat} (hdir : Directive w i j es) (hdot : w[j]? = some Byte.dot)
    (hmod : Only inModifier w (j + 1) n) (hw : w[n]? = some c) (hc : Byte.endsName c = false) :
    Spells w i es
      (Scan.readInDirModifier ⟨.inDirModifier, n, some (j + 1), .idle, .empty⟩ c) := by
  simp only [Scan.readInDirModifier, hc, Bool.false_eq_true, if_false]
  split
  · next hagain =>
    subst hagain
    exact ⟨rfl, .modifier (n := n + 1) (.modifier hdir hdot hmod) hw .refl⟩
  · next hagain =>
    have hin : inModifier c = true := by simp [inModifier, hc, hagain]
    refine ⟨rfl, ?_⟩
    rw [List.append_nil]
    exact .modifier hdir hdot (hmod.concat hw hin)

/-- A byte that does not end a name goes on with it. -/
theorem spells (h : Begun w i s es) (hw : w[s.cursor]? = some c) (hc : Byte.endsName c = false) :
    Spells w i es (s.turn d c next) := by
  cases h with
  | @plain n hname =>
    have hin : inName c = true := by simp [inName, hc]
    simp only [Scan.turn, Scan.readInAttrName, hc, Bool.false_eq_true, if_false]
    exact ⟨rfl, .plain ⟨hname.first, hname.rest.concat hw hin⟩⟩
  | long hv hh hrest => exact next_long hv hh hrest hw hc
  | arg hhead harg => exact next_arg hhead harg hw hc
  | brackets hhead harg => exact next_brackets hhead harg hw hc
  | modifier hdir hdot hmod => exact next_modifier hdir hdot hmod hw hc

/-- Every byte that ends a name ends it in the same way, with what completes it. -/
theorem stop (h : Begun w i s es) (hw : w[s.cursor]? = some c) (hc : Byte.endsName c = true) :
    ∃ last, Name w i s.cursor (es ++ last) ∧
      ∀ b next, Byte.endsName b = true →
        s.turn d b next = ⟨⟨.afterAttrName, s.cursor, some s.cursor, .idle, .empty⟩,
          last ++ [.attribNameEnd s.cursor], true⟩ := by
  cases h with
  | @plain n hname =>
    refine ⟨[.attribName ⟨i, n⟩], .plain hname, fun b next hb => ?_⟩
    simp only [Scan.turn, Scan.readInAttrName, if_pos hb]
    rfl
  | @long n hv hh hrest =>
    have hlong := LongName.of_stop hv hh hrest hw (by simp [inLongName, hc])
    refine ⟨[.dirName ⟨i, n⟩ none], .directive (.long hlong), fun b next hb => ?_⟩
    simp only [Scan.turn, Scan.readInDirName, if_pos hb]
    rfl
  | @arg a n head hhead harg =>
    have hpending : Arg w a n (Scan.pendingArg ⟨.inDirArg, n, some a, .idle, shapeOf w a n⟩) :=
      .pendingArg harg
    refine ⟨_, .directive (.arg hhead hpending), fun b next hb => ?_⟩
    simp only [Scan.turn, Scan.readInDirArg, if_pos hb]
    rfl
  | @brackets a n head hhead harg =>
    refine ⟨[.error .missingDynamicArgumentEnd n, .dirArg ⟨a, n⟩], .unclosed hhead harg,
      fun b next hb => ?_⟩
    have hbracket : b ≠ Byte.bracketClose := by
      rintro rfl
      cases hb
    simp only [Scan.turn, Scan.readInDirDynamicArg, if_neg hbracket, if_pos hb]
    rfl
  | @modifier j n es hdir hdot hmod =>
    refine ⟨[.dirModifier ⟨j + 1, n⟩], .directive (.modifier hdir hdot hmod), fun b next hb => ?_⟩
    simp only [Scan.turn, Scan.readInDirModifier, if_pos hb]
    rfl

/-- A name that has begun in a tag is under way. -/
theorem underway {first : List Event} (h : Begun w i s first) (ht : Tagged d w i es) :
    Underway d w s (es ++ first) := by
  cases h with
  | plain hname =>
    rw [List.append_nil]
    exact .inAttrName ht hname
  | long hv hh hrest =>
    rw [List.append_nil]
    exact .inDirName ht hv hh hrest
  | arg hhead harg => exact .inDirArg ht hhead harg
  | brackets hhead harg => exact .inDirDynamicArg ht hhead harg
  | modifier hdir hdot hmod => exact .inDirModifier ht hdir hdot hmod

/-- Every turn within a name goes on with it, or ends it where it is complete. -/
theorem follows {first : List Event} (h : Begun w i s first) (ht : Tagged d w i es)
    (hw : w[s.cursor]? = some c) (next : Option UInt8) :
    Follows d w (es ++ first) (s.turn d c next) := by
  cases hc : Byte.endsName c with
  | true =>
    obtain ⟨last, hname, hturn⟩ := h.stop (d := d) hw hc
    have hafter := Underway.afterAttrName ht hname .refl
    rw [List.append_assoc, ← List.append_assoc es] at hafter
    rw [hturn c next hc]
    exact hafter
  | false =>
    have hspells : Spells w i first (s.turn d c next) := h.spells hw hc
    have hnext := hspells.begun.underway ht
    rw [← List.append_assoc] at hnext
    exact hnext

end Begun

/-- The first byte of an attribute. -/
theorem follows_attrStart {mode : Mode} {start : Option Nat} (h : Tagged d w n es)
    (hw : w[n]? = some c) (hc : Byte.endsSection c = false) :
    Follows d w es
      (Scan.attrStart ⟨mode, n, start, .idle, .empty⟩ c w[n + 1]?) := by
  have hspells : Spells w n []
      (Scan.attrStart ⟨mode, n, start, .idle, .empty⟩ c w[n + 1]?) := Begun.start hw hc
  exact hspells.begun.underway h

/-- Between two attributes the tag ends, a slash or white space is skipped, or a name begins. -/
theorem follows_readBeforeAttrName (h : Tagged d w n es) (hw : w[n]? = some c) :
    Follows d w es
      (Scan.readBeforeAttrName ⟨.beforeAttrName, n, none, .idle, .empty⟩ c w[n + 1]?) := by
  unfold Scan.readBeforeAttrName
  split
  · next hend =>
    subst hend
    exact Underway.text (n := n + 1) (h.finish hw .openTag) (Nat.le_refl _) fun _ => .refl
  · next hend =>
    split
    · next hslash => exact .next (.inSelfClosingTag (h.gap hw (Or.inr hslash)))
    · next hslash =>
      split
      · next hspace => exact .next (.beforeAttrName (h.gap hw (Or.inl hspace)))
      · next hspace =>
        exact follows_attrStart h hw (by simp [Byte.endsSection, hend, hslash, hspace])

/-! ## Values of attributes -/

/-- An attribute without a value is complete, whatever white space follows its name. -/
theorem Tagged.absent {name : List Event} (h : Tagged d w i es) (hname : Name w i m name)
    (hs : Only Byte.isSpace w m n) :
    Tagged d w n ((es ++ (name ++ [.attribNameEnd m])) ++ [.attribEnd .absent m]) := by
  have hattr := (h.attr (.absent hname)).spaces hs
  simpa only [List.append_assoc, List.singleton_append] using hattr

/-- Behind a name a value is announced, or the attribute ends without one. -/
theorem follows_readAfterAttrName {name : List Event} (h : Tagged d w i es)
    (hname : Name w i m name) (hs : Only Byte.isSpace w m n) (hw : w[n]? = some c) :
    Follows d w (es ++ (name ++ [.attribNameEnd m]))
      (Scan.readAfterAttrName ⟨.afterAttrName, n, some m, .idle, .empty⟩ c w[n + 1]?) := by
  have habsent := h.absent hname hs
  unfold Scan.readAfterAttrName
  split
  · next heq =>
    subst heq
    exact .next (Underway.beforeAttrValue (n := n + 1) h hname ⟨n, hs, hw, .refl⟩)
  · split
    · exact Underway.beforeAttrName (n := n) habsent
    · next hend =>
      split
      · next hspace => exact .next (.afterAttrName h hname (hs.concat hw hspace))
      · next hspace =>
        have hc : Byte.endsSection c = false := by
          simpa [Byte.endsSection, hspace] using hend
        have hstart : Follows d w _
            (Scan.attrStart ⟨.afterAttrName, n, some m, .idle, .empty⟩ c w[n + 1]?) :=
          follows_attrStart habsent hw hc
        rw [Follows, List.append_assoc] at hstart
        exact hstart

/-- Behind the sign of a value, a quotation mark or any other byte begins it. -/
theorem follows_readBeforeAttrValue {name : List Event} (h : Tagged d w i es)
    (hname : Name w i m name) (hann : Announced w m n) (hw : w[n]? = some c) :
    Follows d w (es ++ (name ++ [.attribNameEnd m]))
      (Scan.readBeforeAttrValue ⟨.beforeAttrValue, n, some m, .idle, .empty⟩ c) := by
  unfold Scan.readBeforeAttrValue
  split
  · next hdouble =>
    subst hdouble
    exact .next (Underway.inQuotedValue (n := n + 1) .double h hname ⟨hann, hw⟩ .refl)
  · next hdouble =>
    split
    · next hsingle =>
      subst hsingle
      exact .next (Underway.inQuotedValue (n := n + 1) .single h hname ⟨hann, hw⟩ .refl)
    · next hsingle =>
      split
      · next hspace =>
        obtain ⟨q, hbefore, heq, hafter⟩ := hann
        exact .next (.beforeAttrValue h hname ⟨q, hbefore, heq, hafter.concat hw hspace⟩)
      · refine .again (Underway.inBareValue (n := n) h hname ⟨hann, ?_, .refl⟩)
        rw [hw]
        exact ⟨fun hc => hdouble (Option.some.inj hc), fun hc => hsingle (Option.some.inj hc)⟩

/-- A value between quotation marks goes on up to the same mark, which ends the attribute. -/
theorem follows_readInQuotedValue {v : Nat} {name : List Event} {mark : QuoteMark}
    (h : Tagged d w i es) (hname : Name w i m name) (hquoted : Quoted w m mark v)
    (hvalue : Only (· != mark.byte) w (v + 1) n) (hw : w[n]? = some c) :
    Follows d w (es ++ (name ++ [.attribNameEnd m]))
      (Scan.readInQuotedValue ⟨.inQuotedValue mark, n, some (v + 1), .idle, .empty⟩ mark c) := by
  unfold Scan.readInQuotedValue
  split
  · next hend =>
    subst hend
    have hattr := h.attr (.quoted mark hname hquoted hvalue hw)
    have hnext := Underway.beforeAttrName hattr
    rw [List.append_cons, ← List.append_assoc] at hnext
    exact hnext
  · next hend =>
    exact .next (.inQuotedValue mark h hname hquoted (hvalue.concat hw (by simpa using hend)))

/-- A value without quotation marks goes on up to white space or the end of the tag. -/
theorem follows_readInBareValue {v : Nat} {name : List Event} (h : Tagged d w i es)
    (hname : Name w i m name) (hbare : Bare w m v n) (hw : w[n]? = some c) :
    Follows d w (es ++ (name ++ [.attribNameEnd m]))
      (Scan.readInBareValue ⟨.inBareValue, n, some v, .idle, .empty⟩ c) := by
  unfold Scan.readInBareValue
  split
  · have hattr := h.attr (.bare hname hbare)
    have hnext := Underway.beforeAttrName (n := n) hattr
    rw [List.append_cons, ← List.append_assoc] at hnext
    exact hnext
  · next hend =>
    have hc : inBareValue c = true := by simpa [inBareValue] using hend
    exact .next (.inBareValue h hname ⟨hbare.announced, hbare.first, hbare.value.concat hw hc⟩)

/-! ## Runs -/

/-- A scan that has read nothing has an empty text under way. -/
theorem Underway.fresh : Underway d w {} [] :=
  .text .nil (Nat.le_refl 0) fun _ => .refl

/-- Every turn keeps what a scan has found. -/
theorem Underway.kept (ho : d.opening ≠ []) (hcl : d.closing ≠ []) :
    Scan.Kept d w (Underway d w) := by
  intro s es c h hw
  cases h with
  | text hl hi hmissed => exact follows_readText ho hl hi hmissed hw
  | interpolationOpen hl hi hmissed hpre hk hmatch =>
    exact follows_readInterpolationOpen hl hi hmissed hpre hk hmatch hw
  | interpolation hl hin hn habsent => exact follows_readInterpolation hcl hl hin hn habsent hw
  | interpolationClose hl hin hm habsent hk hmatch =>
    exact follows_readInterpolationClose hl hin hm habsent hk hmatch hw
  | beforeTagName hl hop => exact follows_readBeforeTagName ho hl hop hw
  | inTagName hl hop hname => exact follows_readInTagName hl hop hname hw
  | beforeClosingTagName hl hop => exact follows_readBeforeClosingTagName ho hl hop hw
  | inClosingTagName hl hop hname => exact follows_readInClosingTagName hl hop hname hw
  | afterClosingTagName hl hop hname hskip =>
    exact follows_readAfterClosingTagName hl hop hname hskip hw
  | beforeAttrName h => exact follows_readBeforeAttrName h hw
  | inSelfClosingTag h => exact follows_readInSelfClosingTag h hw
  | inAttrName h hname =>
    rw [← List.append_nil es]
    exact (Begun.plain hname).follows h hw _
  | inDirName h hv hh hrest =>
    rw [← List.append_nil es]
    exact (Begun.long hv hh hrest).follows h hw _
  | inDirArg h hhead harg => exact (Begun.arg hhead harg).follows h hw _
  | inDirDynamicArg h hhead harg => exact (Begun.brackets hhead harg).follows h hw _
  | inDirModifier h hdir hdot hmod => exact (Begun.modifier hdir hdot hmod).follows h hw _
  | afterAttrName h hname hs => exact follows_readAfterAttrName h hname hs hw
  | beforeAttrValue h hname hann => exact follows_readBeforeAttrValue h hname hann hw
  | inQuotedValue mark h hname hquoted hvalue =>
    exact follows_readInQuotedValue h hname hquoted hvalue hw
  | inBareValue h hname hbare => exact follows_readInBareValue h hname hbare hw

end TemplateLexer.Layout

namespace TemplateLexer

/-- A text that is not empty has bytes. -/
theorem utf8Bytes_ne_nil {s : String} (h : s ≠ "") : utf8Bytes s ≠ [] := by
  intro hnil
  have hlen := length_utf8Bytes s
  rw [hnil, List.length_nil] at hlen
  exact h (String.utf8ByteSize_eq_zero_iff.mp hlen.symm)

/-- What a scan has found at the end of a template. -/
theorem Options.underway_run (o : Options) (rawText : Bool) (template : String) :
    Layout.Underway (o.dialect rawText) (utf8Bytes template)
      ((o.dialect rawText).run template).scan ((o.dialect rawText).run template).events := by
  refine Dialect.run_of_kept (Layout.Underway.kept ?_ ?_) .fresh
  · exact utf8Bytes_ne_nil o.delimiters.opening_ne_empty
  · exact utf8Bytes_ne_nil o.delimiters.closing_ne_empty

/-- The cursor is at the end of a template when it has been read. -/
theorem Dialect.cursor_run (d : Dialect) (template : String) :
    (d.run template).scan.cursor = (utf8Bytes template).length := by
  simp [Dialect.run, Scan.cursor_run]

end TemplateLexer
