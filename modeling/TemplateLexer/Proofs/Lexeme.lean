import TemplateLexer.Proofs.Seam

/-!
# Lexemes

Every event of a template is a lexeme of its kind: the bytes that it names are those that a name, an
argument or a value can have, and it begins and ends at seams (`lexemes_events`). A value is
reported together with its end, so the two are one lexeme. The layout of a template does not say
what stops a name, so what a scan has found (`Underway`) is kept together with where it stands
(`Poised`).
-/

set_option autoImplicit false

namespace TemplateLexer

open Layout Marker

/-! ## Lexemes of a template -/

/-- An event names the bytes of a lexeme of its kind. Values are not among these lexemes. -/
inductive Lexeme (d : Dialect) (w : List UInt8) : Event → Prop
  | text {i j : Nat} : i < j → Seam d w i → Seam d w j → Lexeme d w (.text ⟨i, j⟩)
  | interpolation {i j : Nat} : Inside d w i → i + d.opening.length ≤ j → OccursAt d.closing w j →
      Lexeme d w (.interpolation ⟨i + d.opening.length, j⟩)
  | openTagName {a b : Nat} : TagName w a b → Seam d w b → Lexeme d w (.openTagName ⟨a, b⟩)
  | openTagEnd {n : Nat} : w[n]? = some Byte.tagEnd → Lexeme d w (.openTagEnd n)
  | selfClosingTag {n : Nat} : w[n]? = some Byte.tagEnd → Lexeme d w (.selfClosingTag n)
  | closeTag {a b : Nat} : TagName w a b → Seam d w b → Lexeme d w (.closeTag ⟨a, b⟩)
  | attribName {i n : Nat} : Seam d w i → PlainName w i n → Seam d w n →
      Lexeme d w (.attribName ⟨i, n⟩)
  | attribNameEnd {n : Nat} {c : UInt8} : w[n]? = some c → Byte.endsName c = true →
      Lexeme d w (.attribNameEnd n)
  | absent {n : Nat} : n ≤ w.length → Lexeme d w (.attribEnd .absent n)
  | longName {i j : Nat} : LongName w i j → Seam d w j → Lexeme d w (.dirName ⟨i, j⟩ none)
  | sigil {i : Nat} (s : Shorthand) : w[i]? = some s.sigil →
      Lexeme d w (.dirName ⟨i, i + 1⟩ (some s))
  | dirArg {j k : Nat} (s : Shorthand) : w[j]? = some s.sigil → Only inName w (j + 1) k →
      ¬ Enclosed w (j + 1) k → Seam d w k → Lexeme d w (.dirArg ⟨j + 1, k⟩)
  | dirDynamicArg {a k : Nat} : Only inName w a k → Enclosed w a k →
      Lexeme d w (.dirDynamicArg ⟨a + 1, k - 1⟩)
  | dirModifier {j k : Nat} : w[j]? = some Byte.dot → Only inModifier w (j + 1) k →
      Seam d w k → Lexeme d w (.dirModifier ⟨j + 1, k⟩)
  | error {n : Nat} (code : ErrorCode) : n ≤ w.length → Lexeme d w (.error code n)
  | endOfInput : Lexeme d w .endOfInput

/-- A value reaches from one offset to another, it is written in one of the ways, and its attribute
ends at a third offset. -/
inductive Value (w : List UInt8) : Nat → Nat → Quote → Nat → Prop
  | quoted {v e : Nat} (mark : QuoteMark) : w[v]? = some mark.byte →
      Only (· != mark.byte) w (v + 1) e → w[e]? = some mark.byte →
      Value w (v + 1) e mark.quote (e + 1)
  | bare {v e : Nat} {c : UInt8} :
      w[v]? ≠ some Byte.doubleQuote ∧ w[v]? ≠ some Byte.singleQuote → Only inBareValue w v e →
      w[e]? = some c → inBareValue c = false → Value w v e .bare e

/-- A row of events is made of lexemes, of values with their ends, and of a value that the template
ends in. -/
inductive Lexemes (d : Dialect) (w : List UInt8) : List Event → Prop
  | nil : Lexemes d w []
  | one {e : Event} {es : List Event} : Lexeme d w e → Lexemes d w es → Lexemes d w (e :: es)
  | value {v e n : Nat} {quote : Quote} {es : List Event} : Value w v e quote n → Seam d w v →
      Lexemes d w es → Lexemes d w (.attribData ⟨v, e⟩ :: .attribEnd quote n :: es)
  | unfinished {v : Nat} {es : List Event} : v ≤ w.length → Seam d w v → Lexemes d w es →
      Lexemes d w (.attribData ⟨v, w.length⟩ :: .endOfInput :: es)

/-- What a scan relies on besides what it has found: the part under way begins at a seam; between
attributes, so does the next one; and inside brackets, the argument is not closed by one. -/
structure Poised (d : Dialect) (w : List UInt8) (s : Scan) : Prop where
  start : ∀ i, s.sectionStart = some i → Seam d w i
  here : match s.mode with
    | .beforeAttrName | .inSelfClosingTag => Seam d w s.cursor
    | .inDirDynamicArg => s.argShape ≠ .enclosed
    | _ => True

/-- What a scan has found, where it stands, and that it has reported lexemes. -/
structure Sound (d : Dialect) (w : List UInt8) (s : Scan) (es : List Event) : Prop where
  underway : Underway d w s es
  poised : Poised d w s
  lexemes : Lexemes d w es

/-- What a turn reports are lexemes, and the scan goes on from where it may stand. -/
structure Finds (d : Dialect) (w : List UInt8) (t : Turn) : Prop where
  poised : Poised d w t.onward
  lexemes : Lexemes d w t.events

variable {d : Dialect} {w : List UInt8} {i j a b m n k v : Nat} {c : UInt8} {e : Event}
  {es last : List Event} {mode : Mode} {start : Option Nat} {shape : ArgShape} {matcher : Matcher}
  {behind : Option UInt8}

namespace Lexemes

/-- A single lexeme is a row of lexemes. -/
theorem single (h : Lexeme d w e) : Lexemes d w [e] :=
  .one h .nil

/-- Rows of lexemes go on with rows of lexemes. -/
theorem append (h : Lexemes d w es) (hlast : Lexemes d w last) : Lexemes d w (es ++ last) := by
  induction h with
  | nil => exact hlast
  | one he _ ih => exact .one he ih
  | value hvalue hv _ ih => exact .value hvalue hv ih
  | unfinished hle hv _ ih => exact .unfinished hle hv ih

end Lexemes

/-! ## The marks next to a lexeme are ASCII -/

/-- A sigil is a single byte of ASCII. -/
theorem sigil_lt (s : Shorthand) : s.sigil < 0x80 := by
  cases s <;> decide

/-- A quotation mark is a single byte of ASCII. -/
theorem mark_lt (mark : QuoteMark) : mark.byte < 0x80 := by
  cases mark <;> decide

/-- A value ends in front of an ASCII byte. -/
theorem Value.seam {e : Nat} {quote : Quote} (h : Value w v e quote n) : Seam d w e := by
  cases h with
  | quoted mark _ _ hend => exact .front hend (mark_lt mark)
  | @bare _ _ c _ _ hend hc =>
    refine .front hend ?_
    have hstop : Byte.endsSection c = true := by
      simp only [inBareValue, Bool.not_eq_false', Bool.or_eq_true, beq_iff_eq] at hc
      rcases hc with hspace | rfl
      · simp [Byte.endsSection, hspace]
      · rfl
    exact Byte.lt_of_endsSection hstop

/-- A value does not end in front of its start. -/
theorem Value.le {e : Nat} {quote : Quote} (h : Value w v e quote n) : v ≤ e := by
  cases h with
  | quoted mark _ hvalue _ => exact hvalue.le
  | bare _ hvalue _ _ => exact hvalue.le

/-- An attribute ends within the template. -/
theorem Value.stop_le {e : Nat} {quote : Quote} (h : Value w v e quote n) : n ≤ w.length := by
  cases h with
  | quoted mark _ _ hend => exact (List.getElem?_eq_some_iff.mp hend).1
  | bare _ _ hend _ => exact Nat.le_of_lt (List.getElem?_eq_some_iff.mp hend).1

namespace Lexemes

/-- What holds of every lexeme, and of a value and its end by their offsets, holds of every event of
a row. -/
theorem forall_mem {P : Event → Prop} (h : Lexemes d w es) (hone : ∀ e, Lexeme d w e → P e)
    (hdata : ∀ v e, v ≤ e → Seam d w v → Seam d w e → P (.attribData ⟨v, e⟩))
    (hend : ∀ quote n, n ≤ w.length → P (.attribEnd quote n)) : ∀ e ∈ es, P e := by
  induction h with
  | nil => exact nofun
  | one he _ ih => exact List.forall_mem_cons.mpr ⟨hone _ he, ih⟩
  | value hvalue hv _ ih =>
    refine List.forall_mem_cons.mpr ⟨hdata _ _ hvalue.le hv hvalue.seam, ?_⟩
    exact List.forall_mem_cons.mpr ⟨hend _ _ hvalue.stop_le, ih⟩
  | unfinished hle hv _ ih =>
    refine List.forall_mem_cons.mpr ⟨hdata _ _ hle hv .finish, ?_⟩
    exact List.forall_mem_cons.mpr ⟨hone _ .endOfInput, ih⟩

/-- A value with the end of its attribute behind it is one lexeme. -/
theorem value_of_getElem? {e : Nat} {quote : Quote} (h : Lexemes d w es)
    (hdata : es[k]? = some (.attribData ⟨v, e⟩)) (hend : es[k + 1]? = some (.attribEnd quote n)) :
    Value w v e quote n := by
  -- A value alone is no lexeme, so both events come from the same step of the row.
  induction h generalizing k with
  | nil => cases hdata
  | one he _ ih =>
    match k with
    | 0 =>
      obtain rfl := Option.some.inj hdata
      cases he
    | k + 1 => exact ih hdata hend
  | value hvalue _ _ ih =>
    match k with
    | 0 =>
      cases hdata
      cases hend
      exact hvalue
    | 1 => cases hdata
    | k + 2 => exact ih hdata hend
  | unfinished _ _ _ ih =>
    match k with
    | 0 => cases hend
    | 1 => cases hdata
    | k + 2 => exact ih hdata hend

end Lexemes

/-! ## Where a scan may stand -/

/-- A scan may stand where the part under way begins at a seam. -/
theorem Poised.of_start (hi : Seam d w i)
    (h : match mode with
      | .beforeAttrName | .inSelfClosingTag => Seam d w n
      | .inDirDynamicArg => shape ≠ .enclosed
      | _ => True) :
    Poised d w ⟨mode, n, some i, matcher, shape⟩ := by
  refine ⟨fun j hj => ?_, h⟩
  obtain rfl := Option.some.inj hj
  exact hi

/-- With no part under way, there is nowhere that it could begin. -/
theorem seam_of_none : ∀ i, (none : Option Nat) = some i → Seam d w i := by
  intro i hi
  cases hi

/-- A byte that is handed over without an event adds no lexeme. -/
theorem Finds.again {s : Scan} (h : Poised d w s) : Finds d w ⟨s, [], true⟩ :=
  ⟨h, .nil⟩

/-- A byte that is kept without an event adds no lexeme. -/
theorem Finds.next {s : Scan} (h : Poised d w { s with cursor := s.cursor + 1 }) :
    Finds d w ⟨s, [], false⟩ :=
  ⟨h, .nil⟩

/-! ## Text and interpolations -/

/-- The text under way is a lexeme if it begins and ends at a seam. -/
theorem lexemes_pendingText (hi : Seam d w i) (hn : Seam d w n) :
    Lexemes d w (Scan.pendingText ⟨mode, m, some i, matcher, shape⟩ n) := by
  simp only [Scan.pendingText, Option.getD_some]
  split
  · next hlt => exact .single (.text hlt hi hn)
  · exact .nil

/-- A text ends at the seam in front of a tag. -/
theorem finds_readText (hi : Seam d w i) (hw : w[n]? = some c) :
    Finds d w (Scan.readText d ⟨.text, n, some i, .idle, .empty⟩ c) := by
  unfold Scan.readText
  split
  · next htag =>
    have hn : Seam d w n := .front hw (by rw [htag.1]; decide)
    exact ⟨.of_start hn trivial, lexemes_pendingText hi hn⟩
  · split
    · exact .again (.of_start hi trivial)
    · exact .next (.of_start hi trivial)

/-- A text ends at the seam in front of the opening marker. -/
theorem finds_readInterpolationOpen (hi : Seam d w i)
    (hmatch : OccursAt (d.opening.take k) w m) (hw : w[m + k]? = some c) :
    Finds d w (Scan.readInterpolationOpen d
      ⟨.interpolationOpen, m + k, some i, ⟨some k⟩, .empty⟩ c) := by
  by_cases hbyte : d.opening[k]? = some c
  · by_cases hlast : k + 1 = d.opening.length
    · have hmarker := hmatch.take_succ hbyte hw
      rw [hlast, List.take_length] at hmarker
      have hstart : m + k + 1 - d.opening.length = m := by omega
      have hm : Seam d w m := .marker .opening hmarker
      simp only [Scan.readInterpolationOpen,
        Matcher.step_completed (m := ⟨some k⟩) hbyte hlast, hstart]
      exact ⟨.of_start hm trivial, lexemes_pendingText hi hm⟩
    · simp only [Scan.readInterpolationOpen, Matcher.step_advanced (m := ⟨some k⟩) hbyte hlast]
      exact .next (.of_start hi trivial)
  · simp only [Scan.readInterpolationOpen, Matcher.step_mismatched (m := ⟨some k⟩) hbyte]
    exact .again (.of_start hi trivial)

/-- Within an interpolation nothing is found. -/
theorem finds_readInterpolation (hi : Seam d w i) :
    Finds d w (Scan.readInterpolation d ⟨.interpolation, n, some i, .idle, .empty⟩ c) := by
  unfold Scan.readInterpolation
  split
  · exact .again (.of_start hi trivial)
  · exact .next (.of_start hi trivial)

/-- An interpolation is a lexeme between the seams at its markers. -/
theorem finds_readInterpolationClose (hi : Seam d w i) (hin : Inside d w i)
    (hm : i + d.opening.length ≤ m) (hmatch : OccursAt (d.closing.take k) w m)
    (hw : w[m + k]? = some c) :
    Finds d w (Scan.readInterpolationClose d
      ⟨.interpolationClose, m + k, some i, ⟨some k⟩, .empty⟩ c) := by
  by_cases hbyte : d.closing[k]? = some c
  · by_cases hlast : k + 1 = d.closing.length
    · have hmarker := hmatch.take_succ hbyte hw
      rw [hlast, List.take_length] at hmarker
      have hstop : m + k + 1 - d.closing.length = m := by omega
      have hbehind : Seam d w (m + k + 1) := by
        rw [Nat.add_assoc, hlast]
        exact .behindMarker .closing hmarker
      simp only [Scan.readInterpolationClose,
        Matcher.step_completed (m := ⟨some k⟩) hbyte hlast, hstop]
      exact ⟨.of_start hbehind trivial, .single (.interpolation hin hm hmarker)⟩
    · simp only [Scan.readInterpolationClose, Matcher.step_advanced (m := ⟨some k⟩) hbyte hlast]
      exact .next (.of_start hi trivial)
  · simp only [Scan.readInterpolationClose, Matcher.step_mismatched (m := ⟨some k⟩) hbyte]
    exact .again (.of_start hi trivial)

/-! ## Tags -/

/-- The name of a tag begins at a seam, as a letter stands there. -/
theorem finds_readBeforeTagName (hi : Seam d w i) (hw : w[n]? = some c) :
    Finds d w (Scan.readBeforeTagName ⟨.beforeTagName, n, some i, .idle, .empty⟩ c) := by
  unfold Scan.readBeforeTagName
  split
  · exact .next (.of_start hi trivial)
  · split
    · exact .next (.of_start hi trivial)
    · split
      · next hletter =>
        exact .next (.of_start (.front hw (Byte.lt_of_isTagStart hletter)) trivial)
      · exact .again (.of_start hi trivial)

/-- The name of a tag is a lexeme, and the byte that ends it makes a seam. -/
theorem finds_readInTagName (ha : Seam d w a) (hname : TagName w a n) (hw : w[n]? = some c) :
    Finds d w (Scan.readInTagName ⟨.inTagName, n, some a, .idle, .empty⟩ c) := by
  unfold Scan.readInTagName
  split
  · next hend =>
    have hn : Seam d w n := .front hw (Byte.lt_of_endsSection hend)
    exact ⟨⟨seam_of_none, hn⟩, .single (.openTagName hname hn)⟩
  · exact .next (.of_start ha trivial)

/-- The name of a closing tag begins at a seam, as a letter stands there. -/
theorem finds_readBeforeClosingTagName (hi : Seam d w i) (hw : w[n]? = some c) :
    Finds d w
      (Scan.readBeforeClosingTagName ⟨.beforeClosingTagName, n, some i, .idle, .empty⟩ c) := by
  unfold Scan.readBeforeClosingTagName
  split
  · next hletter =>
    exact .next (.of_start (.front hw (Byte.lt_of_isTagStart hletter)) trivial)
  · exact .again (.of_start hi trivial)

/-- The name of a closing tag is a lexeme, and the byte that ends it makes a seam. -/
theorem finds_readInClosingTagName (ha : Seam d w a) (hname : TagName w a n)
    (hw : w[n]? = some c) :
    Finds d w (Scan.readInClosingTagName ⟨.inClosingTagName, n, some a, .idle, .empty⟩ c) := by
  unfold Scan.readInClosingTagName
  split
  · next hend =>
    have hn : Seam d w n := .front hw (Byte.lt_of_endsSection hend)
    exact ⟨⟨seam_of_none, trivial⟩, .single (.closeTag hname hn)⟩
  · exact .next (.of_start ha trivial)

/-- Text begins at the seam behind the end of a closing tag. -/
theorem finds_readAfterClosingTagName (hw : w[n]? = some c) :
    Finds d w (Scan.readAfterClosingTagName ⟨.afterClosingTagName, n, none, .idle, .empty⟩ c) := by
  unfold Scan.readAfterClosingTagName
  split
  · next hend =>
    exact .next (.of_start (.behind hw (by rw [hend]; decide)) trivial)
  · exact .next ⟨seam_of_none, trivial⟩

/-- Behind the end of a tag, text begins. -/
theorem finds_tagEnd (hw : w[n]? = some c) (hc : c = Byte.tagEnd) (he : Lexeme d w e) :
    Finds d w ⟨⟨.text, n, some (n + 1), .idle, .empty⟩, [e], false⟩ :=
  ⟨.of_start (.behind hw (by rw [hc]; decide)) trivial, .single he⟩

/-- The end of a tag that closes itself is a lexeme with a seam behind it. -/
theorem finds_readInSelfClosingTag (hn : Seam d w n) (hw : w[n]? = some c) :
    Finds d w
      (Scan.readInSelfClosingTag ⟨.inSelfClosingTag, n, none, .idle, .empty⟩ c) := by
  unfold Scan.readInSelfClosingTag
  split
  · next hend => exact finds_tagEnd hw hend (.selfClosingTag (by rw [hw, hend]))
  · split
    · next hspace => exact .next ⟨seam_of_none, .behind hw (Byte.lt_of_isSpace hspace)⟩
    · exact .again ⟨seam_of_none, hn⟩

/-! ## Names of attributes -/

/-- A name begins at the seam where the scan stands, and a sigil is a lexeme. -/
theorem finds_attrStart (hn : Seam d w n) (hw : w[n]? = some c) :
    Finds d w (Scan.attrStart ⟨mode, n, start, .idle, .empty⟩ c behind) := by
  unfold Scan.attrStart
  split
  · exact .next (.of_start hn trivial)
  · split
    · next s hsigil =>
      obtain rfl := Shorthand.ofSigil?_eq_some_iff.mp hsigil
      exact ⟨.of_start (.behind hw (sigil_lt s)) trivial, .single (.sigil s hw)⟩
    · exact .next (.of_start hn trivial)

/-- Between two attributes a scan stands at a seam, also behind white space. -/
theorem finds_readBeforeAttrName (hn : Seam d w n) (hw : w[n]? = some c) :
    Finds d w (Scan.readBeforeAttrName ⟨.beforeAttrName, n, none, .idle, .empty⟩ c behind) := by
  unfold Scan.readBeforeAttrName
  split
  · next hend => exact finds_tagEnd hw hend (.openTagEnd (by rw [hw, hend]))
  · split
    · next hslash => exact .next ⟨seam_of_none, .behind hw (by rw [hslash]; decide)⟩
    · split
      · next hspace => exact .next ⟨seam_of_none, .behind hw (Byte.lt_of_isSpace hspace)⟩
      · exact finds_attrStart hn hw

/-- A name ends in front of an ASCII byte. -/
theorem finds_nameEnd (hw : w[n]? = some c) (hc : Byte.endsName c = true)
    (hlast : Lexemes d w last) :
    Finds d w (Scan.nameEnd ⟨mode, n, start, .idle, shape⟩ last) :=
  ⟨.of_start (.front hw (Byte.lt_of_endsName hc)) trivial,
    hlast.append (.single (.attribNameEnd hw hc))⟩

/-- The name of a plain attribute is a lexeme, stopped by the byte that ends it. -/
theorem finds_readInAttrName (hi : Seam d w i) (hname : PlainName w i n) (hw : w[n]? = some c) :
    Finds d w (Scan.readInAttrName ⟨.inAttrName, n, some i, .idle, .empty⟩ c) := by
  unfold Scan.readInAttrName
  split
  · next hend =>
    have hn : Seam d w n := .front hw (Byte.lt_of_endsName hend)
    exact finds_nameEnd hw hend (.single (.attribName hi hname hn))
  · exact .next (.of_start hi trivial)

/-- The long form of a directive is a lexeme, stopped by what ends it, a colon or a dot. -/
theorem finds_readInDirName (hi : Seam d w i) (hv : w[i]? = some Byte.letterV)
    (hh : w[i + 1]? = some Byte.hyphen) (hrest : Only inLongName w (i + 1) n)
    (hw : w[n]? = some c) :
    Finds d w (Scan.readInDirName ⟨.inDirName, n, some i, .idle, .empty⟩ c) := by
  have hname : inLongName c = false → c < 0x80 → Lexemes d w [.dirName ⟨i, n⟩ none] := by
    intro hc hlt
    exact .single (.longName (.of_stop hv hh hrest hw hc) (.front hw hlt))
  unfold Scan.readInDirName
  simp only []
  split
  · next hend =>
    exact finds_nameEnd hw hend (hname (by simp [inLongName, hend]) (Byte.lt_of_endsName hend))
  · split
    · next hcolon =>
      subst hcolon
      exact ⟨.of_start (.behind hw (by decide)) trivial, hname rfl (by decide)⟩
    · split
      · next hdot =>
        subst hdot
        exact ⟨.of_start (.behind hw (by decide)) trivial, hname rfl (by decide)⟩
      · exact .next (.of_start hi trivial)

/-! ## Arguments and modifiers -/

/-- A sigil, or the colon behind the long form of a name, stands in front of an argument. -/
theorem exists_sigil_of_argHead {head : Event} (h : ArgHead w i a head) :
    ∃ (j : Nat) (s : Shorthand), a = j + 1 ∧ w[j]? = some s.sigil := by
  cases h with
  | @long j _ hcolon => exact ⟨j, .bind, rfl, hcolon⟩
  | sigil s hw => exact ⟨i, s, rfl, hw⟩

/-- The argument under way is reported as what its bytes are. -/
theorem lexemes_pendingArg {head : Event} (hhead : ArgHead w i a head) (harg : Only inName w a n)
    (hn : Seam d w n) :
    Lexemes d w [Scan.pendingArg ⟨mode, n, some a, .idle, shapeOf w a n⟩] := by
  obtain ⟨j, s, rfl, hsigil⟩ := exists_sigil_of_argHead hhead
  generalize hevent : Scan.pendingArg ⟨mode, n, some (j + 1), .idle, shapeOf w (j + 1) n⟩ = e
  have hpending : Arg w (j + 1) n e := by
    rw [← hevent]
    exact .pendingArg harg
  cases hpending with
  | static hbytes hopen => exact .single (.dirArg s hsigil hbytes hopen hn)
  | dynamic hbytes henc => exact .single (.dirDynamicArg hbytes henc)

/-- Only a closing bracket encloses an argument. -/
theorem push_ne_enclosed (h : c ≠ Byte.bracketClose) : shape.push c ≠ .enclosed := by
  cases shape with
  | empty =>
    by_cases hc : c = Byte.bracketOpen <;> simp [ArgShape.push, hc]
  | plain => simp [ArgShape.push]
  | opened => simp [ArgShape.push, h]
  | enclosed => simp [ArgShape.push, h]

/-- An argument is a lexeme, with or without brackets of its own. -/
theorem finds_readInDirArg {head : Event} (ha : Seam d w a) (hhead : ArgHead w i a head)
    (harg : Only inName w a n) (hw : w[n]? = some c) :
    Finds d w (Scan.readInDirArg ⟨.inDirArg, n, some a, .idle, shapeOf w a n⟩ c) := by
  unfold Scan.readInDirArg
  split
  · next hend =>
    exact finds_nameEnd hw hend
      (lexemes_pendingArg hhead harg (.front hw (Byte.lt_of_endsName hend)))
  · split
    · next hbracket => exact .next (.of_start ha (push_ne_enclosed (by rw [hbracket]; decide)))
    · split
      · next hdot =>
        have hlt : c < 0x80 := by
          rw [hdot]
          decide
        exact ⟨.of_start (.behind hw hlt) trivial,
          lexemes_pendingArg hhead harg (.front hw hlt)⟩
      · exact .next (.of_start ha trivial)

/-- An argument that lacks its closing bracket is a lexeme that is not enclosed. -/
theorem finds_readInDirDynamicArg {head : Event} (ha : Seam d w a) (hhead : ArgHead w i a head)
    (harg : Only inName w a n) (hopen : shapeOf w a n ≠ .enclosed) (hw : w[n]? = some c) :
    Finds d w (Scan.readInDirDynamicArg ⟨.inDirDynamicArg, n, some a, .idle, shapeOf w a n⟩ c) := by
  unfold Scan.readInDirDynamicArg
  split
  · exact .next (.of_start ha trivial)
  · next hbracket =>
    split
    · next hend =>
      have hle : n ≤ w.length := Nat.le_of_lt (List.getElem?_eq_some_iff.mp hw).1
      obtain ⟨j, s, rfl, hsigil⟩ := exists_sigil_of_argHead hhead
      -- The argument may have had brackets of its own before, but the last one is open.
      have hstatic : Lexeme d w (.dirArg ⟨j + 1, n⟩) :=
        .dirArg s hsigil harg (fun henc => hopen ((shapeOf_eq_enclosed_iff harg).mpr henc))
          (.front hw (Byte.lt_of_endsName hend))
      exact finds_nameEnd hw hend (.one (.error _ hle) (.single hstatic))
    · exact .next (.of_start ha (push_ne_enclosed hbracket))

/-- A modifier is a lexeme, stopped by what ends the name or by a dot. -/
theorem finds_readInDirModifier (hj : Seam d w (j + 1)) (hdot : w[j]? = some Byte.dot)
    (hmod : Only inModifier w (j + 1) n) (hw : w[n]? = some c) :
    Finds d w (Scan.readInDirModifier ⟨.inDirModifier, n, some (j + 1), .idle, .empty⟩ c) := by
  unfold Scan.readInDirModifier
  split
  · next hend =>
    exact finds_nameEnd hw hend
      (.single (.dirModifier hdot hmod (.front hw (Byte.lt_of_endsName hend))))
  · split
    · next hagain =>
      have hlt : c < 0x80 := by
        rw [hagain]
        decide
      exact ⟨.of_start (.behind hw hlt) trivial,
        .single (.dirModifier hdot hmod (.front hw hlt))⟩
    · exact .next (.of_start hj trivial)

/-! ## Values of attributes -/

/-- The end of an attribute without a value lies at the seam behind its name. -/
theorem finds_readAfterAttrName (hm : Seam d w m) (hs : Only Byte.isSpace w m n)
    (hw : w[n]? = some c) :
    Finds d w (Scan.readAfterAttrName ⟨.afterAttrName, n, some m, .idle, .empty⟩ c behind) := by
  have hlt := (List.getElem?_eq_some_iff.mp hw).1
  have hle := hs.le
  have hn : Seam d w n := hm.spaces hs
  have habsent : Lexeme d w (.attribEnd .absent m) := .absent (by omega)
  unfold Scan.readAfterAttrName
  split
  · exact .next (.of_start hm trivial)
  · split
    · exact ⟨⟨seam_of_none, hn⟩, .single habsent⟩
    · split
      · exact .next (.of_start hm trivial)
      · have hstart : Finds d w
            (Scan.attrStart ⟨.afterAttrName, n, some m, .idle, .empty⟩ c behind) :=
          finds_attrStart hn hw
        exact ⟨hstart.poised, .one habsent hstart.lexemes⟩

/-- A value begins at a seam. -/
theorem seam_of_announced (h : Announced w m n) : Seam d w n := by
  obtain ⟨q, _, heq, hafter⟩ := h
  have hq : Seam d w (q + 1) := .behind heq (by decide)
  exact hq.spaces hafter

/-- A value begins at a seam, behind its quotation mark or behind white space. -/
theorem finds_readBeforeAttrValue (hm : Seam d w m) (hann : Announced w m n)
    (hw : w[n]? = some c) :
    Finds d w (Scan.readBeforeAttrValue ⟨.beforeAttrValue, n, some m, .idle, .empty⟩ c) := by
  unfold Scan.readBeforeAttrValue
  split
  · next hdouble =>
    exact .next (.of_start (.behind hw (by rw [hdouble]; decide)) trivial)
  · split
    · next hsingle =>
      exact .next (.of_start (.behind hw (by rw [hsingle]; decide)) trivial)
    · split
      · exact .next (.of_start hm trivial)
      · exact .again (.of_start (seam_of_announced hann) trivial)

/-- A value between quotation marks is a lexeme together with its end. -/
theorem finds_readInQuotedValue {mark : QuoteMark} (hv : Seam d w (v + 1))
    (hquote : w[v]? = some mark.byte) (hvalue : Only (· != mark.byte) w (v + 1) n)
    (hw : w[n]? = some c) :
    Finds d w
      (Scan.readInQuotedValue ⟨.inQuotedValue mark, n, some (v + 1), .idle, .empty⟩ mark c) := by
  unfold Scan.readInQuotedValue
  split
  · next hend =>
    subst hend
    exact ⟨⟨seam_of_none, .behind hw (mark_lt mark)⟩, .value (.quoted mark hquote hvalue hw) hv .nil⟩
  · exact .next (.of_start hv trivial)

/-- A value without quotation marks is a lexeme together with its end. -/
theorem finds_readInBareValue (hv : Seam d w v) (hbare : Bare w m v n) (hw : w[n]? = some c) :
    Finds d w (Scan.readInBareValue ⟨.inBareValue, n, some v, .idle, .empty⟩ c) := by
  unfold Scan.readInBareValue
  split
  · next hend =>
    have hc : inBareValue c = false := by
      rcases hend with hspace | rfl
      · simp [inBareValue, hspace]
      · rfl
    have hvalue : Value w v n .bare n := .bare hbare.first hbare.value hw hc
    exact ⟨⟨seam_of_none, hvalue.seam⟩, .value hvalue hv .nil⟩
  · exact .next (.of_start hv trivial)

/-! ## Runs -/

/-- What a turn of a sound scan reports are lexemes. -/
theorem Sound.finds {s : Scan} (h : Sound d w s es) (hw : w[s.cursor]? = some c)
    (next : Option UInt8) : Finds d w (s.turn d c next) := by
  obtain ⟨h, hs, -⟩ := h
  cases h with
  | text _ _ _ => exact finds_readText (hs.start _ rfl) hw
  | interpolationOpen _ _ _ _ _ hmatch =>
    exact finds_readInterpolationOpen (hs.start _ rfl) hmatch hw
  | interpolation _ _ _ _ => exact finds_readInterpolation (hs.start _ rfl)
  | interpolationClose _ hin hm _ _ hmatch =>
    exact finds_readInterpolationClose (hs.start _ rfl) hin hm hmatch hw
  | beforeTagName _ _ => exact finds_readBeforeTagName (hs.start _ rfl) hw
  | inTagName _ _ hname => exact finds_readInTagName (hs.start _ rfl) hname hw
  | beforeClosingTagName _ _ => exact finds_readBeforeClosingTagName (hs.start _ rfl) hw
  | inClosingTagName _ _ hname => exact finds_readInClosingTagName (hs.start _ rfl) hname hw
  | afterClosingTagName _ _ _ _ => exact finds_readAfterClosingTagName hw
  | beforeAttrName _ => exact finds_readBeforeAttrName hs.here hw
  | inSelfClosingTag _ => exact finds_readInSelfClosingTag hs.here hw
  | inAttrName _ hname => exact finds_readInAttrName (hs.start _ rfl) hname hw
  | inDirName _ hv hh hrest => exact finds_readInDirName (hs.start _ rfl) hv hh hrest hw
  | inDirArg _ hhead harg => exact finds_readInDirArg (hs.start _ rfl) hhead harg hw
  | inDirDynamicArg _ hhead harg =>
    exact finds_readInDirDynamicArg (hs.start _ rfl) hhead harg hs.here hw
  | inDirModifier _ _ hdot hmod => exact finds_readInDirModifier (hs.start _ rfl) hdot hmod hw
  | afterAttrName _ _ hspaces => exact finds_readAfterAttrName (hs.start _ rfl) hspaces hw
  | beforeAttrValue _ _ hann => exact finds_readBeforeAttrValue (hs.start _ rfl) hann hw
  | inQuotedValue _ _ _ hquoted hvalue =>
    exact finds_readInQuotedValue (hs.start _ rfl) hquoted.quote hvalue hw
  | inBareValue _ _ hbare => exact finds_readInBareValue (hs.start _ rfl) hbare hw

/-- A scan that has read nothing has found nothing. -/
theorem Sound.fresh : Sound d w {} [] :=
  ⟨.fresh, .of_start .start trivial, .nil⟩

/-- Every turn keeps a scan sound. -/
theorem Sound.kept (ho : d.opening ≠ []) (hcl : d.closing ≠ []) :
    Scan.Kept d w (Sound d w) := by
  intro s es c h hw
  have hfinds := h.finds hw w[s.cursor + 1]?
  exact ⟨Underway.kept ho hcl s es c h.underway hw, hfinds.poised,
    h.lexemes.append hfinds.lexemes⟩

/-- What is reported at the end of a template are lexemes. -/
theorem Sound.ending {s : Scan} (h : Sound d w s es) (hcursor : s.cursor = w.length) :
    Lexemes d w s.ending := by
  obtain ⟨h, hs, -⟩ := h
  have hfinish : Seam d w s.cursor := by
    rw [hcursor]
    exact .finish
  have hend : Lexemes d w [.endOfInput] := .single .endOfInput
  have htext : ∀ {i mode matcher}, Seam d w i → Lexemes d w
      (Scan.pendingText ⟨mode, s.cursor, some i, matcher, .empty⟩ s.cursor ++ [.endOfInput]) :=
    fun hi => (lexemes_pendingText hi hfinish).append hend
  have hvalue : ∀ {v}, v ≤ s.cursor → Seam d w v → Lexemes d w
      ((if (⟨v, s.cursor⟩ : Span).isEmpty then [] else [.attribData ⟨v, s.cursor⟩]) ++
        [.endOfInput]) := by
    intro v hle hv
    split
    · exact hend
    · rw [hcursor] at hle ⊢
      exact .unfinished hle hv .nil
  have herror : ∀ code {i}, i ≤ s.cursor → Lexeme d w (.error code i) :=
    fun code i hle => .error code (hcursor ▸ hle)
  cases h with
  | text _ _ _ => exact htext (hs.start _ rfl)
  | interpolationOpen _ _ _ _ _ _ => exact htext (hs.start _ rfl)
  | beforeTagName _ _ => exact htext (hs.start _ rfl)
  | beforeClosingTagName _ _ => exact htext (hs.start _ rfl)
  | interpolation _ _ hn _ =>
    exact .one (herror _ (Nat.le_of_add_right_le hn)) (htext (hs.start _ rfl))
  | @interpolationClose i m k _ _ _ hm _ _ _ =>
    have hle : i ≤ m + k := Nat.le_add_right_of_le (Nat.le_of_add_right_le hm)
    exact .one (herror _ hle) (htext (hs.start _ rfl))
  | inQuotedValue _ _ _ _ hquoted => exact hvalue hquoted.le (hs.start _ rfl)
  | inBareValue _ _ hbare => exact hvalue hbare.value.le (hs.start _ rfl)
  | _ => exact .one (herror _ (Nat.le_refl _)) hend

/-- A scan is sound at the end of a template. -/
theorem Options.sound_run (o : Options) (rawText : Bool) (template : String) :
    Sound (o.dialect rawText) (utf8Bytes template) ((o.dialect rawText).run template).scan
      ((o.dialect rawText).run template).events := by
  refine Dialect.run_of_kept (Sound.kept ?_ ?_) Sound.fresh
  · exact utf8Bytes_ne_nil o.delimiters.opening_ne_empty
  · exact utf8Bytes_ne_nil o.delimiters.closing_ne_empty

/-- The events of a template are lexemes. -/
theorem lexemes_events (o : Options) (rawText : Bool) (template : String) :
    Lexemes (o.dialect rawText) (utf8Bytes template) ((o.dialect rawText).events template) := by
  have hrun := o.sound_run rawText template
  exact hrun.lexemes.append (hrun.ending (Dialect.cursor_run _ template))

end TemplateLexer
