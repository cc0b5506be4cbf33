import TemplateLexer.Proofs.Layout.Plain
import TemplateLexer.Proofs.Lexeme

/-!
# The shape of lexemes

The kind of an event says much about the bytes that it names and about those next to them: which
byte they begin with, which bytes they do not hold, what they are enclosed in. `Event.Shaped` and
`ValueShaped` put this in terms of the bytes themselves, without a word about scans or layouts.
Every event of a template has the shape of its kind (`events_shaped`).
-/

set_option autoImplicit false

namespace TemplateLexer

open Layout

/-! ## Shapes -/

/-- A byte stands directly in front of a span. -/
def Precedes (w : List UInt8) (c : UInt8) (s : Span) : Prop :=
  0 < s.start ∧ w[s.start - 1]? = some c

/-- A span stands between two quotation marks and holds none. -/
structure QuotedBy (w : List UInt8) (mark : UInt8) (s : Span) : Prop where
  before : Precedes w mark s
  after : w[s.stop]? = some mark
  free : mark ∉ bytesAt w s

/-- What the bytes of an event look like. -/
def Event.Shaped (w : List UInt8) : Event → Prop
  | .text s => bytesAt w s ≠ []
  | .openTagName s | .closeTag s =>
    (∃ c, (bytesAt w s).head? = some c ∧ Byte.isTagStart c = true) ∧
      ∀ c ∈ bytesAt w s, Byte.endsSection c = false
  | .attribName s =>
    (∃ c, (bytesAt w s).head? = some c ∧ Shorthand.ofSigil? c = none) ∧
      ¬ [Byte.letterV, Byte.hyphen] <+: bytesAt w s ∧
      (∀ c ∈ bytesAt w s, Byte.endsSection c = false) ∧ Byte.equals ∉ (bytesAt w s).tail
  | .dirName s none =>
    [Byte.letterV, Byte.hyphen] <+: bytesAt w s ∧
      ∀ c ∈ bytesAt w s, Byte.endsName c = false ∧ c ≠ Byte.colon ∧ c ≠ Byte.dot
  | .dirName s (some shorthand) => bytesAt w s = [shorthand.sigil]
  | .dirArg s =>
    (∃ shorthand : Shorthand, Precedes w shorthand.sigil s) ∧
      (∀ c ∈ bytesAt w s, Byte.endsName c = false) ∧
      ¬ (2 ≤ (bytesAt w s).length ∧ (bytesAt w s).head? = some Byte.bracketOpen ∧
        (bytesAt w s).getLast? = some Byte.bracketClose)
  | .dirDynamicArg s =>
    Precedes w Byte.bracketOpen s ∧ w[s.stop]? = some Byte.bracketClose ∧
      ∀ c ∈ bytesAt w s, Byte.endsName c = false
  | .dirModifier s =>
    Precedes w Byte.dot s ∧ ∀ c ∈ bytesAt w s, Byte.endsName c = false ∧ c ≠ Byte.dot
  | .interpolation _ | .attribData _ | .openTagEnd _ | .selfClosingTag _ | .attribNameEnd _
  | .attribEnd _ _ | .error _ _ | .endOfInput => True

/-- What a value looks like that is written in one of the ways, with the end of its attribute. -/
def ValueShaped (w : List UInt8) (s : Span) : Quote → Nat → Prop
  | .double, n => n = s.stop + 1 ∧ QuotedBy w Byte.doubleQuote s
  | .single, n => n = s.stop + 1 ∧ QuotedBy w Byte.singleQuote s
  | .bare, n =>
    n = s.stop ∧ (∀ c ∈ bytesAt w s, Byte.isSpace c = false ∧ c ≠ Byte.tagEnd) ∧
      ∀ c, (bytesAt w s).head? = some c → c ≠ Byte.doubleQuote ∧ c ≠ Byte.singleQuote
  | .absent, _ => False

variable {d : Dialect} {w : List UInt8} {i j k n v : Nat} {c : UInt8} {p : UInt8 → Bool}

/-! ## The bytes of a span -/

/-- A byte of a span is a byte of the input, within the span. -/
theorem getElem?_of_bytesAt (h : (bytesAt w ⟨i, j⟩)[k]? = some c) :
    i + k < j ∧ w[i + k]? = some c := by
  rw [bytesAt, Span.length, List.getElem?_take, List.getElem?_drop] at h
  split at h
  · next hlt => exact ⟨by simp only at hlt; omega, h⟩
  · cases h

/-- The bytes of a span begin with the byte at its start. -/
theorem bytesAt_cons (h : w[i]? = some c) (hij : i < j) :
    bytesAt w ⟨i, j⟩ = c :: bytesAt w ⟨i + 1, j⟩ := by
  have hdrop : w.drop i = c :: w.drop (i + 1) := by
    obtain ⟨hlt, hget⟩ := List.getElem?_eq_some_iff.mp h
    rw [List.drop_eq_getElem_cons hlt, hget]
  have hlen : j - i = j - (i + 1) + 1 := by omega
  rw [bytesAt, bytesAt, Span.length, Span.length, hdrop, hlen, List.take_succ_cons]

/-- A span of a stretch of one class holds bytes of that class only. -/
theorem forall_mem_bytesAt (h : Only p w i j) : ∀ c ∈ bytesAt w ⟨i, j⟩, p c = true := by
  intro c hc
  obtain ⟨k, hk⟩ := List.mem_iff_getElem?.mp hc
  obtain ⟨hlt, hw⟩ := getElem?_of_bytesAt hk
  obtain ⟨b, hb, hp⟩ := h.byte (i + k) (Nat.le_add_right i k) hlt
  rw [hw] at hb
  rwa [Option.some.inj hb]

/-- A byte stands directly in front of the span that starts behind it. -/
theorem precedes_succ (h : w[i]? = some c) : Precedes w c ⟨i + 1, j⟩ :=
  ⟨Nat.succ_pos i, h⟩

/-! ## Names -/

/-- No letter ends the name of a tag. -/
theorem endsSection_of_isTagStart (h : Byte.isTagStart c = true) : Byte.endsSection c = false := by
  have hall : ∀ n < 256, Byte.isTagStart (UInt8.ofNat n) = true →
      Byte.endsSection (UInt8.ofNat n) = false := by decide +kernel
  have hbyte := hall c.toNat c.toNat_lt
  rw [UInt8.ofNat_toNat] at hbyte
  exact hbyte h

/-- What ends the name of a tag ends that of an attribute as well. -/
theorem endsSection_of_endsName (h : Byte.endsName c = false) : Byte.endsSection c = false := by
  rw [Byte.endsName, Bool.or_eq_false_iff] at h
  exact h.2

/-- The name of a tag begins with a letter and holds no byte that ends it. -/
theorem shaped_tagName (h : TagName w i j) :
    (∃ c, (bytesAt w ⟨i, j⟩).head? = some c ∧ Byte.isTagStart c = true) ∧
      ∀ c ∈ bytesAt w ⟨i, j⟩, Byte.endsSection c = false := by
  obtain ⟨c, hc, hletter⟩ := h.letter
  rw [bytesAt_cons hc h.rest.le]
  refine ⟨⟨c, rfl, hletter⟩,
    List.forall_mem_cons.mpr ⟨endsSection_of_isTagStart hletter, fun b hb => ?_⟩⟩
  simpa [Layout.inTagName] using forall_mem_bytesAt h.rest b hb

/-- A stretch of a name holds no byte that ends a name. -/
theorem endsName_of_mem (h : Only inName w i j) :
    ∀ c ∈ bytesAt w ⟨i, j⟩, Byte.endsName c = false := by
  intro c hc
  simpa [inName] using forall_mem_bytesAt h c hc

/-- The name of a plain attribute has its shape: nothing in it begins a directive. -/
theorem shaped_plainName (h : PlainName w i j) : Event.Shaped w (.attribName ⟨i, j⟩) := by
  obtain ⟨c, hc, hend, hsigil, hlong⟩ := h.first
  have hrest := endsName_of_mem h.rest
  simp only [Event.Shaped, bytesAt_cons hc h.rest.le]
  refine ⟨⟨c, rfl, hsigil⟩, fun hprefix => ?_, ?_, fun hequals => ?_⟩
  · obtain ⟨hv, hhyphen⟩ := List.cons_prefix_cons.mp hprefix
    have hget : (bytesAt w ⟨i + 1, j⟩)[0]? = some Byte.hyphen :=
      List.prefix_iff_getElem?.mp hhyphen 0 (Nat.succ_pos 0)
    exact hlong ⟨hv.symm, (getElem?_of_bytesAt hget).2⟩
  · exact List.forall_mem_cons.mpr ⟨hend, fun b hb => endsSection_of_endsName (hrest b hb)⟩
  · have habsurd := hrest _ hequals
    cases habsurd

/-- The long form of a directive has its shape: a letter, a hyphen, and no colon or dot. -/
theorem shaped_longName (h : LongName w i j) : Event.Shaped w (.dirName ⟨i, j⟩ none) := by
  have htwo := h.two_le
  have hfirst : bytesAt w ⟨i, j⟩ = Byte.letterV :: bytesAt w ⟨i + 1, j⟩ :=
    bytesAt_cons h.letter (by omega)
  have hsecond : bytesAt w ⟨i + 1, j⟩ = Byte.hyphen :: bytesAt w ⟨i + 1 + 1, j⟩ :=
    bytesAt_cons h.hyphen (by omega)
  have hrest : ∀ c ∈ bytesAt w ⟨i + 1, j⟩,
      Byte.endsName c = false ∧ c ≠ Byte.colon ∧ c ≠ Byte.dot := by
    intro c hc
    simpa [inLongName, and_assoc] using forall_mem_bytesAt h.rest c hc
  simp only [Event.Shaped]
  constructor
  · rw [hfirst, hsecond]
    exact ⟨_, rfl⟩
  · rw [hfirst]
    exact List.forall_mem_cons.mpr ⟨by decide, hrest⟩

/-! ## Arguments and modifiers -/

/-- The bytes of an argument stand between brackets of their own only if it does. -/
theorem enclosed_of_bytesAt (h : Only inName w i j) (htwo : 2 ≤ (bytesAt w ⟨i, j⟩).length)
    (hfirst : (bytesAt w ⟨i, j⟩).head? = some Byte.bracketOpen)
    (hlast : (bytesAt w ⟨i, j⟩).getLast? = some Byte.bracketClose) : Enclosed w i j := by
  rw [← shapeOf_eq_enclosed_iff h, shapeOf, ArgShape.ofBytes_eq_enclosed_iff]
  exact exists_eq_cons_concat_iff.mpr ⟨htwo, hfirst, hlast⟩

/-- An argument behind a sigil has its shape. -/
theorem shaped_dirArg {s : Shorthand} (hsigil : w[i]? = some s.sigil)
    (h : Only inName w (i + 1) j) (hopen : ¬ Enclosed w (i + 1) j) :
    Event.Shaped w (.dirArg ⟨i + 1, j⟩) := by
  refine ⟨⟨s, precedes_succ hsigil⟩, endsName_of_mem h, ?_⟩
  rintro ⟨htwo, hfirst, hlast⟩
  exact hopen (enclosed_of_bytesAt h htwo hfirst hlast)

/-- An argument in brackets has its shape once these are taken off. -/
theorem shaped_dirDynamicArg (h : Only inName w i j) (henc : Enclosed w i j) :
    Event.Shaped w (.dirDynamicArg ⟨i + 1, j - 1⟩) := by
  obtain ⟨htwo, hopen, hclose⟩ := henc
  have hinner : Only inName w (i + 1) (j - 1) :=
    ⟨by omega, fun k hi hk => h.byte k (by omega) (by omega)⟩
  exact ⟨precedes_succ hopen, hclose, endsName_of_mem hinner⟩

/-- A modifier has its shape: a dot in front, and none in it. -/
theorem shaped_dirModifier (hdot : w[i]? = some Byte.dot) (h : Only inModifier w (i + 1) j) :
    Event.Shaped w (.dirModifier ⟨i + 1, j⟩) := by
  refine ⟨precedes_succ hdot, fun c hc => ?_⟩
  simpa [inModifier] using forall_mem_bytesAt h c hc

/-! ## Values -/

/-- A value between two marks stands between them and holds none. -/
theorem quotedBy {mark : UInt8} (hbefore : w[v]? = some mark)
    (h : Only (· != mark) w (v + 1) j) (hafter : w[j]? = some mark) :
    QuotedBy w mark ⟨v + 1, j⟩ := by
  refine ⟨precedes_succ hbefore, hafter, fun hmem => ?_⟩
  have hne := forall_mem_bytesAt h mark hmem
  simp at hne

/-- A value has the shape that the way of writing it calls for. -/
theorem Value.shaped {e : Nat} {quote : Quote} (h : Value w v e quote n) :
    ValueShaped w ⟨v, e⟩ quote n := by
  cases h with
  | quoted mark hbefore hvalue hafter =>
    cases mark with
    | double => exact ⟨rfl, quotedBy hbefore hvalue hafter⟩
    | single => exact ⟨rfl, quotedBy hbefore hvalue hafter⟩
  | bare hfirst hvalue _ _ =>
    refine ⟨rfl, fun c hc => ?_, fun c hc => ?_⟩
    · simpa [inBareValue] using forall_mem_bytesAt hvalue c hc
    · rw [List.head?_eq_getElem?] at hc
      have hw : w[v]? = some c := (getElem?_of_bytesAt hc).2
      rw [hw] at hfirst
      exact ⟨fun heq => hfirst.1 (by rw [heq]), fun heq => hfirst.2 (by rw [heq])⟩

/-! ## Templates -/

/-- What a lexeme says of the bytes around it comes down to the shape of its kind. -/
theorem Lexeme.shaped {o : Options} {rawText : Bool} {template : String} {e : Event}
    (h : Lexeme (o.dialect rawText) (utf8Bytes template) e) : e.Shaped (utf8Bytes template) := by
  cases h with
  | @text i j hlt hi hj =>
    have hle : j ≤ (utf8Bytes template).length := (Span.cutsAt_iff_exists.mp hj.cutsAt).1
    have hget := List.getElem?_eq_getElem (show i < (utf8Bytes template).length by omega)
    simp only [Event.Shaped, bytesAt_cons hget hlt]
    exact List.cons_ne_nil _ _
  | interpolation _ _ _ => exact trivial
  | openTagName hname _ => exact shaped_tagName hname
  | openTagEnd _ => exact trivial
  | selfClosingTag _ => exact trivial
  | closeTag hname _ => exact shaped_tagName hname
  | attribName _ hname _ => exact shaped_plainName hname
  | attribNameEnd _ _ => exact trivial
  | absent _ => exact trivial
  | longName hname _ => exact shaped_longName hname
  | sigil s hw =>
    simp only [Event.Shaped, bytesAt_cons hw (Nat.lt_succ_self _)]
    simp [bytesAt, Span.length]
  | dirArg s hsigil harg hopen _ => exact shaped_dirArg hsigil harg hopen
  | dirDynamicArg harg henc => exact shaped_dirDynamicArg harg henc
  | dirModifier hdot hmod _ => exact shaped_dirModifier hdot hmod
  | error _ _ => exact trivial
  | endOfInput => exact trivial

/-- Every event of a template has the shape of its kind, and so has every value together with the
end of its attribute. -/
theorem events_shaped (o : Options) (rawText : Bool) (template : String) :
    (∀ e ∈ (o.dialect rawText).events template, e.Shaped (utf8Bytes template)) ∧
      ∀ (k : Nat) (value : Span) (quote : Quote) (n : Nat),
        ((o.dialect rawText).events template)[k]? = some (.attribData value) →
        ((o.dialect rawText).events template)[k + 1]? = some (.attribEnd quote n) →
        ValueShaped (utf8Bytes template) value quote n := by
  have hlexemes := lexemes_events o rawText template
  refine ⟨hlexemes.forall_mem (fun e he => he.shaped) (fun _ _ _ _ _ => trivial)
    (fun _ _ _ => trivial), ?_⟩
  intro k value quote n hdata hend
  exact (hlexemes.value_of_getElem? hdata hend).shaped

example : (Options.dialect {} false).events "<a :[b]='c'>" =
    [.openTagName ⟨1, 2⟩, .dirName ⟨3, 4⟩ (some .bind), .dirDynamicArg ⟨5, 6⟩, .attribNameEnd 7,
      .attribData ⟨9, 10⟩, .attribEnd .single 11, .openTagEnd 11, .endOfInput] := by
  decide +kernel

end TemplateLexer
