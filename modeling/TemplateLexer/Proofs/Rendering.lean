import TemplateLexer.Proofs.Content
import TemplateLexer.Proofs.Printing
import TemplateLexer.Proofs.Shape

/-!
# Rendering

A template can be written down again from its events alone, if these are taken with the bytes that
they name in place of their offsets. What is written is the canonical form of the template: one
space in front of every attribute, nothing but its value behind the sign of a value, and none of the
bytes that a scan skips.
-/

set_option autoImplicit false

namespace TemplateLexer

open Layout

/-! ## Tokens -/

/-- An event with the bytes that it names, wherever they stand. -/
inductive Token where
  | text (bytes : List UInt8)
  | interpolation (bytes : List UInt8)
  | openTagName (bytes : List UInt8)
  | openTagEnd
  | selfClosingTag
  | closeTag (bytes : List UInt8)
  | attribName (bytes : List UInt8)
  | attribNameEnd
  | attribData (bytes : List UInt8)
  | attribEnd (quote : Quote)
  | dirName (bytes : List UInt8) (shorthand : Option Shorthand)
  | dirArg (bytes : List UInt8)
  | dirDynamicArg (bytes : List UInt8)
  | dirModifier (bytes : List UInt8)
  | error (code : ErrorCode)
  | endOfInput
  deriving DecidableEq, Repr

/-- An event of an input with the bytes that it names. -/
def Event.token (w : List UInt8) : Event → Token
  | .text s => .text (bytesAt w s)
  | .interpolation s => .interpolation (bytesAt w s)
  | .openTagName s => .openTagName (bytesAt w s)
  | .openTagEnd _ => .openTagEnd
  | .selfClosingTag _ => .selfClosingTag
  | .closeTag s => .closeTag (bytesAt w s)
  | .attribName s => .attribName (bytesAt w s)
  | .attribNameEnd _ => .attribNameEnd
  | .attribData s => .attribData (bytesAt w s)
  | .attribEnd quote _ => .attribEnd quote
  | .dirName s shorthand => .dirName (bytesAt w s) shorthand
  | .dirArg s => .dirArg (bytesAt w s)
  | .dirDynamicArg s => .dirDynamicArg (bytesAt w s)
  | .dirModifier s => .dirModifier (bytesAt w s)
  | .error code _ => .error code
  | .endOfInput => .endOfInput

/-- The events of an input with the bytes that they name. -/
def tokens (w : List UInt8) (es : List Event) : List Token :=
  es.map (Event.token w)

/-! ## Writing tokens down -/

namespace Rendering

/-- What is kept between two tokens. -/
structure Pen where
  /-- The colon that the argument of a long form needs. -/
  colon : List UInt8 := []
  /-- The value that its quotation marks are not known of yet. -/
  value : List UInt8 := []
  deriving DecidableEq, Repr

/-- The pen behind a token. A colon is due behind the name of a directive without a shorthand, also
if an error stands in front of the argument. -/
def Pen.after (pen : Pen) : Token → Pen
  | .dirName _ none => { colon := [Byte.colon] }
  | .error _ => pen
  | .attribData bytes => { value := bytes }
  | _ => {}

/-- The value of an attribute as it was written. -/
def writeValue (value : List UInt8) : Quote → List UInt8
  | .absent => []
  | .bare => Byte.equals :: value
  | .single => Byte.equals :: Byte.singleQuote :: (value ++ [Byte.singleQuote])
  | .double => Byte.equals :: Byte.doubleQuote :: (value ++ [Byte.doubleQuote])

/-- The canonical form of a token. -/
def Pen.write (d : Dialect) (pen : Pen) : Token → List UInt8
  | .text bytes => bytes
  | .interpolation bytes => d.opening ++ bytes ++ d.closing
  | .openTagName bytes => Byte.tagOpen :: bytes
  | .openTagEnd => [Byte.tagEnd]
  | .selfClosingTag => [Printing.space, Byte.slash, Byte.tagEnd]
  | .closeTag bytes => Byte.tagOpen :: Byte.slash :: (bytes ++ [Byte.tagEnd])
  | .attribName bytes | .dirName bytes _ => Printing.space :: bytes
  | .dirArg bytes => pen.colon ++ bytes
  | .dirDynamicArg bytes => pen.colon ++ Byte.bracketOpen :: (bytes ++ [Byte.bracketClose])
  | .dirModifier bytes => Byte.dot :: bytes
  | .attribEnd quote => writeValue pen.value quote
  | .attribNameEnd | .attribData _ | .error _ | .endOfInput => []

/-- The canonical form of tokens in a row, with a pen to begin with. -/
def renderWith (d : Dialect) : Pen → List Token → List UInt8
  | _, [] => []
  | pen, t :: ts => pen.write d t ++ renderWith d (pen.after t) ts

/-- The canonical form of tokens in a row. -/
def render (d : Dialect) (ts : List Token) : List UInt8 :=
  renderWith d {} ts

variable {d : Dialect} {w : List UInt8} {i j k n a : Nat} {c : UInt8} {e : Event} {es : List Event}
  {pen : Pen} {t : Token} {ts first last : List Token}

/-! ### Rows of tokens -/

/-- The tokens of rows of events follow one another. -/
theorem tokens_append (first last : List Event) :
    tokens w (first ++ last) = tokens w first ++ tokens w last :=
  List.map_append

/-- Rows of tokens are written down one behind the other, the second one with the pen of the
first. -/
theorem renderWith_append (first last : List Token) :
    renderWith d pen (first ++ last) =
      renderWith d pen first ++ renderWith d (first.foldl Pen.after pen) last := by
  induction first generalizing pen with
  | nil => rfl
  | cons t first ih =>
    simp only [List.cons_append, renderWith, List.foldl_cons, ih, List.append_assoc]

/-- The canonical form of a token that does not hang on the tokens in front of it. -/
def isFree : Token → Bool
  | .dirArg _ | .dirDynamicArg _ | .error _ => false
  | .attribEnd quote => quote == .absent
  | _ => true

/-- The pen does not matter to a row that begins with a token that is free of it. -/
theorem renderWith_of_free (h : ∀ t ∈ ts.head?, isFree t = true) :
    renderWith d pen ts = render d ts := by
  cases ts with
  | nil => rfl
  | cons t ts =>
    have ht : isFree t = true := h t rfl
    cases t with
    | dirArg bytes | dirDynamicArg bytes | error code => cases ht
    | dirName bytes shorthand => cases shorthand <;> rfl
    | attribEnd quote => cases quote <;> first | rfl | cases ht
    | _ => rfl

/-- A row of tokens is written behind another one as it is written alone, unless it begins in the
middle of an attribute. -/
theorem render_append (h : ∀ t ∈ last.head?, isFree t = true) :
    render d (first ++ last) = render d first ++ render d last := by
  rw [render, renderWith_append, renderWith_of_free h]
  rfl

/-- Such a row begins with a token that does not hang on those in front of it. -/
theorem free_of_head (he : isFree (e.token w) = true) :
    ∀ t ∈ (tokens w (e :: es)).head?, isFree t = true := by
  intro t ht
  obtain rfl : e.token w = t := Option.some.inj ht
  exact he

/-- In front of a token that is free of the pen, a row can be cut. -/
theorem render_tokens_append {behind : List Event} (he : isFree (e.token w) = true) :
    render d (tokens w (es ++ e :: behind)) =
      render d (tokens w es) ++ render d (tokens w (e :: behind)) := by
  rw [tokens_append, render_append (free_of_head he)]

/-! ### Names of attributes -/

/-- The bytes of spans that meet are the bytes of both together. -/
theorem bytesAt_append (hij : i ≤ j) (hjk : j ≤ k) :
    bytesAt w ⟨i, j⟩ ++ bytesAt w ⟨j, k⟩ = bytesAt w ⟨i, k⟩ := by
  obtain ⟨m, rfl⟩ := Nat.exists_eq_add_of_le hij
  obtain ⟨n, rfl⟩ := Nat.exists_eq_add_of_le hjk
  have hlen : i + m + n - i = m + n := by omega
  simp only [bytesAt, Span.length, Nat.add_sub_cancel_left, hlen]
  rw [List.take_add, List.drop_drop]

/-- A byte between two stretches. -/
theorem bytesAt_append_cons (hij : i ≤ j) (hw : w[j]? = some c) (hjk : j < k) :
    bytesAt w ⟨i, j⟩ ++ c :: bytesAt w ⟨j + 1, k⟩ = bytesAt w ⟨i, k⟩ := by
  rw [← bytesAt_cons hw hjk]
  exact bytesAt_append hij (Nat.le_of_lt hjk)

/-- An empty span has no bytes. -/
theorem bytesAt_self : bytesAt w ⟨i, i⟩ = [] := by
  simp [bytesAt, Span.length]

/-- An argument in brackets is written with these. -/
theorem write_arg (h : Arg w a k e) : pen.write d (e.token w) = pen.colon ++ bytesAt w ⟨a, k⟩ := by
  cases h with
  | static _ _ => rfl
  | dynamic _ henc =>
    obtain ⟨htwo, hopen, hclose⟩ := henc
    have hinner := bytesAt_append_cons (k := k) (show a + 1 ≤ k - 1 by omega) hclose (by omega)
    rw [show k - 1 + 1 = k by omega, bytesAt_self] at hinner
    rw [bytesAt_cons hopen (by omega), ← hinner]
    rfl

/-- The head of an argument is written with the colon that is due behind it. -/
theorem write_head (pen : Pen) (h : ArgHead w i a e) :
    pen.write d (e.token w) ++ (pen.after (e.token w)).colon =
      Printing.space :: bytesAt w ⟨i, a⟩ := by
  cases h with
  | @long j hlong hcolon =>
    have hle := hlong.two_le
    have hall := bytesAt_append_cons (i := i) (k := j + 1) (by omega) hcolon (Nat.lt_succ_self j)
    rw [bytesAt_self] at hall
    rw [← hall]
    rfl
  | sigil s _ => simp [Event.token, Pen.write, Pen.after]

/-- A name and an argument are written down as they are spelled, behind a space. -/
theorem render_argument {arg : Event} (hhead : ArgHead w i a e) (harg : Arg w a k arg) :
    render d (tokens w [e, arg]) = Printing.space :: bytesAt w ⟨i, k⟩ := by
  have hhead' := write_head (d := d) {} hhead
  have hle : i ≤ a ∧ a ≤ k := by
    constructor
    · exact (inOrder_head measure_place hhead (d := d)).le
    · exact (inOrder_arg measure_place harg (d := d)).le
  simp only [tokens, List.map_cons, List.map_nil, render, renderWith, write_arg harg,
    List.append_nil]
  rw [← List.append_assoc, hhead', List.cons_append, bytesAt_append hle.1 hle.2]

/-- A directive is written as it is spelled. -/
theorem render_directive (h : Directive w i k es) :
    render d (tokens w es) = Printing.space :: bytesAt w ⟨i, k⟩ := by
  induction h with
  | long _ => simp [tokens, Event.token, render, renderWith, Pen.write]
  | arg hhead harg => exact render_argument hhead harg
  | @modifier j k es hdir hdot hmod ih =>
    have hle := (inOrder_directive measure_place hdir (d := d)).le
    have hfree : isFree (Event.token w (.dirModifier ⟨j + 1, k⟩)) = true := rfl
    rw [render_tokens_append hfree, ih, List.cons_append,
      ← bytesAt_append_cons hle hdot hmod.le]
    simp [tokens, Event.token, render, renderWith, Pen.write]

/-- A name is written as it is spelled, behind a space. -/
theorem render_name (h : Name w i k es) :
    render d (tokens w (es ++ [.attribNameEnd n])) = Printing.space :: bytesAt w ⟨i, k⟩ := by
  have hfree : isFree (Event.token w (.attribNameEnd n)) = true := rfl
  have hend : render d (tokens w [.attribNameEnd n]) = [] := rfl
  rw [render_tokens_append hfree, hend, List.append_nil]
  cases h with
  | plain _ => simp [tokens, Event.token, render, renderWith, Pen.write]
  | directive hdir => exact render_directive hdir
  | @unclosed a _ head hhead hrow =>
    have hhead' := write_head (d := d) {} hhead
    have hle := (inOrder_head measure_place hhead (d := d)).le
    rw [← bytesAt_append hle hrow.le, ← List.cons_append, ← hhead']
    simp [tokens, Event.token, render, renderWith, Pen.write, Pen.after]

/-! ### Text and interpolations -/

/-- Texts and interpolations. -/
def isContent : Event → Bool
  | .text _ | .interpolation _ => true
  | _ => false

/-- Text and interpolations are written as they stand in the input. -/
theorem render_of_laid (h : Laid d w i es) (hes : ∀ e ∈ es, isContent e = true) :
    render d (tokens w es) = w.take i := by
  induction h with
  | nil => rfl
  | @text i j es _ hij _ _ ih =>
    have hfree : isFree (Event.token w (.text ⟨i, j⟩)) = true := rfl
    rw [render_tokens_append hfree, ih fun e he => hes e (List.mem_append_left _ he),
      ← take_append_bytesAt (Nat.le_of_lt hij)]
    simp [tokens, Event.token, render, renderWith, Pen.write]
  | @interpolation i j es _ hin hj hclose _ ih =>
    have hfree : isFree (Event.token w (.interpolation ⟨i + d.opening.length, j⟩)) = true := rfl
    rw [render_tokens_append hfree, ih fun e he => hes e (List.mem_append_left _ he),
      ← take_append_interpolation hin.marker hj hclose]
    simp [tokens, Event.token, render, renderWith, Pen.write]
  | closeTag _ _ _ _ _ _ =>
    have htag := hes _ (List.mem_append_right _ List.mem_cons_self)
    cases htag
  | openTag _ _ _ _ _ _ _ =>
    have htag := hes _ (List.mem_append_right _ List.mem_cons_self)
    cases htag

/-! ### Canonical forms are texts -/

/-- A row of bytes is the encoding of a text. -/
def Whole (bytes : List UInt8) : Prop :=
  ∃ part, utf8Bytes part = bytes

namespace Whole

variable {bytes bytes' : List UInt8}

/-- No bytes are the bytes of the empty text. -/
theorem nil : Whole [] :=
  ⟨"", rfl⟩

/-- The bytes of two texts in a row are those of a text. -/
theorem append (h : Whole bytes) (h' : Whole bytes') : Whole (bytes ++ bytes') := by
  obtain ⟨part, rfl⟩ := h
  obtain ⟨part', rfl⟩ := h'
  exact ⟨part ++ part', utf8Bytes_append part part'⟩

/-- An ASCII byte is a text of its own. -/
theorem cons (hc : c < 0x80) (h : Whole bytes) : Whole (c :: bytes) := by
  have hone : Whole [c] := Span.exists_utf8Bytes_eq_singleton hc
  exact hone.append h

/-- The bytes of a text with a byte of ASCII behind them are those of a text. -/
theorem concat (hc : c < 0x80) (h : Whole bytes) : Whole (bytes ++ [c]) :=
  h.append (nil.cons hc)

end Whole

/-- The markers of a dialect are texts. -/
structure WholeMarkers (d : Dialect) : Prop where
  opening : Whole d.opening
  closing : Whole d.closing

/-- What a pen keeps are texts. -/
structure Pen.Clean (pen : Pen) : Prop where
  colon : Whole pen.colon
  value : Whole pen.value

/-- A value is written down as a text, whatever its marks. -/
theorem whole_writeValue {value : List UInt8} (h : Whole value) (quote : Quote) :
    Whole (writeValue value quote) := by
  cases quote with
  | absent => exact .nil
  | bare => exact h.cons (by decide)
  | single => exact ((h.concat (by decide)).cons (by decide)).cons (by decide)
  | double => exact ((h.concat (by decide)).cons (by decide)).cons (by decide)

/-- A token is written down as a text if its bytes are those of one. -/
theorem whole_write (hd : WholeMarkers d) (hpen : pen.Clean)
    (he : ∀ s, e.span? = some s → Whole (bytesAt w s)) :
    Whole (pen.write d (e.token w)) := by
  cases e with
  | text s => exact he s rfl
  | interpolation s => exact (hd.opening.append (he s rfl)).append hd.closing
  | openTagName s => exact (he s rfl).cons (by decide)
  | openTagEnd n => exact Whole.nil.cons (by decide)
  | selfClosingTag n =>
    exact ((Whole.nil.cons (by decide)).cons (by decide)).cons (by decide)
  | closeTag s => exact (((he s rfl).concat (by decide)).cons (by decide)).cons (by decide)
  | attribName s | dirName s shorthand => exact (he s rfl).cons (by decide)
  | attribEnd quote n => exact whole_writeValue hpen.value quote
  | dirArg s => exact hpen.colon.append (he s rfl)
  | dirDynamicArg s =>
    exact hpen.colon.append (((he s rfl).concat (by decide)).cons (by decide))
  | dirModifier s => exact (he s rfl).cons (by decide)
  | attribNameEnd n | attribData s | error code n | endOfInput => exact .nil

/-- What a pen keeps stays a text. -/
theorem Pen.Clean.after (hpen : pen.Clean) (he : ∀ s, e.span? = some s → Whole (bytesAt w s)) :
    (pen.after (e.token w)).Clean := by
  cases e with
  | dirName s shorthand =>
    cases shorthand with
    | none => exact ⟨Whole.nil.cons (by decide), .nil⟩
    | some shorthand => exact ⟨.nil, .nil⟩
  | error code n => exact hpen
  | attribData s => exact ⟨.nil, he s rfl⟩
  | _ => exact ⟨.nil, .nil⟩

/-- A row of tokens is written down as a text. -/
theorem whole_renderWith (hd : WholeMarkers d) (hpen : pen.Clean)
    (hes : ∀ e ∈ es, ∀ s, e.span? = some s → Whole (bytesAt w s)) :
    Whole (renderWith d pen (tokens w es)) := by
  induction es generalizing pen with
  | nil => exact .nil
  | cons e es ih =>
    obtain ⟨he, hes⟩ := List.forall_mem_cons.mp hes
    exact (whole_write hd hpen he).append (ih (hpen.after he) hes)

/-- The canonical form of a template is a text. -/
theorem exists_rendered (o : Options) (rawText : Bool) (template : String) :
    ∃ rendered, utf8Bytes rendered = render (o.dialect rawText)
      (tokens (utf8Bytes template) ((o.dialect rawText).events template)) := by
  refine whole_renderWith ⟨⟨_, rfl⟩, ⟨_, rfl⟩⟩ ⟨.nil, .nil⟩ fun e he s hs => ?_
  have hfits := (fits_of_mem he).span_fits hs
  obtain ⟨part, hpart⟩ := (s.slice_isOk_iff template).mpr ⟨hfits.le, hfits.start, hfits.stop⟩
  exact ⟨part, Span.utf8Bytes_of_slice hpart⟩

end Rendering

end TemplateLexer
