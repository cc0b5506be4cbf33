import TemplateLexer.Proofs.Marker
import TemplateLexer.Scan.Basic

/-!
# The layout of a template

The events of a template describe its bytes from left to right without a gap: text, interpolations
between their markers, closing tags, and opening tags with their attributes. `Laid d w i es` says
that the first `i` bytes of `w` are described by `es`; the relations before it describe the parts of
a tag in the same way, each from one offset to another. None of them speaks of a scan.
-/

set_option autoImplicit false

namespace TemplateLexer.Layout

open Marker

/-! ## Stretches of bytes -/

/-- From one offset to another an input has bytes of one class only. -/
structure Only (p : UInt8 → Bool) (w : List UInt8) (i j : Nat) : Prop where
  le : i ≤ j
  byte : ∀ k, i ≤ k → k < j → ∃ c, w[k]? = some c ∧ p c = true

/-- The bytes skipped behind the opening of a tag. -/
def isDeclarationMark (c : UInt8) : Bool :=
  c == Byte.bang || c == Byte.question

/-- The bytes of the name of a tag behind its first letter. -/
def inTagName (c : UInt8) : Bool :=
  !Byte.endsSection c

/-- The bytes of the name of an attribute behind its first byte, and of an argument. -/
def inName (c : UInt8) : Bool :=
  !Byte.endsName c

/-- The bytes of the long form of the name of a directive. -/
def inLongName (c : UInt8) : Bool :=
  !(Byte.endsName c || c == Byte.colon || c == Byte.dot)

/-- The bytes of a modifier. -/
def inModifier (c : UInt8) : Bool :=
  !(Byte.endsName c || c == Byte.dot)

/-- The bytes of a value without quotation marks. -/
def inBareValue (c : UInt8) : Bool :=
  !(Byte.isSpace c || c == Byte.tagEnd)

variable {p : UInt8 → Bool} {w : List UInt8} {i j k : Nat} {c : UInt8}

/-- No byte stands from an offset to itself. -/
theorem Only.refl : Only p w i i :=
  ⟨Nat.le_refl i, fun k hi hj => by omega⟩

/-- A stretch goes on with one more byte of its class. -/
theorem Only.concat (h : Only p w i j) (hw : w[j]? = some c) (hc : p c = true) :
    Only p w i (j + 1) := by
  refine ⟨Nat.le_succ_of_le h.le, fun k hi hk => ?_⟩
  by_cases hkj : k = j
  · subst hkj
    exact ⟨c, hw, hc⟩
  · exact h.byte k hi (by omega)

/-! ## Tags -/

/-- An opening tag begins: `<`, behind it skipped marks, up to the name. -/
structure Opener (d : Dialect) (w : List UInt8) (i a : Nat) : Prop where
  tags : d.rawText = false
  bracket : w[i]? = some Byte.tagOpen
  marks : Only isDeclarationMark w (i + 1) a

/-- A closing tag begins like an opening one, with a slash in front of the name. -/
structure CloseOpener (d : Dialect) (w : List UInt8) (i a : Nat) : Prop where
  slash_le : i + 2 ≤ a
  opener : Opener d w i (a - 1)
  slash : w[a - 1]? = some Byte.slash

/-- The name of a tag: a letter, and no byte that ends a section. -/
structure TagName (w : List UInt8) (a b : Nat) : Prop where
  letter : ∃ c, w[a]? = some c ∧ Byte.isTagStart c = true
  rest : Only inTagName w (a + 1) b

/-! ## Names of attributes -/

/-- The name of a plain attribute: its first byte begins neither a directive nor anything else. -/
structure PlainName (w : List UInt8) (i j : Nat) : Prop where
  first : ∃ c, w[i]? = some c ∧ Byte.endsSection c = false ∧ Shorthand.ofSigil? c = none ∧
    ¬ (c = Byte.letterV ∧ w[i + 1]? = some Byte.hyphen)
  rest : Only inName w (i + 1) j

/-- The name of a directive in its long form. -/
structure LongName (w : List UInt8) (i j : Nat) : Prop where
  letter : w[i]? = some Byte.letterV
  hyphen : w[i + 1]? = some Byte.hyphen
  two_le : i + 2 ≤ j
  rest : Only inLongName w (i + 1) j

/-- Two brackets stand at the ends of a stretch of bytes. -/
def Enclosed (w : List UInt8) (a k : Nat) : Prop :=
  a + 2 ≤ k ∧ w[a]? = some Byte.bracketOpen ∧ w[k - 1]? = some Byte.bracketClose

/-- An argument, with the event that reports it. -/
inductive Arg (w : List UInt8) (a k : Nat) : Event → Prop
  | static : Only inName w a k → ¬ Enclosed w a k → Arg w a k (.dirArg ⟨a, k⟩)
  | dynamic : Only inName w a k → Enclosed w a k → Arg w a k (.dirDynamicArg ⟨a + 1, k - 1⟩)

/-- What stands in front of an argument, with the event that reports it. -/
inductive ArgHead (w : List UInt8) (i : Nat) : Nat → Event → Prop
  | long {j : Nat} : LongName w i j → w[j]? = some Byte.colon →
      ArgHead w i (j + 1) (.dirName ⟨i, j⟩ none)
  | sigil (s : Shorthand) : w[i]? = some s.sigil →
      ArgHead w i (i + 1) (.dirName ⟨i, i + 1⟩ (some s))

/-- A directive with its modifiers. -/
inductive Directive (w : List UInt8) (i : Nat) : Nat → List Event → Prop
  | long {j : Nat} : LongName w i j → Directive w i j [.dirName ⟨i, j⟩ none]
  | arg {a k : Nat} {head arg : Event} : ArgHead w i a head → Arg w a k arg →
      Directive w i k [head, arg]
  | modifier {j k : Nat} {es : List Event} : Directive w i j es → w[j]? = some Byte.dot →
      Only inModifier w (j + 1) k → Directive w i k (es ++ [.dirModifier ⟨j + 1, k⟩])

/-- The name of an attribute, without the event of its end. -/
inductive Name (w : List UInt8) (i : Nat) : Nat → List Event → Prop
  | plain {j : Nat} : PlainName w i j → Name w i j [.attribName ⟨i, j⟩]
  | directive {j : Nat} {es : List Event} : Directive w i j es → Name w i j es
  | unclosed {a k : Nat} {head : Event} : ArgHead w i a head → Only inName w a k →
      Name w i k [head, .error .missingDynamicArgumentEnd k, .dirArg ⟨a, k⟩]

/-! ## Attributes -/

/-- The sign of a value, with white space around it. -/
def Announced (w : List UInt8) (n v : Nat) : Prop :=
  ∃ q, Only Byte.isSpace w n q ∧ w[q]? = some Byte.equals ∧ Only Byte.isSpace w (q + 1) v

/-- Behind the sign of a value, a value between quotation marks begins. -/
structure Quoted (w : List UInt8) (n : Nat) (mark : QuoteMark) (v : Nat) : Prop where
  announced : Announced w n v
  quote : w[v]? = some mark.byte

/-- Behind the sign of a value, a value without quotation marks reaches from one offset to
another. -/
structure Bare (w : List UInt8) (n v e : Nat) : Prop where
  announced : Announced w n v
  first : w[v]? ≠ some Byte.doubleQuote ∧ w[v]? ≠ some Byte.singleQuote
  value : Only inBareValue w v e

/-- An attribute with its value, if it has one. -/
inductive Attr (w : List UInt8) (i : Nat) : Nat → List Event → Prop
  | absent {n : Nat} {name : List Event} : Name w i n name →
      Attr w i n (name ++ [.attribNameEnd n, .attribEnd .absent n])
  | quoted {n v e : Nat} {name : List Event} (mark : QuoteMark) : Name w i n name →
      Quoted w n mark v → Only (· != mark.byte) w (v + 1) e → w[e]? = some mark.byte →
      Attr w i (e + 1) (name ++ [.attribNameEnd n, .attribData ⟨v + 1, e⟩,
        .attribEnd mark.quote (e + 1)])
  | bare {n v e : Nat} {name : List Event} : Name w i n name → Bare w n v e →
      Attr w i e (name ++ [.attribNameEnd n, .attribData ⟨v, e⟩, .attribEnd .bare e])

/-- What stands behind the name of an opening tag: attributes, white space and slashes. -/
inductive Attrs (w : List UInt8) (b : Nat) : Nat → List Event → Prop
  | nil : Attrs w b b []
  | gap {n : Nat} {c : UInt8} {es : List Event} : Attrs w b n es → w[n]? = some c →
      Byte.isSpace c = true ∨ c = Byte.slash → Attrs w b (n + 1) es
  | attr {n k : Nat} {es attr : List Event} : Attrs w b n es → Attr w n k attr →
      Attrs w b k (es ++ attr)

/-- The event at the end of an opening tag. -/
inductive TagEnd (n : Nat) : Event → Prop
  | openTag : TagEnd n (.openTagEnd n)
  | selfClosing : TagEnd n (.selfClosingTag n)

/-! ## Templates -/

/-- The opening marker is found wherever it stands: it is restartable, and no tag can hide the
beginning of it. -/
structure Searchable (d : Dialect) (w : List UInt8) : Prop where
  interpolates : d.vPre = false
  restartable : Restartable d.opening
  plain : d.rawText = true ∨ Byte.tagOpen ∉ w ∨
    ∀ c ∈ d.opening, c ≠ Byte.tagOpen ∧ c ≠ Byte.slash ∧ isDeclarationMark c = false

/-- No opening marker has been missed from one offset to another. -/
def NoneMissed (d : Dialect) (w : List UInt8) (i j : Nat) : Prop :=
  Searchable d w → Absent d.opening w i j

/-- Where text can end. -/
def TextStop (d : Dialect) (w : List UInt8) (j : Nat) : Prop :=
  d.rawText = false ∧ w[j]? = some Byte.tagOpen ∨
    d.vPre = false ∧ OccursAt d.opening w j ∨ j = w.length

/-- An interpolation begins. -/
structure Inside (d : Dialect) (w : List UInt8) (i : Nat) : Prop where
  interpolates : d.vPre = false
  marker : OccursAt d.opening w i

/-- The text from one offset to another, if there is any. -/
def textBetween (i j : Nat) : List Event :=
  if i < j then [.text ⟨i, j⟩] else []

/-- The first bytes of an input are described by a row of events. -/
inductive Laid (d : Dialect) (w : List UInt8) : Nat → List Event → Prop
  | nil : Laid d w 0 []
  | text {i j : Nat} {es : List Event} : Laid d w i es → i < j → TextStop d w j →
      NoneMissed d w i j → Laid d w j (es ++ [.text ⟨i, j⟩])
  | interpolation {i j : Nat} {es : List Event} : Laid d w i es → Inside d w i →
      i + d.opening.length ≤ j → OccursAt d.closing w j →
      (Restartable d.closing → Absent d.closing w (i + d.opening.length) j) →
      Laid d w (j + d.closing.length) (es ++ [.interpolation ⟨i + d.opening.length, j⟩])
  | closeTag {i a b n : Nat} {es : List Event} : Laid d w i es → CloseOpener d w i a →
      TagName w a b → Only (· != Byte.tagEnd) w b n → w[n]? = some Byte.tagEnd →
      Laid d w (n + 1) (es ++ [.closeTag ⟨a, b⟩])
  | openTag {i a b n : Nat} {es attrs : List Event} {stop : Event} : Laid d w i es →
      Opener d w i a → TagName w a b → Attrs w b n attrs → w[n]? = some Byte.tagEnd →
      TagEnd n stop → Laid d w (n + 1) (es ++ .openTagName ⟨a, b⟩ :: (attrs ++ [stop]))

end TemplateLexer.Layout
