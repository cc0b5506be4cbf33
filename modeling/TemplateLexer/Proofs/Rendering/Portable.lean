import TemplateLexer.Proofs.Concatenation
import TemplateLexer.Proofs.Printing.Templates
import TemplateLexer.Proofs.Rendering

/-!
# Paths that can be moved

What a scan makes of some bytes it makes of them wherever they stand. A path over an input is
portable if it can be followed from the same place of any input that has the same bytes there. Text
with its interpolations and the names of attributes are read by portable paths, although the layout
alone does not say how they are read: where a marker can be overlooked, or in which part of an
argument a dot stands.
-/

set_option autoImplicit false

namespace TemplateLexer

namespace Rendering

open Layout Marker Printing Scan

/-- A kind of scan in front of an offset of an input, with the events that it still has to
report. -/
abbrev Place :=
  List UInt8 → Nat → Scan → List Event → Prop

/-- From every place of a kind, in any input that has the first bytes of this one there, a path
leads to a scan and reports some events, all with their offsets moved to that place. -/
def Portable (d : Dialect) (u : List UInt8) (S : Place) (m : Nat) (es : List Event) (s : Scan) :
    Prop :=
  ∀ w k s₀ owed, S w k s₀ owed → (∀ q < m, w[k + q]? = u[q]?) →
    Leads d w s₀ (owed ++ es.map (Event.shift k)) (s.shift k)

variable {d : Dialect} {u w : List UInt8} {S : Place} {m m' k n : Nat} {es : List Event} {s : Scan}
  {c : UInt8}

/-- To look at more bytes than needed does not harm a path that can be moved. -/
theorem Portable.mono (h : Portable d u S m es s) (hm : m ≤ m') : Portable d u S m' es s := by
  intro w k s₀ owed hS hsame
  exact h w k s₀ owed hS fun q hq => hsame q (Nat.lt_of_lt_of_le hq hm)

/-- Moving on and moving the offsets commute. -/
theorem onward_shift (t : Turn) : (t.shift k).onward = t.onward.shift k := by
  obtain ⟨s, es, again⟩ := t
  cases again with
  | true => rfl
  | false => simp [Turn.onward, Turn.shift, Scan.shift, Nat.add_right_comm]

/-- What is left of an input stands where it was left. -/
theorem same_drop : ∀ q < m, w[k + q]? = (w.drop k)[q]? :=
  fun _ _ => List.getElem?_drop.symm

/-- A scan in what is left of an input stands at the same byte once it is moved back. -/
theorem getElem?_drop_cursor : (w.drop k)[s.cursor]? = w[(s.shift k).cursor]? := by
  rw [List.getElem?_drop, Nat.add_comm]
  rfl

/-- What a scan makes of a byte it makes of it in what is left of the input. -/
theorem turn_drop (hs : s.Exact d) :
    (s.shift k).turn d c w[(s.shift k).cursor + 1]? =
      (s.turn d c (w.drop k)[s.cursor + 1]?).shift k := by
  have hnext : w[(s.shift k).cursor + 1]? = (w.drop k)[s.cursor + 1]? := by
    rw [List.getElem?_drop, Nat.add_comm k, Nat.add_right_comm]
    rfl
  rw [hnext, turn_shift hs]

/-- A portable path goes on with a turn that does not depend on the byte behind. -/
theorem Portable.turn (h : Portable d u S m es s) (hm : m ≤ s.cursor + 1) (hs : s.Exact d)
    (hawaits : s.mode.awaitsAttr = false) (hu : u[s.cursor]? = some c) :
    Portable d u S (s.cursor + 1) (es ++ (s.turn d c u[s.cursor + 1]?).events)
      (s.turn d c u[s.cursor + 1]?).onward := by
  intro w k s₀ owed hS hsame
  have hpath := h.mono hm w k s₀ owed hS hsame
  have hcursor : (s.shift k).cursor = k + s.cursor := Nat.add_comm _ _
  have hw : w[(s.shift k).cursor]? = some c := by
    rw [hcursor, hsame s.cursor (Nat.lt_succ_self _), hu]
  have hturn : (s.shift k).turn d c w[(s.shift k).cursor + 1]? =
      (s.turn d c u[s.cursor + 1]?).shift k := by
    rw [← turn_shift hs]
    apply turn_congr
    intro hmode
    rw [show (s.shift k).mode = s.mode from rfl, hawaits] at hmode
    cases hmode
  have hone := Leads.one hw hturn
  rw [onward_shift] at hone
  rw [List.map_append, ← List.append_assoc]
  exact hpath.trans hone

/-! ## Tokens along a path -/

/-- A span that is moved names the same bytes, where the input has the same ones. -/
theorem bytesAt_shift {span : Span} (hspan : span.stop ≤ m) (hsame : ∀ q < m, w[k + q]? = u[q]?) :
    bytesAt w (span.shift k) = bytesAt u span := by
  have hlen : span.stop + k - (span.start + k) = span.stop - span.start := by omega
  apply List.ext_getElem?
  intro q
  simp only [bytesAt, Span.length, Span.shift, hlen, List.getElem?_take, List.getElem?_drop]
  split
  · next hq =>
    rw [show span.start + k + q = k + (span.start + q) by omega]
    exact hsame _ (by omega)
  · rfl

/-- Events that are moved along with the bytes that they name are the same tokens. -/
theorem tokens_shift (hes : ∀ e ∈ es, ∀ span, e.span? = some span → span.stop ≤ m)
    (hsame : ∀ q < m, w[k + q]? = u[q]?) : tokens w (es.map (Event.shift k)) = tokens u es := by
  rw [tokens, List.map_map]
  apply List.map_congr_left
  intro e he
  have hbytes : ∀ span, e.span? = some span → bytesAt w (span.shift k) = bytesAt u span :=
    fun span hspan => bytesAt_shift (hes e he span hspan) hsame
  cases e with
  | openTagEnd n | selfClosingTag n | attribNameEnd n | attribEnd quote n | error code n
  | endOfInput => rfl
  | text s | interpolation s | openTagName s | closeTag s | attribName s | attribData s
  | dirName s shorthand | dirArg s | dirDynamicArg s | dirModifier s =>
    simp only [Function.comp, Event.shift, Event.token, hbytes s rfl]

end Rendering

end TemplateLexer
