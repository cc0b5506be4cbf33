import TemplateLexer.Proofs.Layout.Progress
import TemplateLexer.Proofs.Path

/-!
# Seams of a template

A scan counts bytes, but the spans that it reports have to name whole characters. They do because
every offset that begins or ends a span is a seam: the start or the end of the template, next to an
ASCII byte, in front of a marker or behind one. A template can be cut at each of its seams
(`Seam.cutsAt`), since neither an ASCII byte nor a marker begins or ends inside a character.
-/

set_option autoImplicit false

namespace TemplateLexer

open Marker

/-! ## Where a text can be cut -/

namespace Span

variable {text : String} {i : Nat} {c : UInt8}

/-- A text can be cut in front of a byte that begins a character. -/
theorem cutsAt_of_firstByte (h : (utf8Bytes text)[i]? = some c) (hc : c.IsUTF8FirstByte) :
    CutsAt text i := by
  obtain ⟨hlt, hget⟩ := List.getElem?_eq_some_iff.mp h
  rw [CutsAt, String.Pos.Raw.isValid_iff_isUTF8FirstByte]
  have hsize : i < text.toByteArray.size := by
    rw [length_utf8Bytes] at hlt
    simpa using hlt
  refine Or.inr ⟨by simpa [String.Pos.Raw.lt_iff] using hsize, ?_⟩
  show text.toByteArray[i].IsUTF8FirstByte
  have hbyte : text.toByteArray[i] = c := by
    rw [← hget]
    rfl
  rw [hbyte]
  exact hc

/-- A text can be cut exactly where a first part of it ends. -/
theorem cutsAt_iff_exists :
    CutsAt text i ↔
      i ≤ (utf8Bytes text).length ∧ ∃ part, utf8Bytes part = (utf8Bytes text).take i := by
  constructor
  · intro h
    have hle : i ≤ (utf8Bytes text).length := by
      rw [length_utf8Bytes]
      simpa [String.Pos.Raw.le_iff] using h.le_rawEndPos
    obtain ⟨part, hpart⟩ := (slice_isOk_iff ⟨0, i⟩ text).mpr
      ⟨Nat.zero_le i, by simp [CutsAt], h⟩
    refine ⟨hle, part, ?_⟩
    simpa [length] using utf8Bytes_of_slice hpart
  · rintro ⟨hle, part, hpart⟩
    rw [CutsAt, String.Pos.Raw.isValid_iff_isValidUTF8_extract_zero]
    refine ⟨?_, ?_⟩
    · rw [length_utf8Bytes] at hle
      simpa [String.Pos.Raw.le_iff] using hle
    · have hbytes : text.toByteArray.extract 0 i = part.toByteArray := by
        apply ByteArray.ext
        apply Array.toList_inj.mp
        simpa [utf8Bytes] using hpart.symm
      rw [hbytes]
      exact part.isValidUTF8

/-- The first byte of a text begins a character. -/
theorem isUTF8FirstByte_of_getElem? (h : (utf8Bytes text)[0]? = some c) : c.IsUTF8FirstByte := by
  obtain ⟨hlt, hget⟩ := List.getElem?_eq_some_iff.mp h
  have hsize : 0 < text.toByteArray.size := by
    rw [length_utf8Bytes] at hlt
    simpa using hlt
  have hbyte : text.toByteArray[0] = c := by
    rw [← hget]
    rfl
  rw [← hbyte]
  exact text.isValidUTF8.isUTF8FirstByte_getElem_zero hsize

/-- A text can be cut in front of its first byte. -/
theorem cutsAt_zero : CutsAt text 0 := by
  simp [CutsAt]

/-- A text can be cut behind its last byte. -/
theorem cutsAt_length : CutsAt text (utf8Bytes text).length := by
  rw [length_utf8Bytes]
  exact String.Pos.Raw.isValid_rawEndPos

/-- Behind a text that stands where another one can be cut, this can be cut again. -/
theorem CutsAt.add {part : String} (h : CutsAt text i)
    (hocc : OccursAt (utf8Bytes part) (utf8Bytes text) i) :
    CutsAt text (i + (utf8Bytes part).length) := by
  rw [cutsAt_iff_exists] at h ⊢
  obtain ⟨hle, first, hfirst⟩ := h
  obtain ⟨rest, hrest⟩ := hocc
  have hlen := congrArg List.length hrest
  rw [List.length_append, List.length_drop] at hlen
  refine ⟨by omega, first ++ part, ?_⟩
  rw [utf8Bytes_append, hfirst, List.take_add, ← hrest, List.take_left]

/-- An ASCII byte is a character of its own. -/
theorem exists_utf8Bytes_eq_singleton (hc : c < 0x80) : ∃ part, utf8Bytes part = [c] := by
  have hascii : ∀ n < 128, utf8Bytes (String.ofList [Char.ofNat n]) = [UInt8.ofNat n] := by
    decide +kernel
  have hbyte := hascii c.toNat hc
  rw [UInt8.ofNat_toNat] at hbyte
  exact ⟨_, hbyte⟩

/-- Where the bytes of another text stand, a text can be cut on both sides of them. -/
theorem cutsAt_of_occursAt {part : String} (hpart : utf8Bytes part ≠ [])
    (hocc : OccursAt (utf8Bytes part) (utf8Bytes text) i) :
    CutsAt text i ∧ CutsAt text (i + (utf8Bytes part).length) := by
  obtain ⟨c, rest, hcons⟩ := List.exists_cons_of_ne_nil hpart
  have hhead : (utf8Bytes part)[0]? = some c := by
    rw [hcons]
    rfl
  have hfront : CutsAt text i :=
    cutsAt_of_firstByte (hocc.getElem? hhead) (isUTF8FirstByte_of_getElem? hhead)
  exact ⟨hfront, hfront.add hocc⟩

end Span

/-! ## Seams -/

/-- An offset that no character reaches across, whatever the input is: one of its ends, or a place
next to an ASCII byte or to a marker. -/
inductive Seam (d : Dialect) (w : List UInt8) : Nat → Prop
  | start : Seam d w 0
  | finish : Seam d w w.length
  | front {i : Nat} {c : UInt8} : w[i]? = some c → c < 0x80 → Seam d w i
  | behind {i : Nat} {c : UInt8} : w[i]? = some c → c < 0x80 → Seam d w (i + 1)
  | marker {i : Nat} (side : Side) : OccursAt (d.marker side) w i → Seam d w i
  | behindMarker {i : Nat} (side : Side) : OccursAt (d.marker side) w i →
      Seam d w (i + (d.marker side).length)

namespace Seam

/-- Behind white space there is a seam if there is one in front of it. -/
theorem spaces {d : Dialect} {w : List UInt8} {i j : Nat} (h : Seam d w i)
    (hs : Layout.Only Byte.isSpace w i j) : Seam d w j := by
  by_cases hij : i = j
  · rwa [← hij]
  · have hle := hs.le
    obtain ⟨c, hc, hspace⟩ := hs.byte (j - 1) (by omega) (by omega)
    have hbehind : Seam d w (j - 1 + 1) := .behind hc (Byte.lt_of_isSpace hspace)
    rwa [Nat.sub_add_cancel (by omega)] at hbehind

/-- A template can be cut at each of its seams. -/
theorem cutsAt {o : Options} {rawText : Bool} {template : String} {i : Nat}
    (h : Seam (o.dialect rawText) (utf8Bytes template) i) : Span.CutsAt template i := by
  have hmarker : ∀ side, ∃ part, utf8Bytes part ≠ [] ∧
      utf8Bytes part = (o.dialect rawText).marker side := by
    intro side
    cases side with
    | opening =>
      exact ⟨_, utf8Bytes_ne_nil o.delimiters.opening_ne_empty, rfl⟩
    | closing =>
      exact ⟨_, utf8Bytes_ne_nil o.delimiters.closing_ne_empty, rfl⟩
  have hascii : ∀ {i c}, (utf8Bytes template)[i]? = some c → c < 0x80 →
      Span.CutsAt template i ∧ Span.CutsAt template (i + 1) := by
    intro i c hw hc
    -- An ASCII byte is a marker of one byte, as it were.
    obtain ⟨part, hpart⟩ := Span.exists_utf8Bytes_eq_singleton hc
    have hne : utf8Bytes part ≠ [] := by
      rw [hpart]
      exact List.cons_ne_nil c []
    have hocc : OccursAt (utf8Bytes part) (utf8Bytes template) i := by
      rw [hpart]
      exact occursAt_singleton.mpr hw
    have hcuts := Span.cutsAt_of_occursAt hne hocc
    rwa [hpart] at hcuts
  cases h with
  | start => exact Span.cutsAt_zero
  | finish => exact Span.cutsAt_length
  | front hw hc => exact (hascii hw hc).1
  | behind hw hc => exact (hascii hw hc).2
  | marker side hocc =>
    obtain ⟨part, hne, hpart⟩ := hmarker side
    rw [← hpart] at hocc
    exact (Span.cutsAt_of_occursAt hne hocc).1
  | behindMarker side hocc =>
    obtain ⟨part, hne, hpart⟩ := hmarker side
    rw [← hpart] at hocc ⊢
    exact (Span.cutsAt_of_occursAt hne hocc).2

end Seam

end TemplateLexer
