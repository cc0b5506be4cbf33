import TemplateLexer.Proofs.Layout
import TemplateLexer.Proofs.Path

/-!
# Overlooked markers

A marker that is not restartable can be overlooked. Put the beginning of it in front of the whole of
it: the comparison that begins at the first byte goes on into the marker proper and fails there, and
the next one begins too late to find it (`Spoilt.kept`).
-/

set_option autoImplicit false

namespace TemplateLexer

namespace Marker

variable {m w : List UInt8} {b k p : Nat}

/-- The comparison of a marker with the bytes from an offset fails behind some of them, and the
marker does not stand anywhere from there on. -/
structure Spoilt (m w : List UInt8) (b k : Nat) : Prop where
  pos : 1 ≤ k
  lt : k < m.length
  matched : OccursAt (m.take k) w b
  differs : w[b + k]? ≠ m[k]?
  absent : ∀ n, b + k ≤ n → ¬ OccursAt m w n

/-- The bytes in front of the one where the comparison fails are those of the marker. -/
theorem Spoilt.getElem? {j : Nat} (h : Spoilt m w b k) (hj : j < k) : w[b + j]? = m[j]? := by
  have hget := List.getElem?_eq_getElem (Nat.lt_trans hj h.lt)
  rw [hget]
  exact h.matched.getElem? (by rw [List.getElem?_take, if_pos hj, hget])

/-- A spoilt marker stands neither where its comparison begins nor from where it fails on. -/
theorem Spoilt.not_occursAt {n : Nat} (h : Spoilt m w b k) (hn : n = b ∨ b + k ≤ n) :
    ¬ OccursAt m w n := by
  intro hocc
  rcases hn with rfl | hn
  · apply h.differs
    have hget := List.getElem?_eq_getElem h.lt
    rw [hget]
    exact hocc.getElem? hget
  · exact h.absent n hn hocc

/-- Where a marker does not stand, there is a first byte that differs. -/
theorem exists_mismatch (h : ¬ OccursAt m w b) :
    ∃ k < m.length, OccursAt (m.take k) w b ∧ w[b + k]? ≠ m[k]? := by
  have hupTo : ∀ n ≤ m.length, OccursAt (m.take n) w b ∨
      ∃ k < n, OccursAt (m.take k) w b ∧ w[b + k]? ≠ m[k]? := by
    intro n
    induction n with
    | zero =>
      intro _
      exact Or.inl .take_zero
    | succ n ih =>
      intro hn
      rcases ih (by omega) with hmatch | ⟨k, hk, hfail⟩
      · have hget := List.getElem?_eq_getElem hn
        by_cases hw : w[b + n]? = m[n]?
        · exact Or.inl (hmatch.take_succ hget (hw.trans hget))
        · exact Or.inr ⟨n, Nat.lt_succ_self n, hmatch, hw⟩
      · exact Or.inr ⟨k, Nat.lt_succ_of_lt hk, hfail⟩
  rcases hupTo m.length (Nat.le_refl _) with hall | hfail
  · rw [List.take_length] at hall
    exact (h hall).elim
  · exact hfail

/-- Where a marker stands behind a beginning of it. -/
theorem occursAt_behind (before : List UInt8) (hp : p ≤ m.length) :
    OccursAt m (before ++ (m.take p ++ m)) (before.length + p) := by
  have hlen : before.length + p = (before ++ m.take p).length := by
    rw [List.length_append, List.length_take, Nat.min_eq_left hp]
  refine ⟨[], ?_⟩
  rw [List.append_nil, ← List.append_assoc, hlen, List.drop_left]

/-- The beginning of a marker up to a byte that looks like the first one, put in front of the
marker, spoils it if the rest of the marker does not begin like the marker. -/
theorem spoilt_of_take (before : List UInt8) (hlt : p < m.length) (hp : 1 ≤ p)
    (hfirst : m[p]? = m[0]?) (hrest : ¬ m.drop p <+: m) :
    ∃ k, Spoilt m (before ++ (m.take p ++ m)) before.length k := by
  have hnot : ¬ OccursAt m (before ++ (m.take p ++ m)) before.length := by
    rw [OccursAt, List.drop_left]
    intro hall
    apply hrest
    rw [← List.prefix_append_right_inj (m.take p), List.take_append_drop]
    exact hall
  have hget : ∀ j, j ≤ p → (before ++ (m.take p ++ m))[before.length + j]? = m[j]? := by
    intro j hj
    rw [List.getElem?_append_right (Nat.le_add_right _ _), Nat.add_sub_cancel_left]
    by_cases hjp : j = p
    · subst hjp
      have hlen : (m.take j).length = j := by
        rw [List.length_take]
        omega
      rw [List.getElem?_append_right (by omega), hlen, Nat.sub_self, hfirst]
    · rw [List.getElem?_append_left (by rw [List.length_take]; omega), List.getElem?_take,
        if_pos (by omega)]
  obtain ⟨k, hk, hmatch, hdiff⟩ := exists_mismatch hnot
  have hpk : p < k := Nat.lt_of_not_le fun hle => hdiff (hget k hle)
  refine ⟨k, by omega, hk, hmatch, hdiff, fun n hn hocc => ?_⟩
  have hlen := hocc.add_length_le (List.ne_nil_of_length_pos (by omega))
  simp only [List.length_append, List.length_take] at hlen
  omega

/-- A marker that is not restartable can be spoilt behind any bytes. -/
theorem exists_spoilt (h : ¬ Restartable m) (before : List UInt8) :
    ∃ p < m.length, m[p]? = m[0]? ∧
      ∃ k, Spoilt m (before ++ (m.take p ++ m)) before.length k := by
  obtain ⟨p, hlt, hp, hfirst, hrest⟩ := exists_of_not_restartable h
  exact ⟨p, hlt, hfirst, spoilt_of_take before hlt hp hfirst hrest⟩

end Marker

namespace Scan

open Marker

variable {d : Dialect} {w : List UInt8} {side : Side} {i b k : Nat} {s : Scan} {es : List Event}

/-- A scan that has not found the marker of a side. -/
inductive Seeking (d : Dialect) (w : List UInt8) (side : Side) (i b k : Nat) :
    Scan → List Event → Prop
  | seeking {n : Nat} : n = b ∨ b + k ≤ n →
      Seeking d w side i b k ⟨side.seeking, n, some i, .idle, .empty⟩ []
  | comparing {n j : Nat} : n = b ∨ b + k ≤ n → j < (d.marker side).length →
      OccursAt ((d.marker side).take j) w n →
      Seeking d w side i b k ⟨side.comparing, n + j, some i, ⟨some j⟩, .empty⟩ []

/-- A byte that is handed over without an event leaves the marker still sought. -/
theorem Seeking.again {t : Turn} {s : Scan} (h : Seeking d w side i b k s [])
    (ht : t = ⟨s, [], true⟩) : Seeking d w side i b k t.onward ([] ++ t.events) := by
  subst ht
  exact h

/-- A byte that is kept without an event leaves the marker still sought. -/
theorem Seeking.next {t : Turn} {s : Scan}
    (h : Seeking d w side i b k { s with cursor := s.cursor + 1 } []) (ht : t = ⟨s, [], false⟩) :
    Seeking d w side i b k t.onward ([] ++ t.events) := by
  subst ht
  exact h

/-- A spoilt marker is not found: an attempt begins where it fails, or where the marker does not
stand any more. -/
theorem Seeking.kept (h : Spoilt (d.marker side) w b k) (hseeks : ∀ c, d.Seeks c side) :
    Kept d w (Seeking d w side i b k) := by
  intro s es c hs hw
  cases hs with
  | @seeking n hn =>
    by_cases hhead : (d.marker side).head? = some c
    · refine Seeking.again (.comparing (j := 0) hn ?_ .take_zero)
        (turn_seeking_head side (hseeks c) hhead)
      exact Nat.zero_lt_of_lt h.lt
    · have hnb : n ≠ b := by
        rintro rfl
        apply hhead
        rw [List.head?_eq_getElem?, ← h.getElem? h.pos]
        exact hw
      have hlater : n + 1 = b ∨ b + k ≤ n + 1 := by omega
      exact Seeking.next (.seeking hlater) (turn_seeking_other side (hseeks c) hhead)
  | @comparing n j hn hj hmatch =>
    by_cases hbyte : (d.marker side)[j]? = some c
    · have hmore := hmatch.take_succ hbyte hw
      have hlast : j + 1 ≠ (d.marker side).length := by
        intro hlast
        rw [hlast, List.take_length] at hmore
        exact h.not_occursAt hn hmore
      exact Seeking.next (.comparing (j := j + 1) hn (by omega) hmore)
        (turn_comparing_next side hbyte hlast)
    · -- An attempt from the spoilt marker on fails at its wrong byte, a later one behind it.
      have hfail : n + j = b ∨ b + k ≤ n + j := by
        rcases hn with rfl | hn
        · have hkj : ¬ j < k := by
            intro hlt
            apply hbyte
            rw [← h.getElem? hlt]
            exact hw
          exact Or.inr (by omega)
        · exact Or.inr (by omega)
      exact Seeking.again (.seeking hfail) (turn_comparing_other side hbyte)

/-- What is reported at the end if the marker of a side is not found. -/
def unfound (i n : Nat) : Side → List Event
  | .opening => Layout.textBetween i n
  | .closing => .error .missingInterpolationEnd i :: Layout.textBetween i n

/-- A marker that is still sought at the end has left its side unfound. -/
theorem Seeking.leftover (h : Seeking d w side i b k s es) :
    es ++ s.leftover = unfound i s.cursor side := by
  cases h <;> cases side <;> rfl

/-- From the beginning of a spoilt marker on, nothing is found. -/
theorem Leads.events_of_spoilt {template : String}
    (hpath : Leads d (utf8Bytes template) {} es ⟨side.seeking, b, some i, .idle, .empty⟩)
    (h : Spoilt (d.marker side) (utf8Bytes template) b k) (hseeks : ∀ c, d.Seeks c side)
    (hb : b ≤ (utf8Bytes template).length) :
    d.events template = es ++ (unfound i (utf8Bytes template).length side ++ [.endOfInput]) := by
  have hstart : Seeking d (utf8Bytes template) side i b k
      ⟨side.seeking, b, some i, .idle, .empty⟩ [] := .seeking (Or.inl rfl)
  have hall : (utf8Bytes template).drop b = (utf8Bytes template).drop b ++ [] :=
    (List.append_nil _).symm
  have hrun := ((Seeking.kept h hseeks).run hstart hall).leftover
  have hcursor : (finish d (utf8Bytes template)
      ⟨side.seeking, b, some i, .idle, .empty⟩).scan.cursor = (utf8Bytes template).length := by
    rw [finish, cursor_run, List.length_drop]
    exact Nat.add_sub_cancel' hb
  rw [hpath.events_eq, ending, ← hcursor, ← List.append_assoc (finish _ _ _).events]
  exact congrArg (fun row => es ++ (row ++ [Event.endOfInput])) hrun

end Scan

end TemplateLexer
