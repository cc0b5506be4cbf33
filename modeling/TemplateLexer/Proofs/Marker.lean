import TemplateLexer.Delimiters.Matcher

/-!
# Markers in an input

A scan compares a marker with the input byte by byte and never goes back: where the comparison
fails, the next attempt begins no earlier than at the byte that failed. Nothing is missed this way
if the marker is restartable, that is, if every place of it that looks like its beginning goes on
like its beginning (`Absent.of_mismatch`).
-/

set_option autoImplicit false

namespace TemplateLexer.Marker

variable {m w : List UInt8} {i j k : Nat} {c : UInt8}

/-- A marker stands at an offset of an input. -/
def OccursAt (m w : List UInt8) (i : Nat) : Prop :=
  m <+: w.drop i

/-- Whether a marker stands at an offset can be decided by looking there. -/
instance : Decidable (OccursAt m w i) :=
  inferInstanceAs (Decidable (m <+: w.drop i))

/-- A marker stands at an offset exactly when each of its bytes is found where it belongs. -/
theorem occursAt_iff : OccursAt m w i ↔ ∀ k c, m[k]? = some c → w[i + k]? = some c := by
  unfold OccursAt
  rw [List.prefix_iff_getElem?]
  constructor
  · intro h k c hk
    obtain ⟨hlt, hget⟩ := List.getElem?_eq_some_iff.mp hk
    rw [← List.getElem?_drop, h k hlt, hget]
  · intro h k hk
    rw [List.getElem?_drop]
    exact h k _ (List.getElem?_eq_getElem hk)

/-- Where a marker stands, the input has its bytes. -/
theorem OccursAt.getElem? (h : OccursAt m w i) (hk : m[k]? = some c) : w[i + k]? = some c :=
  occursAt_iff.mp h k c hk

/-- A marker that is not empty reaches no further than the input. -/
theorem OccursAt.add_length_le (h : OccursAt m w i) (hm : m ≠ []) : i + m.length ≤ w.length := by
  have hle := h.length_le
  have hpos := List.length_pos_iff.mpr hm
  rw [List.length_drop] at hle
  omega

/-- The empty beginning of a marker stands everywhere. -/
theorem OccursAt.take_zero : OccursAt (m.take 0) w i := by
  simp [OccursAt]

/-- A beginning of a marker is longer by one byte if the next byte of the input is the next one of
the marker. -/
theorem OccursAt.take_succ (h : OccursAt (m.take k) w i) (hm : m[k]? = some c)
    (hw : w[i + k]? = some c) : OccursAt (m.take (k + 1)) w i := by
  rw [occursAt_iff] at h ⊢
  intro n b hn
  rw [List.getElem?_take] at hn
  split at hn
  · next hlt =>
    by_cases hnk : n = k
    · subst hnk
      rwa [hw, ← hm]
    · exact h n b (by rw [List.getElem?_take, if_pos (by omega)]; exact hn)
  · cases hn

/-- What is put together stands where its parts stand one behind the other. -/
theorem occursAt_append {first last : List UInt8} :
    OccursAt (first ++ last) w i ↔ OccursAt first w i ∧ OccursAt last w (i + first.length) := by
  unfold OccursAt
  rw [← List.drop_drop]
  constructor
  · rintro ⟨rest, hrest⟩
    rw [← hrest, List.append_assoc, List.drop_left]
    exact ⟨List.prefix_append _ _, List.prefix_append _ _⟩
  · rintro ⟨⟨rest, hrest⟩, hlast⟩
    rw [← hrest, List.drop_left] at hlast
    rw [← hrest, List.prefix_append_right_inj]
    exact hlast

/-- A marker of one byte stands wherever that byte does. -/
theorem occursAt_singleton : OccursAt [c] w i ↔ w[i]? = some c := by
  rw [OccursAt, ← List.head?_drop]
  cases w.drop i with
  | nil => simp
  | cons b rest => simp [eq_comm]

/-- A marker stands where its first byte does, with the rest behind it. -/
theorem occursAt_cons {row : List UInt8} :
    OccursAt (c :: row) w i ↔ w[i]? = some c ∧ OccursAt row w (i + 1) := by
  rw [← List.singleton_append, occursAt_append, occursAt_singleton]
  rfl

/-! ## Where a marker is absent -/

/-- A marker stands at no offset from one to another. -/
def Absent (m w : List UInt8) (i j : Nat) : Prop :=
  ∀ p, i ≤ p → p < j → ¬ OccursAt m w p

/-- From an offset to itself there is nothing to miss. -/
theorem Absent.refl : Absent m w i i := by
  intro p hi hj
  omega

/-- Stretches without the marker that meet make one without it. -/
theorem Absent.trans (hij : Absent m w i j) (hjk : Absent m w j k) : Absent m w i k := by
  intro p hi hk
  by_cases hp : p < j
  · exact hij p hi hp
  · exact hjk p (by omega) hk

/-- A marker is absent where the input has another byte than its first one. -/
theorem Absent.of_head_ne (hw : w[i]? = some c) (hm : m ≠ []) (hne : m.head? ≠ some c) :
    Absent m w i (i + 1) := by
  intro p hi hp hocc
  obtain rfl : p = i := by omega
  obtain ⟨b, rest, rfl⟩ := List.exists_cons_of_ne_nil hm
  have hb : w[p + 0]? = some b := hocc.getElem? (by simp)
  rw [Nat.add_zero, hw] at hb
  exact hne (by simpa using hb.symm)

/-- A marker is absent from the end of an input. -/
theorem Absent.of_length_lt (hm : m ≠ []) (h : w.length < i + m.length) : Absent m w i j := by
  intro p hi _ hocc
  have hle := hocc.add_length_le hm
  omega

/-! ## Restarting -/

/-- Every place of a marker that looks like its beginning goes on like its beginning: where a byte
of it behind the first equals the first, the rest from there begins the marker. -/
def Restartable (m : List UInt8) : Prop :=
  ∀ p, 1 ≤ p → ∀ c, m[0]? = some c → m[p]? = some c → m.drop p <+: m

/-- It is enough to look at the places inside of the marker. -/
theorem restartable_iff :
    Restartable m ↔ ∀ p < m.length, 1 ≤ p → m[p]? = m[0]? → m.drop p <+: m := by
  constructor
  · intro h p hlt hp heq
    have hget := List.getElem?_eq_getElem hlt
    exact h p hp _ (heq ▸ hget) hget
  · intro h p hp c hfirst hc
    have hlt := (List.getElem?_eq_some_iff.mp hc).1
    exact h p hlt hp (hc.trans hfirst.symm)

/-- A marker that is not restartable has a place that begins like it and goes on differently. -/
theorem exists_of_not_restartable (h : ¬ Restartable m) :
    ∃ p < m.length, 1 ≤ p ∧ m[p]? = m[0]? ∧ ¬ m.drop p <+: m := by
  rw [restartable_iff] at h
  simpa [Classical.not_forall] using h

/-- Whether a marker is restartable can be decided by looking at its own places. -/
instance : DecidablePred Restartable :=
  fun _ => decidable_of_iff _ restartable_iff.symm

/-- If the comparison of a restartable marker fails, the marker does not stand at any of the bytes
compared: it could only do so where a byte of it equals the first, and there the byte that failed
would have been the right one. -/
theorem Absent.of_mismatch (hm : Restartable m) (hk : k < m.length)
    (hmatch : OccursAt (m.take k) w i) (hw : w[i + k]? = some c) (hne : m[k]? ≠ some c) :
    Absent m w i (i + k) := by
  intro p hi hp hocc
  obtain ⟨q, rfl⟩ := Nat.exists_eq_add_of_le hi
  have hqk : q < k := by omega
  have hread : ∀ n b, n < k → m[n]? = some b → w[i + n]? = some b := by
    intro n b hn hb
    exact hmatch.getElem? (by rw [List.getElem?_take, if_pos hn]; exact hb)
  -- The byte that failed is the one that an occurrence at `i + q` has there.
  have hfail : m[k - q]? = some c := by
    have hlt : k - q < m.length := by omega
    have hb := hocc.getElem? (List.getElem?_eq_getElem hlt)
    rw [show i + q + (k - q) = i + k by omega, hw] at hb
    rw [List.getElem?_eq_getElem hlt, ← hb]
  by_cases hq : q = 0
  · subst hq
    exact hne hfail
  · obtain ⟨b, hb⟩ : ∃ b, m[0]? = some b :=
      ⟨m[0], List.getElem?_eq_getElem (by omega)⟩
    have hfirst : m[q]? = some b := by
      obtain ⟨e, he⟩ : ∃ e, m[q]? = some e := ⟨m[q], List.getElem?_eq_getElem (by omega)⟩
      have hread₂ : w[i + q + 0]? = some b := hocc.getElem? hb
      rw [Nat.add_zero, hread q e hqk he] at hread₂
      rw [he, hread₂]
    have hdrop := List.prefix_iff_getElem?.mp (hm q (by omega) b hb hfirst)
    have hget := hdrop (k - q) (by rw [List.length_drop]; omega)
    rw [List.getElem_drop, hfail] at hget
    refine hne ?_
    rw [List.getElem?_eq_getElem hk, hget]
    simp only [show q + (k - q) = k by omega]

end TemplateLexer.Marker
