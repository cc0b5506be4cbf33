import TemplateLexer.Proofs.Rendering.Portable

/-!
# Reading canonical forms

The canonical form of some tokens is read as these tokens, if what stands behind it does not go on
with the last of them. `Reread` says so, and what it takes for that; it is shown for longer and
longer rows of tokens, one part of a template after the other.
-/

set_option autoImplicit false

namespace TemplateLexer

namespace Rendering

open Layout Marker Printing Scan

/-- If the canonical form of some tokens stands at the beginning of an input, and behind it what is
needed for its last token to end there, it is read as these tokens. -/
def Reread (d : Dialect) (C : List UInt8 → Nat → Prop) (A : Nat → Scan → List Event → Prop)
    (ts : List Token) : Prop :=
  ∀ w, OccursAt (render d ts) w 0 → C w (render d ts).length →
    ∃ es, Reaches d w (A (render d ts).length) {} es ∧ tokens w es = ts

/-! ## What stands behind -/

/-- Nothing in particular stands behind. -/
def Anywhere (_ : List UInt8) (_ : Nat) : Prop :=
  True

/-- A tag may begin. -/
def BeforeTag (w : List UInt8) (n : Nat) : Prop :=
  w[n]? = some Byte.tagOpen

/-- The name of an attribute ends. -/
def BehindName (w : List UInt8) (n : Nat) : Prop :=
  ∃ b, w[n]? = some b ∧ Byte.endsName b = true

/-- A scan behind the name of an attribute. -/
inductive AtValue (n : Nat) : Scan → List Event → Prop
  | value : AtValue n ⟨.afterAttrName, n, some n, .idle, .empty⟩ []

variable {d : Dialect} {u w : List UInt8} {C C' : List UInt8 → Nat → Prop}
  {A A' : Nat → Scan → List Event → Prop} {ts new : List Token} {piece : List UInt8} {m n : Nat}
  {s : Scan} {es owed : List Event} {c : UInt8}

/-- What stands behind an attribute ends a name as well. -/
theorem behindName_of_stops (h : Stops w n) : BehindName w n := by
  obtain ⟨b, hw, hb⟩ := h.exists_byte
  exact ⟨b, hw, (ends_of_stop hb).2⟩

/-- A single token is written down with a clean pen. -/
theorem render_singleton (t : Token) : render d [t] = Pen.write d {} t :=
  List.append_nil _

/-- Where the first bytes of an input stand, the bytes are the same. -/
theorem same_of_occursAt (hm : m ≤ u.length) (h : OccursAt (u.take m) w n) :
    ∀ q < m, w[n + q]? = u[q]? := by
  intro q hq
  have hget := List.getElem?_eq_getElem (show q < u.length by omega)
  rw [hget]
  exact h.getElem? (by rw [List.getElem?_take, if_pos hq, hget])

/-- The first bytes of an input are the name of an attribute: between two attributes they are read
with certain events, wherever they stand. -/
def Spelled (d : Dialect) (u : List UInt8) (m : Nat) (es : List Event) : Prop :=
  ∀ w k s owed, AtAttrs k s owed → (∀ q < m, w[k + q]? = u[q]?) → BehindName w (k + m) →
    Leads d w s (owed ++ es.map (Event.shift k))
      ⟨.afterAttrName, k + m, some (k + m), .idle, .empty⟩

/-- No span reaches beyond the stretch that the events are in order in. -/
theorem span_stop_le {i j : Nat} (h : InOrder (Event.firmStretch? d) i j es) :
    ∀ e ∈ es, ∀ span, e.span? = some span → span.stop ≤ j := by
  intro e he span hspan
  obtain ⟨t, ht, _, hstop⟩ := exists_stretch_of_span (d := d) hspan
  exact Nat.le_trans hstop (h.within e he t ht).2.2

/-- A row of texts and interpolations begins with one of these. -/
theorem free_of_content (hes : ∀ e ∈ es, isContent e = true) :
    ∀ t ∈ (tokens w es).head?, isFree t = true := by
  cases es with
  | nil => exact nofun
  | cons e es =>
    have he := hes e List.mem_cons_self
    cases e with
    | text span | interpolation span => exact free_of_head rfl
    | _ => cases he

/-- A text between two offsets moves along with them. -/
theorem textBetween_shift {i j k : Nat} :
    (textBetween i j).map (Event.shift k) = textBetween (i + k) (j + k) := by
  simp only [textBetween, Nat.add_lt_add_iff_right]
  split <;> rfl

namespace Reread

/-- What is read again in front of more can be read again in front of less. -/
theorem mono (h : Reread d C A ts) (hC : ∀ w n, C' w n → C w n) : Reread d C' A ts := by
  intro w hocc hC'
  exact h w hocc (hC w _ hC')

/-- Nothing at all is read again anywhere. -/
theorem nil : Reread d Anywhere AtFresh [] := by
  intro w _ _
  exact ⟨[], (Leads.refl _).reaches .fresh, rfl⟩

/-- Tokens are read behind others if what they are written as can be read there and does not go on
with what is in front of it. -/
theorem extend (h : Reread d C A ts) (hfree : ∀ t ∈ new.head?, isFree t = true)
    (hpiece : render d new = piece)
    (hfront : ∀ w n, OccursAt piece w n → C' w (n + piece.length) → C w n)
    (hread : ∀ w n s owed, A n s owed → OccursAt piece w n → C' w (n + piece.length) →
      ∃ es, Reaches d w (A' (n + piece.length)) s (owed ++ es) ∧ tokens w es = new) :
    Reread d C' A' (ts ++ new) := by
  intro w hocc hC'
  rw [render_append hfree, hpiece] at hocc hC' ⊢
  rw [List.length_append] at hC' ⊢
  obtain ⟨hfirst, hlast⟩ := occursAt_append.mp hocc
  rw [Nat.zero_add] at hlast
  obtain ⟨es, ⟨s, first, owed, hpath, hA, rfl⟩, htokens⟩ := h w hfirst (hfront w _ hlast hC')
  obtain ⟨es', hreach, htokens'⟩ := hread w _ s owed hA hlast hC'
  refine ⟨(first ++ owed) ++ es', ?_, ?_⟩
  · rw [List.append_assoc]
    exact hpath.trans_reaches hreach
  · rw [tokens_append, htokens, htokens']

/-! ## Tags -/

/-- A closing tag is read again behind what is in front of it, and needs nothing behind it. -/
theorem closeTag (hraw : d.rawText = false) (h : Reread d BeforeTag AtText ts) (name : TagWord) :
    Reread d Anywhere AtFresh (ts ++ [.closeTag name.bytes]) := by
  refine h.extend (by simp [isFree]) (render_singleton _) ?_ ?_
  · intro w n hocc _
    exact (occursAt_cons.mp hocc).1
  · intro w n s owed hA hocc _
    have hreach := reaches_closeTag hraw hA hocc
    have hlen : n + (Pen.write d {} (.closeTag name.bytes)).length =
        n + 2 + name.bytes.length + 1 := by
      simp only [Pen.write, List.length_cons, List.length_append, List.length_nil]
      omega
    have hname : OccursAt name.bytes w (n + 2) :=
      (occursAt_append.mp (occursAt_cons.mp (occursAt_cons.mp hocc).2).2).1
    refine ⟨[.closeTag ⟨n + 2, n + 2 + name.bytes.length⟩], ?_, ?_⟩
    · rw [hlen]
      exact hreach
    · simp only [tokens, List.map_cons, List.map_nil, Event.token, bytesAt_of_occursAt hname]

/-- The name of a tag is read again if something stops it. -/
theorem openTagName (hraw : d.rawText = false) (h : Reread d BeforeTag AtText ts)
    (name : TagWord) : Reread d Stops AtAttrs (ts ++ [.openTagName name.bytes]) := by
  refine h.extend (by simp [isFree]) (render_singleton _) ?_ ?_
  · intro w n hocc _
    exact (occursAt_cons.mp hocc).1
  · intro w n s owed hA hocc hstop
    obtain ⟨hopen, hname⟩ := occursAt_cons.mp hocc
    have hlen : n + (Pen.write d {} (.openTagName name.bytes)).length =
        n + 1 + name.bytes.length := by
      simp only [Pen.write, List.length_cons]
      omega
    rw [hlen] at hstop ⊢
    refine ⟨[.openTagName ⟨n + 1, n + 1 + name.bytes.length⟩],
      reaches_tagName hraw hA hopen hname hstop, ?_⟩
    simp only [tokens, List.map_cons, List.map_nil, Event.token, bytesAt_of_occursAt hname]

/-- The end of a tag is read again if what is in front of it allows for it. -/
theorem openTagEnd (h : Reread d C AtAttrs ts)
    (hC : ∀ w n, w[n]? = some Byte.tagEnd → C w n) :
    Reread d Anywhere AtFresh (ts ++ [.openTagEnd]) := by
  refine h.extend (by simp [isFree]) (render_singleton _) ?_ ?_
  · intro w n hocc _
    exact hC w n (occursAt_singleton.mp hocc)
  · intro w n s owed hA hocc _
    have hstop : OccursAt (Printed.bytes TagStop.openTag) w n := hocc
    exact ⟨[.openTagEnd n], reaches_tagStop hA hstop, rfl⟩

/-- The end of a tag that closes itself is read again: a space stops what is in front of it. -/
theorem selfClosingTag (h : Reread d Stops AtAttrs ts) :
    Reread d Anywhere AtFresh (ts ++ [.selfClosingTag]) := by
  refine h.extend (by simp [isFree]) (render_singleton _) ?_ ?_
  · intro w n hocc _
    exact Or.inl (occursAt_cons.mp hocc).1
  · intro w n s owed hA hocc _
    have hstop : OccursAt (Printed.bytes TagStop.selfClosing) w n := hocc
    exact ⟨[.selfClosingTag (n + 2)], reaches_tagStop hA hstop, rfl⟩

/-! ## Values -/

/-- An attribute without a value is read again, its end being reported where it is stopped. -/
theorem absent (h : Reread d BehindName AtValue ts) :
    Reread d Stops AtAttrs (ts ++ [.attribEnd .absent]) := by
  refine h.extend (by simp [isFree]) (render_singleton _) ?_ ?_
  · intro w n _ hstop
    exact behindName_of_stops hstop
  · intro w n s owed hA _ _
    cases hA with
    | value =>
      have hreach := (Leads.refl (d := d) (w := w) _).reaches (AtAttrs.after (n := n) (m := n))
      exact ⟨[.attribEnd .absent n], hreach, rfl⟩

/-- A value between quotation marks is read again, and needs nothing behind it. -/
theorem quoted (h : Reread d BehindName AtValue ts) (mark : QuoteMark)
    (row : Row (· != mark.byte)) :
    Reread d Anywhere AtAttrs (ts ++ [.attribData row.bytes, .attribEnd mark.quote]) := by
  have hpiece : render d [.attribData row.bytes, .attribEnd mark.quote] =
      Printed.bytes (AttrValue.quoted mark row) := by
    cases mark <;> exact List.append_nil _
  refine h.extend (by simp [isFree]) hpiece ?_ ?_
  · intro w n hocc _
    exact ⟨_, (occursAt_cons.mp hocc).1, rfl⟩
  · intro w n s owed hA hocc _
    cases hA with
    | value =>
      have hrow : OccursAt row.bytes w (n + 2) :=
        (occursAt_append.mp (occursAt_cons.mp (occursAt_cons.mp hocc).2).2).1
      refine ⟨_, reaches_quoted hocc, ?_⟩
      simp only [tokens, List.map_cons, List.map_nil, Event.token,
        bytesAt_of_occursAt hrow]

/-- A value without quotation marks is read again if something stops it. -/
theorem bare (h : Reread d BehindName AtValue ts) (word : BareWord) :
    Reread d Stops AtAttrs (ts ++ [.attribData word.bytes, .attribEnd .bare]) := by
  have hpiece : render d [.attribData word.bytes, .attribEnd .bare] =
      Printed.bytes (AttrValue.bare word) := List.append_nil _
  refine h.extend (by simp [isFree]) hpiece ?_ ?_
  · intro w n hocc _
    exact ⟨_, (occursAt_cons.mp hocc).1, rfl⟩
  · intro w n s owed hA hocc hstop
    cases hA with
    | value =>
      have hword : OccursAt word.bytes w (n + 1) := (occursAt_cons.mp hocc).2
      refine ⟨_, reaches_bare hocc hstop, ?_⟩
      simp only [tokens, List.map_cons, List.map_nil, Event.token, bytesAt_of_occursAt hword]

/-- An empty value without quotation marks can only stand in front of the end of its tag. -/
theorem bareEmpty (h : Reread d BehindName AtValue ts) :
    Reread d (fun w n => w[n]? = some Byte.tagEnd) AtAttrs
      (ts ++ [.attribData [], .attribEnd .bare]) := by
  have hpiece : render d [.attribData [], .attribEnd .bare] = [Byte.equals] := rfl
  refine h.extend (by simp [isFree]) hpiece ?_ ?_
  · intro w n hocc _
    exact ⟨_, occursAt_singleton.mp hocc, rfl⟩
  · intro w n s owed hA hocc hend
    cases hA with
    | value =>
      have hfirst := Leads.one (d := d) (s := ⟨.afterAttrName, n, some n, .idle, .empty⟩)
        (t := ⟨⟨.beforeAttrValue, n, some n, .idle, .empty⟩, [], false⟩)
        (occursAt_singleton.mp hocc) rfl
      have hbegin := Leads.one (d := d) (s := ⟨.beforeAttrValue, n + 1, some n, .idle, .empty⟩)
        (t := ⟨⟨.inBareValue, n + 1, some (n + 1), .idle, .empty⟩, [], true⟩) hend rfl
      have hlast := Leads.one (d := d)
        (s := ⟨.inBareValue, n + 1, some (n + 1), .idle, .empty⟩)
        (t := ⟨⟨.beforeAttrName, n + 1, none, .idle, .empty⟩,
          [.attribData ⟨n + 1, n + 1⟩, .attribEnd .bare (n + 1)], true⟩) hend rfl
      have hreach := ((hfirst.trans hbegin).trans hlast).reaches AtAttrs.before
      exact ⟨_, hreach, by simp [tokens, Event.token, bytesAt_self]⟩

/-! ## Names -/

/-- The name of an attribute is read again as it is spelled, up to a byte that ends it. -/
theorem name (h : Reread d Stops AtAttrs ts) (hname : Spelled d u m es) (hm : m ≤ u.length)
    (hfree : ∀ t ∈ (tokens u es).head?, isFree t = true)
    (hpiece : render d (tokens u es) = space :: u.take m)
    (hspans : ∀ e ∈ es, ∀ span, e.span? = some span → span.stop ≤ m) :
    Reread d BehindName AtValue (ts ++ tokens u es) := by
  have hlen : ∀ n, n + (space :: u.take m).length = n + 1 + m := by
    intro n
    rw [List.length_cons, List.length_take, Nat.min_eq_left hm]
    omega
  refine h.extend hfree hpiece ?_ ?_
  · intro w n hocc _
    exact Or.inl (occursAt_cons.mp hocc).1
  · intro w n s owed hA hocc hend
    obtain ⟨hspace, hbytes⟩ := occursAt_cons.mp hocc
    have hsame := same_of_occursAt hm hbytes
    rw [hlen] at hend ⊢
    refine ⟨es.map (Event.shift (n + 1)), ?_, tokens_shift hspans hsame⟩
    have hpath := (reaches_space (d := d) hA hspace).leads fun s' owed' h' =>
      hname w (n + 1) s' owed' h' hsame hend
    have hreach := hpath.reaches AtValue.value
    rwa [List.append_nil] at hreach

/-! ## Text and interpolations -/

/-- Text with its interpolations is read again in front of a tag. -/
theorem content {i j : Nat} (h : Reread d Anywhere AtFresh ts)
    (hpath : Portable d u (fun _ => AtFresh) (j + 1) es ⟨.text, j, some i, .idle, .empty⟩)
    (hu : u[j]? = some Byte.tagOpen) (hlaid : Laid d u j (es ++ textBetween i j))
    (hes : ∀ e ∈ es ++ textBetween i j, isContent e = true)
    (hspans : ∀ e ∈ es ++ textBetween i j, ∀ span, e.span? = some span → span.stop ≤ j) :
    Reread d BeforeTag AtText (ts ++ tokens u (es ++ textBetween i j)) := by
  have hj : j ≤ u.length := Nat.le_of_lt (List.getElem?_eq_some_iff.mp hu).1
  have hlen : (u.take j).length = j := by rw [List.length_take, Nat.min_eq_left hj]
  refine h.extend ?_ (render_of_laid hlaid hes) (fun _ _ _ _ => trivial) ?_
  · exact free_of_content hes
  · intro w n s owed hA hocc htag
    rw [hlen] at htag ⊢
    have hfirst := same_of_occursAt hj hocc
    -- The byte behind is read too: a comparison that fails there hands it over to the text.
    have hsame : ∀ q < j + 1, w[n + q]? = u[q]? := by
      intro q hq
      by_cases hqj : q = j
      · subst hqj
        rw [hu]
        exact htag
      · exact hfirst q (by omega)
    refine ⟨(es ++ textBetween i j).map (Event.shift n), ?_, tokens_shift hspans hfirst⟩
    have hreach := (hpath w n s owed hA hsame).reaches
      (AtText.pending (n := j + n) (i := i + n))
    rw [← textBetween_shift, List.append_assoc, ← List.map_append, Nat.add_comm j] at hreach
    exact hreach

end Reread

end Rendering

end TemplateLexer
