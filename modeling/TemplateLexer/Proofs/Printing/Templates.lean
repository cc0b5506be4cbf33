import TemplateLexer.Proofs.Layout.Progress
import TemplateLexer.Proofs.Printing.Attributes

/-!
# Reading printed templates

What is read of a printed template is what was printed (`events_of_printed`). Each item is read from
the text mode back to it. A text is reported when the next item begins, or at the end; until then it
could not be told from another text behind it, so the items must be apart.
-/

set_option autoImplicit false

namespace TemplateLexer.Printing

open Scan Layout Marker Printed

variable {d : Dialect} {w : List UInt8} {i n : Nat} {c : UInt8} {s : Scan} {owed : List Event}

/-! ## Tags -/

/-- A scan in front of an item, with the text that it still has to report. -/
inductive AtText (n : Nat) : Scan → List Event → Prop
  | pending {i : Nat} : AtText n ⟨.text, n, some i, .idle, .empty⟩ (textBetween i n)

/-- A scan in front of an item, behind one that is no text. -/
inductive AtFresh (n : Nat) : Scan → List Event → Prop
  | fresh : AtFresh n ⟨.text, n, some n, .idle, .empty⟩ []

/-- Behind a tag there is a text of which nothing has been read. -/
theorem AtFresh.atText (h : AtFresh n s owed) : AtText n s owed := by
  cases h
  have hself : textBetween n n = [] := if_neg (Nat.lt_irrefl n)
  rw [← hself]
  exact .pending

/-- The opening of a tag reports the text in front of it. -/
theorem leads_tagOpen (hraw : d.rawText = false) (h : AtText n s owed)
    (hw : w[n]? = some Byte.tagOpen) :
    Leads d w s owed ⟨.beforeTagName, n + 1, some n, .idle, .empty⟩ := by
  cases h with
  | @pending i =>
    have hturn : turn d ⟨.text, n, some i, .idle, .empty⟩ Byte.tagOpen w[n + 1]? =
        ⟨⟨.beforeTagName, n, some n, .idle, .empty⟩, textBetween i n, false⟩ := by
      simp only [turn, readText, hraw, and_self, if_true]
      rfl
    exact .one hw hturn

/-- A printed closing tag is found, and text begins behind it. -/
theorem reaches_closeTag (hraw : d.rawText = false) {name : TagWord} (h : AtText n s owed)
    (hocc : OccursAt (Byte.tagOpen :: Byte.slash :: (name.bytes ++ [Byte.tagEnd])) w n) :
    Reaches d w (AtFresh (n + 2 + name.bytes.length + 1)) s
      (owed ++ [.closeTag ⟨n + 2, n + 2 + name.bytes.length⟩]) := by
  obtain ⟨hopen, hocc⟩ := occursAt_cons.mp hocc
  obtain ⟨hslash, hocc⟩ := occursAt_cons.mp hocc
  obtain ⟨hname, hend⟩ := occursAt_append.mp hocc
  obtain ⟨hletter, hrest⟩ := occursAt_cons.mp hname
  have hend := occursAt_singleton.mp hend
  have hfirst := leads_tagOpen hraw h hopen
  have hbar := Leads.one (d := d) (s := ⟨.beforeTagName, n + 1, some n, .idle, .empty⟩)
    (t := ⟨⟨.beforeClosingTagName, n + 1, some n, .idle, .empty⟩, [], false⟩) hslash rfl
  have hturn : turn d ⟨.beforeClosingTagName, n + 2, some n, .idle, .empty⟩ name.letter
      w[n + 2 + 1]? = ⟨⟨.inClosingTagName, n + 2, some (n + 2), .idle, .empty⟩, [], false⟩ := by
    simp only [turn, readBeforeClosingTagName, if_pos name.isTagStart]
    rfl
  have hstart := Leads.one hletter hturn
  have hrow : Leads d w ⟨.inClosingTagName, n + 2 + 1, some (n + 2), .idle, .empty⟩ []
      ⟨.inClosingTagName, n + 2 + 1 + name.rest.bytes.length, some (n + 2), .idle, .empty⟩ :=
    leads_row hrest name.rest.of_mem
  have hlen : n + 2 + 1 + name.rest.bytes.length = n + 2 + name.bytes.length := by
    simp only [TagWord.bytes, List.length_cons]
    omega
  rw [hlen] at hrow
  have hreport := Leads.one (d := d)
    (s := ⟨.inClosingTagName, n + 2 + name.bytes.length, some (n + 2), .idle, .empty⟩)
    (t := ⟨⟨.afterClosingTagName, n + 2 + name.bytes.length, none, .idle, .empty⟩,
      [.closeTag ⟨n + 2, n + 2 + name.bytes.length⟩], true⟩) hend rfl
  have hlast := Leads.one (d := d)
    (s := ⟨.afterClosingTagName, n + 2 + name.bytes.length, none, .idle, .empty⟩)
    (t := ⟨⟨.text, n + 2 + name.bytes.length, some (n + 2 + name.bytes.length + 1), .idle, .empty⟩,
      [], false⟩) hend rfl
  have hreach := (((((hfirst.trans hbar).trans hstart).trans hrow).trans hreport).trans
    hlast).reaches AtFresh.fresh
  simpa using hreach

/-- The name of an opening tag is read up to the byte behind it. -/
theorem reaches_tagName (hraw : d.rawText = false) {name : TagWord} (h : AtText n s owed)
    (hopen : w[n]? = some Byte.tagOpen) (hocc : OccursAt name.bytes w (n + 1))
    (hstop : Stops w (n + 1 + name.bytes.length)) :
    Reaches d w (AtAttrs (n + 1 + name.bytes.length)) s
      (owed ++ [.openTagName ⟨n + 1, n + 1 + name.bytes.length⟩]) := by
  obtain ⟨hletter, hrest⟩ := occursAt_cons.mp hocc
  have hfirst := leads_tagOpen hraw h hopen
  have hclass : name.letter ≠ Byte.bang ∧ name.letter ≠ Byte.question ∧
      name.letter ≠ Byte.slash := by
    have hstart := name.isTagStart
    refine ⟨?_, ?_, ?_⟩ <;> intro heq <;> rw [heq] at hstart <;> cases hstart
  have hturn : turn d ⟨.beforeTagName, n + 1, some n, .idle, .empty⟩ name.letter w[n + 1 + 1]? =
      ⟨⟨.inTagName, n + 1, some (n + 1), .idle, .empty⟩, [], false⟩ := by
    simp [turn, readBeforeTagName, hclass, name.isTagStart, enter, since]
  have hstart := Leads.one hletter hturn
  have hrow : Leads d w ⟨.inTagName, n + 1 + 1, some (n + 1), .idle, .empty⟩ []
      ⟨.inTagName, n + 1 + 1 + name.rest.bytes.length, some (n + 1), .idle, .empty⟩ :=
    leads_row hrest name.rest.of_mem
  have hlen : n + 1 + 1 + name.rest.bytes.length = n + 1 + name.bytes.length := by
    simp only [TagWord.bytes, List.length_cons]
    omega
  rw [hlen] at hrow
  obtain ⟨c, hw, hc⟩ := hstop.exists_byte
  have hend : turn d ⟨.inTagName, n + 1 + name.bytes.length, some (n + 1), .idle, .empty⟩ c
      w[n + 1 + name.bytes.length + 1]? =
        ⟨⟨.beforeAttrName, n + 1 + name.bytes.length, none, .idle, .empty⟩,
          [.openTagName ⟨n + 1, n + 1 + name.bytes.length⟩], true⟩ := by
    simp only [turn, readInTagName, if_pos (ends_of_stop hc).1]
    rfl
  have hpath := ((hfirst.trans hstart).trans hrow).trans (Leads.one hw hend)
  have hreach := hpath.reaches AtAttrs.before
  simpa using hreach

/-- The printed end of an opening tag is found, and text begins behind it. -/
theorem reaches_tagStop {stop : TagStop} (h : AtAttrs n s owed)
    (hocc : OccursAt (bytes stop) w n) :
    Reaches d w (AtFresh (n + (bytes stop).length)) s (owed ++ events stop n) := by
  cases stop with
  | openTag =>
    have hpath := leads_tagEnd (d := d) h (occursAt_singleton.mp hocc)
    have hreach := hpath.reaches AtFresh.fresh
    rw [List.append_nil] at hreach
    exact hreach
  | selfClosing =>
    obtain ⟨hspace, hocc⟩ := occursAt_cons.mp hocc
    obtain ⟨hslash, hocc⟩ := occursAt_cons.mp hocc
    have hend := occursAt_singleton.mp hocc
    have hlast := Leads.one (d := d) (s := ⟨.inSelfClosingTag, n + 2, none, .idle, .empty⟩)
      (t := ⟨⟨.text, n + 2, some (n + 3), .idle, .empty⟩, [.selfClosingTag (n + 2)], false⟩)
      hend rfl
    have hpath := (reaches_space (d := d) h hspace).leads
      fun s' owed' h' => (leads_slash h' hslash).trans hlast
    have hreach := hpath.reaches AtFresh.fresh
    rw [List.append_nil] at hreach
    exact hreach

/-! ## Texts and interpolations -/

variable {ds : Delimiters}

/-- The dialect of the templates that are printed. -/
def dialect (ds : Delimiters) : Dialect :=
  Options.dialect ⟨ds, false⟩ false

/-- Only the character `<` is encoded with that byte in front. -/
theorem head?_utf8EncodeChar_ne {ch : Char} (h : ch ≠ '<') :
    (String.utf8EncodeChar ch).head? ≠ some Byte.tagOpen := by
  have hval : ch.val.toNat ≠ 60 := by
    intro heq
    apply h
    apply Char.ext
    exact UInt32.toNat_inj.mp heq
  have htag : Byte.tagOpen.toNat = 60 := rfl
  intro heq
  simp only [String.utf8EncodeChar] at heq
  generalize ch.val.toNat = v at heq hval
  -- The first byte of a longer encoding is at least `0xC0`.
  repeat' split at heq
  all_goals
    have hnat := congrArg UInt8.toNat (Option.some.inj heq)
    rw [UInt8.toNat_ofNat', htag] at hnat
    omega

/-- A text that does not begin with a less-than sign does not begin with its byte. -/
theorem head?_utf8Bytes_ne {t : String} (h : t.toList.head? ≠ some '<') :
    (utf8Bytes t).head? ≠ some Byte.tagOpen := by
  rw [utf8Bytes_eq_flatMap]
  cases hlist : t.toList with
  | nil => simp
  | cons ch rest =>
    have hne : ch ≠ '<' := by
      rintro rfl
      rw [hlist] at h
      exact h rfl
    have hlen : 0 < (String.utf8EncodeChar ch).length := by
      rw [String.length_utf8EncodeChar]
      exact ch.utf8Size_pos
    rw [List.flatMap_cons, List.head?_append_of_ne_nil _ (List.ne_nil_of_length_pos hlen)]
    exact head?_utf8EncodeChar_ne hne

/-- A printed interpolation is found, and text begins behind it. -/
theorem reaches_interpolation {row : Row (inInterpolation ds)} (h : AtText n s owed)
    (hocc : OccursAt (utf8Bytes ds.opening ++ (row.bytes ++ utf8Bytes ds.closing)) w n) :
    Reaches (dialect ds) w (AtFresh (n + (utf8Bytes ds.opening).length + row.bytes.length +
        (utf8Bytes ds.closing).length)) s
      (owed ++ [.interpolation ⟨n + (utf8Bytes ds.opening).length,
        n + (utf8Bytes ds.opening).length + row.bytes.length⟩]) := by
  obtain ⟨hopen, hocc⟩ := occursAt_append.mp hocc
  obtain ⟨hinner, hclose⟩ := occursAt_append.mp hocc
  have hseeks : ∀ c, (dialect ds).opening.head? = some c → (dialect ds).Seeks c .opening := by
    intro c hc
    refine ⟨rfl, fun htag => head?_utf8Bytes_ne ds.opening_not_tag ?_⟩
    rw [← htag.1]
    exact hc
  have hrest : Leads (dialect ds) w
      ⟨.interpolation, n + (utf8Bytes ds.opening).length, some n, .idle, .empty⟩ []
      ⟨.interpolation, n + (utf8Bytes ds.opening).length + row.bytes.length, some n, .idle,
        .empty⟩ :=
    leads_row hinner row.of_mem
  cases h with
  | @pending i =>
    have hfirst := leads_opening (d := dialect ds) (i := i) hopen
      (utf8Bytes_ne_nil ds.opening_ne_empty) hseeks
    have hlast := leads_closing (d := dialect ds) (i := n) hclose
      (utf8Bytes_ne_nil ds.closing_ne_empty)
    have hreach := ((hfirst.trans hrest).trans hlast).reaches AtFresh.fresh
    rw [List.append_nil, List.append_nil] at hreach
    exact hreach

/-! ## Templates -/

/-- A scan in front of a row of items. Behind a text there cannot be another one. -/
structure AtItems (items : List (Item ds)) (n : Nat) (s : Scan) (owed : List Event) : Prop where
  atText : AtText n s owed
  fresh : ∀ x ∈ items.head?, x.isText = true → AtFresh n s owed

/-- Behind a tag or an interpolation any items can follow. -/
theorem AtFresh.atItems {items : List (Item ds)} (h : AtFresh n s owed) : AtItems items n s owed :=
  ⟨h.atText, fun _ _ _ => h⟩

/-- A printed text is under way behind it, and must not be followed by another one. -/
theorem reaches_text {row : Row (inText ds)} {ne : row.bytes ≠ []} {rest : List (Item ds)}
    (hapart : (Item.text row ne :: rest).IsChain Item.Apart) (h : AtFresh n s owed)
    (hocc : OccursAt row.bytes w n) :
    Reaches (dialect ds) w (AtItems rest (n + row.bytes.length)) s
      (owed ++ [.text ⟨n, n + row.bytes.length⟩]) := by
  have hpos := List.length_pos_iff.mpr ne
  have hbetween : textBetween n (n + row.bytes.length) = [.text ⟨n, n + row.bytes.length⟩] :=
    if_pos (by omega)
  cases h with
  | fresh =>
    have hrow : Leads (dialect ds) w ⟨.text, n, some n, .idle, .empty⟩ []
        ⟨.text, n + row.bytes.length, some n, .idle, .empty⟩ :=
      leads_row hocc row.of_mem
    rw [← hbetween]
    apply hrow.reaches
    refine ⟨.pending, fun x hx htext => ?_⟩
    cases rest with
    | nil => cases hx
    | cons y rest =>
      obtain rfl : y = x := by simpa using hx
      exact ((List.isChain_cons_cons.mp hapart).1 ⟨rfl, htext⟩).elim

/-- A printed opening tag is found with its attributes, and text begins behind it. -/
theorem reaches_openTag {name : TagWord} {attrs : List Attribute} {stop : TagStop}
    (h : AtText n s owed)
    (hocc : OccursAt (Byte.tagOpen :: (name.bytes ++ (bytes attrs ++ bytes stop))) w n) :
    Reaches (dialect ds) w
      (AtFresh (n + 1 + name.bytes.length + (bytes attrs).length + (bytes stop).length)) s
      (owed ++ events (Item.openTag name attrs stop : Item ds) n) := by
  obtain ⟨hopen, hocc⟩ := occursAt_cons.mp hocc
  obtain ⟨hname, hocc⟩ := occursAt_append.mp hocc
  obtain ⟨hattrs, hstop⟩ := occursAt_append.mp hocc
  have hend : Stops w (n + 1 + name.bytes.length + (bytes attrs).length) := by
    cases stop with
    | openTag => exact Or.inr (occursAt_singleton.mp hstop)
    | selfClosing => exact Or.inl (occursAt_cons.mp hstop).1
  have hbegin : Stops w (n + 1 + name.bytes.length) := by
    cases attrs with
    | nil => exact hend
    | cons a attrs => exact Or.inl (occursAt_cons.mp hattrs).1
  have hreach := ((reaches_tagName (d := dialect ds) rfl h hopen hname hbegin).bind
    fun s' owed' h' => reaches_attrs h' hattrs hend).bind
      fun s' owed' h' => reaches_tagStop h' hstop
  rwa [List.append_assoc, List.append_assoc] at hreach

/-- An item is read from the text mode back to it. -/
theorem reaches_item {x : Item ds} {rest : List (Item ds)}
    (hapart : (x :: rest).IsChain Item.Apart) (h : AtItems (x :: rest) n s owed)
    (hocc : OccursAt (bytes x) w n) :
    Reaches (dialect ds) w (AtItems rest (n + (bytes x).length)) s (owed ++ events x n) := by
  cases x with
  | text row ne => exact reaches_text hapart (h.fresh _ rfl rfl) hocc
  | interpolation row =>
    have hreach := reaches_interpolation h.atText hocc
    have hlen : n + (bytes (Item.interpolation row)).length =
        n + (utf8Bytes ds.opening).length + row.bytes.length +
          (utf8Bytes ds.closing).length := by
      simp only [bytes, List.length_append]
      omega
    rw [hlen]
    exact hreach.mono fun _ _ hfresh => hfresh.atItems
  | closeTag name =>
    have hreach := reaches_closeTag (d := dialect ds) rfl h.atText hocc
    have hlen : n + (bytes (Item.closeTag name : Item ds)).length =
        n + 2 + name.bytes.length + 1 := by
      simp only [bytes, List.length_cons, List.length_append, List.length_nil]
      omega
    rw [hlen]
    exact hreach.mono fun _ _ hfresh => hfresh.atItems
  | openTag name attrs stop =>
    have hreach : Reaches (dialect ds) w _ s _ := reaches_openTag h.atText hocc
    have hlen : n + (bytes (Item.openTag name attrs stop : Item ds)).length =
        n + 1 + name.bytes.length + (bytes attrs).length + (bytes stop).length := by
      simp only [bytes, List.length_cons, List.length_append]
      omega
    rw [hlen]
    exact hreach.mono fun _ _ hfresh => hfresh.atItems

/-- Printed items in a row are found one after the other. -/
theorem reaches_items {items : List (Item ds)} (hapart : items.IsChain Item.Apart)
    (h : AtItems items n s owed) (hocc : OccursAt (bytes items) w n) :
    Reaches (dialect ds) w (AtText (n + (bytes items).length)) s (owed ++ events items n) := by
  induction items generalizing n s owed with
  | nil =>
    have hreach := (Leads.refl (d := dialect ds) (w := w) s).reaches h.atText
    rwa [List.nil_append, ← List.append_nil owed] at hreach
  | cons x rest ih =>
    rw [bytes_cons, occursAt_append] at hocc
    rw [add_length_bytes_cons, events_cons, ← List.append_assoc]
    apply (reaches_item hapart h hocc.1).bind
    intro s' owed' h'
    exact ih hapart.tail h' hocc.2

/-- Reading a printed template gives what was printed, and ends in text. -/
theorem events_of_printed (ds : Delimiters) (items : List (Item ds))
    (hapart : items.IsChain Item.Apart) (template : String)
    (hprinted : utf8Bytes template = bytes items) :
    (Options.dialect ⟨ds, false⟩ false).events template = events items 0 ++ [.endOfInput] ∧
      ((Options.dialect ⟨ds, false⟩ false).run template).scan.mode = .text := by
  have hocc : OccursAt (bytes items) (utf8Bytes template) 0 := by
    rw [hprinted]
    exact List.prefix_refl _
  have hstart : AtItems items 0 {} [] := AtFresh.fresh.atItems
  obtain ⟨s', first, owed, hpath, htext, hevents⟩ := reaches_items hapart hstart hocc
  rw [Nat.zero_add, ← hprinted] at htext
  cases htext with
  | @pending i =>
    have hfinish := finish_of_length_le (d := dialect ds) (w := utf8Bytes template)
      (s := ⟨.text, (utf8Bytes template).length, some i, .idle, .empty⟩) (Nat.le_refl _)
    constructor
    · rw [List.nil_append] at hevents
      rw [hevents, List.append_assoc]
      refine hpath.events_eq.trans ?_
      rw [hfinish]
      rfl
    · refine (congrArg Scan.mode hpath.finish_eq.1).trans ?_
      rw [hfinish]
      rfl

/-- The items of `x<a v-on:[e].m :b="c" d='' f=g h />{{y}}</a>z`. -/
def sampleItems : List (Item .braces) :=
  [.text ⟨utf8Bytes "x", rfl⟩ (by decide),
    .openTag ⟨0x61, rfl, [], rfl⟩
      [⟨.long ⟨utf8Bytes "on", rfl⟩ (some (.dynamic ⟨utf8Bytes "e", rfl⟩)) [⟨utf8Bytes "m", rfl⟩],
          .absent⟩,
        ⟨.sigil .bind (.static ⟨utf8Bytes "b", rfl⟩) [], .quoted .double ⟨utf8Bytes "c", rfl⟩⟩,
        ⟨.plain ⟨0x64, ⟨rfl, rfl⟩, ⟨[], rfl⟩, by decide⟩, .quoted .single ⟨[], rfl⟩⟩,
        ⟨.plain ⟨0x66, ⟨rfl, rfl⟩, ⟨[], rfl⟩, by decide⟩,
          .bare ⟨0x67, ⟨rfl, by decide, by decide⟩, ⟨[], rfl⟩⟩⟩,
        ⟨.plain ⟨0x68, ⟨rfl, rfl⟩, ⟨[], rfl⟩, by decide⟩, .absent⟩] .selfClosing,
    .interpolation ⟨utf8Bytes "y", rfl⟩,
    .closeTag ⟨0x61, rfl, [], rfl⟩,
    .text ⟨utf8Bytes "z", rfl⟩ (by decide)]

/-- A template with every kind of item, and attributes of many kinds. -/
def sampleTemplate : String :=
  "x<a v-on:[e].m :b=\"c\" d='' f=g h />\x7b\x7by\x7d\x7d</a>z"

/-- The sample items are printed as the sample template. -/
theorem events_of_printed_sample :
    sampleItems.IsChain Item.Apart ∧ utf8Bytes sampleTemplate = bytes sampleItems ∧
      (Options.dialect ⟨.braces, false⟩ false).events sampleTemplate =
        events sampleItems 0 ++ [.endOfInput] ∧
      ((Options.dialect ⟨.braces, false⟩ false).run sampleTemplate).scan.mode = .text := by
  have hapart : sampleItems.IsChain Item.Apart := by decide
  have hprinted : utf8Bytes sampleTemplate = bytes sampleItems := by decide
  exact ⟨hapart, hprinted, events_of_printed .braces sampleItems hapart sampleTemplate hprinted⟩

end TemplateLexer.Printing
