import TemplateLexer.Proofs.Report.Objects
import TemplateLexer.Proofs.Safety
import TemplateLexer.Proofs.Shape

/-!
# A report tells the events

No two lists of events are shown alike. An event is made of its kind, of the place where it stands
and of a mark that says more of it: what is wrong, how a value was written, or which shorthand
announces a directive (`Event.ofParts_parts`). The kind has a column of its own, the offsets tell
the place (`Place.render_inj`), and the detail tells the mark, because the text that a shorthand
covers is its sigil (`Mark.detail_inj`). The texts themselves are not needed, so nothing that a
template holds can be taken for another column or another line.
-/

set_option autoImplicit false

namespace TemplateLexer

open Report

/-! ## The parts of an event -/

/-- Where an event stands. -/
inductive Place where
  | nowhere
  | point (offset : Nat)
  | range (span : Span)
  deriving DecidableEq

/-- What an event says apart from its kind and its place. -/
inductive Mark where
  | code (code : ErrorCode)
  | quote (quote : Quote)
  | shorthand (shorthand : Shorthand)
  deriving DecidableEq

namespace Event

/-- The place where an event stands. -/
def place : Event → Place
  | .text s | .interpolation s | .openTagName s | .closeTag s | .attribName s | .attribData s
  | .dirName s _ | .dirArg s | .dirDynamicArg s | .dirModifier s => .range s
  | .openTagEnd n | .selfClosingTag n | .attribNameEnd n | .attribEnd _ n | .error _ n => .point n
  | .endOfInput => .nowhere

/-- The mark that says more of an event than its kind, if it has one. -/
def mark? : Event → Option Mark
  | .attribEnd quote _ => some (.quote quote)
  | .error code _ => some (.code code)
  | .dirName _ (some shorthand) => some (.shorthand shorthand)
  | _ => none

/-- The event of a kind at a place, with a mark. -/
def ofParts (kind : String) (place : Place) (mark : Option Mark) : Event :=
  match kind, place, mark with
  | "text", .range s, _ => .text s
  | "interpolation", .range s, _ => .interpolation s
  | "open-tag-name", .range s, _ => .openTagName s
  | "open-tag-end", .point n, _ => .openTagEnd n
  | "self-closing-tag", .point n, _ => .selfClosingTag n
  | "close-tag", .range s, _ => .closeTag s
  | "attrib-name", .range s, _ => .attribName s
  | "attrib-name-end", .point n, _ => .attribNameEnd n
  | "attrib-data", .range s, _ => .attribData s
  | "attrib-end", .point n, some (.quote quote) => .attribEnd quote n
  | "dir-name", .range s, some (.shorthand shorthand) => .dirName s (some shorthand)
  | "dir-name", .range s, _ => .dirName s none
  | "dir-arg", .range s, _ => .dirArg s
  | "dir-dynamic-arg", .range s, _ => .dirDynamicArg s
  | "dir-modifier", .range s, _ => .dirModifier s
  | "error", .point n, some (.code code) => .error code n
  | _, _, _ => .endOfInput

/-- An event is made of its parts. -/
theorem ofParts_parts (e : Event) : ofParts e.kind e.place e.mark? = e := by
  cases e with
  | dirName span shorthand => cases shorthand <;> rfl
  | _ => rfl

end Event

/-! ## Offsets tell the place -/

namespace Place

/-- The offsets of a place as they are written. -/
def render : Place → String
  | nowhere => ""
  | .point n => "@" ++ toString n
  | .range s => s.render

/-- A single place is written with its sign. -/
theorem mem_render_point (n : Nat) : '@' ∈ (Place.point n).render.toList := by
  simp [render]

/-- A range is written without the sign of a single place. -/
theorem not_mem_render_range (s : Span) : '@' ∉ (Place.range s).render.toList := by
  have hdigits : ∀ n : Nat, '@' ∉ (toString n).toList := fun n => not_mem_number (by decide)
  simp only [render, Span.render, String.toList_append, List.mem_append, not_or]
  exact ⟨⟨hdigits s.start, by decide⟩, hdigits s.stop⟩

/-- A range is written with dots. -/
theorem mem_render_range (s : Span) : '.' ∈ (Place.range s).render.toList := by
  simp [render, Span.render]

/-- A range is told by its offsets. -/
theorem render_range_inj {s t : Span} (h : (Place.range s).render = (Place.range t).render) :
    s = t := by
  have hdots : "..".toList = ['.', '.'] := rfl
  have hlist := congrArg String.toList h
  simp only [render, Span.render, String.toList_append, List.append_assoc, hdots,
    List.cons_append] at hlist
  obtain ⟨hstart, hrest⟩ :=
    number_inj (endsWord_cons (by decide)) (endsWord_cons (by decide)) hlist
  simp only [List.cons.injEq, true_and, List.nil_append] at hrest
  obtain ⟨start, stop⟩ := s
  obtain ⟨start', stop'⟩ := t
  exact congrArg₂ Span.mk hstart (eq_of_number_eq hrest)

/-- A single place is told by its offset. -/
theorem render_point_inj {m n : Nat} (h : (Place.point m).render = (Place.point n).render) :
    m = n := by
  have hlist := congrArg String.toList h
  simp only [render, String.toList_append] at hlist
  exact eq_of_number_eq (List.append_cancel_left hlist)

/-- A place is told by the offsets that are shown of it. -/
theorem render_inj {a b : Place} (h : a.render = b.render) : a = b := by
  have hrange := mem_render_range
  have hpoint := mem_render_point
  have hnot := not_mem_render_range
  cases a with
  | nowhere =>
    cases b with
    | nowhere => rfl
    | point n => cases h ▸ hpoint n
    | range t => cases h ▸ hrange t
  | point m =>
    cases b with
    | nowhere => cases h ▸ hpoint m
    | point n => rw [render_point_inj h]
    | range t => exact absurd (h ▸ hpoint m) (hnot t)
  | range s =>
    cases b with
    | nowhere => cases h ▸ hrange s
    | point n => exact absurd (h ▸ hpoint n) (hnot s)
    | range t => rw [render_range_inj h]

end Place

/-- The offsets of an event are those of its place. -/
theorem offsets_ofEvent (template : String) (e : Event) :
    offsets (Record.ofEvent template e) = e.place.render := by
  cases e <;> rfl

/-! ## The detail tells the mark -/

/-- The sigil of a shorthand as a text. -/
def Shorthand.written : Shorthand → String
  | bind => ":"
  | on => "@"
  | slot => "#"
  | prop => "."

/-- The text of a sigil is its byte. -/
theorem Shorthand.utf8Bytes_written (s : Shorthand) : utf8Bytes s.written = [s.sigil] := by
  cases s <;> decide

namespace Mark

/-- The detail of an event with a mark. -/
def detail : Mark → String
  | code c => c.name
  | quote q => q.name
  | shorthand s => Quoted.quote s.written ++ " (" ++ s.directive ++ ")"

/-- All marks there are. -/
def all : List Mark :=
  [code .eofInTag, code .missingInterpolationEnd, code .missingDynamicArgumentEnd, quote .absent,
    quote .bare, quote .single, quote .double, shorthand .bind, shorthand .on, shorthand .slot,
    shorthand .prop]

/-- The listing of the marks leaves none out. -/
theorem mem_all (m : Mark) : m ∈ all := by
  cases m with
  | code c => cases c <;> decide
  | quote q => cases q <;> decide
  | shorthand s => cases s <;> decide

/-- A mark is told by the detail that is shown of it. -/
theorem detail_inj {m m' : Mark} (h : m.detail = m'.detail) : m = m' := by
  have hall : ∀ m ∈ all, ∀ m' ∈ all, m.detail = m'.detail → m = m' := by decide +kernel
  exact hall m (mem_all m) m' (mem_all m') h

/-- No mark shows a detail that an event without one can have. -/
theorem detail_ne_plain (m : Mark) : m.detail ≠ "" ∧ m.detail.toList.getLast? ≠ some '"' := by
  have hall : ∀ m ∈ all, m.detail ≠ "" ∧ m.detail.toList.getLast? ≠ some '"' := by decide +kernel
  exact hall m (mem_all m)

end Mark

variable {t t' : String} {e e' : Event}

/-- An event that can be shown: its text can be cut out, and a sigil is where one is announced. -/
structure Event.Evident (template : String) (e : Event) : Prop where
  fits : e.Fits template
  shaped : e.Shaped (utf8Bytes template)

/-- Every event of a template is evident in it: a shorthand stands where its sigil does. -/
theorem evident_of_mem {o : Options} {rawText : Bool}
    (h : e ∈ (o.dialect rawText).events t) : e.Evident t := by
  have hshaped : ∀ e ∈ (o.dialect rawText).events t, e.Shaped (utf8Bytes t) :=
    (lexemes_events o rawText t).forall_mem (fun _ he => he.shaped) (fun _ _ _ _ _ => trivial)
      (fun _ _ _ => trivial)
  exact ⟨fits_of_mem h, hshaped e h⟩

/-- The text that a shorthand covers is its sigil. -/
theorem slice_of_shorthand {span : Span} {s : Shorthand}
    (h : Event.Evident t (.dirName span (some s))) : span.slice t = .ok s.written := by
  have hfits : span.Fits t := h.fits
  obtain ⟨part, hpart⟩ := (Span.slice_isOk_iff span t).mpr ⟨hfits.le, hfits.start, hfits.stop⟩
  have hbytes : utf8Bytes part = utf8Bytes s.written := by
    rw [Span.utf8Bytes_of_slice hpart, s.utf8Bytes_written]
    exact h.shaped
  rw [hpart, eq_of_utf8Bytes_eq hbytes]

/-- The detail of an event with a mark is that of the mark. -/
theorem detail_of_mark {m : Mark} (h : e.Evident t) (hm : e.mark? = some m) :
    detail (Record.ofEvent t e) = m.detail := by
  cases e with
  | attribEnd quote offset =>
    cases hm
    rfl
  | error code offset =>
    cases hm
    rfl
  | dirName span shorthand =>
    cases shorthand with
    | none => cases hm
    | some s =>
      cases hm
      have htext : (Record.ofEvent t (.dirName span (some s))).text = some s.written := by
        simp [Record.ofEvent, Event.text?, Event.span?, slice_of_shorthand h, Except.map,
          Except.toOption]
      have hne : s.directive ≠ s.written := by cases s <;> decide
      unfold detail
      rw [htext]
      exact if_neg hne
  | _ => cases hm

example : detail (Record.ofEvent "<a .b>" (.dirName ⟨3, 4⟩ (some .prop))) = "\".\" (v-bind)" := by
  decide +kernel

/-- The detail of an event without a mark is absent or ends with a quotation mark. -/
theorem detail_of_no_mark (t : String) (hm : e.mark? = none) :
    detail (Record.ofEvent t e) = "" ∨
      (detail (Record.ofEvent t e)).toList.getLast? = some '"' := by
  have hquoted : ∀ text, (Quoted.quote text).toList.getLast? = some '"' := by
    intro text
    rw [Quoted.quote, String.toList_ofList, List.getLast?_concat]
  have hplain : detail (Record.ofEvent t e) = "" ∨
      ∃ text, detail (Record.ofEvent t e) = Quoted.quote text := by
    cases e with
    | attribEnd quote offset => cases hm
    | error code offset => cases hm
    | dirName span shorthand =>
      cases shorthand with
      | none => exact detail_of_text rfl rfl (.inr rfl)
      | some s => cases hm
    | _ => exact detail_of_text rfl rfl (.inl rfl)
  rcases hplain with h | ⟨text, h⟩
  · exact .inl h
  · exact .inr (h ▸ hquoted text)

/-- Whether an event has a mark shows in its detail. -/
theorem detail_ne_of_no_mark {m : Mark} (t : String) (hm : e.mark? = none) (h' : e'.Evident t')
    (hm' : e'.mark? = some m) : detail (Record.ofEvent t e) ≠ detail (Record.ofEvent t' e') := by
  rw [detail_of_mark h' hm']
  intro heq
  rcases detail_of_no_mark t hm with hempty | hquoted
  · exact m.detail_ne_plain.1 (heq ▸ hempty)
  · exact m.detail_ne_plain.2 (heq ▸ hquoted)

/-- The detail that is shown of an event tells its mark. -/
theorem mark_eq (h : e.Evident t) (h' : e'.Evident t')
    (hdetail : detail (Record.ofEvent t e) = detail (Record.ofEvent t' e')) :
    e.mark? = e'.mark? := by
  cases hm : e.mark? with
  | none =>
    cases hm' : e'.mark? with
    | none => rfl
    | some m' => exact absurd hdetail (detail_ne_of_no_mark t hm h' hm')
  | some m =>
    cases hm' : e'.mark? with
    | none => exact absurd hdetail.symm (detail_ne_of_no_mark t' hm' h hm)
    | some m' =>
      rw [detail_of_mark h hm, detail_of_mark h' hm'] at hdetail
      rw [Mark.detail_inj hdetail]

/-- Events that are shown with the same kind, the same offsets and the same detail are equal. -/
theorem eq_of_columns (h : e.Evident t) (h' : e'.Evident t')
    (hkind : (Record.ofEvent t e).kind = (Record.ofEvent t' e').kind)
    (hoffsets : offsets (Record.ofEvent t e) = offsets (Record.ofEvent t' e'))
    (hdetail : detail (Record.ofEvent t e) = detail (Record.ofEvent t' e')) : e = e' := by
  rw [kind_ofEvent, kind_ofEvent] at hkind
  rw [offsets_ofEvent, offsets_ofEvent] at hoffsets
  rw [← e.ofParts_parts, ← e'.ofParts_parts, hkind, Place.render_inj hoffsets,
    mark_eq h h' hdetail]

namespace Command

/-! ## Lines of either format -/

/-- An event is shown on a single line. -/
theorem Format.newline_not_mem_line (f : Format) (t : String) (n : Nat) (e : Event) :
    '\n' ∉ (f.line t n e).toList := by
  cases f with
  | text => exact Report.newline_not_mem_line (columnar_ofEvent t e) n
  | json => exact Report.Json.newline_not_mem_line _

/-- An event is told by its line. -/
theorem Format.line_inj {f : Format} {n : Nat} (h : e.Evident t) (h' : e'.Evident t')
    (hline : f.line t n e = f.line t' n e') : e = e' := by
  cases f with
  | text =>
    obtain ⟨hkind, hoffsets, hdetail⟩ :=
      columns_inj (columnar_ofEvent t e) (columnar_ofEvent t' e') hline
    exact eq_of_columns h h' hkind hoffsets hdetail
  | json =>
    have hrecord := Report.Json.line_inj hline
    exact eq_of_columns h h' (by rw [hrecord]) (by rw [hrecord]) (by rw [hrecord])

/-- The line with a number is that of the event with the same number. -/
theorem Format.getElem?_lines (f : Format) (t : String) (es : Array Event) (k : Nat) :
    (f.lines t es)[k]? = es[k]?.map (f.line t k) := by
  simp [Format.lines, Function.comp_def]

/-- All lines are single ones. -/
theorem Format.newline_not_mem_lines (f : Format) (t : String) (es : Array Event) :
    ∀ line ∈ f.lines t es, '\n' ∉ line.toList := by
  intro line hline
  simp only [Format.lines, List.mem_map] at hline
  obtain ⟨⟨e, n⟩, -, rfl⟩ := hline
  exact f.newline_not_mem_line t n e

/-- Events are told by their lines. -/
theorem Format.lines_inj {f : Format} {es es' : Array Event} (h : ∀ e ∈ es, e.Evident t)
    (h' : ∀ e ∈ es', e.Evident t') (hlines : f.lines t es = f.lines t' es') : es = es' := by
  apply Array.ext_getElem?
  intro k
  have hline := congrArg (·[k]?) hlines
  simp only [Format.getElem?_lines] at hline
  cases he : es[k]? with
  | none =>
    cases he' : es'[k]? with
    | none => rfl
    | some e' => simp [he, he'] at hline
  | some e =>
    cases he' : es'[k]? with
    | none => simp [he, he'] at hline
    | some e' =>
      simp only [he, he', Option.map_some, Option.some.injEq] at hline
      have hmem := h e (Array.mem_of_getElem? he)
      have hmem' := h' e' (Array.mem_of_getElem? he')
      rw [Format.line_inj hmem hmem' hline]

/-! ## Runs -/

variable {inputs inputs' : Inputs} {arguments arguments' : List String} {r r' : Request}

/-- What there is to read without any file, with a text on the standard input. -/
def Inputs.piped (text : String) : Inputs :=
  ⟨fun _ => .error .notFound, .ok text.toByteArray⟩

/-- Arguments that ask for events lead to the run of the request. -/
theorem run_of_accepted (h : Invocation.ofArguments arguments = .ok (.events r)) :
    run inputs arguments = r.run inputs := by
  rw [run, h]
  rfl

/-- A run succeeds only by showing the events of its template. -/
theorem exists_present (h : (r.run inputs).exitCode = 0) :
    ∃ template o, r.prepare inputs = .ok (template, o) ∧
      r.run inputs = r.present template o := by
  unfold Request.run at h ⊢
  cases hprepare : r.prepare inputs with
  | error e =>
    rw [hprepare] at h
    cases h
  | ok p => exact ⟨p.1, p.2, rfl, rfl⟩

/-- Every event that is found is evident in its template. -/
theorem evident_of_mem_tokenize {o : Options} (h : e ∈ tokenize o t) : e.Evident t := by
  rw [tokenize_eq, List.mem_toArray] at h
  exact evident_of_mem h

/-- What is shown of events tells them. -/
theorem tokenize_eq_of_stdout_eq {o o' : Options} (hformat : r.format = r'.format)
    (h : (r.present t o).stdout = (r'.present t' o').stdout) : tokenize o t = tokenize o' t' := by
  have hread := congrArg linesOf h
  simp only [Request.present] at hread
  rw [linesOf_unlines (Format.newline_not_mem_lines _ _ _),
    linesOf_unlines (Format.newline_not_mem_lines _ _ _), hformat] at hread
  exact Format.lines_inj (fun _ => evident_of_mem_tokenize) (fun _ => evident_of_mem_tokenize) hread

/-- Two successful runs in the same format that show the same have found the same events, whatever
the templates and the options. -/
theorem events_eq_of_stdout_eq
    (hr : Invocation.ofArguments arguments = .ok (.events r))
    (hr' : Invocation.ofArguments arguments' = .ok (.events r')) (hformat : r.format = r'.format)
    (hzero : (run inputs arguments).exitCode = 0) (hzero' : (run inputs' arguments').exitCode = 0)
    (hstdout : (run inputs arguments).stdout = (run inputs' arguments').stdout) :
    ∃ template o template' o', r.prepare inputs = .ok (template, o) ∧
      r'.prepare inputs' = .ok (template', o') ∧ tokenize o template = tokenize o' template' := by
  rw [run_of_accepted hr] at hzero hstdout
  rw [run_of_accepted hr'] at hzero' hstdout
  obtain ⟨template, o, hprepare, hpresent⟩ := exists_present hzero
  obtain ⟨template', o', hprepare', hpresent'⟩ := exists_present hzero'
  rw [hpresent, hpresent'] at hstdout
  exact ⟨template, o, template', o', hprepare, hprepare', tokenize_eq_of_stdout_eq hformat hstdout⟩

/-- The two templates differ in white space that a closing tag skips, and only one of them is read
with markers. -/
theorem events_eq_of_stdout_eq_piped :
    Invocation.ofArguments ["--template=<a>x</a >", "--stats"] =
        .ok (.events ⟨.inline "<a>x</a >", [], false, .text, true⟩) ∧
      Invocation.ofArguments ["--v-pre"] = .ok (.events ⟨.stdin, [], true, .text, false⟩) ∧
      (run (.piped "<a>x</a\t>") ["--template=<a>x</a >", "--stats"]).stdout =
        (run (.piped "<a>x</a\t>") ["--v-pre"]).stdout ∧
      ∃ template o template' o',
        Request.prepare (.piped "<a>x</a\t>") ⟨.inline "<a>x</a >", [], false, .text, true⟩ =
            .ok (template, o) ∧
          Request.prepare (.piped "<a>x</a\t>") ⟨.stdin, [], true, .text, false⟩ =
            .ok (template', o') ∧
          tokenize o template = tokenize o' template' := by
  have htyped : Invocation.ofArguments ["--template=<a>x</a >", "--stats"] =
      .ok (.events ⟨.inline "<a>x</a >", [], false, .text, true⟩) := by
    simp [Invocation.ofArguments, readArguments, Argument.ofString, splitAtEquals, Flag.ofLong?,
      Draft.set, Draft.turnOn, Draft.finish]
  have hpiped : Invocation.ofArguments ["--v-pre"] =
      .ok (.events ⟨.stdin, [], true, .text, false⟩) := by
    simp [Invocation.ofArguments, readArguments, Argument.ofString, splitAtEquals, Flag.ofLong?,
      Draft.turnOn, Draft.finish]
  have hzero : (run (.piped "<a>x</a\t>") ["--template=<a>x</a >", "--stats"]).exitCode = 0 := by
    rw [run_of_accepted htyped]
    decide +kernel
  have hzero' : (run (.piped "<a>x</a\t>") ["--v-pre"]).exitCode = 0 := by
    rw [run_of_accepted hpiped]
    decide +kernel
  have hstdout : (run (.piped "<a>x</a\t>") ["--template=<a>x</a >", "--stats"]).stdout =
      (run (.piped "<a>x</a\t>") ["--v-pre"]).stdout := by
    rw [run_of_accepted htyped, run_of_accepted hpiped]
    decide +kernel
  exact ⟨htyped, hpiped, hstdout,
    events_eq_of_stdout_eq htyped hpiped rfl hzero hzero' hstdout⟩

end Command

end TemplateLexer
