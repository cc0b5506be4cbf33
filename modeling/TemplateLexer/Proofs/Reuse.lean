import TemplateLexer.Proofs.Concatenation
import TemplateLexer.Session

/-!
# Tokenizers used again

A tokenizer that has been through a series of operations parses a template as a fresh one would:
whatever mode an earlier parse ended in, nothing of its scan is left. Only the raw-text switch and
the sink outlive a parse (`Account`), and the sink receives what a fresh tokenizer finds, without a
part in finding it. So a whole session is told by its account (`account_performAll`), in which every
parse is left to a tokenizer of its own.
-/

set_option autoImplicit false

namespace TemplateLexer

open Concatenation

universe u

/-- What an operation can leave to the next one, apart from the scan: the raw-text switch and the
sink. -/
structure Account (σ : Type u) where
  rawText : Bool
  sink : σ

namespace Account

variable {σ : Type u} [Sink σ]

/-- What an operation does to the account of a tokenizer with these options. A parse is made by a
tokenizer of its own, whose events the sink then receives in order. -/
def perform (o : Options) (a : Account σ) : Operation σ → Account σ
  | .parse template =>
    { a with sink := (parsed o a.rawText template).sink.foldl Sink.emit a.sink }
  | .reset => a
  | .setRawText rawText => { a with rawText := rawText }
  | .editSink f => { a with sink := f a.sink }

/-- What operations make of an account, in order. -/
def performAll (o : Options) (a : Account σ) (operations : List (Operation σ)) : Account σ :=
  operations.foldl (perform o) a

end Account

namespace Tokenizer

variable {σ : Type u}

/-- The account of a tokenizer: its flag and its sink. -/
def account (t : Tokenizer σ) : Account σ :=
  ⟨t.rawText, t.sink⟩

variable [Sink σ]

/-! ## A single operation -/

/-- A parse leaves the scan and the counters of a fresh tokenizer, and hands the events that this
one finds to the sink. -/
theorem parse_eq_parsed (t : Tokenizer σ) (template : String) :
    let fresh := parsed t.options t.rawText template
    t.parse template = { t with
      scan := fresh.scan
      stats := fresh.stats
      sink := fresh.sink.foldl Sink.emit t.sink } := by
  simp only [parse_eq, parsed_eq, Sink.emitAll, List.foldl_toArray]

/-- No operation changes the options. -/
theorem options_perform (t : Tokenizer σ) (operation : Operation σ) :
    (t.perform operation).options = t.options := by
  cases operation with
  | parse template => rw [perform, parse_eq_parsed]
  | reset => rfl
  | setRawText rawText => rfl
  | editSink f => rfl

/-- What an operation leaves to the next one does not hang on the scan that it begins with. -/
theorem account_perform (t : Tokenizer σ) (operation : Operation σ) :
    (t.perform operation).account = t.account.perform t.options operation := by
  cases operation with
  | parse template =>
    rw [perform, parse_eq_parsed]
    rfl
  | reset => rfl
  | setRawText rawText => rfl
  | editSink f => rfl

/-! ## A series of operations -/

/-- No series of operations changes the options. -/
theorem options_performAll (t : Tokenizer σ) (operations : List (Operation σ)) :
    (t.performAll operations).options = t.options := by
  induction operations generalizing t with
  | nil => rfl
  | cons operation rest ih => exact (ih (t.perform operation)).trans (options_perform t operation)

/-- A series of operations does to the account of a tokenizer what it does to any account. -/
theorem account_performAll (t : Tokenizer σ) (operations : List (Operation σ)) :
    (t.performAll operations).account = t.account.performAll t.options operations := by
  induction operations generalizing t with
  | nil => rfl
  | cons operation rest ih =>
    have hrest := ih (t.perform operation)
    rw [options_perform, account_perform] at hrest
    exact hrest

/-- The last operation of a series is performed on what the others leave behind. -/
theorem performAll_concat (t : Tokenizer σ) (earlier : List (Operation σ))
    (operation : Operation σ) :
    t.performAll (earlier ++ [operation]) = (t.performAll earlier).perform operation := by
  rw [performAll, List.foldl_append]
  rfl

/-- After any series of operations a parse leaves the mode, the cursor and the counters of a fresh
tokenizer with the same options and raw-text switch, and the sink receives the events that this one
finds; a reset brings back the first mode, the cursor at the start and counters of zero. Options
never change, only the raw-text switch itself changes what it is set to, and what outlives the
operations is what it would be if every parse were made by a tokenizer of its own. -/
theorem performAll_fresh (o : Options) (sink : σ) (earlier : List (Operation σ)) :
    let t := (Tokenizer.new o sink).performAll earlier
    let after := fun operation => (Tokenizer.new o sink).performAll (earlier ++ [operation])
    (∀ template,
      let fresh := parsed o t.rawText template
      (after (.parse template)).mode = fresh.mode ∧
        (after (.parse template)).cursor = fresh.cursor ∧
        (after (.parse template)).stats = fresh.stats ∧
        (after (.parse template)).sink = fresh.sink.foldl Sink.emit t.sink) ∧
    ((after .reset).mode = .text ∧ (after .reset).cursor = 0 ∧
      (after .reset).stats = ⟨0, 0, 0, 0⟩ ∧ (after .reset).sink = t.sink) ∧
    (∀ operation, (after operation).options = o ∧
      (after operation).rawText =
        match operation with
        | .setRawText rawText => rawText
        | _ => t.rawText) ∧
    t.account = Account.performAll o ⟨false, sink⟩ earlier := by
  intro t after
  have hafter : ∀ operation, after operation = t.perform operation :=
    performAll_concat (Tokenizer.new o sink) earlier
  have hoptions : t.options = o := options_performAll (Tokenizer.new o sink) earlier
  refine ⟨fun template => ?_, ?_, fun operation => ⟨?_, ?_⟩, ?_⟩
  · rw [hafter, perform, parse_eq_parsed, hoptions]
    exact ⟨rfl, rfl, rfl, rfl⟩
  · rw [hafter]
    exact ⟨rfl, rfl, rfl, rfl⟩
  · exact options_performAll (Tokenizer.new o sink) (earlier ++ [operation])
  · have haccount := congrArg Account.rawText (account_perform t operation)
    rw [hafter]
    cases operation <;> exact haccount
  · exact account_performAll (Tokenizer.new o sink) earlier

end Tokenizer

end TemplateLexer
