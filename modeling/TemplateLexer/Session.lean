import TemplateLexer.Tokenizer

/-!
# Sessions

A session puts one tokenizer through a series of operations.
-/

set_option autoImplicit false

namespace TemplateLexer

universe u

/-- What can be done with a tokenizer that collects into a sink. -/
inductive Operation (σ : Type u) where
  | parse (template : String)
  /-- Go back to a fresh scan. -/
  | reset
  /-- Decide whether tags are read as text. -/
  | setRawText (rawText : Bool)
  | editSink (f : σ → σ)

namespace Tokenizer

variable {σ : Type u} [Sink σ]

/-- Does what one operation asks for. -/
def perform (t : Tokenizer σ) : Operation σ → Tokenizer σ
  | .parse template => t.parse template
  | .reset => t.reset
  | .setRawText rawText => t.setRawText rawText
  | .editSink f => t.editSink f

/-- Does what operations ask for, in order. -/
def performAll (t : Tokenizer σ) (operations : List (Operation σ)) : Tokenizer σ :=
  operations.foldl perform t

end Tokenizer

end TemplateLexer
