import Bud.Agent.Conversation
import Bud.Lib.JsValue

/-!
# Canonical messages

`llm/types.ts`: the messages that the service sends to a model, in the form that all its adapters
share. Texts are lists of UTF-16 code units, since they are measured in those. `Conversation` has
the same messages with less in them.
-/

namespace Bud.Llm

open JsText JsValue
open Conversation (Provider Phase CanonicalRole)

/-- `CanonicalProviderData`. -/
structure ProviderData where
  provider : Provider
  payload : Value

inductive MediaType where
  | jpeg
  | png
  | gif
  | webp

mutual

/-- `CanonicalContentBlock`. -/
inductive Block where
  | text (text : Text) (assistantPhase : Option Phase)
  | image (mediaType : MediaType) (data : Text)
  | toolUse (id name : Text) (input : Fields)
  | toolResult (toolUseId : Text) (content : Content) (isError : Option Bool)
  | reasoning (text : Text) (providerData : Option ProviderData)
  | reasoningRedacted (providerData : Option ProviderData)

inductive Content where
  | string (text : Text)
  | blocks (blocks : List Block)

end

/-- `CanonicalMessage`. -/
structure Message where
  role : CanonicalRole
  content : Content

def Message.blocks (message : Message) : List Block :=
  match message.content with
  | .string _ => []
  | .blocks blocks => blocks

def Block.asText : Block → Option Text
  | .text value _ => some value
  | _ => none

def Block.useId : Block → Option Text
  | .toolUse id _ _ => some id
  | _ => none

/-- `CanonicalToolCall`. -/
structure ToolCall where
  id : Text
  name : Text
  input : Fields

def ToolCall.toBlock (call : ToolCall) : Block := .toolUse call.id call.name call.input

def Block.asToolCall : Block → Option ToolCall
  | .toolUse id name input => some ⟨id, name, input⟩
  | _ => none

def Block.resultId : Block → Option Text
  | .toolResult toolUseId _ _ => some toolUseId
  | _ => none

def normalizeContent : Content → List Block
  | .string text => [.text text none]
  | .blocks blocks => blocks

def collectText (content : List Block) : Text := [10].intercalate (content.filterMap Block.asText)

def textMessage (role : CanonicalRole) (text : Text) : Message :=
  { role, content := .blocks [.text text none] }

end Bud.Llm
