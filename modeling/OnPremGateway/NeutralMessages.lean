import OnPremGateway.InferenceEvents
import OnPremGateway.DecodedJson
import OnPremGateway.RoutingTypes

/-!
# Neutral conversations

The messages every client API is parsed into and every upstream API is
rendered from, and how members of a decoded object are read.
-/

set_option autoImplicit false

namespace OnPremGateway.NeutralMessages
open RuntimeTypes RoutingTypes InferenceEvents
open JsonValue DecodedJson

inductive Role where
  | system
  | developer
  | user
  | assistant
  | tool
  | other (name : String)
  deriving DecidableEq, Repr

def Role.ofString (s : String) : Role :=
  if s = "system" then .system
  else if s = "developer" then .developer
  else if s = "user" then .user
  else if s = "assistant" then .assistant
  else if s = "tool" then .tool
  else .other s

inductive ContentPart where
  | text (text : String)
  | image (imageURL : String)
  deriving DecidableEq, Repr

structure Message where
  role : Role
  content : List ContentPart := []
  toolCallID : String := ""
  toolCalls : List ToolCall := []
  reasoning : String := ""
  deriving DecidableEq, Repr

def joinLines (lines : List String) : String := "\n".intercalate lines

def ContentPart.nonEmptyText : ContentPart → Option String
  | .text t => if t ≠ "" then some t else none
  | .image _ => none

def Message.text (m : Message) : String := joinLines (m.content.filterMap ContentPart.nonEmptyText)

inductive ParseError where
  | json
  | api (code message : String)
  deriving DecidableEq, Repr

def asString : Option (Json ℚ) → String
  | some (.str s) => s
  | _ => ""

def stringField (part : Json ℚ) (key : String) : String := asString (field key part)

theorem field_of_stringField {part : Json ℚ} {key s : String} (h : stringField part key = s)
    (hs : s ≠ "") : field key part = some (.str s) := by
  rw [stringField] at h
  cases hfield : field key part with
  | none =>
    rw [hfield] at h
    exact absurd h.symm hs
  | some v =>
    rw [hfield] at h
    cases v with
    | str u => rw [← h, asString]
    | _ => exact absurd h.symm hs

end OnPremGateway.NeutralMessages
