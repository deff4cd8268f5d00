import OnPremGateway.NeutralMessages

/-!
# Responses input

The input of a Responses request is a list of items: messages, tool calls and
their outputs, and the reasoning that was shown before them. Consecutive calls
become one assistant message; the text of a reasoning item is held back until an
assistant message is made.
-/

set_option autoImplicit false

namespace OnPremGateway.ResponsesInput
open RuntimeTypes RoutingTypes InferenceEvents
open JsonValue DecodedJson NeutralMessages

def blockText (part : Json ℚ) : String :=
  match field "type" part with
  | some (.str type) =>
    if type = "text" ∨ type = "input_text" ∨ type = "output_text" then stringField part "text" else ""
  | _ => stringField part "text"

def isObject : Json ℚ → Bool
  | .obj _ => true
  | _ => false

def joinTexts (text : Json ℚ → String) (items : List (Json ℚ)) : String :=
  joinLines (((items.filter isObject).map text).filter fun t => trimSpace t ≠ "")

def extractResponsesText : Option (Json ℚ) → String
  | some (.str s) => s
  | some (.arr items) => joinTexts blockText items
  | _ => ""

def joinReasoning : Option (Json ℚ) → String
  | some (.arr items) => joinTexts (fun block => stringField block "text") items
  | _ => ""

def extractReasoningText (part : Json ℚ) : String :=
  let t := joinReasoning (field "content" part)
  if t ≠ "" then t else joinReasoning (field "summary" part)

def normalizeResponsesRole (role : String) : Role :=
  let normalized := trimSpace (toLower role)
  if normalized = "" ∨ normalized = "user" then .user
  else if normalized = "assistant" then .assistant
  else if normalized = "system" ∨ normalized = "developer" then .system
  else if normalized = "tool" then .tool
  else Role.ofString role

def responsesCallID (part : Json ℚ) : String :=
  if stringField part "call_id" ≠ "" then stringField part "call_id" else stringField part "id"

def stringifyResponsesArguments : Option (Json ℚ) → String
  | some (.str s) => argumentsOrEmpty s
  | none => "\x7b\x7d"
  | some .null => "\x7b\x7d"
  | some v => marshal v

def outputText (block : Json ℚ) : String :=
  if stringField block "text" ≠ "" then stringField block "text" else stringField block "output"

def stringifyResponsesOutput : Option (Json ℚ) → String
  | some (.str s) => s
  | some (.arr items) =>
    joinLines (((items.filter isObject).map outputText).filter fun t => t ≠ "")
  | none => ""
  | some .null => ""
  | some v => marshal v

structure Input where
  messages : List Message := []
  flatParts : List String := []
  pendingReasoning : String := ""

variable (s : Input) (part : Json ℚ)

def appendFlatParts : Input :=
  if s.flatParts = [] then s
  else
    { s with
      messages := s.messages ++ [{ role := .user, content := [.text (joinLines s.flatParts)] }]
      flatParts := [] }

def addFlatPart (text : String) : Input :=
  if trimSpace text ≠ "" then { s with flatParts := s.flatParts ++ [text] } else s

def textMessage (role : Role) (text reasoning : String) : Message :=
  { role := role, content := [.text text], reasoning := reasoning }

def appendMessage (role : Role) (text reasoning : String) : Input :=
  if trimSpace text = "" then s
  else { s with messages := s.messages ++ [textMessage role text reasoning] }

def responsesCall : ToolCall :=
  { id := responsesCallID part
    name := stringField part "name"
    arguments := stringifyResponsesArguments (field "arguments" part) }

def outputMessage (callID text : String) : Message :=
  { role := .tool, toolCallID := callID, content := [.text text] }

def takesCalls (m : Message) : Bool := m.role = .assistant ∧ m.toolCalls ≠ [] ∧ m.content = []

def addCall (tc : ToolCall) : Input :=
  match s.messages.getLast? with
  | some m =>
    if takesCalls m then
      { s with messages := s.messages.dropLast ++ [{ m with toolCalls := m.toolCalls ++ [tc] }] }
    else
      { s with
        messages := s.messages ++
          [{ role := .assistant, toolCalls := [tc], reasoning := s.pendingReasoning }]
        pendingReasoning := "" }
  | none =>
    { s with
      messages := s.messages ++
        [{ role := .assistant, toolCalls := [tc], reasoning := s.pendingReasoning }]
      pendingReasoning := "" }

def addReasoning (t : String) : Input :=
  if t = "" then s
  else if s.pendingReasoning ≠ "" then
    { s with pendingReasoning := s.pendingReasoning ++ "\n" ++ t }
  else { s with pendingReasoning := t }

def hasContent : Bool := (field "content" part).isSome

def noRole : Bool := field "role" part = none ∨ field "role" part = some .null

def addMessage : Input :=
  let s := appendFlatParts s
  let role := normalizeResponsesRole (stringField part "role")
  let reasoning := if role = .assistant then s.pendingReasoning else ""
  appendMessage { s with pendingReasoning := "" } role (extractResponsesText (field "content" part))
    reasoning

def addItem (item : Json ℚ) : Input :=
  if isObject item = false then s
  else
    let type := stringField item "type"
    if type = "function_call" then addCall (appendFlatParts s) (responsesCall item)
    else if type = "function_call_output" then
      let s := appendFlatParts s
      { s with
        messages := s.messages ++
          [outputMessage (responsesCallID item) (stringifyResponsesOutput (field "output" item))]
        pendingReasoning := "" }
    else if type = "reasoning" then addReasoning s (extractReasoningText item)
    else if type = "input_text" ∨ type = "output_text" ∨ type = "text" then
      addFlatPart s (blockText item)
    else if type = "message" ∨ type = "" then
      if hasContent item = false ∧ noRole item then addFlatPart s (blockText item)
      else addMessage s item
    else if hasContent item then
      appendMessage (appendFlatParts s) (normalizeResponsesRole (stringField item "role"))
        (extractResponsesText (field "content" item)) ""
    else s

def parseOpenAIResponsesInputArray (items : List (Json ℚ)) : Except ParseError (List Message) :=
  let s := appendFlatParts (items.foldl addItem {})
  if s.messages = [] then
    .error (.api "openai.input_required" "openai responses input is required")
  else .ok s.messages

end OnPremGateway.ResponsesInput
