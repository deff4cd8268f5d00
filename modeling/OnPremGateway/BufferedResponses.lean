import OnPremGateway.DecodedJson
import OnPremGateway.StreamedCalls
import OnPremGateway.ChatStream

/-!
# Buffered answers

The bodies of the three APIs for an answer that is not streamed.
-/

set_option autoImplicit false

namespace OnPremGateway.BufferedResponses
open RuntimeTypes InferenceEvents JsonValue
open DecodedJson ResponsesStream MessagesStream

/-! ### Chat Completions -/

structure ChatToolCall where
  id : String
  name : String
  arguments : String
  deriving DecidableEq, Repr

structure ChatCompletion where
  id : String
  model : String
  created : ℤ
  content : String
  toolCalls : List ChatToolCall
  finishReason : String
  promptTokens : ℤ
  completionTokens : ℤ
  totalTokens : ℤ
  deriving DecidableEq, Repr

def openAIChatResponse (id model : String) (created : ℤ) (text : String)
    (toolCalls : List ToolCall) (usage : Usage) : ChatCompletion :=
  { id := id
    model := model
    created := created
    content := text
    toolCalls := toolCalls.map fun tc => ⟨tc.id, tc.name, argumentsOrEmpty tc.arguments⟩
    finishReason := if toolCalls.isEmpty then "stop" else "tool_calls"
    promptTokens := usage.inputTokens
    completionTokens := usage.outputTokens
    totalTokens := usage.totalTokens }

/-! ### Responses -/

def responsesFunctionCallItem (tc : ToolCall) : Item :=
  let callID := if tc.id = "" then "call_" ++ tc.name else tc.id
  .functionCall ("fc_" ++ callID) callID tc.name (argumentsOrEmpty tc.arguments) "completed"

structure ResponsesBody where
  id : String
  createdAt : ℤ
  model : String
  outputText : String
  output : List Item
  usage : ResponseUsage
  deriving DecidableEq, Repr

def openAIResponsesResponse (id model : String) (createdAt : ℤ) (text reasoning : String)
    (toolCalls : List ToolCall) (usage : Usage) : ResponsesBody :=
  { id := id
    createdAt := createdAt
    model := model
    outputText := text
    output :=
      (if reasoning ≠ "" then [.reasoning ("rs_" ++ id) (some reasoning)] else []) ++
      (if text ≠ "" ∨ toolCalls.isEmpty then [.message (id ++ "_msg") "completed" (some text)]
        else []) ++ toolCalls.map responsesFunctionCallItem
    usage := ⟨usage.inputTokens, usage.outputTokens, usage.totalTokens⟩ }

/-! ### Messages -/

inductive ContentBlock where
  | thinking (thinking signature : String)
  | text (text : String)
  | toolUse (id name : String) (input : Json ℚ)

structure MessagesBody where
  id : String
  model : String
  content : List ContentBlock
  stopReason : String
  inputTokens : ℤ
  outputTokens : ℤ
  cacheReadInputTokens : ℤ

def anthropicToolUseID (tc : ToolCall) : String :=
  if trimSpace tc.id ≠ "" then tc.id else "toolu_" ++ tc.name

def argumentsToObject (args : String) : Json ℚ :=
  if trimSpace args = "" then .obj []
  else
    match unmarshal args with
    | some (.obj fields) => .obj fields
    | _ => .obj []

def anthropicMessageResponse (id model text reasoning : String) (toolCalls : List ToolCall)
    (finishReason : String) (usage : Usage) : MessagesBody :=
  { id := id
    model := model
    content :=
      (if reasoning ≠ "" then [.thinking reasoning ""] else []) ++
      (if text ≠ "" ∨ toolCalls.isEmpty then [.text text] else []) ++ toolCalls.map fun tc =>
        .toolUse (anthropicToolUseID tc) tc.name (argumentsToObject tc.arguments)
    stopReason := anthropicStopReason finishReason (!toolCalls.isEmpty)
    inputTokens := anthropicInputTokens usage
    outputTokens := usage.outputTokens
    cacheReadInputTokens := usage.cachedTokens }

end OnPremGateway.BufferedResponses
