import OnPremGateway.NeutralMessages

/-!
# Messages requests

The content of a message is a text or a list of blocks. The tool results among
the blocks become messages of their own; the rest is one message, with the tool
calls in the order of their blocks.
-/

set_option autoImplicit false

namespace OnPremGateway.AnthropicRequests
open RuntimeTypes RoutingTypes InferenceEvents List
open JsonValue DecodedJson NeutralMessages

def anthropicImageURL (source : Option (Json ℚ)) : String :=
  match source with
  | some (.obj fields) =>
    let src : Json ℚ := .obj fields
    if stringField src "type" = "base64" then
      let data := stringField src "data"
      if trimSpace data = "" then ""
      else
        let mediaType := stringField src "media_type"
        "data:" ++ (if mediaType = "" then "image/png" else mediaType) ++ ";base64," ++ data
    else if stringField src "type" = "url" then stringField src "url"
    else ""
  | _ => ""

def normalizeAnthropicRole (role : String) : Role :=
  let normalized := trimSpace (toLower role)
  if normalized = "user" then .user
  else if normalized = "assistant" then .assistant
  else Role.ofString role

def nonEmptyField (key : String) (item : Json ℚ) : Option String :=
  if stringField item key ≠ "" then some (stringField item key) else none

def joinBlockText (items : List (Json ℚ)) : String := joinLines (items.filterMap (nonEmptyField "text"))

def anthropicToolResultText : Option (Json ℚ) → String
  | some (.str s) => s
  | some (.arr items) => joinBlockText items
  | _ => ""

def anthropicInputToArguments : Option (Json ℚ) → String
  | none => "\x7b\x7d"
  | some .null => "\x7b\x7d"
  | some v => if marshal v = "null" then "\x7b\x7d" else marshal v

structure Blocks where
  out : List Message := []
  parts : List ContentPart := []
  toolCalls : List ToolCall := []
  reasoning : String := ""

def toolUseCall (block : Json ℚ) : ToolCall :=
  { id := stringField block "id"
    name := stringField block "name"
    arguments := anthropicInputToArguments (field "input" block) }

def toolResultMessage (block : Json ℚ) : Message :=
  { role := .tool
    toolCallID := stringField block "tool_use_id"
    content := [.text (anthropicToolResultText (field "content" block))] }

/-- A block that is no object has no type; such blocks and those of other types
are skipped. -/
def addBlock (s : Blocks) (block : Json ℚ) : Blocks :=
  let type := stringField block "type"
  if type = "text" then
    let t := stringField block "text"
    if trimSpace t ≠ "" then { s with parts := s.parts ++ [.text t] } else s
  else if type = "thinking" then
    let t := stringField block "thinking"
    if trimSpace t ≠ "" then
      { s with reasoning := if s.reasoning = "" then t else s.reasoning ++ "\n" ++ t }
    else s
  else if type = "image" then
    let url := anthropicImageURL (field "source" block)
    if url ≠ "" then { s with parts := s.parts ++ [.image url] } else s
  else if type = "tool_use" then { s with toolCalls := s.toolCalls ++ [toolUseCall block] }
  else if type = "tool_result" then { s with out := s.out ++ [toolResultMessage block] }
  else s

def parseAnthropicBlockArray (role : Role) (blocks : List (Json ℚ)) : List Message :=
  let s := blocks.foldl addBlock {}
  if s.parts.isEmpty && s.toolCalls.isEmpty then s.out
  else
    s.out ++ [{ role := role, content := s.parts, toolCalls := s.toolCalls, reasoning := s.reasoning }]

def requireContent (text code message : String) : Except ParseError String :=
  if trimSpace text = "" then .error (.api code message) else .ok text

def parseAnthropicContentBlocks (role : Role) : Json ℚ → Except ParseError (List Message)
  | .str s =>
    (requireContent s "anthropic.content_required" "anthropic message content is required").map
      fun text => [{ role := role, content := [.text text] }]
  | .arr blocks => .ok (parseAnthropicBlockArray role blocks)
  | .null =>
    .error (.api "anthropic.content_required" "anthropic message content is required")
  | _ =>
    .error (.api "anthropic.content_unsupported"
      "anthropic message content must be a string or content blocks")

/-- A message of a request: its content stands under the body, the list of the
messages and the message. -/
def parseAnthropicMessage (role : String) (content : Json ℚ) : Except ParseError (List Message) :=
  match decode 3 content with
  | none => .error .json
  | some v => parseAnthropicContentBlocks (normalizeAnthropicRole role) v

/-! ### The tool calls of a message -/

def isToolUse (block : Json ℚ) : Bool := stringField block "type" = "tool_use"

theorem toolCalls_addBlock (s : Blocks) (block : Json ℚ) : (addBlock s block).toolCalls =
      s.toolCalls ++ if isToolUse block then [toolUseCall block] else [] := by
  rw [addBlock, isToolUse]
  by_cases htool : stringField block "type" = "tool_use"
  · rw [htool]
    rfl
  · rw [decide_eq_false htool, if_neg Bool.false_ne_true, append_nil]
    dsimp only
    split_ifs <;> rfl

theorem toolCalls_blocks (blocks : List (Json ℚ)) (s : Blocks) :
    (blocks.foldl addBlock s).toolCalls =
      s.toolCalls ++ (blocks.filter isToolUse).map toolUseCall := by
  induction blocks generalizing s with
  | nil => exact (append_nil _).symm
  | cons block blocks ih =>
    rw [foldl_cons, ih, toolCalls_addBlock, append_assoc, filter_cons]
    split_ifs <;> rfl

theorem out_blocks (blocks : List (Json ℚ)) (s : Blocks)
    (h : ∀ m ∈ s.out, m.role = .tool ∧ m.toolCalls = []) :
    ∀ m ∈ (blocks.foldl addBlock s).out, m.role = .tool ∧ m.toolCalls = [] := by
  induction blocks generalizing s with
  | nil => exact h
  | cons block blocks ih =>
    apply ih
    rw [addBlock]
    dsimp only
    split_ifs
    all_goals try exact h
    intro m hm
    rcases mem_append.mp hm with hm | hm
    · exact h m hm
    · rw [mem_singleton.mp hm]
      exact ⟨rfl,rfl⟩

end OnPremGateway.AnthropicRequests
