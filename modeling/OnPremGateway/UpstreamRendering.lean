import OnPremGateway.NeutralMessages

/-!
# Rendering a conversation for an upstream

Three forms of one conversation. Whichever the upstream, the calls of the
assistant's messages are rendered one by one and in their order.
-/

set_option autoImplicit false

namespace OnPremGateway.UpstreamRendering
open RuntimeTypes RoutingTypes InferenceEvents List
open DecodedJson NeutralMessages

/-! ### Chat Completions -/

structure ChatCall where
  id : String
  name : String
  arguments : String
  deriving DecidableEq, Repr

inductive ChatContent where
  | text (text : String)
  | blocks (blocks : List ContentPart)
  deriving DecidableEq, Repr

structure ChatMessage where
  role : Role
  content : ChatContent
  toolCallID : Option String := none
  toolCalls : List ChatCall := []
  reasoningContent : Option String := none
  deriving DecidableEq, Repr

def ContentPart.isImage : ContentPart → Bool
  | .image _ => true
  | .text _ => false

def ContentPart.isShown : ContentPart → Bool
  | .image _ => true
  | .text t => t ≠ ""

def chatCall (tc : ToolCall) : ChatCall := ⟨tc.id, tc.name, argumentsOrEmpty tc.arguments⟩

def openAIMessage (m : Message) : ChatMessage :=
  if m.role = .tool then
    { role := m.role
      content := .text m.text
      toolCallID := if m.toolCallID ≠ "" then some m.toolCallID else none }
  else
    { role := m.role
      content :=
        if m.content.any ContentPart.isImage then .blocks (m.content.filter ContentPart.isShown)
        else .text m.text
      toolCalls := m.toolCalls.map chatCall
      reasoningContent :=
        if m.role = .assistant ∧ m.reasoning ≠ "" then some m.reasoning else none }

def openAIMessages (messages : List Message) : List ChatMessage := messages.map openAIMessage

/-! ### Responses -/

inductive ResponsesItem where
  | message (role : String) (content : List ContentPart)
  | functionCall (callID name arguments : String)
  | functionCallOutput (callID output : String)
  deriving DecidableEq, Repr

def openaiResponsesToolArguments (arguments : String) : String :=
  if trimSpace arguments = "" then "\x7b\x7d" else arguments

def openaiResponsesImageURL (url : String) : String :=
  if hasPrefix url "data:" || hasPrefix url "https://" || hasPrefix url "http://" then url else ""

def responsesUserPart : ContentPart → Option ContentPart
  | .text t => if t ≠ "" then some (.text t) else none
  | .image url =>
    if openaiResponsesImageURL url ≠ "" then some (.image (openaiResponsesImageURL url)) else none

def openaiResponsesUserItem (m : Message) : Option ResponsesItem :=
  let content := m.content.filterMap responsesUserPart
  if content = [] then none else some (.message "user" content)

def textParts (m : Message) : List ContentPart :=
  (m.content.filterMap ContentPart.nonEmptyText).map .text

def responsesCall (tc : ToolCall) : ResponsesItem :=
  .functionCall tc.id tc.name (openaiResponsesToolArguments tc.arguments)

def openaiResponsesAssistantItems (m : Message) : List ResponsesItem :=
  (if textParts m = [] then [] else [.message "assistant" (textParts m)]) ++
    m.toolCalls.map responsesCall

def openaiResponsesItems (m : Message) : List ResponsesItem :=
  match m.role with
  | .system => []
  | .developer => []
  | .tool => [.functionCallOutput m.toolCallID m.text]
  | .assistant => openaiResponsesAssistantItems m
  | _ => (openaiResponsesUserItem m).toList

def systemTexts (messages : List Message) : List String :=
  messages.filterMap fun m =>
    if (m.role = .system ∨ m.role = .developer) ∧ m.text ≠ "" then some m.text else none

def openaiResponsesInput (messages : List Message) : String × List ResponsesItem :=
  ("\n\n".intercalate (systemTexts messages), messages.flatMap openaiResponsesItems)

/-! ### Messages -/

inductive ImageSource where
  | base64 (mediaType data : String)
  | url (url : String)
  deriving DecidableEq, Repr

/-- A block; the input of a tool use is the text of its JSON. -/
inductive AnthropicBlock where
  | text (text : String)
  | image (source : ImageSource)
  | toolUse (id name input : String)
  | toolResult (toolUseID content : String)
  deriving DecidableEq, Repr

structure AnthropicTurn where
  role : String
  content : List AnthropicBlock
  deriving DecidableEq, Repr

def anthropicToolInput (arguments : String) : String :=
  let trimmed := trimSpace arguments
  if !hasPrefix trimmed "\x7b" || !valid trimmed then "\x7b\x7d" else trimmed

def cut (s : List Char) (sep : Char) : Option (List Char × List Char) :=
  match s.dropWhile (· ≠ sep) with
  | [] => none
  | _::rest => some (s.takeWhile (· ≠ sep), rest)

def afterLast (s : List Char) (sep : Char) : List Char :=
  (s.reverse.takeWhile (· ≠ sep)).reverse

/-- Whether a marker is base64 when case is folded; the long s folds to s. -/
def isBase64Marker (s : String) : Bool :=
  s.toList.map (fun c => if c = 'ſ' then 's' else c.toLower) = "base64".toList

def dataImageSource (rest : List Char) : Option ImageSource :=
  match cut rest ',' with
  | none => none
  | some (info, data) =>
    let (mediaType, params) := (cut info ';').getD (info, [])
    let marker := trimSpace (String.ofList (afterLast params ';'))
    if isBase64Marker marker = false ∨ mediaType = [] ∨ data = [] then none
    else some (.base64 (String.ofList mediaType) (String.ofList data))

def anthropicImageSourceFor (url : String) : Option ImageSource :=
  if hasPrefix url "data:" then dataImageSource (url.toList.drop "data:".toList.length)
  else if hasPrefix url "https://" || hasPrefix url "http://" then some (.url url)
  else none

def anthropicUserBlock : ContentPart → Option AnthropicBlock
  | .text t => if t ≠ "" then some (.text t) else none
  | .image url => (anthropicImageSourceFor url).map .image

def anthropicUserBlocks (m : Message) : List AnthropicBlock := m.content.filterMap anthropicUserBlock

def anthropicCall (tc : ToolCall) : AnthropicBlock :=
  .toolUse tc.id tc.name (anthropicToolInput tc.arguments)

def anthropicAssistantBlocks (m : Message) : List AnthropicBlock :=
  (m.content.filterMap ContentPart.nonEmptyText).map .text ++ m.toolCalls.map anthropicCall

def appendAnthropicTurn (turns : List AnthropicTurn) (role : String)
    (blocks : List AnthropicBlock) : List AnthropicTurn :=
  if blocks = [] then turns
  else
    match turns.getLast? with
    | some last =>
      if last.role = role then turns.dropLast ++ [{ last with content := last.content ++ blocks }]
      else turns ++ [⟨role, blocks⟩]
    | none => turns ++ [⟨role, blocks⟩]

def addAnthropicMessage (turns : List AnthropicTurn) (m : Message) : List AnthropicTurn :=
  match m.role with
  | .system => turns
  | .developer => turns
  | .tool => appendAnthropicTurn turns "user" [.toolResult m.toolCallID m.text]
  | .assistant => appendAnthropicTurn turns "assistant" (anthropicAssistantBlocks m)
  | _ => appendAnthropicTurn turns "user" (anthropicUserBlocks m)

def anthropicMessages (messages : List Message) : String × List AnthropicTurn :=
  ("\n\n".intercalate (systemTexts messages), messages.foldl addAnthropicMessage [])

/-! ### The arguments an upstream is sent -/

def chatArguments (messages : List Message) : List String :=
  (openAIMessages messages).flatMap fun m => m.toolCalls.map ChatCall.arguments

def ResponsesItem.arguments : ResponsesItem → Option String
  | .functionCall _ _ arguments => some arguments
  | _ => none

def responsesArguments (messages : List Message) : List String :=
  (openaiResponsesInput messages).2.filterMap ResponsesItem.arguments

def AnthropicBlock.input : AnthropicBlock → Option String
  | .toolUse _ _ input => some input
  | _ => none

def anthropicInputs (messages : List Message) : List String :=
  ((anthropicMessages messages).2.flatMap AnthropicTurn.content).filterMap AnthropicBlock.input

def CallsOfAssistant (messages : List Message) : Prop :=
  ∀ m ∈ messages, m.role = .assistant ∨ m.toolCalls = []

def calls (messages : List Message) : List ToolCall := messages.flatMap Message.toolCalls

variable (m : Message) (messages : List Message)

theorem chatArguments_message (h : m.role = .assistant ∨ m.toolCalls = []) :
    (openAIMessage m).toolCalls.map ChatCall.arguments =
      m.toolCalls.map fun tc => argumentsOrEmpty tc.arguments := by
  rw [openAIMessage]
  by_cases hrole : m.role = .tool
  · have hcalls : m.toolCalls = [] := h.resolve_left fun ha => by rw [hrole] at ha; cases ha
    rw [if_pos hrole, hcalls]
    rfl
  · rw [if_neg hrole, map_map]
    rfl

theorem responsesArguments_message (h : m.role = .assistant ∨ m.toolCalls = []) :
    (openaiResponsesItems m).filterMap ResponsesItem.arguments =
      m.toolCalls.map fun tc => argumentsOrEmpty tc.arguments := by
  rw [openaiResponsesItems]
  by_cases hrole : m.role = .assistant
  · rw [hrole]
    dsimp only
    rw [openaiResponsesAssistantItems, filterMap_append, filterMap_map, ← filterMap_eq_map]
    split_ifs <;> rfl
  rw [h.resolve_left hrole]
  cases hr : m.role with
  | assistant => exact absurd hr hrole
  | tool => rfl
  | system => rfl
  | developer => rfl
  | user =>
    dsimp only
    rw [openaiResponsesUserItem]
    split_ifs <;> rfl
  | other name =>
    dsimp only
    rw [openaiResponsesUserItem]
    split_ifs <;> rfl

def blockInputs (blocks : List AnthropicBlock) : List String :=
  blocks.filterMap AnthropicBlock.input

theorem content_appendAnthropicTurn (turns : List AnthropicTurn) (role : String)
    (blocks : List AnthropicBlock) :
    (appendAnthropicTurn turns role blocks).flatMap AnthropicTurn.content =
      turns.flatMap AnthropicTurn.content ++ blocks := by
  rw [appendAnthropicTurn]
  by_cases hnil : blocks = []
  · rw [if_pos hnil, hnil, append_nil]
  rw [if_neg hnil]
  cases hlast : turns.getLast? with
  | none =>
    rw [flatMap_append, flatMap_singleton]
  | some last =>
    have hturns : turns = turns.dropLast ++ [last] := (dropLast_append_getLast? last hlast).symm
    dsimp only
    split_ifs
    · conv_rhs => rw [hturns]
      rw [flatMap_append, flatMap_append, flatMap_singleton, flatMap_singleton, append_assoc]
    · rw [flatMap_append, flatMap_singleton]

theorem blockInputs_texts (texts : List String) :
    blockInputs (texts.map AnthropicBlock.text) = [] := by
  rw [blockInputs, filterMap_map, filterMap_eq_nil_iff]
  exact fun _ _ => rfl

theorem blockInputs_anthropicAssistantBlocks : blockInputs (anthropicAssistantBlocks m) =
      m.toolCalls.map fun tc => anthropicToolInput tc.arguments := by
  have htexts := blockInputs_texts (m.content.filterMap ContentPart.nonEmptyText)
  rw [blockInputs] at htexts
  rw [blockInputs, anthropicAssistantBlocks, filterMap_append, htexts, nil_append,
    filterMap_map, ← filterMap_eq_map]
  rfl

theorem blockInputs_anthropicUserBlocks : blockInputs (anthropicUserBlocks m) = [] := by
  rw [blockInputs, anthropicUserBlocks, filterMap_filterMap, filterMap_eq_nil_iff]
  intro part _
  cases part with
  | text t =>
    rw [anthropicUserBlock]
    split_ifs <;> rfl
  | image url =>
    rw [anthropicUserBlock]
    cases anthropicImageSourceFor url <;> rfl

theorem blockInputs_addAnthropicMessage (turns : List AnthropicTurn) (m : Message)
    (h : m.role = .assistant ∨ m.toolCalls = []) :
    blockInputs ((addAnthropicMessage turns m).flatMap AnthropicTurn.content) =
      blockInputs (turns.flatMap AnthropicTurn.content) ++
        m.toolCalls.map fun tc => anthropicToolInput tc.arguments := by
  have happend : ∀ role blocks,
      blockInputs ((appendAnthropicTurn turns role blocks).flatMap AnthropicTurn.content) =
        blockInputs (turns.flatMap AnthropicTurn.content) ++ blockInputs blocks := by
    intro role blocks
    rw [content_appendAnthropicTurn, blockInputs, blockInputs, blockInputs, filterMap_append]
  rw [addAnthropicMessage]
  by_cases hrole : m.role = .assistant
  · rw [hrole]
    dsimp only
    rw [happend, blockInputs_anthropicAssistantBlocks]
  rw [h.resolve_left hrole, map_nil]
  cases hr : m.role with
  | assistant => exact absurd hr hrole
  | system => exact (append_nil _).symm
  | developer => exact (append_nil _).symm
  | tool => exact happend _ _
  | user =>
    dsimp only
    rw [happend, blockInputs_anthropicUserBlocks]
  | other name =>
    dsimp only
    rw [happend, blockInputs_anthropicUserBlocks]

theorem chatArguments_eq (h : CallsOfAssistant messages) :
    chatArguments messages = (calls messages).map fun tc => argumentsOrEmpty tc.arguments := by
  rw [chatArguments, openAIMessages, flatMap_map, calls, map_flatMap]
  exact flatMap_congr fun m hm => chatArguments_message m (h m hm)

theorem responsesArguments_eq (h : CallsOfAssistant messages) :
    responsesArguments messages = (calls messages).map fun tc => argumentsOrEmpty tc.arguments := by
  rw [responsesArguments, openaiResponsesInput, filterMap_flatMap, calls, map_flatMap]
  exact flatMap_congr fun m hm => responsesArguments_message m (h m hm)

theorem anthropicInputs_eq (h : CallsOfAssistant messages) :
    anthropicInputs messages = (calls messages).map fun tc => anthropicToolInput tc.arguments := by
  have hfold : ∀ turns : List AnthropicTurn,
      blockInputs ((messages.foldl addAnthropicMessage turns).flatMap AnthropicTurn.content) =
        blockInputs (turns.flatMap AnthropicTurn.content) ++
          (calls messages).map fun tc => anthropicToolInput tc.arguments := by
    induction messages with
    | nil => exact fun turns => (append_nil _).symm
    | cons m messages ih =>
      intro turns
      obtain ⟨hm,hmessages⟩ := forall_mem_cons.mp h
      rw [foldl_cons, ih hmessages, blockInputs_addAnthropicMessage turns m hm,
        append_assoc, calls, calls, flatMap_cons, map_append]
  exact hfold []

end OnPremGateway.UpstreamRendering
