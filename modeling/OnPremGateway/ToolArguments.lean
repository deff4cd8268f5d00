import OnPremGateway.ToolCallIDs
import OnPremGateway.AnthropicRequests
import OnPremGateway.UpstreamRendering

/-!
# The arguments of tool calls

The input of a tool use in a request, and the arguments of a call in a buffered
answer, are decoded and encoded again; a streamed answer passes the arguments on
as they are. The decoded forms keep their value exactly when every number is the
shortest decimal of its machine number.
-/

set_option autoImplicit false

namespace OnPremGateway.ToolArguments
open RuntimeTypes RoutingTypes InferenceEvents List
open JsonValue JsonText Float64Text
open DecodedJson NeutralMessages AnthropicRequests
open UpstreamRendering StreamedCalls BufferedResponses
open ToolCallIDs

variable (a : Answer) {args : String} (blocks : List (Json ℚ)) (fields : List (String × Json ℚ))

/-! ### What has to be kept -/

def CarriesInputs (blocks : List (Json ℚ)) (texts : List String) : Prop :=
  List.Forall₂ (fun block text => ∀ fields, field "input" block = some (.obj fields) →
    Denotes text (Json.obj fields).value) (blocks.filter isToolUse) texts

/-- Every upstream is sent the inputs of an assistant's tool uses. -/
def RequestKeeps (blocks : List (Json ℚ)) : Prop :=
  ∀ role, normalizeAnthropicRole role = .assistant →
    ∃ messages, parseAnthropicMessage role (.arr blocks) = .ok messages ∧
      CarriesInputs blocks (chatArguments messages) ∧
      CarriesInputs blocks (responsesArguments messages) ∧
      CarriesInputs blocks (anthropicInputs messages)

def CarriesArguments (calls : List ToolCall) (texts : List String) : Prop :=
  List.Forall₂ (fun tc text => ∀ fields, parse tc.arguments = some (.obj fields) →
    Denotes text (Json.obj fields).value) calls texts

def blockInput : ContentBlock → Option String
  | .toolUse _ _ input => some (marshal input)
  | _ => none

def bufferedInputs (a : Answer) : List String :=
  (anthropicMessageResponse ("msg_" ++ a.id) a.model a.text a.reasoning a.calls a.finishReason
    (a.usage.getD {})).content.filterMap blockInput

def partInput : Messages.ToolPart → Option String
  | .input json => some json
  | .start _ _ => none

def streamedInputs (a : Answer) : List String :=
  ((MessagesStream.completeStreamAnthropic a.id a.model (fun _ => false) a.events {}).flatMap
    Messages.toolParts).filterMap partInput

/-- A client is given the arguments of the calls, buffered as well as streamed. -/
def AnswerKeeps (a : Answer) : Prop :=
  CarriesArguments a.calls (bufferedInputs a) ∧ CarriesArguments a.calls (streamedInputs a)

/-! ### Decoded blocks -/

theorem asString_map_decoded (o : Option (Json ℚ)) : asString (o.map decoded) = asString o := by
  cases o with
  | none => rfl
  | some v => cases v <;> rfl

theorem stringField_decoded (t : Json ℚ) (k : String) : stringField (decoded t) k = stringField t k := by
  rw [stringField, stringField, field_decoded, asString_map_decoded]

theorem isToolUse_decoded (t : Json ℚ) : isToolUse (decoded t) = isToolUse t := by
  rw [isToolUse, isToolUse, stringField_decoded]

/-! ### The text of an object -/

theorem toList_marshal_obj : (marshal (.obj fields)).toList =
      '\x7b'::(printFields printFloat64 fields ++ ['\x7d']) := by
  rw [marshal, String.toList_ofList, print]

theorem trimSpace_marshal_obj : trimSpace (marshal (.obj fields)) = marshal (.obj fields) := by
  rw [trimSpace, toList_marshal_obj, dropWhile_cons_of_neg (by decide), reverse_cons,
    reverse_append, reverse_singleton, singleton_append, cons_append,
    dropWhile_cons_of_neg (by decide), ← cons_append, ← singleton_append,
    ← reverse_singleton, ← reverse_append, ← reverse_cons, reverse_reverse,
    ← toList_marshal_obj, String.ofList_toList]

theorem trimSpace_marshal_obj_ne : trimSpace (marshal (.obj fields)) ≠ "" := by
  rw [trimSpace_marshal_obj]
  intro h
  have hlist := congrArg String.toList h
  rw [toList_marshal_obj] at hlist
  cases hlist

theorem argumentsOrEmpty_marshal_obj :
    argumentsOrEmpty (marshal (.obj fields)) = marshal (.obj fields) :=
  (argumentsOrEmpty_eq_iff _).mpr (trimSpace_marshal_obj_ne fields)

theorem anthropicToolInput_marshal_obj (h : (Json.obj fields).depth ≤ maxNestingDepth) :
    anthropicToolInput (marshal (.obj fields)) = marshal (.obj fields) := by
  have hprefix : hasPrefix (marshal (.obj fields)) "\x7b" = true := by
    rw [hasPrefix, toList_marshal_obj]
    rfl
  have hvalid : valid (marshal (.obj fields)) = true := by
    rw [valid, parse_marshal]
    dsimp only
    rw [Json.depth_map]
    exact decide_eq_true h
  rw [anthropicToolInput, trimSpace_marshal_obj, hprefix, hvalid]
  rfl

theorem anthropicInputToArguments_obj :
    anthropicInputToArguments (some (.obj fields)) = marshal (.obj fields) := by
  rw [anthropicInputToArguments]
  · apply if_neg
    intro h
    have hlist := congrArg String.toList h
    rw [toList_marshal_obj] at hlist
    exact absurd (cons.inj hlist).1 (by decide)
  · exact nofun

theorem decoded_obj : ∃ fields', decoded (.obj fields) = .obj fields' := by
  rw [decoded, Json.map, Json.value]
  exact ⟨_,rfl⟩

/-! ### Requests -/

theorem callsOfAssistant_blocks :
    CallsOfAssistant (parseAnthropicBlockArray .assistant blocks) := by
  have hout := out_blocks blocks {} nofun
  rw [parseAnthropicBlockArray]
  split_ifs
  · exact fun m hm => .inr (hout m hm).2
  intro m hm
  rcases mem_append.mp hm with hm | hm
  · exact .inr (hout m hm).2
  · rw [mem_singleton.mp hm]
    exact .inl rfl

theorem calls_blocks : calls (parseAnthropicBlockArray .assistant blocks) =
      (blocks.filter isToolUse).map toolUseCall := by
  have hcalls := toolCalls_blocks blocks {}
  have hout : (blocks.foldl addBlock {}).out.flatMap Message.toolCalls = [] := by
    rw [flatMap_eq_nil_iff]
    exact fun m hm => (out_blocks blocks {} nofun m hm).2
  rw [calls, parseAnthropicBlockArray]
  split_ifs with hempty
  · rw [Bool.and_eq_true, List.isEmpty_iff, List.isEmpty_iff, hcalls] at hempty
    rw [hout]
    exact hempty.2.symm
  · rw [flatMap_append, hout, flatMap_singleton]
    exact hcalls

def callOfBlock (block : Json ℚ) : ToolCall := toolUseCall (decoded block)

theorem calls_decoded : calls (parseAnthropicBlockArray .assistant (blocks.map decoded)) =
      (blocks.filter isToolUse).map callOfBlock := by
  rw [calls_blocks, filter_map, map_map]
  congr 1
  apply filter_congr
  exact fun block _ => isToolUse_decoded block

/-- The inputs are carried when each of them is, wherever the calls go. -/
theorem carriesInputs_iff (send : String → String) :
    CarriesInputs blocks (((blocks.filter isToolUse).map callOfBlock).map
      fun tc => send tc.arguments) ↔ ∀ block ∈ blocks, isToolUse block = true → ∀ fields,
        field "input" block = some (.obj fields) →
          Denotes (send (marshal (decoded (.obj fields)))) (Json.obj fields).value := by
  rw [CarriesInputs, map_map, forall₂_map_right_iff, forall₂_same]
  simp only [mem_filter, and_imp]
  refine forall₃_congr fun block _ _ => forall₂_congr fun fields hfield => ?_
  obtain ⟨fields',hobj⟩ := decoded_obj fields
  have hargs : (callOfBlock block).arguments = marshal (decoded (.obj fields)) := by
    rw [callOfBlock, toolUseCall]
    dsimp only
    rw [field_decoded, hfield, Option.map_some, hobj, anthropicInputToArguments_obj]
  rw [Function.comp_apply, hargs]

/-- The numbers of every input are carried. -/
def InputsCarried (blocks : List (Json ℚ)) : Prop :=
  ∀ block ∈ blocks, isToolUse block = true → ∀ fields,
    field "input" block = some (.obj fields) → ∀ x ∈ (Json.obj fields).value.numbers, Carried x

theorem parseAnthropicMessage_arr {role : String} (hrole : normalizeAnthropicRole role = .assistant)
    (blocks : List (Json ℚ)) : parseAnthropicMessage role (.arr blocks) =
      if Decodable 3 (.arr blocks) then
        .ok (parseAnthropicBlockArray .assistant (blocks.map decoded))
      else .error .json := by
  rw [parseAnthropicMessage, decode_arr, hrole]
  split_ifs <;> rfl

/-- What a block's input needs to be decoded, it has in a content that is. -/
theorem decodable_input {blocks : List (Json ℚ)} (h : Decodable 3 (.arr blocks)) {block t : Json ℚ}
    (hblock : block ∈ blocks) (ht : field "input" block = some t) : Decodable 0 t := by
  obtain ⟨hdepth,hnumbers⟩ := h
  rw [Json.depth] at hdepth
  rw [Json.numbers, Json.numbersElems_eq] at hnumbers
  constructor
  · have hle := (Json.depthElems_le_iff blocks _).mp le_rfl block hblock
    have hlt := depth_field_lt ht
    omega
  · intro x hx
    exact hnumbers x (mem_flatMap.mpr ⟨block,hblock,numbers_field_subset ht hx⟩)

theorem requestKeeps_iff :
    RequestKeeps blocks ↔ Decodable 3 (.arr blocks) ∧ InputsCarried blocks := by
  have hassistant := callsOfAssistant_blocks (blocks.map decoded)
  constructor
  · intro h
    obtain ⟨messages,hparse,hchat,-⟩ := h "assistant" (by decide)
    rw [parseAnthropicMessage_arr (by decide)] at hparse
    by_cases hdec : Decodable 3 (.arr blocks)
    · rw [if_pos hdec] at hparse
      cases hparse
      rw [chatArguments_eq _ hassistant, calls_decoded, carriesInputs_iff] at hchat
      refine ⟨hdec,fun block hblock htool fields hfield => ?_⟩
      have hinput := decodable_input hdec hblock hfield
      rw [← marshal_denotes_iff _ hinput.2]
      have hdenotes := hchat block hblock htool fields hfield
      obtain ⟨fields',hobj⟩ := decoded_obj fields
      rw [hobj, argumentsOrEmpty_marshal_obj] at hdenotes
      rwa [hobj]
    · rw [if_neg hdec] at hparse
      cases hparse
  · rintro ⟨hdec,hcarried⟩ role hrole
    refine ⟨_,(parseAnthropicMessage_arr hrole blocks).trans (if_pos hdec),?_⟩
    -- the text of each input denotes it, and every upstream is sent that text
    have hsend : ∀ send : String → String, (∀ fields, (Json.obj fields).depth ≤ maxNestingDepth →
          send (marshal (.obj fields)) = marshal (.obj fields)) →
        CarriesInputs blocks (((blocks.filter isToolUse).map callOfBlock).map
          fun tc => send tc.arguments) := by
      intro send hkeep
      rw [carriesInputs_iff]
      intro block hblock htool fields hfield
      have hinput := decodable_input hdec hblock hfield
      have hdepth := (depth_decoded_le (.obj fields)).trans hinput.1
      have hdenotes := (marshal_denotes_iff _ hinput.2).mpr (hcarried block hblock htool fields hfield)
      obtain ⟨fields',hobj⟩ := decoded_obj fields
      rw [hobj] at hdepth hdenotes ⊢
      rwa [hkeep fields' hdepth]
    rw [chatArguments_eq _ hassistant, responsesArguments_eq _ hassistant,
      anthropicInputs_eq _ hassistant, calls_decoded]
    refine ⟨hsend _ ?_,hsend _ ?_,hsend _ ?_⟩
    · exact fun fields _ => argumentsOrEmpty_marshal_obj fields
    · exact fun fields _ => argumentsOrEmpty_marshal_obj fields
    · exact fun fields hdepth => anthropicToolInput_marshal_obj fields hdepth

/-! ### Answers -/

theorem bufferedInputs_eq :
    bufferedInputs a = a.calls.map fun tc => marshal (argumentsToObject tc.arguments) := by
  rw [bufferedInputs, anthropicMessageResponse, filterMap_append, filterMap_append,
    filterMap_map, ← filterMap_eq_map]
  split_ifs <;> rfl

theorem streamedInputs_eq :
    streamedInputs a = a.calls.map fun tc => argumentsOrEmpty tc.arguments := by
  rw [streamedInputs, Answer.events, Messages.toolParts_completeStreamAnthropic]
  induction a.calls with
  | nil => rfl
  | cons tc calls ih =>
    rw [flatMap_cons, filterMap_append, ih, map_cons]
    rfl

theorem trimSpace_ne_of_parse_obj {fields : List (String × Json ℚ)}
    (h : parse args = some (.obj fields)) : trimSpace args ≠ "" := by
  rw [ne_eq, trimSpace_eq_empty_iff]
  intro hall
  exact absurd (hall _ (mem_of_parse_obj args fields h)) (by decide)

theorem argumentsToObject_of_parse {fields : List (String × Json ℚ)}
    (h : parse args = some (.obj fields)) :
    argumentsToObject args = if Decodable 0 (.obj fields) then decoded (.obj fields) else .obj [] := by
  obtain ⟨fields',hobj⟩ := decoded_obj fields
  rw [argumentsToObject, if_neg (trimSpace_ne_of_parse_obj h), unmarshal, h, Option.bind_some, decode,
    hobj]
  split_ifs <;> rfl

theorem value_eq_empty {fields : List (String × Json ℚ)}
    (h : (Json.obj fields).value = .obj []) : fields = [] := by
  rw [Json.value, Json.obj.injEq] at h
  cases fields with
  | nil => rfl
  | cons f fields =>
    have hlast := lookupLast_setFields f.1 (Json.valueFields (f::fields))
    rw [h, Json.valueFields, lookupLast, lookupLast, if_pos rfl] at hlast
    cases hrest : lookupLast f.1 (Json.valueFields fields) <;> rw [hrest] at hlast <;> cases hlast

theorem buffered_denotes_iff {fields : List (String × Json ℚ)}
    (h : parse args = some (.obj fields)) :
    Denotes (marshal (argumentsToObject args)) (Json.obj fields).value ↔
      Decodable 0 (.obj fields) ∧ ∀ x ∈ (Json.obj fields).value.numbers, Carried x := by
  rw [argumentsToObject_of_parse h]
  by_cases hdec : Decodable 0 (.obj fields)
  · rw [if_pos hdec, marshal_denotes_iff _ hdec.2]
    exact (and_iff_right hdec).symm
  rw [if_neg hdec]
  refine iff_of_false ?_ fun hcond => hdec hcond.1
  intro hdenotes
  rw [Denotes, parse_marshal] at hdenotes
  have hnil := value_eq_empty (Option.some.inj hdenotes).symm
  apply hdec
  rw [hnil]
  decide

/-- The arguments that are objects can be decoded, and their numbers are
carried. -/
def ArgumentsCarried (calls : List ToolCall) : Prop :=
  ∀ tc ∈ calls, ∀ fields, parse tc.arguments = some (.obj fields) →
    Decodable 0 (.obj fields) ∧ ∀ x ∈ (Json.obj fields).value.numbers, Carried x

theorem answerKeeps_iff : AnswerKeeps a ↔ ArgumentsCarried a.calls := by
  have hstreamed : CarriesArguments a.calls (streamedInputs a) := by
    rw [CarriesArguments, streamedInputs_eq, forall₂_map_right_iff, forall₂_same]
    intro tc _ fields hparse
    rw [(argumentsOrEmpty_eq_iff _).mpr (trimSpace_ne_of_parse_obj hparse), Denotes, hparse]
    rfl
  rw [AnswerKeeps, and_iff_left hstreamed, CarriesArguments, bufferedInputs_eq,
    forall₂_map_right_iff, forall₂_same]
  exact forall₂_congr fun tc _ => forall₂_congr fun fields hparse => buffered_denotes_iff hparse

/-- The inputs of an assistant's tool uses reach every upstream exactly when the
content can be decoded and every number of them is the shortest decimal of its
machine number; the arguments of a call reach a client, buffered and streamed,
exactly when the same is true of them. -/
theorem tool_arguments_kept_iff (blocks : List (Json ℚ)) (a : Answer) :
    (RequestKeeps blocks ↔ Decodable 3 (.arr blocks) ∧ InputsCarried blocks) ∧
      (AnswerKeeps a ↔ ArgumentsCarried a.calls) :=
  ⟨requestKeeps_iff blocks,answerKeeps_iff a⟩

def largeInput : Json ℚ := .obj [("n", .num 9007199254740993)]

def largeBlock : Json ℚ :=
  .obj [("type", .str "tool_use"), ("id", .str "toolu_1"), ("name", .str "get"),
    ("input", largeInput)]

def largeAnswer : Answer :=
  { repeatedCalls with
    calls := [{ id := "toolu_1", name := "get", arguments := "\x7b\"n\":9007199254740993\x7d" }] }

/-- An integer above the exact range of machine numbers is changed, in a request
and in a buffered answer. -/
theorem large_integer_changed : ¬ RequestKeeps [largeBlock] ∧ ¬ AnswerKeeps largeAnswer := by
  have hnot : ¬ Carried 9007199254740993 := by decide +kernel
  have hmem : (9007199254740993 : ℚ) ∈ largeInput.value.numbers := mem_cons_self
  constructor
  · rw [requestKeeps_iff]
    rintro ⟨-,hcarried⟩
    exact hnot (hcarried largeBlock mem_cons_self (by decide) _ rfl _ hmem)
  · rw [answerKeeps_iff]
    intro hcarried
    exact hnot ((hcarried _ mem_cons_self _ (by decide +kernel)).2 _ hmem)

end OnPremGateway.ToolArguments
