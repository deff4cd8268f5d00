import OnPremGateway.BufferedResponses

/-!
# The ids of tool calls

Each API makes up an id for a call that has none, from its position or from its
name. The ids of an answer are told apart exactly when no two calls without an
id share a name and no given id looks like one that is made up.
-/

set_option autoImplicit false

namespace OnPremGateway.ToolCallIDs
open RuntimeTypes InferenceEvents List
open ResponsesStream MessagesStream
open StreamedCalls BufferedResponses

/-- What an answer is made of, and the request it answers. -/
structure Answer where
  id : String
  model : String
  created : ℤ
  includeUsage : Bool
  text : String
  reasoning : String
  chunks : List Chunk
  calls : List ToolCall
  usage : Option Usage
  finishReason : String

namespace Answer
variable (a : Answer)

def events : List StreamEvent := providerEvents a.chunks a.calls a.usage a.finishReason

def chatStreamed : List String :=
  (ChatStream.completeStream ⟨a.id, a.created, a.model⟩ a.includeUsage (fun _ => false) a.events
    {}).flatMap ChatStream.openedCalls

def chatBuffered : List String :=
  (openAIChatResponse a.id a.model a.created a.text a.calls (a.usage.getD {})).toolCalls.map
    ChatToolCall.id

def responsesStreamed : List String :=
  (completeStreamResponses a.id a.model a.created (fun _ => false) a.events {}).flatMap
    Responses.doneCalls

def responsesBuffered : List String :=
  (openAIResponsesResponse ("resp_" ++ a.id) a.model a.created a.text a.reasoning a.calls
    (a.usage.getD {})).output.filterMap Responses.callOf

def messagesStreamed : List String :=
  ((completeStreamAnthropic a.id a.model (fun _ => false) a.events {}).flatMap
    Messages.toolParts).filterMap fun
      | .start id _ => some id
      | .input _ => none

def messagesBuffered : List String :=
  (anthropicMessageResponse ("msg_" ++ a.id) a.model a.text a.reasoning a.calls a.finishReason
    (a.usage.getD {})).content.filterMap fun
      | .toolUse id _ _ => some id
      | _ => none

end Answer

/-! ### The ids of each API -/

section Forms
variable (a : Answer)

theorem chatStreamed_eq : a.chatStreamed = a.calls.mapIdx ChatStream.chatStreamCallID :=
  ChatStream.openedCalls_completeStream _ _ _ _ _ _

theorem chatBuffered_eq : a.chatBuffered = a.calls.map ToolCall.id := by
  rw [Answer.chatBuffered, openAIChatResponse, map_map]
  rfl

theorem responsesStreamed_eq : a.responsesStreamed = a.calls.map callIDOf :=
  Responses.doneCalls_completeStreamResponses _ _ _ _ _ _ _

theorem filterMap_responsesFunctionCallItem (calls : List ToolCall) :
    (calls.map responsesFunctionCallItem).filterMap Responses.callOf = calls.map callIDOf := by
  rw [filterMap_map, ← filterMap_eq_map]
  rfl

theorem responsesBuffered_eq : a.responsesBuffered = a.calls.map callIDOf := by
  rw [Answer.responsesBuffered, openAIResponsesResponse, filterMap_append,
    filterMap_append, filterMap_responsesFunctionCallItem]
  split_ifs <;> rfl

theorem messagesStreamed_eq : a.messagesStreamed = a.calls.map anthropicToolUseID := by
  rw [Answer.messagesStreamed, Answer.events, Messages.toolParts_completeStreamAnthropic]
  induction a.calls with
  | nil => rfl
  | cons tc calls ih =>
    rw [flatMap_cons, filterMap_append, ih, map_cons]
    rfl

theorem messagesBuffered_eq : a.messagesBuffered = a.calls.map anthropicToolUseID := by
  rw [Answer.messagesBuffered, anthropicMessageResponse, filterMap_append,
    filterMap_append, filterMap_map, ← filterMap_eq_map]
  split_ifs <;> rfl

end Forms

/-! ### When the ids are told apart -/

def Distinguishes (ids : List String) : Prop := ids.Nodup ∧ "" ∉ ids

/-- The ids of an answer, in every API, and in the buffered as in the streamed
form. -/
structure CallsToldApart (a : Answer) : Prop where
  chatStreamed : Distinguishes a.chatStreamed
  responsesBuffered : Distinguishes a.responsesBuffered
  responsesStreamed : Distinguishes a.responsesStreamed
  messagesBuffered : Distinguishes a.messagesBuffered
  messagesStreamed : Distinguishes a.messagesStreamed
  responsesAgree : a.responsesBuffered = a.responsesStreamed
  messagesAgree : a.messagesBuffered = a.messagesStreamed

def Blank (s : String) : Prop := trimSpace s = ""

instance (s : String) : Decidable (Blank s) := inferInstanceAs (Decidable (_ = _))

/-- The ids that are not blank are pairwise distinct. -/
def GivenDistinct (calls : List ToolCall) : Prop :=
  ∀ i j : Fin calls.length, i ≠ j → ¬ Blank calls[i].id → ¬ Blank calls[j].id →
    calls[i].id ≠ calls[j].id

/-- No two calls without an id share a name, no two share an id of blanks, and
no id is one that is made up for another call. -/
def NoClash (calls : List ToolCall) : Prop :=
  ∀ i j : Fin calls.length, i ≠ j → (Blank calls[i].id → Blank calls[j].id →
      calls[i].name ≠ calls[j].name ∧ (calls[i].id = calls[j].id → calls[i].id = "")) ∧
    (calls[i].id = "" →
      calls[j].id ≠ "call_" ++ toString (i : ℕ) ∧ calls[j].id ≠ "call_" ++ calls[i].name) ∧
    (Blank calls[i].id → calls[j].id ≠ "toolu_" ++ calls[i].name)

instance (calls : List ToolCall) : Decidable (GivenDistinct calls) :=
  inferInstanceAs (Decidable (∀ _ _ : Fin _, _))

instance (calls : List ToolCall) : Decidable (NoClash calls) :=
  inferInstanceAs (Decidable (∀ _ _ : Fin _, _))

theorem nodup_mapIdx_iff {α β : Type} (f : ℕ → α → β) (l : List α) :
    (l.mapIdx f).Nodup ↔ ∀ i j : Fin l.length, i ≠ j → f i l[i] ≠ f j l[j] := by
  rw [List.Nodup, pairwise_iff_getElem]
  constructor
  · intro h i j hij
    rcases Nat.lt_or_gt_of_ne (Fin.val_ne_of_ne hij) with hlt | hlt
    · have hne := h i j (by simp) (by simp) hlt
      rw [getElem_mapIdx, getElem_mapIdx] at hne
      exact hne
    · have hne := h j i (by simp) (by simp) hlt
      rw [getElem_mapIdx, getElem_mapIdx] at hne
      exact hne.symm
  · intro h i j hi hj hlt
    rw [length_mapIdx] at hi hj
    rw [getElem_mapIdx, getElem_mapIdx]
    exact h ⟨i,hi⟩ ⟨j,hj⟩ (fun heq => hlt.ne (congrArg Fin.val heq))

theorem nodup_map_iff {α β : Type} (f : α → β) (l : List α) :
    (l.map f).Nodup ↔ ∀ i j : Fin l.length, i ≠ j → f l[i] ≠ f l[j] := by
  have heq : l.mapIdx (fun _ => f) = l.map f :=
    mapIdx_eq_iff.mpr fun i => getElem?_map
  rw [← nodup_mapIdx_iff (fun _ => f), heq]

theorem callPosition_inj {m n : ℕ} (h : "call_" ++ toString m = "call_" ++ toString n) : m = n := by
  rw [String.append_right_inj] at h
  exact Nat.repr_inj.mp h

theorem blank_empty : Blank "" := by decide

theorem not_blank_toolu (name : String) : ¬ Blank ("toolu_" ++ name) := by
  rw [Blank, trimSpace_eq_empty_iff]
  intro h
  have hmem : 't' ∈ ("toolu_" ++ name).toList := by
    rw [String.toList_append]
    exact mem_append_left _ (by decide)
  exact absurd (h 't' hmem) (by decide)

theorem append_ne_empty (p q : String) (hp : p ≠ "") : p ++ q ≠ "" := by
  intro h
  exact hp (String.append_eq_empty_iff.mp h).1

section Rules
variable {a b : ToolCall}

theorem anthropicToolUseID_of_blank (h : Blank a.id) : anthropicToolUseID a = "toolu_" ++ a.name :=
  if_neg (not_not.mpr h)

theorem anthropicToolUseID_of_given (h : ¬ Blank a.id) : anthropicToolUseID a = a.id := if_pos h

/-- Ids that are given are equal only if they are blank. -/
theorem given_ne (hgiven : ¬ Blank a.id → ¬ Blank b.id → a.id ≠ b.id)
    (hblank : Blank a.id → Blank b.id → a.id = b.id → a.id = "") (ha : a.id ≠ "") :
    a.id ≠ b.id := by
  intro heq
  by_cases hba : Blank a.id
  · exact ha (hblank hba (heq ▸ hba) heq)
  · exact hgiven hba (heq ▸ hba) heq

end Rules

variable (tc : ToolCall) {calls : List ToolCall}

theorem chat_nodup_of_noClash (hgiven : GivenDistinct calls)
    (h : NoClash calls) : (calls.mapIdx ChatStream.chatStreamCallID).Nodup := by
  rw [nodup_mapIdx_iff]
  intro i j hij
  rw [ChatStream.chatStreamCallID, ChatStream.chatStreamCallID]
  split_ifs with hi hj hj
  · exact fun heq => hij (Fin.ext (callPosition_inj heq))
  · exact ((h i j hij).2.1 hi).1.symm
  · exact ((h j i hij.symm).2.1 hj).1
  · exact given_ne (hgiven i j hij) (fun hbi hbj => ((h i j hij).1 hbi hbj).2) hi

theorem responses_nodup_of_noClash (hgiven : GivenDistinct calls)
    (h : NoClash calls) : (calls.map callIDOf).Nodup := by
  rw [nodup_map_iff]
  intro i j hij
  rw [callIDOf, callIDOf]
  split_ifs with hi hj hj
  · rw [ne_eq, String.append_right_inj]
    exact ((h i j hij).1 (hi ▸ blank_empty) (hj ▸ blank_empty)).1
  · exact ((h i j hij).2.1 hi).2.symm
  · exact ((h j i hij.symm).2.1 hj).2
  · exact given_ne (hgiven i j hij) (fun hbi hbj => ((h i j hij).1 hbi hbj).2) hi

theorem messages_nodup_of_noClash (hgiven : GivenDistinct calls)
    (h : NoClash calls) : (calls.map anthropicToolUseID).Nodup := by
  rw [nodup_map_iff]
  intro i j hij
  rw [anthropicToolUseID, anthropicToolUseID]
  split_ifs with hi hj hj
  · exact hgiven i j hij hi hj
  · exact (h j i hij.symm).2.2 (not_not.mp hj)
  · exact ((h i j hij).2.2 (not_not.mp hi)).symm
  · rw [ne_eq, String.append_right_inj]
    exact ((h i j hij).1 (not_not.mp hi) (not_not.mp hj)).1

theorem noClash_of_nodup (hchat : (calls.mapIdx ChatStream.chatStreamCallID).Nodup)
    (hresponses : (calls.map callIDOf).Nodup) (hmessages : (calls.map anthropicToolUseID).Nodup) :
    NoClash calls := by
  rw [nodup_mapIdx_iff] at hchat
  rw [nodup_map_iff] at hresponses hmessages
  intro i j hij
  refine ⟨fun hi hj => ⟨?_,?_⟩,fun hi => ⟨?_,?_⟩,fun hi => ?_⟩
  · intro hname
    apply hmessages i j hij
    rw [anthropicToolUseID_of_blank hi, anthropicToolUseID_of_blank hj, hname]
  · intro hid
    by_contra hne
    apply hresponses i j hij
    rw [callIDOf, callIDOf, if_neg hne, if_neg (hid ▸ hne), hid]
  · intro hid
    apply hchat i j hij
    rw [ChatStream.chatStreamCallID, ChatStream.chatStreamCallID, if_pos hi,
      if_neg (by rw [hid]; exact append_ne_empty _ _ (by decide)), hid]
  · intro hid
    apply hresponses i j hij
    rw [callIDOf, callIDOf, if_pos hi,
      if_neg (by rw [hid]; exact append_ne_empty _ _ (by decide)), hid]
  · intro hid
    have hj : ¬ Blank calls[j].id := by
      rw [hid]
      exact not_blank_toolu _
    apply hmessages i j hij
    rw [anthropicToolUseID_of_blank hi, anthropicToolUseID_of_given hj, hid]

theorem chatStreamCallID_ne_empty (i : ℕ) (tc : ToolCall) :
    ChatStream.chatStreamCallID i tc ≠ "" := by
  rw [ChatStream.chatStreamCallID]
  split_ifs with h
  · exact append_ne_empty _ _ (by decide)
  · exact h

theorem callIDOf_ne_empty : callIDOf tc ≠ "" := by
  rw [callIDOf]
  split_ifs with h
  · exact append_ne_empty _ _ (by decide)
  · exact h

theorem anthropicToolUseID_ne_empty : anthropicToolUseID tc ≠ "" := by
  rw [anthropicToolUseID]
  split_ifs with h
  · intro heq
    rw [heq] at h
    exact h blank_empty
  · exact append_ne_empty _ _ (by decide)

theorem callsToldApart_iff (a : Answer) (hgiven : GivenDistinct a.calls) :
    CallsToldApart a ↔ NoClash a.calls := by
  constructor
  · intro h
    have hchat := h.chatStreamed.1
    have hresponses := h.responsesStreamed.1
    have hmessages := h.messagesStreamed.1
    rw [chatStreamed_eq] at hchat
    rw [responsesStreamed_eq] at hresponses
    rw [messagesStreamed_eq] at hmessages
    exact noClash_of_nodup hchat hresponses hmessages
  · intro h
    have hchat : Distinguishes (a.calls.mapIdx ChatStream.chatStreamCallID) := by
      refine ⟨chat_nodup_of_noClash hgiven h,?_⟩
      rw [mem_mapIdx]
      rintro ⟨i,hi,heq⟩
      exact chatStreamCallID_ne_empty _ _ heq
    have hresponses : Distinguishes (a.calls.map callIDOf) := by
      refine ⟨responses_nodup_of_noClash hgiven h,?_⟩
      rw [mem_map]
      rintro ⟨tc,_,heq⟩
      exact callIDOf_ne_empty tc heq
    have hmessages : Distinguishes (a.calls.map anthropicToolUseID) := by
      refine ⟨messages_nodup_of_noClash hgiven h,?_⟩
      rw [mem_map]
      rintro ⟨tc,_,heq⟩
      exact anthropicToolUseID_ne_empty tc heq
    rw [← chatStreamed_eq] at hchat
    have hresponses' := hresponses
    have hmessages' := hmessages
    rw [← responsesStreamed_eq] at hresponses
    rw [← responsesBuffered_eq] at hresponses'
    rw [← messagesStreamed_eq] at hmessages
    rw [← messagesBuffered_eq] at hmessages'
    exact ⟨hchat,hresponses',hresponses,hmessages',hmessages,
      (responsesBuffered_eq a).trans (responsesStreamed_eq a).symm,
      (messagesBuffered_eq a).trans (messagesStreamed_eq a).symm⟩

theorem chatBuffered_eq_chatStreamed_iff (a : Answer) :
    a.chatBuffered = a.chatStreamed ↔ ∀ tc ∈ a.calls, tc.id ≠ "" := by
  rw [chatBuffered_eq, chatStreamed_eq, eq_comm, mapIdx_eq_iff]
  constructor
  · intro h tc htc hid
    obtain ⟨i,hi,rfl⟩ := getElem_of_mem htc
    have heq := h i
    rw [getElem?_map, getElem?_eq_getElem hi, Option.map_some, Option.map_some,
      Option.some_inj, hid] at heq
    exact chatStreamCallID_ne_empty _ _ heq.symm
  · intro h i
    rw [getElem?_map]
    cases hi : a.calls[i]? with
    | none => rfl
    | some tc =>
      have hid := h tc (mem_of_getElem? hi)
      rw [Option.map_some, Option.map_some, ChatStream.chatStreamCallID, if_neg hid]

/-- The calls of an answer are told apart exactly when none of their ids and
names clash; the buffered Chat answer has the streamed ids exactly when every
call has one. -/
theorem tool_calls_told_apart_iff (a : Answer) (hgiven : GivenDistinct a.calls) :
    (CallsToldApart a ↔ NoClash a.calls) ∧
      (a.chatBuffered = a.chatStreamed ↔ ∀ tc ∈ a.calls, tc.id ≠ "") :=
  ⟨callsToldApart_iff a hgiven,chatBuffered_eq_chatStreamed_iff a⟩

def repeatedCalls : Answer :=
  { id := "1"
    model := "m"
    created := 0
    includeUsage := false
    text := ""
    reasoning := ""
    chunks := []
    calls := [{ name := "read", arguments := "1" }, { name := "read", arguments := "2" }]
    usage := none
    finishReason := "tool_calls" }

theorem repeated_calls_not_told_apart :
    GivenDistinct repeatedCalls.calls ∧ ¬ CallsToldApart repeatedCalls := by
  refine ⟨by decide,fun h => ?_⟩
  have hnodup := h.responsesBuffered.1
  rw [responsesBuffered_eq] at hnodup
  exact absurd hnodup (by decide)

def distinctCalls : Answer :=
  { repeatedCalls with calls := [{ id := "call_7", name := "read" }, { name := "write" }] }

theorem tool_calls_told_apart_distinct :
    GivenDistinct distinctCalls.calls ∧ CallsToldApart distinctCalls :=
  have hgiven : GivenDistinct distinctCalls.calls := by decide
  ⟨hgiven,(tool_calls_told_apart_iff distinctCalls hgiven).1.mpr (by decide)⟩

end OnPremGateway.ToolCallIDs
