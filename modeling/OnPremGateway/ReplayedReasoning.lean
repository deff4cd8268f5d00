import OnPremGateway.ResponsesInput

/-!
# Replayed reasoning

Which items of a Responses input end up in which message. Beside each message
stand the positions of the items it carries and of the reasoning it was given.
Reasoning reaches the call or the assistant message that follows it, unless an
empty assistant message comes in between or the call joins the message of a call
before the reasoning.
-/

set_option autoImplicit false

namespace OnPremGateway.ReplayedReasoning
open RuntimeTypes InferenceEvents JsonValue List Nat
open DecodedJson NeutralMessages ResponsesInput

/-! ### Kinds of items -/

inductive Kind where
  | call (tc : ToolCall)
  | output (callID text : String)
  | reasoning (text : String)
  | message (role : Role) (text : String)
  | bare
  deriving DecidableEq

/-- A message item without role and content says nothing. -/
def kind (item : Json ℚ) : Kind :=
  let type := stringField item "type"
  if type = "function_call" then .call (responsesCall item)
  else if type = "function_call_output" then
    .output (responsesCallID item) (stringifyResponsesOutput (field "output" item))
  else if type = "reasoning" then .reasoning (extractReasoningText item)
  else if hasContent item = false ∧ noRole item then .bare
  else .message (normalizeResponsesRole (stringField item "role"))
    (extractResponsesText (field "content" item))

/-- A call, an output, reasoning or a message. -/
def Modelled (item : Json ℚ) : Prop :=
  isObject item = true ∧
    (stringField item "type" ∈ ["function_call", "function_call_output", "reasoning", "message"] ∨
      stringField item "type" = "" ∧ ¬ (hasContent item = false ∧ noRole item = true))

instance (item : Json ℚ) : Decidable (Modelled item) := inferInstanceAs (Decidable (_ ∧ _))

def Kind.kept : Kind → Bool
  | .call _ => true
  | .output _ _ => true
  | .reasoning _ => false
  | .message _ text => trimSpace text ≠ ""
  | .bare => false

def Kind.isCall : Kind → Bool
  | .call _ => true
  | _ => false

def Kind.assistant : Kind → Bool
  | .call _ => true
  | .message role text => role = .assistant ∧ trimSpace text ≠ ""
  | _ => false

def Kind.emptyAssistant : Kind → Bool
  | .message role text => role = .assistant ∧ trimSpace text = ""
  | _ => false

def Kind.between : Kind → Bool
  | .reasoning _ => true
  | .bare => true
  | k => k.emptyAssistant

/-! ### Where the items go -/

/-- A message with the positions of the items it carries, and the positions and
texts of the reasoning it was given. -/
structure Placed where
  message : Message
  carries : List ℕ
  reasoning : List (ℕ × String)

structure Placing where
  placed : List Placed := []
  pending : List (ℕ × String) := []

def reasoningText (pending : List (ℕ × String)) : String := joinLines (pending.map Prod.snd)

def newCall (t : Placing) (n : ℕ) (tc : ToolCall) : Placing :=
  { placed :=
      { message := { role := .assistant, toolCalls := [tc], reasoning := reasoningText t.pending }
        carries := [n]
        reasoning := t.pending }::t.placed
    pending := [] }

def placeCall (t : Placing) (n : ℕ) (tc : ToolCall) : Placing :=
  match t.placed with
  | p::ps =>
    if takesCalls p.message then
      { t with
        placed :=
          { p with
            message := { p.message with toolCalls := p.message.toolCalls ++ [tc] }
            carries := p.carries ++ [n] }::ps }
    else newCall t n tc
  | [] => newCall t n tc

def placeMessage (t : Placing) (n : ℕ) (role : Role) (text : String) : Placing :=
  let reasoning := if role = .assistant then t.pending else []
  { placed :=
      if trimSpace text = "" then t.placed
      else { message := textMessage role text (reasoningText reasoning)
             carries := [n]
             reasoning := reasoning }::t.placed
    pending := [] }

def placeItem (t : Placing) (n : ℕ) : Kind → Placing
  | .call tc => placeCall t n tc
  | .output callID text =>
    { placed :=
        { message := outputMessage callID text
          carries := [n]
          reasoning := [] }::t.placed
      pending := [] }
  | .reasoning text => if text = "" then t else { t with pending := t.pending ++ [(n, text)] }
  | .message role text => placeMessage t n role text
  | .bare => t

def place (t : Placing) : ℕ → List Kind → Placing
  | _, [] => t
  | n, k::ks => place (placeItem t n k) (n+1) ks

theorem place_append (t : Placing) (n : ℕ) (ks ls : List Kind) :
    place t n (ks ++ ls) = place (place t n ks) (n+ks.length) ls := by
  induction ks generalizing t n with
  | nil => rfl
  | cons k ks ih =>
    rw [cons_append, place, place, ih, length_cons, add_right_comm, add_assoc]

def placements (items : List (Json ℚ)) : List Placed := (place {} 0 (items.map kind)).placed.reverse

/-! ### The placements are the messages of the parser -/

theorem joinLines_snoc (lines : List String) (hne : lines ≠ []) (t : String) :
    joinLines (lines ++ [t]) = joinLines lines ++ "\n" ++ t := by
  induction lines with
  | nil => exact absurd rfl hne
  | cons a lines ih =>
    cases lines with
    | nil => rfl
    | cons b lines =>
      have hrest := ih (cons_ne_nil b lines)
      rw [joinLines, joinLines] at hrest ⊢
      rw [cons_append, cons_append, String.intercalate_cons_cons, ← cons_append, hrest,
        String.intercalate_cons_cons]
      simp only [String.append_assoc]

theorem joinLines_eq_empty_iff (lines : List String) (hne : ∀ t ∈ lines, t ≠ "") :
    joinLines lines = "" ↔ lines = [] := by
  constructor
  · intro h
    cases lines with
    | nil => rfl
    | cons a lines =>
      have ha := hne a mem_cons_self
      cases lines with
      | nil => exact absurd h ha
      | cons b lines =>
        rw [joinLines, String.intercalate_cons_cons, String.append_assoc] at h
        exact absurd (String.append_eq_empty_iff.mp h).1 ha
  · rintro rfl
    rfl

structure Matches (s : Input) (t : Placing) : Prop where
  messages : s.messages = (t.placed.map Placed.message).reverse
  flat : s.flatParts = []
  pending : s.pendingReasoning = reasoningText t.pending
  texts : ∀ e ∈ t.pending, e.2 ≠ ""

variable {s : Input} {t : Placing}

theorem Matches.appendFlatParts (h : Matches s t) : appendFlatParts s = s := by
  rw [ResponsesInput.appendFlatParts, if_pos h.flat]

theorem Matches.newCall (h : Matches s t) (n : ℕ) (tc : ToolCall) : Matches { s with
      messages := s.messages ++
        [{ role := .assistant, toolCalls := [tc], reasoning := s.pendingReasoning }]
      pendingReasoning := "" } (newCall t n tc) where
  messages := by simp [ReplayedReasoning.newCall, h.messages, h.pending]
  flat := h.flat
  pending := rfl
  texts := fun e he => absurd he not_mem_nil

theorem Matches.addCall (h : Matches s t) (n : ℕ) (tc : ToolCall) :
    Matches (addCall s tc) (placeCall t n tc) := by
  rw [ResponsesInput.addCall, placeCall, h.messages]
  cases hplaced : t.placed with
  | nil =>
    have hnew := h.newCall n tc
    rw [h.messages, hplaced] at hnew
    exact hnew
  | cons p ps =>
    rw [map_cons, reverse_cons, getLast?_concat]
    dsimp only
    by_cases hm : takesCalls p.message = true
    · rw [if_pos hm, if_pos hm, dropLast_concat]
      exact ⟨by simp,h.flat,h.pending,h.texts⟩
    rw [if_neg hm, if_neg hm]
    have hnew := h.newCall n tc
    rw [h.messages, hplaced] at hnew
    simpa using hnew

theorem Matches.addReasoning (h : Matches s t) (n : ℕ) (text : String) :
    Matches (addReasoning s text) (placeItem t n (.reasoning text)) := by
  rw [ResponsesInput.addReasoning, placeItem]
  by_cases htext : text = ""
  · rw [if_pos htext, if_pos htext]
    exact h
  rw [if_neg htext, if_neg htext]
  have hmap : ∀ u ∈ t.pending.map Prod.snd, u ≠ "" := by
    intro u hu
    obtain ⟨e,he,rfl⟩ := mem_map.mp hu
    exact h.texts e he
  have hempty : s.pendingReasoning = "" ↔ t.pending.map Prod.snd = [] := by
    rw [h.pending, reasoningText, joinLines_eq_empty_iff _ hmap]
  have htexts : ∀ e ∈ t.pending ++ [(n, text)], e.2 ≠ "" := by
    intro e he
    cases mem_append.mp he with
    | inl hold => exact h.texts e hold
    | inr hnew =>
      rw [mem_singleton.mp hnew]
      exact htext
  by_cases hpending : s.pendingReasoning = ""
  · rw [if_neg (not_not.mpr hpending)]
    refine ⟨h.messages,h.flat,?_,htexts⟩
    change text = reasoningText (t.pending ++ [(n, text)])
    rw [reasoningText, map_append, hempty.mp hpending]
    rfl
  rw [if_pos hpending]
  refine ⟨h.messages,h.flat,?_,htexts⟩
  change s.pendingReasoning ++ "\n" ++ text = reasoningText (t.pending ++ [(n, text)])
  rw [reasoningText, map_append, map_singleton,
    joinLines_snoc _ (fun hnil => hpending (hempty.mpr hnil)), h.pending]
  rfl

theorem Matches.addMessage (h : Matches s t) (n : ℕ) (item : Json ℚ) :
    Matches (addMessage s item) (placeMessage t n (normalizeResponsesRole (stringField item "role"))
      (extractResponsesText (field "content" item))) := by
  rw [ResponsesInput.addMessage, placeMessage, h.appendFlatParts]
  generalize normalizeResponsesRole (stringField item "role") = role
  generalize extractResponsesText (field "content" item) = text
  rw [appendMessage]
  by_cases htext : trimSpace text = ""
  · rw [if_pos htext, if_pos htext]
    exact ⟨h.messages,h.flat,rfl,fun e he => absurd he not_mem_nil⟩
  rw [if_neg htext, if_neg htext]
  refine ⟨?_,h.flat,rfl,fun e he => absurd he not_mem_nil⟩
  by_cases hrole : role = .assistant
  · simp [hrole, h.messages, h.pending]
  · simp [hrole, h.messages, reasoningText, joinLines]

theorem Matches.addItem (h : Matches s t) (n : ℕ) (item : Json ℚ) (hitem : Modelled item) :
    Matches (addItem s item) (placeItem t n (kind item)) := by
  obtain ⟨hobj,htype⟩ := hitem
  rw [ResponsesInput.addItem, if_neg (by rw [hobj]; exact Bool.noConfusion), kind]
  dsimp only
  rw [h.appendFlatParts]
  by_cases hcall : stringField item "type" = "function_call"
  · rw [if_pos hcall, if_pos hcall]
    exact h.addCall n (responsesCall item)
  rw [if_neg hcall, if_neg hcall]
  by_cases houtput : stringField item "type" = "function_call_output"
  · rw [if_pos houtput, if_pos houtput]
    exact ⟨by simp [placeItem, h.messages],h.flat,rfl,fun e he => absurd he not_mem_nil⟩
  rw [if_neg houtput, if_neg houtput]
  by_cases hreasoning : stringField item "type" = "reasoning"
  · rw [if_pos hreasoning, if_pos hreasoning]
    exact h.addReasoning n (extractReasoningText item)
  rw [if_neg hreasoning, if_neg hreasoning]
  have hmessage : stringField item "type" = "message" ∨
      stringField item "type" = "" ∧ ¬ (hasContent item = false ∧ noRole item = true) := by
    simpa [hcall, houtput, hreasoning] using htype
  have hnotext : ¬ (stringField item "type" = "input_text" ∨ stringField item "type" = "output_text" ∨
      stringField item "type" = "text") := by
    rcases hmessage with hmsg | hmsg
    · rw [hmsg]
      decide
    · rw [hmsg.1]
      decide
  rw [if_neg hnotext, if_pos (hmessage.imp_right And.left)]
  by_cases hbare : hasContent item = false ∧ noRole item = true
  · rw [if_pos hbare, if_pos hbare]
    -- a typed message is no block of text
    have hmsg := hmessage.resolve_right fun hr => hr.2 hbare
    have hblock : blockText item = "" := by
      rw [blockText, field_of_stringField hmsg (by decide)]
      rfl
    rw [addFlatPart, hblock, if_neg (by decide)]
    exact h
  · rw [if_neg hbare, if_neg hbare]
    exact h.addMessage n item

variable (n : ℕ) (ks : List Kind) (items : List (Json ℚ)) (j : ℕ) (e : ℕ × String)

theorem matches_place (hitems : ∀ item ∈ items, Modelled item) (n : ℕ)
    (h : Matches s t) : Matches (items.foldl addItem s) (place t n (items.map kind)) := by
  induction items generalizing s t n with
  | nil => exact h
  | cons item items ih =>
    rw [foldl_cons, map_cons, place]
    exact ih (fun x hx => hitems x (mem_cons_of_mem item hx)) _
      (h.addItem n item (hitems item mem_cons_self))

/-- The messages of the parser are those of the placements. -/
theorem parse_eq_placements (hitems : ∀ item ∈ items, Modelled item) :
    parseOpenAIResponsesInputArray items = if placements items = [] then
        .error (.api "openai.input_required" "openai responses input is required")
      else .ok ((placements items).map Placed.message) := by
  have hm := matches_place items hitems 0 (s := {}) (t := {}) ⟨rfl,rfl,rfl,fun e he =>
    absurd he not_mem_nil⟩
  rw [parseOpenAIResponsesInputArray, hm.appendFlatParts, hm.messages, placements, map_reverse]
  simp only [reverse_eq_nil_iff, map_eq_nil_iff]

/-! ### What one item does -/

/-- A call joins the newest message or starts one. -/
theorem placeCall_cases (t : Placing) (n : ℕ) (tc : ToolCall) :
    (∃ p ps, t.placed = p::ps ∧ takesCalls p.message = true ∧ placeCall t n tc = { t with
          placed :=
            { p with
              message := { p.message with toolCalls := p.message.toolCalls ++ [tc] }
              carries := p.carries ++ [n] }::ps }) ∨
    (∀ p ps, t.placed = p::ps → takesCalls p.message = false) ∧ placeCall t n tc = newCall t n tc := by
  rw [placeCall]
  cases hplaced : t.placed with
  | nil => exact .inr ⟨fun p ps h => (cons_ne_nil p ps h.symm).elim,rfl⟩
  | cons p ps =>
    dsimp only
    by_cases hm : takesCalls p.message = true
    · rw [if_pos hm]
      exact .inl ⟨p,ps,rfl,hm,rfl⟩
    rw [if_neg hm]
    refine .inr ⟨?_,rfl⟩
    intro q qs hq
    cases hq
    exact Bool.not_eq_true _ ▸ hm

def carriedItems (t : Placing) : List ℕ := t.placed.reverse.flatMap Placed.carries

theorem carriedItems_placeItem (t : Placing) (n : ℕ) (k : Kind) :
    carriedItems (placeItem t n k) = carriedItems t ++ (if k.kept then [n] else []) := by
  cases k with
  | call tc =>
    rcases placeCall_cases t n tc with ⟨p,ps,hplaced,-,hcall⟩ | ⟨-,hcall⟩
    · simp [placeItem, hcall, carriedItems, hplaced, Kind.kept]
    · simp [placeItem, hcall, newCall, carriedItems, Kind.kept]
  | output callID text => simp [placeItem, carriedItems, Kind.kept]
  | reasoning text =>
    by_cases htext : text = "" <;> simp [placeItem, htext, carriedItems, Kind.kept]
  | message role text =>
    by_cases htext : trimSpace text = "" <;>
      simp [placeItem, placeMessage, htext, carriedItems, Kind.kept]
  | bare => simp [placeItem, Kind.kept]

def keptPositions : ℕ → List Kind → List ℕ
  | _, [] => []
  | n, k::ks => (if k.kept then [n] else []) ++ keptPositions (n+1) ks

theorem carriedItems_place (t : Placing) (n : ℕ) (ks : List Kind) :
    carriedItems (place t n ks) = carriedItems t ++ keptPositions n ks := by
  induction ks generalizing t n with
  | nil => rw [place, keptPositions, append_nil]
  | cons k ks ih => rw [place, ih, carriedItems_placeItem, keptPositions, append_assoc]

theorem mem_keptPositions_lt (h : j ∈ keptPositions n ks) : n ≤ j ∧ j < n+ks.length := by
  induction ks generalizing n with
  | nil => cases h
  | cons k ks ih =>
    rw [keptPositions, mem_append] at h
    rw [length_cons]
    cases h with
    | inl hself =>
      split_ifs at hself
      · rw [mem_singleton.mp hself]
        omega
      · cases hself
    | inr hrest =>
      have hbounds := ih (n+1) hrest
      omega

def shownReasoning (t : Placing) : List (ℕ × String) := t.placed.reverse.flatMap Placed.reasoning

def reasoningItem (n : ℕ) : Kind → List (ℕ × String)
  | .reasoning text => if text = "" then [] else [(n, text)]
  | _ => []

/-- Reasoning is moved or dropped, never copied. -/
theorem shownReasoning_placeItem (t : Placing) (n : ℕ) (k : Kind) :
    (shownReasoning (placeItem t n k) ++ (placeItem t n k).pending).Sublist
      (shownReasoning t ++ t.pending ++ reasoningItem n k) := by
  cases k with
  | call tc =>
    rcases placeCall_cases t n tc with ⟨p,ps,hplaced,-,hcall⟩ | ⟨-,hcall⟩
    · simp [placeItem, hcall, shownReasoning, hplaced, reasoningItem]
    · simp [placeItem, hcall, newCall, shownReasoning, reasoningItem]
  | output callID text => simp [placeItem, shownReasoning, reasoningItem]
  | reasoning text =>
    by_cases htext : text = "" <;> simp [placeItem, htext, shownReasoning, reasoningItem]
  | message role text =>
    by_cases htext : trimSpace text = "" <;> by_cases hrole : role = .assistant <;>
      simp [placeItem, placeMessage, htext, hrole, shownReasoning, reasoningItem]
  | bare => simp [placeItem, reasoningItem]

def reasoningItems : ℕ → List Kind → List (ℕ × String)
  | _, [] => []
  | n, k::ks => reasoningItem n k ++ reasoningItems (n+1) ks

theorem shownReasoning_place (t : Placing) (n : ℕ) (ks : List Kind) :
    (shownReasoning (place t n ks) ++ (place t n ks).pending).Sublist
      (shownReasoning t ++ t.pending ++ reasoningItems n ks) := by
  induction ks generalizing t n with
  | nil =>
    rw [place, reasoningItems, append_nil]
  | cons k ks ih =>
    rw [place, reasoningItems, ← append_assoc]
    exact (ih (placeItem t n k) (n+1)).trans
      ((shownReasoning_placeItem t n k).append_right (reasoningItems (n+1) ks))

theorem reasoningItems_bounds (h : e ∈ reasoningItems n ks) : n ≤ e.1 ∧ e.1 < n+ks.length := by
  induction ks generalizing n with
  | nil => cases h
  | cons k ks ih =>
    rw [reasoningItems, mem_append] at h
    rw [length_cons]
    cases h with
    | inl hself =>
      have hpos : e.1 = n := by
        cases k with
        | reasoning text =>
          rw [reasoningItem] at hself
          split_ifs at hself
          · cases hself
          · rw [mem_singleton.mp hself]
        | _ => cases hself
      omega
    | inr hrest =>
      have hbounds := ih (n+1) hrest
      omega

theorem reasoningItems_nodup : ((reasoningItems n ks).map Prod.fst).Nodup := by
  induction ks generalizing n with
  | nil => exact nodup_nil
  | cons k ks ih =>
    rw [reasoningItems, map_append, nodup_append]
    refine ⟨?_,ih (n+1),?_⟩
    · cases k with
      | reasoning text =>
        rw [reasoningItem]
        split_ifs
        · exact nodup_nil
        · exact nodup_singleton n
      | _ => exact nodup_nil
    · intro i hi j hj
      obtain ⟨e,he,rfl⟩ := mem_map.mp hi
      obtain ⟨f,hf,rfl⟩ := mem_map.mp hj
      have hself := reasoningItems_bounds n [k] e (by rw [reasoningItems]; exact mem_append_left _ he)
      have hrest := reasoningItems_bounds (n+1) ks f hf
      rw [length_singleton] at hself
      omega

theorem mem_reasoningItems (h : e ∈ reasoningItems n ks) :
    ks[e.1 - n]? = some (.reasoning e.2) := by
  induction ks generalizing n with
  | nil => cases h
  | cons k ks ih =>
    rw [reasoningItems, mem_append] at h
    cases h with
    | inl hself =>
      cases k with
      | reasoning text =>
        rw [reasoningItem] at hself
        split_ifs at hself
        · cases hself
        · rw [mem_singleton.mp hself, Nat.sub_self]
          rfl
      | _ => cases hself
    | inr hrest =>
      have hbounds := reasoningItems_bounds (n+1) ks e hrest
      rw [show e.1 - n = (e.1 - (n+1)) + 1 by omega, getElem?_cons_succ]
      exact ih (n+1) hrest

/-! ### Reasoning and the output it was shown before -/

def Attached (t : Placing) (j : ℕ) (e : ℕ × String) : Prop :=
  ∃ p ∈ t.placed, j ∈ p.carries ∧ e ∈ p.reasoning

theorem attached_placeItem (t : Placing) (n : ℕ) (k : Kind) (j : ℕ) (e : ℕ × String) (hj : j ≠ n) :
    Attached (placeItem t n k) j e ↔ Attached t j e := by
  cases k with
  | call tc =>
    rcases placeCall_cases t n tc with ⟨p,ps,hplaced,-,hcall⟩ | ⟨-,hcall⟩
    · simp [placeItem, hcall, Attached, hplaced, hj]
    · simp [placeItem, hcall, newCall, Attached, hj]
  | output callID text => simp [placeItem, Attached, hj]
  | reasoning text =>
    by_cases htext : text = "" <;> simp [placeItem, htext, Attached]
  | message role text =>
    by_cases htext : trimSpace text = "" <;> simp [placeItem, placeMessage, htext, Attached, hj]
  | bare => exact Iff.rfl

theorem attached_place (t : Placing) (n : ℕ) (ks : List Kind) (j : ℕ) (e : ℕ × String) (hj : j < n) :
    Attached (place t n ks) j e ↔ Attached t j e := by
  induction ks generalizing t n with
  | nil => exact Iff.rfl
  | cons k ks ih =>
    rw [place, ih _ _ (by omega), attached_placeItem t n k j e (by omega)]

def opened (t : Placing) : Bool := t.placed.head?.any fun p => takesCalls p.message

theorem opened_placeItem (t : Placing) (n : ℕ) (k : Kind) :
    opened (placeItem t n k) = if k.kept then k.isCall else opened t := by
  cases k with
  | call tc =>
    rcases placeCall_cases t n tc with ⟨p,ps,hplaced,hm,hcall⟩ | ⟨-,hcall⟩
    · rw [takesCalls, decide_eq_true_iff] at hm
      simp [placeItem, hcall, opened, Kind.kept, Kind.isCall, takesCalls, hm]
    · simp [placeItem, hcall, newCall, opened, Kind.kept, Kind.isCall, takesCalls]
  | output callID text => simp [placeItem, opened, Kind.kept, Kind.isCall, takesCalls, outputMessage]
  | reasoning text =>
    by_cases htext : text = "" <;> simp [placeItem, htext, opened, Kind.kept]
  | message role text =>
    by_cases htext : trimSpace text = "" <;>
      simp [placeItem, placeMessage, htext, opened, Kind.kept, Kind.isCall, takesCalls, textMessage]
  | bare => rfl

def lastIsCall (ks : List Kind) : Bool := ks.foldl (fun last k => if k.kept then k.isCall else last) false

theorem opened_place (t : Placing) (n : ℕ) (ks : List Kind) :
    opened (place t n ks) = ks.foldl (fun last k => if k.kept then k.isCall else last) (opened t) := by
  induction ks generalizing t n with
  | nil => rfl
  | cons k ks ih => rw [place, ih, foldl_cons, opened_placeItem]

/-- Items in between leave the messages alone; an empty message of the assistant
drops what was held back. -/
theorem place_between (t : Placing) (n : ℕ) (ks : List Kind) (hks : ∀ k ∈ ks, k.between = true)
    (e : ℕ × String) (he : e.1 < n) : (place t n ks).placed = t.placed ∧
      (e ∈ (place t n ks).pending ↔ e ∈ t.pending ∧ ∀ k ∈ ks, k.emptyAssistant = false) := by
  induction ks generalizing t n with
  | nil => simp [place]
  | cons k ks ih =>
    obtain ⟨hplaced,hpending⟩ := ih (placeItem t n k) (n+1)
      (fun l hl => hks l (mem_cons_of_mem k hl)) (by omega)
    have hk := hks k mem_cons_self
    rw [place, hplaced, hpending]
    cases k with
    | call tc => cases hk
    | output callID text => cases hk
    | reasoning text =>
      have hne : e ≠ (n, text) := by
        rintro rfl
        exact absurd he (lt_irrefl n)
      by_cases htext : text = "" <;> simp [placeItem, htext, Kind.emptyAssistant, hne]
    | message role text =>
      have hempty : (Kind.message role text).emptyAssistant = true := hk
      have htext : trimSpace text = "" := by
        rw [Kind.emptyAssistant, decide_eq_true_iff] at hempty
        exact hempty.2
      simp [placeItem, placeMessage, htext, hempty]
    | bare => simp [placeItem, Kind.emptyAssistant]

theorem attached_output (t : Placing) (j : ℕ) (out : Kind) (e : ℕ × String)
    (hout : out.assistant = true) (hnew : j ∉ carriedItems t) (hold : e ∉ shownReasoning t) :
    Attached (placeItem t j out) j e ↔ e ∈ t.pending ∧ ¬ (out.isCall = true ∧ opened t = true) := by
  have hcarries : ∀ p ∈ t.placed, j ∉ p.carries := by
    intro p hp hj
    exact hnew (mem_flatMap.mpr ⟨p,mem_reverse.mpr hp,hj⟩)
  have hreasoning : ∀ p ∈ t.placed, e ∉ p.reasoning := by
    intro p hp hj
    exact hold (mem_flatMap.mpr ⟨p,mem_reverse.mpr hp,hj⟩)
  -- a message of its own is given what was held back
  have hown : ∀ p, j ∈ p.carries → p.reasoning = t.pending →
      ((∃ q ∈ p::t.placed, j ∈ q.carries ∧ e ∈ q.reasoning) ↔ e ∈ t.pending) := by
    intro p hp hr
    constructor
    · rintro ⟨q,hq,hcarried,he⟩
      cases mem_cons.mp hq with
      | inl hhead => exact hr ▸ hhead ▸ he
      | inr htail => exact absurd hcarried (hcarries q htail)
    · exact fun he => ⟨p,mem_cons_self,hp,hr ▸ he⟩
  cases out with
  | call tc =>
    rcases placeCall_cases t j tc with ⟨p,ps,hplaced,hm,hcall⟩ | ⟨hm,hcall⟩
    · have hopened : opened t = true := by simp [opened, hplaced, hm]
      rw [hplaced] at hcarries hreasoning
      simp only [hopened, Kind.isCall, and_self, not_true_eq_false, and_false, iff_false]
      rintro ⟨q,hq,hcarried,he⟩
      rw [placeItem, hcall] at hq
      cases mem_cons.mp hq with
      | inl hhead =>
        rw [hhead] at he
        exact hreasoning p mem_cons_self he
      | inr htail => exact hcarries q (mem_cons_of_mem p htail) hcarried
    · have hopened : opened t = false := by
        rw [opened]
        cases hplaced : t.placed with
        | nil => rfl
        | cons p ps => simpa using hm p ps hplaced
      simp only [placeItem, hcall, newCall, Attached, hopened, Bool.false_eq_true, and_false,
        not_false_eq_true, and_true]
      exact hown _ (mem_singleton_self j) rfl
  | message role text =>
    rw [Kind.assistant, decide_eq_true_iff] at hout
    simp only [placeItem, placeMessage, if_pos hout.1, if_neg hout.2, Attached, Kind.isCall,
      Bool.false_eq_true, false_and, not_false_eq_true, and_true]
    exact hown _ (mem_singleton_self j) rfl
  | _ => cases hout

/-- Reasoning reaches the output that follows it unless an empty message of the
assistant drops it or the output joins a message from before. -/
theorem attached_iff (pre mid post : List Kind) (text : String) (out : Kind) (htext : text ≠ "")
    (hmid : ∀ k ∈ mid, k.between = true) (hout : out.assistant = true) :
    Attached (place {} 0 (pre ++ .reasoning text::(mid ++ out::post))) (pre.length+1+mid.length)
        (pre.length, text) ↔
      (∀ k ∈ mid, k.emptyAssistant = false) ∧ ¬ (out.isCall = true ∧ lastIsCall pre = true) := by
  rw [place_append, zero_add, place, place_append, place,
    attached_place _ _ _ _ _ (lt_succ_self _)]
  have hpre : ∀ e ∈ shownReasoning (place {} 0 pre) ++ (place {} 0 pre).pending, e.1 < pre.length := by
    intro e he
    have hsub := (shownReasoning_place {} 0 pre).subset he
    have hbounds := reasoningItems_bounds 0 pre e hsub
    omega
  have hcarried : ∀ j ∈ carriedItems (place {} 0 pre), j < pre.length := by
    intro j hj
    rw [carriedItems_place] at hj
    have hbounds := mem_keptPositions_lt 0 pre j hj
    omega
  have hopened : opened (place {} 0 pre) = lastIsCall pre := opened_place {} 0 pre
  generalize place {} 0 pre = t at hpre hcarried hopened ⊢
  rw [placeItem, if_neg htext]
  obtain ⟨hplaced,hpending⟩ := place_between { t with pending := t.pending ++ [(pre.length, text)] }
    (pre.length+1) mid hmid (pre.length, text) (lt_succ_self _)
  rw [attached_output _ _ _ _ hout, hpending, opened, hplaced, ← hopened, opened]
  · simp
  · rw [carriedItems, hplaced]
    intro hj
    have hlt := hcarried _ hj
    omega
  · rw [shownReasoning, hplaced]
    intro he
    exact absurd (hpre _ (mem_append_left _ he)) (lt_irrefl _)

/-! ### What the messages say of their items -/

inductive Carries (ks : List Kind) : Placed → Prop where
  | output (n : ℕ) (callID text : String) (h : ks[n]? = some (.output callID text)) :
      Carries ks { message := outputMessage callID text, carries := [n], reasoning := [] }
  | text (n : ℕ) (role : Role) (text : String) (reasoning : List (ℕ × String))
      (h : ks[n]? = some (.message role text)) : Carries ks
        { message := textMessage role text (reasoningText reasoning)
          carries := [n]
          reasoning := reasoning }
  | calls (ns : List ℕ) (calls : List ToolCall) (reasoning : List (ℕ × String)) (hne : calls ≠ [])
      (h : List.Forall₂ (fun n tc => ks[n]? = some (.call tc)) ns calls) : Carries ks
        { message := { role := .assistant, toolCalls := calls, reasoning := reasoningText reasoning }
          carries := ns
          reasoning := reasoning }

theorem carries_placeItem (t : Placing) (n : ℕ) (k : Kind) (hk : ks[n]? = some k)
    (h : ∀ p ∈ t.placed, Carries ks p) : ∀ p ∈ (placeItem t n k).placed, Carries ks p := by
  cases k with
  | call tc =>
    rw [placeItem]
    rcases placeCall_cases t n tc with ⟨q,qs,hplaced,hm,hcall⟩ | ⟨-,hcall⟩
    · rw [hplaced] at h
      rw [hcall, forall_mem_cons]
      refine ⟨?_,fun p hp => h p (mem_cons_of_mem q hp)⟩
      cases h q mem_cons_self with
      | output m callID text hm' => cases hm
      | text m role text reasoning hm' =>
        rw [takesCalls, decide_eq_true_iff] at hm
        cases hm.2.2
      | calls ns calls reasoning hne hcalls =>
        apply Carries.calls _ _ reasoning
        · simp
        · exact rel_append hcalls (.cons hk .nil)
    · rw [hcall, newCall, forall_mem_cons]
      exact ⟨.calls [n] [tc] t.pending (cons_ne_nil tc []) (.cons hk .nil),h⟩
  | output callID text =>
    rw [placeItem, forall_mem_cons]
    exact ⟨.output n callID text hk,h⟩
  | reasoning text =>
    rw [placeItem]
    split_ifs <;> exact h
  | message role text =>
    rw [placeItem, placeMessage]
    dsimp only
    by_cases htext : trimSpace text = ""
    · rw [if_pos htext]
      exact h
    · rw [if_neg htext, forall_mem_cons]
      exact ⟨.text n role text _ hk,h⟩
  | bare => exact h

theorem carries_place (pre ks : List Kind) (t : Placing) (h : ∀ p ∈ t.placed, Carries (pre ++ ks) p) :
    ∀ p ∈ (place t pre.length ks).placed, Carries (pre ++ ks) p := by
  induction ks generalizing pre t with
  | nil => exact h
  | cons k ks ih =>
    have hk : (pre ++ k::ks)[pre.length]? = some k := by simp
    have hstep := carries_placeItem _ t _ k hk h
    have hrest := ih (pre ++ [k]) (placeItem t pre.length k)
    rw [append_assoc, singleton_append, length_append, length_singleton] at hrest
    exact hrest hstep

/-! ### The whole input -/

/-- An input whose messages carry every call and output once and in order, and
show each reasoning item at most once: with the output it was shown before. -/
structure Kept (items : List (Json ℚ)) : Prop where
  parsed : parseOpenAIResponsesInputArray items = if placements items = [] then
      .error (.api "openai.input_required" "openai responses input is required")
    else .ok ((placements items).map Placed.message)
  carries : ∀ p ∈ placements items, Carries (items.map kind) p
  inOrder : (placements items).flatMap Placed.carries = keptPositions 0 (items.map kind)
  shown : ∀ e ∈ (placements items).flatMap Placed.reasoning,
    (items.map kind)[e.1]? = some (.reasoning e.2)
  once : (((placements items).flatMap Placed.reasoning).map Prod.fst).Nodup
  reaches : ∀ pre text mid out post,
    items.map kind = pre ++ .reasoning text::(mid ++ out::post) → text ≠ "" →
    (∀ k ∈ mid, k.between = true) → out.assistant = true →
    ∃ p ∈ placements items, pre.length+1+mid.length ∈ p.carries ∧ (pre.length, text) ∈ p.reasoning

/-- No empty message of the assistant stands between reasoning and the output it
was shown before, and no call before the reasoning is followed by a call after
it. -/
def Undisturbed (ks : List Kind) : Prop :=
  ∀ pre text mid out post, ks = pre ++ .reasoning text::(mid ++ out::post) → text ≠ "" →
    (∀ k ∈ mid, k.between = true) → out.assistant = true →
    (∀ k ∈ mid, k.emptyAssistant = false) ∧ ¬ (out.isCall = true ∧ lastIsCall pre = true)

theorem attached_iff_placements : Attached (place {} 0 (items.map kind)) j e ↔
      ∃ p ∈ placements items, j ∈ p.carries ∧ e ∈ p.reasoning := by
  simp only [Attached, placements, mem_reverse]

/-- An input is kept exactly when its reasoning is undisturbed. -/
theorem replayed_reasoning_kept_iff (items : List (Json ℚ)) (hitems : ∀ item ∈ items, Modelled item) :
    Kept items ↔ Undisturbed (items.map kind) := by
  constructor
  · intro h pre text mid out post hks htext hmid hout
    have hreach := h.reaches pre text mid out post hks htext hmid hout
    rw [← attached_iff_placements, hks, attached_iff pre mid post text out htext hmid hout] at hreach
    exact hreach
  · intro h
    have hshown := shownReasoning_place {} 0 (items.map kind)
    have hsub := (sublist_append_left _ _).trans hshown
    refine ⟨parse_eq_placements items hitems,?_,carriedItems_place {} 0 (items.map kind),?_,?_,?_⟩
    · intro p hp
      exact carries_place [] (items.map kind) {} (fun q hq => absurd hq not_mem_nil) p
        (mem_reverse.mp hp)
    · intro e he
      exact mem_reasoningItems 0 (items.map kind) e (hsub.subset he)
    · exact (reasoningItems_nodup 0 (items.map kind)).sublist (hsub.map Prod.fst)
    · intro pre text mid out post hks htext hmid hout
      rw [← attached_iff_placements, hks, attached_iff pre mid post text out htext hmid hout]
      exact h pre text mid out post hks htext hmid hout

def callItem (id : String) : Json ℚ :=
  .obj [("type", .str "function_call"), ("call_id", .str id), ("name", .str "get"),
    ("arguments", .str "\x7b\x7d")]

def reasoningOf (text : String) : Json ℚ :=
  .obj [("type", .str "reasoning"), ("content", .arr [.obj [("text", .str text)]])]

theorem replayed_reasoning_kept_before_call : Kept [reasoningOf "why", callItem "call_1"] := by
  refine (replayed_reasoning_kept_iff [reasoningOf "why", callItem "call_1"] (by decide)).mpr ?_
  intro pre text mid out post hks _ _ _
  have hlen := congrArg length hks
  simp only [length_map, length_cons, length_nil, length_append] at hlen
  rw [length_eq_zero_iff.mp (show pre.length = 0 by omega),
    length_eq_zero_iff.mp (show mid.length = 0 by omega)]
  exact ⟨fun k hk => absurd hk not_mem_nil,fun h => absurd h.2 (by decide)⟩

/-- The second call joins the message of the first, and the reasoning between
them is in no message. -/
theorem reasoning_between_calls_lost :
    parseOpenAIResponsesInputArray [callItem "call_1", reasoningOf "why", callItem "call_2"] =
        .ok [{ role := .assistant
               toolCalls :=
                [{ id := "call_1", name := "get", arguments := "\x7b\x7d" },
                  { id := "call_2", name := "get", arguments := "\x7b\x7d" }]
               reasoning := "" }] ∧
      ¬ Kept [callItem "call_1", reasoningOf "why", callItem "call_2"] := by
  constructor
  · decide
  · intro h
    obtain ⟨p,hp,-,he⟩ := h.reaches [kind (callItem "call_1")] "why" [] (kind (callItem "call_2")) []
      (by decide) (by decide) (by decide) (by decide)
    rw [mem_singleton.mp hp] at he
    cases he

end OnPremGateway.ReplayedReasoning
