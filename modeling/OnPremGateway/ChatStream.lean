import OnPremGateway.InferenceEvents

/-!
# Translated Chat Completions streams

Deltas are sent on as they come; the tool calls follow them, each in two
chunks, and a last chunk says why the answer ended.
-/

set_option autoImplicit false

namespace OnPremGateway.ChatStream
open RuntimeTypes InferenceEvents Wire

/-- The part of a tool call in a chunk; the first part of a call has its id and
name, the second its arguments. -/
structure ToolCallDelta where
  index : ℕ
  id : Option String := none
  name : Option String := none
  arguments : String
  deriving DecidableEq, Repr

structure Envelope where
  id : String
  created : ℤ
  model : String
  deriving DecidableEq, Repr

inductive Frame where
  | chunk (env : Envelope) (content reasoningContent : Option String)
      (toolCalls : List ToolCallDelta) (finishReason : Option String)
  | usage (env : Envelope) (promptTokens completionTokens totalTokens : ℤ) (cachedTokens : Option ℤ)
  | error (code message : String)
  | done
  deriving DecidableEq, Repr

structure Writer where
  wire : Wire Frame
  env : Envelope
  includeUsage : Bool
  usage : Usage := {}
  toolCalls : List ToolCall := []

def emit (s : Writer) (f : Frame) : Writer := { s with wire := s.wire.emit f }

def nonEmpty (s : String) : Option String := if s = "" then none else some s

variable (env : Envelope) (includeUsage : Bool) (s : Writer)

def onEvent : StreamEvent → Writer × Bool
  | .textDelta text reasoning =>
    if text = "" ∧ reasoning = "" then (s, false)
    else (emit s (.chunk s.env (nonEmpty text) (nonEmpty reasoning) [] none), s.wire.broken)
  | .toolCall none => (s, false)
  | .toolCall (some call) => ({ s with toolCalls := s.toolCalls ++ [call] }, false)
  | .completed usage _ => ({ s with usage := usage.getD s.usage }, false)
  | .other => (s, false)

def chatStreamCallID (i : ℕ) (tc : ToolCall) : String :=
  if tc.id = "" then "call_" ++ toString i else tc.id

def writeCall (i : ℕ) (tc : ToolCall) : Writer :=
  let first : ToolCallDelta :=
    { index := i
      id := some (chatStreamCallID i tc)
      name := some tc.name
      arguments := "" }
  let s := emit s (.chunk s.env none none [first] none)
  emit s (.chunk s.env none none [{ index := i, arguments := argumentsOrEmpty tc.arguments }] none)

def writeCalls : Writer → ℕ → List ToolCall → Writer
  | s, _, [] => s
  | s, i, tc::tcs => writeCalls (writeCall s i tc) (i+1) tcs

def writeUsage : Writer :=
  if s.includeUsage then
    emit s (.usage s.env s.usage.inputTokens s.usage.outputTokens s.usage.totalTokens
      (if s.usage.cachedTokens > 0 then some s.usage.cachedTokens else none))
  else s

def writeSuccess : Writer :=
  let finish := if s.toolCalls.isEmpty then "stop" else "tool_calls"
  let s := writeCalls s 0 s.toolCalls
  writeUsage (emit s (.chunk s.env none none [] (some finish)))

def writeTerminal (errorCode : String) : Writer :=
  if errorCode = "" then writeSuccess s
  else if errorCode = errCodeStreamIdleTimeout then
    emit s (.error errorCode msgStreamIdleTimeout)
  else if errorCode = errCodeClientDisconnected then s
  else emit s (.error errorCode msgProviderError)

def startStream (fails : ℕ → Bool) : Writer :=
  { wire := { fails := fails }, env := env, includeUsage := includeUsage }

def completeStream (fails : ℕ → Bool)
    (events : List StreamEvent) (ending : Ending) : List Frame :=
  let (s, failed) := handleEvents onEvent (startStream env includeUsage fails) events
  let s := writeTerminal s (terminalStatus (streamError failed ending) ending)
  (if ending.clientGone then s else emit s .done).wire.sent

/-! ### The ids a client is given -/

def openedCalls : Frame → List String
  | .chunk _ _ _ toolCalls _ => toolCalls.filterMap ToolCallDelta.id
  | _ => []

structure Ready (calls : List ToolCall) (s : Writer) : Prop where
  sound : s.wire.Sound
  toolCalls : s.toolCalls = calls
  silent : s.wire.shown openedCalls = []

theorem Ready.onChunk {s : Writer} (h : Ready [] s) (d : Chunk) :
    (onEvent s d.event).2 = false ∧ Ready [] (onEvent s d.event).1 := by
  rw [Chunk.event, onEvent]
  split_ifs
  · exact ⟨rfl,h⟩
  · refine ⟨h.sound.broken,h.sound.emit _,h.toolCalls,?_⟩
    exact (shown_emit_silent _ _ rfl).trans h.silent

theorem shown_writeCalls {s : Writer} (h : s.wire.Sound) (i : ℕ) (tcs : List ToolCall) :
    (writeCalls s i tcs).wire.shown openedCalls =
      s.wire.shown openedCalls ++ tcs.mapIdx fun k tc => chatStreamCallID (i+k) tc := by
  induction tcs generalizing s i with
  | nil => exact (List.append_nil _).symm
  | cons tc tcs ih =>
    have hcall : (writeCall s i tc).wire.shown openedCalls =
        s.wire.shown openedCalls ++ [chatStreamCallID i tc] := by
      refine (shown_emit_silent _ _ rfl).trans ?_
      exact h.shown_emit _ _
    rw [writeCalls, ih (s := writeCall s i tc) ((h.emit _).emit _), hcall, List.append_assoc,
      List.mapIdx_cons]
    simp only [Nat.add_assoc, Nat.add_comm 1]
    rfl

theorem shown_writeUsage :
    (writeUsage s).wire.shown openedCalls = s.wire.shown openedCalls := by
  rw [writeUsage]
  by_cases h : s.includeUsage = true
  · rw [if_pos h]
    exact shown_emit_silent _ _ rfl
  · rw [if_neg h]

theorem ready_provider (chunks : List Chunk)
    (calls : List ToolCall) (usage : Option Usage) (finishReason : String) :
    ∃ t, handleEvents onEvent (startStream env includeUsage fun _ => false)
        (providerEvents chunks calls usage finishReason) = (t, false) ∧ Ready calls t := by
  apply handleEvents_provider (fun _ _ => ()) (fun _ calls s => Ready calls s) _ _ _ () _ _
  · exact fun _ s d h => h.onChunk d
  · exact fun _ calls s tc h => ⟨rfl,h.sound,congrArg (· ++ [tc]) h.toolCalls,h.silent⟩
  · exact fun _ calls s usage finish h => ⟨rfl,h.sound,h.toolCalls,h.silent⟩
  · exact ⟨fun _ => rfl,rfl,rfl⟩

theorem openedCalls_completeStream (chunks : List Chunk)
    (calls : List ToolCall) (usage : Option Usage) (finishReason : String) :
    (completeStream env includeUsage (fun _ => false)
      (providerEvents chunks calls usage finishReason) {}).flatMap openedCalls =
      calls.mapIdx chatStreamCallID := by
  obtain ⟨t,ht,hready⟩ := ready_provider env includeUsage chunks calls usage finishReason
  rw [completeStream, ht]
  refine (shown_emit_silent openedCalls Frame.done rfl).trans ?_
  refine (shown_writeUsage _).trans ?_
  refine (shown_emit_silent _ _ rfl).trans ?_
  rw [shown_writeCalls hready.sound, hready.silent, hready.toolCalls, List.nil_append]
  simp only [Nat.zero_add]

end OnPremGateway.ChatStream
