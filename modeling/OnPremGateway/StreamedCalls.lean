import OnPremGateway.MessagesStream
import OnPremGateway.ResponsesStream

/-!
# The calls in a translated stream

Whatever order text and reasoning come in, the frames about tool calls are
those of the provider's calls, in their order.
-/

set_option autoImplicit false

namespace OnPremGateway.StreamedCalls
open RuntimeTypes InferenceEvents List Wire

/-! ### Messages -/

namespace Messages
open MessagesStream

inductive ToolPart where
  | start (id name : String)
  | input (json : String)
  deriving DecidableEq, Repr

def toolParts : Frame → List ToolPart
  | .blockStart _ (.toolUse id name) => [.start id name]
  | .blockDelta _ (.inputJSON json) => [.input json]
  | _ => []

section Silent
variable (s : Writer)

theorem shown_openThinking : (openThinking s).wire.shown toolParts = s.wire.shown toolParts := by
  rw [openThinking]
  split_ifs
  · rfl
  · exact shown_emit_silent _ _ rfl

theorem shown_closeThinking : (closeThinking s).wire.shown toolParts = s.wire.shown toolParts := by
  rw [closeThinking]
  split_ifs
  · rfl
  · exact (shown_emit_silent _ _ rfl).trans (shown_emit_silent _ _ rfl)

theorem shown_openText : (openText s).wire.shown toolParts = s.wire.shown toolParts := by
  rw [openText]
  split_ifs
  · rfl
  · exact (shown_emit_silent _ _ rfl).trans (shown_closeThinking s)

theorem shown_onReasoning (r : String) :
    (onReasoning s r).1.wire.shown toolParts = s.wire.shown toolParts := by
  rw [onReasoning]
  split_ifs
  · rfl
  · exact (shown_emit_silent _ _ rfl).trans (shown_openThinking s)

theorem shown_onText (t : String) :
    (onText s t).1.wire.shown toolParts = s.wire.shown toolParts := by
  rw [onText]
  split_ifs
  · rfl
  · exact (shown_emit_silent _ _ rfl).trans (shown_openText s)

theorem shown_closeText : (closeText s).wire.shown toolParts = s.wire.shown toolParts := by
  rw [closeText]
  split_ifs
  · exact (shown_emit_silent _ _ rfl).trans (shown_openText s)
  · rfl

theorem shown_writeEnd : (writeEnd s).wire.shown toolParts = s.wire.shown toolParts :=
  (shown_emit_silent _ _ rfl).trans (shown_emit_silent _ _ rfl)

end Silent

structure Ready (calls : List ToolCall) (s : Writer) : Prop where
  sound : s.wire.Sound
  toolCalls : s.toolCalls = calls
  silent : s.wire.shown toolParts = []

theorem Ready.onChunk {calls : List ToolCall} {s : Writer} (h : Ready calls s) (d : Chunk) :
    (onEvent s d.event).2 = false ∧ Ready calls (onEvent s d.event).1 := by
  refine ⟨onEvent_ok s h.sound _,(onEvent_extends s _).sound h.sound,?_,?_⟩
  · rw [Chunk.event, onEvent_delta s h.sound, onText_toolCalls, onReasoning_toolCalls, h.toolCalls]
  · rw [Chunk.event, onEvent_delta s h.sound, shown_onText, shown_onReasoning, h.silent]

theorem ready_provider (s : Writer) (h : Ready [] s) (chunks : List Chunk) (calls : List ToolCall)
    (usage : Option Usage) (finishReason : String) :
    ∃ t, handleEvents onEvent s (providerEvents chunks calls usage finishReason) = (t, false) ∧
      Ready calls t := by
  apply handleEvents_provider (fun _ _ => ()) (fun _ calls s => Ready calls s) _ _ _ () _ h
  · exact fun _ s d h => h.onChunk d
  · exact fun _ calls s tc h => ⟨rfl,h.sound,congrArg (· ++ [tc]) h.toolCalls,h.silent⟩
  · exact fun _ calls s usage finish h => ⟨rfl,h.sound,h.toolCalls,h.silent⟩

def callParts (tc : ToolCall) : List ToolPart :=
  [.start (anthropicStreamToolUseID tc) tc.name, .input (argumentsOrEmpty tc.arguments)]

theorem shown_writeToolUse {s : Writer} (h : s.wire.Sound) (tc : ToolCall) :
    (writeToolUse s tc).wire.shown toolParts = s.wire.shown toolParts ++ callParts tc := by
  refine (shown_emit_silent _ _ rfl).trans ?_
  refine ((h.emit _).shown_emit _ _).trans ?_
  refine (congrArg (· ++ _) (h.shown_emit _ _)).trans ?_
  exact append_assoc _ _ _

theorem shown_writeToolUses {s : Writer} (h : s.wire.Sound) (calls : List ToolCall) :
    (calls.foldl writeToolUse s).wire.shown toolParts =
      s.wire.shown toolParts ++ calls.flatMap callParts := by
  induction calls generalizing s with
  | nil => exact (append_nil _).symm
  | cons tc calls ih =>
    have hsound : (writeToolUse s tc).wire.Sound := ((h.emit _).emit _).emit _
    rw [foldl_cons, ih hsound, shown_writeToolUse h, append_assoc, flatMap_cons]

theorem toolParts_completeStreamAnthropic (id model : String) (chunks : List Chunk)
    (calls : List ToolCall) (usage : Option Usage) (finishReason : String) :
    (completeStreamAnthropic id model (fun _ => false)
      (providerEvents chunks calls usage finishReason) {}).flatMap toolParts =
      calls.flatMap callParts := by
  have hstart : Ready [] (emitEvent { wire := { fails := fun _ => false } }
      (.messageStart ("msg_" ++ id) model)) := ⟨fun _ => rfl,rfl,rfl⟩
  obtain ⟨t,ht,hready⟩ := ready_provider _ hstart chunks calls usage finishReason
  have hsound : (closeText (closeThinking t)).wire.Sound :=
    (closeText_extends _).sound ((closeThinking_extends t).sound hready.sound)
  have hcalls : (closeText (closeThinking t)).toolCalls = calls := by
    rw [closeText_toolCalls, closeThinking_toolCalls, hready.toolCalls]
  rw [completeStreamAnthropic, ht]
  refine (shown_writeEnd _).trans ?_
  rw [shown_writeToolUses hsound, shown_closeText, shown_closeThinking, hready.silent, hcalls,
    nil_append]

end Messages

/-! ### Responses -/

namespace Responses
open ResponsesStream

def callOf : Item → Option String
  | .functionCall _ callID _ _ _ => some callID
  | _ => none

def doneCalls (f : Frame) : List String :=
  match f.event with
  | .outputItemDone _ item => (callOf item).toList
  | _ => []

section Silent
variable (s : Writer)

theorem shown_openReasoning : (openReasoning s).wire.shown doneCalls = s.wire.shown doneCalls := by
  rw [openReasoning]
  split_ifs
  · rfl
  · exact shown_emit_silent _ _ rfl

theorem shown_openMessage : (openMessage s).wire.shown doneCalls = s.wire.shown doneCalls := by
  rw [openMessage]
  split_ifs
  · rfl
  · exact (shown_emit_silent _ _ rfl).trans (shown_emit_silent _ _ rfl)

theorem shown_onReasoning (r : String) :
    (onReasoning s r).1.wire.shown doneCalls = s.wire.shown doneCalls := by
  rw [onReasoning]
  split_ifs
  · rfl
  · exact (shown_emit_silent _ _ rfl).trans (shown_openReasoning s)

theorem shown_onText (t : String) :
    (onText s t).1.wire.shown doneCalls = s.wire.shown doneCalls := by
  rw [onText]
  split_ifs
  · rfl
  · exact (shown_emit_silent _ _ rfl).trans (shown_openMessage s)

theorem shown_onChunk (d : Chunk) :
    (onEvent s d.event).1.wire.shown doneCalls = s.wire.shown doneCalls := by
  have hr := shown_onReasoning s d.reasoning
  rw [Chunk.event, onEvent]
  generalize onReasoning s d.reasoning = res at hr ⊢
  obtain ⟨s',failed⟩ := res
  cases failed with
  | true => exact hr
  | false => exact (shown_onText s' d.text).trans hr

theorem shown_closeReasoning (output : List Item) :
    (closeReasoning s output).1.wire.shown doneCalls = s.wire.shown doneCalls := by
  rw [closeReasoning]
  split_ifs
  · exact (shown_emit_silent _ _ rfl).trans (shown_emit_silent _ _ rfl)
  · rfl

theorem shown_closeMessage (output : List Item) :
    (closeMessage s output).1.wire.shown doneCalls = s.wire.shown doneCalls := by
  rw [closeMessage]
  split_ifs
  · refine (shown_emit_silent _ _ rfl).trans ?_
    refine (shown_emit_silent _ _ rfl).trans ?_
    exact (shown_emit_silent _ _ rfl).trans (shown_openMessage s)
  · rfl

end Silent

theorem shown_writeCall {p : Writer × List Item} (h : p.1.wire.Sound) (tc : ToolCall) :
    (writeCall p tc).1.wire.shown doneCalls = p.1.wire.shown doneCalls ++ [callIDOf tc] := by
  refine (Wire.Sound.shown_emit (((h.emit _).emit _).emit _) _ _).trans ?_
  refine congrArg (· ++ _) ?_
  refine (shown_emit_silent _ _ rfl).trans ?_
  exact (shown_emit_silent _ _ rfl).trans (shown_emit_silent _ _ rfl)

theorem shown_writeCalls {p : Writer × List Item} (h : p.1.wire.Sound) (calls : List ToolCall) :
    (calls.foldl writeCall p).1.wire.shown doneCalls =
      p.1.wire.shown doneCalls ++ calls.map callIDOf := by
  induction calls generalizing p with
  | nil => exact (append_nil _).symm
  | cons tc calls ih =>
    have hsound : (writeCall p tc).1.wire.Sound := (((h.emit _).emit _).emit _).emit _
    rw [foldl_cons, ih hsound, shown_writeCall h, append_assoc, map_cons]
    rfl

structure Ready (o : Opening) (calls : List ToolCall) (s : Writer) : Prop where
  tracks : Tracks o false calls s
  silent : s.wire.shown doneCalls = []

theorem ready_provider (id model : String) (createdAt : ℤ) (chunks : List Chunk)
    (calls : List ToolCall) (usage : Option Usage) (finishReason : String) :
    ∃ t, handleEvents onEvent (startStream id model createdAt fun _ => false)
        (providerEvents chunks calls usage finishReason) = (t, false) ∧
      Ready (chunks.foldl Opening.take .nothing) calls t := by
  apply handleEvents_provider Opening.take Ready
  · intro o s d h
    obtain ⟨hok,htracks⟩ := h.tracks.onChunk d
    exact ⟨hok,htracks,(shown_onChunk s d).trans h.silent⟩
  · exact fun o calls s tc h => ⟨rfl,h.tracks.onToolCall tc,h.silent⟩
  · exact fun o calls s usage finish h => ⟨rfl,{ h.tracks with },h.silent⟩
  · exact ⟨tracks_start id model createdAt,rfl⟩

theorem doneCalls_completeStreamResponses (id model : String) (createdAt : ℤ)
    (chunks : List Chunk) (calls : List ToolCall) (usage : Option Usage) (finishReason : String) :
    (completeStreamResponses id model createdAt (fun _ => false)
      (providerEvents chunks calls usage finishReason) {}).flatMap doneCalls =
      calls.map callIDOf := by
  obtain ⟨t,ht,hready⟩ := ready_provider id model createdAt chunks calls usage finishReason
  obtain ⟨hr,-⟩ := hready.tracks.closeReasoning []
  obtain ⟨hcalls,hm⟩ := hr.closeMessage (closeReasoning t []).2
  rw [completeStreamResponses, ht]
  refine (shown_emit_silent _ _ rfl).trans ?_
  rw [shown_writeCalls hm.reads.1, shown_closeMessage, shown_closeReasoning, hready.silent, hcalls,
    nil_append]

end Responses

end OnPremGateway.StreamedCalls
