import OnPremGateway.InferenceEvents

/-!
# Translated Responses streams

An output item takes its index when it is first announced; the completed
response lists the reasoning, the message and the calls in that order. The two
agree exactly when the message is not announced before the reasoning.
-/

set_option autoImplicit false

namespace OnPremGateway.ResponsesStream
open RuntimeTypes InferenceEvents List

/-- An output item. The content of a message or of a reasoning item is empty
until its text is known. -/
inductive Item where
  | reasoning (id : String) (content : Option String)
  | message (id status : String) (content : Option String)
  | functionCall (id callID name arguments status : String)
  deriving DecidableEq, Repr

def Item.id : Item → String
  | .reasoning id _ => id
  | .message id _ _ => id
  | .functionCall id _ _ _ _ => id

def Item.payload : Item → String
  | .reasoning _ content => content.getD ""
  | .message _ _ content => content.getD ""
  | .functionCall _ _ _ arguments _ => arguments

structure ResponseUsage where
  inputTokens : ℤ
  outputTokens : ℤ
  totalTokens : ℤ
  deriving DecidableEq, Repr

structure Response where
  id : String
  createdAt : ℤ
  status : String
  model : String
  output : List Item
  usage : Option ResponseUsage
  error : Option (String × String) := none
  deriving DecidableEq, Repr

inductive Event where
  | created (response : Response)
  | inProgress (response : Response)
  | outputItemAdded (outputIndex : ℕ) (item : Item)
  | contentPartAdded (itemID : String) (outputIndex : ℕ) (text : String)
  | reasoningTextDelta (itemID : String) (outputIndex : ℕ) (delta : String)
  | outputTextDelta (itemID : String) (outputIndex : ℕ) (delta : String)
  | reasoningTextDone (itemID : String) (outputIndex : ℕ) (text : String)
  | outputTextDone (itemID : String) (outputIndex : ℕ) (text : String)
  | contentPartDone (itemID : String) (outputIndex : ℕ) (text : String)
  | argumentsDelta (itemID : String) (outputIndex : ℕ) (delta : String)
  | argumentsDone (itemID : String) (outputIndex : ℕ) (name arguments : String)
  | outputItemDone (outputIndex : ℕ) (item : Item)
  | completed (response : Response)
  | failed (response : Response)
  deriving DecidableEq, Repr

structure Frame where
  sequenceNumber : ℕ
  event : Event
  deriving DecidableEq, Repr

/-! ### The writer -/

structure Writer where
  wire : Wire Frame
  id : String
  model : String
  createdAt : ℤ
  seq : ℕ := 0
  nextOut : ℕ := 0
  reasoningOpened : Bool := false
  reasoningIdx : ℕ := 0
  messageOpened : Bool := false
  msgIdx : ℕ := 0
  full : String := ""
  reasoningFull : String := ""
  usage : Usage := {}
  toolCalls : List ToolCall := []

def Writer.respID (s : Writer) : String := "resp_" ++ s.id
def Writer.msgID (s : Writer) : String := "msg_" ++ s.id
def Writer.reasoningID (s : Writer) : String := "rs_" ++ s.id

def emitEvent (s : Writer) (ev : Event) : Writer :=
  { s with wire := s.wire.emit ⟨s.seq, ev⟩, seq := s.seq+1 }

def responseObject (s : Writer) (status : String) (output : List Item) (usage : Option Usage) :
    Response :=
  { id := s.respID
    createdAt := s.createdAt
    status := status
    model := s.model
    output := output
    usage := usage.map fun u => ⟨u.inputTokens, u.outputTokens, u.totalTokens⟩ }

def messageItem (s : Writer) (status : String) (content : Option String) : Item :=
  .message s.msgID status content

def reasoningItem (s : Writer) (text : String) : Item :=
  .reasoning s.reasoningID (if text = "" then none else some text)

def callIDOf (tc : ToolCall) : String := if tc.id = "" then "call_" ++ tc.name else tc.id

def functionCallItem (status : String) (tc : ToolCall) (arguments : String) : Item :=
  .functionCall ("fc_" ++ callIDOf tc) (callIDOf tc) tc.name arguments status

def openReasoning (s : Writer) : Writer :=
  if s.reasoningOpened then s
  else emitEvent
    { s with reasoningOpened := true, reasoningIdx := s.nextOut, nextOut := s.nextOut+1 }
    (.outputItemAdded s.nextOut (reasoningItem s ""))

def openMessage (s : Writer) : Writer :=
  if s.messageOpened then s
  else
    let s := { s with messageOpened := true, msgIdx := s.nextOut, nextOut := s.nextOut+1 }
    let s := emitEvent s (.outputItemAdded s.msgIdx (messageItem s "in_progress" none))
    emitEvent s (.contentPartAdded s.msgID s.msgIdx "")

def onReasoning (s : Writer) (reasoning : String) : Writer × Bool :=
  if reasoning = "" then (s, false)
  else
    let s := openReasoning s
    let s := { s with reasoningFull := s.reasoningFull ++ reasoning }
    (emitEvent s (.reasoningTextDelta s.reasoningID s.reasoningIdx reasoning), s.wire.broken)

def onText (s : Writer) (text : String) : Writer × Bool :=
  if text = "" then (s, false)
  else
    let s := openMessage s
    let s := { s with full := s.full ++ text }
    (emitEvent s (.outputTextDelta s.msgID s.msgIdx text), s.wire.broken)

def onEvent (s : Writer) : StreamEvent → Writer × Bool
  | .textDelta text reasoning =>
    match onReasoning s reasoning with
    | (s, true) => (s, true)
    | (s, false) => onText s text
  | .toolCall none => (s, false)
  | .toolCall (some call) => ({ s with toolCalls := s.toolCalls ++ [call] }, false)
  | .completed usage _ => ({ s with usage := usage.getD s.usage }, false)
  | .other => (s, false)

def closeReasoning (s : Writer) (output : List Item) : Writer × List Item :=
  if s.reasoningOpened then
    let item := reasoningItem s s.reasoningFull
    let s := emitEvent s (.reasoningTextDone s.reasoningID s.reasoningIdx s.reasoningFull)
    (emitEvent s (.outputItemDone s.reasoningIdx item), output ++ [item])
  else (s, output)

def closeMessage (s : Writer) (output : List Item) : Writer × List Item :=
  if s.messageOpened || s.toolCalls.isEmpty then
    let s := openMessage s
    let item := messageItem s "completed" (some s.full)
    let s := emitEvent s (.outputTextDone s.msgID s.msgIdx s.full)
    let s := emitEvent s (.contentPartDone s.msgID s.msgIdx s.full)
    (emitEvent s (.outputItemDone s.msgIdx item), output ++ [item])
  else (s, output)

def writeCall (p : Writer × List Item) (tc : ToolCall) : Writer × List Item :=
  let s := p.1
  let outIdx := s.nextOut
  let s := { s with nextOut := s.nextOut+1 }
  let args := argumentsOrEmpty tc.arguments
  let added := functionCallItem "in_progress" tc ""
  let item := functionCallItem "completed" tc args
  let s := emitEvent s (.outputItemAdded outIdx added)
  let s := emitEvent s (.argumentsDelta added.id outIdx args)
  let s := emitEvent s (.argumentsDone added.id outIdx tc.name args)
  (emitEvent s (.outputItemDone outIdx item), p.2 ++ [item])

def writeSuccess (s : Writer) : Writer :=
  let p := closeReasoning s []
  let p := closeMessage p.1 p.2
  let p := p.1.toolCalls.foldl writeCall p
  emitEvent p.1 (.completed (responseObject p.1 "completed" p.2 (some p.1.usage)))

def writeFailed (s : Writer) (code message : String) : Writer :=
  emitEvent s (.failed { responseObject s "failed" [] none with error := some (code, message) })

def writeTerminal (s : Writer) (errorCode : String) : Writer :=
  if errorCode = "" then writeSuccess s
  else if errorCode = errCodeStreamIdleTimeout then writeFailed s errorCode msgStreamIdleTimeout
  else if errorCode = errCodeClientDisconnected then s
  else writeFailed s errorCode msgProviderError

def startStream (id model : String) (createdAt : ℤ) (fails : ℕ → Bool) : Writer :=
  let s : Writer :=
    { wire := { fails := fails }, id := id, model := model, createdAt := createdAt }
  let s := emitEvent s (.created (responseObject s "in_progress" [] none))
  emitEvent s (.inProgress (responseObject s "in_progress" [] none))

def completeStreamResponses (id model : String) (createdAt : ℤ) (fails : ℕ → Bool)
    (events : List StreamEvent) (ending : Ending) : List Frame :=
  let (s, failed) := handleEvents onEvent (startStream id model createdAt fails) events
  (writeTerminal s (terminalStatus (streamError failed ending) ending)).wire.sent

/-! ### The reader -/

structure Announced where
  id : String
  deltas : String := ""
  finished : Option Item := none
  deriving DecidableEq, Repr

def Announced.Matches (a : Announced) (item : Item) : Prop :=
  a.finished = some item ∧ item.payload = a.deltas

instance (a : Announced) (item : Item) : Decidable (a.Matches item) :=
  inferInstanceAs (Decidable (_ ∧ _))

def update (items : List Announced) (i : ℕ) (id : String) (f : Announced → Announced) :
    Option (List Announced) :=
  ((items[i]?).filter fun a => a.id = id ∧ a.finished = none).map fun a => items.set i (f a)

def readEvent (items : List Announced) : Event → Option (List Announced)
  | .outputItemAdded i item =>
    if i = items.length then some (items ++ [{ id := item.id }]) else none
  | .reasoningTextDelta id i delta =>
    update items i id fun a => { a with deltas := a.deltas ++ delta }
  | .outputTextDelta id i delta =>
    update items i id fun a => { a with deltas := a.deltas ++ delta }
  | .argumentsDelta id i delta =>
    update items i id fun a => { a with deltas := a.deltas ++ delta }
  | .outputItemDone i item =>
    update items i item.id fun a => { a with finished := some item }
  | .completed response =>
    if List.Forall₂ Announced.Matches items response.output then some items else none
  | .failed _ => none
  | _ => some items

def Event.isCompleted : Event → Bool
  | .completed _ => true
  | _ => false

structure Client where
  frames : ℕ := 0
  items : List Announced := []
  completed : Bool := false
  deriving DecidableEq, Repr

def Client.read (c : Client) (f : Frame) : Option Client :=
  if c.completed = true ∨ f.sequenceNumber ≠ c.frames then none
  else (readEvent c.items f.event).map fun items => ⟨c.frames+1, items, f.event.isCompleted⟩

def Client.readAll : Client → List Frame → Option Client
  | c, [] => some c
  | c, f::fs => (c.read f).bind fun c => c.readAll fs

theorem Client.readAll_append (c : Client) (fs gs : List Frame) :
    c.readAll (fs ++ gs) = (c.readAll fs).bind fun c => c.readAll gs := by
  induction fs generalizing c with
  | nil => rfl
  | cons f fs ih =>
    rw [cons_append, Client.readAll, Client.readAll, Option.bind_assoc]
    congr 1
    funext c
    exact ih c

/-- The frames are read to their end, and the last is the completed response. -/
def WellFormed (frames : List Frame) : Prop :=
  ∃ c, ({} : Client).readAll frames = some c ∧ c.completed = true

/-- What went out was read, and announced these items. -/
def Reads (w : Wire Frame) (seq : ℕ) (items : List Announced) : Prop :=
  w.Sound ∧ ({} : Client).readAll w.sent = some ⟨seq, items, false⟩

variable {s : Writer}

theorem readAll_emit {items : List Announced} (h : Reads s.wire s.seq items) (ev : Event) :
    ({} : Client).readAll (emitEvent s ev).wire.sent =
      (readEvent items ev).map fun items => ⟨s.seq+1, items, ev.isCompleted⟩ := by
  rw [emitEvent, h.1.sent_emit, Client.readAll_append, h.2]
  simp only [Option.bind_some, Client.readAll, Client.read, Bool.false_eq_true, ne_eq,
    not_true_eq_false, or_self, if_false]
  cases readEvent items ev <;> rfl

theorem Reads.emit {items items' : List Announced} {ev : Event} (h : Reads s.wire s.seq items)
    (hev : readEvent items ev = some items') (hrun : ev.isCompleted = false) :
    Reads (emitEvent s ev).wire (emitEvent s ev).seq items' := by
  constructor
  · exact h.1.emit _
  · rw [readAll_emit h, hev, hrun]
    rfl

/-! ### The order in which the items open -/

/-- The reasoning and the message, in the order they were announced. -/
inductive Opening where
  | nothing | reasoning | message | reasoningMessage | messageReasoning
  deriving DecidableEq, Repr

namespace Opening

def items (r m : Announced) : Opening → List Announced
  | nothing => []
  | reasoning => [r]
  | message => [m]
  | reasoningMessage => [r, m]
  | messageReasoning => [m, r]

def hasReasoning : Opening → Bool
  | nothing | message => false
  | _ => true

def hasMessage : Opening → Bool
  | nothing | reasoning => false
  | _ => true

def reasoningIndex : Opening → ℕ
  | messageReasoning => 1
  | _ => 0

def messageIndex : Opening → ℕ
  | reasoningMessage => 1
  | _ => 0

def openReasoning : Opening → Opening
  | nothing => reasoning
  | message => messageReasoning
  | o => o

def openMessage : Opening → Opening
  | nothing => message
  | reasoning => reasoningMessage
  | o => o

def take (o : Opening) (d : Chunk) : Opening :=
  let o := if d.reasoning = "" then o else o.openReasoning
  if d.text = "" then o else o.openMessage

variable (o : Opening)

theorem update_reasoning (r m : Announced) (f : Announced → Announced)
    (ho : o.hasReasoning = true) (hr : r.finished = none) :
    update (o.items r m) o.reasoningIndex r.id f = some (o.items (f r) m) := by
  cases o <;> simp_all [update, items, reasoningIndex, hasReasoning]

theorem update_message (r m : Announced) (f : Announced → Announced)
    (ho : o.hasMessage = true) (hm : m.finished = none) :
    update (o.items r m) o.messageIndex m.id f = some (o.items r (f m)) := by
  cases o <;> simp_all [update, items, messageIndex, hasMessage]

theorem items_openReasoning (r m : Announced) (ho : o.hasReasoning = false) :
    o.openReasoning.items r m = o.items r m ++ [r] := by
  cases o <;> first | rfl | cases ho

theorem items_openMessage (r m : Announced) (ho : o.hasMessage = false) :
    o.openMessage.items r m = o.items r m ++ [m] := by
  cases o <;> first | rfl | cases ho

theorem hasReasoning_openReasoning : o.openReasoning.hasReasoning = true := by
  cases o <;> rfl

theorem hasMessage_openMessage : o.openMessage.hasMessage = true := by
  cases o <;> rfl

theorem hasMessage_openReasoning : o.openReasoning.hasMessage = o.hasMessage := by
  cases o <;> rfl

theorem hasReasoning_openMessage : o.openMessage.hasReasoning = o.hasReasoning := by
  cases o <;> rfl

theorem items_congr_reasoning (r r' m : Announced) (ho : o.hasReasoning = false) :
    o.items r m = o.items r' m := by
  cases o <;> first | rfl | cases ho

theorem items_congr_message (r m m' : Announced) (ho : o.hasMessage = false) :
    o.items r m = o.items r m' := by
  cases o <;> first | rfl | cases ho

theorem openReasoning_eq (ho : o.hasReasoning = true) : o.openReasoning = o := by
  cases o <;> first | rfl | cases ho

theorem openMessage_eq (ho : o.hasMessage = true) : o.openMessage = o := by
  cases o <;> first | rfl | cases ho

theorem reasoningIndex_openReasoning (r m : Announced)
    (ho : o.hasReasoning = false) : o.openReasoning.reasoningIndex = (o.items r m).length := by
  cases o <;> first | rfl | cases ho

theorem messageIndex_openMessage (r m : Announced) (ho : o.hasMessage = false) :
    o.openMessage.messageIndex = (o.items r m).length := by
  cases o <;> first | rfl | cases ho

theorem messageIndex_openReasoning : o.openReasoning.messageIndex = o.messageIndex := by
  cases o <;> rfl

theorem reasoningIndex_openMessage : o.openMessage.reasoningIndex = o.reasoningIndex := by
  cases o <;> rfl

end Opening

/-! ### What the writer has announced -/

def announcedReasoning (s : Writer) (closed : Bool) : Announced :=
  { id := s.reasoningID
    deltas := s.reasoningFull
    finished := if closed then some (reasoningItem s s.reasoningFull) else none }

def announcedMessage (s : Writer) : Announced := { id := s.msgID, deltas := s.full }

structure Tracks (o : Opening) (closed : Bool) (calls : List ToolCall) (s : Writer) : Prop where
  reads : Reads s.wire s.seq (o.items (announcedReasoning s closed) (announcedMessage s))
  toolCalls : s.toolCalls = calls
  nextOut : ∀ r m, s.nextOut = (o.items r m).length
  reasoningOpened : s.reasoningOpened = o.hasReasoning
  messageOpened : s.messageOpened = o.hasMessage
  reasoningIdx : o.hasReasoning = true → s.reasoningIdx = o.reasoningIndex
  msgIdx : o.hasMessage = true → s.msgIdx = o.messageIndex
  reasoningFull : o.hasReasoning = false → s.reasoningFull = ""
  full : o.hasMessage = false → s.full = ""

section Step
variable {o : Opening} {calls : List ToolCall} {s : Writer}

theorem Tracks.openReasoning (h : Tracks o false calls s) :
    Tracks o.openReasoning false calls (openReasoning s) := by
  rw [ResponsesStream.openReasoning, h.reasoningOpened]
  by_cases ho : o.hasReasoning = true
  · rw [if_pos ho, o.openReasoning_eq ho]
    exact h
  rw [if_neg ho]
  rw [Bool.not_eq_true] at ho
  have hr : announcedReasoning s false = { id := s.reasoningID } := by
    rw [announcedReasoning, h.reasoningFull ho]
    rfl
  constructor
  case reads =>
    rw [o.items_openReasoning _ _ ho]
    apply Reads.emit h.reads _ rfl
    rw [readEvent, if_pos (h.nextOut _ _)]
    exact congrArg (fun a => some (_ ++ [a])) hr.symm
  case nextOut =>
    intro r m
    rw [o.items_openReasoning _ _ ho, length_append]
    exact congrArg (·+1) (h.nextOut r m)
  case toolCalls => exact h.toolCalls
  case reasoningOpened => exact o.hasReasoning_openReasoning.symm
  case messageOpened => exact h.messageOpened.trans o.hasMessage_openReasoning.symm
  case reasoningIdx =>
    intro _
    rw [o.reasoningIndex_openReasoning (announcedReasoning s false) (announcedMessage s) ho]
    exact h.nextOut _ _
  case msgIdx =>
    rw [o.hasMessage_openReasoning, o.messageIndex_openReasoning]
    exact h.msgIdx
  case reasoningFull => exact fun _ => h.reasoningFull ho
  case full =>
    rw [o.hasMessage_openReasoning]
    exact h.full

theorem Tracks.openMessage {closed : Bool} (h : Tracks o closed calls s) :
    Tracks o.openMessage closed calls (openMessage s) := by
  rw [ResponsesStream.openMessage, h.messageOpened]
  by_cases ho : o.hasMessage = true
  · rw [if_pos ho, o.openMessage_eq ho]
    exact h
  rw [if_neg ho]
  rw [Bool.not_eq_true] at ho
  have hm : announcedMessage s = { id := s.msgID } := by
    rw [announcedMessage, h.full ho]
  constructor
  case reads =>
    rw [o.items_openMessage _ _ ho]
    apply Reads.emit _ rfl rfl
    apply Reads.emit h.reads _ rfl
    rw [readEvent, if_pos (h.nextOut _ _)]
    exact congrArg (fun a => some (_ ++ [a])) hm.symm
  case nextOut =>
    intro r m
    rw [o.items_openMessage _ _ ho, length_append]
    exact congrArg (·+1) (h.nextOut r m)
  case toolCalls => exact h.toolCalls
  case reasoningOpened => exact h.reasoningOpened.trans o.hasReasoning_openMessage.symm
  case messageOpened => exact o.hasMessage_openMessage.symm
  case reasoningIdx =>
    rw [o.hasReasoning_openMessage, o.reasoningIndex_openMessage]
    exact h.reasoningIdx
  case msgIdx =>
    intro _
    rw [o.messageIndex_openMessage (announcedReasoning s false) (announcedMessage s) ho]
    exact h.nextOut _ _
  case reasoningFull =>
    rw [o.hasReasoning_openMessage]
    exact h.reasoningFull
  case full => exact fun _ => h.full ho

theorem Tracks.onReasoning (h : Tracks o false calls s) (text : String) :
    (onReasoning s text).2 = false ∧
      Tracks (if text = "" then o else o.openReasoning) false calls (onReasoning s text).1 := by
  rw [ResponsesStream.onReasoning]
  by_cases ht : text = ""
  · rw [if_pos ht, if_pos ht]
    exact ⟨rfl,h⟩
  rw [if_neg ht, if_neg ht]
  replace h := h.openReasoning
  have ho := o.hasReasoning_openReasoning
  generalize ResponsesStream.openReasoning s = s at h ⊢
  generalize o.openReasoning = o at h ho ⊢
  refine ⟨h.reads.1.broken,{ h with reads := ?_, reasoningFull := ?_ }⟩
  · apply Reads.emit h.reads _ rfl
    rw [readEvent]
    dsimp only
    rw [h.reasoningIdx ho]
    exact o.update_reasoning (announcedReasoning s false) _ _ ho rfl
  · rw [ho]
    exact nofun

theorem Tracks.onText (h : Tracks o false calls s) (text : String) : (onText s text).2 = false ∧
      Tracks (if text = "" then o else o.openMessage) false calls (onText s text).1 := by
  rw [ResponsesStream.onText]
  by_cases ht : text = ""
  · rw [if_pos ht, if_pos ht]
    exact ⟨rfl,h⟩
  rw [if_neg ht, if_neg ht]
  replace h := h.openMessage
  have ho := o.hasMessage_openMessage
  generalize ResponsesStream.openMessage s = s at h ⊢
  generalize o.openMessage = o at h ho ⊢
  refine ⟨h.reads.1.broken,{ h with reads := ?_, full := ?_ }⟩
  · apply Reads.emit h.reads _ rfl
    rw [readEvent]
    dsimp only
    rw [h.msgIdx ho]
    exact o.update_message _ (announcedMessage s) _ ho rfl
  · rw [ho]
    exact nofun

theorem Tracks.onChunk (h : Tracks o false calls s) (d : Chunk) :
    (onEvent s d.event).2 = false ∧ Tracks (o.take d) false calls (onEvent s d.event).1 := by
  obtain ⟨hok,hr⟩ := h.onReasoning d.reasoning
  rw [Chunk.event, onEvent]
  generalize ResponsesStream.onReasoning s d.reasoning = res at hok hr ⊢
  obtain ⟨s',failed⟩ := res
  subst hok
  exact hr.onText d.text

theorem Tracks.onToolCall (h : Tracks o false calls s) (tc : ToolCall) :
    Tracks o false (calls ++ [tc]) (onEvent s (.toolCall (some tc))).1 :=
  { h with toolCalls := congrArg (· ++ [tc]) h.toolCalls }

end Step

/-! ### The end of the stream -/

section Close
variable {o : Opening} {calls : List ToolCall} {s : Writer}

theorem Tracks.closeReasoning (h : Tracks o false calls s) (output : List Item) :
    let p := closeReasoning s output
    Tracks o true calls p.1 ∧ p.2 = output ++
      if o.hasReasoning = true then [reasoningItem p.1 p.1.reasoningFull] else [] := by
  rw [ResponsesStream.closeReasoning, h.reasoningOpened]
  by_cases ho : o.hasReasoning = true
  · rw [if_pos ho]
    intro p
    rw [if_pos ho]
    refine ⟨?_,rfl⟩
    refine { h with reads := ?_ }
    apply Reads.emit _ _ rfl
    · exact o.items (announcedReasoning s false) (announcedMessage s)
    · exact Reads.emit h.reads rfl rfl
    · rw [readEvent]
      change update _ s.reasoningIdx _ _ = _
      rw [h.reasoningIdx ho]
      exact o.update_reasoning (announcedReasoning s false) _ _ ho rfl
  · rw [if_neg ho]
    intro p
    rw [if_neg ho, append_nil]
    rw [Bool.not_eq_true] at ho
    refine ⟨{ h with reads := ?_ },rfl⟩
    rw [o.items_congr_reasoning _ (announcedReasoning s false) _ ho]
    exact h.reads

def Opening.closeMessage (o : Opening) (calls : List ToolCall) : Opening :=
  if o.hasMessage || calls.isEmpty then o.openMessage else o

structure Finished (items : List Announced) (p : Writer × List Item) (output : List Item) :
    Prop where
  reads : Reads p.1.wire p.1.seq items
  nextOut : p.1.nextOut = items.length
  output : p.2 = output

def finishedMessage (s : Writer) : Announced :=
  { announcedMessage s with finished := some (messageItem s "completed" (some s.full)) }

theorem Tracks.closeMessage (h : Tracks o true calls s) (output : List Item) :
    (closeMessage s output).1.toolCalls = calls ∧
    Finished ((o.closeMessage calls).items (announcedReasoning s true) (finishedMessage s))
      (closeMessage s output) (output ++ if (o.closeMessage calls).hasMessage = true then
          [messageItem s "completed" (some s.full)] else []) := by
  rw [ResponsesStream.closeMessage, Opening.closeMessage, h.messageOpened, h.toolCalls]
  by_cases ho : (o.hasMessage || calls.isEmpty) = true
  · rw [if_pos ho, if_pos ho, if_pos o.hasMessage_openMessage]
    have ht := h.openMessage
    have hr : announcedReasoning (ResponsesStream.openMessage s) true =
        announcedReasoning s true := by
      rw [ResponsesStream.openMessage]
      split_ifs <;> rfl
    have hm : finishedMessage (ResponsesStream.openMessage s) = finishedMessage s := by
      rw [ResponsesStream.openMessage]
      split_ifs <;> rfl
    have hitem : messageItem s "completed" (some s.full) =
        messageItem (ResponsesStream.openMessage s) "completed"
          (some (ResponsesStream.openMessage s).full) := by
      rw [ResponsesStream.openMessage]
      split_ifs <;> rfl
    rw [← hr, ← hm, hitem]
    have hhas := o.hasMessage_openMessage
    generalize ResponsesStream.openMessage s = t at ht ⊢
    generalize o.openMessage = o at ht hhas ⊢
    refine ⟨ht.toolCalls,?_,ht.nextOut _ _,rfl⟩
    apply Reads.emit _ _ rfl
    · exact o.items (announcedReasoning t true) (announcedMessage t)
    · apply Reads.emit _ rfl rfl
      exact Reads.emit ht.reads rfl rfl
    · rw [readEvent]
      change update _ t.msgIdx _ _ = _
      rw [ht.msgIdx hhas]
      exact o.update_message _ (announcedMessage t) _ hhas rfl
  · rw [if_neg ho, if_neg ho]
    have hno : o.hasMessage = false := by
      cases hm : o.hasMessage with
      | true => exact absurd (by rw [hm]; rfl) ho
      | false => rfl
    rw [hno, if_neg Bool.false_ne_true, append_nil]
    refine ⟨h.toolCalls,?_,h.nextOut _ _,rfl⟩
    rw [o.items_congr_message _ _ (announcedMessage s) hno]
    exact h.reads

end Close

def callItem (tc : ToolCall) : Item :=
  functionCallItem "completed" tc (argumentsOrEmpty tc.arguments)

def finishedCall (tc : ToolCall) : Announced :=
  { id := (callItem tc).id
    deltas := argumentsOrEmpty tc.arguments
    finished := some (callItem tc) }

theorem update_last (items : List Announced) (a : Announced) (f : Announced → Announced)
    (ha : a.finished = none) :
    update (items ++ [a]) items.length a.id f = some (items ++ [f a]) := by
  simp [update, ha]

theorem Reads.call {items : List Announced} {i : ℕ} (h : Reads s.wire s.seq items)
    (hi : i = items.length) (added item : Item) (name args : String) (hid : item.id = added.id) :
    let t := emitEvent (emitEvent (emitEvent (emitEvent s (.outputItemAdded i added))
      (.argumentsDelta added.id i args)) (.argumentsDone added.id i name args))
      (.outputItemDone i item)
    Reads t.wire t.seq
      (items ++ [{ id := item.id, deltas := args, finished := some item }]) := by
  intro t
  subst hi
  apply Reads.emit _ _ rfl
  · exact items ++ [{ id := item.id, deltas := args }]
  · apply Reads.emit _ rfl rfl
    apply Reads.emit _ _ rfl
    · exact items ++ [{ id := item.id }]
    · apply Reads.emit h _ rfl
      rw [readEvent, if_pos rfl, hid]
    · rw [readEvent, ← hid, update_last items { id := item.id } _ rfl, String.empty_append]
  · rw [readEvent]
    exact update_last items { id := item.id, deltas := args } _ rfl

theorem Finished.writeCall {items : List Announced} {p : Writer × List Item} {output : List Item}
    (h : Finished items p output) (tc : ToolCall) :
    Finished (items ++ [finishedCall tc]) (writeCall p tc) (output ++ [callItem tc]) := by
  constructor
  case reads =>
    exact Reads.call h.reads h.nextOut (functionCallItem "in_progress" tc "") (callItem tc)
      tc.name (argumentsOrEmpty tc.arguments) rfl
  case nextOut =>
    rw [length_append]
    exact congrArg (·+1) h.nextOut
  case output => exact congrArg (· ++ [callItem tc]) h.output

theorem Finished.writeCalls {items : List Announced} {p : Writer × List Item} {output : List Item}
    (h : Finished items p output) (calls : List ToolCall) :
    Finished (items ++ calls.map finishedCall) (calls.foldl ResponsesStream.writeCall p)
      (output ++ calls.map callItem) := by
  induction calls generalizing items p output with
  | nil => simpa using h
  | cons tc calls ih =>
    have hrest := ih (h.writeCall tc)
    rw [append_assoc, append_assoc] at hrest
    exact hrest

/-! ### The whole stream -/

theorem tracks_start (id model : String) (createdAt : ℤ) :
    Tracks .nothing false [] (startStream id model createdAt fun _ => false) := by
  have hempty : Reads ({ fails := fun _ => false } : Wire Frame) 0 [] := ⟨fun _ => rfl,rfl⟩
  constructor
  case reads =>
    apply Reads.emit _ rfl rfl
    exact Reads.emit hempty rfl rfl
  all_goals intros; rfl

theorem tracks_provider (id model : String) (createdAt : ℤ) (chunks : List Chunk)
    (calls : List ToolCall) (usage : Option Usage) (finishReason : String) :
    ∃ t, handleEvents onEvent (startStream id model createdAt fun _ => false)
        (providerEvents chunks calls usage finishReason) = (t, false) ∧
      Tracks (chunks.foldl Opening.take .nothing) false calls t := by
  apply handleEvents_provider Opening.take (fun o calls s => Tracks o false calls s)
  · exact fun o s d h => h.onChunk d
  · exact fun o calls s tc h => ⟨rfl,h.onToolCall tc⟩
  · exact fun o calls s usage finish h => ⟨rfl,{ h with }⟩
  · exact tracks_start id model createdAt

/-- The delta that opens the stream's items carries reasoning, or none does. -/
def reasoningLeads : List Chunk → Bool
  | [] => true
  | d::ds =>
    if d.reasoning ≠ "" then true
    else if d.text ≠ "" then ds.all (·.reasoning = "")
    else reasoningLeads ds

theorem foldl_take_reasoning (o : Opening) (ho : o = .reasoning ∨ o = .reasoningMessage)
    (chunks : List Chunk) : chunks.foldl Opening.take o ≠ .messageReasoning := by
  induction chunks generalizing o with
  | nil => rcases ho with rfl | rfl <;> decide
  | cons d ds ih =>
    apply ih
    rw [Opening.take]
    rcases ho with rfl | rfl <;> split_ifs <;> simp [Opening.openReasoning, Opening.openMessage]

theorem foldl_take_messageReasoning (chunks : List Chunk) :
    chunks.foldl Opening.take .messageReasoning = .messageReasoning := by
  induction chunks with
  | nil => rfl
  | cons d ds ih =>
    have hd : Opening.take .messageReasoning d = .messageReasoning := by
      rw [Opening.take]
      split_ifs <;> rfl
    rw [foldl_cons, hd, ih]

theorem foldl_take_message (chunks : List Chunk) :
    chunks.foldl Opening.take .message ≠ .messageReasoning ↔
      chunks.all (·.reasoning = "") = true := by
  induction chunks with
  | nil => decide
  | cons d ds ih =>
    rw [foldl_cons, all_cons]
    by_cases hd : d.reasoning = ""
    · have htake : Opening.take .message d = .message := by
        rw [Opening.take, if_pos hd]
        split_ifs <;> rfl
      rw [htake, ih]
      simp [hd]
    · have htake : Opening.take .message d = .messageReasoning := by
        rw [Opening.take, if_neg hd]
        split_ifs <;> rfl
      rw [htake, foldl_take_messageReasoning]
      simp [hd]

theorem foldl_take_nothing (chunks : List Chunk) :
    chunks.foldl Opening.take .nothing ≠ .messageReasoning ↔ reasoningLeads chunks = true := by
  induction chunks with
  | nil => decide
  | cons d ds ih =>
    rw [foldl_cons, reasoningLeads, Opening.take]
    by_cases hr : d.reasoning = ""
    · rw [if_pos hr, if_neg (not_not.mpr hr)]
      by_cases ht : d.text = ""
      · rw [if_pos ht, if_neg (not_not.mpr ht)]
        exact ih
      · rw [if_neg ht, if_pos ht]
        exact foldl_take_message ds
    · rw [if_neg hr, if_pos hr]
      refine iff_of_true (foldl_take_reasoning _ ?_ ds) rfl
      split_ifs
      · exact .inl rfl
      · exact .inr rfl

theorem matches_calls (calls : List ToolCall) :
    List.Forall₂ Announced.Matches (calls.map finishedCall) (calls.map callItem) := by
  induction calls with
  | nil => exact .nil
  | cons tc calls ih => exact .cons ⟨rfl,rfl⟩ ih

theorem announcedReasoning_matches (s : Writer) :
    (announcedReasoning s true).Matches (reasoningItem s s.reasoningFull) := by
  refine ⟨rfl,?_⟩
  rw [reasoningItem]
  split_ifs with h
  · exact h.symm
  · rfl

/-- The completed response lists the items in the order they were announced,
unless the message was announced before the reasoning. -/
theorem matches_output_iff (o : Opening) (r m : Announced) (rItem mItem : Item)
    (calls : List ToolCall) (hr : r.Matches rItem) (hm : m.Matches mItem) (hne : rItem ≠ mItem) :
    List.Forall₂ Announced.Matches (o.items r m ++ calls.map finishedCall)
      ([] ++ (if o.hasReasoning = true then [rItem] else []) ++
        (if o.hasMessage = true then [mItem] else []) ++ calls.map callItem) ↔
      o ≠ .messageReasoning := by
  have hcalls := matches_calls calls
  cases o with
  | nothing => exact iff_of_true hcalls nofun
  | reasoning => exact iff_of_true (.cons hr hcalls) nofun
  | message => exact iff_of_true (.cons hm hcalls) nofun
  | reasoningMessage => exact iff_of_true (.cons hr (.cons hm hcalls)) nofun
  | messageReasoning =>
    refine iff_of_false ?_ (not_not.mpr rfl)
    rintro (_ | ⟨hfirst,_⟩)
    -- the first announced item is the message, the first listed one the reasoning
    have heq := hfirst.1.symm.trans hm.1
    exact hne (Option.some.inj heq)

theorem closeMessage_eq_messageReasoning (o : Opening) (calls : List ToolCall) :
    o.closeMessage calls = .messageReasoning ↔ o = .messageReasoning := by
  rw [Opening.closeMessage]
  split_ifs
  · cases o <;> simp [Opening.openMessage]
  · rfl

theorem hasReasoning_closeMessage (o : Opening) (calls : List ToolCall) :
    (o.closeMessage calls).hasReasoning = o.hasReasoning := by
  rw [Opening.closeMessage]
  split_ifs
  · exact o.hasReasoning_openMessage
  · rfl

theorem wellFormed_completed {items : List Announced} (h : Reads s.wire s.seq items)
    (response : Response) : WellFormed (emitEvent s (.completed response)).wire.sent ↔
      List.Forall₂ Announced.Matches items response.output := by
  rw [WellFormed, readAll_emit h, readEvent]
  by_cases hm : List.Forall₂ Announced.Matches items response.output
  · rw [if_pos hm]
    exact iff_of_true ⟨_,rfl,rfl⟩ hm
  rw [if_neg hm]
  refine iff_of_false ?_ hm
  rintro ⟨c,hc,_⟩
  cases hc

theorem writeSuccess_wellFormed_iff {o : Opening} {calls : List ToolCall}
    (h : Tracks o false calls s) :
    WellFormed (writeSuccess s).wire.sent ↔ o ≠ .messageReasoning := by
  obtain ⟨hr,hrout⟩ := h.closeReasoning []
  obtain ⟨hcalls,hm⟩ := hr.closeMessage (closeReasoning s []).2
  have hdone := hm.writeCalls calls
  rw [writeSuccess, hcalls, wellFormed_completed hdone.reads, responseObject, hdone.output, hrout,
    ← hasReasoning_closeMessage o calls, matches_output_iff, ne_eq,
    closeMessage_eq_messageReasoning]
  · exact announcedReasoning_matches _
  · exact ⟨rfl,rfl⟩
  · exact nofun

/-- A stream that ends well is well formed exactly when its message is not
opened before its reasoning. -/
theorem responses_stream_wellFormed_iff (id model : String) (createdAt : ℤ) (chunks : List Chunk)
    (calls : List ToolCall) (usage : Option Usage) (finishReason : String) :
    WellFormed (completeStreamResponses id model createdAt (fun _ => false)
      (providerEvents chunks calls usage finishReason) {}) ↔ reasoningLeads chunks = true := by
  obtain ⟨t,ht,htracks⟩ := tracks_provider id model createdAt chunks calls usage finishReason
  rw [completeStreamResponses, ht, ← foldl_take_nothing]
  exact writeSuccess_wellFormed_iff htracks

/-- Text, then reasoning: the message is announced at index 0 and listed at 1. -/
theorem text_before_reasoning_misplaced :
    ¬ WellFormed (completeStreamResponses "1" "m" 0 (fun _ => false)
      (providerEvents [{ text := "a" }, { reasoning := "b" }] [] none "stop") {}) := by
  have hread : ({} : Client).readAll (completeStreamResponses "1" "m" 0 (fun _ => false)
      (providerEvents [{ text := "a" }, { reasoning := "b" }] [] none "stop") {}) = none := by
    decide +kernel
  rintro ⟨c,hc,_⟩
  rw [hread] at hc
  cases hc

end OnPremGateway.ResponsesStream
