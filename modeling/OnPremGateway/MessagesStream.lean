import OnPremGateway.InferenceEvents
import OnPremGateway.RoutingTypes

/-!
# Translated Messages streams

The writer opens a thinking and a text block when their first delta comes, and
writes the tool calls after them. The reader is a client that keeps one block
open at a time. The client can read what the writer writes exactly when no
reasoning comes after text: a thinking block is closed when the text block
starts, and a text block is not closed for a thinking block.
-/

set_option autoImplicit false

namespace OnPremGateway.MessagesStream
open RuntimeTypes RoutingTypes InferenceEvents List

inductive Block where
  | thinking
  | text
  | toolUse (id name : String)
  deriving DecidableEq, Repr

inductive Delta where
  | thinking (thinking : String)
  | signature (signature : String)
  | text (text : String)
  | inputJSON (partialJSON : String)
  deriving DecidableEq, Repr

inductive Frame where
  | messageStart (id model : String)
  | blockStart (index : ℕ) (block : Block)
  | blockDelta (index : ℕ) (delta : Delta)
  | blockStop (index : ℕ)
  | messageDelta (stopReason : String) (inputTokens outputTokens : ℤ) (cacheRead : Option ℤ)
  | messageStop
  | error (message : String)
  deriving DecidableEq, Repr

/-! ### The writer -/

def anthropicInputTokens (u : Usage) : ℤ := max (u.inputTokens - u.cachedTokens) 0

def anthropicStopReason (finishReason : String) (hasToolCalls : Bool) : String :=
  if hasToolCalls then "tool_use"
  else if trimSpace (toLower finishReason) = "length" then "max_tokens"
  else if trimSpace (toLower finishReason) = "tool_calls" then "tool_use"
  else "end_turn"

def anthropicStreamToolUseID (tc : ToolCall) : String :=
  if trimSpace tc.id ≠ "" then tc.id else "toolu_" ++ tc.name

structure Writer where
  wire : Wire Frame
  nextIndex : ℕ := 0
  thinkingOpened : Bool := false
  thinkingClosed : Bool := false
  thinkingIdx : ℕ := 0
  textOpened : Bool := false
  textIdx : ℕ := 0
  usage : Usage := {}
  finishReason : String := ""
  toolCalls : List ToolCall := []

def emitEvent (s : Writer) (f : Frame) : Writer := { s with wire := s.wire.emit f }

def openThinking (s : Writer) : Writer :=
  if s.thinkingOpened then s
  else emitEvent
    { s with thinkingOpened := true, thinkingIdx := s.nextIndex, nextIndex := s.nextIndex+1 }
    (.blockStart s.nextIndex .thinking)

def closeThinking (s : Writer) : Writer :=
  if !s.thinkingOpened || s.thinkingClosed then s
  else
    let s := { s with thinkingClosed := true }
    let s := emitEvent s (.blockDelta s.thinkingIdx (.signature ""))
    emitEvent s (.blockStop s.thinkingIdx)

def openText (s : Writer) : Writer :=
  if s.textOpened then s
  else
    let s := closeThinking s
    emitEvent { s with textOpened := true, textIdx := s.nextIndex, nextIndex := s.nextIndex+1 }
      (.blockStart s.nextIndex .text)

def onReasoning (s : Writer) (reasoning : String) : Writer × Bool :=
  if reasoning = "" then (s, false)
  else
    let s := openThinking s
    (emitEvent s (.blockDelta s.thinkingIdx (.thinking reasoning)), s.wire.broken)

def onText (s : Writer) (text : String) : Writer × Bool :=
  if text = "" then (s, false)
  else
    let s := openText s
    (emitEvent s (.blockDelta s.textIdx (.text text)), s.wire.broken)

def onEvent (s : Writer) : StreamEvent → Writer × Bool
  | .textDelta text reasoning =>
    match onReasoning s reasoning with
    | (s, true) => (s, true)
    | (s, false) => onText s text
  | .toolCall none => (s, false)
  | .toolCall (some call) => ({ s with toolCalls := s.toolCalls ++ [call] }, false)
  | .completed usage finishReason =>
    ({ s with usage := usage.getD s.usage, finishReason := finishReason }, false)
  | .other => (s, false)

def writeToolUse (s : Writer) (tc : ToolCall) : Writer :=
  let idx := s.nextIndex
  let s := { s with nextIndex := s.nextIndex+1 }
  let s := emitEvent s (.blockStart idx (.toolUse (anthropicStreamToolUseID tc) tc.name))
  let s := emitEvent s (.blockDelta idx (.inputJSON (argumentsOrEmpty tc.arguments)))
  emitEvent s (.blockStop idx)

def closeText (s : Writer) : Writer :=
  if s.textOpened || s.toolCalls.isEmpty then
    let s := openText s
    emitEvent s (.blockStop s.textIdx)
  else s

def writeEnd (s : Writer) : Writer :=
  let s := emitEvent s (.messageDelta (anthropicStopReason s.finishReason (!s.toolCalls.isEmpty))
    (anthropicInputTokens s.usage) s.usage.outputTokens
    (if s.usage.cachedTokens > 0 then some s.usage.cachedTokens else none))
  emitEvent s .messageStop

def writeSuccess (s : Writer) : Writer :=
  let s := closeText (closeThinking s)
  writeEnd (s.toolCalls.foldl writeToolUse s)

def writeTerminal (s : Writer) (errorCode : String) : Writer :=
  if errorCode = "" then writeSuccess s
  else if errorCode = errCodeStreamIdleTimeout then emitEvent s (.error msgStreamIdleTimeout)
  else if errorCode = errCodeClientDisconnected then s
  else emitEvent s (.error msgProviderError)

def completeStreamAnthropic (id model : String) (fails : ℕ → Bool) (events : List StreamEvent)
    (ending : Ending) : List Frame :=
  let s : Writer := emitEvent { wire := { fails := fails } } (.messageStart ("msg_" ++ id) model)
  let (s, failed) := handleEvents onEvent s events
  (writeTerminal s (terminalStatus (streamError failed ending) ending)).wire.sent

/-! ### The reader -/

inductive Stage where
  | before
  | content
  | closing
  | done
  deriving DecidableEq, Repr

/-- What a client has read: how many blocks were started and whether the last
of them is open, and what the deltas of each kind add up to. -/
structure Client where
  stage : Stage := .before
  started : ℕ := 0
  isOpen : Bool := false
  thinking : String := ""
  text : String := ""
  calls : List ToolCall := []
  deriving DecidableEq, Repr

def addArguments (json : String) : List ToolCall → List ToolCall
  | [] => []
  | [tc] => [{ tc with arguments := tc.arguments ++ json }]
  | tc::tcs => tc :: addArguments json tcs

def Client.add (c : Client) : Delta → Client
  | .thinking s => { c with thinking := c.thinking ++ s }
  | .signature _ => c
  | .text s => { c with text := c.text ++ s }
  | .inputJSON s => { c with calls := addArguments s c.calls }

def Client.start (c : Client) : Block → Client
  | .toolUse id name =>
    { c with started := c.started+1, isOpen := true, calls := c.calls ++ [{ id := id, name := name }] }
  | _ => { c with started := c.started+1, isOpen := true }

/-- One frame of a valid stream. A block is started when none is open, with
the next index; a delta and a stop name the block that is open. -/
def Client.read (c : Client) : Frame → Option Client
  | .messageStart _ _ => if c.stage = .before then some { c with stage := .content } else none
  | .blockStart i b =>
    if c.stage = .content ∧ c.isOpen = false ∧ i = c.started then some (c.start b) else none
  | .blockDelta i d =>
    if c.stage = .content ∧ c.isOpen = true ∧ i+1 = c.started then some (c.add d) else none
  | .blockStop i =>
    if c.stage = .content ∧ c.isOpen = true ∧ i+1 = c.started then some { c with isOpen := false }
    else none
  | .messageDelta _ _ _ _ =>
    if c.stage = .content ∧ c.isOpen = false then some { c with stage := .closing } else none
  | .messageStop => if c.stage = .closing then some { c with stage := .done } else none
  | .error _ => none

def Client.readAll : Client → List Frame → Option Client
  | c, [] => some c
  | c, f::fs => (c.read f).bind fun c => c.readAll fs

theorem Client.readAll_append (c : Client) (fs gs : List Frame) :
    c.readAll (fs ++ gs) = (c.readAll fs).bind fun c => c.readAll gs := by
  induction fs generalizing c with
  | nil => rfl
  | cons f fs ih =>
    rw [cons_append, Client.readAll, Client.readAll, Option.bind_assoc]
    congr 1
    funext c
    exact ih c

/-! ### The writer as the client sees it -/

def seen (w : Wire Frame) : Option Client := ({} : Client).readAll w.sent

theorem seen_emit {w : Wire Frame} (h : w.Sound) (f : Frame) :
    seen (w.emit f) = (seen w).bind fun c => c.read f := by
  rw [seen, seen, h.sent_emit, Client.readAll_append]
  congr 1
  funext c
  simp [Client.readAll]

inductive Phase where
  | idle
  | thinking
  | text (reasoned : Bool)
  deriving DecidableEq, Repr

def Phase.isText : Phase → Bool
  | .text _ => true
  | _ => false

def Phase.blocks : Phase → ℕ
  | .idle => 0
  | .thinking => 1
  | .text reasoned => if reasoned then 2 else 1

def Phase.reasoned : Phase → Bool
  | .idle => false
  | .thinking => true
  | .text reasoned => reasoned

structure Tracks (s : Writer) (p : Phase) (thinking text : String) : Prop where
  sound : s.wire.Sound
  nextIndex : s.nextIndex = p.blocks
  thinkingOpened : s.thinkingOpened = p.reasoned
  thinkingClosed : s.thinkingClosed = (p.isText && p.reasoned)
  thinkingIdx : s.thinkingIdx = 0
  textOpened : s.textOpened = p.isText
  textIdx : p.isText = true → s.textIdx+1 = p.blocks
  seen : seen s.wire = some
    { stage := .content, started := p.blocks, isOpen := p ≠ .idle, thinking := thinking, text := text }

structure Stuck (s : Writer) : Prop where
  sound : s.wire.Sound
  seen : seen s.wire = none

variable {s : Writer} {c : Client}

theorem Stuck.emitEvent (h : Stuck s) (f : Frame) : Stuck (emitEvent s f) := by
  constructor
  · exact h.sound
  · change MessagesStream.seen (s.wire.emit f) = none
    rw [seen_emit h.sound, h.seen]
    rfl

section Steps
variable {s : Writer} {p : Phase} {thinking text : String}

theorem openThinking_tracks (h : Tracks s p thinking text) (hp : p.isText = false) :
    Tracks (openThinking s) .thinking thinking text := by
  cases p with
  | text b => cases hp
  | thinking =>
    rw [openThinking, h.thinkingOpened]
    exact h
  | idle =>
    have heq : openThinking s = emitEvent
        { s with thinkingOpened := true, thinkingIdx := s.nextIndex, nextIndex := s.nextIndex+1 }
        (.blockStart s.nextIndex .thinking) := by
      rw [openThinking, h.thinkingOpened]
      rfl
    rw [heq]
    constructor
    · exact h.sound
    · exact congrArg (· + 1) h.nextIndex
    · rfl
    · exact h.thinkingClosed
    · exact h.nextIndex
    · exact h.textOpened
    · intro ht
      cases ht
    · change MessagesStream.seen (s.wire.emit _) = _
      rw [seen_emit h.sound, h.seen, h.nextIndex]
      rfl

structure Closed (s : Writer) (p : Phase) (thinking text : String) : Prop where
  sound : s.wire.Sound
  nextIndex : s.nextIndex = p.blocks
  thinkingOpened : s.thinkingOpened = p.reasoned
  thinkingClosed : s.thinkingClosed = p.reasoned
  thinkingIdx : s.thinkingIdx = 0
  textOpened : s.textOpened = false
  seen : seen s.wire = some
    { stage := .content, started := p.blocks, isOpen := false, thinking := thinking, text := text }

theorem closeThinking_closed (h : Tracks s p thinking text) (hp : p.isText = false) :
    Closed (closeThinking s) p thinking text := by
  cases p with
  | text b => cases hp
  | idle =>
    rw [closeThinking, h.thinkingOpened]
    exact ⟨h.sound,h.nextIndex,h.thinkingOpened,h.thinkingClosed,h.thinkingIdx,h.textOpened,h.seen⟩
  | thinking =>
    have heq : closeThinking s = emitEvent
        (emitEvent { s with thinkingClosed := true } (.blockDelta s.thinkingIdx (.signature "")))
        (.blockStop s.thinkingIdx) := by
      rw [closeThinking, h.thinkingOpened, h.thinkingClosed]
      rfl
    rw [heq]
    constructor
    · exact h.sound
    · exact h.nextIndex
    · exact h.thinkingOpened
    · rfl
    · exact h.thinkingIdx
    · exact h.textOpened
    · change MessagesStream.seen ((s.wire.emit _).emit _) = _
      rw [seen_emit (h.sound.emit _), seen_emit h.sound, h.seen, h.thinkingIdx]
      rfl

theorem openText_tracks (h : Tracks s p thinking text) :
    Tracks (openText s) (.text p.reasoned) thinking text := by
  by_cases hp : p.isText = true
  · cases p with
    | idle => cases hp
    | thinking => cases hp
    | text b =>
      rw [openText, h.textOpened]
      exact h
  rw [Bool.not_eq_true] at hp
  have hc := closeThinking_closed h hp
  have heq : openText s = emitEvent
      { closeThinking s with
        textOpened := true
        textIdx := (closeThinking s).nextIndex
        nextIndex := (closeThinking s).nextIndex+1 }
      (.blockStart (closeThinking s).nextIndex .text) := by
    rw [openText, h.textOpened, hp]
    rfl
  have hblocks : (Phase.text p.reasoned).blocks = p.blocks+1 := by
    cases p with
    | idle => rfl
    | thinking => rfl
    | text b => cases hp
  rw [heq]
  constructor
  · exact hc.sound
  · rw [hblocks]
    exact congrArg (· + 1) hc.nextIndex
  · exact hc.thinkingOpened
  · exact hc.thinkingClosed
  · exact hc.thinkingIdx
  · rfl
  · intro _
    rw [hblocks]
    exact congrArg (· + 1) hc.nextIndex
  · change MessagesStream.seen ((closeThinking s).wire.emit _) = _
    rw [seen_emit hc.sound, hc.seen, hc.nextIndex, hblocks]
    simp [Client.read, Client.start]

/-! ### One delta -/

theorem onReasoning_tracks (h : Tracks s p thinking text) (hp : p.isText = false) (r : String) :
    (onReasoning s r).2 = false ∧
      ∃ q, q.isText = false ∧ Tracks (onReasoning s r).1 q (thinking ++ r) text := by
  by_cases hr : r = ""
  · rw [onReasoning, if_pos hr, hr, String.append_empty]
    exact ⟨rfl,p,hp,h⟩
  rw [onReasoning, if_neg hr]
  have ho := openThinking_tracks h hp
  refine ⟨ho.sound.broken,.thinking,rfl,?_⟩
  refine { ho with seen := ?_ }
  change MessagesStream.seen ((openThinking s).wire.emit _) = _
  rw [seen_emit ho.sound, ho.seen, ho.thinkingIdx]
  rfl

/-- Reasoning after text cannot be read: the thinking block is started while
the text block is open, or was stopped when the text block started. -/
theorem onReasoning_stuck (h : Tracks s p thinking text) (hp : p.isText = true) (r : String)
    (hr : r ≠ "") : (onReasoning s r).2 = false ∧ Stuck (onReasoning s r).1 := by
  rw [onReasoning, if_neg hr]
  cases p with
  | idle => cases hp
  | thinking => cases hp
  | text reasoned =>
    cases reasoned with
    | true =>
      have heq : openThinking s = s := by rw [openThinking, h.thinkingOpened]; rfl
      rw [heq]
      refine ⟨h.sound.broken,h.sound,?_⟩
      change MessagesStream.seen (s.wire.emit _) = _
      rw [seen_emit h.sound, h.seen, h.thinkingIdx]
      rfl
    | false =>
      have heq : openThinking s = emitEvent
          { s with thinkingOpened := true, thinkingIdx := s.nextIndex, nextIndex := s.nextIndex+1 }
          (.blockStart s.nextIndex .thinking) := by
        rw [openThinking, h.thinkingOpened]
        rfl
      have hstuck : Stuck (openThinking s) := by
        rw [heq]
        refine ⟨h.sound,?_⟩
        change MessagesStream.seen (s.wire.emit _) = _
        rw [seen_emit h.sound, h.seen]
        rfl
      exact ⟨hstuck.sound.broken,hstuck.emitEvent _⟩

theorem onText_tracks (h : Tracks s p thinking text) (t : String) :
    (onText s t).2 = false ∧ ∃ q, (q.isText = true ↔ p.isText = true ∨ t ≠ "") ∧
      Tracks (onText s t).1 q thinking (text ++ t) := by
  by_cases ht : t = ""
  · rw [onText, if_pos ht, ht, String.append_empty]
    exact ⟨rfl,p,by simp,h⟩
  rw [onText, if_neg ht]
  have ho := openText_tracks h
  refine ⟨ho.sound.broken,.text p.reasoned,by simp [Phase.isText, ht],?_⟩
  refine { ho with seen := ?_ }
  change MessagesStream.seen ((openText s).wire.emit _) = _
  rw [seen_emit ho.sound, ho.seen]
  have hidx := ho.textIdx rfl
  simp [Client.read, Client.add, hidx]

end Steps

/-! ### What the writer does to the connection -/

section Wire
variable (s : Writer)

theorem openThinking_extends : s.wire.Extends (openThinking s).wire := by
  rw [openThinking]
  split_ifs
  · exact Wire.Extends.refl _
  · exact (Wire.Extends.refl _).emit _

theorem closeThinking_extends : s.wire.Extends (closeThinking s).wire := by
  rw [closeThinking]
  split_ifs
  · exact Wire.Extends.refl _
  · exact ((Wire.Extends.refl _).emit _).emit _

theorem openText_extends : s.wire.Extends (openText s).wire := by
  rw [openText]
  split_ifs
  · exact Wire.Extends.refl _
  · exact (closeThinking_extends s).emit _

theorem closeText_extends : s.wire.Extends (closeText s).wire := by
  rw [closeText]
  split_ifs
  · exact (openText_extends s).emit _
  · exact Wire.Extends.refl _

theorem onReasoning_extends (r : String) : s.wire.Extends (onReasoning s r).1.wire := by
  rw [onReasoning]
  split_ifs
  · exact Wire.Extends.refl _
  · exact (openThinking_extends s).emit _

theorem onText_extends (t : String) : s.wire.Extends (onText s t).1.wire := by
  rw [onText]
  split_ifs
  · exact Wire.Extends.refl _
  · exact (openText_extends s).emit _

theorem onReasoning_ok (h : s.wire.Sound) (r : String) : (onReasoning s r).2 = false := by
  rw [onReasoning]
  split_ifs
  · rfl
  · exact ((openThinking_extends s).sound h).broken

theorem onText_ok (h : s.wire.Sound) (t : String) : (onText s t).2 = false := by
  rw [onText]
  split_ifs
  · rfl
  · exact ((openText_extends s).sound h).broken

/-- On a sound connection a delta is handled whole. -/
theorem onEvent_delta (h : s.wire.Sound) (t r : String) :
    onEvent s (.textDelta t r) = onText (onReasoning s r).1 t := by
  have hr := onReasoning_ok s h r
  rw [onEvent]
  rcases hres : onReasoning s r with ⟨s',failed⟩
  rw [hres] at hr
  cases hr
  rfl

theorem onEvent_extends (ev : StreamEvent) : s.wire.Extends (onEvent s ev).1.wire := by
  cases ev with
  | textDelta t r =>
    have hr := onReasoning_extends s r
    rw [onEvent]
    generalize onReasoning s r = res at hr ⊢
    obtain ⟨s',failed⟩ := res
    cases failed with
    | true => exact hr
    | false => exact hr.trans (onText_extends s' t)
  | toolCall call => cases call <;> exact Wire.Extends.refl _
  | completed usage finishReason => exact Wire.Extends.refl _
  | other => exact Wire.Extends.refl _

theorem onEvent_ok (h : s.wire.Sound) (ev : StreamEvent) : (onEvent s ev).2 = false := by
  cases ev with
  | textDelta t r =>
    rw [onEvent_delta s h]
    exact onText_ok _ ((onReasoning_extends s r).sound h) t
  | toolCall call => cases call <;> rfl
  | completed usage finishReason => rfl
  | other => rfl

theorem onReasoning_toolCalls (r : String) : (onReasoning s r).1.toolCalls = s.toolCalls := by
  rw [onReasoning, openThinking]
  split_ifs <;> rfl

theorem onText_toolCalls (t : String) : (onText s t).1.toolCalls = s.toolCalls := by
  rw [onText, openText, closeThinking]
  split_ifs <;> rfl

end Wire

/-- A writer that is stuck stays stuck, whatever it writes. -/
theorem Stuck.of_extends {t : Writer} (h : Stuck s) (ht : s.wire.Extends t.wire) : Stuck t := by
  refine ⟨ht.sound h.sound,?_⟩
  obtain ⟨-,fs,hs⟩ := ht
  rw [MessagesStream.seen, hs, Client.readAll_append]
  rw [show ({} : Client).readAll s.wire.sent = none from h.seen]
  rfl

theorem handleEvents_extends (s : Writer) (h : s.wire.Sound) (evs : List StreamEvent) :
    ∃ t, handleEvents onEvent s evs = (t, false) ∧ s.wire.Extends t.wire := by
  induction evs generalizing s with
  | nil => exact ⟨s,rfl,Wire.Extends.refl _⟩
  | cons ev evs ih =>
    have hext := onEvent_extends s ev
    obtain ⟨t,ht,hext'⟩ := ih (onEvent s ev).1 (hext.sound h)
    rw [handleEvents_cons onEvent s ev evs (onEvent_ok s h ev)]
    exact ⟨t,ht,hext.trans hext'⟩

/-! ### All deltas -/

/-- No reasoning comes after text. -/
def ReasoningFirst (chunks : List Chunk) : Prop :=
  chunks.Pairwise fun a b => a.text ≠ "" → b.reasoning = ""

instance (chunks : List Chunk) : Decidable (ReasoningFirst chunks) :=
  inferInstanceAs (Decidable (List.Pairwise _ chunks))

def ReasoningFirstFrom (p : Phase) (chunks : List Chunk) : Prop :=
  (p.isText = true → ∀ d ∈ chunks, d.reasoning = "") ∧ ReasoningFirst chunks

theorem reasoningFirstFrom_cons (p q : Phase) (d : Chunk) (chunks : List Chunk)
    (hq : q.isText = true ↔ p.isText = true ∨ d.text ≠ "") : ReasoningFirstFrom p (d::chunks) ↔
      (p.isText = true → d.reasoning = "") ∧ ReasoningFirstFrom q chunks := by
  rw [ReasoningFirstFrom, ReasoningFirstFrom, ReasoningFirst, pairwise_cons, hq]
  constructor
  · rintro ⟨hp,hd,hpw⟩
    refine ⟨fun h => hp h d mem_cons_self,?_,hpw⟩
    rintro (h|h) e he
    · exact hp h e (mem_cons_of_mem _ he)
    · exact hd e he h
  · rintro ⟨hp,hrest,hpw⟩
    refine ⟨?_,fun e he h => hrest (.inr h) e he,hpw⟩
    intro h e he
    rcases mem_cons.mp he with rfl|he
    · exact hp h
    · exact hrest (.inl h) e he

/-- The deltas of a stream: the client has read them all, or it is stuck at
reasoning that came after text. -/
theorem deltas_tracks (s : Writer) (p : Phase) (thinking text : String) (chunks : List Chunk)
    (h : Tracks s p thinking text) :
    ∃ t, handleEvents onEvent s (chunks.map Chunk.event) = (t, false) ∧
      ((ReasoningFirstFrom p chunks ∧ t.toolCalls = s.toolCalls ∧
          ∃ q, Tracks t q ((chunks.map Chunk.reasoning).foldl (· ++ ·) thinking)
            ((chunks.map Chunk.text).foldl (· ++ ·) text)) ∨
        (¬ReasoningFirstFrom p chunks ∧ Stuck t)) := by
  induction chunks generalizing s p thinking text with
  | nil =>
    refine ⟨s,rfl,.inl ⟨⟨?_,List.Pairwise.nil⟩,rfl,p,h⟩⟩
    intro _ d hd
    cases hd
  | cons d chunks ih =>
    rw [map_cons, handleEvents_cons onEvent s d.event _ (onEvent_ok s h.sound _), Chunk.event,
      onEvent_delta s h.sound, map_cons, map_cons, foldl_cons, foldl_cons]
    by_cases hd : p.isText = true ∧ d.reasoning ≠ ""
    · -- from here on the client is stuck
      have hstuck := (onReasoning_stuck h hd.1 d.reasoning hd.2).2.of_extends
        (onText_extends _ d.text)
      obtain ⟨t,hrun,hext⟩ := handleEvents_extends _ hstuck.sound (chunks.map Chunk.event)
      refine ⟨t,hrun,.inr ⟨?_,hstuck.of_extends hext⟩⟩
      intro hord
      exact hd.2 (hord.1 hd.1 d mem_cons_self)
    have hd' : p.isText = true → d.reasoning = "" := by
      intro hp
      by_contra hr
      exact hd ⟨hp,hr⟩
    obtain ⟨q,hq,hreason⟩ : ∃ q, (q.isText = true ↔ p.isText = true) ∧
        Tracks (onReasoning s d.reasoning).1 q (thinking ++ d.reasoning) text := by
      by_cases hp : p.isText = true
      · rw [onReasoning, if_pos (hd' hp), hd' hp, String.append_empty]
        exact ⟨p,Iff.rfl,h⟩
      · rw [Bool.not_eq_true] at hp
        obtain ⟨-,q,hq,ht⟩ := onReasoning_tracks h hp d.reasoning
        exact ⟨q,by rw [hq, hp],ht⟩
    obtain ⟨-,q',hq',htext⟩ := onText_tracks hreason d.text
    obtain ⟨t,hrun,hend⟩ := ih _ q' _ _ htext
    refine ⟨t,hrun,?_⟩
    rw [reasoningFirstFrom_cons p q' d chunks (hq'.trans (or_congr_left hq))]
    rcases hend with ⟨hord,hcalls,hrest⟩|⟨hord,hstuck⟩
    · refine .inl ⟨⟨hd',hord⟩,?_,hrest⟩
      rw [hcalls, onText_toolCalls, onReasoning_toolCalls]
    · exact .inr ⟨fun hall => hord hall.2,hstuck⟩

theorem handleEvents_calls (s : Writer) (calls : List ToolCall) (usage : Option Usage)
    (finishReason : String) : handleEvents onEvent s (calls.map (fun tc => .toolCall (some tc)) ++
        [.completed usage finishReason]) = ({ s with
          toolCalls := s.toolCalls ++ calls
          usage := usage.getD s.usage
          finishReason := finishReason }, false) := by
  induction calls generalizing s with
  | nil =>
    rw [append_nil]
    rfl
  | cons tc calls ih =>
    rw [map_cons, cons_append, handleEvents_cons onEvent s _ _ rfl]
    change handleEvents onEvent { s with toolCalls := s.toolCalls ++ [tc] } _ = _
    rw [ih]
    simp

/-! ### The end of a stream -/

structure Between (s : Writer) (c : Client) : Prop where
  sound : s.wire.Sound
  nextIndex : s.nextIndex = c.started
  stage : c.stage = .content
  isOpen : c.isOpen = false
  seen : seen s.wire = some c

theorem closeThinking_toolCalls (s : Writer) : (closeThinking s).toolCalls = s.toolCalls := by
  rw [closeThinking]
  split_ifs <;> rfl

theorem closeText_toolCalls (s : Writer) : (closeText s).toolCalls = s.toolCalls := by
  rw [closeText, openText]
  split_ifs
  · rfl
  · exact closeThinking_toolCalls s
  · rfl

theorem stopText_between {reasoned : Bool} {thinking text : String}
    (h : Tracks s (.text reasoned) thinking text) : Between (emitEvent s (.blockStop s.textIdx))
      { stage := .content, started := (Phase.text reasoned).blocks, thinking := thinking,
        text := text } := by
  constructor
  · exact h.sound
  · exact h.nextIndex
  · rfl
  · rfl
  · change MessagesStream.seen (s.wire.emit _) = _
    rw [seen_emit h.sound, h.seen]
    have hidx := h.textIdx rfl
    simp [Client.read, hidx]

theorem closeBlocks_between {p : Phase} {thinking text : String} (h : Tracks s p thinking text) :
    ∃ n, Between (closeText (closeThinking s))
      { stage := .content, started := n, thinking := thinking, text := text } := by
  by_cases hp : p.isText = true
  · obtain ⟨reasoned,rfl⟩ : ∃ reasoned, p = .text reasoned := by
      cases p with
      | idle => cases hp
      | thinking => cases hp
      | text b => exact ⟨b,rfl⟩
    have hclose : closeThinking s = s := by
      rw [closeThinking, h.thinkingOpened, h.thinkingClosed]
      cases reasoned <;> rfl
    have hopen : openText s = s := by
      rw [openText, h.textOpened]
      rfl
    rw [hclose, closeText, h.textOpened, hopen]
    exact ⟨_,stopText_between h⟩
  rw [Bool.not_eq_true] at hp
  have hc := closeThinking_closed h hp
  by_cases hcalls : (closeThinking s).toolCalls.isEmpty = true
  · -- an answer without calls has a text block, if an empty one
    have hopen := openText_tracks h
    have hsame : openText (closeThinking s) = openText s := by
      have htwice : closeThinking (closeThinking s) = closeThinking s := by
        rw [closeThinking, hc.thinkingOpened, hc.thinkingClosed]
        cases p.reasoned <;> rfl
      rw [openText, htwice, openText, hc.textOpened, h.textOpened, hp]
      rfl
    rw [closeText, hcalls, Bool.or_true, if_pos rfl, hsame]
    exact ⟨_,stopText_between hopen⟩
  · rw [closeText, hc.textOpened, Bool.false_or, if_neg hcalls]
    exact ⟨p.blocks,hc.sound,hc.nextIndex,rfl,rfl,hc.seen⟩

/-- A call as the client is sent it. -/
def delivered (tc : ToolCall) : ToolCall :=
  ⟨anthropicStreamToolUseID tc, tc.name, argumentsOrEmpty tc.arguments⟩

theorem addArguments_append (json : String) (calls : List ToolCall) (tc : ToolCall) :
    addArguments json (calls ++ [tc]) =
      calls ++ [{ tc with arguments := tc.arguments ++ json }] := by
  induction calls with
  | nil => rfl
  | cons c calls ih =>
    cases calls with
    | nil => rfl
    | cons d calls => exact congrArg (cons c) ih

theorem writeToolUse_between (h : Between s c) (tc : ToolCall) : Between (writeToolUse s tc)
      { c with started := c.started+1, calls := c.calls ++ [delivered tc] } := by
  obtain ⟨stage,started,isOpen,thinking,text,calls⟩ := c
  obtain ⟨hsound,hnext,rfl,rfl,hseen⟩ := h
  constructor
  · exact hsound
  · exact congrArg (· + 1) hnext
  · rfl
  · rfl
  · change MessagesStream.seen (((s.wire.emit _).emit _).emit _) = _
    rw [seen_emit ((hsound.emit _).emit _), seen_emit (hsound.emit _), seen_emit hsound, hseen, hnext]
    simp [Client.read, Client.start, Client.add, addArguments_append, delivered]

theorem writeToolUse_calls (h : Between s c) (calls : List ToolCall) :
    ∃ n, Between (calls.foldl writeToolUse s)
      { c with started := n, calls := c.calls ++ calls.map delivered } := by
  induction calls generalizing s c with
  | nil =>
    refine ⟨c.started,?_⟩
    rw [map_nil, append_nil]
    exact h
  | cons tc calls ih =>
    obtain ⟨n,hn⟩ := ih (writeToolUse_between h tc)
    refine ⟨n,?_⟩
    rw [map_cons, ← append_cons c.calls] at *
    exact hn

theorem writeEnd_done (h : Between s c) :
    seen (writeEnd s).wire = some { c with stage := .done } := by
  obtain ⟨stage,started,isOpen,thinking,text,calls⟩ := c
  obtain ⟨hsound,hnext,rfl,rfl,hseen⟩ := h
  change seen ((s.wire.emit _).emit _) = _
  rw [seen_emit (hsound.emit _), seen_emit hsound, hseen]
  rfl

/-- A client reads the frames as a whole stream that adds up to the given
reasoning, text and calls. -/
def Delivers (frames : List Frame) (thinking text : String) (calls : List ToolCall) : Prop :=
  ∃ n, ({} : Client).readAll frames =
    some { stage := .done, started := n, thinking := thinking, text := text, calls := calls }

theorem writeSuccess_extends (s : Writer) : s.wire.Extends (writeSuccess s).wire := by
  have htools : ∀ (calls : List ToolCall) (t : Writer), t.wire.Extends (calls.foldl writeToolUse t).wire := by
    intro calls
    induction calls with
    | nil => exact fun t => Wire.Extends.refl _
    | cons tc calls ih =>
      intro t
      exact ((((Wire.Extends.refl _).emit _).emit _).emit _).trans (ih (writeToolUse t tc))
  exact ((((closeThinking_extends s).trans (closeText_extends _)).trans (htools _ _)).emit _).emit _

theorem start_tracks (id model : String) :
    Tracks (emitEvent { wire := { fails := fun _ => false } } (.messageStart ("msg_" ++ id) model))
      .idle "" "" := by
  constructor
  · exact fun _ => rfl
  · rfl
  · rfl
  · rfl
  · rfl
  · rfl
  · intro h
    cases h
  · rfl

/-- Whatever the deltas, the client reads the whole stream, or none of its
readings goes through. -/
theorem stream_seen (id model : String) (chunks : List Chunk) (calls : List ToolCall)
    (usage : Option Usage) (finishReason : String) : (ReasoningFirst chunks ∧ Delivers
        (completeStreamAnthropic id model (fun _ => false)
          (providerEvents chunks calls usage finishReason) {})
        (String.join (chunks.map Chunk.reasoning)) (String.join (chunks.map Chunk.text))
        (calls.map delivered)) ∨ (¬ReasoningFirst chunks ∧ ({} : Client).readAll
        (completeStreamAnthropic id model (fun _ => false)
          (providerEvents chunks calls usage finishReason) {}) = none) := by
  obtain ⟨t,hrun,hend⟩ := deltas_tracks _ .idle "" "" chunks (start_tracks id model)
  have hfrom : ReasoningFirstFrom .idle chunks ↔ ReasoningFirst chunks := by
    constructor
    · exact fun h => h.2
    · intro h
      refine ⟨?_,h⟩
      intro ht
      cases ht
  have hframes : completeStreamAnthropic id model (fun _ => false)
      (providerEvents chunks calls usage finishReason) {} = (writeSuccess { t with
        toolCalls := t.toolCalls ++ calls
        usage := usage.getD t.usage
        finishReason := finishReason }).wire.sent := by
    rw [completeStreamAnthropic, providerEvents, handleEvents_append onEvent _ t _ _ hrun,
      handleEvents_calls]
    rfl
  rw [hframes]
  rcases hend with ⟨hord,hcalls,q,htracks⟩|⟨hord,hstuck⟩
  · left
    refine ⟨hfrom.mp hord,?_⟩
    rw [show t.toolCalls = [] from hcalls, nil_append]
    -- the calls and the completion leave the blocks as they are
    have htracks' : Tracks { t with
        toolCalls := calls
        usage := usage.getD t.usage
        finishReason := finishReason } q _ _ :=
      ⟨htracks.sound,htracks.nextIndex,htracks.thinkingOpened,htracks.thinkingClosed,
        htracks.thinkingIdx,htracks.textOpened,htracks.textIdx,htracks.seen⟩
    obtain ⟨n,hbetween⟩ := closeBlocks_between htracks'
    obtain ⟨k,htools⟩ := writeToolUse_calls hbetween calls
    have hdone := writeEnd_done htools
    refine ⟨k,?_⟩
    rw [writeSuccess, closeText_toolCalls, closeThinking_toolCalls]
    exact hdone
  · right
    refine ⟨fun h => hord (hfrom.mpr h),?_⟩
    have hstuck' : Stuck { t with
        toolCalls := t.toolCalls ++ calls
        usage := usage.getD t.usage
        finishReason := finishReason } := ⟨hstuck.sound,hstuck.seen⟩
    exact (hstuck'.of_extends (writeSuccess_extends _)).seen

/-- An invented id is never blank. -/
theorem anthropicStreamToolUseID_eq_iff (tc : ToolCall) :
    anthropicStreamToolUseID tc = tc.id ↔ trimSpace tc.id ≠ "" := by
  rw [anthropicStreamToolUseID]
  split_ifs with h
  · exact ⟨fun _ => h,fun _ => rfl⟩
  constructor
  · intro heq
    exfalso
    rw [ne_eq, not_not, ← heq, trimSpace_eq_empty_iff] at h
    have ht := h 't' (by simp)
    revert ht
    decide
  · exact fun hne => absurd hne h

/-- A call reaches the client as the provider gave it exactly when neither its
id nor its arguments are blank. -/
theorem delivered_eq_iff (tc : ToolCall) :
    delivered tc = tc ↔ trimSpace tc.id ≠ "" ∧ trimSpace tc.arguments ≠ "" := by
  rw [← anthropicStreamToolUseID_eq_iff, ← argumentsOrEmpty_eq_iff, delivered]
  constructor
  · intro h
    exact ⟨congrArg ToolCall.id h,congrArg ToolCall.arguments h⟩
  · rintro ⟨hid,hargs⟩
    rw [hid, hargs]

theorem map_delivered_eq_iff (calls : List ToolCall) : calls.map delivered = calls ↔
      ∀ tc ∈ calls, trimSpace tc.id ≠ "" ∧ trimSpace tc.arguments ≠ "" := by
  induction calls with
  | nil => simp
  | cons tc calls ih =>
    rw [map_cons, cons_eq_cons, ih, delivered_eq_iff, forall_mem_cons]

/-- The frames are a valid stream that adds up to what the provider sent
exactly when no reasoning comes after text and no call has a blank id or blank
arguments. With blank ones, the client gets the id made of the name and an
empty object instead, and nothing else changes. -/
theorem messages_stream_delivers_iff (id model : String) (chunks : List Chunk)
    (calls : List ToolCall) (usage : Option Usage) (finishReason : String) :
    (Delivers (completeStreamAnthropic id model (fun _ => false)
        (providerEvents chunks calls usage finishReason) {})
      (String.join (chunks.map Chunk.reasoning)) (String.join (chunks.map Chunk.text)) calls ↔
        ReasoningFirst chunks ∧ ∀ tc ∈ calls, trimSpace tc.id ≠ "" ∧ trimSpace tc.arguments ≠ "") ∧
    (Delivers (completeStreamAnthropic id model (fun _ => false)
        (providerEvents chunks calls usage finishReason) {})
      (String.join (chunks.map Chunk.reasoning)) (String.join (chunks.map Chunk.text))
      (calls.map delivered) ↔ ReasoningFirst chunks) := by
  rw [← map_delivered_eq_iff]
  rcases stream_seen id model chunks calls usage finishReason with ⟨hord,hdel⟩|⟨hord,hnone⟩
  · refine ⟨⟨?_,?_⟩,fun _ => hord,fun _ => hdel⟩
    · rintro ⟨n,hn⟩
      obtain ⟨k,hk⟩ := hdel
      rw [hk] at hn
      exact ⟨hord,congrArg Client.calls (Option.some.inj hn)⟩
    · rintro ⟨-,heq⟩
      rw [heq] at hdel
      exact hdel
  · have hno : ∀ thinking text calls', ¬Delivers (completeStreamAnthropic id model (fun _ => false)
        (providerEvents chunks calls usage finishReason) {}) thinking text calls' := by
      rintro thinking text calls' ⟨n,hn⟩
      rw [hnone] at hn
      cases hn
    exact ⟨⟨fun h => absurd h (hno _ _ _),fun h => absurd h.1 hord⟩,
      fun h => absurd h (hno _ _ _),fun h => absurd h hord⟩

/-- A delta of text and then one of reasoning: the thinking block is started
while the text block is open. -/
theorem reasoning_after_text_unreadable : completeStreamAnthropic "1" "m" (fun _ => false)
        (providerEvents [{ text := "a" }, { reasoning := "b" }] [] none "stop") {} =
      [.messageStart "msg_1" "m", .blockStart 0 .text, .blockDelta 0 (.text "a"),
        .blockStart 1 .thinking, .blockDelta 1 (.thinking "b"),
        .blockDelta 1 (.signature ""), .blockStop 1, .blockStop 0,
        .messageDelta "end_turn" 0 0 none, .messageStop] ∧
    ¬Delivers (completeStreamAnthropic "1" "m" (fun _ => false)
        (providerEvents [{ text := "a" }, { reasoning := "b" }] [] none "stop") {})
      "b" "a" [] := by
  constructor
  · decide +kernel
  · rintro ⟨n,hn⟩
    rw [show ({} : Client).readAll (completeStreamAnthropic "1" "m" (fun _ => false)
      (providerEvents [{ text := "a" }, { reasoning := "b" }] [] none "stop") {}) = none by
        decide +kernel] at hn
    cases hn

end OnPremGateway.MessagesStream
