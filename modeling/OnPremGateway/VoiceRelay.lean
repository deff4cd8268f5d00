import OnPremGateway.LabelledRuns

/-!
# The spoken sections of a voice run

`executeVoiceRun` speaks an answer one region at a time. The loop that reads the
language model launches a leg for every region, in document order. The legs
synthesize concurrently, at most so many at once as the run's gate has slots,
and each puts its chunks on a channel of its own. One relay takes the legs in
the order of their launch and publishes their chunks as one numbered stream,
with frames of silence where the next chunk is not there yet.

Every goroutine is a sequential program, so its next step is determined by
where it stands. What is open is which goroutine goes next, and when the
relay's timer fires.
-/

set_option autoImplicit false

namespace OnPremGateway.VoiceRelay
open LabelledRuns Option

/-! ## The goroutines -/

/-- What a leg puts on its channel. -/
structure Chunk where
  rate : ℤ
  data : String
deriving DecidableEq, Repr

/-- `runAudio` as published. `silence` is not in the source: it marks the frames
that `fillGap` made. -/
structure Frame where
  seq : ℕ
  sectionIndex : ℕ
  rate : ℤ
  data : String
  silence : Bool
deriving DecidableEq, Repr

/-- What a run is started with, and the chunks the speech model will return for
each of its regions. -/
structure VoiceRun where
  sections : List (List Chunk)
  limit : ℕ
  voiceSectionQueue : ℕ
  voiceSectionAudioQueue : ℕ
  fallbackRate : ℤ
  silenceEnabled : Bool
  encodeToString : List UInt8 → String
  limit_pos : 0 < limit
  sectionQueue_pos : 0 < voiceSectionQueue
  audioQueue_pos : 0 < voiceSectionAudioQueue

def voiceSilenceFrameMs : ℤ := 200
def speechStreamBytesPerFrame : ℤ := 2

def voiceSilencePCM (sampleRate ms : ℤ) : List UInt8 :=
  if sampleRate ≤ 0 ∨ ms ≤ 0 then []
  else List.replicate (sampleRate * ms / 1000 * speechStreamBytesPerFrame).toNat 0

structure VoiceSilenceFill where
  rate : ℤ := 0
  data : String := ""
deriving DecidableEq, Repr

def VoiceSilenceFill.frame (encodeToString : List UInt8 → String) (f : VoiceSilenceFill)
    (rate : ℤ) : VoiceSilenceFill :=
  if rate = f.rate then f
  else ⟨rate,encodeToString (voiceSilencePCM rate voiceSilenceFrameMs)⟩

/-- Where the goroutine of a leg stands. -/
inductive Stage where
  | created
  | turn
  | slot
  | held
  | speaking
  | closed
  | reported
  | released
deriving DecidableEq, Repr

namespace Stage

def turned : Stage → Bool
  | created | turn => false
  | _ => true

def settled : Stage → Bool
  | speaking | closed | reported | released => true
  | _ => false

def holdsSlot : Stage → Bool
  | held | speaking | closed | reported => true
  | _ => false

def audioClosed : Stage → Bool
  | closed | reported | released => true
  | _ => false

def hasResult : Stage → Bool
  | reported | released => true
  | _ => false

end Stage

structure Leg where
  stage : Stage
  pending : List Chunk
  audioCh : List Chunk
deriving DecidableEq, Repr

def newVoiceSpeechLeg (chunks : List Chunk) : Leg := ⟨.created,chunks,[]⟩

/-- The next step of a leg's goroutine: `acquire` waits for the leg ahead and
for a slot and settles the turn on its way out, the synthesis sends its chunks,
the channel is closed, the outcome reported and the slot released. -/
def Leg.advance (queue : ℕ) (after free : Bool) (l : Leg) : Option Leg :=
  match l.stage with
  | .created => none
  | .turn => if after then some { l with stage := .slot } else none
  | .slot => if free then some { l with stage := .held } else none
  | .held => some { l with stage := .speaking }
  | .speaking =>
    match l.pending with
    | [] => some { l with stage := .closed }
    | c::rest =>
      if l.audioCh.length < queue then
        some { l with pending := rest, audioCh := l.audioCh ++ [c] }
      else none
  | .closed => some { l with stage := .reported }
  | .reported => some { l with stage := .released }
  | .released => none

/-- Where the loop over the language model's answer stands: between regions,
with a leg made and sent whose goroutine is not started, joining, or through. -/
inductive Loop where
  | scanning
  | starting (k : ℕ)
  | joining (n : ℕ)
  | joined
deriving DecidableEq, Repr

structure Relay where
  seq : ℕ := 0
  lastRate : ℤ := 0
  lastSection : ℕ := 0
  cur : Option ℕ := none
  fill : VoiceSilenceFill := {}
  published : List Frame := []
  returned : Bool := false
deriving DecidableEq, Repr

def Relay.deliver (r : Relay) (k : ℕ) (a : Chunk) : Relay :=
  { r with
    seq := r.seq + 1
    lastRate := if 0 < a.rate then a.rate else r.lastRate
    lastSection := if 0 < a.rate then k else r.lastSection
    published := r.published ++ [⟨r.seq,k,a.rate,a.data,false⟩] }

def Relay.fillGap (encodeToString : List UInt8 → String) (r : Relay) (rate : ℤ) (k : ℕ) : Relay :=
  let fill := r.fill.frame encodeToString rate
  if fill.data ≠ "" then
    { r with
      fill
      seq := r.seq + 1
      published := r.published ++ [⟨r.seq,k,rate,fill.data,true⟩] }
  else { r with fill }

structure State where
  loop : Loop := .scanning
  legs : List Leg := []
  legsCh : List ℕ := []
  relay : Relay := {}
deriving DecidableEq, Repr

def after (legs : List Leg) : ℕ → Bool
  | 0 => true
  | k+1 =>
    match legs[k]? with
    | some l => l.stage.settled
    | none => false

def held (legs : List Leg) : ℕ := legs.countP fun l => l.stage.holdsSlot

def VoiceRun.slots (S : VoiceRun) : ℕ := max S.limit 1

def State.legsClosed (s : State) : Bool :=
  match s.loop with
  | .joining _ | .joined => true
  | _ => false

inductive Act where
  | llm
  | leg (k : ℕ)
  | relay
  | tick
deriving DecidableEq, Repr

section Steps
variable (S : VoiceRun)

def stepLLM (s : State) : Option State :=
  match s.loop with
  | .scanning =>
    match S.sections[s.legs.length]? with
    | some chunks =>
      if s.legsCh.length < S.voiceSectionQueue then
        some { s with
          loop := .starting s.legs.length
          legs := s.legs ++ [newVoiceSpeechLeg chunks]
          legsCh := s.legsCh ++ [s.legs.length] }
      else none
    | none => some { s with loop := .joining 0 }
  | .starting k =>
    match s.legs[k]? with
    | some l => some { s with loop := .scanning, legs := s.legs.set k { l with stage := .turn } }
    | none => none
  | .joining n =>
    match s.legs[n]? with
    | some l => if l.stage.hasResult then some { s with loop := .joining (n+1) } else none
    | none => if s.relay.returned then some { s with loop := .joined } else none
  | .joined => none

def stepLeg (s : State) (k : ℕ) : Option State :=
  match s.legs[k]? with
  | some l =>
    match l.advance S.voiceSectionAudioQueue (after s.legs k) (decide (held s.legs < S.slots)) with
    | some l' => some { s with legs := s.legs.set k l' }
    | none => none
  | none => none

def stepRelay (s : State) : Option State :=
  if s.relay.returned then none
  else
    match s.relay.cur with
    | none =>
      match s.legsCh with
      | k::rest => some { s with legsCh := rest, relay := { s.relay with cur := some k } }
      | [] =>
        if s.legsClosed then some { s with relay := { s.relay with returned := true } } else none
    | some k =>
      match s.legs[k]? with
      | some l =>
        match l.audioCh with
        | a::rest =>
          some { s with
            legs := s.legs.set k { l with audioCh := rest }
            relay := s.relay.deliver k a }
        | [] =>
          if l.stage.audioClosed then some { s with relay := { s.relay with cur := none } }
          else none
      | none => none

/-- The relay's timer fires. With a leg at hand, a receive that is possible goes
first. -/
def stepTick (s : State) : Option State :=
  if S.silenceEnabled && !s.relay.returned then
    match s.relay.cur with
    | none =>
      some { s with
        relay := s.relay.fillGap S.encodeToString s.relay.lastRate s.relay.lastSection }
    | some k =>
      match stepRelay s with
      | some t => some t
      | none =>
        if 0 < s.relay.lastRate then
          some { s with
            relay := s.relay.fillGap S.encodeToString s.relay.lastRate s.relay.lastSection }
        else some { s with relay := s.relay.fillGap S.encodeToString S.fallbackRate k }
  else none

def step (s : State) : Act → Option State
  | .llm => stepLLM S s
  | .leg k => stepLeg S s k
  | .relay => stepRelay s
  | .tick => stepTick S s

/-- The states an interleaving of the goroutines leads to. -/
def Reachable (s : State) : Prop := Relation.ReflTransGen (EventStep (step S)) {} s

end Steps

/-! ## What a step can do -/

structure Keeps (after free : Bool) (l l' : Leg) : Prop where
  turned : l'.stage.turned = true → l.stage.turned = true ∨ after = true
  settled : l.stage.settled = true → l'.stage.settled = true
  holdsSlot : l'.stage.holdsSlot = true → l.stage.holdsSlot = true ∨ free = true
  ended : (l.stage.audioClosed = true → l.pending = []) →
    l'.stage.audioClosed = true → l'.pending = []

structure Advanced (after free : Bool) (l l' : Leg) : Prop extends Keeps after free l l' where
  chunks : l'.audioCh ++ l'.pending = l.audioCh ++ l.pending
  stays : l.stage.audioClosed = true → l'.stage.audioClosed = true ∧ l'.audioCh = l.audioCh
  started : l'.stage ≠ .created

theorem fillGap_spec (encodeToString : List UInt8 → String) (r : Relay) (rate : ℤ) (k : ℕ) :
    (r.fillGap encodeToString rate k).cur = r.cur ∧
      (r.fillGap encodeToString rate k).returned = r.returned ∧
      (((r.fillGap encodeToString rate k).published = r.published ∧
          (r.fillGap encodeToString rate k).seq = r.seq) ∨
        ∃ data, (r.fillGap encodeToString rate k).published =
            r.published ++ [⟨r.seq,k,rate,data,true⟩] ∧
          (r.fillGap encodeToString rate k).seq = r.seq + 1) := by
  by_cases hdata : (r.fill.frame encodeToString rate).data = ""
  · simp [Relay.fillGap, hdata]
  · simp [Relay.fillGap, hdata]

theorem keeps_receive (after free : Bool) (l : Leg) (rest : List Chunk) :
    Keeps after free l { l with audioCh := rest } where
  turned h := .inl h
  settled h := h
  holdsSlot h := .inl h
  ended h := h

theorem advanced_start (after free : Bool) (l : Leg) (h : l.stage = .created) :
    Advanced after free l { l with stage := .turn } := by
  refine ⟨⟨?_,?_,?_,?_⟩,?_,?_,?_⟩ <;> simp [h, Stage.turned, Stage.settled, Stage.holdsSlot,
    Stage.audioClosed]

theorem advanced_of_advance {queue : ℕ} {after free : Bool} {l l' : Leg}
    (h : l.advance queue after free = some l') : l.stage ≠ .created ∧ Advanced after free l l' := by
  obtain ⟨stage,pending,audioCh⟩ := l
  cases stage <;> cases pending <;>
    simp only [Leg.advance, ite_none_right_eq_some, some.injEq, reduceCtorEq] at h
  case turn.nil | turn.cons =>
    obtain ⟨hafter,rfl⟩ := h
    refine ⟨by simp,⟨?_,?_,?_,?_⟩,?_,?_,?_⟩ <;>
      simp [hafter, Stage.settled, Stage.holdsSlot, Stage.audioClosed]
  case slot.nil | slot.cons =>
    obtain ⟨hfree,rfl⟩ := h
    refine ⟨by simp,⟨?_,?_,?_,?_⟩,?_,?_,?_⟩ <;>
      simp [hfree, Stage.turned, Stage.settled, Stage.audioClosed]
  case speaking.cons =>
    obtain ⟨-,rfl⟩ := h
    refine ⟨by simp,⟨?_,?_,?_,?_⟩,?_,?_,?_⟩ <;>
      simp [Stage.turned, Stage.settled, Stage.holdsSlot, Stage.audioClosed]
  all_goals
    subst h
    refine ⟨by simp,⟨?_,?_,?_,?_⟩,?_,?_,?_⟩ <;>
      simp [Stage.turned, Stage.settled, Stage.holdsSlot, Stage.audioClosed]

inductive Move (S : VoiceRun) (s : State) : State → Prop where
  | hand (chunks : List Chunk) (hloop : s.loop = .scanning)
      (hnext : S.sections[s.legs.length]? = some chunks) : Move S s { s with
        loop := .starting s.legs.length
        legs := s.legs ++ [newVoiceSpeechLeg chunks]
        legsCh := s.legsCh ++ [s.legs.length] }
  | start (k : ℕ) (l : Leg) (hloop : s.loop = .starting k) (hl : s.legs[k]? = some l) :
      Move S s { s with loop := .scanning, legs := s.legs.set k { l with stage := .turn } }
  | close (hloop : s.loop = .scanning) (hnext : S.sections[s.legs.length]? = none) :
      Move S s { s with loop := .joining 0 }
  | join (n : ℕ) (l : Leg) (hloop : s.loop = .joining n) (hl : s.legs[n]? = some l)
      (hresult : l.stage.hasResult = true) : Move S s { s with loop := .joining (n+1) }
  | wait (n : ℕ) (hloop : s.loop = .joining n) (hl : s.legs[n]? = none)
      (hreturned : s.relay.returned = true) : Move S s { s with loop := .joined }
  | leg (k : ℕ) (l l' : Leg) (hl : s.legs[k]? = some l) (hcreated : l.stage ≠ .created)
      (hstep : Advanced (after s.legs k) (decide (held s.legs < S.slots)) l l') :
      Move S s { s with legs := s.legs.set k l' }
  | take (k : ℕ) (rest : List ℕ) (hcur : s.relay.cur = none) (hqueue : s.legsCh = k::rest)
      (hreturned : s.relay.returned = false) :
      Move S s { s with legsCh := rest, relay := { s.relay with cur := some k } }
  | finish (hcur : s.relay.cur = none) (hqueue : s.legsCh = []) (hclosed : s.legsClosed = true) :
      Move S s { s with relay := { s.relay with returned := true } }
  | deliver (k : ℕ) (l : Leg) (a : Chunk) (rest : List Chunk) (hcur : s.relay.cur = some k)
      (hl : s.legs[k]? = some l) (haudio : l.audioCh = a::rest) : Move S s { s with
        legs := s.legs.set k { l with audioCh := rest }
        relay := s.relay.deliver k a }
  | next (k : ℕ) (l : Leg) (hcur : s.relay.cur = some k) (hl : s.legs[k]? = some l)
      (haudio : l.audioCh = []) (hclosed : l.stage.audioClosed = true) :
      Move S s { s with relay := { s.relay with cur := none } }
  | gap (rate : ℤ) (k : ℕ) : Move S s { s with relay := s.relay.fillGap S.encodeToString rate k }

section Moves
variable {S : VoiceRun} {s t : State}

theorem move_of_stepLLM (h : stepLLM S s = some t) : Move S s t := by
  unfold stepLLM at h
  cases hloop : s.loop with
  | scanning =>
    cases hnext : S.sections[s.legs.length]? with
    | some chunks =>
      simp only [hloop, hnext, ite_none_right_eq_some, some.injEq] at h
      obtain ⟨-,rfl⟩ := h
      exact .hand chunks hloop hnext
    | none =>
      simp only [hloop, hnext, some.injEq] at h
      exact h ▸ .close hloop hnext
  | starting k =>
    cases hl : s.legs[k]? with
    | some l =>
      simp only [hloop, hl, some.injEq] at h
      exact h ▸ .start k l hloop hl
    | none => simp [hloop, hl] at h
  | joining n =>
    cases hl : s.legs[n]? with
    | some l =>
      simp only [hloop, hl, ite_none_right_eq_some, some.injEq] at h
      obtain ⟨hresult,rfl⟩ := h
      exact .join n l hloop hl hresult
    | none =>
      simp only [hloop, hl, ite_none_right_eq_some, some.injEq] at h
      obtain ⟨hreturned,rfl⟩ := h
      exact .wait n hloop hl hreturned
  | joined => simp [hloop] at h

theorem move_of_stepLeg {k : ℕ} (h : stepLeg S s k = some t) : Move S s t := by
  unfold stepLeg at h
  cases hl : s.legs[k]? with
  | none => simp [hl] at h
  | some l =>
    simp only [hl] at h
    split at h
    · rename_i l' hstep
      obtain ⟨hcreated,hadvanced⟩ := advanced_of_advance hstep
      cases h
      exact .leg k l l' hl hcreated hadvanced
    · cases h

theorem move_of_stepRelay (h : stepRelay s = some t) : Move S s t := by
  unfold stepRelay at h
  split at h
  · cases h
  rename_i hreturned
  split at h
  · rename_i hcur
    split at h
    · rename_i k rest hqueue
      cases h
      exact .take k rest hcur hqueue (Bool.eq_false_of_not_eq_true hreturned)
    rename_i hqueue
    split at h
    · rename_i hclosed
      cases h
      exact .finish hcur hqueue hclosed
    · cases h
  rename_i k hcur
  split at h
  · rename_i l hl
    split at h
    · rename_i a rest haudio
      cases h
      exact .deliver k l a rest hcur hl haudio
    rename_i haudio
    split at h
    · rename_i hclosed
      cases h
      exact .next k l hcur hl haudio hclosed
    · cases h
  · cases h

theorem move_of_stepTick (h : stepTick S s = some t) : Move S s t := by
  unfold stepTick at h
  split at h
  · cases hcur : s.relay.cur with
    | none =>
      simp only [hcur, some.injEq] at h
      exact h ▸ .gap _ _
    | some k =>
      simp only [hcur] at h
      split at h
      · rename_i u hu
        cases h
        exact move_of_stepRelay hu
      · split at h <;> cases h <;> exact .gap _ _
  · cases h

theorem move_of_step {a : Act} (h : step S s a = some t) : Move S s t := by
  cases a with
  | llm => exact move_of_stepLLM h
  | leg k => exact move_of_stepLeg h
  | relay => exact move_of_stepRelay h
  | tick => exact move_of_stepTick h

end Moves

end OnPremGateway.VoiceRelay
