import OnPremGateway.OwnerHandlers
import OnPremGateway.LabelledRuns
import OnPremGateway.KeyedTable

/-!
# What the owner can do to its state

Every function of the owner is a sequence of a few moves, each guarded by what
the code has checked at that point. What holds of the owner is proved of these
moves, and the functions are only read once, as sequences of them.
-/

set_option autoImplicit false

namespace OnPremGateway.OwnerMoves
open RuntimeTypes InstanceModel OwnerModel Owner
open LabelledRuns KeyedTable

variable (o : Owner) (key : String) (st : SpecState) (err : Err)

section Table
variable (o : Owner) (key k : String) (st : SpecState) (f : SpecState → SpecState)

@[simp] theorem find_put_self : (o.put key st).find key = some st := AList.lookup_insert _

theorem find_put_ne (h : k ≠ key) : (o.put key st).find k = o.find k := AList.lookup_insert_ne h

theorem find_put : (o.put key st).find k = if k = key then some st else o.find k := by
  by_cases h : k = key
  · rw [if_pos h, h]
    exact find_put_self o key st
  · rw [if_neg h]
    exact find_put_ne o key k st h

@[simp] theorem put_put (st' : SpecState) : (o.put key st).put key st' = o.put key st' := by
  simp only [put, AList.insert_insert]

theorem modify_some (h : o.find key = some st) : o.modify key f = o.put key (f st) := by
  rw [Owner.modify, h]

theorem modify_none (h : o.find key = none) : o.modify key f = o := by
  rw [Owner.modify, h]

@[simp] theorem find_modify_self : (o.modify key f).find key = (o.find key).map f := by
  cases h : o.find key with
  | none => rw [modify_none o key f h, h]; rfl
  | some st => rw [modify_some o key st f h, find_put_self]; rfl

theorem find_deleteState : (o.deleteState key).find k = if k = key then none else o.find k := by
  by_cases h : k = key
  · rw [if_pos h, h]
    exact AList.lookup_erase _ _
  · rw [if_neg h]
    exact AList.lookup_erase_ne h

theorem mem_keys_of_find (E : Env) (h : o.find key = some st) : key ∈ o.keys E := by
  rw [keys, (E.here.range.perm () _).mem_iff]
  exact AList.mem_keys.mp (AList.lookup_isSome.mp (by rw [← find, h]; rfl))

theorem find_setState (E : Env) (s : State) : (o.setState E key s).find key =
    (o.find key).map fun st =>
      if st.state = s then st else { st with state := s, since := E.here.now } :=
  find_modify_self o key _

end Table

section Cancel
variable {o : Owner} {T : Timer}

theorem cancelTimer_eq (o : Owner) (purpose : Purpose) (handle : Option ℕ) :
    o.cancelTimer purpose handle = { o with timers := (o.cancelTimer purpose handle).timers } := by
  cases handle <;> rfl

theorem cancelTimer_sublist (o : Owner) (purpose : Purpose) (handle : Option ℕ) :
    (o.cancelTimer purpose handle).timers.Sublist o.timers := by
  cases handle with
  | none => exact List.Sublist.refl _
  | some n => exact List.filter_sublist

theorem mem_cancelTimer {purpose : Purpose} {handle : Option ℕ} (h : T ∈ o.timers)
    (hp : T.purpose ≠ purpose) : T ∈ (o.cancelTimer purpose handle).timers := by
  cases handle with
  | none => exact h
  | some n =>
    apply List.mem_filter.mpr ⟨h,?_⟩
    simp [hp]

end Cancel

/-- A waiter's timer is never a retry's. -/
theorem cancelWaiterTimers_eq (specID : String) (ws : List Waiter) :
    o.cancelWaiterTimers specID ws = { o with timers := (o.cancelWaiterTimers specID ws).timers } ∧
    (o.cancelWaiterTimers specID ws).timers.Sublist o.timers ∧
    ∀ T ∈ o.timers, (∀ r, T.purpose ≠ .waiter specID r) →
      T ∈ (o.cancelWaiterTimers specID ws).timers := by
  induction ws generalizing o with
  | nil => exact ⟨rfl,List.Sublist.refl _,fun _ h _ => h⟩
  | cons w ws ih =>
    obtain ⟨he,hs,hk⟩ := ih (o.cancelTimer (.waiter specID w.reply) w.timer)
    have hstep : o.cancelWaiterTimers specID (w::ws) =
      (o.cancelTimer (.waiter specID w.reply) w.timer).cancelWaiterTimers specID ws := rfl
    rw [hstep]
    refine ⟨?_,?_,?_⟩
    · rw [he]
      cases w.timer <;> rfl
    · exact hs.trans (cancelTimer_sublist o _ _)
    · intro T hT hp
      apply hk T _ hp
      cases hw : w.timer with
      | none => exact hT
      | some n =>
        apply List.mem_filter.mpr ⟨hT,?_⟩
        simp [hp w.reply]

theorem sendAll_eq (ws : List Waiter) (out : Outcome) : o.sendAll ws out =
      { o with answers := (ws.map fun w => (w.reply, out)).reverse ++ o.answers } := by
  induction ws generalizing o with
  | nil => rfl
  | cons w ws ih =>
    have hstep : o.sendAll (w::ws) out = (o.send w.reply out).sendAll ws out := rfl
    rw [hstep, ih]
    simp [send]

theorem failPending_some (h : o.find key = some st) : o.failPending key err = { o with
        timers := (o.cancelWaiterTimers st.spec.id st.pending).timers
        answers := (st.pending.map fun w => (w.reply, Outcome.refused err)).reverse ++ o.answers
        specs := o.specs.insert key { st with pending := [] } } := by
  rw [failPending, h]
  simp only [sendAll_eq, put]
  rw [(cancelWaiterTimers_eq o st.spec.id st.pending).1]

theorem failPending_none (h : o.find key = none) : o.failPending key err = o := by
  rw [failPending, h]

@[simp] theorem find_failPending_self :
    (o.failPending key err).find key = (o.find key).map fun st => { st with pending := [] } := by
  cases h : o.find key with
  | none => rw [failPending_none o key err h, h]; rfl
  | some st =>
    rw [failPending_some o key st err h]
    exact find_put_self o key _

theorem succeedPending_some (E : Env) (o : Owner) (key : String) (st : SpecState) (p : Proc)
    (h : o.find key = some st) (hp : st.proc = some p) : o.succeedPending E key = { o with
        timers := (o.cancelWaiterTimers st.spec.id st.pending).timers
        answers := (st.pending.map fun w =>
          (w.reply, Outcome.granted (endpointFor p.port) key p.gen)).reverse ++ o.answers
        specs := o.specs.insert key
          { st with inFlight := st.inFlight+st.pending.length, pending := []
                    lastUsed := E.here.now } } := by
  rw [succeedPending, h]
  simp only [hp, sendAll_eq, put]
  rw [(cancelWaiterTimers_eq o st.spec.id st.pending).1]

theorem spawn_some (E : Env) (o : Owner) (key : String) (st : SpecState) (port pid : ℤ)
    (h : o.find key = some st) : ∃ since, o.spawn E key port pid = { o with
        timers := (o.cancelWaiterTimers st.spec.id st.pending).timers
        nextGen := o.nextGen+1
        children := (st.spec.id, o.nextGen)::o.children
        polling := (st.spec.id, o.nextGen)::o.polling
        specs := o.specs.insert key
          { st with
            state := .starting
            since := since
            proc := some { gen := o.nextGen, specID := st.spec.id, pid := pid, port := port
                           startedAt := (E.sub 0).here.now, launch := st.spec }
            pending := st.pending.map fun w => { w with timer := none } } } := by
  rw [spawn, h]
  simp only
  rw [(cancelWaiterTimers_eq o st.spec.id st.pending).1]
  simp only [setState]
  rw [modify_some _ key _ _ (find_put_self _ key _), put_put]
  by_cases hs : st.state = .starting
  · refine ⟨st.since,?_⟩
    simp only [put]
    rw [if_pos hs, ← hs]
  · refine ⟨(E.sub 1).here.now,?_⟩
    simp only [put]
    rw [if_neg hs]

theorem cancelBackoff_some (h : o.find key = some st) : o.cancelBackoff key =
      { o with timers := (o.cancelTimer (.backoff st.spec.id) st.backoffTimer).timers
               specs := o.specs.insert key { st with backoffTimer := none } } := by
  rw [cancelBackoff, h]
  cases hb : st.backoffTimer <;> simp [cancelTimer, put, hb]

def startGen : Posted → Option ℕ
  | ⟨.startResult _ gen _, _⟩ => some gen
  | _ => none

def results (o : Owner) : List ℕ := o.polling.map Prod.snd ++ o.posted.filterMap startGen

/-- The fields that a move has to account for. -/
structure Quiet (st st' : SpecState) : Prop where
  spec : st'.spec = st.spec
  instanceIdx : st'.instanceIdx = st.instanceIdx
  decidedTurn : st'.decidedTurn = st.decidedTurn
  state : st'.state = st.state
  proc : st'.proc = st.proc
  inFlight : st'.inFlight = st.inFlight
  backoffTimer : st'.backoffTimer = st.backoffTimer
  backoffOnExit : st'.backoffOnExit = st.backoffOnExit
  intentionalStop : st'.intentionalStop = st.intentionalStop
  pending : st'.pending = st.pending
  waitingOnGrace : st'.waitingOnGrace ≤ st.waitingOnGrace
  vramBootstrapDone : st.vramBootstrapDone ≤ st'.vramBootstrapDone
  ramBootstrapRetries : st'.ramBootstrapRetries = st.ramBootstrapRetries
  bootstrapVerdicts : st'.bootstrapVerdicts = st.bootstrapVerdicts
  bootstrapEvictions : st'.bootstrapEvictions = st.bootstrapEvictions

structure SameGen (p p' : Proc) : Prop where
  gen : p'.gen = p.gen
  specID : p'.specID = p.specID
  port : p'.port = p.port
  launch : p'.launch = p.launch

inductive Shifts (o : Owner) (st : SpecState) : State → Prop
  | rest (s : State) (hp : st.proc = none) (hn : st.state ≠ .backoff)
      (hs : s ∈ [State.stopped, .startFailed, .crashed, .notPermitted, .pendingVRAMUnknown]) :
      Shifts o st s
  | drain (p : Proc) (hp : st.proc = some p) (hs : st.state ≠ .draining) : Shifts o st .draining
  | run (p : Proc) (hp : st.proc = some p) (hs : st.state = .starting)
      (hr : p.gen ∉ results o) : Shifts o st .running
  | overdue (p : Proc) (hp : st.proc = some p) (hs : st.state = .starting ∨ st.state = .running)
      (hr : st.state = .starting → p.gen ∉ results o) : Shifts o st .startFailed
  | closing (hc : o.closing = true) (hs : st.state = .startFailed) : Shifts o st .stopped

def Armable (o : Owner) (T : Timer) : Prop :=
  (∀ id, T.purpose ≠ .backoff id) ∧ ∀ id gen, T.purpose = .drain id gen →
    ∃ st p, o.find id = some st ∧ st.proc = some p ∧ p.gen = gen ∧ st.state = .draining

def Arming (o : Owner) (ts : List Timer) : Prop :=
  ∃ armed, ts.Sublist (armed ++ o.timers) ∧ ∀ T ∈ armed, Armable o T

def KeepsBackoff (old new : List Timer) : Prop :=
  ∀ T ∈ old, ∀ id, T.purpose = .backoff id → T ∈ new

structure Background (o o' : Owner) : Prop where
  specs : o'.specs = o.specs
  timers : o'.timers = o.timers
  nextTimer : o'.nextTimer = o.nextTimer
  posted : o'.posted = o.posted
  nextGen : o'.nextGen = o.nextGen
  children : o'.children = o.children
  polling : o'.polling = o.polling
  accepted : o'.accepted = o.accepted
  answers : o'.answers = o.answers
  released : o'.released = o.released
  signals : o'.signals = o.signals
  evictionGrace : o'.evictionGrace = o.evictionGrace
  graceTimer : o'.graceTimer = o.graceTimer
  closing : o'.closing = o.closing
  turn : o'.turn = o.turn

structure Fresh (key : String) (st : SpecState) : Prop where
  id : st.spec.id = key
  instance_range : 0 ≤ st.instanceIdx ∧ st.instanceIdx ≤ maxInstanceIndex
  instance_key : st.instanceIdx ≠ 0 → key = instanceKey st.spec.instanceOf st.instanceIdx
  decidedTurn : st.decidedTurn = 0
  state : st.state = .stopped
  proc : st.proc = none
  inFlight : st.inFlight = 0
  backoffOnExit : st.backoffOnExit = false
  intentionalStop : st.intentionalStop = false
  pending : st.pending = []
  backoffTimer : st.backoffTimer = none
  waitingOnGrace : st.waitingOnGrace = false
  ramBootstrapRetries : st.ramBootstrapRetries = 0
  bootstrapVerdicts : st.bootstrapVerdicts = 0
  bootstrapEvictions : st.bootstrapEvictions = 0

/-- What kind of move it is: the admission machinery makes quiet and plain
moves, decides, notes its verdict and sees to the wake at the end of a grace
window; a command may also do one of the others. The wait for a retry is called
off or elapses. A request is accepted into a queue or resolved at once. -/
inductive Label where
  | quiet
  | plain
  | verdict
  | regrace
  | decide
  | create
  | respec
  | unpark
  | elapse
  | clear
  | accept (reply : ℕ)
  | resolve (reply : ℕ)
  deriving DecidableEq

inductive Move : Label → Owner → Owner → Prop
  | quiet (o : Owner) (key : String) (st st' : SpecState) (h : o.find key = some st)
      (hq : Quiet st st') : Move .quiet o (o.put key st')
  | shift (o : Owner) (key : String) (st : SpecState) (s : State) (since : ℤ)
      (h : o.find key = some st) (hs : Shifts o st s) :
      Move .plain o (o.put key { st with state := s, since := since })
  | deferral (o : Owner) (key : String) (st : SpecState) (h : o.find key = some st)
      (hp : st.proc.isSome = true) : Move .plain o (o.put key { st with backoffOnExit := true })
  | retime (o : Owner) (key : String) (st : SpecState) (p p' : Proc) (h : o.find key = some st)
      (hp : st.proc = some p) (hs : SameGen p p') :
      Move .plain o (o.put key { st with proc := some p' })
  | timers (o : Owner) (ts : List Timer) (n : ℕ) (hk : KeepsBackoff o.timers ts)
      (hn : o.nextTimer ≤ n) (ha : Arming o ts)
      (hg : ∀ T ∈ o.timers, T.purpose = .grace → T ∈ ts) :
      Move .quiet o { o with timers := ts, nextTimer := n }
  | park (E : Env) (o : Owner) (key : String) (st : SpecState) (h : o.find key = some st)
      (hp : st.proc = none) (hb : st.burst = false) (hn : st.state ≠ .backoff)
      (hc : o.closing = false) : Move .plain o (o.park E key)
  | unpark (o : Owner) (key : String) (st : SpecState) (since : ℤ) (h : o.find key = some st)
      (hp : st.state = .backoff → st.proc = none) : Move .unpark o (Owner.put
        { o with timers := (o.cancelTimer (.backoff st.spec.id) st.backoffTimer).timers } key
        { st with backoffTimer := none, since := since
                  state := if st.state = State.backoff then .stopped else st.state })
  | elapse (o : Owner) (key : String) (st : SpecState) (since : ℤ) (h : o.find key = some st)
      (hp : st.state = .backoff → st.proc = none) : Move .elapse o (o.put key
        { st with backoffTimer := none, since := since
                  state := if st.state = State.backoff then .stopped else st.state })
  | verdict (o : Owner) (key : String) (st : SpecState) (ram grace : Bool)
      (h : o.find key = some st) :
      Move .verdict o (o.put key { st with waitingOnRAM := ram, waitingOnGrace := grace })
  | regrace (o : Owner) (ts : List Timer) (n : ℕ) (handle : Option ℕ) (expiry : ℤ)
      (hk : KeepsBackoff o.timers ts) (hn : o.nextTimer ≤ n) (ha : Arming o ts)
      (hg : ∀ serial, handle = some serial → ∃ T ∈ ts, T.purpose = .grace ∧ T.serial = serial) :
      Move .regrace o
        { o with timers := ts, nextTimer := n, graceTimer := handle, graceTimerAt := expiry }
  | bootstrap (o : Owner) (key : String) (st : SpecState) (h : o.find key = some st)
      (hd : st.vramBootstrapDone = false) : Move .plain o (o.put key { st with
        bootstrapVerdicts := st.bootstrapVerdicts+1, vramBootstrapDone := true })
  | escalate (o : Owner) (key : String) (st : SpecState) (h : o.find key = some st)
      (hr : st.ramBootstrapRetries < ramBootstrapMaxRetries) : Move .plain o (o.put key { st with
        ramBootstrapRetries := st.ramBootstrapRetries+1
        bootstrapEvictions := st.bootstrapEvictions+1 })
  | measured (o : Owner) (key : String) (st : SpecState) (mb ready : ℤ)
      (h : o.find key = some st) : Move .plain o (o.put key { st with
        measuredRAM := mb, ramBootstrapRetries := 0, ramBootstrapBeats := 0, readyRAM := ready
        bootstrapEvictions := 0 })
  | fail (o : Owner) (key : String) (st : SpecState) (err : Err) (h : o.find key = some st) :
      Move .plain o (o.failPending key err)
  | serve (E : Env) (o : Owner) (key : String) (st : SpecState) (p : Proc)
      (h : o.find key = some st) (hp : st.proc = some p) (hs : st.state = .running) :
      Move .plain o (o.succeedPending E key)
  | answer (o : Owner) (key : String) (st : SpecState) (reply : ℕ) (err : Err)
      (h : o.find key = some st) (hw : (st.waiting reply).isSome = true) :
      Move .plain o (o.answerWaiter key reply err)
  | signal (o : Owner) (key : String) (st : SpecState) (p : Proc) (cause : Cause)
      (h : o.find key = some st) (hp : st.proc = some p)
      (hs : st.state = .draining ∨ st.state = .startFailed)
      (hc : st.inFlight = 0 ∨ (cause = .drainGraceExpired ∧ st.state = .draining) ∨
        cause = .bootstrapDeadline) : Move .plain o (o.terminateNow key cause)
  | spawn (E : Env) (o : Owner) (key : String) (st : SpecState) (port pid : ℤ)
      (h : o.find key = some st) (hp : st.proc = none) (hn : st.state ≠ .backoff) :
      Move .plain o (o.spawn E key port pid)
  | create (o : Owner) (key : String) (st : SpecState) (h : o.find key = none)
      (hf : Fresh key st) : Move .create o (o.put key st)
  | erase (o : Owner) (key : String) (st : SpecState) (ts : List Timer) (h : o.find key = some st)
      (hp : st.proc = none) (hw : st.pending = []) (hb : st.state = .backoff → st.burst = true)
      (ht : ts = o.timers ∨ ts = (o.cancelTimer (.backoff st.spec.id) st.backoffTimer).timers) :
      Move .plain o (Owner.deleteState { o with timers := ts } key)
  | global (o o' : Owner) (hb : Background o o') : Move .quiet o o'
  | decide (o : Owner) (key : String) (st : SpecState) (d : ℕ) (h : o.find key = some st)
      (hd : d = 0 ∨ d = o.turn) : Move .decide o (o.put key { st with decidedTurn := d })
  | respec (o : Owner) (key : String) (st : SpecState) (spec : Spec) (h : o.find key = some st)
      (hid : spec.id = key)
      (hk : st.instanceIdx ≠ 0 → key = instanceKey spec.instanceOf st.instanceIdx)
      (hb : isBurst spec st.instanceIdx = true → st.state ≠ .backoff) :
      Move .respec o (o.put key { st with spec := spec })
  | clear (E : Env) (o : Owner) (key : String) (st : SpecState) (p : Proc)
      (h : o.find key = some st) (hp : st.proc = some p) : Move .clear o (o.clearProc E key)
  | enqueue (E : Env) (o : Owner) (key : String) (st : SpecState) (reply : ℕ)
      (h : o.find key = some st) : Move (.accept reply) o (o.enqueue E key reply)
  | grant (E : Env) (o : Owner) (key : String) (st : SpecState) (p : Proc) (reply : ℕ)
      (h : o.find key = some st) (hp : st.proc = some p) (hs : st.state = .running) :
      Move (.resolve reply) o (o.grant E key reply)
  | refuse (o : Owner) (reply : ℕ) (err : Err) :
      Move (.resolve reply) o (o.send reply (.refused err))

def Still : Set Label := {.quiet}

def Plain : Set Label := {.quiet, .plain}

def Calm : Set Label := {.quiet, .plain, .verdict, .regrace, .decide}

theorem still_plain : Still ⊆ Plain := by simp [Still, Plain]

theorem plain_calm : Plain ⊆ Calm := by
  intro l hl
  rcases hl with rfl | rfl
  · simp [Calm]
  · simp [Calm]

theorem still_calm : Still ⊆ Calm := still_plain.trans plain_calm

def Grow : Set Label := {.quiet, .plain, .create}

def Loose : Set Label := {.quiet, .plain, .verdict, .regrace, .decide, .create}

def Wind : Set Label := {.quiet, .plain, .unpark}

theorem plain_grow : Plain ⊆ Grow := by
  intro l hl
  rcases hl with rfl | rfl <;> simp [Grow]

theorem grow_loose : Grow ⊆ Loose := by
  intro l hl
  rcases hl with rfl | rfl | rfl <;> simp [Loose]

theorem calm_loose : Calm ⊆ Loose := by
  intro l hl
  rcases hl with rfl | rfl | rfl | rfl | rfl <;> simp [Loose]

theorem plain_wind : Plain ⊆ Wind := by
  intro l hl
  rcases hl with rfl | rfl <;> simp [Wind]

theorem still_loose : Still ⊆ Loose := still_calm.trans calm_loose

abbrev Steps (L : Set Label) : Owner → Owner → Prop := Via Move L

theorem Quiet.refl : Quiet st st := by constructor <;> rfl

theorem Quiet.trans {a b c : SpecState} (hab : Quiet a b) (hbc : Quiet b c) : Quiet a c where
  spec := hbc.spec.trans hab.spec
  instanceIdx := hbc.instanceIdx.trans hab.instanceIdx
  decidedTurn := hbc.decidedTurn.trans hab.decidedTurn
  state := hbc.state.trans hab.state
  proc := hbc.proc.trans hab.proc
  inFlight := hbc.inFlight.trans hab.inFlight
  backoffTimer := hbc.backoffTimer.trans hab.backoffTimer
  backoffOnExit := hbc.backoffOnExit.trans hab.backoffOnExit
  intentionalStop := hbc.intentionalStop.trans hab.intentionalStop
  pending := hbc.pending.trans hab.pending
  waitingOnGrace := hbc.waitingOnGrace.trans hab.waitingOnGrace
  vramBootstrapDone := hab.vramBootstrapDone.trans hbc.vramBootstrapDone
  ramBootstrapRetries := hbc.ramBootstrapRetries.trans hab.ramBootstrapRetries
  bootstrapVerdicts := hbc.bootstrapVerdicts.trans hab.bootstrapVerdicts
  bootstrapEvictions := hbc.bootstrapEvictions.trans hab.bootstrapEvictions

theorem Background.find {o o' : Owner} (h : Background o o') (key : String) :
    o'.find key = o.find key := by
  rw [Owner.find, Owner.find, h.specs]

structure SameTable (o o' : Owner) : Prop where
  find : ∀ key st, o.find key = some st → ∃ st', o'.find key = some st' ∧ Quiet st st'
  back : ∀ key st', o'.find key = some st' → ∃ st, o.find key = some st ∧ Quiet st st'
  closing : o'.closing = o.closing
  turn : o'.turn = o.turn

theorem SameTable.refl : SameTable o o :=
  ⟨fun _ st h => ⟨st,h,Quiet.refl st⟩,fun _ st h => ⟨st,h,Quiet.refl st⟩,rfl,rfl⟩

theorem SameTable.trans {a b c : Owner} (hab : SameTable a b) (hbc : SameTable b c) :
    SameTable a c where
  find key st h := by
    obtain ⟨st',h',hq⟩ := hab.find key st h
    obtain ⟨st'',h'',hq'⟩ := hbc.find key st' h'
    exact ⟨st'',h'',hq.trans hq'⟩
  back key st h := by
    obtain ⟨st',h',hq⟩ := hbc.back key st h
    obtain ⟨st'',h'',hq'⟩ := hab.back key st' h'
    exact ⟨st'',h'',hq'.trans hq⟩
  closing := hbc.closing.trans hab.closing
  turn := hbc.turn.trans hab.turn

theorem sameTable_of_quiet (o o' : Owner) (h : Move .quiet o o') : SameTable o o' := by
  cases h with
  | quiet _ key st st' h hq =>
    refine ⟨?_,?_,rfl,rfl⟩
    · intro k s hk
      rw [find_put]
      split
      · rename_i he
        rw [he, h] at hk
        cases hk
        exact ⟨st',rfl,hq⟩
      · exact ⟨s,hk,Quiet.refl s⟩
    · intro k s hk
      rw [find_put] at hk
      split at hk
      · rename_i he
        cases hk
        exact ⟨st,he ▸ h,hq⟩
      · exact ⟨s,hk,Quiet.refl s⟩
  | timers =>
    exact ⟨fun _ s hk => ⟨s,hk,Quiet.refl s⟩,fun _ s hk => ⟨s,hk,Quiet.refl s⟩,rfl,rfl⟩
  | global _ _ hb =>
    refine ⟨?_,?_,hb.closing,hb.turn⟩
    · exact fun k s hk => ⟨s,(hb.find k).trans hk,Quiet.refl s⟩
    · exact fun k s hk => ⟨s,(hb.find k).symm.trans hk,Quiet.refl s⟩

theorem still_sameTable {o o' : Owner} (h : Steps Still o o') : SameTable o o' := by
  refine h.keeps (SameTable o) ?_ (SameTable.refl o)
  rintro l rfl x y hm hx
  exact hx.trans (sameTable_of_quiet x y hm)

end OnPremGateway.OwnerMoves
