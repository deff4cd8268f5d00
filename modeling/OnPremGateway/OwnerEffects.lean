import OnPremGateway.OwnerPaths

/-!
# What a move changes

A move touches at most one state of the table. It says how that state changes
and what else leaves the owner with it: the answers that are sent, the
generation that is born, the signal that goes out and the retry that is armed.
-/

set_option autoImplicit false

namespace OnPremGateway.OwnerEffects
open RuntimeTypes InstanceModel OwnerModel List Owner
open LabelledRuns KeyedTable OwnerMoves

variable (E : Env) (o : Owner) (key : String) (st : SpecState) (p : Proc)

structure Effect where
  sent : List (ℕ × Outcome) := []
  born : List (String × ℕ) := []
  signalled : List Signal := []
  parked : List Timer := []

def cleared (st : SpecState) : SpecState :=
  { st with proc := none, inFlight := 0, measuredVRAM := ∅, measuredRAM := 0, readyVRAM := ∅
            readyRAM := 0, intentionalStop := false, backoffOnExit := false, drainedFor := [] }

def refusals (ws : List Waiter) (err : Err) : List (ℕ × Outcome) :=
  (ws.map fun w => (w.reply, Outcome.refused err)).reverse

def grants (ws : List Waiter) (key : String) (p : Proc) : List (ℕ × Outcome) :=
  (ws.map fun w => (w.reply, Outcome.granted (endpointFor p.port) key p.gen)).reverse

inductive Change (o : Owner) (key : String) (st : SpecState) : Label → Effect → SpecState → Prop
  | quiet (st' : SpecState) (hq : Quiet st st') : Change o key st .quiet {} st'
  | shift (s : State) (since : ℤ) (hs : Shifts o st s) :
      Change o key st .plain {} { st with state := s, since := since }
  | deferral (hp : st.proc.isSome = true) :
      Change o key st .plain {} { st with backoffOnExit := true }
  | retime (p p' : Proc) (hp : st.proc = some p) (hs : SameGen p p') :
      Change o key st .plain {} { st with proc := some p' }
  | park (since delay : ℤ) (hp : st.proc = none) (hb : st.burst = false)
      (hn : st.state ≠ .backoff) (hc : o.closing = false) :
      Change o key st .plain { parked := [⟨.backoff st.spec.id, o.nextTimer, delay⟩] }
        { st with state := .backoff, since := since, backoffTimer := some o.nextTimer }
  | unpark (l : Label) (since : ℤ) (hl : l = .unpark ∨ l = .elapse)
      (hp : st.state = .backoff → st.proc = none) : Change o key st l {} { st with
        backoffTimer := none, since := since
        state := if st.state = State.backoff then .stopped else st.state }
  | verdict (ram grace : Bool) :
      Change o key st .verdict {} { st with waitingOnRAM := ram, waitingOnGrace := grace }
  | bootstrap (hd : st.vramBootstrapDone = false) : Change o key st .plain {} { st with
        bootstrapVerdicts := st.bootstrapVerdicts+1, vramBootstrapDone := true }
  | escalate (hr : st.ramBootstrapRetries < ramBootstrapMaxRetries) :
      Change o key st .plain {} { st with
        ramBootstrapRetries := st.ramBootstrapRetries+1
        bootstrapEvictions := st.bootstrapEvictions+1 }
  | measured (mb ready : ℤ) : Change o key st .plain {} { st with
        measuredRAM := mb, ramBootstrapRetries := 0, ramBootstrapBeats := 0, readyRAM := ready
        bootstrapEvictions := 0 }
  | fail (err : Err) :
      Change o key st .plain { sent := refusals st.pending err } { st with pending := [] }
  | serve (now : ℤ) (p : Proc) (hp : st.proc = some p) (hs : st.state = .running) :
      Change o key st .plain { sent := grants st.pending key p } { st with
        inFlight := st.inFlight+st.pending.length, pending := [], lastUsed := now }
  | answer (reply : ℕ) (err : Err) (hw : (st.waiting reply).isSome = true) :
      Change o key st .plain { sent := [(reply, .refused err)] }
        { st with pending := st.pending.eraseP (fun w => w.reply = reply) }
  | signal (p : Proc) (serial : ℕ) (cause : Cause) (hp : st.proc = some p)
      (hs : st.state = .draining ∨ st.state = .startFailed)
      (hc : st.inFlight = 0 ∨ (cause = .drainGraceExpired ∧ st.state = .draining) ∨
        cause = .bootstrapDeadline) : Change o key st .plain
        { signalled := [⟨st.spec.id, p.gen, st.inFlight, st.state, cause⟩] }
        { st with intentionalStop := true
                  proc := some { p with drainTimer := none, killTimer := some serial } }
  | spawn (p : Proc) (since : ℤ) (hp : st.proc = none) (hn : st.state ≠ .backoff)
      (hg : p.gen = o.nextGen) (hi : p.specID = st.spec.id) (hl : p.launch = st.spec) :
      Change o key st .plain { born := [(st.spec.id, p.gen)] } { st with
        state := .starting, since := since, proc := some p
        pending := st.pending.map fun w => { w with timer := none } }
  | decide (d : ℕ) (hd : d = 0 ∨ d = o.turn) :
      Change o key st .decide {} { st with decidedTurn := d }
  | respec (spec : Spec) (hid : spec.id = key)
      (hk : st.instanceIdx ≠ 0 → key = instanceKey spec.instanceOf st.instanceIdx)
      (hb : isBurst spec st.instanceIdx = true → st.state ≠ .backoff) :
      Change o key st .respec {} { st with spec := spec }
  | clear (p : Proc) (hp : st.proc = some p) : Change o key st .clear {} (cleared st)
  | enqueue (w : Waiter) : Change o key st (.accept w.reply) {}
      { st with pending := st.pending ++ [w] }
  | grant (now : ℤ) (p : Proc) (reply : ℕ) (hp : st.proc = some p) (hs : st.state = .running) :
      Change o key st (.resolve reply)
        { sent := [(reply, .granted (endpointFor p.port) key p.gen)] }
        { st with inFlight := st.inFlight+1, lastUsed := now }

/-- The one state that a move touches. -/
inductive Touch (l : Label) (o o' : Owner) : Effect → Prop
  | same (hl : l ∈ Calm) (hs : o'.specs = o.specs) : Touch l o o' {}
  | refuse (reply : ℕ) (err : Err) (hl : l = .resolve reply) (hs : o'.specs = o.specs) :
      Touch l o o' { sent := [(reply, .refused err)] }
  | change (key : String) (st st' : SpecState) (e : Effect) (h : o.find key = some st)
      (hc : Change o key st l e st') (hs : o'.specs = o.specs.insert key st') : Touch l o o' e
  | create (key : String) (st : SpecState) (h : o.find key = none) (hf : Fresh key st)
      (hl : l = .create) (hs : o'.specs = o.specs.insert key st) : Touch l o o' {}
  | erase (key : String) (st : SpecState) (h : o.find key = some st) (hp : st.proc = none)
      (hw : st.pending = []) (hb : st.state = .backoff → st.burst = true) (hl : l = .plain)
      (hs : o'.specs = o.specs.erase key) : Touch l o o' {}

/-- What a move does beside the table. -/
structure Frame (l : Label) (o o' : Owner) (e : Effect) : Prop where
  answers : o'.answers = e.sent ++ o.answers
  nextGen : o'.nextGen = o.nextGen+e.born.length
  polling : o'.polling = e.born ++ o.polling
  signals : o'.signals = e.signalled ++ o.signals
  parked : e.parked ⊆ o'.timers
  nextTimer : o.nextTimer+e.parked.length ≤ o'.nextTimer
  posted : o'.posted = o.posted
  accepted : o'.accepted = o.accepted
  released : o'.released = o.released
  evictionGrace : o'.evictionGrace = o.evictionGrace
  graceTimer : l ≠ .regrace → o'.graceTimer = o.graceTimer
  closing : o'.closing = o.closing
  turn : o'.turn = o.turn

theorem park_some (h : o.find key = some st) : ∃ since delay, o.park E key = { o with
        nextTimer := o.nextTimer+1
        timers := ⟨.backoff st.spec.id, o.nextTimer, delay⟩::o.timers
        specs := o.specs.insert key
          { st with state := .backoff, since := since, backoffTimer := some o.nextTimer } } := by
  rw [park, h]
  simp only [setState]
  rw [modify_some o key st _ h]
  by_cases hs : st.state = .backoff
  · refine ⟨st.since,backoffDelayFor st.failures,?_⟩
    rw [if_pos hs, modify_some ((o.put key st).scheduleAfter _ _) key st _ (find_put_self o key st)]
    simp only [scheduleAfter, put, AList.insert_insert, ← hs]
  refine ⟨(E.sub 0).here.now,backoffDelayFor st.failures,?_⟩
  rw [if_neg hs]
  set parked := { st with state := State.backoff, since := (E.sub 0).here.now }
  rw [modify_some ((o.put key parked).scheduleAfter _ _) key parked _ (find_put_self o key parked)]
  simp only [scheduleAfter, put, AList.insert_insert]
  rfl

theorem terminateNow_some (cause : Cause)
    (h : o.find key = some st) (hp : st.proc = some p) :
    o.terminateNow key cause = o ∨ o.terminateNow key cause = { o with
        nextTimer := o.nextTimer+1
        timers := ⟨.kill st.spec.id p.gen, o.nextTimer, killGrace⟩::
          (o.cancelTimer (.drain st.spec.id p.gen) p.drainTimer).timers
        signals := ⟨st.spec.id, p.gen, st.inFlight, st.state, cause⟩::o.signals
        specs := o.specs.insert key { st with
          intentionalStop := true
          proc := some { p with drainTimer := none, killTimer := some o.nextTimer } } } := by
  rw [terminateNow, h]
  simp only [hp]
  split
  · exact .inl rfl
  split
  · exact .inl rfl
  · right
    cases p.drainTimer <;> rfl

theorem noteRAMFreed_eq : ∃ freed seq, o.noteRAMFreed E key =
      { o with ramFreedMB := freed, ramFreedUntilSeq := seq } := by
  rw [noteRAMFreed]
  split
  · exact ⟨o.ramFreedMB,o.ramFreedUntilSeq,rfl⟩
  split
  · exact ⟨o.ramFreedMB,o.ramFreedUntilSeq,rfl⟩
  simp only
  generalize (if realRAM _ = 0 then _ else _) = mb
  split
  · exact ⟨o.ramFreedMB,o.ramFreedUntilSeq,rfl⟩
  · exact ⟨_,_,rfl⟩

def quietedTimers (o : Owner) (st : SpecState) (p : Proc) : List Timer :=
  (((o.cancelTimer (.kill st.spec.id p.gen) p.killTimer).cancelTimer
    (.drain st.spec.id p.gen) p.drainTimer).cancelTimer (.stable st.spec.id p.gen)
    p.stableTimer).timers

theorem clearProc_some (h : o.find key = some st) (hp : st.proc = some p) :
    ∃ freed seq, o.clearProc E key =
      { o with ramFreedMB := freed, ramFreedUntilSeq := seq, timers := quietedTimers o st p
               specs := o.specs.insert key (cleared st) } := by
  rw [clearProc, h]
  simp only [hp]
  rw [cancelTimer_eq (cancelTimer _ _ _) (.stable st.spec.id p.gen),
    cancelTimer_eq (o.cancelTimer _ _) (.drain st.spec.id p.gen), cancelTimer_eq o]
  set dead := { st with proc := none, inFlight := 0, measuredVRAM := ∅ } with hdead
  set after := put _ key dead with hafter
  obtain ⟨freed,seq,hf⟩ := noteRAMFreed_eq E after key
  have hfind : ({ after with ramFreedMB := freed, ramFreedUntilSeq := seq } : Owner).find key =
      some dead := find_put_self _ key dead
  refine ⟨freed,seq,?_⟩
  rw [hf, modify_some _ key dead _ hfind, hafter, hdead]
  simp only [put, AList.insert_insert, cleared, quietedTimers]
  rw [cancelTimer_eq (cancelTimer _ _ _) (.stable st.spec.id p.gen),
    cancelTimer_eq (o.cancelTimer _ _) (.drain st.spec.id p.gen), cancelTimer_eq o]

theorem enqueue_some (reply : ℕ)
    (h : o.find key = some st) : ∃ w ts n, w.reply = reply ∧ o.nextTimer ≤ n ∧
      (ts = o.timers ∨ ∃ T r, T.purpose = .waiter key r ∧ ts = T::o.timers) ∧
      o.enqueue E key reply = { o with
        timers := ts, nextTimer := n
        specs := o.specs.insert key { st with pending := st.pending ++ [w] } } := by
  rw [enqueue, h]
  simp only
  split
  · exact ⟨{ reply := reply, timer := some o.nextTimer, queuedAt := E.here.now },_,
      o.nextTimer+1,rfl,Nat.le_succ _,.inr ⟨_,reply,rfl,rfl⟩,rfl⟩
  · exact ⟨{ reply := reply, queuedAt := E.here.now },o.timers,o.nextTimer,rfl,le_rfl, .inl rfl,rfl⟩

theorem grant_some (reply : ℕ)
    (h : o.find key = some st) (hp : st.proc = some p) : o.grant E key reply = { o with
        answers := (reply, .granted (endpointFor p.port) key p.gen)::o.answers
        specs := o.specs.insert key
          { st with inFlight := st.inFlight+1, lastUsed := E.here.now } } := by
  rw [grant, h]
  simp only
  split
  · rename_i hn
    rw [hp] at hn
    cases hn
  rename_i p' hp'
  rw [hp] at hp'
  cases hp'
  rfl

/-- Beside the table and the timers a move does what its effect says. -/
theorem Touch.framed {l : Label} {o o' : Owner} {e : Effect} (t : Touch l o o' e)
    {specs : AList fun _ : String => SpecState} {timers : List Timer} {nextTimer : ℕ} {freed : ℤ}
    {seq : ℕ} {children : List (String × ℕ)} (ho : o' = { o with
        specs := specs, timers := timers, nextTimer := nextTimer, ramFreedMB := freed
        ramFreedUntilSeq := seq, children := children, answers := e.sent ++ o.answers
        nextGen := o.nextGen+e.born.length, polling := e.born ++ o.polling
        signals := e.signalled ++ o.signals }) (hp : e.parked = [])
    (hn : o.nextTimer ≤ nextTimer := by exact le_rfl) : ∃ e, Frame l o o' e ∧ Touch l o o' e := by
  refine ⟨e,?_,t⟩
  rw [ho]
  constructor
  case parked => simp [hp]
  case nextTimer => simpa [hp] using hn
  case graceTimer => exact fun _ => rfl
  all_goals rfl

theorem touch_of_move {l : Label} {o o' : Owner} (h : Move l o o') :
    ∃ e, Frame l o o' e ∧ Touch l o o' e := by
  cases h with
  | quiet _ key st st' h hq =>
    exact Touch.framed (.change key st st' _ h (.quiet st' hq) rfl) rfl rfl
  | shift _ key st s since h hs =>
    exact Touch.framed (.change key st _ _ h (.shift s since hs) rfl) rfl rfl
  | deferral _ key st h hp =>
    exact Touch.framed (.change key st _ _ h (.deferral hp) rfl) rfl rfl
  | retime _ key st p p' h hp hs =>
    exact Touch.framed (.change key st _ _ h (.retime p p' hp hs) rfl) rfl rfl
  | timers _ ts n hk hn ha hg => exact Touch.framed (.same (by simp [Calm]) rfl) rfl rfl hn
  | park E _ key st h hp hb hn hc =>
    obtain ⟨since,delay,he⟩ := park_some E o key st h
    rw [he]
    refine ⟨_,?_,.change key st _ _ h (.park since delay hp hb hn hc) rfl⟩
    constructor
    case parked => simp
    case nextTimer => exact le_rfl
    case graceTimer => exact fun _ => rfl
    all_goals rfl
  | unpark _ key st since h hp =>
    exact Touch.framed (.change key st _ _ h (.unpark _ since (.inl rfl) hp) rfl) rfl rfl
  | elapse _ key st since h hp =>
    exact Touch.framed (.change key st _ _ h (.unpark _ since (.inr rfl) hp) rfl) rfl rfl
  | verdict _ key st ram grace h =>
    exact Touch.framed (.change key st _ _ h (.verdict ram grace) rfl) rfl rfl
  | regrace _ ts n handle expiry hk hn ha hg =>
    exact ⟨_,by constructor <;> first | rfl | exact nil_subset _ | exact hn | exact fun h => absurd rfl h,
      .same (by simp [Calm]) rfl⟩
  | bootstrap _ key st h hd =>
    exact Touch.framed (.change key st _ _ h (.bootstrap hd) rfl) rfl rfl
  | escalate _ key st h hr =>
    exact Touch.framed (.change key st _ _ h (.escalate hr) rfl) rfl rfl
  | measured _ key st mb ready h =>
    exact Touch.framed (.change key st _ _ h (.measured mb ready) rfl) rfl rfl
  | fail _ key st err h =>
    rw [failPending_some o key st err h]
    exact Touch.framed (.change key st _ _ h (.fail err) rfl) rfl rfl
  | serve E _ key st p h hp hs =>
    rw [succeedPending_some E o key st p h hp]
    exact Touch.framed (.change key st _ _ h (.serve E.here.now p hp hs) rfl) rfl rfl
  | answer _ key st reply err h hw =>
    rw [answerWaiter, h]
    exact Touch.framed (.change key st _ _ h (.answer reply err hw) rfl) rfl rfl
  | signal _ key st p cause h hp hs hc =>
    rcases terminateNow_some o key st p cause h hp with he | he
    · rw [he]
      exact Touch.framed (.same (by simp [Calm]) rfl) rfl rfl
    · rw [he]
      exact Touch.framed (.change key st _ _ h (.signal p o.nextTimer cause hp hs hc) rfl) rfl rfl
        (Nat.le_succ _)
  | spawn E _ key st port pid h hp hn =>
    obtain ⟨since,he⟩ := spawn_some E o key st port pid h
    rw [he]
    exact Touch.framed (.change key st _ _ h (.spawn _ since hp hn rfl rfl rfl) rfl) rfl rfl
  | create _ key st h hf => exact Touch.framed (.create key st h hf rfl rfl) rfl rfl
  | erase _ key st ts h hp hw hb ht =>
    exact Touch.framed (.erase key st h hp hw hb rfl rfl) rfl rfl
  | global _ _ hb =>
    refine ⟨{},⟨?_,?_,?_,?_,nil_subset _,hb.nextTimer.ge,hb.posted,hb.accepted,hb.released,hb.evictionGrace,
      fun _ => hb.graceTimer,hb.closing,hb.turn⟩,.same (by simp [Calm]) hb.specs⟩
    · exact hb.answers
    · exact hb.nextGen
    · exact hb.polling
    · exact hb.signals
  | decide _ key st d h hd =>
    exact Touch.framed (.change key st _ _ h (.decide d hd) rfl) rfl rfl
  | respec _ key st spec h hid hk hb =>
    exact Touch.framed (.change key st _ _ h (.respec spec hid hk hb) rfl) rfl rfl
  | clear E _ key st p h hp =>
    obtain ⟨freed,seq,he⟩ := clearProc_some E o key st p h hp
    rw [he]
    exact Touch.framed (.change key st _ _ h (.clear p hp) rfl) rfl rfl
  | enqueue E _ key st reply h =>
    obtain ⟨w,ts,n,rfl,hn,-,he⟩ := enqueue_some E o key st reply h
    rw [he]
    exact Touch.framed (.change key st _ _ h (.enqueue w) rfl) rfl rfl hn
  | grant E _ key st p reply h hp hs =>
    rw [grant_some E o key st p reply h hp]
    exact Touch.framed (.change key st _ _ h (.grant E.here.now p reply hp hs) rfl) rfl rfl
  | refuse _ reply err => exact Touch.framed (.refuse reply err rfl rfl) rfl rfl

section Timers
variable {l : Label} {o o' : Owner} {T : Timer}

def Parks (o o' : Owner) (T : Timer) : Prop :=
  ∃ key st st', o.find key = some st ∧ st.state ≠ .backoff ∧ o.closing = false ∧
    T.purpose = .backoff st.spec.id ∧ o'.find key = some st' ∧ st'.backoffTimer = some T.serial

/-- The timers that only their own handle stops: those of the retries and the
one of the grace window. -/
def Purpose.lasts : Purpose → Bool
  | .backoff _ | .grace => true
  | _ => false

/-- Some timers are stopped, but none that lasts. -/
def Spares (o : Owner) (ts : List Timer) : Prop :=
  ts.Sublist o.timers ∧ ∀ T ∈ o.timers, Purpose.lasts T.purpose = true → T ∈ ts

theorem spares_refl (o : Owner) : Spares o o.timers := ⟨List.Sublist.refl _,fun _ hT _ => hT⟩

theorem spares_cancelTimer (o : Owner) (purpose : Purpose) (handle : Option ℕ)
    (hp : Purpose.lasts purpose = false) : Spares o (o.cancelTimer purpose handle).timers := by
  refine ⟨cancelTimer_sublist _ _ _,fun T hT hlasts => mem_cancelTimer hT fun he => ?_⟩
  rw [he, hp] at hlasts
  cases hlasts

theorem spares_cancelWaiterTimers (o : Owner) (id : String) (ws : List Waiter) :
    Spares o (o.cancelWaiterTimers id ws).timers := by
  obtain ⟨-,hs,hk⟩ := cancelWaiterTimers_eq o id ws
  refine ⟨hs,fun T hT hlasts => hk T hT fun r he => ?_⟩
  rw [he] at hlasts
  cases hlasts

theorem Spares.trans {a b : Owner} {ts : List Timer} (h : Spares a b.timers) (h' : Spares b ts) :
    Spares a ts := ⟨h'.1.trans h.1,fun T hT hl => h'.2 T (h.2 T hT hl) hl⟩

theorem spares_quietedTimers (o : Owner) (st : SpecState) (p : Proc) : Spares o (quietedTimers o st p) :=
  ((spares_cancelTimer o _ _ rfl).trans (spares_cancelTimer _ _ _ rfl)).trans (spares_cancelTimer _ _ _ rfl)

/-- What a move does to the timers: a retry's timer is armed only as the retry is
parked and stopped only with it, and that of a grace window only with the window. -/
structure TimerMove (l : Label) (o o' : Owner) : Prop where
  arms : ∃ armed, o'.timers.Sublist (armed ++ o.timers) ∧
    ((∀ T ∈ armed, Armable o T) ∨ ∃ T, armed = [T] ∧ Parks o o' T)
  lasts : ∀ T ∈ o.timers, Purpose.lasts T.purpose = true →
    T ∈ o'.timers ∨ (l = .regrace ∧ T.purpose = .grace) ∨
      ∃ key st, o.find key = some st ∧ T.purpose = .backoff st.spec.id ∧
        ∀ st', o'.find key = some st' → st'.state ≠ .backoff

theorem TimerMove.spared (h : Spares o o'.timers) : TimerMove l o o' :=
  ⟨⟨[],h.1,.inl nofun⟩,fun T hT hp => .inl (h.2 T hT hp)⟩

theorem TimerMove.armed {ts : List Timer} (h : Spares o ts) (ho : o'.timers = T::ts)
    (hT : (∀ id, T.purpose ≠ .backoff id) ∧ ∀ id gen, T.purpose ≠ .drain id gen) : TimerMove l o o' := by
  refine ⟨⟨[T],ho ▸ h.1.cons_cons T,.inl fun S hS => ?_⟩,fun S hS hl => .inl ?_⟩
  · rw [mem_singleton.mp hS]
    exact ⟨hT.1,fun id gen he => absurd he (hT.2 id gen)⟩
  · rw [ho]
    exact mem_cons_of_mem T (h.2 S hS hl)

/-- Where only the timer of a retry is stopped, the retry is over. -/
theorem timerMove_cancel {key : String} {st : SpecState} (h : o.find key = some st) {handle : Option ℕ}
    (ho : o'.timers = (o.cancelTimer (.backoff st.spec.id) handle).timers)
    (hn : ∀ st', o'.find key = some st' → st'.state ≠ .backoff) : TimerMove l o o' := by
  refine ⟨⟨[],ho ▸ cancelTimer_sublist o _ _,.inl nofun⟩,fun T hT _ => ?_⟩
  by_cases hid : T.purpose = .backoff st.spec.id
  · exact .inr (.inr ⟨key,st,h,hid,hn⟩)
  · exact .inl (ho ▸ mem_cancelTimer hT hid)

theorem timers_of_move (h : Move l o o') : TimerMove l o o' := by
  cases h with
  | timers _ ts n hk hn ha hg =>
    obtain ⟨armed,hs,ha⟩ := ha
    refine ⟨⟨armed,hs,.inl ha⟩,fun T hT hp => .inl ?_⟩
    cases hT' : T.purpose with
    | backoff id => exact hk T hT id hT'
    | grace => exact hg T hT hT'
    | _ => simp [hT', Purpose.lasts] at hp
  | regrace _ ts n handle expiry hk hn ha hg =>
    obtain ⟨armed,hs,ha⟩ := ha
    refine ⟨⟨armed,hs,.inl ha⟩,fun T hT hp => ?_⟩
    cases hT' : T.purpose with
    | backoff id => exact .inl (hk T hT id hT')
    | grace => exact .inr (.inl ⟨rfl,rfl⟩)
    | _ => simp [hT', Purpose.lasts] at hp
  | park E _ key st h hp hb hn hc =>
    obtain ⟨since,delay,he⟩ := park_some E o key st h
    rw [he]
    refine ⟨⟨[_],List.Sublist.refl _,.inr ⟨_,rfl,key,st,_,h,hn,hc,rfl,find_put_self o key _,rfl⟩⟩,?_⟩
    exact fun T hT _ => .inl (mem_cons_of_mem _ hT)
  | unpark _ key st since h _ =>
    refine timerMove_cancel h rfl fun st' h' => ?_
    rw [find_put_self] at h'
    cases h'
    dsimp only
    split
    · simp
    · assumption
  | fail _ key st err h =>
    rw [failPending_some o key st err h]
    exact .spared (spares_cancelWaiterTimers o st.spec.id st.pending)
  | serve E _ key st p h hp _ =>
    rw [succeedPending_some E o key st p h hp]
    exact .spared (spares_cancelWaiterTimers o st.spec.id st.pending)
  | answer _ key st reply err h _ =>
    rw [answerWaiter, h]
    exact .spared (spares_refl o)
  | signal _ key st p cause h hp _ _ =>
    rcases terminateNow_some o key st p cause h hp with he | he
    · rw [he]
      exact .spared (spares_refl o)
    · rw [he]
      exact .armed (spares_cancelTimer o _ _ rfl) rfl (by simp)
  | spawn E _ key st port pid h _ _ =>
    obtain ⟨since,he⟩ := spawn_some E o key st port pid h
    rw [he]
    exact .spared (spares_cancelWaiterTimers o st.spec.id st.pending)
  | erase _ key st ts h _ _ _ ht =>
    rcases ht with rfl | rfl
    · exact .spared (spares_refl o)
    · refine timerMove_cancel h rfl fun st' h' => ?_
      rw [find_deleteState, if_pos rfl] at h'
      cases h'
  | global _ _ hb => exact .spared (hb.timers ▸ spares_refl o)
  | clear E _ key st p h hp =>
    obtain ⟨freed,seq,he⟩ := clearProc_some E o key st p h hp
    rw [he]
    exact .spared (spares_quietedTimers o st p)
  | enqueue E _ key st reply h =>
    obtain ⟨w,ts,n,-,-,hts,he⟩ := enqueue_some E o key st reply h
    rw [he]
    rcases hts with rfl | ⟨T,r,hr,rfl⟩
    · exact .spared (spares_refl o)
    · exact .armed (spares_refl o) rfl (by simp [hr])
  | grant E _ key st p reply h hp _ =>
    rw [grant_some E o key st p reply h hp]
    exact .spared (spares_refl o)
  | _ => exact .spared (spares_refl o)

/-- A drain's timer is armed for a generation that drains. -/
theorem drain_timer_of_move (h : Move l o o') (hT : T ∈ o'.timers) {id : String} {gen : ℕ}
    (hp : T.purpose = .drain id gen) : T ∈ o.timers ∨ Armable o T := by
  obtain ⟨armed,hs,ha⟩ := (timers_of_move h).arms
  rcases mem_append.mp (hs.subset hT) with hA | hO
  · rcases ha with ha | ⟨S,rfl,key,st,st',-,-,-,hS,-⟩
    · exact .inr (ha T hA)
    · rw [mem_singleton.mp hA, hS] at hp
      cases hp
  · exact .inl hO

end Timers

section Lineage
variable {l : Label} {o o' : Owner} {e : Effect}

theorem find_of_insert {key : String} {st : SpecState} (hs : o'.specs = o.specs.insert key st)
    (k : String) : o'.find k = if k = key then some st else o.find k := by
  rw [← find_put, find, hs]
  rfl

theorem find_of_erase {key : String} (hs : o'.specs = o.specs.erase key) (k : String) :
    o'.find k = if k = key then none else o.find k := by
  rw [← find_deleteState, find, hs]
  rfl

/-- The states that a move leaves: each was there before, changed or not, or
is new. -/
theorem origin_of_touch (t : Touch l o o' e) {key : String} {st' : SpecState}
    (h' : o'.find key = some st') :
    o.find key = some st' ∨ (∃ st, o.find key = some st ∧ Change o key st l e st') ∨
      (o.find key = none ∧ Fresh key st') := by
  cases t with
  | same hl hs =>
    rw [find, hs] at h'
    exact .inl h'
  | refuse reply err hl hs =>
    rw [find, hs] at h'
    exact .inl h'
  | change k st s' _ h hc hs =>
    rw [find_of_insert hs] at h'
    split at h'
    · rename_i hk
      cases h'
      subst hk
      exact .inr (.inl ⟨st,h,hc⟩)
    · exact .inl h'
  | create k st h hf hl hs =>
    rw [find_of_insert hs] at h'
    split at h'
    · rename_i hk
      cases h'
      subst hk
      exact .inr (.inr ⟨h,hf⟩)
    · exact .inl h'
  | erase k st h hp hw hb hl hs =>
    rw [find_of_erase hs] at h'
    split at h'
    · cases h'
    · exact .inl h'

/-- A process that a move leaves has the generation it had, in a state that
was kept or set with it, or it was born with the move. -/
theorem lineage_of_touch (t : Touch l o o' e) {key : String} {st' : SpecState} {p' : Proc}
    (h' : o'.find key = some st') (hp' : st'.proc = some p') :
    (∃ st p, o.find key = some st ∧ st.proc = some p ∧ p'.gen = p.gen ∧ p'.specID = p.specID ∧
      (st'.state = st.state ∨ Shifts o st st'.state)) ∨
    (p'.gen = o.nextGen ∧ st'.state = .starting ∧ ∃ st, o.find key = some st ∧ st.proc = none ∧
      p'.specID = st.spec.id ∧ e = { born := [(st.spec.id, o.nextGen)] }) := by
  rcases origin_of_touch t h' with h | ⟨st,h,hc⟩ | ⟨-,hf⟩
  · exact .inl ⟨st',p',h,hp',rfl,rfl,.inl rfl⟩
  · cases hc with
    | quiet _ hq => exact .inl ⟨st,p',h,hq.proc.symm.trans hp',rfl,rfl,.inl hq.state⟩
    | shift s since hs => exact .inl ⟨st,p',h,hp',rfl,rfl,.inr hs⟩
    | retime p q hp hs =>
      cases hp'
      exact .inl ⟨st,p,h,hp,hs.gen,hs.specID,.inl rfl⟩
    | park since delay hp hb hn hc =>
      rw [hp] at hp'
      cases hp'
    | unpark l since hl hp =>
      refine .inl ⟨st,p',h,hp',rfl,rfl,.inl ?_⟩
      rw [if_neg]
      intro hs
      rw [hp hs] at hp'
      cases hp'
    | signal p serial cause hp hs hc =>
      cases hp'
      exact .inl ⟨st,p,h,hp,rfl,rfl,.inl rfl⟩
    | spawn p since hp hn hg hi hl =>
      cases hp'
      rw [hg]
      exact .inr ⟨rfl,rfl,st,h,hp,hi,rfl⟩
    | clear p hp => cases hp'
    | _ => exact .inl ⟨st,p',h,hp',rfl,rfl,.inl rfl⟩
  · rw [hf.proc] at hp'
    cases hp'

end Lineage

end OnPremGateway.OwnerEffects
