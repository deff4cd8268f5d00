import OnPremGateway.OwnerSettled

/-!
# The owner's commands as moves

Each command is a sequence of moves from a sound owner. The commands here make
only the moves of the admission machinery: timers, measurements, starts, stops
and the end.
-/

set_option autoImplicit false

namespace OnPremGateway.OwnerTurns
open RuntimeTypes InstanceModel OwnerModel Option Owner
open LabelledRuns OwnerMoves OwnerPaths
open OwnerEffects OwnerSound OwnerSettled

variable (byPID : AList (fun _ : ℤ => IntMap)) (ramByPID : IntMap) (E : Env) (o : Owner)
  (key : String) (st : SpecState)

theorem forEach_sound {α : Type} (L : Set Label) (f : Env → Owner → α → Owner)
    (xs : List α) (hf : ∀ E o, ∀ x ∈ xs, Sound o → Steps L o (f E o x)) (E : Env) (o : Owner)
    (ho : Sound o) : Steps L o (forEach f E o xs) := by
  induction xs generalizing E o with
  | nil => exact Via.refl L o
  | cons x xs ih =>
    have hx := hf (E.sub 0) o x List.mem_cons_self ho
    rw [forEach]
    refine hx.trans (ih (fun E o y hy => hf E o y (List.mem_cons_of_mem x hy)) (E.sub 1) _ ?_)
    exact sound_of_steps hx ho

section Waiters

theorem handleCancelEnsure_plain (reply : ℕ) (err : Option Err) :
    Steps Plain o (o.handleCancelEnsure E reply err) := by
  rw [handleCancelEnsure]
  split
  · exact Via.refl _ o
  rename_i key hkey
  cases h : o.find key with
  | none => exact Via.refl _ o
  | some st =>
    have hw : (st.waiting reply).isSome = true := by
      simpa [h] using List.find?_some hkey
    obtain ⟨w,hwait⟩ := isSome_iff_exists.mp hw
    simp only [hwait]
    have r := cancelTimer_still o (.waiter st.spec.id reply) w.timer (by simp) (by simp)
    obtain ⟨st',h',hq⟩ := (still_sameTable r).find key st h
    refine (r.mono still_plain).trans (move_plain (.answer _ key st' reply _ h' ?_))
    rw [SpecState.waiting, hq.pending]
    exact hw

theorem handleWaiterTimeout_plain (reply : ℕ) :
    Steps Plain o (o.handleWaiterTimeout key reply) := by
  rw [handleWaiterTimeout]
  cases h : o.find key with
  | none => exact Via.refl _ o
  | some st =>
    simp only
    split
    · exact Via.refl _ o
    split
    · exact Via.refl _ o
    · rename_i hw
      exact move_plain (.answer o key st reply _ h (by simpa [isSome_iff_ne_none] using hw))

end Waiters

section Timers

/-- A process is replaced by the same generation, beside fields nothing
accounts for. -/
theorem retime_plain (st st' : SpecState) (p p' : Proc)
    (h : o.find key = some st) (hp : st.proc = some p) (hs : SameGen p p')
    (hq : Quiet st { st' with proc := st.proc }) (hp' : st'.proc = some p') :
    Steps Plain o (o.put key st') := by
  have r := put_still o key st _ h hq
  have m := move_plain (.retime _ key _ p p' (find_put_self o key { st' with proc := st.proc }) hp hs)
  rw [put_put] at m
  have he : ({ { st' with proc := st.proc } with proc := some p' } : SpecState) = st' := by
    rw [← hp']
  rw [he] at m
  exact (r.mono still_plain).trans m

theorem runs_proc {st : SpecState} {gen : ℕ} (h : st.runs gen = true) :
    ∃ p, st.proc = some p ∧ p.gen = gen := by
  rw [SpecState.runs, any_eq_true] at h
  obtain ⟨p,hp,hg⟩ := h
  exact ⟨p,hp,by simpa using hg⟩

theorem handleStableRun_plain (gen : ℕ) : Steps Plain o (o.handleStableRun key gen) := by
  rw [handleStableRun]
  cases h : o.find key with
  | none => exact Via.refl _ o
  | some st =>
    simp only
    split
    · exact Via.refl _ o
    rename_i hr
    obtain ⟨p,hp,-⟩ := runs_proc (by simpa using hr)
    refine retime_plain o key st _ p { p with stableTimer := none } h hp ?_ ?_ (by simp [hp])
    · constructor <;> rfl
    · constructor <;> rfl

theorem handleKillGraceExpired_plain (gen : ℕ) :
    Steps Plain o (o.handleKillGraceExpired key gen) := by
  rw [handleKillGraceExpired]
  cases h : o.find key with
  | none => exact Via.refl _ o
  | some st =>
    simp only
    split
    · exact Via.refl _ o
    rename_i hr
    obtain ⟨p,hp,-⟩ := runs_proc (by simpa using hr)
    refine retime_plain o key st _ p { p with killTimer := none } h hp ?_ ?_ (by simp [hp])
    · constructor <;> rfl
    · constructor <;> rfl

theorem handleDrainGraceExpired_plain (gen : ℕ)
    (hd : ∀ s, Holds o key gen s → s = .draining) :
    Steps Plain o (o.handleDrainGraceExpired key gen) := by
  rw [handleDrainGraceExpired]
  cases h : o.find key with
  | none => exact Via.refl _ o
  | some st =>
    simp only
    split
    · exact Via.refl _ o
    rename_i hr
    obtain ⟨p,hp,hg⟩ := runs_proc (by simpa using hr)
    have hs : st.state = .draining := hd st.state ⟨st,p,h,hp,hg,rfl⟩
    have r : Steps Plain o (o.put key { st with
        proc := st.proc.map fun p => { p with drainTimer := none } }) := by
      refine retime_plain o key st _ p { p with drainTimer := none } h hp ?_ ?_ (by simp [hp])
      · constructor <;> rfl
      · constructor <;> rfl
    refine r.trans (move_plain (.signal _ key _ { p with drainTimer := none } .drainGraceExpired
      (find_put_self o key _) (by simp [hp]) (.inl hs) (.inr (.inl ⟨rfl,hs⟩))))

def Elapses (o : Owner) (key : String) (o₁ : Owner) : Prop :=
  (o.find key = none ∧ o₁ = o) ∨ ∃ st since, o.find key = some st ∧
    (st.state = .backoff → st.proc = none) ∧ o₁ = o.put key { st with
      backoffTimer := none, since := since
      state := if st.state = State.backoff then .stopped else st.state }

theorem Elapses.steps {o o₁ : Owner} {key : String} (h : Elapses o key o₁) :
    Steps {.elapse} o o₁ := by
  rcases h with ⟨-,rfl⟩ | ⟨st,since,hf,hp,rfl⟩
  · exact Via.refl _ _
  · exact Via.single rfl (.elapse o key st since hf hp)

theorem Elapses.state {o o₁ : Owner} {key : String} (h : Elapses o key o₁) (st' : SpecState)
    (h' : o₁.find key = some st') : st'.state ≠ .backoff := by
  rcases h with ⟨hn,rfl⟩ | ⟨st,since,hf,hp,rfl⟩
  · rw [hn] at h'
    cases h'
  rw [find_put_self] at h'
  cases h'
  dsimp only
  split
  · simp
  · assumption

/-- The retry leaves the wait first, and only then is the start asked for. -/
theorem handleBackoffFire_path (ho : Sound o) :
    ∃ o₁, Elapses o key o₁ ∧ ((o.find key = none ∧ o.handleBackoffFire E key = o₁) ∨
      ∃ E', o.handleBackoffFire E key = o₁.admitAndStart E' key) := by
  rw [handleBackoffFire]
  cases h : o.find key with
  | none => exact ⟨o,.inl ⟨h,rfl⟩,.inl ⟨rfl,rfl⟩⟩
  | some st =>
    simp only
    have hb := fun hs => ((ho.states key st h).backoff hs).1
    refine ⟨_,.inr ?_,.inr ⟨_,rfl⟩⟩
    by_cases hs : st.state = .backoff
    · refine ⟨st,(E.sub 0).here.now,h,hb,?_⟩
      rw [if_pos hs, if_pos hs, setState, modify_some _ key _ _ (find_put_self o key _), put_put]
      simp only [hs]
      rfl
    · refine ⟨st,st.since,h,hb,?_⟩
      rw [if_neg hs, if_neg hs]

/-- The expiry of a grace window: the timer goes, and unless the owner closes
what waited for it is asked for and the timer is armed anew. -/
theorem handleGraceExpiry_path :
    ∃ o₁, Move .regrace o o₁ ∧ ((o₁.closing = true ∧ o.handleGraceExpiry E = o₁) ∨
      ∃ E₂ o₂, Calmly o₁ o₂ ∧ o.handleGraceExpiry E = o₂.rescheduleGraceWake E₂) := by
  refine ⟨o.cancelGrace,cancelGrace_regrace o,?_⟩
  rw [handleGraceExpiry]
  by_cases hc : o.cancelGrace.closing = true
  · exact .inl ⟨hc,if_pos hc⟩
  · exact .inr ⟨E.sub 1,_,wakeAdmission_calmly _ _ _,if_neg hc⟩

end Timers

section Measurements

theorem dispatchMeasurement_still : Steps Still o (o.dispatchMeasurement E) := by
  rw [dispatchMeasurement]
  split
  · exact Via.refl _ o
  simp only
  split
  · exact Via.refl _ o
  · apply global_still
    constructor <;> rfl

theorem measureSoon_still : Steps Still o (o.measureSoon E) := by
  rw [measureSoon]
  split
  · apply global_still
    constructor <;> rfl
  · exact dispatchMeasurement_still E o

theorem terminateNow_state (p : Proc) (cause : Cause)
    (h : o.find key = some st) (hp : st.proc = some p) (st' : SpecState)
    (h' : (o.terminateNow key cause).find key = some st') : st'.state = st.state := by
  rcases terminateNow_some o key st p cause h hp with he | he
  · rw [he, h] at h'
    cases h'
    rfl
  rw [he] at h'
  have hself := (find_put_self o key _).symm.trans h'
  cases hself
  rfl

/-- A start that failed with its process still there: the failure is
recorded, the queue refused, the process signalled and the retry put off. -/
theorem overdue_plain (p : Proc)
    (cause : Cause) (err : Err) (message : String) (code : ℤ) (tail : String)
    (h : o.find key = some st) (hp : st.proc = some p)
    (hs : st.state = .starting ∨ st.state = .running)
    (hr : st.state = .starting → p.gen ∉ results o)
    (hc : st.inFlight = 0 ∨ cause = .bootstrapDeadline) :
    Steps Plain o ((((((o.setState (E.sub 0) key .startFailed).recordFailure (E.sub 1) key message
      code tail).failPending key err).terminateNow key cause)).enterBackoff (E.sub 3) key) := by
  have hne : st.state ≠ .startFailed := by
    rcases hs with hs | hs <;> rw [hs] <;> decide
  have r1 : Steps Plain o (o.setState (E.sub 0) key .startFailed) := by
    apply setState_plain
    intro st' h' _
    rw [h] at h'
    cases h'
    exact .overdue p hp hs hr
  have h1 : (o.setState (E.sub 0) key .startFailed).find key =
      some { st with state := .startFailed, since := (E.sub 0).here.now } := by
    rw [find_setState, h]
    simp [hne]
  set o1 := o.setState (E.sub 0) key .startFailed
  have r2 := recordFailure_still (E.sub 1) o1 key message code tail
  set o2 := o1.recordFailure (E.sub 1) key message code tail
  obtain ⟨s2,h2,q2⟩ := (still_sameTable r2).find key _ h1
  have h3 : (o2.failPending key err).find key = some { s2 with pending := [] } := by
    rw [find_failPending_self, h2]
    rfl
  have r4 := move_plain (.signal _ key _ p cause h3 (q2.proc.trans hp) (.inr q2.state)
    (hc.imp (fun hz => q2.inFlight.trans hz) .inr))
  refine ((r1.trans (r2.mono still_plain)).trans (failPending_plain o2 key err)).trans (r4.trans ?_)
  apply enterBackoff_plain
  intro st' h'
  right
  rw [terminateNow_state _ key _ p cause h3 (q2.proc.trans hp) st' h']
  exact q2.state

theorem failBootstrapUnmeasured_plain
    (p : Proc) (h : o.find key = some st) (hp : st.proc = some p) (hs : st.state = .running) :
    Steps Plain o (o.failBootstrapUnmeasured E key) := by
  have r : Steps Still o (o.modify key fun st => { st with ramBootstrapBeats := 0 }) := by
    apply modify_still
    intro st _
    constructor <;> rfl
  obtain ⟨st',h',hq⟩ := (still_sameTable r).find key st h
  have hrun : st'.state = .running := hq.state.trans hs
  refine (r.mono still_plain).trans ?_
  refine overdue_plain E _ key st' p .bootstrapDeadline .startFailed _ _ _ h' (hq.proc.trans hp)
    (.inr hrun) ?_ (.inr rfl)
  intro he
  rw [hrun] at he
  cases he

theorem missedBeat_plain (h : o.find key = some st) : Steps Plain o (o.missedBeat E key st) := by
  rw [missedBeat]
  split
  · exact Via.refl _ o
  rename_i hb
  have hb : o.healthyBootstrapAwaitingMeasurement (E.sub 0) key st = true := by simpa using hb
  simp only [healthyBootstrapAwaitingMeasurement, Bool.and_eq_true, decide_eq_true_eq,
    any_eq_true] at hb
  obtain ⟨⟨⟨-,p,hp,-⟩,hs⟩,-⟩ := hb
  have r : Steps Still o
      (o.modify key fun st => { st with ramBootstrapBeats := st.ramBootstrapBeats+1 }) := by
    apply modify_still
    intro st _
    constructor <;> rfl
  obtain ⟨st',h',hq⟩ := (still_sameTable r).find key st h
  refine (r.mono still_plain).trans ?_
  simp only
  split
  · exact failBootstrapUnmeasured_plain _ _ key st' p h' (hq.proc.trans hp) (hq.state.trans hs)
  · exact Via.refl _ _

theorem applyReading_plain (t : MeasureTarget) : Steps Plain o (o.applyReading byPID ramByPID E t).1 := by
  rw [applyReading]
  cases h : o.find t.specID with
  | none => exact Via.refl _ o
  | some st =>
    simp only
    split
    · exact Via.refl _ o
    generalize realMeasurement _ = byGPU
    set st' := (if byGPU.entries.length > 0 then
        { st with measuredVRAM := byGPU, vramBootstrapDone := true
                  readyVRAM := if t.ready then byGPU else st.readyVRAM }
      else st : SpecState) with hst'
    have hq : Quiet st st' := by
      rw [hst']
      split
      · constructor <;> first | rfl | exact Bool.le_true _
      · exact Quiet.refl st
    split
    · have m := Move.measured _ t.specID st' (realRAM (valueAt ramByPID t.pid))
        (if t.ready then realRAM (valueAt ramByPID t.pid) else st'.readyRAM)
        (find_put_self o t.specID st')
      rw [put_put] at m
      exact ((put_still o t.specID st st' h hq).mono still_plain).trans (move_plain m)
    · exact ((put_still o t.specID st st' h hq).mono still_plain).trans
        (missedBeat_plain E _ t.specID st' (find_put_self o t.specID st'))

theorem applyReadings_plain (ts : List MeasureTarget) :
    Steps Plain o (Owner.applyReadings byPID ramByPID E o ts).1 := by
  induction ts generalizing E o with
  | nil => exact Via.refl _ o
  | cons t ts ih => exact (applyReading_plain byPID ramByPID (E.sub 0) o t).trans (ih (E.sub 1) _)

theorem applyMeasurement_calmly (targets : List MeasureTarget)
    (byPID : AList (fun _ : ℤ => IntMap)) (ramByPID : IntMap) :
    Calmly o (o.applyMeasurement E targets byPID ramByPID) := by
  have r1 : Steps Still o { o with measuring := false } := by
    apply global_still
    constructor <;> rfl
  have r2 := applyReadings_plain byPID ramByPID (E.sub 0) { o with measuring := false } targets
  rw [applyMeasurement]
  simp only
  refine (calmly_of_plain ((r1.mono still_plain).trans r2)).trans ?_
  generalize (applyReadings byPID ramByPID (E.sub 0) { o with measuring := false } targets) = x
  have r3 : Calmly x.1
      (if x.2 then x.1.wakeAdmission (E.sub 1) SpecState.wantsDemandWake else x.1) := by
    split
    · exact wakeAdmission_calmly _ _ _
    · exact Calmly.refl _
  refine r3.trans ?_
  generalize (if x.2 then x.1.wakeAdmission (E.sub 1) SpecState.wantsDemandWake else x.1) = y
  split
  · have r4 : Steps Still y { y with remeasure := false } := by
      apply global_still
      constructor <;> rfl
    exact calmly_of_still (r4.trans (dispatchMeasurement_still _ _))
  · exact Calmly.refl _

end Measurements

section Starts

theorem armStable_plain (p : Proc) (gen : ℕ)
    (h : o.find key = some st) (hp : st.proc = some p) :
    ∃ st', st'.state = st.state ∧ st'.proc = some { p with stableTimer := some o.nextTimer } ∧
      ((o.scheduleAfter stableRunThreshold (.stable key gen)).modify key fun st =>
        { st with lastError := none
                  proc := st.proc.map fun p => { p with stableTimer := some o.nextTimer } }) =
        (o.scheduleAfter stableRunThreshold (.stable key gen)).put key st' ∧
      Steps Plain o ((o.scheduleAfter stableRunThreshold (.stable key gen)).put key st') := by
  set armed := o.scheduleAfter stableRunThreshold (.stable key gen)
  have r : Steps Still o armed := scheduleAfter_still o stableRunThreshold (.stable key gen)
    ⟨fun _ => by simp,fun _ _ he => by cases he⟩
  have h' : armed.find key = some st := h
  refine ⟨{ st with
      lastError := none
      proc := st.proc.map fun p => { p with stableTimer := some o.nextTimer } },
    rfl,?_,modify_some armed key st _ h',(r.mono still_plain).trans ?_⟩
  · rw [hp]
    rfl
  · refine retime_plain armed key st _ p { p with stableTimer := some o.nextTimer } h' hp ?_ ?_ ?_
    · constructor <;> rfl
    · constructor <;> rfl
    · rw [hp]
      rfl

theorem startSucceeded_calmly (p q : Proc)
    (h : o.find key = some st) (hp : st.proc = some p) (hs : st.state = .starting)
    (hr : p.gen ∉ results o) : Calmly o (o.startSucceeded E key q) := by
  rw [startSucceeded]
  set o1 := o.modify key fun st =>
      { st with restarts := if st.hasRunBefore then st.restarts+1 else st.restarts
                hasRunBefore := true
                startupMS := max 1 ((sub (E.sub 0).here.now q.startedAt).tdiv millisecond) } with ho1
  have r1 : Steps Still o o1 := by
    apply modify_still
    intro st _
    constructor <;> rfl
  have hres : results o1 = results o := by
    rw [ho1, modify_some o key st _ h]
    rfl
  obtain ⟨s1,h1,q1⟩ := (still_sameTable r1).find key st h
  have hs1 : s1.state = .starting := q1.state.trans hs
  set o2 := o1.setState (E.sub 1) key .running with ho2
  have r2 : Steps Plain o1 o2 := by
    apply setState_plain
    intro st' h' _
    rw [h1] at h'
    cases h'
    exact .run p (q1.proc.trans hp) hs1 (hres ▸ hr)
  have h2 : o2.find key = some { s1 with state := .running, since := (E.sub 1).here.now } := by
    rw [ho2, find_setState, h1]
    simp [hs1]
  obtain ⟨s4,hs4,hp4,he,r4⟩ := armStable_plain o2 key _ p q.gen h2 (q1.proc.trans hp)
  simp only [he]
  have r5 := move_plain (.serve (E.sub 2) _ key s4 _
    (find_put_self (o2.scheduleAfter stableRunThreshold (.stable key q.gen)) key s4) hp4 hs4)
  refine (calmly_of_plain (((r1.mono still_plain).trans r2).trans (r4.trans r5))).trans ?_
  exact (calmly_of_still (measureSoon_still (E.sub 3) _)).trans (wakeAdmission_calmly _ _ _)

/-- The report of a start reaches a process that starts or drains, and it was
the only one. -/
theorem handleStartResult_calmly (gen : ℕ) (ok : Bool)
    (ho : Sound o) (hr : gen ∉ results o)
    (hs : ∀ s, Holds o key gen s → s = .starting ∨ s = .draining) :
    Calmly o (o.handleStartResult E key gen ok) := by
  rw [handleStartResult]
  cases h : o.find key with
  | none => exact Calmly.refl o
  | some st =>
    simp only
    split
    · exact Calmly.refl o
    rename_i p hp
    split
    · exact Calmly.refl o
    rename_i hg
    have hg : p.gen = gen := by simpa using hg
    have hstate := hs st.state ⟨st,p,h,hp,hg,rfl⟩
    cases ok with
    | true =>
      simp only [if_true]
      have r : Steps Plain o (o.put key
          { st with proc := some { p with everHealthy := true } }) := by
        refine move_plain (.retime o key st p _ h hp ?_)
        constructor <;> rfl
      refine (calmly_of_plain r).trans ?_
      split
      · exact Calmly.refl _
      · rename_i hn
        exact startSucceeded_calmly _ _ key _ { p with everHealthy := true } p
          (find_put_self o key _) rfl (hstate.resolve_right hn) (hg ▸ hr)
    | false =>
      simp only [Bool.false_eq_true, if_false]
      split
      · exact Calmly.refl _
      rename_i hn
      have hst := hstate.resolve_right hn
      exact calmly_of_plain (overdue_plain _ o key st p .startTimeout .startTimeout _ _ _ h hp
        (.inl hst) (fun _ => hg ▸ hr) (.inl ((ho.states key st h).starting hst)))

end Starts

section Drains

theorem scanIdle_plain : Steps Plain o (o.scanIdle E) := by
  apply forEach_steps
  intro E o key
  split
  · exact Via.refl _ o
  split
  · exact Via.refl _ o
  · split
    · exact beginDrain_plain E o key
    · exact Via.refl _ o

theorem stopInstance_plain (model : String) : Steps Plain o (o.stopInstance E model).1 := by
  rw [stopInstance]
  split
  · exact Via.refl _ o
  split
  · exact Via.refl _ o
  split
  · exact Via.refl _ o
  · split
    · exact Via.refl _ o
    · simp only
      split
      · split
        · exact Via.refl _ o
        · exact beginDrain_plain E o _
      split
      · exact Via.refl _ o
      split
      · exact Via.refl _ o
      · split
        · exact failPending_plain o _ _
        · split
          · exact Via.refl _ o
          · exact (failPending_plain o _ _).trans (beginDrain_plain E _ _)

/-- The wait for a retry ends: its timer is stopped and the state rests. -/
theorem unpark_wind (h : o.find key = some st) (hb : st.state = .backoff) (hp : st.proc = none) :
    Steps Wind o ((o.cancelBackoff key).setState E key .stopped) := by
  have m := Move.unpark o key st E.here.now h (fun _ => hp)
  rw [if_pos hb] at m
  have he : (o.cancelBackoff key).setState E key .stopped = put
      { o with timers := (o.cancelTimer (.backoff st.spec.id) st.backoffTimer).timers } key
      { st with backoffTimer := none, since := E.here.now, state := .stopped } := by
    have hc : o.cancelBackoff key = put
        { o with timers := (o.cancelTimer (.backoff st.spec.id) st.backoffTimer).timers } key
        { st with backoffTimer := none } := cancelBackoff_some o key st h
    rw [hc, setState, modify_some _ key _ _ (find_put_self _ key _), put_put,
      if_neg (by simp [hb])]
  rw [he]
  exact Via.single (by simp [Wind]) m

theorem cancelBackoff_wind
    (h : o.find key = some st) (hb : st.state ≠ .backoff) : Steps Wind o (o.cancelBackoff key) := by
  have m := Move.unpark o key st st.since h (fun he => absurd he hb)
  rw [if_neg hb] at m
  rw [cancelBackoff_some o key st h]
  exact Via.single (by simp [Wind]) m

theorem closeState_wind (ho : Sound o) : Steps Wind o (o.closeState E key) := by
  rw [closeState]
  refine Via.trans ?_ (((failPending_plain _ key _).trans (beginDrain_plain _ _ key)).mono plain_wind)
  split
  · rename_i hb
    rw [any_eq_true] at hb
    obtain ⟨st,h,hs⟩ := hb
    have hs : st.state = .backoff := by simpa using hs
    exact unpark_wind _ o key st h hs ((ho.states key st h).backoff hs).1
  · exact Via.refl _ o

def Shut : Set Label := {.quiet, .plain, .unpark, .regrace}

theorem wind_shut : Wind ⊆ Shut := by
  intro l hl
  rcases hl with rfl | rfl | rfl <;> simp [Shut]

theorem closeAll_shut (ho : Sound o) :
    Steps Shut o (forEach Owner.closeState (E.sub 0) o.cancelGrace (o.cancelGrace.keys (E.sub 1))) := by
  have r : Steps Shut o o.cancelGrace := Via.single (by simp [Shut]) (cancelGrace_regrace o)
  exact r.trans ((forEach_sound Wind _ _ (fun E o key _ hx => closeState_wind E o key hx) _ _
    (sound_of_steps r ho)).mono wind_shut)

theorem closeState_awake (hc : o.closing = true)
    (ho : Sound o) : Awake (o.closeState E key) key := by
  rw [closeState]
  have hplain (x : Owner) (hx : x.closing = true) (ha : Awake x key) :
      Awake ((x.failPending key .managerClosed).beginDrain (E.sub 1) key) key :=
    awake_of_steps ((failPending_plain x key _).trans (beginDrain_plain _ _ key)) hx ha
  split
  · rename_i hb
    rw [any_eq_true] at hb
    obtain ⟨st,h,hs⟩ := hb
    have hs : st.state = .backoff := by simpa using hs
    have r := unpark_wind (E.sub 0) o key st h hs ((ho.states key st h).backoff hs).1
    refine hplain _ ((closing_of_steps r).trans hc) fun st' h' => ?_
    rw [find_setState, map_eq_some_iff] at h'
    obtain ⟨st₁,-,rfl⟩ := h'
    split
    · rename_i hst
      rw [hst]
      simp
    · simp
  · rename_i hb
    refine hplain o hc fun st h hs => hb ?_
    rw [h, any_some, hs]
    rfl

theorem closeAll_awake (ho : Sound o) (hc : o.closing = true)
    (key : String) :
    Awake (forEach Owner.closeState (E.sub 0) o.cancelGrace (o.cancelGrace.keys (E.sub 1))) key := by
  have r : Steps {.regrace} o o.cancelGrace := Via.single rfl (cancelGrace_regrace o)
  have hc' : o.cancelGrace.closing = true := (closing_of_steps r).trans hc
  have ho' := sound_of_steps r ho
  cases h : o.cancelGrace.find key with
  | some st =>
    refine forEach_each (fun x => x.closing = true ∧ Sound x) (fun k x => Awake x k) _ ?_ ?_ ?_
      _ _ _ ⟨hc',ho'⟩ key (mem_keys_of_find _ key st _ h)
    · intro E x k ⟨hx,hs⟩
      have rk := closeState_wind E x k hs
      exact ⟨(closing_of_steps rk).trans hx,sound_of_steps rk hs⟩
    · exact fun E x k k' ⟨hx,hs⟩ ha => awake_of_steps (closeState_wind E x k' hs) hx ha
    · exact fun E x k ⟨hx,hs⟩ => closeState_awake E x k hx hs
  | none =>
    have rw' := forEach_sound Wind closeState (o.cancelGrace.keys (E.sub 1))
      (fun E o key _ hx => closeState_wind E o key hx) (E.sub 0) _ ho'
    exact awake_of_steps rw' hc' fun st h' => by simp [h] at h'

end Drains

end OnPremGateway.OwnerTurns
