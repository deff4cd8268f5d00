import OnPremGateway.OwnerInstances

/-!
# Exits as moves

The exit of a process clears its generation. What follows depends on why it
ended: a removed instance leaves the table, a stopped one rests or waits, and a
crashed one waits for its retry unless it is burst capacity.
-/

set_option autoImplicit false

namespace OnPremGateway.OwnerExits
open RuntimeTypes InstanceModel OwnerModel Owner
open LabelledRuns OwnerMoves OwnerPaths
open OwnerEffects OwnerSound OwnerSettled
open OwnerTurns OwnerInstances

variable (E : Env) (o : Owner) (key : String) (st : SpecState)

theorem calm_clear : Label.clear ∉ Calm := by simp [Calm]

theorem loose_clear : Label.clear ∉ Loose := by simp [Loose]

/-- A state without a process came to rest. -/
theorem manned_of_rest (s : State)
    (hs : needsProcess s = false) : Manned (o.setState E key s) key := by
  intro st' h' hn
  rw [find_setState, Option.map_eq_some_iff] at h'
  obtain ⟨st,-,rfl⟩ := h'
  split at hn
  · rename_i he
    rw [he, hs] at hn
    cases hn
  · rw [hs] at hn
    cases hn

theorem exitRemoved_path
    (h : o.find key = some st) (hp : st.proc = none) (hn : st.state ≠ .backoff) :
    ∃ o₂ E₂, Calmly o o₂ ∧ o.exitRemoved E key = o₂.wakeAdmissionCandidates E₂ ∧ Manned o₂ key := by
  have h1 : (o.failPending key .modelNotManaged).find key = some { st with pending := [] } := by
    rw [find_failPending_self, h]
    rfl
  have r1 := failPending_plain o key .modelNotManaged
  have r2 := move_plain (Move.erase _ key _ _ h1 hp rfl (fun hs => absurd hs hn) (.inl rfl))
  have hgone : Manned ((o.failPending key .modelNotManaged).deleteState key) key := by
    intro st' h' _
    rw [find_deleteState, if_pos rfl] at h'
    cases h'
  have r3 := (rebuildUpstreamIndex_still (E.sub 0)
    ((o.failPending key .modelNotManaged).deleteState key)).mono still_plain
  set o3 := ((o.failPending key .modelNotManaged).deleteState key).rebuildUpstreamIndex (E.sub 0)
  have r4 : Steps Grow o3 (if !o3.closing then o3.ensureProtectedFloor (E.sub 1) else o3) := by
    split
    · exact ensureProtectedFloor_grow _ _
    · exact Via.refl _ _
  have r3 := r3.mono plain_grow
  refine ⟨_,E.sub 2,.grow (((r1.trans r2).mono plain_grow).trans (r3.trans r4)),rfl,?_⟩
  exact manned_of_steps ((r3.trans r4).mono grow_loose) loose_clear key hgone

/-- An exit that leaves a draining burst instance behind: its retry was put
off, and a burst instance does not retry. -/
def strands (st : SpecState) : Bool :=
  !st.removed && st.intentionalStop && st.backoffOnExit && st.spec.adminState ≠ .forceStopped &&
    st.burst && st.state = .draining

theorem enterBackoff_manned (h : o.find key = some st) (hp : st.proc = none)
    (hs : st.burst = true → needsProcess st.state = false) : Manned (o.enterBackoff E key) key := by
  rw [enterBackoff, h]
  simp only
  split
  · exact manned_of_rest _ o key .stopped rfl
  split
  · rename_i hb
    intro st' h' hn
    rw [find_failPending_self, h] at h'
    cases h'
    rw [hs hb] at hn
    cases hn
  rw [if_neg (by simp [hp])]
  obtain ⟨since,delay,he⟩ := park_some E o key st h
  intro st' h' hn
  rw [he] at h'
  have hself := (find_put_self o key _).symm.trans h'
  cases hself
  cases hn

theorem exitStopped_path (deferred : Bool) (drainedFor : List String) (h : o.find key = some st)
    (hp : st.proc = none) (hn : st.state ≠ .backoff) : ∃ o₂ E₂, Calmly o o₂ ∧
      o.exitStopped E key deferred drainedFor = o₂.wakeAdmissionCandidates E₂ ∧
      ((st.state = .draining ∨ st.state = .startFailed) →
        ¬(deferred = true ∧ st.spec.adminState ≠ .forceStopped ∧ st.burst = true ∧
          st.state = .draining) → Manned o₂ key) := by
  have hv : Vacant o key := by
    intro st' h'
    rw [h] at h'
    cases h'
    exact ⟨hp,hn⟩
  rw [exitStopped, h]
  simp only
  split
  · rename_i hd
    simp only [Bool.and_eq_true, decide_eq_true_eq, ne_eq] at hd
    refine ⟨_,E.sub 1,calmly_of_plain (enterBackoff_plain (E.sub 0) o key
      fun st' h' => .inl (hv st' h')),rfl,?_⟩
    intro hs hgood
    refine enterBackoff_manned _ o key st h hp fun hb => ?_
    rcases hs with hs | hs
    · exact absurd ⟨hd.1,hd.2,hb,hs⟩ hgood
    · rw [hs]
      rfl
  set o1 := if st.state = .draining then o.setState (E.sub 0) key .stopped else o with ho1
  have r1 : Calmly o o1 := by
    rw [ho1]
    split
    · exact calmly_of_plain (rest_plain _ o key .stopped hv (by simp))
    · exact Calmly.refl o
  have r2 : Calmly o1 (if (decide (st.state = .draining) || decide (st.state = .stopped)) = true
      then (forEach reask (E.sub 2) o1 drainedFor).admitAndStart (E.sub 3) key else o1) := by
    split
    · exact (forEach_rel Calmly Calmly.refl Calmly.trans _ reask_calmly _ _ _).trans
        (.ask _ _ _)
    · exact Calmly.refl _
  refine ⟨_,E.sub 1,r1.trans r2,rfl,?_⟩
  intro hs _
  apply manned_of_steps r2.steps loose_clear
  rcases hs with hs | hs
  · rw [ho1, if_pos hs]
    exact manned_of_rest _ o key .stopped rfl
  rw [ho1, if_neg (by simp [hs])]
  intro st' h' hn
  rw [h] at h'
  cases h'
  rw [hs] at hn
  cases hn

theorem find_terminateNow_ne (key k : String) (cause : Cause) (hk : k ≠ key) :
    (o.terminateNow key cause).find k = o.find k := by
  cases h : o.find key with
  | none => rw [terminateNow, h]
  | some st =>
    cases hp : st.proc with
    | none =>
      rw [terminateNow, h]
      simp only [hp]
    | some p =>
      rcases terminateNow_some o key st p cause h hp with he | he
      · rw [he]
      · rw [he]
        exact find_put_ne o key k _ hk

theorem find_armDrain_ne (key k : String) (hk : k ≠ key) : (o.armDrain key).find k = o.find k := by
  rw [armDrain]
  split
  · rfl
  · split
    · rfl
    · exact find_put_ne _ key k _ hk

theorem find_setState_ne (key k : String) (s : State) (hk : k ≠ key) :
    (o.setState E key s).find k = o.find k := by
  rw [Owner.setState, Owner.modify]
  split
  · rfl
  · exact find_put_ne o key k _ hk

theorem vacant_beginDrain (key id : String) (hv : Vacant o key) :
    Vacant (o.beginDrain E id) key := by
  intro st' h'
  by_cases hk : key = id
  · subst hk
    rw [beginDrain] at h'
    split at h'
    · exact hv st' h'
    · rename_i st h
      rw [if_pos (by simp [(hv st h).1])] at h'
      exact hv st' h'
  rw [beginDrain] at h'
  split at h'
  · exact hv st' h'
  split at h'
  · exact hv st' h'
  simp only at h'
  split at h'
  · rw [find_terminateNow_ne _ _ _ _ hk, find_setState_ne _ _ _ _ _ hk] at h'
    exact hv st' h'
  · rw [find_armDrain_ne _ _ _ hk, find_setState_ne _ _ _ _ _ hk] at h'
    exact hv st' h'

/-- Once the call is counted, the victim drains. -/
theorem evictOneIdleForBootstrap_plain (hv : Vacant o key) :
    Steps Plain (o.modify key fun st => { st with bootstrapEvictions := st.bootstrapEvictions+1 })
        (o.evictOneIdleForBootstrap E key).1 ∧ Vacant (o.evictOneIdleForBootstrap E key).1 key := by
  rw [evictOneIdleForBootstrap]
  have hv := vacant_modify o key (fun st => { st with bootstrapEvictions := st.bootstrapEvictions+1 })
    (fun _ => rfl) (fun _ => rfl) hv
  generalize (o.modify key fun st => { st with bootstrapEvictions := st.bootstrapEvictions+1 }) = o
    at hv ⊢
  split
  · exact ⟨Via.refl _ o,hv⟩
  rename_i victim _
  have r : Steps Still o (o.modify victim.spec.id fun st =>
      { st with drainedFor := appendUnique st.drainedFor key }) := by
    apply modify_still
    intro st _
    constructor <;> rfl
  exact ⟨(r.mono still_plain).trans (beginDrain_plain _ _ _),
    vacant_beginDrain _ _ key _ (vacant_still r hv)⟩

/-- A failure is recorded for a state that has lost its process. -/
theorem fallen_plain (E₁ E₂ : Env) (o : Owner) (key : String) (s : State) (message : String)
    (code : ℤ) (tail : String) (hv : Vacant o key)
    (hs : s ∈ [State.stopped, .startFailed, .crashed, .notPermitted, .pendingVRAMUnknown]) :
    Steps Plain o ((o.setState E₁ key s).recordFailure E₂ key message code tail) ∧
      Vacant ((o.setState E₁ key s).recordFailure E₂ key message code tail) key ∧
      Manned ((o.setState E₁ key s).recordFailure E₂ key message code tail) key := by
  have r1 := rest_plain E₁ o key s hv hs
  have r2 := recordFailure_still E₂ (o.setState E₁ key s) key message code tail
  have hn : s ≠ .backoff := by
    rintro rfl
    simp at hs
  refine ⟨r1.trans (r2.mono still_plain),vacant_still r2 (vacant_setState E₁ o key s hn hv),?_⟩
  apply manned_of_steps (r2.mono still_calm) calm_clear
  apply manned_of_rest
  simp only [List.mem_cons, List.not_mem_nil, or_false] at hs
  rcases hs with rfl | rfl | rfl | rfl | rfl <;> rfl

theorem enterBackoff_fallen (hv : Vacant o key)
    (hm : Manned o key) :
    Steps Plain o (o.enterBackoff E key) ∧ Manned (o.enterBackoff E key) key := by
  have r := enterBackoff_plain E o key fun st h => .inl (hv st h)
  exact ⟨r,manned_of_steps (r.mono plain_calm) calm_clear key hm⟩

theorem failThenBackoff_fallen (err : Err)
    (hv : Vacant o key) (hm : Manned o key) :
    Steps Plain o ((o.failPending key err).enterBackoff E key) ∧
      Manned ((o.failPending key err).enterBackoff E key) key := by
  have r := failPending_plain o key err
  obtain ⟨r',hm'⟩ := enterBackoff_fallen E _ key (vacant_failPending o key err hv)
    (manned_of_steps (r.mono plain_calm) calm_clear key hm)
  exact ⟨r.trans r',hm'⟩

theorem handleBootstrapMemoryPressure_plain (exitCode : ℤ)
    (tail : String) (st : SpecState) (h : o.find key = some st) (hv : Vacant o key) :
    Steps Plain o (o.handleBootstrapMemoryPressure E key exitCode tail) ∧
      Manned (o.handleBootstrapMemoryPressure E key exitCode tail) key := by
  rw [handleBootstrapMemoryPressure, h]
  simp only
  split
  · obtain ⟨r,hv',hm⟩ := fallen_plain (E.sub 0) (E.sub 1) o key .startFailed _ exitCode tail hv
      (by simp)
    obtain ⟨r',hm'⟩ := failThenBackoff_fallen (E.sub 2) _ key .startFailed hv' hm
    exact ⟨r.trans r',hm'⟩
  rename_i hr
  have r1 := move_plain (.escalate o key st h (by simpa using hr))
  have hv1 : Vacant (o.put key { st with ramBootstrapRetries := st.ramBootstrapRetries+1 }) key := by
    intro st' h'
    rw [find_put_self] at h'
    cases h'
    exact hv st h
  obtain ⟨r2,hv2⟩ := evictOneIdleForBootstrap_plain (E.sub 3) _ key hv1
  rw [modify_some _ key _ _ (find_put_self o key _), put_put] at r2
  generalize evictOneIdleForBootstrap (E.sub 3)
    (o.put key { st with ramBootstrapRetries := st.ramBootstrapRetries+1 }) key = x at r2 hv2 ⊢
  obtain ⟨r3,hv3,hm3⟩ := fallen_plain (E.sub 0) (E.sub 1) x.1 key .startFailed _ exitCode tail hv2
    (by simp)
  obtain ⟨r4,hm4⟩ := enterBackoff_fallen (E.sub 2) _ key hv3 hm3
  exact ⟨(r1.trans r2).trans (r3.trans r4),hm4⟩

theorem exitCrashed_path (wasHealthy underPressure : Bool)
    (exitCode : ℤ) (st : SpecState) (h : o.find key = some st) (hv : Vacant o key) :
    ∃ o₂ E₂, Calmly o o₂ ∧
      o.exitCrashed E key wasHealthy underPressure exitCode = o₂.wakeAdmissionCandidates E₂ ∧
      Manned o₂ key := by
  cases underPressure with
  | true =>
    obtain ⟨r,hm⟩ := handleBootstrapMemoryPressure_plain (E.sub 1) o key exitCode (E.sub 0).here.tail
      st h hv
    exact ⟨_,E.sub 4,calmly_of_plain r,rfl,hm⟩
  | false =>
    cases wasHealthy with
    | true =>
      obtain ⟨r,hv',hm⟩ := fallen_plain (E.sub 1) (E.sub 2) o key .crashed
        s!"runtime: process exited unexpectedly (exit code {exitCode})" exitCode (E.sub 0).here.tail
        hv (by simp)
      obtain ⟨r',hm'⟩ := enterBackoff_fallen (E.sub 3) _ key hv' hm
      exact ⟨_,E.sub 4,calmly_of_plain (r.trans r'),rfl,hm'⟩
    | false =>
      obtain ⟨r,hv',hm⟩ := fallen_plain (E.sub 1) (E.sub 2) o key .startFailed
        s!"runtime: process exited before becoming healthy (exit code {exitCode})" exitCode
        (E.sub 0).here.tail hv (by simp)
      obtain ⟨r',hm'⟩ := failThenBackoff_fallen (E.sub 3) _ key .startFailed hv' hm
      exact ⟨_,E.sub 4,calmly_of_plain (r.trans r'),rfl,hm'⟩

theorem find_clearProc (p : Proc)
    (h : o.find key = some st) (hp : st.proc = some p) :
    (o.clearProc E key).find key = some (cleared st) := by
  obtain ⟨freed,seq,he⟩ := clearProc_some E o key st p h hp
  rw [he]
  exact find_put_self o key (cleared st)

/-- An exit is of no generation the owner holds, or it clears that generation,
and in the end everything that waits is asked for again. -/
theorem handleChildExited_path (gen : ℕ) (exitErr : ExitErr)
    (ho : Sound o) : o.handleChildExited E key gen exitErr = o ∨
    ∃ st p E₁ o₂ E₂, o.find key = some st ∧ st.proc = some p ∧ p.gen = gen ∧
      Calmly (o.clearProc E₁ key) o₂ ∧
      o.handleChildExited E key gen exitErr = o₂.wakeAdmissionCandidates E₂ ∧
      ((st.intentionalStop = true → st.state = .draining ∨ st.state = .startFailed) →
        strands st = false → Manned o₂ key) := by
  rw [handleChildExited]
  split
  · rename_i hr
    rw [Option.any_eq_true] at hr
    obtain ⟨st,h,hr⟩ := hr
    obtain ⟨p,hp,hg⟩ := runs_proc hr
    right
    rw [onProcExited, h]
    simp only [hp]
    have h1 := find_clearProc (E.sub 1) o key st p h hp
    have hn : (cleared st).state ≠ .backoff := by
      intro hs
      rw [((ho.states key st h).backoff hs).1] at hp
      cases hp
    have hv : Vacant (o.clearProc (E.sub 1) key) key := by
      intro st' h'
      rw [h1] at h'
      cases h'
      exact ⟨rfl,hn⟩
    split
    · obtain ⟨o₂,E₂,r,he,hm⟩ := exitRemoved_path (E.sub 2) _ key _ h1 rfl hn
      exact ⟨st,p,E.sub 1,o₂,E₂,rfl,hp,hg,r,he,fun _ _ => hm⟩
    rename_i hrem
    split
    · rename_i hint
      obtain ⟨o₂,E₂,r,he,hm⟩ := exitStopped_path (E.sub 2) _ key _ st.backoffOnExit st.drainedFor
        h1 rfl hn
      refine ⟨st,p,E.sub 1,o₂,E₂,rfl,hp,hg,r,he,fun hs hgood => hm (hs hint) ?_⟩
      rintro ⟨hd,hadmin,hb,hstate⟩
      have hbad : strands st = true := by
        have hb : st.burst = true := hb
        have hstate : st.state = .draining := hstate
        have hadmin : st.spec.adminState ≠ .forceStopped := hadmin
        simp [strands, hrem, hint, hd, hb, hstate, hadmin]
      rw [hbad] at hgood
      cases hgood
    · obtain ⟨o₂,E₂,r,he,hm⟩ := exitCrashed_path (E.sub 2) _ key p.everHealthy _ exitErr.exitCode _
        h1 hv
      exact ⟨st,p,E.sub 1,o₂,E₂,rfl,hp,hg,r,he,fun _ _ => hm⟩
  · exact .inl rfl

end OnPremGateway.OwnerExits
