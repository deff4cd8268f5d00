import OnPremGateway.OwnerModel

/-!
# The owner's commands

Each command of the loop, and the world around it: callers that ask, release
and cancel, timers that fire, children that exit and probes that report. A
step is one such event or one turn of the owner.
-/

set_option autoImplicit false

namespace OnPremGateway.OwnerModel
open SliceOrder RuntimeTypes AdmissionModel
open InstanceModel

def sameReplicableOptIn (a b : List Spec) : Bool :=
  let replicable := ((a.filter Spec.replicable).map Spec.id).dedup
  let named := (b.filter Spec.replicable).map Spec.id
  named.all (fun id => id ∈ replicable) && named.length = replicable.length

variable (E : Env) (o : Owner) (key : String) (spec : Spec) (reply : ℕ)

def Owner.reconcileSpec : Owner :=
  match o.find key with
  | none => o
  | some st =>
    let changed := !deepEqual st.spec spec
    let o := o.put key { st with spec := spec }
    if changed && st.proc.isNone then
      if st.state = .startFailed || st.state = .crashed then o.setState (E.sub 0) key .stopped
      else if st.state = .backoff then (o.cancelBackoff key).setState (E.sub 0) key .stopped
      else o
    else if changed && spec.adminState ≠ .forceStopped && !sameLaunchShape st.spec spec then
      o.beginDrain (E.sub 0) spec.id
    else o

def Owner.removeState : Owner :=
  match o.find key with
  | none => o
  | some st =>
    if st.proc.isSome then (o.put key { st with removed := true }).beginDrain E key
    else ((o.cancelBackoff key).failPending key .modelNotManaged).deleteState key

def Owner.rebuildUpstreamIndex : Owner :=
  { o with byUpstream := (o.keys E).foldl (fun index id => match o.find id with
      | none => index
      | some st => if st.instanceIdx ≠ 0 then index else index.insert st.spec.upstreamModel id) ∅ }

def Owner.instanceAddressHeld (k : ℤ) : Bool :=
  (o.byUpstream.lookup (instanceAddress spec.upstreamModel k)).any (fun holder => holder ≠ spec.id)

def freshState (k : ℤ) : SpecState :=
  { spec := spec, instanceIdx := k, since := E.here.now }

def Owner.create (k : ℤ) : Owner :=
  if (o.find spec.id).isSome then o else o.put spec.id (freshState E spec k)

def floorIndexes : List ℤ :=
  ((List.range 63).map (fun i : ℕ => (i : ℤ)+1)).takeWhile fun k =>
    k < protectedCount spec && instanceAllowed spec k

def Owner.ensureProtectedFloor : Owner :=
  forEach (fun E o spec => forEach (fun E o k =>
      if (o.find (instanceKey spec.id k)).isSome || o.instanceAddressHeld spec k then o
      else o.create E (specForInstance spec k) k) E o (floorIndexes spec)) E o o.cfg.specs

def Owner.adoptSpec : Owner :=
  if (o.find spec.id).isNone then o.create (E.sub 0) spec 0
  else (o.modify spec.id fun st => { st with removed := false }).reconcileSpec (E.sub 1) spec.id spec

def Owner.dropUndesired (newIDs : List String) (E : Env) (o : Owner) (key : String) : Owner :=
  match o.find key with
  | none => o
  | some st => if specBase st.spec ∈ newIDs then o else o.removeState E key

def Owner.reviseInstance (specs : List Spec) (E : Env) (o : Owner) (key : String) : Owner :=
  match o.find key with
  | none => o
  | some st =>
    if st.instanceIdx = 0 then o
    -- of two specs with one id the later one is the spec
    else match specs.reverse.find? (fun spec => spec.id = st.spec.instanceOf) with
    | none => o
    | some base =>
      if !instanceAllowed base st.instanceIdx then o.removeState (E.sub 0) key
      else if o.instanceAddressHeld base st.instanceIdx then o.removeState (E.sub 0) key
      else
        let o := o.put key { st with removed := false }
        if isBurst base st.instanceIdx && st.proc.isNone then
          let o := o.cancelBackoff key
          let o := if st.state = .backoff then o.setState (E.sub 1) key .stopped else o
          if st.pending.length = 0 then o.retire key
          else o.reconcileSpec (E.sub 2) key (specForInstance base st.instanceIdx)
        else o.reconcileSpec (E.sub 2) key (specForInstance base st.instanceIdx)

def Owner.drainForced (newIDs : List String) (E : Env) (o : Owner) (key : String) : Owner :=
  match o.find key with
  | none => o
  | some st =>
    if st.removed || specBase st.spec ∉ newIDs then o
    else if st.spec.adminState = .forceStopped && st.proc.isSome then o.beginDrain E key
    else o

def Owner.startsNow (newIDs : List String) (o : Owner) (key : String) : Bool :=
  (o.find key).any fun st => !(st.removed || specBase st.spec ∉ newIDs) &&
    st.spec.adminState ≠ .forceStopped && st.protected && st.proc.isNone && st.state ≠ .backoff

def Owner.adoptConfig (cfg : Config) : Owner :=
  let newIDs := cfg.specs.map Spec.id
  let o := { o with cfg := cfg, allowedPairs := cfg.allowedPairs }
  let o := forEach Owner.adoptSpec (E.sub 0) o cfg.specs
  let o := forEach (Owner.dropUndesired newIDs) (E.sub 1) o (o.keys (E.sub 2))
  let o := o.rebuildUpstreamIndex (E.sub 3)
  let o := forEach (Owner.reviseInstance cfg.specs) (E.sub 4) o (o.keys (E.sub 5))
  o.ensureProtectedFloor (E.sub 6)

def Owner.applyConfig (cfg : Config) : Owner :=
  let cfg := { cfg with specs := withoutReservedSpecIDs cfg.specs }
  if cfg.etag ≠ "" && cfg.etag = o.cfg.etag && sameReplicableOptIn cfg.specs o.cfg.specs then o
  else
    let newIDs := cfg.specs.map Spec.id
    let o := o.adoptConfig (E.sub 0) cfg
    let ids := o.keys (E.sub 1)
    -- A drain touches its own state only, so what starts can be read before.
    let start := o.sortInstanceOrder (ids.filter (o.startsNow newIDs))
    let o := forEach (Owner.drainForced newIDs) (E.sub 2) o ids
    let o := forEach Owner.reask (E.sub 3) o start
    o.wakeAdmissionCandidates (E.sub 4)

def Owner.resolveAddress (model : String) : Option (String × String × ℤ) :=
  match o.byUpstream.lookup model with
  | some id => if (o.find id).isNone then none else some (id, model, 0)
  | none =>
    let (b, n) := parseInstanceAddress model
    if n = 0 then none
    else match o.byUpstream.lookup b with
    | none => none
    | some id => match o.find id with
      | none => none
      | some st => if st.removed || !instanceAllowed st.spec n then none else some (id, b, n)

def Owner.plainRequestRefused (base : SpecState) (k : ℤ) : Bool :=
  if !isBurst base.spec k then false
  else match o.find (instanceKey base.spec.id k) with
  | none => true
  | some st => if st.state = .starting then false else st.state ≠ .running || st.proc.isNone

def Owner.instanceForRequest (base : SpecState) (k : ℤ) : Owner :=
  let key := instanceKey base.spec.id k
  let o := if (o.find key).any (fun st => st.burst && st.proc.isNone &&
      (st.state = .crashed || st.state = .startFailed)) then o.retire key else o
  o.create E (specForInstance base.spec k) k

def Owner.enqueue : Owner :=
  match o.find key with
  | none => o
  | some st =>
    let w : Waiter := { reply := reply, queuedAt := E.here.now }
    if st.spec.admissionWaitTimeoutSeconds > 0 then
      (o.scheduleAfter (st.spec.admissionWaitTimeoutSeconds*second) (.waiter key reply)).put key
        { st with pending := st.pending ++ [{ w with timer := some o.nextTimer }] }
    else o.put key { st with pending := st.pending ++ [w] }

def Owner.grant : Owner :=
  match o.find key with
  | none => o
  | some st => match st.proc with
    | none => o
    | some p => (o.send reply (.granted (endpointFor p.port) key p.gen)).put key
        { st with inFlight := st.inFlight+1, lastUsed := E.here.now }

def Owner.ensureInstance : Owner :=
  match o.find key with
  -- Not reached: the address was resolved to a state of the table.
  | none => o.send reply (.refused .modelNotManaged)
  | some st =>
    if st.state = .running && st.proc.isSome then o.grant (E.sub 0) key reply
    else if st.state = .notPermitted &&
        sub (E.sub 1).here.now st.notPermittedAt < notPermittedRetryInterval then
      o.send reply (.refused .notPermitted)
    else if st.state = .pendingVRAMUnknown &&
        sub (E.sub 2).here.now st.notPermittedAt < notPermittedRetryInterval then
      o.send reply (.refused .admissionBlocked)
    else if st.burst && st.proc.isSome && st.state ≠ .starting then
      o.send reply (.refused .instanceNoCapacity)
    else (o.enqueue (E.sub 3) key reply).admitAndStart (E.sub 4) key

def Owner.handleEnsure (model : String) (reply : ℕ) (serving : Bool) : Owner :=
  if o.closing then o.send reply (.refused .managerClosed)
  else match o.resolveAddress model with
  | none => o.send reply (.refused .modelNotManaged)
  | some (specID, _, k) =>
    match o.find specID with
    -- Not reached: the address was resolved to a state of the table.
    | none => o.send reply (.refused .modelNotManaged)
    | some st =>
      if st.spec.adminState = .forceStopped then o.send reply (.refused .admissionBlocked)
      else if k > 0 then
        let key := instanceKey st.spec.id k
        if serving && o.plainRequestRefused st k then
          let o := if (o.find key).any SpecState.spentBurst then o.retire key else o
          o.send reply (.refused .instanceNoCapacity)
        else (o.instanceForRequest (E.sub 0) st k).ensureInstance (E.sub 1) key reply
      else o.ensureInstance (E.sub 1) specID reply

def Owner.answerWaiter (err : Err) : Owner :=
  match o.find key with
  | none => o
  | some st => (o.send reply (.refused err)).put key
      { st with pending := st.pending.eraseP (fun w => w.reply = reply) }

def SpecState.waiting (st : SpecState) (reply : ℕ) : Option Waiter :=
  st.pending.find? (fun w => w.reply = reply)

def Owner.handleCancelEnsure (err : Option Err) : Owner :=
  match (o.keys E).find? (fun key => (o.find key).any fun st => (st.waiting reply).isSome) with
  | none => o
  | some key => match o.find key with
    | none => o
    | some st =>
      let o := match st.waiting reply with
        | none => o
        | some w => o.cancelTimer (.waiter st.spec.id reply) w.timer
      o.answerWaiter key reply (err.getD .canceled)

def Owner.handleWaiterTimeout : Owner :=
  match o.find key with
  | none => o
  | some st =>
    if st.state = .starting then o
    else if (st.waiting reply).isNone then o
    else o.answerWaiter key reply .admissionBlocked

def Owner.handleRelease (gen : ℕ) : Owner :=
  match o.find key with
  | none => o
  | some st =>
    if !st.runs gen then o
    else
      let inFlight := if st.inFlight > 0 then st.inFlight-1 else st.inFlight
      let o := o.put key { st with inFlight := inFlight, lastUsed := E.here.now }
      let o := if st.state = .draining && inFlight = 0 then o.terminateNow key .lastRelease else o
      o.wakeAdmissionCandidates (E.sub 0)

def Owner.measurementTargets : List MeasureTarget × Bool :=
  let occupants := o.occupants (o.keys E)
  (sortSlice (fun a b => a.specID < b.specID) (occupants.map fun x =>
      { specID := x.1, gen := x.2.2.gen, pid := x.2.2.pid, ready := x.2.2.everHealthy }),
    occupants.any fun x => x.2.1.spec.gpus.length > 0)

def Owner.dispatchMeasurement : Owner :=
  if o.closing || o.measuring then o
  else
    let (targets, declaresGPU) := o.measurementTargets (E.sub 0)
    let vramMeasure := (E.sub 1).here.measurer.isSome && declaresGPU
    if targets.length = 0 || !(vramMeasure || (E.sub 2).here.ramMeasurer) then o
    else { o with measuring := true, measurement := some targets }

def Owner.measureSoon : Owner :=
  if o.measuring then { o with remeasure := true } else o.dispatchMeasurement E

def Owner.healthyBootstrapAwaitingMeasurement (st : SpecState) : Bool :=
  E.here.ramMeasurer && st.proc.any (fun p => p.everHealthy) && st.state = .running &&
    needsRAMBootstrap (o.chargeSpec key st) st.measuredRAM

def Owner.failBootstrapUnmeasured : Owner :=
  let o := o.modify key fun st => { st with ramBootstrapBeats := 0 }
  let o := o.setState (E.sub 0) key .startFailed
  let o := o.recordFailure (E.sub 1) key
    "runtime: RAM cold-start bootstrap never produced a measurement within the bootstrap deadline"
    (-1) (E.sub 2).here.tail
  let o := o.failPending key .startFailed
  let o := o.terminateNow key .bootstrapDeadline
  o.enterBackoff (E.sub 3) key

def Owner.missedBeat (st : SpecState) : Owner :=
  if !o.healthyBootstrapAwaitingMeasurement (E.sub 0) key st then o
  else
    let o := o.modify key fun st => { st with ramBootstrapBeats := st.ramBootstrapBeats+1 }
    if st.ramBootstrapBeats+1 ≥ ramBootstrapMeasureBeats then
      o.failBootstrapUnmeasured (E.sub 1) key
    else o

def Owner.applyReading (byPID : AList (fun _ : ℤ => IntMap)) (ramByPID : IntMap) (E : Env)
    (o : Owner) (t : MeasureTarget) : Owner × Bool :=
  match o.find t.specID with
  | none => (o, false)
  | some st =>
    if !st.runs t.gen then (o, false)
    else
      let byGPU := realMeasurement ((byPID.lookup t.pid).getD ∅)
      let measured := byGPU.entries.length > 0
      let st := if measured then
          { st with measuredVRAM := byGPU, vramBootstrapDone := true
                    readyVRAM := if t.ready then byGPU else st.readyVRAM }
        else st
      let mb := realRAM (valueAt ramByPID t.pid)
      if mb > 0 then
        (o.put t.specID { st with measuredRAM := mb, ramBootstrapRetries := 0, ramBootstrapBeats := 0
                                  readyRAM := if t.ready then mb else st.readyRAM
                                  bootstrapEvictions := 0 }, t.ready)
      else ((o.put t.specID st).missedBeat E t.specID st, measured && t.ready)

def Owner.applyReadings (byPID : AList (fun _ : ℤ => IntMap)) (ramByPID : IntMap) (E : Env)
    (o : Owner) : List MeasureTarget → Owner × Bool
  | [] => (o, false)
  | t::ts =>
    let (o, landed) := o.applyReading byPID ramByPID (E.sub 0) t
    let (o, rest) := Owner.applyReadings byPID ramByPID (E.sub 1) o ts
    (o, landed || rest)

def Owner.applyMeasurement (targets : List MeasureTarget)
    (byPID : AList (fun _ : ℤ => IntMap)) (ramByPID : IntMap) : Owner :=
  let o := { o with measuring := false }
  let (o, landed) := Owner.applyReadings byPID ramByPID (E.sub 0) o targets
  let o := if landed then o.wakeAdmission (E.sub 1) SpecState.wantsDemandWake else o
  if o.remeasure then { o with remeasure := false }.dispatchMeasurement (E.sub 2) else o

def Owner.startSucceeded (p : Proc) : Owner :=
  let o := o.modify key fun st =>
    { st with restarts := if st.hasRunBefore then st.restarts+1 else st.restarts
              hasRunBefore := true
              startupMS := max 1 ((sub (E.sub 0).here.now p.startedAt).tdiv millisecond) }
  let o := o.setState (E.sub 1) key .running
  let serial := o.nextTimer
  let o := (o.scheduleAfter stableRunThreshold (.stable key p.gen)).modify key fun st =>
    { st with lastError := none
              proc := st.proc.map fun p => { p with stableTimer := some serial } }
  let o := o.succeedPending (E.sub 2) key
  let o := o.measureSoon (E.sub 3)
  o.wakeAdmission (E.sub 4) SpecState.wantsWakeAfterStart

def Owner.startTimedOut : Owner :=
  let o := o.setState (E.sub 0) key .startFailed
  let o := o.recordFailure (E.sub 1) key "runtime: startup timed out waiting for health" 0
    (E.sub 2).here.tail
  let o := o.failPending key .startTimeout
  let o := o.terminateNow key .startTimeout
  o.enterBackoff (E.sub 3) key

def Owner.handleStartResult (gen : ℕ) (ok : Bool) : Owner :=
  match o.find key with
  | none => o
  | some st =>
    match st.proc with
    | none => o
    | some p =>
      if p.gen ≠ gen then o
      else
        let o := if ok then o.put key { st with proc := some { p with everHealthy := true } } else o
        if st.state = .draining then o
        else if ok then o.startSucceeded (E.sub 0) key p
        else o.startTimedOut (E.sub 0) key

def Owner.handleStableRun (gen : ℕ) : Owner :=
  match o.find key with
  | none => o
  | some st =>
    if !st.runs gen then o
    else o.put key { st with proc := st.proc.map fun p => { p with stableTimer := none }
                             failures := if st.state = .running then 0 else st.failures }

def Owner.hostRAMBudgetSnapshot : ℤ :=
  hostRAMBudgetMB (E.here.hostInfo.getD {}) ((o.specs.entries.map fun e =>
    if e.2.proc.isNone then 0 else realRAM e.2.measuredRAM).sum) o.hostRAMReserveMB

def Owner.noteRAMFreed : Owner :=
  match o.find key with
  | none => o
  | some st =>
    if E.here.hostInfo.isNone then o
    else
      let mb := if realRAM st.measuredRAM = 0 then (o.chargeSpec key st).ramMB
        else realRAM st.measuredRAM
      if mb ≤ 0 then o
      else
        let seq := (E.sub 0).here.hostSeq
        let credit := if seq ≥ o.ramFreedUntilSeq then 0 else o.ramFreedMB
        { o with ramFreedMB := credit+mb, ramFreedUntilSeq := seq+ramFreedSettlePushes }

def bootstrapDiedOfMemoryPressure (oomSignaled : Bool) (measuredRAMMB hostRAMBudget : ℤ) : Bool :=
  if oomSignaled then true
  else if hostRAMBudget > 0 && measuredRAMMB > 0 then
    measuredRAMMB*ramPressureBudgetDen ≥ hostRAMBudget*ramPressureBudgetNum
  else false

def betterBootstrapVictim (a b : SpecState) : Bool :=
  if a.burst ≠ b.burst then a.burst
  else if a.lastUsed ≠ b.lastUsed then a.lastUsed < b.lastUsed
  else a.spec.id < b.spec.id

def Owner.bootstrapVictimAllowed (now : ℤ) (beneficiary beneficiaryBase : String)
    (key : String) (st : SpecState) : Bool :=
  !(key = beneficiary || st.proc.isNone || st.state ≠ .running) &&
    !(specBase st.spec = beneficiaryBase || o.higherSiblingRuns st) &&
    isEvictable { specID := key, pinned := st.pinnedForAdmission, starting := st.state = .starting
                  inFlight := st.inFlight, lastUsed := st.lastUsed } now o.evictionGrace

def Owner.bootstrapVictim (beneficiary : String) : Option SpecState :=
  let base := ((o.find beneficiary).map fun b => specBase b.spec).getD beneficiary
  let now := (E.sub 0).here.now
  (o.keys (E.sub 1)).foldl (fun victim key => match o.find key with
    | none => victim
    | some st =>
      if !o.bootstrapVictimAllowed now beneficiary base key st then victim
      else match victim with
        | none => some st
        | some best => if betterBootstrapVictim st best then some st else some best) none

/-- Each call is counted for the state it is made for. -/
def Owner.evictOneIdleForBootstrap (beneficiary : String) : Owner × Bool :=
  let o := o.modify beneficiary fun st =>
    { st with bootstrapEvictions := st.bootstrapEvictions+1 }
  match o.bootstrapVictim (E.sub 0) beneficiary with
  | none => (o, false)
  | some victim =>
    ((o.modify victim.spec.id fun st =>
      { st with drainedFor := appendUnique st.drainedFor beneficiary }).beginDrain (E.sub 1)
        victim.spec.id, true)

def Owner.handleBootstrapMemoryPressure (exitCode : ℤ)
    (tail : String) : Owner :=
  match o.find key with
  | none => o
  | some st =>
    if st.ramBootstrapRetries ≥ ramBootstrapMaxRetries then
      let o := o.setState (E.sub 0) key .startFailed
      let o := o.recordFailure (E.sub 1) key
        (s!"runtime: RAM cold-start bootstrap died of memory pressure again (exit code {exitCode}); " ++
          "escalation already spent, backing off") exitCode tail
      let o := o.failPending key .startFailed
      o.enterBackoff (E.sub 2) key
    else
      let o := o.put key { st with ramBootstrapRetries := st.ramBootstrapRetries+1 }
      let (o, evicted) := o.evictOneIdleForBootstrap (E.sub 3) key
      let o := o.setState (E.sub 0) key .startFailed
      let o := o.recordFailure (E.sub 1) key
        (s!"runtime: RAM cold-start bootstrap died of memory pressure (exit code {exitCode}); " ++
          if evicted then "evicting an idle process and retrying once"
          else "no idle process to evict, retrying once") exitCode tail
      o.enterBackoff (E.sub 2) key

def Owner.clearProc : Owner :=
  match o.find key with
  | none => o
  | some st =>
    match st.proc with
    | none => o
    | some p =>
      let o := o.cancelTimer (.kill st.spec.id p.gen) p.killTimer
      let o := o.cancelTimer (.drain st.spec.id p.gen) p.drainTimer
      let o := o.cancelTimer (.stable st.spec.id p.gen) p.stableTimer
      let o := o.put key { st with proc := none, inFlight := 0, measuredVRAM := ∅ }
      let o := o.noteRAMFreed E key
      o.modify key fun st =>
        { st with measuredRAM := 0, readyVRAM := ∅, readyRAM := 0, intentionalStop := false
                  backoffOnExit := false, drainedFor := [] }

def Owner.exitRemoved : Owner :=
  let o := ((o.failPending key .modelNotManaged).deleteState key).rebuildUpstreamIndex (E.sub 0)
  let o := if !o.closing then o.ensureProtectedFloor (E.sub 1) else o
  o.wakeAdmissionCandidates (E.sub 2)

def Owner.exitStopped (deferredBackoff : Bool)
    (drainedFor : List String) : Owner :=
  match o.find key with
  | none => o
  | some st =>
    if deferredBackoff && st.spec.adminState ≠ .forceStopped then
      (o.enterBackoff (E.sub 0) key).wakeAdmissionCandidates (E.sub 1)
    else
      let o := if st.state = .draining then o.setState (E.sub 0) key .stopped else o
      let o := if st.state = .draining || st.state = .stopped then
          (forEach Owner.reask (E.sub 2) o drainedFor).admitAndStart (E.sub 3) key
        else o
      o.wakeAdmissionCandidates (E.sub 1)

def Owner.exitCrashed (wasHealthy underPressure : Bool)
    (exitCode : ℤ) : Owner :=
  let tail := (E.sub 0).here.tail
  let o :=
    if underPressure then o.handleBootstrapMemoryPressure (E.sub 1) key exitCode tail
    else if wasHealthy then
      let o := o.setState (E.sub 1) key .crashed
      let o := o.recordFailure (E.sub 2) key
        s!"runtime: process exited unexpectedly (exit code {exitCode})" exitCode tail
      o.enterBackoff (E.sub 3) key
    else
      let o := o.setState (E.sub 1) key .startFailed
      let o := o.recordFailure (E.sub 2) key
        s!"runtime: process exited before becoming healthy (exit code {exitCode})" exitCode tail
      let o := o.failPending key .startFailed
      o.enterBackoff (E.sub 3) key
  o.wakeAdmissionCandidates (E.sub 4)

def Owner.onProcExited (exitErr : ExitErr) : Owner :=
  match o.find key with
  | none => o
  | some st =>
    match st.proc with
    | none => o
    | some p =>
      let bootstrapSpec := !st.burst && specHasUnknownRAM (o.demandSpec key st)
      let ramBudgetAtDeath := if bootstrapSpec then o.hostRAMBudgetSnapshot (E.sub 0) else 0
      let o := o.clearProc (E.sub 1) key
      if st.removed then o.exitRemoved (E.sub 2) key
      else if st.intentionalStop then o.exitStopped (E.sub 2) key st.backoffOnExit st.drainedFor
      else o.exitCrashed (E.sub 2) key p.everHealthy (bootstrapSpec && st.wantsUp &&
        bootstrapDiedOfMemoryPressure exitErr.sigkill st.measuredRAM ramBudgetAtDeath)
        exitErr.exitCode

def Owner.handleChildExited (gen : ℕ) (exitErr : ExitErr) :
    Owner :=
  if (o.find key).any (fun st => st.runs gen) then o.onProcExited E key exitErr else o

def Owner.handleBackoffFire : Owner :=
  match o.find key with
  | none => o
  | some st =>
    let o := o.put key { st with backoffTimer := none }
    let o := if st.state = .backoff then o.setState (E.sub 0) key .stopped else o
    o.admitAndStart (E.sub 1) key

def Owner.handleDrainGraceExpired (gen : ℕ) : Owner :=
  match o.find key with
  | none => o
  | some st =>
    if !st.runs gen then o
    else (o.put key { st with proc := st.proc.map fun p => { p with drainTimer := none } }).terminateNow
      key .drainGraceExpired

def Owner.handleKillGraceExpired (gen : ℕ) : Owner :=
  match o.find key with
  | none => o
  | some st =>
    if !st.runs gen then o
    else o.put key { st with proc := st.proc.map fun p => { p with killTimer := none } }

def Owner.handleGraceExpiry : Owner :=
  let o := o.cancelGrace
  if o.closing then o
  else (o.wakeAdmission (E.sub 0) SpecState.wantsGraceWake).rescheduleGraceWake (E.sub 1)

def Owner.scanIdle : Owner :=
  let now := (E.sub 0).here.now
  forEach (fun E o key => match o.find key with
    | none => o
    | some st =>
      if st.proc.isNone || st.state ≠ .running || st.protected ||
          st.spec.idleTimeoutSeconds ≤ 0 || st.inFlight ≠ 0 || o.higherSiblingRuns st then o
      else if sub now st.lastUsed ≥ st.spec.idleTimeoutSeconds*second then o.beginDrain E key
      else o) (E.sub 1) o (o.keys (E.sub 2))

inductive StopState where
  | stopping
  | stopped
  deriving DecidableEq, Repr

def stopQueuedError (st : SpecState) : Err :=
  .wasStopped (if st.burst then .instanceNoCapacity else .admissionBlocked) st.spec.id

def Owner.stopInstance (model : String) : Owner × Except Err StopState :=
  if o.closing then (o, .error .managerClosed)
  else match o.resolveAddress model with
  | none => (o, .error .modelNotManaged)
  | some (specID, _, k) =>
    match o.find specID with
    | none => (o, .error .modelNotManaged)
    | some base =>
      if base.removed then (o, .error .modelNotManaged)
      else
        let key := instanceKey base.spec.id k
        let hasProc := (o.find key).any fun st => st.proc.isSome
        if base.spec.adminState = .forceStopped then
          if !hasProc then (o, .ok .stopped) else (o.beginDrain E key, .ok .stopping)
        else if k < protectedCount base.spec then (o, .error .instanceProtected)
        else match o.find key with
        | none => (o, .ok .stopped)
        | some st =>
          if !hasProc then (o.failPending key (stopQueuedError st), .ok .stopped)
          else if st.state ≠ .draining && o.higherSiblingRuns st then
            (o, .error .instanceNotHighest)
          else ((o.failPending key (stopQueuedError st)).beginDrain E key, .ok .stopping)

def Owner.closeState : Owner :=
  let o := if (o.find key).any (fun st => st.state = .backoff) then
      (o.cancelBackoff key).setState (E.sub 0) key .stopped else o
  (o.failPending key .managerClosed).beginDrain (E.sub 1) key

def Owner.handleClose : Owner :=
  let o := { o with closing := true }.cancelGrace
  forEach Owner.closeState (E.sub 0) o (o.keys (E.sub 1))

def Owner.maybeFinishClose : Owner :=
  if !o.closing || o.stopped then o
  else if o.specs.entries.any (fun e => e.2.proc.isSome) then o
  else { o with stopped := true }

def Owner.dispatch : Command → Owner
  | .apply cfg => o.applyConfig E cfg
  | .ensure model reply serving => o.handleEnsure E model reply serving
  | .cancelEnsure reply err => o.handleCancelEnsure E reply err
  | .waiterTimeout specID reply => o.handleWaiterTimeout specID reply
  | .release specID gen => o.handleRelease E specID gen
  | .childExited specID gen exitErr => o.handleChildExited E specID gen exitErr
  | .startResult specID gen ok => o.handleStartResult E specID gen ok
  | .backoffFire specID => o.handleBackoffFire E specID
  | .graceExpiry => o.handleGraceExpiry E
  | .stableRun specID gen => o.handleStableRun specID gen
  | .drainGraceExpired specID gen => o.handleDrainGraceExpired specID gen
  | .killGraceExpired specID gen => o.handleKillGraceExpired specID gen
  | .measured targets byPID ramByPID => o.applyMeasurement E targets byPID ramByPID
  | .stop model => (o.stopInstance E model).1
  | .query => o
  | .close => o.handleClose E

def Owner.handle (cmd : Command) : Owner :=
  let o := { o with turn := o.turn+1 }.dispatch E cmd
  if o.closing then o.maybeFinishClose else o

def Owner.idleTick : Owner :=
  let o := { o with turn := o.turn+1 }
  if o.closing then o else (o.scanIdle (E.sub 0)).dispatchMeasurement (E.sub 1)

def Owner.hostWake : Owner :=
  let o := { o with turn := o.turn+1 }
  if o.closing then o else o.wakeAdmission E SpecState.wantsHostSampleWake

/-- What can happen next: a caller, a timer, a child, a probe or a measurer
acts, or the owner takes a turn. -/
inductive Event where
  | apply (cfg : Config)
  | ensure (model : String) (reply : ℕ) (serving : Bool)
  | cancel (reply : ℕ) (err : Option Err)
  | release (reply : ℕ)
  | stop (model : String)
  | query
  | close
  | fire (timer : Timer)
  | exit (specID : String) (gen : ℕ) (exitErr : ExitErr)
  | probe (specID : String) (gen : ℕ) (ok : Bool)
  | measure (byPID : AList (fun _ : ℤ => IntMap)) (ramByPID : IntMap)
  | receive (p : Posted)
  | idleTick
  | hostWake

def Owner.grantOf : Option (String × ℕ) :=
  match o.answers.lookup reply with
  | some (.granted _ specID gen) => some (specID, gen)
  | _ => none

/-- One event, where it can happen. A request brings a reply channel of its
own and a grant is released once. -/
def Owner.step : Event → Option Owner
  | .apply cfg => if o.stopped then none else some (o.handle E (.apply cfg))
  | .ensure model reply serving =>
    if o.stopped || reply ∈ o.accepted then none
    else some ({ o with accepted := reply::o.accepted }.handle E (.ensure model reply serving))
  | .cancel reply err =>
    if o.stopped || reply ∉ o.accepted then none else some (o.handle E (.cancelEnsure reply err))
  | .release reply =>
    if o.stopped || reply ∈ o.released then none
    else (o.grantOf reply).map fun g =>
      { o with released := reply::o.released }.handle E (.release g.1 g.2)
  | .stop model => if o.stopped then none else some (o.handle E (.stop model))
  | .query => if o.stopped then none else some (o.handle E .query)
  | .close => if o.stopped then none else some (o.handle E .close)
  | .fire t =>
    if t ∈ o.timers then some { o with timers := o.timers.erase t
                                       posted := ⟨t.purpose.cmd, some t.serial⟩::o.posted }
    else none
  | .exit specID gen exitErr =>
    if (specID, gen) ∈ o.children then
      some { o with children := o.children.erase (specID, gen)
                    posted := ⟨.childExited specID gen exitErr, none⟩::o.posted }
    else none
  | .probe specID gen ok =>
    if (specID, gen) ∈ o.polling then
      some { o with polling := o.polling.erase (specID, gen)
                    posted := ⟨.startResult specID gen ok, none⟩::o.posted }
    else none
  | .measure byPID ramByPID =>
    o.measurement.map fun targets =>
      { o with measurement := none, posted := ⟨.measured targets byPID ramByPID, none⟩::o.posted }
  | .receive p =>
    if o.stopped || p ∉ o.posted then none
    else some ({ o with posted := o.posted.erase p }.handle E p.cmd)
  | .idleTick => if o.stopped then none else some (o.idleTick E)
  | .hostWake => if o.stopped then none else some (o.hostWake E)

def Owner.Step (o o' : Owner) : Prop := ∃ (E : Env) (e : Event), o.step E e = some o'

def newOwner (appleGPU : Bool) (vramHeadroomMB hostRAMReserveMB ramBootstrapGuessMB
    evictionGrace : ℤ) : Owner :=
  { appleGPU := appleGPU, vramHeadroomMB := max 0 vramHeadroomMB
    hostRAMReserveMB := max 0 hostRAMReserveMB, ramBootstrapGuessMB := max 0 ramBootstrapGuessMB
    evictionGrace := max 0 evictionGrace }

def Owner.Initial : Prop :=
  ∃ apple headroom reserve guess grace, o = newOwner apple headroom reserve guess grace

def Owner.Reachable : Prop :=
  ∃ o₀ : Owner, o₀.Initial ∧ Relation.ReflTransGen Owner.Step o₀ o

end OnPremGateway.OwnerModel
