import OnPremGateway.OwnerTypes

/-!
# The owner's operations

The functions of the command loop, as the owner runs them: lookups and updates
go through the instance key, and each call gets the part of the environment
that belongs to it. An admission may wake a higher instance of its own spec,
whose admission may wake a still higher one; the instance index bounds how
deep this goes, and `admitAndStart` starts with enough depth for all of them.
-/

set_option autoImplicit false

namespace OnPremGateway.OwnerModel
open SliceOrder RuntimeTypes AdmissionModel
open InstanceModel

variable (E : Env) (o : Owner) (key : String) (st : SpecState)

def Owner.find : Option SpecState := o.specs.lookup key

def Owner.put : Owner :=
  { o with specs := o.specs.insert key st }

def Owner.modify (f : SpecState → SpecState) : Owner :=
  match o.find key with
  | none => o
  | some st => o.put key (f st)

/-- The keys of the table, in the order a range visits them. -/
def Owner.keys (E : Env) (o : Owner) : List String := E.here.range.visit () o.specs.keys

def forEach {α : Type} (f : Env → Owner → α → Owner) (E : Env) (o : Owner) : List α → Owner
  | [] => o
  | x::xs => forEach f (E.sub 1) (f (E.sub 0) o x) xs

def Owner.scheduleAfter (delay : ℤ) (purpose : Purpose) : Owner :=
  { o with nextTimer := o.nextTimer+1, timers := ⟨purpose, o.nextTimer, delay⟩::o.timers }

def Owner.cancelTimer (purpose : Purpose) (handle : Option ℕ) : Owner :=
  match handle with
  | none => o
  | some n => { o with timers := o.timers.filter (fun t => !(t.purpose = purpose && t.serial = n)) }

def Owner.send (reply : ℕ) (out : Outcome) : Owner :=
  { o with answers := (reply, out)::o.answers }

def endpointFor (port : ℤ) : String := "http://127.0.0.1:" ++ toString port

def Owner.setState (s : State) : Owner :=
  o.modify key fun st => if st.state = s then st else { st with state := s, since := E.here.now }

def Owner.deleteState : Owner := { o with specs := o.specs.erase key }

def Owner.cancelBackoff : Owner :=
  match o.find key with
  | none => o
  | some st => (o.cancelTimer (.backoff st.spec.id) st.backoffTimer).put key
      { st with backoffTimer := none }

def Owner.retire : Owner := (o.cancelBackoff key).deleteState key

def Owner.cancelWaiterTimers (specID : String) (ws : List Waiter) : Owner :=
  ws.foldl (fun o w => o.cancelTimer (.waiter specID w.reply) w.timer) o

def Owner.sendAll (ws : List Waiter) (out : Outcome) : Owner :=
  ws.foldl (fun o w => o.send w.reply out) o

def Owner.failPending (err : Err) : Owner :=
  match o.find key with
  | none => o
  | some st => ((o.cancelWaiterTimers st.spec.id st.pending).sendAll st.pending (.refused err)).put
      key { st with pending := [] }

def Owner.succeedPending : Owner :=
  match o.find key with
  | none => o
  | some st =>
    match st.proc with
    | none => o
    | some p => ((o.cancelWaiterTimers st.spec.id st.pending).sendAll st.pending
        (.granted (endpointFor p.port) key p.gen)).put key
        { st with inFlight := st.inFlight+st.pending.length, pending := []
                  lastUsed := E.here.now }

def Owner.noteAdmissionWait (message : String) : Owner :=
  o.modify key fun st =>
    if message = "" then st
    else if st.lastError.any (fun e => e.message = message) then st
    else { st with lastError := some { message := message, time := E.here.now } }

def Owner.recordFailure (message : String) (exitCode : ℤ)
    (stderrTail : String) : Owner :=
  o.modify key fun st =>
    { st with
      failures := st.failures+1
      lastError := some { message := message, time := E.here.now, exitCode := exitCode
                          failures := st.failures+1, stderrTail := stderrTail } }

def Owner.terminateNow (cause : Cause) : Owner :=
  match o.find key with
  | none => o
  | some st =>
    match st.proc with
    | none => o
    | some p =>
      if (p.specID, p.gen) ∉ o.children then o
      else if p.killTimer.isSome then o
      else
        let o := o.cancelTimer (.drain st.spec.id p.gen) p.drainTimer
        let o := { o with signals := ⟨st.spec.id, p.gen, st.inFlight, st.state, cause⟩::o.signals }
        let serial := o.nextTimer
        let o := o.scheduleAfter killGrace (.kill st.spec.id p.gen)
        o.put key { st with
          intentionalStop := true
          proc := some { p with drainTimer := none, killTimer := some serial } }

def Owner.armDrain : Owner :=
  match o.find key with
  | none => o
  | some st =>
    match st.proc with
    | none => o
    | some p => (o.scheduleAfter drainGrace (.drain key p.gen)).put key
        { st with proc := some { p with drainTimer := some o.nextTimer } }

def Owner.beginDrain : Owner :=
  match o.find key with
  | none => o
  | some st =>
    if st.proc.isNone || st.state = .draining then o
    else
      let o := o.setState (E.sub 0) key .draining
      if st.inFlight = 0 then o.terminateNow key .drainStarted else o.armDrain key

def backoffDelayFor (failures : ℤ) : ℤ :=
  min backoffCap ((List.range (failures-1).toNat).foldl
    (fun d _ => if d < backoffCap then 2*d else d) backoffBase)

def Owner.park : Owner :=
  match o.find key with
  | none => o
  | some st =>
    let o := o.setState (E.sub 0) key .backoff
    let serial := o.nextTimer
    (o.scheduleAfter (backoffDelayFor st.failures) (.backoff st.spec.id)).modify key fun st =>
      { st with backoffTimer := some serial }

def Owner.enterBackoff : Owner :=
  match o.find key with
  | none => o
  | some st =>
    if o.closing then o.setState (E.sub 0) key .stopped
    else if st.burst then o.failPending key .startFailed
    else if st.proc.isSome then o.modify key fun st => { st with backoffOnExit := true }
    else o.park E key

def realMeasurement (byGPU : IntMap) : IntMap :=
  byGPU.entries.foldl (fun out e => if e.2 ≤ 0 then out else out.insert e.1 e.2) ∅

def realRAM (v : ℤ) : ℤ := if v ≤ 0 then 0 else v

def raisePeak (vram ready : IntMap) : IntMap :=
  ready.entries.foldl (fun vram e => if e.2 ≤ valueAt vram e.1 then vram else vram.insert e.1 e.2)
    vram

def Owner.siblingPeak : IntMap × ℤ :=
  o.specs.entries.foldl (fun peak e =>
    if e.1 = key || e.2.proc.isNone || specBase e.2.spec ≠ specBase st.spec then peak
    else (raisePeak peak.1 e.2.readyVRAM, max peak.2 (realRAM e.2.readyRAM))) (∅, 0)

def Owner.demandSpec : Spec :=
  if !st.spec.replicable then st.spec
  else
    let peak := o.siblingPeak key st
    raisedDemand st.spec peak.1 peak.2

def Owner.chargeSpec : Spec :=
  if !st.spec.replicable then st.spec
  else
    let peak := o.siblingPeak key st
    let vram := st.readyVRAM.entries.foldl (fun vram e => vram.insert e.1 e.2) peak.1
    let own := realRAM st.readyRAM
    raisedDemand st.spec vram (if own > 0 then own else peak.2)

def Owner.vramBootstrapEligible : Bool :=
  E.here.measurer.isSome && !st.vramBootstrapDone && specHasUnknownVRAM (o.demandSpec key st)

def Owner.higherSiblingRuns : Bool :=
  o.specs.entries.any fun e =>
    e.2.proc.isSome && e.2.instanceIdx > st.instanceIdx && specBase e.2.spec = specBase st.spec

def hostRAMBudgetMB (hi : HostInfo) (residentMB reserveMB : ℤ) : ℤ :=
  if hi.memAvailableMB ≤ 0 then 0 else max 1 (hi.memAvailableMB+residentMB-reserveMB)

def absorbReading (byGPU : IntMap) (st : SpecState) : SpecState :=
  match st.proc with
  | none => st
  | some p =>
    if byGPU.entries.length = 0 then st
    else
      { st with measuredVRAM := byGPU, vramBootstrapDone := true
                readyVRAM := if p.everHealthy then byGPU else st.readyVRAM }

def Owner.absorbReadings (measured : AList (fun _ : ℤ => IntMap)) (E : Env) (o : Owner) : Owner :=
  forEach (fun _ o key => o.modify key fun st =>
    absorbReading (realMeasurement ((st.proc.bind fun p => measured.lookup p.pid).getD ∅)) st) E o
    (o.keys E)

def Owner.pids (keys : List String) : List ℤ :=
  keys.filterMap fun key => (o.find key).bind fun st => st.proc.map Proc.pid

def Owner.runningProc (measured : AList (fun _ : ℤ => IntMap)) (key : String)
    (st : SpecState) (p : Proc) : RunningProc :=
  let demand := o.chargeSpec key st
  let byGPU := realMeasurement ((measured.lookup p.pid).getD ∅)
  { specID := key
    spec := specBase st.spec
    instanceIdx := st.instanceIdx
    surplus := st.burst
    gpus := demand.gpus.foldl (fun gpus g => gpus.insert g.index (max g.vramMB
      ((byGPU.lookup g.index).getD g.vramMB))) ∅
    ramMB := max (realRAM st.measuredRAM) demand.ramMB
    inFlight := st.inFlight
    pinned := st.pinnedForAdmission
    role := roleOf st.spec.role
    lastUsed := st.lastUsed
    starting := st.state = .starting }

def Owner.occupants (keys : List String) : List (String × SpecState × Proc) :=
  keys.filterMap fun key => (o.find key).bind fun st => st.proc.map fun p => (key, st, p)

def Owner.fillDetectedBudgets (budgets : IntMap) (hi : HostInfo) : IntMap :=
  if o.appleGPU then budgets
  else hi.gpuTotalsMB.entries.foldl (fun budgets e =>
    if e.2 ≤ 0 || valueAt budgets e.1 > 0 then budgets
    else budgets.insert e.1 (max 1 (e.2-o.vramHeadroomMB))) budgets

def Owner.pendingRAMFreedMB : Owner :=
  if o.ramFreedMB > 0 && E.here.hostSeq ≥ o.ramFreedUntilSeq then { o with ramFreedMB := 0 } else o

def Owner.buildSnapshot : PolicySnapshot × Owner :=
  let hi := (E.here.hostInfo).getD {}
  let measured := match (E.sub 0).here.measurer with
    | none => ∅
    | some measure => measure (o.pids (o.keys (E.sub 0)))
  let ramMeasurerInstalled := (E.sub 1).here.ramMeasurer
  let o := (o.absorbReadings measured (E.sub 2)).pendingRAMFreedMB (E.sub 3)
  let occupants := o.occupants (o.keys (E.sub 4))
  let resident := (occupants.map fun x => realRAM x.2.1.measuredRAM).sum
  let bound := (occupants.map fun x =>
    if realRAM x.2.1.measuredRAM > 0 then realRAM x.2.1.measuredRAM
    else (o.chargeSpec x.1 x.2.1).ramMB).sum
  ({ running := occupants.map fun x => o.runningProc measured x.1 x.2.1 x.2.2
     maxProcesses := o.cfg.maxProcesses
     now := (E.sub 5).here.now
     evictionGrace := o.evictionGrace
     budgets := o.fillDetectedBudgets
       (o.cfg.gpuBudgets.foldl (fun budgets b => budgets.insert b.index b.budgetMB) ∅) hi
     hostRAMBudgetMB := hostRAMBudgetMB hi resident o.hostRAMReserveMB
     hostRAMCeilingMB := hostRAMBudgetMB hi (bound+o.ramFreedMB) o.hostRAMReserveMB
     ramBootstrapInFlight := occupants.any fun x =>
       needsRAMBootstrap (o.chargeSpec x.1 x.2.1) x.2.1.measuredRAM &&
         (x.2.1.state = .starting || ramMeasurerInstalled)
     ramBootstrapGuessMB := o.ramBootstrapGuessMB
     allowed := o.allowedPairs }, o)

def instanceLess (aBase : String) (aK : ℤ) (bBase : String) (bK : ℤ) : Bool :=
  if aBase ≠ bBase then aBase < bBase else aK < bK

def Owner.sortInstanceOrder (ids : List String) : List String :=
  sortSlice (fun a b => match o.find a, o.find b with
    | some a, some b => instanceLess (specBase a.spec) a.instanceIdx (specBase b.spec) b.instanceIdx
    | _, _ => false) ids

def Owner.retireIfSpent : Owner :=
  match o.find key with
  | none => o
  | some st => if !st.burstLeftNothing || restsAtFailure st.state then o else o.retire key

def SpecState.wantsWake : Bool :=
  if st.proc.isSome || st.state = .backoff then false else st.pending.length > 0 || st.protected

def SpecState.wantsWakeAfterStart : Bool :=
  st.wantsWake && (st.pending.length > 0 || st.pinnedForAdmission)

def SpecState.wantsDemandWake : Bool := st.waitingOnDemand && st.wantsWakeAfterStart

def SpecState.wantsHostSampleWake : Bool := st.waitingOnRAM && st.wantsWakeAfterStart

def SpecState.wantsGraceWake : Bool := st.waitingOnGrace && st.wantsWakeAfterStart

def earlierExpiry (grace now : ℤ) (earliest : Option ℤ) (st : SpecState) : Option ℤ :=
  if st.proc.isNone || st.pinnedForAdmission || st.state = .starting || st.inFlight ≠ 0 then earliest
  else if st.lastUsed = 0 || st.lastUsed+grace ≤ now then earliest
  else match earliest with
    | none => some (st.lastUsed+grace)
    | some best => some (if st.lastUsed+grace < best then st.lastUsed+grace else best)

def Owner.earliestGraceExpiry (now : ℤ) : Option ℤ :=
  if o.evictionGrace ≤ 0 then none
  else o.specs.entries.foldl (fun earliest e => earlierExpiry o.evictionGrace now earliest e.2) none

def Owner.cancelGrace : Owner :=
  { o.cancelTimer .grace o.graceTimer with graceTimer := none, graceTimerAt := 0 }

def Owner.armGrace (expiry : Option ℤ) : Owner :=
  let o := o.cancelTimer .grace o.graceTimer
  let serial := o.nextTimer
  match expiry with
  | some expiry => { o.scheduleAfter (max 0 (sub expiry E.here.now+graceWakeSlack)) .grace with
      graceTimer := some serial, graceTimerAt := expiry }
  | none => { o.scheduleAfter graceWakeSlack .grace with
      graceTimer := some serial, graceTimerAt := 0 }

def Owner.rescheduleGraceWake : Owner :=
  if o.evictionGrace ≤ 0 then o.cancelGrace
  else if !o.specs.entries.any (fun e => e.2.wantsGraceWake) then o.cancelGrace
  else
    let expiry := o.earliestGraceExpiry (E.sub 0).here.now
    if expiry.isSome && o.graceTimer.isSome && expiry = some o.graceTimerAt then o
    else o.armGrace (E.sub 1) expiry

def Owner.lowerSiblingWaiting : Option ℤ :=
  if st.instanceIdx = 0 || !st.protected then none
  else o.specs.entries.foldl (fun lower e =>
    let sib := e.2
    if sib.instanceIdx ≥ lower.getD st.instanceIdx || sib.proc.isSome ||
        specBase sib.spec ≠ specBase st.spec then lower
    else if sib.state ≠ .stopped && sib.state ≠ .backoff then lower
    else if !sib.wantsUp then lower
    else some sib.instanceIdx) none

def appendUnique (list : List String) (v : String) : List String :=
  if v ∈ list then list else list ++ [v]

abbrev Admitter := Env → Owner → String → Owner

section Admission
variable (wake : Admitter)

variable (E : Env) (o : Owner) (key : String)

def setNotPermitted (message : String) : Owner :=
  let o := o.setState (E.sub 0) key .notPermitted
  let o := o.modify key fun st =>
    { st with notPermittedAt := (E.sub 1).here.now
              lastError := some { message := message, time := (E.sub 2).here.now } }
  let o := o.failPending key .notPermitted
  wake (E.sub 3) o key

def setPendingVRAMUnknown (message : String) : Owner :=
  let o := o.setState (E.sub 0) key .pendingVRAMUnknown
  let o := o.modify key fun st =>
    { st with notPermittedAt := (E.sub 1).here.now
              lastError := if message ≠ "" then
                  some { message := message, time := (E.sub 2).here.now }
                else st.lastError }
  let o := o.failPending key .admissionBlocked
  wake (E.sub 3) o key

def startFailure (message : String) : Owner :=
  let o := o.setState (E.sub 0) key .startFailed
  let o := o.recordFailure (E.sub 1) key message 0 ""
  let o := o.failPending key .startFailed
  o.enterBackoff (E.sub 2) key

def Owner.spawn (port pid : ℤ) : Owner :=
  match o.find key with
  | none => o
  | some st =>
    let p : Proc := { gen := o.nextGen, specID := st.spec.id, pid := pid, port := port
                      startedAt := (E.sub 0).here.now, launch := st.spec }
    let o := o.cancelWaiterTimers st.spec.id st.pending
    let o := { o with nextGen := o.nextGen+1
                      children := (st.spec.id, p.gen)::o.children
                      polling := (st.spec.id, p.gen)::o.polling }
    (o.put key { st with proc := some p
                         pending := st.pending.map fun w => { w with timer := none } }).setState
      (E.sub 1) key .starting

def startProcess : Owner :=
  match o.find key with
  | none => o
  | some st =>
    let spec := st.spec
    match (E.sub 0).here.expandPlaceholders spec with
    | some err => setNotPermitted wake (E.sub 1) o key err
    | none =>
    match (E.sub 2).here.planSpecConfigFiles spec with
    | some err => setNotPermitted wake (E.sub 3) o key err
    | none =>
    match (if spec.listenPort = 0 then (E.sub 4).here.grabEphemeralPort else .ok spec.listenPort) with
    | .error err => startFailure (E.sub 5) o key ("runtime: grab ephemeral port: " ++ err)
    | .ok port =>
    match (E.sub 6).here.expandSpec spec port with
    | some err => setNotPermitted wake (E.sub 7) o key err
    | none =>
    match (E.sub 8).here.writeSpecConfigFiles spec port with
    | some err => startFailure (E.sub 9) o key err
    | none =>
    match (E.sub 10).here.start spec port with
    | .error err => startFailure (E.sub 11) o key ("runtime: exec " ++ spec.binary ++ ": " ++ err)
    | .ok pid => o.spawn (E.sub 12) key port pid

def drainVictims (evict : List String) : Owner :=
  forEach (fun E o victimID =>
    let o := if victimID ≠ key then o.modify victimID fun victim =>
        { victim with drainedFor := appendUnique victim.drainedFor key } else o
    o.beginDrain E victimID) E o evict

def demandWaitMessage : String :=
  s!"spec {key}: its demand is unknown (no declared estimate, and no sibling measured since it " ++
    "became ready), so it waits for a ready sibling to be measured instead of starting blind"

/-- A verdict that is acted on and grants a VRAM bootstrap is counted. -/
def Owner.countVerdict (dec : Decision) : Owner :=
  if dec.vramBootstrap then o.modify key fun st =>
    { st with bootstrapVerdicts := st.bootstrapVerdicts+1 }
  else o

def actOn (dec : Decision) : Owner :=
  let o := o.countVerdict key dec
  if dec.noCapacity then o.failPending key .instanceNoCapacity
  else if dec.reason = some .notPermitted then setNotPermitted wake (E.sub 0) o key dec.message
  else if dec.reason = some .pendingVRAMUnknown then
    setPendingVRAMUnknown wake (E.sub 0) o key dec.message
  else if dec.wait then o.noteAdmissionWait (E.sub 0) key dec.message
  else if dec.evict.length > 0 then
    let o := if dec.vramBootstrap then o.modify key fun st => { st with vramBootstrapDone := true }
      else o
    drainVictims (E.sub 0) o key dec.evict
  else
    let o := startProcess wake (E.sub 0) o key
    if (o.find key).any (fun st => st.proc.isSome) then wake (E.sub 1) o key else o

def askAbout (snap : PolicySnapshot) (E : Env) (o : Owner) (key : String) : Owner :=
  match o.find key with
  | none => o
  | some st =>
    let demand := o.demandSpec key st
    let burst := st.burst
    if st.instanceIdx > 0 && demandUnknown demand then
      if burst then o.failPending key .instanceDemandUnknown
      else (o.modify key fun st => { st with waitingOnDemand := true }).noteAdmissionWait (E.sub 1)
        key (demandWaitMessage key)
    else
      let snap := { snap with noEvict := burst
                              vramBootstrapEligible := o.vramBootstrapEligible (E.sub 2) key st }
      let dec := admitSpec (E.sub 3).here.ranges snap demand
      let o := o.modify key fun st =>
        { st with waitingOnRAM := dec.wait && dec.waitOnRAM
                  waitingOnGrace := dec.wait && dec.waitOnGrace }
      actOn wake (E.sub 4) o key dec

def askPolicy : Owner :=
  askAbout wake (o.buildSnapshot (E.sub 0)).1 E (o.buildSnapshot (E.sub 0)).2 key

def decideStart : Owner :=
  match o.find key with
  | none => o
  | some st =>
    if st.proc.isSome || st.state = .backoff then o
    else
      let o := o.modify key fun st =>
        { st with waitingOnRAM := false, waitingOnGrace := false, waitingOnDemand := false
                  waitingOnSibling := false }
      if !st.wantsUp then o
      else if st.spec.adminState = .forceStopped then o.failPending key .admissionBlocked
      else match (E.sub 0).here.permit st.spec with
      | some err => setNotPermitted wake (E.sub 1) o key err
      | none =>
        if (o.lowerSiblingWaiting st).isSome then
          o.modify key fun st => { st with waitingOnSibling := true, decidedTurn := 0 }
        else
          let turn := o.turn
          askPolicy wake (E.sub 2) (o.modify key fun st => { st with decidedTurn := turn }) key

def admitBody : Owner :=
  if o.closing then o
  else ((decideStart wake (E.sub 0) o key).retireIfSpent key).rescheduleGraceWake (E.sub 1)

end Admission

variable (E : Env) (o : Owner) (key : String)

def Owner.waitingSiblings : List String :=
  match o.find key with
  | none => []
  | some st => o.sortInstanceOrder <| (o.keys E).filter fun id => (o.find id).any fun sib =>
      sib.waitingOnSibling && sib.instanceIdx > st.instanceIdx &&
        specBase sib.spec = specBase st.spec

def wakeSiblingsWaitingFor (admitter : Admitter) (E : Env) (o : Owner) (key : String) : Owner :=
  forEach (fun E o id => match o.find id with
    | none => o
    | some sib => if !sib.waitingOnSibling || sib.proc.isSome then o else admitter E o id)
    (E.sub 1) o (o.waitingSiblings (E.sub 0) key)

def admitDepth : ℕ → Admitter
  | 0, _, o, _ => o
  | n+1, E, o, key => admitBody (wakeSiblingsWaitingFor (admitDepth n)) E o key

/-- Instances are numbered up to 63, so 64 nested wakes are never exceeded. -/
def Owner.admitAndStart : Owner := admitDepth 65 E o key

def Owner.decidedThisTurn (st : SpecState) : Bool :=
  o.turn ≠ 0 && st.decidedTurn = o.turn

def Owner.reask : Owner :=
  if (o.find key).any o.decidedThisTurn then o else o.admitAndStart E key

structure WakeCandidate where
  id : String
  base : String
  instanceIdx : ℤ
  queuedAt : ℤ

def queuedSince (ws : List Waiter) : ℤ :=
  ws.foldl (fun since w => if since = 0 || w.queuedAt < since then w.queuedAt else since) 0

def lessByQueueAge (a b : WakeCandidate) : Bool :=
  if (a.queuedAt = 0) ≠ (b.queuedAt = 0) then b.queuedAt = 0
  else if a.queuedAt ≠ b.queuedAt then a.queuedAt < b.queuedAt
  else if a.base ≠ b.base || a.instanceIdx ≠ b.instanceIdx then
    instanceLess a.base a.instanceIdx b.base b.instanceIdx
  else a.id < b.id

def Owner.wakeCandidates (want : SpecState → Bool) : List WakeCandidate :=
  sortSlice lessByQueueAge <| (o.keys E).filterMap fun id => (o.find id).bind fun st =>
    if want st then some ⟨id, specBase st.spec, st.instanceIdx, queuedSince st.pending⟩ else none

def Owner.wakeAdmission (want : SpecState → Bool) : Owner :=
  forEach (fun E o (c : WakeCandidate) => o.reask E c.id) (E.sub 1) o (o.wakeCandidates (E.sub 0) want)

def Owner.wakeAdmissionCandidates : Owner :=
  o.wakeAdmission E SpecState.wantsWake

end OnPremGateway.OwnerModel
