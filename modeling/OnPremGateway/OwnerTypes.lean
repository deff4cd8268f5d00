import OnPremGateway.AdmissionModel
import OnPremGateway.InstanceModel

/-!
# The owner's state

One goroutine owns every launch spec, process and queued request, and one
command at a time reaches it. Beside the owner's own fields the state holds
what runs outside it: the timers that are armed, the commands that wait to be
received, the children and the probes. The last fields record what the owner
has sent out, which nothing reads back.
-/

set_option autoImplicit false

namespace OnPremGateway.OwnerModel
open SliceOrder RuntimeTypes AdmissionModel
open InstanceModel

def drainGrace : ℤ := 10000000000
def killGrace : ℤ := 5000000000
def backoffBase : ℤ := 1000000000
def backoffCap : ℤ := 60000000000
def stableRunThreshold : ℤ := 60000000000
def notPermittedRetryInterval : ℤ := 5000000000
def graceWakeSlack : ℤ := 5000000
def second : ℤ := 1000000000
def millisecond : ℤ := 1000000
def ramBootstrapMaxRetries : ℤ := 1
def ramBootstrapMeasureBeats : ℤ := 10
def ramPressureBudgetNum : ℤ := 9
def ramPressureBudgetDen : ℤ := 10
def ramFreedSettlePushes : ℕ := 2

structure GPUBudget where
  index : ℤ
  budgetMB : ℤ
  deriving DecidableEq

structure Config where
  maxProcesses : ℤ := 0
  gpuBudgets : List GPUBudget := []
  specs : List Spec := []
  coresident : List (String × String) := []
  etag : String := ""
  deriving DecidableEq

def Config.allowedPairs (c : Config) : AList (fun _ : String × String => Bool) :=
  c.coresident.foldl (fun allowed pair => allowed.insert (pairKey pair.1 pair.2) true) ∅

structure HostInfo where
  gpuTotalsMB : IntMap := ∅
  memAvailableMB : ℤ := 0

structure LastError where
  message : String
  time : ℤ
  exitCode : ℤ := 0
  failures : ℤ := 0
  stderrTail : String := ""
  deriving DecidableEq

inductive Err where
  | modelNotManaged
  | startFailed
  | startTimeout
  | admissionBlocked
  | notPermitted
  | managerClosed
  | instanceNoCapacity
  | instanceDemandUnknown
  | instanceProtected
  | instanceNotHighest
  | canceled
  | deadlineExceeded
  | wasStopped (cause : Err) (instanceID : String)
  deriving DecidableEq

/-- A grant names the generation it was handed out for. -/
inductive Outcome where
  | granted (endpoint : String) (specID : String) (gen : ℕ)
  | refused (err : Err)
  deriving DecidableEq

structure ExitErr where
  exitCode : ℤ
  sigkill : Bool := false
  deriving DecidableEq

structure MeasureTarget where
  specID : String
  gen : ℕ
  pid : ℤ
  ready : Bool
  deriving DecidableEq

inductive Command where
  | apply (cfg : Config)
  | ensure (model : String) (reply : ℕ) (serving : Bool)
  | cancelEnsure (reply : ℕ) (err : Option Err)
  | waiterTimeout (specID : String) (reply : ℕ)
  | release (specID : String) (gen : ℕ)
  | childExited (specID : String) (gen : ℕ) (exitErr : ExitErr)
  | startResult (specID : String) (gen : ℕ) (ok : Bool)
  | backoffFire (specID : String)
  | graceExpiry
  | stableRun (specID : String) (gen : ℕ)
  | drainGraceExpired (specID : String) (gen : ℕ)
  | killGraceExpired (specID : String) (gen : ℕ)
  | measured (targets : List MeasureTarget) (byPID : AList (fun _ : ℤ => IntMap))
      (ramByPID : IntMap)
  | stop (model : String)
  | query
  | close
  deriving DecidableEq

/-- The callback a timer was armed with. -/
inductive Purpose where
  | waiter (specID : String) (reply : ℕ)
  | backoff (specID : String)
  | stable (specID : String) (gen : ℕ)
  | drain (specID : String) (gen : ℕ)
  | kill (specID : String) (gen : ℕ)
  | grace
  deriving DecidableEq

def Purpose.cmd : Purpose → Command
  | .waiter specID reply => .waiterTimeout specID reply
  | .backoff specID => .backoffFire specID
  | .stable specID gen => .stableRun specID gen
  | .drain specID gen => .drainGraceExpired specID gen
  | .kill specID gen => .killGraceExpired specID gen
  | .grace => .graceExpiry

/-- A timer is known by its callback and by a serial number; a handle to it
holds the number. -/
structure Timer where
  purpose : Purpose
  serial : ℕ
  delay : ℤ
  deriving DecidableEq

/-- A command some goroutine is blocked on sending, with the timer it is the
callback of. -/
structure Posted where
  cmd : Command
  serial : Option ℕ := none
  deriving DecidableEq

structure Waiter where
  reply : ℕ
  timer : Option ℕ := none
  queuedAt : ℤ
  deriving DecidableEq

/-- One generation of a process. `launch` is the spec it was expanded from. -/
structure Proc where
  gen : ℕ
  specID : String
  pid : ℤ
  port : ℤ
  startedAt : ℤ
  launch : Spec
  everHealthy : Bool := false
  drainTimer : Option ℕ := none
  killTimer : Option ℕ := none
  stableTimer : Option ℕ := none
  deriving DecidableEq

structure SpecState where
  spec : Spec
  instanceIdx : ℤ := 0
  startupMS : ℤ := 0
  waitingOnDemand : Bool := false
  waitingOnSibling : Bool := false
  decidedTurn : ℕ := 0
  state : State := .stopped
  since : ℤ := 0
  proc : Option Proc := none
  inFlight : ℤ := 0
  lastUsed : ℤ := 0
  lastError : Option LastError := none
  failures : ℤ := 0
  hasRunBefore : Bool := false
  restarts : ℤ := 0
  backoffTimer : Option ℕ := none
  backoffOnExit : Bool := false
  intentionalStop : Bool := false
  removed : Bool := false
  measuredVRAM : IntMap := ∅
  measuredRAM : ℤ := 0
  readyVRAM : IntMap := ∅
  readyRAM : ℤ := 0
  vramBootstrapDone : Bool := false
  ramBootstrapRetries : ℤ := 0
  ramBootstrapBeats : ℤ := 0
  waitingOnRAM : Bool := false
  waitingOnGrace : Bool := false
  notPermittedAt : ℤ := 0
  drainedFor : List String := []
  pending : List Waiter := []
  -- what was done for the state, which nothing reads back
  bootstrapVerdicts : ℕ := 0
  bootstrapEvictions : ℕ := 0
  deriving DecidableEq

/-- The place a termination signal was sent from. -/
inductive Cause where
  | drainStarted
  | lastRelease
  | drainGraceExpired
  | startTimeout
  | bootstrapDeadline
  deriving DecidableEq, Repr

/-- A termination signal, with the state of the generation it was sent to. -/
structure Signal where
  specID : String
  gen : ℕ
  inFlight : ℤ
  state : State
  cause : Cause
  deriving DecidableEq

structure Owner where
  appleGPU : Bool := false
  vramHeadroomMB : ℤ := 0
  hostRAMReserveMB : ℤ := 0
  ramBootstrapGuessMB : ℤ := 0
  evictionGrace : ℤ := 0
  ramFreedMB : ℤ := 0
  ramFreedUntilSeq : ℕ := 0
  cfg : Config := {}
  allowedPairs : AList (fun _ : String × String => Bool) := ∅
  specs : AList (fun _ : String => SpecState) := ∅
  byUpstream : AList (fun _ : String => String) := ∅
  graceTimer : Option ℕ := none
  graceTimerAt : ℤ := 0
  closing : Bool := false
  stopped : Bool := false
  measuring : Bool := false
  remeasure : Bool := false
  turn : ℕ := 0
  -- what runs beside the owner
  nextTimer : ℕ := 0
  timers : List Timer := []
  posted : List Posted := []
  nextGen : ℕ := 0
  children : List (String × ℕ) := []
  polling : List (String × ℕ) := []
  measurement : Option (List MeasureTarget) := none
  -- what the owner has sent out
  accepted : List ℕ := []
  answers : List (ℕ × Outcome) := []
  released : List ℕ := []
  signals : List Signal := []

instance lawfulGeneration : LawfulBEq (String × ℕ) := inferInstance

/-- What one look at the outside can return: the clock, the order of a map
range, the policy, the host and the launch of a child. -/
structure Readings where
  now : ℤ
  range : RangeOrder Unit
  ranges : Ranges
  permit : Spec → Option String
  hostInfo : Option HostInfo
  hostSeq : ℕ
  measurer : Option (List ℤ → AList (fun _ : ℤ => IntMap))
  ramMeasurer : Bool
  expandPlaceholders : Spec → Option String
  planSpecConfigFiles : Spec → Option String
  grabEphemeralPort : Except String ℤ
  expandSpec : Spec → ℤ → Option String
  writeSpecConfigFiles : Spec → ℤ → Option String
  start : Spec → ℤ → Except String ℤ
  tail : String

/-- Every look of a turn has a place of its own, named by the calls that led
to it, so no two of them need return the same. -/
def Env := List ℕ → Readings

def Env.here (E : Env) : Readings := E []

def Env.sub (E : Env) (i : ℕ) : Env := fun path => E (i::path)

def SpecState.protected (st : SpecState) : Bool := st.instanceIdx < protectedCount st.spec

def SpecState.pinnedForAdmission (st : SpecState) : Bool :=
  if !st.spec.replicable then st.spec.pinned else st.protected

def SpecState.burst (st : SpecState) : Bool := isBurst st.spec st.instanceIdx

def SpecState.burstLeftNothing (st : SpecState) : Bool :=
  st.burst && !st.removed && st.proc.isNone && st.pending.length = 0

def restsAtFailure (s : State) : Bool := s = .crashed || s = .startFailed || s = .notPermitted

def SpecState.spentBurst (st : SpecState) : Bool := st.burstLeftNothing && restsAtFailure st.state

def SpecState.wantsUp (st : SpecState) : Bool := st.pending.length > 0 || st.protected

def SpecState.runs (st : SpecState) (gen : ℕ) : Bool := st.proc.any (fun p => p.gen = gen)

end OnPremGateway.OwnerModel
