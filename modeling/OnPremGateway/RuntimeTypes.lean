import Mathlib

/-!
# The agent's runtime vocabulary

Launch specs, lifecycle states and the values the admission policy is asked
about. A figure of 0 is an unknown demand and a budget of 0 is no constraint;
both readings belong to the functions that interpret them, not to the data.
Instants and durations count nanoseconds, an instant from the zero time on,
so that `0` is the unset instant.
-/

set_option autoImplicit false

namespace OnPremGateway.RuntimeTypes

abbrev IntMap := AList (fun _ : ℤ => ℤ)

instance decEqMap {α : Type} {β : α → Type} [DecidableEq α] [∀ a, DecidableEq (β a)] :
    DecidableEq (AList β) :=
  fun a b => decidable_of_iff (a.entries = b.entries) AList.ext_iff.symm

def maxDuration : ℤ := 2^63-1
def minDuration : ℤ := -2^63

/-- The difference of two instants saturates at the ends of a duration. -/
def sub (t u : ℤ) : ℤ := max minDuration (min maxDuration (t-u))

theorem lt_of_lt_sub (t u d : ℤ) (hd : 0 < d) (h : d < sub t u) : d < t-u := by
  simp only [sub, minDuration, maxDuration] at h
  omega

/-- An int has 64 bits and wraps around. -/
def wrapInt (n : ℤ) : ℤ := (n+2^63) % 2^64-2^63

theorem wrapInt_sub (n m : ℤ) : wrapInt (wrapInt n-m) = wrapInt (n-m) := by
  simp only [wrapInt]
  omega

theorem wrapInt_eq (n : ℤ) (hmin : -2^63 ≤ n) (hmax : n < 2^63) : wrapInt n = n := by
  rw [wrapInt]
  omega

def valueAt (m : IntMap) (i : ℤ) : ℤ := (m.lookup i).getD 0

structure SpecGPU where
  index : ℤ
  vramMB : ℤ
  deriving DecidableEq, Repr

structure ConfigFile where
  name : String
  content : String
  deriving DecidableEq, Repr

/-- The override an operator pushes with a spec; any other text is carried. -/
inductive AdminState where
  | unset
  | forceRunning
  | forceStopped
  | other (text : String)
  deriving DecidableEq, Repr

structure Spec where
  id : String
  model : String := ""
  upstreamModel : String := ""
  binary : String := ""
  args : List String := []
  env : AList (fun _ : String => String) := ∅
  configFiles : List ConfigFile := []
  workDir : String := ""
  gpus : List SpecGPU := []
  ramMB : ℤ := 0
  listenPort : ℤ := 0
  healthPath : String := ""
  healthTimeoutSeconds : ℤ := 0
  startupTimeoutSeconds : ℤ := 0
  idleTimeoutSeconds : ℤ := 0
  admissionWaitTimeoutSeconds : ℤ := 0
  pinned : Bool := false
  setVisibleDevices : Bool := false
  visibleDevicesMode : String := ""
  adminState : AdminState := .unset
  apiToken : String := ""
  type : String := ""
  metricsPath : String := ""
  contextProbePath : String := ""
  role : String := ""
  replicable : Bool := false
  minInstances : ℤ := 0
  maxInstances : ℤ := 0
  instanceOf : String := ""
  instanceIdx : ℤ := 0
  deriving DecidableEq

inductive State where
  | stopped
  | starting
  | running
  | draining
  | backoff
  | startFailed
  | crashed
  | pendingVRAMUnknown
  | notPermitted
  deriving DecidableEq, Repr

/-- The wire text of a state. -/
def State.text : State → String
  | .stopped => "stopped"
  | .starting => "starting"
  | .running => "running"
  | .draining => "draining"
  | .backoff => "backoff"
  | .startFailed => "start_failed"
  | .crashed => "crashed"
  | .pendingVRAMUnknown => "pending_vram_unknown"
  | .notPermitted => "not_permitted"

def roleOther : String := "other"

def isSpace (c : Char) : Bool :=
  c.val ∈ [0x9, 0xA, 0xB, 0xC, 0xD, 0x20, 0x85, 0xA0, 0x1680, 0x2000, 0x2001, 0x2002,
    0x2003, 0x2004, 0x2005, 0x2006, 0x2007, 0x2008, 0x2009, 0x200A, 0x2028, 0x2029,
    0x202F, 0x205F, 0x3000]

def trimSpace (s : String) : String :=
  String.ofList (((s.toList.dropWhile isSpace).reverse.dropWhile isSpace).reverse)

def roleOf (role : String) : String :=
  let role := (trimSpace role).map Char.toLower
  if role = "" then roleOther else role

structure RunningProc where
  specID : String
  spec : String := ""
  instanceIdx : ℤ := 0
  surplus : Bool := false
  gpus : IntMap := ∅
  ramMB : ℤ := 0
  inFlight : ℤ := 0
  pinned : Bool := false
  role : String := ""
  lastUsed : ℤ := 0
  starting : Bool := false
  deriving DecidableEq

structure PolicySnapshot where
  running : List RunningProc := []
  maxProcesses : ℤ := 0
  now : ℤ := 0
  evictionGrace : ℤ := 0
  budgets : IntMap := ∅
  hostRAMBudgetMB : ℤ := 0
  hostRAMCeilingMB : ℤ := 0
  ramBootstrapInFlight : Bool := false
  ramBootstrapGuessMB : ℤ := 0
  vramBootstrapEligible : Bool := false
  noEvict : Bool := false
  allowed : AList (fun _ : String × String => Bool) := ∅

structure Decision where
  ok : Bool := false
  reason : Option State := none
  message : String := ""
  evict : List String := []
  wait : Bool := false
  waitOnRAM : Bool := false
  waitOnGrace : Bool := false
  vramBootstrap : Bool := false
  noCapacity : Bool := false
  deriving DecidableEq, Repr

def baseOf (r : RunningProc) : String := if r.spec = "" then r.specID else r.spec

def specBase (spec : Spec) : String := if spec.instanceOf = "" then spec.id else spec.instanceOf

def pairKey (a b : String) : String × String := if a ≤ b then (a, b) else (b, a)

def specGPUIndexes (spec : Spec) : List ℤ := spec.gpus.map SpecGPU.index

def specHasUnknownVRAM (spec : Spec) : Bool := spec.gpus.any (fun g => g.vramMB = 0)

def specHasUnknownRAM (spec : Spec) : Bool := spec.ramMB = 0

def needsRAMBootstrap (spec : Spec) (measuredRAMMB : ℤ) : Bool :=
  specHasUnknownRAM spec && measuredRAMMB ≤ 0

theorem specHasUnknownVRAM_iff (spec : Spec) :
    specHasUnknownVRAM spec = true ↔ ∃ g ∈ spec.gpus, g.vramMB = 0 := by
  simp [specHasUnknownVRAM]

end OnPremGateway.RuntimeTypes
