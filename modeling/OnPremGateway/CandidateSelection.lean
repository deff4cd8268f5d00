import OnPremGateway.RoutingTypes

/-!
# Candidate selection

A candidate list is expanded into the running instances of its mappings and
cut by the gates every request passes first. What is left is narrowed by
preferences: the context window, the capacity cap, the protection of a server
that serves another model, the loaded and the starting partition, and at last
the score. A selection is an error, no candidate, or the candidate selected.
-/

set_option autoImplicit false

namespace OnPremGateway.CandidateSelection
open RuntimeTypes InstanceModel RoutingTypes

abbrev Selection := Except RoutingError (Option MappingCandidate)

/-! ### Instances -/

def instanceIndexes : List ℤ → List ℤ → List ℤ
  | _, [] => []
  | seen, k::ks =>
    if k < 1 ∨ k > maxInstanceIndex ∨ k ∈ seen then instanceIndexes seen ks
    else k :: instanceIndexes (k::seen) ks

def expandCandidate (src : String → ModelMapping → Option InstanceView) (c : MappingCandidate) :
    List MappingCandidate :=
  if c.application.type ≠ .serverAgent then [c]
  else
    match src c.server.id c.mapping with
    | none => [c]
    | some view =>
      let c := { c with instanceCapable := true, instanceParallelism := max view.parallelism 1 }
      c :: (instanceIndexes [] view.running).map fun k => { c with instanceIdx := k }

def expandInstances (cands : List MappingCandidate)
    (src : Option (String → ModelMapping → Option InstanceView)) : List MappingCandidate :=
  match src with
  | none => cands
  | some src => cands.flatMap (expandCandidate src)

/-! ### The gates every candidate passes first -/

def serverSelectable (server : AIServer) : Bool :=
  server.status = .active && server.healthStatus ≠ .unhealthy

def candidateServesNow (m : Moment) (c : MappingCandidate) : Bool :=
  serverSelectable c.server &&
    (match m.reachable with | none => true | some reachable => reachable c.application.id) &&
    (match m.busy with | none => true | some busy => !busy c.server.id)

/-! ### Scoring -/

structure Route where
  model : String
  healthy : Bool := true
  priority : ℤ := 0
  weight : ℤ := 0
  activeRequests : ℤ := 0
  queueDepth : ℤ := 0
  latencyMS : ℤ := 0
  errorRate : Option ℚ := some 0
  telemetryAt : ℤ := 0
  genTokensPerSecond : ℚ := 0
  promptTokensPerSecond : ℚ := 0
  recommendedConcurrency : ℤ := 0
  genTokensPerSecondAtCapacity : ℚ := 0
  currentLoad : ℤ := 0
  audioRateX : ℚ := 0
  audio : Bool := false
  deriving DecidableEq, Repr

variable (r : Resolver) (m : Moment) (c : MappingCandidate) (pool : List MappingCandidate)
  (model : String) (req : Request)

def scoringRoute (tel : ServerTelemetry) (hasTel : Bool) (k : ℤ)
    (model : String) (audio : Bool) : Route where
  model := model
  priority := c.application.priority
  weight := c.application.weight
  activeRequests := tel.activeRequests
  queueDepth := tel.queueDepth
  latencyMS := tel.latencyMS
  errorRate := tel.errorRate
  telemetryAt := if hasTel then tel.reportedAt else 0
  genTokensPerSecond := c.mapping.genTokensPerSecond
  promptTokensPerSecond := c.mapping.promptTokensPerSecond
  recommendedConcurrency := c.mapping.recommendedConcurrency
  genTokensPerSecondAtCapacity := c.mapping.genTokensPerSecondAtCapacity
  currentLoad := k
  audioRateX := c.mapping.audioRateX
  audio := audio

def clampBonus (v weight capValue : ℚ) : ℚ :=
  if v ≤ 0 then 0 else if v*weight > capValue then capValue else v*weight

def effectiveGenTPS (route : Route) : ℚ :=
  let g1 := route.genTokensPerSecond
  let gCap := route.genTokensPerSecondAtCapacity
  let knee := route.recommendedConcurrency
  if g1 ≤ 0 then g1
  else if gCap ≤ 0 ∨ knee ≤ 1 ∨ route.currentLoad ≤ 1 then g1
  else
    let slope := (gCap-g1)/((knee-1 : ℤ) : ℚ)
    let eff := g1 + slope*((route.currentLoad-1 : ℤ) : ℚ)
    if eff < 0 then 0 else eff

def audioTiebreak (rateX : ℚ) : ℚ := clampBonus rateX 10 50

def metricTiebreak (route : Route) : ℚ :=
  clampBonus (effectiveGenTPS route) (1/4) 50 + clampBonus route.promptTokensPerSecond (1/100) 20 +
    (if route.audio then audioTiebreak route.audioRateX else 0)

/-- The error rate of telemetry that counts: a number from 0 to 1, with no
negative counter beside it. -/
def validTelemetry (route : Route) : Option ℚ :=
  if route.activeRequests < 0 ∨ route.queueDepth < 0 ∨ route.latencyMS < 0 then none
  else route.errorRate.filter fun e => 0 ≤ e && e ≤ 1

def staleTelemetryDuration : ℤ := 120*10^9

def score (route : Route) (model : String) (now : ℤ) : Option ℚ :=
  if route.model ≠ model ∨ route.healthy = false then none
  else
    match validTelemetry route with
    | none => none
    | some errorRate =>
      let base := 1000 + (route.priority : ℚ)*20 + route.weight - (route.activeRequests : ℚ)*25
        - (route.queueDepth : ℚ)*20 - (route.latencyMS : ℚ)*(1/5) - errorRate*200
        - (if route.telemetryAt = 0 ∨ sub now route.telemetryAt > staleTelemetryDuration then 500 else 0)
      if base ≤ 0 then none else some (base + metricTiebreak route)

def runtimeModelState : RuntimeModelState :=
  match m.runtimeState with
  | none => {}
  | some state => state c.server.id c.address

def mergeRuntimeModelMetrics (tel : Option ServerTelemetry)
    (now : ℤ) : Option ServerTelemetry :=
  let live := runtimeModelState m c
  if live.metricsKnown = false then tel
  else
    let tel := tel.getD { reportedAt := now }
    some { tel with activeRequests := live.active, queueDepth := live.queue }

def telemetryOf (serverID : String) : Except RoutingError (Option ServerTelemetry) :=
  readStore m.fault (.telemetry serverID) "load server telemetry" (m.telemetry serverID)

def currentLoad (tel : Option ServerTelemetry) : ℤ :=
  match m.activity with
  | none => (tel.getD {}).activeRequests
  | some activity => (activity c.server.id).inFlight

def candidateScore (now : ℤ) (model : String) (audio : Bool)
    (tel : Option ServerTelemetry) (c : MappingCandidate) : Option ℚ :=
  let merged := mergeRuntimeModelMetrics m c tel now
  score (scoringRoute c (merged.getD {}) merged.isSome (currentLoad m c tel) model audio) model now

def keepBest (best : Option (MappingCandidate × ℚ)) (c : MappingCandidate) :
    Option ℚ → Option (MappingCandidate × ℚ)
  | none => best
  | some s =>
    match best with
    | none => some (c, s)
    | some b => if s > b.2 then some (c, s) else some b

def argmaxFrom (m : Moment) (now : ℤ) (model : String) (audio : Bool) :
    Option (MappingCandidate × ℚ) → List MappingCandidate → Selection
  | best, [] => .ok (best.map Prod.fst)
  | best, c::cs => do
    let tel ← telemetryOf m c.server.id
    argmaxFrom m now model audio (keepBest best c (candidateScore m now model audio tel c)) cs

def argmaxByScore (audio : Bool)
    (now : ℤ) : Selection :=
  argmaxFrom m now model audio none pool

def candidateEffectiveGenTPS :
    Except RoutingError ℚ := do
  let tel ← telemetryOf m c.server.id
  return effectiveGenTPS
    (scoringRoute c (tel.getD {}) tel.isSome (currentLoad m c tel) model false)

/-! ### Partitions -/

def modelLoadedOn (loaded : String → String → List String) (c : MappingCandidate) : Bool :=
  (loaded c.application.id c.server.id).contains c.address

def memberLoaded : Bool :=
  match m.loaded with
  | none => false
  | some loaded => modelLoadedOn loaded c

def runtimeStateStarting : String := "starting"

def modelStartingOn : Bool :=
  let live := runtimeModelState m c
  live.known && live.state = runtimeStateStarting

def orElse (first next : Selection) : Selection := do
  match ← first with
  | some c => return some c
  | none => next

def preferScored (audio : Bool)
    (now : ℤ) (preferred : String) : Selection :=
  if preferred = "" then argmaxByScore m pool model audio now
  else
    match pool.find? fun c => c.key = preferred with
    | none => argmaxByScore m pool model audio now
    | some c => orElse (argmaxByScore m [c] model audio now) (argmaxByScore m pool model audio now)

def preferPartition (inPart : MappingCandidate → Bool)
    (model : String) (audio : Bool) (now : ℤ) (preferred : String) : Selection :=
  if (pool.filter inPart).isEmpty then .ok none
  else preferScored m (pool.filter inPart) model audio now preferred

def selectFromPool (audio : Bool)
    (now : ℤ) (preferred : String) : Selection :=
  let scored := preferScored m pool model audio now preferred
  let starting :=
    match m.runtimeState with
    | none => scored
    | some _ => orElse (preferPartition m pool (modelStartingOn m) model audio now preferred) scored
  match m.loaded with
  | none => starting
  | some loaded =>
    orElse (preferPartition m pool (modelLoadedOn loaded) model audio now preferred) starting

/-- Routing here would evict a model in use: the server is serving, or was
within the window, and the candidate's own model is not loaded. -/
def swapProtected (activity : String → ServerActivity) (now : ℤ)
    (c : MappingCandidate) : Bool :=
  let a := activity c.server.id
  !memberLoaded m c && (a.inFlight > 0 || (r.swapProtectWindow > 0 && a.lastCompletedAt ≠ 0 &&
        sub now a.lastCompletedAt < r.swapProtectWindow))

def selectWithSwapProtection (audio : Bool) (now : ℤ) (preferred : String) : Selection :=
  let whole := selectFromPool m pool model audio now preferred
  match m.activity with
  | none => whole
  | some activity =>
    let unprotected := pool.filter fun c => !swapProtected r m activity now c
    if unprotected.isEmpty ∨ pool.length ≤ unprotected.length then whole
    else orElse (selectFromPool m unprotected model audio now preferred) whole

/-! ### The capacity cap -/

def liveSessions (window : ℤ) (sessions : AList (fun _ : String => ℤ)) (now : ℤ) :
    List (Sigma fun _ : String => ℤ) :=
  sessions.entries.filter fun e => sub now e.2 < window

def activeCount (window : ℤ) (reservations : Reservations) (serverID : String) (now : ℤ) : ℤ :=
  if window ≤ 0 ∨ serverID = "" then 0
  else
    match reservations.lookup serverID with
    | none => 0
    | some sessions => (liveSessions window sessions now).length

def underCap (now : ℤ) (judgeLive : Bool) :
    Bool :=
  let held := match m.liveSlots with | none => false | some liveHeld => liveHeld c.key
  if judgeLive && held then false
  else if c.instanceCapable then
    match m.instanceActivity with
    | none => true
    | some load => load c.key < c.instanceParallelism
  else if c.mapping.maxConcurrency ≤ 0 then true
  else
    match m.activity with
    | none => true
    | some activity =>
      (activity c.server.id).inFlight <
        c.mapping.maxConcurrency - activeCount r.reservationWindow m.reservations c.server.id now

def needsFreeLiveSlot : Bool :=
  req.liveSession || req.requiredCapabilities.contains capabilityTranscription

def audioRequest : Bool :=
  req.requiredCapabilities.contains capabilitySpeech ||
    req.requiredCapabilities.contains capabilityTranscription

def neverParks : Bool := req.noPark || req.checkOnly

def demandMappings (pool : List MappingCandidate) : List String :=
  pool.foldl (fun ids c =>
    if c.instanceCapable && c.mapping.gatewayModelName = model && !ids.contains c.mapping.id then
      ids ++ [c.mapping.id]
    else ids) []

def instanceDemand : Option Demand :=
  (pool.find? fun c => c.instanceCapable).map fun c =>
    { model := c.mapping.gatewayModelName
      apiFlavor := normalizeAPIFlavor req.apiFlavor
      mappingIDs := demandMappings c.mapping.gatewayModelName pool
      live := req.liveSession }

def preferredInstance (now : ℤ) (judgeLive : Bool) : String :=
  if req.preferredInstanceKey = "" then ""
  else
    match pool.find? fun c => c.instanceCapable && c.key = req.preferredInstanceKey with
    | none => ""
    | some c => if underCap r m c now judgeLive then req.preferredInstanceKey else ""

def judgesLive (instancePool : Bool) : Bool :=
  instancePool && m.liveSlots.isSome && needsFreeLiveSlot req

def selectUnderCap (now : ℤ) (instancePool : Bool) : Selection :=
  let judgeLive := judgesLive m req instancePool
  let preferred := preferredInstance r m pool req now judgeLive
  let select := fun pool =>
    selectWithSwapProtection r m pool req.model (audioRequest req) now preferred
  if m.activity.isSome || m.instanceActivity.isSome || judgeLive then
    let capped := pool.filter fun c => underCap r m c now judgeLive
    if capped.isEmpty then
      if r.admission then .error (.allAtCapacity ⟨instanceDemand pool req, pool, instancePool⟩)
      else select pool
    else if capped.length < pool.length then orElse (select capped) (select pool)
    else select pool
  else select pool

/-! ### The selection -/

def fields (s : String) : List (List Char) := (s.toList.splitBy fun a b => isSpace a == isSpace b).filter
  fun word => word.any fun c => !isSpace c

def estInputTokens : ℤ :=
  let words := (req.messages.map fun text => ((fields text).length : ℤ)).sum
  words*13/10+1

def requestFitsContext (contextSize need : ℤ) : Bool := contextSize ≤ 0 || need ≤ contextSize

def excluded (c : MappingCandidate) : Bool := req.excludeInstanceKeys.contains c.key

def reachableNow (candidates : List MappingCandidate) (req : Request) :
    List MappingCandidate :=
  candidates.filter fun c => !excluded req c && candidateServesNow m c

def contextFit (reachable : List MappingCandidate) (req : Request) : List MappingCandidate :=
  let need := wrapInt (estInputTokens req+req.maxTokens)
  let fit := reachable.filter fun c => requestFitsContext c.mapping.contextSize need
  if fit.isEmpty then reachable else fit

def hasInstance : Bool := pool.any MappingCandidate.instanceCapable

def markPool (instancePool : Bool) (sel : Selection) : Selection :=
  sel.map fun found => found.map fun c => { c with instancePool := instancePool }

def selectCandidate (candidates : List MappingCandidate)
    (req : Request) (now : ℤ) : Selection :=
  let reachable := reachableNow m candidates req
  if reachable.isEmpty then .ok none
  else
    let pool := contextFit reachable req
    markPool (hasInstance pool) (selectUnderCap r m pool req now (hasInstance pool))

/-! ### A request that must not park -/

def leastLoadedFrom (load : MappingCandidate → ℤ) :
    List MappingCandidate → ℤ → List MappingCandidate → List MappingCandidate
  | least, _, [] => least
  | least, low, c::cs =>
    if c.instanceCapable = false then leastLoadedFrom load least low cs
    else if least.isEmpty ∨ load c < low then leastLoadedFrom load [c] (load c) cs
    else if load c = low then leastLoadedFrom load (least ++ [c]) low cs
    else leastLoadedFrom load least low cs

def leastLoadedInstances : List MappingCandidate :=
  leastLoadedFrom (fun c => match m.instanceActivity with | none => 0 | some load => load c.key)
    [] 0 pool

def selectWithoutParking (ac : AtCapacity) (model : String)
    (audio : Bool) (now : ℤ) : Selection :=
  let least := leastLoadedInstances m ac.pool
  let whole := selectWithSwapProtection r m ac.pool model audio now ""
  markPool ac.instancePool
    (if least.isEmpty then whole
     else orElse (selectWithSwapProtection r m least model audio now "") whole)

end OnPremGateway.CandidateSelection
