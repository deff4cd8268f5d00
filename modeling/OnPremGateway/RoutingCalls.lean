import OnPremGateway.CallOutcomes
import OnPremGateway.CandidateSelection
import OnPremGateway.RoutingGates

/-!
# Calls of the resolver

A request is resolved by a call. A call that finds everything at its cap parks
in the admission queue and goes through its next turn with what it then finds;
what the queue answers, what each turn finds and what the clock reads is given
with the call. A request whose token is pinned to an application is served
there while the pin is usable.
-/

set_option autoImplicit false

namespace OnPremGateway.RoutingCalls
open RuntimeTypes RoutingTypes CandidateSelection
open RoutingGates CallOutcomes

/-- How a wait in the admission queue ends. -/
inductive Wake where
  | woke (moment : Moment)
  | timeout
  | full
  | ended

/-- The turn a call is in, the waits to come, the clock's readings, and what
the call has sent. -/
structure CallState where
  moment : Moment
  wakes : List Wake := []
  clock : ℕ → ℤ := fun _ => 0
  ticks : ℕ := 0
  signalled : List Demand := []
  warmed : List String := []

abbrev Run (α : Type) := Call RoutingError CallState α

def thisMoment : Run Moment := return (← get).moment

def readClock : Run ℤ := do
  let s ← get
  modify fun s => { s with ticks := s.ticks+1 }
  return s.clock s.ticks

/-! ### Session reservations -/

def touch (window : ℤ) (reservations : Reservations) (serverID key : String) (now : ℤ) :
    Reservations :=
  if window ≤ 0 ∨ serverID = "" ∨ key = "" then reservations
  else
    let sessions := (reservations.lookup serverID).getD ∅
    let stale := (sessions.entries.filter fun e => sub now e.2 ≥ window).map Sigma.fst
    let live := stale.foldl (fun t k => t.erase k) sessions
    reservations.insert serverID (live.insert key now)

variable (r : Resolver) (st : Store) (m : Moment) (app : Application) (key : AffinityKey)
  (pool : List MappingCandidate)

def touchSession (serverID key : String) (now : ℤ) : Run Unit :=
  modify fun s => { s with moment := { s.moment with
    reservations := touch r.reservationWindow s.moment.reservations serverID key now } }

/-! ### Pins -/

def deleteAffinity (key : AffinityKey) : Run Unit :=
  modify fun s =>
    if s.moment.fault (.deleteAffinity key) then s
    else { s with moment := { s.moment with affinities := s.moment.affinities.erase key } }

def upsertAffinity (key : AffinityKey) (what : String) (row : RouteAffinity) : Run Unit := do
  let m ← thisMoment
  lift (readStore m.fault (.upsertAffinity key) what ())
  modify fun s => { s with moment := { s.moment with affinities := s.moment.affinities.insert key row } }

def lookupAffinity : Except RoutingError (Option RouteAffinity) :=
  readStore m.fault (.affinity key) "lookup affinity" (m.affinities.lookup key)

/-! ### Targets -/

def targetFrom (c : MappingCandidate) (apiFlavor : String) :
    Except RoutingError Target := do
  if c.application.type = .serverAgent then
    readStore m.fault (.runtimeSpec c.mapping.id) "load runtime spec" ()
  return {
    routeID := c.mapping.id
    serverID := c.server.id
    model := c.mapping.gatewayModelName
    providerModel := c.address
    instanceKey := c.key
    instanceCapable := c.instanceCapable
    instancePool := c.instancePool
    apiFlavor := apiFlavor }

/-! ### Demand and parking -/

def signalDemand (demands : List Demand) : Run Unit :=
  modify fun s =>
    if r.demand = false ∨ s.moment.hasRoom = false then s
    else { s with signalled := s.signalled ++ demands }

def signalOverflow (req : Request) (d : Option Demand) : Run Unit :=
  modify fun s =>
    if r.demand = false ∨ req.checkOnly then s
    else { s with signalled := s.signalled ++ d.toList }

def admissionStart (req : Request) (now : ℤ) : ℤ :=
  if req.admissionStart = 0 ∨ req.admissionStart > now then now else req.admissionStart

def deadlineOf (req : Request) (now queueSecs : ℤ) : ℤ :=
  if queueSecs > 0 then admissionStart req now + queueSecs*10^9 else 0

def parkTurn (deadline : ℤ) (demands : List Demand) : Run Unit := do
  if deadline ≠ 0 then
    let t ← readClock
    if sub deadline t ≤ 0 then throw .queueTimeout
  signalDemand r demands

def waitForSlot (w : Wake) (later : List Wake) : Run Unit :=
  match w with
  | .woke m => modify fun s => { s with moment := m, wakes := later }
  | .timeout => do
    modify fun s => { s with wakes := later }
    throw .queueTimeout
  | .full => do
    modify fun s => { s with wakes := later }
    throw .queueFull
  | .ended => do
    modify fun s => { s with wakes := later }
    throw .contextEnded

/-! ### The pinned server -/

def liveSlotFree (judgeLive : Bool) :
    List MappingCandidate :=
  match m.liveSlots with
  | none => pool
  | some held => if judgeLive then pool.filter fun c => !held c.key else pool

def pinnedChoice (preferred : String) :
    Option MappingCandidate :=
  let least := leastLoadedInstances m pool
  let sel :=
    match pool.find? fun c => c.key = preferred with
    | some c => some c
    | none =>
      match least.find? fun c => memberLoaded m c with
      | some c => some c
      | none => least.head?
  sel.map fun c => { c with instancePool := true }

def pinnedTurn (req : Request)
    (preferred : String) (now : ℤ) (judgeLive : Bool) (serverID : String) :
    Option MappingCandidate × Option Demand :=
  let free := pool.filter fun c => underCap r m c now judgeLive
  if free.isEmpty = false then (pinnedChoice m free preferred, none)
  else
    let slotFree := liveSlotFree m pool judgeLive
    let demand := (instanceDemand pool req).map fun d => { d with serverID := serverID }
    let waits := req.liveSession || slotFree.isEmpty
    if !waits || neverParks req || !r.admission then
      (pinnedChoice m (if slotFree.isEmpty then pool else slotFree) preferred, demand)
    else (none, demand)

def pinnedOnce (pinned : MappingCandidate) (req : Request) (preferred : String)
    (deadline : ℤ) (parked : Bool) (now : ℤ) (again : Run (MappingCandidate × Bool)) :
    Run (MappingCandidate × Bool) := do
  let m ← thisMoment
  let judgeLive := m.liveSlots.isSome && needsFreeLiveSlot req
  let turn := expandInstances [pinned] m.instances
  if (turn.head?.map MappingCandidate.instanceCapable) ≠ some true then return (pinned, parked)
  else
    let pool := turn.filter fun c => !excluded req c
    if pool.isEmpty then throw .pinnedInstancesGone
    else
      match pinnedTurn r m pool req preferred now judgeLive pinned.server.id with
      | (some c, demand) =>
        signalOverflow r req demand
        return (c, parked)
      | (none, demand) =>
        parkTurn r deadline demand.toList
        again

def pinnedTurns (r : Resolver) (pinned : MappingCandidate) (req : Request) (preferred : String)
    (servesNow : Run Unit) (deadline : ℤ) : List Wake → Bool → ℤ → Run (MappingCandidate × Bool)
  | [], parked, now =>
    pinnedOnce r pinned req preferred deadline parked now (throw .parked)
  | w::later, parked, now =>
    pinnedOnce r pinned req preferred deadline parked now (do
      waitForSlot w later
      servesNow
      let now ← readClock
      pinnedTurns r pinned req preferred servesNow deadline later true now)

def selectPinned (pinned : MappingCandidate) (req : Request) (preferred : String)
    (now : ℤ) (servesNow : Run Unit) : Run (MappingCandidate × Bool) := do
  let s ← get
  let deadline := deadlineOf req now pinned.application.admissionQueueTimeoutSeconds
  pinnedTurns r pinned req preferred servesNow deadline s.wakes false now

/-! ### A token's pin -/

def affinityApplicationStale (affinity : RouteAffinity) (fineFlavor : String) :
    Bool :=
  app.affinityTTLSeconds ≤ 0 || app.serverID ≠ affinity.serverID || app.status ≠ .active ||
    !applicationServesEndpoint app fineFlavor

def affinityServer :
    Except RoutingError (Option AIServer) := do
  let found ← readStore m.fault (.server app.serverID) "load affinity server"
    (st.serverByID app.serverID)
  return found.filter fun server =>
    candidateServesNow m ⟨server, app, ⟨"", "", "", "", .other "", 0, 0, 0, 0, 0, 0, 0⟩, 0, false, 0, false⟩

def affinityServesNow : Run Unit := do
  let m ← thisMoment
  match ← lift (affinityServer st m app) with
  | none => throw .pinServerUnusable
  | some _ => return ()

def activeMappingForApplication (applicationID gatewayModel : String) :
    Except RoutingError (Option ModelMapping) := do
  let mappings ← readStore m.fault (.mappingsOf applicationID) "load application mappings"
    (st.mappingsByApplication applicationID)
  return mappings.find? fun mapping =>
    mapping.status = .active && mapping.gatewayModelName = gatewayModel

def affinityCapable (mappingID : String) (required : List String) : Bool :=
  required.isEmpty ||
    (!m.fault (.capabilities mappingID) && capabilityRowsSatisfy (st.capabilities mappingID) required)

def loadAffinity (fineFlavor : String) (now : ℤ) :
    Run (Option (RouteAffinity × Application)) := do
  let m ← thisMoment
  match ← lift (lookupAffinity m key) with
  | none => return none
  | some affinity =>
    if affinity.expiresAt ≤ now then
      deleteAffinity key
      return none
    else
      match ← lift (readStore m.fault (.application affinity.applicationID)
          "load affinity application" (st.applicationByID affinity.applicationID)) with
      | none =>
        deleteAffinity key
        return none
      | some app =>
        if affinityApplicationStale app affinity fineFlavor then
          deleteAffinity key
          return none
        else return some (affinity, app)

def refreshAffinity (affinity : RouteAffinity) (instanceIdx : ℤ) (parked : Bool)
    (now : ℤ) : Run Unit := do
  let write := fun (row : RouteAffinity) (now : ℤ) =>
    upsertAffinity key "update affinity"
      { row with instanceIdx := instanceIdx, lastUsedAt := now, updatedAt := now }
  if parked then
    let m ← thisMoment
    match ← lift (lookupAffinity m key) with
    | none => return ()
    | some cur =>
      if cur.applicationID ≠ affinity.applicationID ∨ cur.serverID ≠ affinity.serverID then
        return ()
      else
        let now ← readClock
        write cur now
  else write affinity now

/-- The request served from a usable pin; `none` lets the caller select afresh. -/
def resolveAffinity (token : Token) (key : AffinityKey) (req : Request)
    (now : ℤ) : Run (Option Target) := do
  match ← loadAffinity st key req.apiFlavor now with
  | none => return none
  | some (affinity, app) =>
    let m ← thisMoment
    match ← lift (affinityServer st m app) with
    | none =>
      deleteAffinity key
      return none
    | some server =>
      match ← lift (activeMappingForApplication st m app.id key.model) with
      | none =>
        deleteAffinity key
        return none
      | some mapping =>
        if affinityCapable st m mapping.id req.requiredCapabilities = false then return none
        else
          let provisioned ← lift (serverProvisioned r token server.id)
          if provisioned = false then return none
          else
            let pinned : MappingCandidate := ⟨server, app, mapping, 0, false, 0, false⟩
            let preferred := instanceKey mapping.id affinity.instanceIdx
            match ← attempt (selectPinned r pinned req preferred now (affinityServesNow st app)) with
            | .error .pinServerUnusable => return none
            | .error e => throw e
            | .ok (sel, parked) =>
              refreshAffinity key affinity sel.instanceIdx parked now
              let m ← thisMoment
              let target ← lift (targetFrom m sel key.apiFlavor)
              return some target

end OnPremGateway.RoutingCalls
