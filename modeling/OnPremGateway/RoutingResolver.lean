import OnPremGateway.RoutingGroups

/-!
# Resolving a request

A request that names a server is served there or not at all. One for a group is
resolved by its members, any other by its token's pin and then by a fresh
selection among the candidates the gates leave. A request that carries a
capability is never pinned.
-/

set_option autoImplicit false

namespace OnPremGateway.RoutingResolver
open RuntimeTypes InstanceModel RoutingTypes CandidateSelection
open RoutingGates CallOutcomes RoutingCalls
open RoutingGroups

variable (r : Resolver) (st : Store) (token : Token) (req : Request) (apiFlavor : String) (now : ℤ)

def freshCandidates (fault : StoreRead → Bool) (token : Token)
    (req : Request) (apiFlavor : String) :
    Except RoutingError (List MappingCandidate × Option VoiceScope) := do
  let cands ← readStore fault (.activeMappings req.model apiFlavor) "resolve mappings"
    (st.activeMappingsForModel req.model apiFlavor)
  let cands ← filterProvisioned r token cands
  let served := filterServesEndpoint cands req.apiFlavor
  let capable ← filterCapable st fault served req.requiredCapabilities
  if served.isEmpty = false ∧ capable.isEmpty ∧ req.requiredCapabilities.isEmpty = false then
    throw .modelNotCapable
  else if capable.isEmpty then throw .noModelRoute
  else
    let voice ← voiceScopeFor st fault req.requiredVoice capable
    let cands ← filterRealtime r (restrict voice capable) req
    return (cands, voice)

structure Fresh where
  token : Token
  req : Request
  key : AffinityKey
  apiFlavor : String
  keepPin : Bool
  candidates : List MappingCandidate
  voice : Option VoiceScope
  deadline : ℤ

def serveFresh (f : Fresh) (selected : MappingCandidate) (now : ℤ) : Run Target := do
  let m ← thisMoment
  let target ← lift (targetFrom m selected f.apiFlavor)
  if !f.keepPin && f.token.id ≠ "" && selected.application.affinityTTLSeconds > 0 &&
      f.req.requiredCapabilities.isEmpty then
    upsertAffinity f.key "store affinity" {
      userID := f.token.userID
      applicationID := selected.application.id
      serverID := selected.server.id
      instanceIdx := selected.instanceIdx
      expiresAt := now + selected.application.affinityTTLSeconds*10^9
      lastUsedAt := now
      createdAt := now
      updatedAt := now }
    touchSession r selected.server.id (r.affinityID f.key) now
    return target
  else return target

def freshTurn (f : Fresh) (now : ℤ) (again : Run Target) : Run Target := do
  let m ← thisMoment
  match selectCandidate r m (expandInstances f.candidates m.instances) f.req now with
  | .error (.allAtCapacity ac) =>
    if neverParks f.req then
      match ← lift (selectWithoutParking r m ac f.req.model (audioRequest f.req) now) with
      | none => throw (refine f.voice .noHealthyHost)
      | some selected =>
        signalOverflow r f.req ac.demand
        serveFresh r f selected now
    else
      parkTurn r f.deadline ac.demand.toList
      again
  | .error e => throw e
  | .ok none => throw (refine f.voice .noHealthyHost)
  | .ok (some selected) => serveFresh r f selected now

def freshTurns (r : Resolver) (f : Fresh) : List Wake → ℤ → Run Target
  | [], now => freshTurn r f now (throw .parked)
  | w::later, now =>
    freshTurn r f now (do
      waitForSlot w later
      let now ← readClock
      freshTurns r f later now)

def resolveFresh (key : AffinityKey)
    (apiFlavor : String) (keepPin : Bool) (start now : ℤ) : Run Target := do
  let m ← thisMoment
  let (candidates, voice) ← lift (freshCandidates r st m.fault token req apiFlavor)
  let secs := maxQueueTimeoutSecs candidates
  let deadline := if secs > 0 then start + secs*10^9 else 0
  let s ← get
  freshTurns r ⟨token, req, key, apiFlavor, keepPin, candidates, voice, deadline⟩ s.wakes now

def resolveModel (key : AffinityKey)
    (apiFlavor : String) (now : ℤ) : Run Target := do
  let start := admissionStart req now
  if token.id ≠ "" ∧ req.requiredVoice = "" then
    match ← attempt (resolveAffinity r st token key req now) with
    | .error .pinnedInstancesGone =>
      let now ← readClock
      resolveFresh r st token req key apiFlavor true start now
    | .error e => throw e
    | .ok (some target) =>
      let t ← readClock
      touchSession r target.serverID (r.affinityID key) t
      return target
    | .ok none =>
      let now ← readClock
      resolveFresh r st token req key apiFlavor false start now
  else resolveFresh r st token req key apiFlavor false start now

def affinityKeyOf : AffinityKey :=
  ⟨token.id, req.model, apiFlavor, if r.legacyAffinity then req.sessionID else req.clientSessionID⟩

@[simp] theorem affinityKeyOf_model : (affinityKeyOf r token req apiFlavor).model = req.model := rfl

@[simp] theorem affinityKeyOf_apiFlavor : (affinityKeyOf r token req apiFlavor).apiFlavor = apiFlavor := rfl

def pinKey : AffinityKey :=
  affinityKeyOf r token req (normalizeAPIFlavor req.apiFlavor)

def resolveStandard : Run Target :=
  let key := affinityKeyOf r token req apiFlavor
  match r.groups with
  | none => resolveModel r st token req key apiFlavor now
  | some groups =>
    match groups.group req.model with
    | some (members, policy) =>
      if groups.directAllowed req.model = false then throw .noModelRoute
      else resolveGroup r st
        { token := token, req := req, key := key, apiFlavor := apiFlavor, members := members
          policy := policy, now := now }
    | none =>
      if groups.directAllowed req.model = false then throw .noModelRoute
      else resolveModel r st token req key apiFlavor now

/-! ### A server the request names -/

def overrideServes (m : Moment) (server : AIServer) (appID : String) (req : Request) : Bool :=
  if server.status = .disabled then false
  else
    let reachable := server.healthStatus ≠ .unhealthy &&
      (match m.reachable with | none => true | some reachable => reachable appID)
    reachable || req.serverOverrideForceUnreachable

def overrideServesNow (pinned : MappingCandidate) (req : Request) : Run Unit := do
  let m ← thisMoment
  match ← lift (readStore m.fault (.server pinned.server.id) "load override server"
      (st.serverByID pinned.server.id)) with
  | none => throw .serverOverrideServerUnavailable
  | some server =>
    if overrideServes m server pinned.application.id req then return ()
    else throw .serverOverrideServerUnavailable

def overrideCandidates (fault : StoreRead → Bool) (req : Request)
    (apiFlavor : String) : Except RoutingError (List MappingCandidate) := do
  let candidates ← readStore fault (.activeMappings req.model apiFlavor) "resolve mappings"
    (st.activeMappingsForModel req.model apiFlavor)
  let mine := candidates.filter fun c => c.server.id = req.serverOverrideID
  let mine ← filterCapable st fault (filterServesEndpoint mine req.apiFlavor)
    req.requiredCapabilities
  filterRealtime r mine req

/-- The real-time gate leaves a candidate or fails, so none is left only where
the server does not offer the model. -/
def resolveServerOverride : Run Target := do
  let m ← thisMoment
  match ← lift (overrideCandidates r st m.fault req apiFlavor) with
  | [] => throw .serverOverrideModelUnavailable
  | pinned::_ =>
    if !overrideServes m pinned.server pinned.application.id req then
      throw .serverOverrideServerUnavailable
    else
      match ← attempt (selectPinned r pinned req req.preferredInstanceKey now
          (overrideServesNow st pinned req)) with
      | .error .pinnedInstancesGone => throw .noHealthyHost
      | .error e => throw e
      | .ok (c, _) =>
        let m ← thisMoment
        lift (targetFrom m c apiFlavor)

/-- Vendor accounts are left out. -/
def resolve : Run Target :=
  let apiFlavor := normalizeAPIFlavor req.apiFlavor
  if req.serverOverrideID ≠ "" then resolveServerOverride r st req apiFlavor now
  else resolveStandard r st token req apiFlavor now

/-! ### An instance found gone -/

/-- A sign or a leading zero is no index. -/
def instanceIdx (target : Target) : ℤ :=
  match splitLast target.instanceKey.toList with
  | none => 0
  | some (_, suffix) =>
    if suffix.isEmpty || !suffix.all (fun c => '0' ≤ c && c ≤ '9') then 0
    else
      let k := atoi suffix
      if k > maxInstanceIndex ∨ toString k ≠ String.ofList suffix then 0 else k

def reselectable (target : Target) (req : Request) : Bool :=
  instanceIdx target ≥ 1 && req.excludeInstanceKeys.isEmpty

def withLostInstance (lost : Target) : Request :=
  { req with excludeInstanceKeys := req.excludeInstanceKeys ++ [lost.instanceKey] }

end OnPremGateway.RoutingResolver
