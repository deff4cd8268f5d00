import OnPremGateway.SliceOrder
import OnPremGateway.RoutingCalls

/-!
# Model groups

A group is served by one of its members: the pinned one, a better one the
session may climb to, or the first available one in the group's order. The
loaded-only filter and the speed floor are dropped one after the other when no
member is left; a voice and the real-time gate are not.
-/

set_option autoImplicit false

namespace OnPremGateway.RoutingGroups
open RuntimeTypes RoutingTypes CandidateSelection
open RoutingGates CallOutcomes RoutingCalls
open SliceOrder

structure GroupWalk where
  policy : GroupPolicy
  voice : Option VoiceScope
  realtime : Bool

structure GroupResolve where
  token : Token
  req : Request
  key : AffinityKey
  apiFlavor : String
  members : List GroupMember
  policy : GroupPolicy
  now : ℤ
  voice : Option VoiceScope := none

def GroupResolve.walk (g : GroupResolve) : GroupWalk := ⟨g.policy, g.voice, g.req.realtimeRequired⟩

/-! ### A member's candidates -/

def meetingFloor (m : Moment) (name : String) (floor : ℚ) :
    List MappingCandidate → Except RoutingError (List MappingCandidate)
  | [] => .ok []
  | c::cs => do
    let tps ← candidateEffectiveGenTPS m c name
    let rest ← meetingFloor m name floor cs
    return if floor ≤ tps then c::rest else rest

variable (r : Resolver) (st : Store) (m : Moment) (cands : List MappingCandidate) (g : GroupResolve)
  (name : String)

def filterBySpeedFloor (minTokensPerSecond : ℚ) : Except RoutingError (List MappingCandidate) :=
  if minTokensPerSecond ≤ 0 then .ok cands else meetingFloor m name minTokensPerSecond cands

def filterLoaded (loadedOnly : Bool) :
    List MappingCandidate :=
  match m.loaded with
  | none => cands
  | some loaded => if loadedOnly then cands.filter (modelLoadedOn loaded) else cands

def gatedCandidates (token : Token) (name apiFlavor : String)
    (req : Request) (gw : GroupWalk) : Except RoutingError (List MappingCandidate) := do
  let cands ← memberPool r st m.fault token name apiFlavor req.apiFlavor req.requiredCapabilities
  let cands := restrict gw.voice cands
  return if gw.realtime then cands.filter fun c => !tooSlowForRealtime r c else cands

def eligibleCandidates (token : Token)
    (name apiFlavor : String) (req : Request) (gw : GroupWalk) :
    Except RoutingError (List MappingCandidate × Bool) := do
  let cands ← gatedCandidates r st m token name apiFlavor req gw
  if cands.isEmpty then return ([], false)
  else
    let cands ← filterBySpeedFloor m (expandInstances cands m.instances) name
      gw.policy.minTokensPerSecond
    return (filterLoaded m cands gw.policy.loadedOnly, true)

/-! ### A member's status -/

structure ParkMaterial where
  servers : List String := []
  queueSecs : ℤ := 0
  demand : List Demand := []
  first : Option (String × AtCapacity) := none

def ParkMaterial.add (p m : ParkMaterial) : ParkMaterial where
  servers := p.servers ++ m.servers
  queueSecs := max p.queueSecs m.queueSecs
  first := p.first <|> m.first
  demand := m.demand.foldl (fun known d =>
    if known.any (fun k => k.model = d.model) then known else known ++ [d]) p.demand

inductive MemberStatus where
  | noMapping
  | unavailable
  | ok (sel : MappingCandidate)
  | atCapacity (pm : ParkMaterial)

def distinctStrings (xs : List String) : List String := xs.reverse.dedup.reverse

def distinctServerIDs : List String :=
  distinctStrings (cands.map fun c => c.server.id)

def maxQueueTimeoutSecs : ℤ :=
  cands.foldl (fun secs c => max secs c.application.admissionQueueTimeoutSeconds) 0

def selectMember (token : Token) (name apiFlavor : String)
    (req : Request) (now : ℤ) (gw : GroupWalk) : Except RoutingError MemberStatus := do
  let (cands, live) ← eligibleCandidates r st m token name apiFlavor req gw
  if cands.isEmpty then return if live then .unavailable else .noMapping
  else
    match selectCandidate r m cands req now with
    | .error (.allAtCapacity ac) => return .atCapacity {
        servers := distinctServerIDs cands
        queueSecs := maxQueueTimeoutSecs cands
        demand := ac.demand.toList
        first := some (name, ac) }
    | .error e => .error e
    | .ok none => return .unavailable
    | .ok (some sel) => return .ok sel

/-! ### Walking the members -/

structure Walked where
  found : Option (String × MappingCandidate)
  park : ParkMaterial
  anyLive : Bool

def firstAvailable (r : Resolver) (st : Store) (m : Moment) (g : GroupResolve) :
    List GroupMember → ParkMaterial → Bool → Except RoutingError Walked
  | [], park, anyLive => .ok ⟨none, park, anyLive⟩
  | mem::mems, park, anyLive => do
    match ← selectMember r st m g.token mem.memberGatewayName g.apiFlavor g.req g.now g.walk with
    | .ok sel => return ⟨some (mem.memberGatewayName, sel), park, true⟩
    | .atCapacity pm => firstAvailable r st m g mems (park.add pm) true
    | .unavailable => firstAvailable r st m g mems park true
    | .noMapping => firstAvailable r st m g mems park anyLive

def Walked.named (w : Walked) : Option (String × MappingCandidate) :=
  w.found.filter fun f => f.1 ≠ ""

def fastest (m : Moment) (name : String) : ℚ → List MappingCandidate → Except RoutingError ℚ
  | best, [] => .ok best
  | best, c::cs => do
    let tps ← candidateEffectiveGenTPS m c name
    fastest m name (if tps > best then tps else best) cs

def memberSpeed (mem : GroupMember) :
    Except RoutingError (GroupMember × ℚ) := do
  let (cands, _) ← eligibleCandidates r st m g.token mem.memberGatewayName g.apiFlavor g.req g.walk
  let best ← fastest m mem.memberGatewayName 0 cands
  return (mem, best)

def memberSpeeds (r : Resolver) (st : Store) (m : Moment) (g : GroupResolve) :
    List GroupMember → Except RoutingError (List (GroupMember × ℚ))
  | [] => .ok []
  | mem::mems => do
    let one ← memberSpeed r st m g mem
    let rest ← memberSpeeds r st m g mems
    return one::rest

def orderMembersBySpeed :
    Except RoutingError (List GroupMember) := do
  let speeds ← memberSpeeds r st m g g.members
  return (sortSlice (fun a b => a.2 > b.2) speeds).map Prod.fst

def speedMarginMet (best pinned : MappingCandidate) (bestModel pinnedModel : String)
    (policy : GroupPolicy) : Except RoutingError Bool := do
  let pinnedTPS ← candidateEffectiveGenTPS m pinned pinnedModel
  if pinnedTPS ≤ 0 then return true
  else
    let bestTPS ← candidateEffectiveGenTPS m best bestModel
    let margin := max policy.climbSpeedMarginPercent 0
    return bestTPS > pinnedTPS*(1+(margin : ℚ)/100)

/-! ### The group's pin -/

def memberNameExists (members : List GroupMember) (name : String) : Bool :=
  members.any fun mem => mem.memberGatewayName = name

def memberIndex (members : List GroupMember) (name : String) : ℤ :=
  match members.findIdx? fun mem => mem.memberGatewayName = name with
  | none => -1
  | some i => i

def groupPin (key : AffinityKey) (members : List GroupMember) (now : ℤ) : Run String := do
  let m ← thisMoment
  match lookupAffinity m key with
  | .error _ => return ""
  | .ok none => return ""
  | .ok (some aff) =>
    if aff.expiresAt > now ∧ aff.resolvedModel ≠ "" ∧ memberNameExists members aff.resolvedModel then
      return aff.resolvedModel
    else
      deleteAffinity key
      return ""

def upsertGroupPin (sel : MappingCandidate) :
    Run Unit := do
  if g.token.id = "" ∨ name = "" ∨ sel.application.affinityTTLSeconds ≤ 0 ∨
      g.req.requiredCapabilities.isEmpty = false then return ()
  else
    upsertAffinity g.key "store group affinity" {
      userID := g.token.userID
      resolvedModel := name
      applicationID := sel.application.id
      serverID := sel.server.id
      instanceIdx := sel.instanceIdx
      expiresAt := g.now + sel.application.affinityTTLSeconds*10^9
      lastUsedAt := g.now
      createdAt := g.now
      updatedAt := g.now }
    touchSession r sel.server.id (r.affinityID g.key) g.now

def serve (sel : MappingCandidate) :
    Run Target := do
  upsertGroupPin r g name sel
  let m ← thisMoment
  lift (targetFrom m sel g.apiFlavor)

def warm : Run Unit :=
  modify fun s =>
    if r.warmer = false ∨ g.policy.suppressWarm then s else { s with warmed := s.warmed ++ [name] }

def marginMet (best pinned : String × MappingCandidate) :
    Except RoutingError Bool :=
  if g.policy.memberOrder = .speed then
    speedMarginMet m best.2 pinned.2 best.1 pinned.1 g.policy
  else .ok true

def climbTarget (pinned : String × MappingCandidate) :
    Run (Option (String × MappingCandidate)) := do
  let m ← thisMoment
  let walked ← lift (firstAvailable r st m g g.members {} false)
  match walked.named with
  | none => return none
  | some best =>
    if best.1 = pinned.1 ∨ memberIndex g.members best.1 ≥ memberIndex g.members pinned.1 then
      return none
    else
      let met ← lift (marginMet m g best pinned)
      if met = false then return none
      else if memberLoaded m best.2 then return some best
      else
        warm r g best.1
        return none

/-- The member a pinned session is served on this turn, with its selection. -/
def pinnedMember :
    Run (Option (String × MappingCandidate)) := do
  let pinned ← groupPin g.key g.members g.now
  if pinned = "" then return none
  else
    let m ← thisMoment
    match ← lift (selectMember r st m g.token pinned g.apiFlavor g.req g.now g.walk) with
    | .ok pinSel =>
      if g.policy.failoverMode = .climbUp then
        match ← climbTarget r st g (pinned, pinSel) with
        | some best => return some best
        | none => return some (pinned, pinSel)
      else return some (pinned, pinSel)
    | _ => return none

/-! ### One attempt -/

def groupTurn (deadline : ℤ)
    (again : ℤ → Run Target) : Run Target := do
  let m ← thisMoment
  let walked ← lift (firstAvailable r st m g g.members {} false)
  match walked.named with
  | some (name, sel) => serve r g name sel
  | none =>
    match neverParks g.req, walked.park.first with
    | true, some (name, ac) =>
      match ← lift (selectWithoutParking r m ac name (audioRequest g.req) g.now) with
      | none => throw .noHealthyHost
      | some sel =>
        signalOverflow r g.req walked.park.demand.head?
        serve r g name sel
    | _, _ =>
      if walked.park.servers.isEmpty = false ∧ r.admission = true then
        let deadline := if deadline = 0 then deadlineOf g.req g.now walked.park.queueSecs else deadline
        parkTurn r deadline walked.park.demand
        again deadline
      else if walked.anyLive then throw .noHealthyHost
      else throw .noModelRoute

def groupTurns (r : Resolver) (st : Store) : List Wake → GroupResolve → ℤ → Run Target
  | [], g, deadline => groupTurn r st g deadline (fun _ => throw .parked)
  | w::later, g, deadline =>
    groupTurn r st g deadline fun deadline => do
      waitForSlot w later
      let now ← readClock
      groupTurns r st later { g with now := now } deadline

def resolveGroupOnce : Run Target := do
  if g.members.isEmpty then throw .noModelRoute
  else
    let m ← thisMoment
    let members ← lift (if g.policy.memberOrder = .speed then orderMembersBySpeed r st m g
      else .ok g.members)
    let g := { g with members := members }
    match ← pinnedMember r st g with
    | some (name, sel) => serve r g name sel
    | none =>
      let s ← get
      groupTurns r st s.wakes g 0

/-! ### The relaxations -/

/-- The policies tried in turn: loaded-only is dropped before the floor, the
floor only when its fallback says so, and what is dropped stays dropped. -/
def attempts (policy : GroupPolicy) : List GroupPolicy :=
  let policy := { policy with suppressWarm := policy.loadedOnly }
  let unloaded := if policy.loadedOnly then { policy with loadedOnly := false } else policy
  [policy] ++ (if policy.loadedOnly then [unloaded] else []) ++
    (if policy.minTokensPerSecond > 0 ∧ policy.minSpeedFallback = .ignore then
      [{ unloaded with minTokensPerSecond := 0 }] else [])

def attemptInTurn (r : Resolver) (st : Store) (g : GroupResolve) :
    List GroupPolicy → RoutingError → Run Target
  | [], last => throw (refine g.voice last)
  | policy::policies, _ => do
    match ← attempt (resolveGroupOnce r st { g with policy := policy }) with
    | .ok target => return target
    | .error e =>
      if e = .noHealthyHost ∨ e = .noModelRoute then attemptInTurn r st g policies e else throw e

def memberNames (members : List GroupMember) : List String :=
  members.map GroupMember.memberGatewayName

def groupVoiceScope :
    Except RoutingError (Option VoiceScope) :=
  if g.req.requiredVoice = "" then .ok none
  else do
    let pool ← flatPool r st m.fault g.token g.apiFlavor g.req [] (memberNames g.members)
    voiceScopeFor st m.fault g.req.requiredVoice pool

def groupRealtimeCheck :
    Except RoutingError Unit :=
  if g.req.realtimeRequired = false then .ok ()
  else do
    let pool ← flatPool r st m.fault g.token g.apiFlavor g.req [] (memberNames g.members)
    let _ ← filterRealtime r (restrict g.voice pool) g.req
    return ()

def resolveGroup : Run Target := do
  let m ← thisMoment
  let voice ← lift (groupVoiceScope r st m g)
  let g := { g with voice := voice }
  lift (groupRealtimeCheck r st m g)
  attemptInTurn r st g (attempts g.policy) .noModelRoute

end OnPremGateway.RoutingGroups
