import OnPremGateway.RoutingTypes

/-!
# The hard gates

Which stored candidates a principal's request may be routed to at all: the
name it asks for, the servers it is provisioned for, the endpoint it calls, the
capabilities and the voice it asks for, and whether it must keep up with real
time. None of these is a preference that gives way, except the voice where
nothing is known to offer it.
-/

set_option autoImplicit false

namespace OnPremGateway.RoutingGates
open RuntimeTypes RoutingTypes

/-! ### Provisioning -/

variable (r : Resolver) (st : Store) (fault : StoreRead → Bool) (principal : Token)
  (cands : List MappingCandidate)

def filterProvisioned :
    Except RoutingError (List MappingCandidate) :=
  match r.provisioning with
  | none => .ok cands
  | some gate =>
    if cands.isEmpty then .ok cands
    else do
      let allowed ← (gate principal).mapError .failed
      return cands.filter fun c => allowed c.server.id

def serverProvisioned (serverID : String) :
    Except RoutingError Bool :=
  match r.provisioning with
  | none => .ok true
  | some gate => do
    let allowed ← (gate principal).mapError .failed
    return allowed serverID

/-! ### Endpoints -/

def applicationServesEndpoint (app : Application) (fineFlavor : String) : Bool :=
  if fineFlavor = apiFlavorOpenAIResponses then
    applicationHasAPIFlavor app apiFlavorOpenAI &&
      (app.type = .serverAgent || app.responsesMode ≠ .disabled)
  else if fineFlavor = apiFlavorAnthropicMessages then
    applicationHasAPIFlavor app apiFlavorAnthropic &&
      (app.type = .serverAgent || app.messagesMode ≠ .disabled)
  else applicationHasAPIFlavor app (normalizeAPIFlavor fineFlavor)

def filterServesEndpoint (fineFlavor : String) :
    List MappingCandidate :=
  if fineFlavor ≠ apiFlavorOpenAIResponses ∧ fineFlavor ≠ apiFlavorAnthropicMessages then cands
  else cands.filter fun c => applicationServesEndpoint c.application fineFlavor

/-! ### Capabilities -/

def verdictOf (rows : List CapabilityRow) (name : String) : Option Verdict :=
  (rows.reverse.find? fun row => row.capability = name).map CapabilityRow.verdict

def impliedImageEdit (rows : List CapabilityRow) : Bool :=
  verdictOf rows capabilityImage = some .yes && verdictOf rows capabilityImageEdit ≠ some .no

def capabilityRowsSatisfy (rows : List CapabilityRow) (required : List String) : Bool :=
  required.all fun name =>
    if name = capabilityImageEdit then impliedImageEdit rows else verdictOf rows name = some .yes

def candidateMappingIDs (pool : List MappingCandidate) : List String :=
  (pool.map fun c => c.mapping.id).reverse.dedup.reverse

def filterCapable (required : List String) : Except RoutingError (List MappingCandidate) :=
  if required.isEmpty ∨ cands.isEmpty then .ok cands
  else do
    let caps ← readStore fault (.capabilitiesFor (candidateMappingIDs cands)) "capability gate"
      st.capabilities
    return cands.filter fun c => capabilityRowsSatisfy (caps c.mapping.id) required

/-! ### The voice -/

def capabilityRowsSpeech (rows : List CapabilityRow) : Bool :=
  verdictOf rows capabilitySpeech = some .yes

def capabilityRowsPlainTTS (rows : List CapabilityRow) : Bool :=
  verdictOf rows capabilitySpeech = some .yes && verdictOf rows capabilitySpeechClone ≠ some .yes

def voiceNamesFromCacheRows : List VoicesRow → Option (List String)
  | [] => some []
  | row::rows =>
    if row.scopeKey ≠ "" then voiceNamesFromCacheRows rows
    else
      match row.payload with
      | .blank => voiceNamesFromCacheRows rows
      | .names list => some list
      | .corrupt => none

def hasVoicesRow (rows : List VoicesRow) : Bool := rows.any fun row => row.scopeKey = ""

def voiceListsEligible (rows : List VoicesRow) (voice : String) : Bool :=
  !hasVoicesRow rows || match voiceNamesFromCacheRows rows with
    | none => true
    | some names => names.contains voice

structure VoiceScope where
  allowed : List String
  narrowed : Bool
  deriving DecidableEq, Repr

def restrict (voice : Option VoiceScope) (cands : List MappingCandidate) : List MappingCandidate :=
  match voice with
  | none => cands
  | some v => cands.filter fun c => v.allowed.contains c.mapping.id

def refine (voice : Option VoiceScope) (err : RoutingError) : RoutingError :=
  match voice with
  | none => err
  | some v => if v.narrowed && err = .noHealthyHost then .voiceUnavailable else err

def voiceClassifiedIDs (ids : List String) : List String :=
  (ids.filter fun id => capabilityRowsSpeech (st.capabilities id)).filter fun id =>
    capabilityRowsPlainTTS (st.capabilities id) || hasVoicesRow (st.voices id)

/-- The restriction a voice puts on a pool. A voices cache that cannot be read
restricts nothing. -/
def voiceScopeFor (voice : String)
    (pool : List MappingCandidate) : Except RoutingError (Option VoiceScope) :=
  if voice = "" ∨ pool.isEmpty then .ok none
  else do
    let ids := candidateMappingIDs pool
    let verdicts ← readStore fault (.capabilitiesFor ids) "voice filter: read capability verdicts"
      st.capabilities
    let speech := ids.filter fun id => capabilityRowsSpeech (verdicts id)
    if speech.isEmpty ∨ fault (.voicesFor speech) = true then return none
    else
      let classified := voiceClassifiedIDs st ids
      let allowed := classified.filter fun id => voiceListsEligible (st.voices id) voice
      if allowed.isEmpty ∨ classified.length ≤ allowed.length then return none
      else return some ⟨allowed, true⟩

/-! ### Real time -/

def tooSlowForRealtime (c : MappingCandidate) : Bool :=
  0 < c.mapping.audioRateX && c.mapping.audioRateX < r.realtimeMinFactor

def filterRealtime (req : Request) :
    Except RoutingError (List MappingCandidate) :=
  if req.realtimeRequired = false ∨ cands.isEmpty then .ok cands
  else
    let kept := cands.filter fun c => !tooSlowForRealtime r c
    if kept.isEmpty then .error .noRealtimeCandidate else .ok kept

/-! ### What one name offers -/

def memberPool (token : Token)
    (name apiFlavor fineFlavor : String) (required : List String) :
    Except RoutingError (List MappingCandidate) := do
  let cands ← readStore fault (.activeMappings name apiFlavor) "resolve member mappings"
    (st.activeMappingsForModel name apiFlavor)
  let cands ← filterProvisioned r token cands
  filterCapable st fault (filterServesEndpoint cands fineFlavor) required

def flatPool (r : Resolver) (st : Store) (fault : StoreRead → Bool) (token : Token)
    (apiFlavor : String) (req : Request) : List String → List String →
    Except RoutingError (List MappingCandidate)
  | _, [] => .ok []
  | seen, name::names =>
    if name ∈ seen then flatPool r st fault token apiFlavor req seen names
    else do
      let cands ← memberPool r st fault token name apiFlavor req.apiFlavor req.requiredCapabilities
      let rest ← flatPool r st fault token apiFlavor req (name::seen) names
      return cands ++ rest

/-! ### What a principal can reach -/

def reachableNames (modelName : String) : Option (List String) :=
  match r.groups with
  | none => some [modelName]
  | some groups =>
    if groups.directAllowed modelName = false then none
    else
      match groups.group modelName with
      | none => some [modelName]
      | some g => some (g.1.map GroupMember.memberGatewayName)

def appendNewCandidates (out cands : List MappingCandidate) : List MappingCandidate :=
  cands.foldl (fun out c =>
    if out.any (fun d => d.mapping.id = c.mapping.id) then out else out ++ [c]) out

def reachableFrom (r : Resolver) (st : Store) (fault : StoreRead → Bool) (principal : Token)
    (flavor : String) : List MappingCandidate → List String →
    Except RoutingError (List MappingCandidate)
  | out, [] => .ok out
  | out, name::names => do
    let cands ← readStore fault (.activeMappings name flavor) "resolve mappings"
      (st.activeMappingsForModel name flavor)
    let cands ← filterProvisioned r principal cands
    reachableFrom r st fault principal flavor (appendNewCandidates out cands) names

def reachableCandidates (modelName apiFlavor : String) : Except RoutingError (List MappingCandidate) :=
  match reachableNames r modelName with
  | none => .ok []
  | some names => reachableFrom r st fault principal (normalizeAPIFlavor apiFlavor) [] names

end OnPremGateway.RoutingGates
