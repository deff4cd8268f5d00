import OnPremGateway.CallOutcomes
import OnPremGateway.CandidateSelection
import OnPremGateway.RoutingGroups

/-!
# What passes the gates

A candidate that the filters of a member's pool leave is a stored mapping with
its own application and server, on a server the principal is provisioned for,
and serves the endpoint with every capability asked for. Expanding it into
instances and selecting among them changes neither of the three.
-/

set_option autoImplicit false

namespace OnPremGateway.GateFacts
open RuntimeTypes RoutingTypes CandidateSelection List
open RoutingGates CallOutcomes RoutingGroups

variable (r : Resolver) (st : Store) (fault : StoreRead → Bool) (token : Token)
  (cands : List MappingCandidate)

def base (c : MappingCandidate) : MappingCandidate :=
  ⟨c.server, c.application, c.mapping, 0, false, 0, false⟩

/-! ### Instances -/

theorem mem_expandCandidate (src : String → ModelMapping → Option InstanceView)
    (c d : MappingCandidate) (h : d ∈ expandCandidate src c) : base d = base c := by
  rw [expandCandidate] at h
  split_ifs at h with hagent
  · rw [mem_singleton.mp h]
  cases hv : src c.server.id c.mapping with
  | none =>
    rw [hv] at h
    rw [mem_singleton.mp h]
  | some view =>
    rw [hv] at h
    rcases mem_cons.mp h with h|h
    · rw [h]
      rfl
    · obtain ⟨k,-,rfl⟩ := mem_map.mp h
      rfl

theorem mem_expandInstances
    (src : Option (String → ModelMapping → Option InstanceView)) (d : MappingCandidate)
    (h : d ∈ expandInstances cands src) : ∃ c ∈ cands, base d = base c := by
  cases src with
  | none => exact ⟨d,h,rfl⟩
  | some src =>
    obtain ⟨c,hc,hd⟩ := mem_flatMap.mp h
    exact ⟨c,hc,mem_expandCandidate src c d hd⟩

/-! ### The filters -/

def Provisioned (r : Resolver) (token : Token) (serverID : String) : Prop :=
  ∀ gate, r.provisioning = some gate → ∃ allowed, gate token = .ok allowed ∧ allowed serverID = true

theorem mapError_ok_iff {α : Type} (x : Except String α) (a : α) :
    x.mapError RoutingError.failed = .ok a ↔ x = .ok a := by
  cases x <;> simp [Except.mapError]

theorem mem_filterProvisioned (cands out : List MappingCandidate)
    (h : filterProvisioned r token cands = .ok out) (c : MappingCandidate) (hc : c ∈ out) :
    c ∈ cands ∧ Provisioned r token c.server.id := by
  rw [filterProvisioned] at h
  cases hg : r.provisioning with
  | none =>
    rw [hg] at h
    cases h
    refine ⟨hc,?_⟩
    intro gate hgate
    rw [hg] at hgate
    cases hgate
  | some gate =>
    simp only [hg] at h
    split_ifs at h with he
    · cases h
      rw [isEmpty_iff.mp he] at hc
      cases hc
    obtain ⟨allowed,ha,hout⟩ := (bind_ok_iff _ _ _).mp h
    cases hout
    rw [mem_filter] at hc
    refine ⟨hc.1,?_⟩
    intro gate' hgate
    rw [hg] at hgate
    cases hgate
    exact ⟨allowed,(mapError_ok_iff _ _).mp ha,hc.2⟩

theorem mem_filterServesEndpoint (fineFlavor : String)
    (c : MappingCandidate) (hc : c ∈ filterServesEndpoint cands fineFlavor)
    (hcoarse : applicationHasAPIFlavor c.application (normalizeAPIFlavor fineFlavor) = true) :
    c ∈ cands ∧ applicationServesEndpoint c.application fineFlavor = true := by
  rw [filterServesEndpoint] at hc
  split_ifs at hc with hother
  · rw [applicationServesEndpoint, if_neg hother.1, if_neg hother.2]
    exact ⟨hc,hcoarse⟩
  · exact mem_filter.mp hc

theorem mem_filterCapable (cands out : List MappingCandidate) (required : List String)
    (h : filterCapable st fault cands required = .ok out) (c : MappingCandidate) (hc : c ∈ out) :
    c ∈ cands ∧ capabilityRowsSatisfy (st.capabilities c.mapping.id) required = true := by
  rw [filterCapable] at h
  split_ifs at h with he
  · cases h
    refine ⟨hc,?_⟩
    rcases he with he|he
    · rw [isEmpty_iff.mp he]
      rfl
    · rw [isEmpty_iff.mp he] at hc
      cases hc
  · obtain ⟨caps,hcaps,hout⟩ := (bind_ok_iff _ _ _).mp h
    rw [readStore_ok_iff] at hcaps
    cases hout
    rw [← hcaps.2] at hc
    exact mem_filter.mp hc

theorem mem_restrict (voice : Option VoiceScope) (cands : List MappingCandidate)
    (c : MappingCandidate) (h : c ∈ restrict voice cands) :
    c ∈ cands ∧ ∀ v, voice = some v → c.mapping.id ∈ v.allowed := by
  cases voice with
  | none =>
    refine ⟨h,?_⟩
    intro v hv
    cases hv
  | some v =>
    rw [restrict, mem_filter] at h
    refine ⟨h.1,?_⟩
    intro w hw
    cases hw
    simpa using h.2

/-! ### The pool of one name -/

theorem mem_activeMappings (name flavor : String) (c : MappingCandidate)
    (h : c ∈ st.activeMappingsForModel name flavor) :
    c.mapping ∈ st.mappings ∧ applicationHasAPIFlavor c.application flavor = true ∧ base c = c := by
  obtain ⟨mapping,hm,hc⟩ := mem_filterMap.mp h
  rw [Store.candidateOf_eq_some] at hc
  obtain ⟨-,-,app,server,-,-,hf,-,rfl⟩ := hc
  exact ⟨hm,hf,rfl⟩

/-- A candidate of one name's pool, for a request and the token that makes it. -/
structure Gated (r : Resolver) (st : Store) (token : Token) (name : String) (req : Request)
    (c : MappingCandidate) : Prop where
  stored : base c ∈ st.activeMappingsForModel name (normalizeAPIFlavor req.apiFlavor)
  provisioned : Provisioned r token c.server.id
  endpoint : applicationServesEndpoint c.application req.apiFlavor = true
  capable : capabilityRowsSatisfy (st.capabilities c.mapping.id) req.requiredCapabilities = true

theorem Gated.of_base {r : Resolver} {st : Store} {token : Token} {name : String} {req : Request}
    {c d : MappingCandidate} (h : Gated r st token name req c) (hb : base d = base c) :
    Gated r st token name req d := by
  have hs : d.server = c.server := (congrArg MappingCandidate.server hb :)
  have ha : d.application = c.application := (congrArg MappingCandidate.application hb :)
  have hm : d.mapping = c.mapping := (congrArg MappingCandidate.mapping hb :)
  constructor
  · rw [hb]
    exact h.stored
  · rw [hs]
    exact h.provisioned
  · rw [ha]
    exact h.endpoint
  · rw [hm]
    exact h.capable

theorem filterServesEndpoint_subset (fineFlavor : String) :
    ∀ c ∈ filterServesEndpoint cands fineFlavor, c ∈ cands := by
  intro c hc
  rw [filterServesEndpoint] at hc
  split_ifs at hc
  · exact hc
  · exact mem_of_mem_filter hc

theorem stored_of_memberPool
    (name apiFlavor fineFlavor : String) (required : List String) (out : List MappingCandidate)
    (h : memberPool r st fault token name apiFlavor fineFlavor required = .ok out)
    (c : MappingCandidate) (hc : c ∈ out) : c ∈ st.activeMappingsForModel name apiFlavor := by
  obtain ⟨cands,hread,h⟩ := (bind_ok_iff _ _ _).mp h
  obtain ⟨provisioned,hp,h⟩ := (bind_ok_iff _ _ _).mp h
  rw [((readStore_ok_iff _ _ _ _ _).mp hread).2]
  have hserves := (mem_filterCapable st fault _ _ _ h c hc).1
  exact (mem_filterProvisioned r token _ _ hp c (filterServesEndpoint_subset _ _ c hserves)).1

/-- The filters every pool starts with, whatever the text of a failed read. -/
theorem gated_of_filters (name : String) (req : Request) (provisioned out : List MappingCandidate)
    (hp : filterProvisioned r token
      (st.activeMappingsForModel name (normalizeAPIFlavor req.apiFlavor)) = .ok provisioned)
    (hc : filterCapable st fault (filterServesEndpoint provisioned req.apiFlavor)
      req.requiredCapabilities = .ok out) (c : MappingCandidate) (h : c ∈ out) :
    Gated r st token name req c := by
  obtain ⟨hserves,hcap⟩ := mem_filterCapable st fault _ _ _ hc c h
  have hmem : c ∈ provisioned := filterServesEndpoint_subset _ _ c hserves
  obtain ⟨hstored,hprov⟩ := mem_filterProvisioned r token _ _ hp c hmem
  obtain ⟨-,hflavor,hbase⟩ := mem_activeMappings st name _ c hstored
  constructor
  · rw [hbase]
    exact hstored
  · exact hprov
  · exact (mem_filterServesEndpoint _ _ c hserves hflavor).2
  · exact hcap

theorem gated_of_memberPool (name : String) (req : Request) (out : List MappingCandidate)
    (h : memberPool r st fault token name (normalizeAPIFlavor req.apiFlavor) req.apiFlavor
      req.requiredCapabilities = .ok out) (c : MappingCandidate) (hc : c ∈ out) :
    Gated r st token name req c := by
  obtain ⟨cands,hread,h⟩ := (bind_ok_iff _ _ _).mp h
  obtain ⟨provisioned,hp,h⟩ := (bind_ok_iff _ _ _).mp h
  rw [readStore_ok_iff] at hread
  rw [← hread.2] at hp
  exact gated_of_filters r st fault token name req provisioned out hp h c hc

end OnPremGateway.GateFacts
