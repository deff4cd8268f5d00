import OnPremGateway.GroupOutcomes
import OnPremGateway.RoutingResolver

/-!
# The gates hold on every path

A request is served from its token's pin, from a fresh selection or from a
member of a group. Whichever path it takes, the mapping that serves it is one
its principal can reach, serves the endpoint with every capability asked for,
and is one of those the voice leaves. The real-time gate is applied everywhere
but on the pin. Nor is a request served by an instance it has found gone.
-/

set_option autoImplicit false

namespace OnPremGateway.HardGates
open RuntimeTypes RoutingTypes CandidateSelection List
open SelectionViability RoutingGates CallOutcomes
open RoutingCalls RoutingGroups RoutingResolver
open GateFacts RoutingFaults CallFrames
open GroupOutcomes

variable (r : Resolver) (st : Store) (fault : StoreRead → Bool) (token : Token) (m : Moment)
  (pool : List MappingCandidate)

/-! ### What a principal can reach -/

/-- A stored candidate is determined by its mapping's id. -/
theorem stored_eq_of_id (name name' flavor : String) (c d : MappingCandidate)
    (hc : c ∈ st.activeMappingsForModel name flavor)
    (hd : d ∈ st.activeMappingsForModel name' flavor) (h : d.mapping.id = c.mapping.id) : d = c := by
  obtain ⟨mapping,hm,hc⟩ := mem_filterMap.mp hc
  obtain ⟨mapping',hm',hd⟩ := mem_filterMap.mp hd
  obtain ⟨-,-,app,server,happ,-,-,hserver,rfl⟩ := (Store.candidateOf_eq_some ..).mp hc
  obtain ⟨-,-,app',server',happ',-,-,hserver',rfl⟩ := (Store.candidateOf_eq_some ..).mp hd
  have hmapping : mapping' = mapping := inj_on_of_nodup_map st.mappings_nodup hm' hm h
  subst hmapping
  rw [happ] at happ'
  cases happ'
  rw [hserver] at hserver'
  cases hserver'
  rfl

/-- A mapping that is pooled once is pooled. -/
theorem ids_appendNewCandidates (out cands : List MappingCandidate) (id : String) :
    (∃ d ∈ appendNewCandidates out cands, d.mapping.id = id) ↔
      (∃ d ∈ out, d.mapping.id = id) ∨ ∃ d ∈ cands, d.mapping.id = id := by
  induction cands generalizing out with
  | nil => simp [appendNewCandidates]
  | cons c cs ih =>
    rw [appendNewCandidates, foldl_cons, ← appendNewCandidates, ih]
    have hstep : (∃ d ∈ (if out.any (fun d => d.mapping.id = c.mapping.id) then out else out ++ [c]),
        d.mapping.id = id) ↔ (∃ d ∈ out, d.mapping.id = id) ∨ c.mapping.id = id := by
      by_cases hc : out.any (fun d => d.mapping.id = c.mapping.id) = true
      · rw [if_pos hc]
        obtain ⟨e,he,heq⟩ := any_eq_true.mp hc
        constructor
        · exact .inl
        · rintro (h|h)
          · exact h
          · exact ⟨e,he,(of_decide_eq_true heq).trans h⟩
      · rw [if_neg hc]
        simp only [mem_append, mem_singleton, or_and_right, exists_or, exists_eq_left]
    rw [hstep, or_assoc]
    simp only [mem_cons, or_and_right, exists_or, exists_eq_left]

theorem mem_appendNewCandidates (out cands : List MappingCandidate) (c : MappingCandidate)
    (h : c ∈ appendNewCandidates out cands) : c ∈ out ∨ c ∈ cands := by
  induction cands generalizing out with
  | nil => exact .inl h
  | cons d ds ih =>
    rw [appendNewCandidates, foldl_cons, ← appendNewCandidates] at h
    rcases ih _ h with h|h
    · split_ifs at h
      · exact .inl h
      · rcases mem_append.mp h with h|h
        · exact .inl h
        · exact .inr (mem_cons.mpr (.inl (mem_singleton.mp h)))
    · exact .inr (mem_cons_of_mem _ h)

def GateAnswers (r : Resolver) (token : Token) : Prop :=
  ∀ gate, r.provisioning = some gate → ∃ allowed, gate token = .ok allowed

theorem filterProvisioned_answers (hgate : GateAnswers r token)
    (cands : List MappingCandidate) : ∃ out, filterProvisioned r token cands = .ok out ∧
      ∀ c ∈ cands, Provisioned r token c.server.id → c ∈ out := by
  rw [filterProvisioned]
  cases hg : r.provisioning with
  | none => exact ⟨cands,rfl,fun c hc _ => hc⟩
  | some gate =>
    dsimp only
    by_cases he : cands.isEmpty = true
    · rw [if_pos he]
      exact ⟨cands,rfl,fun c hc _ => hc⟩
    rw [if_neg he]
    obtain ⟨allowed,ha⟩ := hgate gate hg
    rw [ha]
    refine ⟨_,rfl,?_⟩
    intro c hc hp
    obtain ⟨allowed',ha',hallowed⟩ := hp gate hg
    rw [ha] at ha'
    cases ha'
    exact mem_filter.mpr ⟨hc,hallowed⟩

/-- The names are pooled one after the other; what was pooled before stays. -/
theorem reachableFrom_answers (flavor : String)
    (hgate : GateAnswers r token) (names : List String) (out : List MappingCandidate)
    (hout : ∀ d ∈ out, ∃ name, d ∈ st.activeMappingsForModel name flavor) :
    ∃ cs, reachableFrom r st (fun _ => false) token flavor out names = .ok cs ∧
      (∀ d ∈ cs, ∃ name, d ∈ st.activeMappingsForModel name flavor) ∧
      (∀ c ∈ out, ∃ d ∈ cs, d.mapping.id = c.mapping.id) ∧
      ∀ name ∈ names, ∀ c ∈ st.activeMappingsForModel name flavor,
        Provisioned r token c.server.id → ∃ d ∈ cs, d.mapping.id = c.mapping.id := by
  induction names generalizing out with
  | nil =>
    refine ⟨out,rfl,hout,fun c hc => ⟨c,hc,rfl⟩,?_⟩
    intro name hname
    cases hname
  | cons name names ih =>
    obtain ⟨prov,hprov,hin⟩ := filterProvisioned_answers r token hgate
      (st.activeMappingsForModel name flavor)
    have hstored : ∀ d ∈ appendNewCandidates out prov,
        ∃ name, d ∈ st.activeMappingsForModel name flavor := by
      intro d hd
      rcases mem_appendNewCandidates out prov d hd with hd|hd
      · exact hout d hd
      · exact ⟨name,(mem_filterProvisioned r token _ _ hprov d hd).1⟩
    obtain ⟨cs,hcs,hall,hkept,hnames⟩ := ih (appendNewCandidates out prov) hstored
    have hpooled : ∀ id, (∃ d ∈ appendNewCandidates out prov, d.mapping.id = id) →
        ∃ d ∈ cs, d.mapping.id = id := by
      rintro id ⟨d,hd,rfl⟩
      exact hkept d hd
    refine ⟨cs,?_,hall,?_,?_⟩
    · change (filterProvisioned r token (st.activeMappingsForModel name flavor) >>= _) = _
      rw [hprov]
      exact hcs
    · intro c hc
      exact hpooled _ ((ids_appendNewCandidates out prov _).mpr (.inl ⟨c,hc,rfl⟩))
    · intro name' hname' c hc hp
      rcases mem_cons.mp hname' with rfl|hname'
      · exact hpooled _ ((ids_appendNewCandidates out prov _).mpr (.inr ⟨c,hin c hc hp,rfl⟩))
      · exact hnames name' hname' c hc hp

theorem reachable_of_gated (req : Request)
    (names : List String) (hnames : reachableNames r req.model = some names) (name : String)
    (hname : name ∈ names) (c : MappingCandidate) (h : Gated r st token name req c) :
    ∃ cs, reachableCandidates r st (fun _ => false) token req.model req.apiFlavor = .ok cs ∧
      base c ∈ cs := by
  have hgate : GateAnswers r token := by
    intro gate hg
    obtain ⟨allowed,ha,-⟩ := h.provisioned gate hg
    exact ⟨allowed,ha⟩
  obtain ⟨cs,hcs,hall,-,hin⟩ := reachableFrom_answers r st token (normalizeAPIFlavor req.apiFlavor)
    hgate names [] (fun d hd => by cases hd)
  refine ⟨cs,?_,?_⟩
  · rw [reachableCandidates, hnames]
    exact hcs
  · obtain ⟨d,hd,hid⟩ := hin name hname (base c) h.stored h.provisioned
    obtain ⟨name',hstored⟩ := hall d hd
    rw [← stored_eq_of_id st name name' _ (base c) d h.stored hstored hid]
    exact hd

/-! ### A token's pin -/

theorem coarse_of_serves (app : Application) (fineFlavor : String)
    (h : applicationServesEndpoint app fineFlavor = true) :
    applicationHasAPIFlavor app (normalizeAPIFlavor fineFlavor) = true := by
  rw [applicationServesEndpoint] at h
  split_ifs at h with hr hm
  · rw [hr, show normalizeAPIFlavor apiFlavorOpenAIResponses = apiFlavorOpenAI by decide +kernel]
    exact (Bool.and_eq_true _ _ ▸ h).1
  · rw [hm, show normalizeAPIFlavor apiFlavorAnthropicMessages = apiFlavorAnthropic by
      decide +kernel]
    exact (Bool.and_eq_true _ _ ▸ h).1
  · exact h

theorem mem_pinnedChoice (preferred : String)
    (c : MappingCandidate) (h : pinnedChoice m pool preferred = some c) :
    ∃ d ∈ pool, c = { d with instancePool := true } := by
  obtain ⟨d,hd,rfl⟩ := Option.map_eq_some_iff.mp h
  refine ⟨d,?_,rfl⟩
  cases hf : pool.find? fun c => c.key = preferred with
  | some e =>
    rw [hf] at hd
    cases hd
    exact mem_of_find?_eq_some hf
  | none =>
    rw [hf] at hd
    apply leastLoadedInstances_subset m pool d
    cases hl : (leastLoadedInstances m pool).find? fun c => memberLoaded m c with
    | some e =>
      rw [hl] at hd
      cases hd
      exact mem_of_find?_eq_some hl
    | none =>
      rw [hl] at hd
      exact mem_of_mem_head? hd

theorem liveSlotFree_subset (judgeLive : Bool) : ∀ c ∈ liveSlotFree m pool judgeLive, c ∈ pool := by
  intro c hc
  rw [liveSlotFree] at hc
  split at hc
  · exact hc
  · split_ifs at hc
    · exact mem_of_mem_filter hc
    · exact hc

theorem mem_pinnedTurn (req : Request)
    (preferred : String) (now : ℤ) (judgeLive : Bool) (serverID : String) (c : MappingCandidate)
    (d : Option Demand)
    (h : pinnedTurn r m pool req preferred now judgeLive serverID = (some c, d)) :
    ∃ e ∈ pool, c = { e with instancePool := true } := by
  have hsub : ∀ part, (∀ x ∈ part, x ∈ pool) → pinnedChoice m part preferred = some c →
      ∃ e ∈ pool, c = { e with instancePool := true } := by
    intro part hpart hchoice
    obtain ⟨e,he,heq⟩ := mem_pinnedChoice m part preferred c hchoice
    exact ⟨e,hpart e he,heq⟩
  rw [pinnedTurn] at h
  dsimp only at h
  split_ifs at h with hfree hwaits hslot
  · exact hsub _ (fun x hx => mem_of_mem_filter hx) (Prod.ext_iff.mp h).1
  · exact hsub _ (fun x hx => hx) (Prod.ext_iff.mp h).1
  · exact hsub _ (liveSlotFree_subset m pool judgeLive) (Prod.ext_iff.mp h).1
  · cases h

/-- An instance of the pinned mapping that the request has not found gone, or
the mapping as pinned. -/
def PinServes (req : Request) (pinned c : MappingCandidate) : Prop :=
  base c = base pinned ∧ (excluded req c = false ∨ c = pinned)

section Pinned
variable (r : Resolver) (pinned : MappingCandidate) (req : Request) (preferred : String)

theorem pinnedOnce_serves (deadline : ℤ) (parked : Bool) (now : ℤ)
    (again : Run (MappingCandidate × Bool))
    (hagain : Ensures (fun _ => True) again (fun res _ => PinServes req pinned res.1)
      (fun _ _ => True)) :
    Ensures (fun _ => True) (pinnedOnce r pinned req preferred deadline parked now again)
      (fun res _ => PinServes req pinned res.1) (fun _ _ => True) := by
  apply Ensures.after
  intro m
  apply Ensures.ite
  · -- without instances the mapping is served as pinned, whatever is excluded
    intro _
    exact Ensures.pure _ fun s hs => ⟨rfl,.inr rfl⟩
  intro _
  apply Ensures.ite
  · intro _
    exact Ensures.throw _ fun s hs => trivial
  intro _
  rcases hturn : pinnedTurn r m ((expandInstances [pinned] m.instances).filter fun c =>
    !excluded req c) req preferred now (m.liveSlots.isSome && needsFreeLiveSlot req)
    pinned.server.id with ⟨sel|c,demand⟩
  · apply Ensures.after
    intro _
    exact hagain
  apply Ensures.after
  intro _
  apply Ensures.pure
  intro s hs
  obtain ⟨e,he,rfl⟩ := mem_pinnedTurn r m _ req preferred now _ _ c demand hturn
  rw [mem_filter, Bool.not_eq_true'] at he
  obtain ⟨d,hd,hb⟩ := mem_expandInstances [pinned] m.instances e he.1
  rw [mem_singleton.mp hd] at hb
  exact ⟨hb,.inl he.2⟩

/-- However often a pinned request waits, it is served by the pinned mapping. -/
theorem pinnedTurns_serves (servesNow : Run Unit) (deadline : ℤ) (wakes : List Wake) (parked : Bool)
    (now : ℤ) :
    Ensures (fun _ => True) (pinnedTurns r pinned req preferred servesNow deadline wakes parked now)
      (fun res _ => PinServes req pinned res.1) (fun _ _ => True) := by
  induction wakes generalizing parked now with
  | nil =>
    apply pinnedOnce_serves
    exact Ensures.throw _ fun s hs => trivial
  | cons w later ih =>
    apply pinnedOnce_serves
    apply Ensures.after
    intro _
    apply Ensures.after
    intro _
    apply Ensures.after
    intro now
    exact ih true now

theorem selectPinned_serves (now : ℤ) (servesNow : Run Unit) :
    Ensures (fun _ => True) (selectPinned r pinned req preferred now servesNow)
      (fun res _ => PinServes req pinned res.1) (fun _ _ => True) := by
  apply Ensures.after
  intro s
  exact pinnedTurns_serves r pinned req preferred servesNow _ s.wakes false now

end Pinned

/-- The row a pinned request finds when it starts, which has not run out, with an
application that is still good for it. -/
def UsablePin (st : Store) (m : Moment) (key : AffinityKey) (fineFlavor : String) (now : ℤ)
    (p : RouteAffinity × Application) : Prop :=
  (m.affinities.lookup key = some p.1 ∧ now < p.1.expiresAt) ∧
  st.applicationByID p.1.applicationID = some p.2 ∧
    affinityApplicationStale p.2 p.1 fineFlavor = false

theorem loadAffinity_usable (key : AffinityKey) (fineFlavor : String) (now : ℤ)
    (s : CallState) : Ensures (fun t => t = s) (loadAffinity st key fineFlavor now)
      (fun found _ => ∀ p, found = some p → UsablePin st s.moment key fineFlavor now p)
      (fun _ _ => True) := by
  have hnone {P : CallState → Prop} : Ensures P
      ((do deleteAffinity key
           return none) : Run (Option (RouteAffinity × Application)))
      (fun found _ => ∀ p, found = some p → UsablePin st s.moment key fineFlavor now p)
      (fun _ _ => True) := by
    apply Ensures.after
    intro _
    exact Ensures.none
  apply ensures_fromMoment
  rintro t rfl
  apply Ensures.lifted
  intro found hfound
  have hlookup := ((readStore_ok_iff _ _ _ _ _).mp hfound).2
  cases found with
  | none => exact Ensures.none
  | some affinity =>
    apply Ensures.ite
    · intro _
      exact hnone
    intro hlive
    apply Ensures.lifted
    intro found hfound
    have happ := ((readStore_ok_iff _ _ _ _ _).mp hfound).2
    cases found with
    | none => exact hnone
    | some app =>
      apply Ensures.ite
      · intro _
        exact hnone
      intro hstale
      apply Ensures.pure
      intro t _ p hp
      cases hp
      exact ⟨⟨hlookup,not_le.mp hlive⟩,happ,Bool.eq_false_iff.mpr hstale⟩

theorem serverProvisioned_ok (serverID : String)
    (h : serverProvisioned r token serverID = .ok true) : Provisioned r token serverID := by
  intro gate hgate
  rw [serverProvisioned, hgate] at h
  obtain ⟨allowed,ha,hb⟩ := (bind_ok_iff _ _ _).mp h
  exact ⟨allowed,(mapError_ok_iff _ _).mp ha,Except.ok.inj hb⟩

theorem affinityServer_ok {app : Application} {server : AIServer}
    (h : affinityServer st m app = .ok (some server)) : st.serverByID app.serverID = some server := by
  obtain ⟨found,hfound,h⟩ := (bind_ok_iff _ _ _).mp h
  rw [((readStore_ok_iff _ _ _ _ _).mp hfound).2]
  exact Option.eq_some_of_filter_eq_some (Except.ok.inj h)

theorem activeMappingForApplication_ok {id model : String} {mapping : ModelMapping}
    (h : activeMappingForApplication st m id model = .ok (some mapping)) :
    (st.mappingsByApplication id).find? (fun mapping =>
      mapping.status = .active && mapping.gatewayModelName = model) = some mapping := by
  obtain ⟨mappings,hfound,h⟩ := (bind_ok_iff _ _ _).mp h
  rw [((readStore_ok_iff _ _ _ _ _).mp hfound).2]
  exact Except.ok.inj h

theorem capable_of_affinityCapable {id : String} {required : List String}
    (h : affinityCapable st m id required = true) :
    capabilityRowsSatisfy (st.capabilities id) required = true := by
  rw [affinityCapable, Bool.or_eq_true, Bool.and_eq_true] at h
  rcases h with hempty | hrows
  · rw [isEmpty_iff.mp hempty]
    rfl
  · exact hrows.2

/-- The pin's own checks are the gates, but for real time. -/
theorem pinned_gated (req : Request) (m : Moment) (now : ℤ)
    (key : AffinityKey) (p : RouteAffinity × Application) (server : AIServer)
    (mapping : ModelMapping) (hpin : UsablePin st m key req.apiFlavor now p)
    (hserver : st.serverByID p.2.serverID = some server)
    (hmapping : (st.mappingsByApplication p.2.id).find? (fun mapping =>
      mapping.status = .active && mapping.gatewayModelName = key.model) = some mapping)
    (hcap : capabilityRowsSatisfy (st.capabilities mapping.id) req.requiredCapabilities = true)
    (hprov : Provisioned r token server.id) :
    Gated r st token key.model req ⟨server, p.2, mapping, 0, false, 0, false⟩ := by
  obtain ⟨-,happ,hstale⟩ := hpin
  simp only [affinityApplicationStale, Bool.or_eq_false_iff, decide_eq_false_iff_not, not_not,
    Bool.not_eq_false'] at hstale
  obtain ⟨⟨⟨-,-⟩,hactive⟩,hserves⟩ := hstale
  have hid : p.2.id = p.1.applicationID := by simpa using find?_some happ
  have hmem := mem_of_find?_eq_some hmapping
  have hstatus := find?_some hmapping
  rw [Store.mappingsByApplication, mem_filter] at hmem
  rw [Bool.and_eq_true, decide_eq_true_eq, decide_eq_true_eq] at hstatus
  constructor
  · apply mem_filterMap.mpr
    refine ⟨mapping,hmem.1,(Store.candidateOf_eq_some ..).mpr ⟨hstatus.1,hstatus.2,p.2,server,?_,
      hactive,coarse_of_serves p.2 req.apiFlavor hserves,hserver,rfl⟩⟩
    rw [of_decide_eq_true hmem.2, hid]
    exact happ
  · exact hprov
  · exact hserves
  · exact hcap

/-- The row under the key has not run out and names the candidate's application. -/
def PinnedTo (m : Moment) (key : AffinityKey) (now : ℤ) (c : MappingCandidate) : Prop :=
  ∃ row, m.affinities.lookup key = some row ∧ now < row.expiresAt ∧ row.applicationID = c.application.id

theorem resolveAffinity_gated (key : AffinityKey)
    (req : Request) (now : ℤ) (s : CallState) :
    Ensures (fun t => t = s) (resolveAffinity r st token key req now)
      (fun found _ => ∀ target, found = some target → ∃ c m,
        targetFrom m c key.apiFlavor = .ok target ∧ Gated r st token key.model req c ∧
          PinnedTo s.moment key now c ∧ (excluded req c = false ∨ base c = c)) (fun _ _ => True) := by
  apply (loadAffinity_usable st key req.apiFlavor now s).bind
  intro found
  cases found with
  | none => exact Ensures.none
  | some p =>
    apply Ensures.assume (fun t ht => ht p rfl)
    intro hpin
    apply Ensures.after
    intro m
    apply Ensures.lifted
    intro server hserver
    cases server with
    | none =>
      apply Ensures.after
      intro _
      exact Ensures.none
    | some server =>
      apply Ensures.lifted
      intro mapping hmapping
      cases mapping with
      | none =>
        apply Ensures.after
        intro _
        exact Ensures.none
      | some mapping =>
        apply Ensures.ite
        · intro _
          exact Ensures.none
        intro hcap
        apply Ensures.lifted
        intro provisioned hprov
        apply Ensures.ite
        · intro _
          exact Ensures.none
        intro hp
        rw [Bool.not_eq_false] at hcap hp
        rw [hp] at hprov
        have hgated := pinned_gated r st token req s.moment now key p server mapping hpin
          (affinityServer_ok st _ hserver) (activeMappingForApplication_ok st _ hmapping)
          (capable_of_affinityCapable st _ hcap) (serverProvisioned_ok r token server.id hprov)
        apply (Ensures.attempt ((selectPinned_serves r ⟨server, p.2, mapping, 0, false, 0, false⟩ req
          (instanceKey mapping.id p.1.instanceIdx) now (affinityServesNow st p.2)).of_pre
            fun _ _ => trivial)).bind
        intro res
        cases res with
        | error e => cases e <;> first
            | exact Ensures.none
            | exact Ensures.throw _ fun _ _ => trivial
        | ok res =>
          apply Ensures.assume (fun t ht => ht.1 res rfl)
          rintro ⟨hbase,hserves⟩
          apply Ensures.after
          intro _
          apply Ensures.after
          intro m'
          apply Ensures.lifted
          intro target htarget
          apply Ensures.pure
          intro t _ target' h
          cases h
          refine ⟨res.1,m',htarget,hgated.of_base hbase,⟨p.1,hpin.1.1,hpin.1.2,?_⟩,
            hserves.imp_right fun h => by rw [h]; rfl⟩
          rw [show res.1.application = p.2 from (congrArg MappingCandidate.application hbase :)]
          have hid : p.2.id = p.1.applicationID := by simpa using find?_some hpin.2.1
          exact hid.symm

/-! ### A fresh selection -/

def InstanceFor (req : Request) (candidates : List MappingCandidate) (c : MappingCandidate) : Prop :=
  excluded req c = false ∧ ∃ d ∈ candidates, base c = base d

theorem selectCandidate_instanceFor (candidates : List MappingCandidate)
    (req : Request) (now : ℤ) :
    (∀ c, selectCandidate r m (expandInstances candidates m.instances) req now = .ok (some c) →
      InstanceFor req candidates c) ∧
    ∀ ac, selectCandidate r m (expandInstances candidates m.instances) req now =
        .error (.allAtCapacity ac) → ∀ c ∈ ac.pool, InstanceFor req candidates c := by
  have hleft : ∀ c ∈ leftByContextFit m (expandInstances candidates m.instances) req,
      InstanceFor req candidates c := by
    intro c hc
    obtain ⟨hmem,hex,-⟩ := mem_leftByContextFit m _ req c hc
    exact ⟨hex,mem_expandInstances candidates m.instances c hmem⟩
  have hans := selectCandidate_answers r m (expandInstances candidates m.instances) req now
  constructor
  · intro c h
    rw [h] at hans
    cases hans with
    | found c hc _ => exact hleft c hc
  · intro ac h
    rw [h] at hans
    cases hans with
    | atCap _ _ _ => exact hleft

def ServesInstance (f : Fresh) (target : Target) : Prop :=
  ∃ c m, targetFrom m c f.apiFlavor = .ok target ∧ InstanceFor f.req f.candidates c

theorem serveFresh_serves (f : Fresh) (selected : MappingCandidate) (now : ℤ)
    (hsel : InstanceFor f.req f.candidates selected) :
    Ensures (fun _ => True) (serveFresh r f selected now) (fun target _ => ServesInstance f target)
      (fun _ _ => True) := by
  apply Ensures.after
  intro m
  apply Ensures.lifted
  intro target h
  have htarget : ServesInstance f target := ⟨selected,m,h,hsel⟩
  apply Ensures.ite
  · intro _
    apply Ensures.after
    intro _
    apply Ensures.after
    intro _
    exact Ensures.pure _ fun _ _ => htarget
  · intro _
    exact Ensures.pure _ fun _ _ => htarget

theorem freshTurn_serves (f : Fresh) (now : ℤ) (again : Run Target)
    (hagain : Ensures (fun _ => True) again (fun target _ => ServesInstance f target)
      (fun _ _ => True)) :
    Ensures (fun _ => True) (freshTurn r f now again) (fun target _ => ServesInstance f target)
      (fun _ _ => True) := by
  apply Ensures.after
  intro m
  obtain ⟨hfound,hcapped⟩ := selectCandidate_instanceFor r m f.candidates f.req now
  generalize selectCandidate r m (expandInstances f.candidates m.instances) f.req now = sel
    at hfound hcapped
  rcases sel with e|_|c
  · -- only a capped pool is more than an answer
    cases e with
    | allAtCapacity ac =>
      apply Ensures.ite
      · intro _
        apply Ensures.lifted
        intro sel hsel
        cases sel with
        | none => exact Ensures.throw _ fun _ _ => trivial
        | some c =>
          apply Ensures.after
          intro _
          apply serveFresh_serves
          obtain ⟨picked,hp,heq⟩ := selectWithoutParking_picks r m ac f.req.model
            (audioRequest f.req) now
          rw [heq] at hsel
          cases hp with
          | failed id hf => cases hsel
          | nothing hn => cases hsel
          | found d hd hv =>
            cases hsel
            exact hcapped ac rfl d hd
      · intro _
        apply Ensures.after
        intro _
        exact hagain
    | _ => exact Ensures.throw _ fun _ _ => trivial
  · exact Ensures.throw _ fun _ _ => trivial
  · exact serveFresh_serves r f c now (hfound c rfl)

theorem freshTurns_serves (f : Fresh) (wakes : List Wake) (now : ℤ) :
    Ensures (fun _ => True) (freshTurns r f wakes now) (fun target _ => ServesInstance f target)
      (fun _ _ => True) := by
  induction wakes generalizing now with
  | nil =>
    apply freshTurn_serves
    exact Ensures.throw _ fun _ _ => trivial
  | cons w later ih =>
    apply freshTurn_serves
    apply Ensures.after
    intro _
    apply Ensures.after
    intro now
    exact ih now

/-- What a fresh selection's candidates have passed: the gates, real time, and
the voice's restriction of the one name's pool. -/
structure FreshGated (r : Resolver) (st : Store) (fault : StoreRead → Bool) (token : Token)
    (req : Request) (c : MappingCandidate) : Prop where
  gated : Gated r st token req.model req c
  realtime : req.realtimeRequired = true → tooSlowForRealtime r c = false
  voice : ∀ pool scope, flatPool r st fault token (normalizeAPIFlavor req.apiFlavor) req []
      [req.model] = .ok pool → voiceScopeFor st fault req.requiredVoice pool = .ok (some scope) →
    c.mapping.id ∈ scope.allowed

theorem mem_filterRealtime (cands out : List MappingCandidate) (req : Request)
    (h : filterRealtime r cands req = .ok out) (c : MappingCandidate) (hc : c ∈ out) :
    c ∈ cands ∧ (req.realtimeRequired = true → tooSlowForRealtime r c = false) := by
  rw [filterRealtime] at h
  dsimp only at h
  split_ifs at h with hreq hkept
  · cases h
    refine ⟨hc,?_⟩
    intro hrt
    rcases hreq with hreq|hempty
    · rw [hrt] at hreq
      cases hreq
    · rw [isEmpty_iff.mp hempty] at hc
      cases hc
  · cases h
    rw [mem_filter, Bool.not_eq_true'] at hc
    exact ⟨hc.1,fun _ => hc.2⟩

theorem freshCandidates_gated (req : Request) (out : List MappingCandidate × Option VoiceScope)
    (h : freshCandidates r st fault token req (normalizeAPIFlavor req.apiFlavor) = .ok out)
    (c : MappingCandidate) (hc : c ∈ out.1) : FreshGated r st fault token req c := by
  obtain ⟨cands,hread,h⟩ := (bind_ok_iff _ _ _).mp h
  obtain ⟨hok,rfl⟩ := (readStore_ok_iff _ _ _ _ _).mp hread
  obtain ⟨provisioned,hprov,h⟩ := (bind_ok_iff _ _ _).mp h
  obtain ⟨capable,hcap,h⟩ := (bind_ok_iff _ _ _).mp h
  split_ifs at h with hnot hempty
  obtain ⟨voice,hvoice,h⟩ := (bind_ok_iff _ _ _).mp h
  obtain ⟨kept,hkept,h⟩ := (bind_ok_iff _ _ _).mp h
  cases h
  obtain ⟨hrestricted,hrealtime⟩ := mem_filterRealtime r _ kept req hkept c hc
  obtain ⟨hmem,hallowed⟩ := mem_restrict voice capable c hrestricted
  constructor
  · exact gated_of_filters r st fault token req.model req provisioned capable hprov hcap c hmem
  · exact hrealtime
  · intro pool scope hpool hscope
    -- the pool of the one name is the list the voice was judged on
    have hsame : pool = capable := by
      rw [flatPool, if_neg (by simp)] at hpool
      obtain ⟨cands,hmember,hpool⟩ := (bind_ok_iff _ _ _).mp hpool
      obtain ⟨rest,hrest,hpool⟩ := (bind_ok_iff _ _ _).mp hpool
      cases hrest
      cases hpool
      rw [memberPool, readStore, hok] at hmember
      change (filterProvisioned r token _ >>= _) = _ at hmember
      rw [hprov] at hmember
      rw [append_nil]
      exact Except.ok.inj (hmember.symm.trans hcap)
    rw [hsame, hvoice] at hscope
    exact hallowed scope (Except.ok.inj hscope)

theorem FreshGated.of_base {r : Resolver} {st : Store} {fault : StoreRead → Bool} {token : Token}
    {req : Request} {c d : MappingCandidate} (h : FreshGated r st fault token req c)
    (hb : base d = base c) : FreshGated r st fault token req d := by
  have hm : d.mapping = c.mapping := (congrArg MappingCandidate.mapping hb :)
  constructor
  · exact h.gated.of_base hb
  · rw [tooSlowForRealtime, hm]
    exact h.realtime
  · rw [hm]
    exact h.voice

theorem resolveFresh_gated (req : Request)
    (key : AffinityKey) (keepPin : Bool) (start now : ℤ) (fault : StoreRead → Bool) :
    Ensures (fun t => t.moment.fault = fault)
      (resolveFresh r st token req key (normalizeAPIFlavor req.apiFlavor) keepPin start now)
      (fun target _ => ∃ c m, targetFrom m c (normalizeAPIFlavor req.apiFlavor) = .ok target ∧
        FreshGated r st fault token req c ∧ excluded req c = false) (fun _ _ => True) := by
  apply ensures_fromMoment
  rintro u rfl
  apply Ensures.lifted
  rintro ⟨candidates,voice⟩ hout
  apply Ensures.after
  intro s
  apply (freshTurns_serves r _ s.wakes now).mono (fun _ h => h) ?_ (fun _ _ h => h)
  rintro target t ⟨c,m',htarget,hex,d,hd,hb⟩
  dsimp only at htarget hd
  refine ⟨c,m',htarget,?_,hex⟩
  apply FreshGated.of_base ?_ hb
  exact freshCandidates_gated r st _ token req (candidates, voice) hout d hd

/-! ### Every path -/

/-- The request was served from its token's pin: it has a token and asks for no
voice or group, the row under its key had not run out and names the candidate's
application, and the call that follows the pin answered the target. -/
structure TookPin (r : Resolver) (st : Store) (token : Token) (req : Request) (now : ℤ) (s : CallState)
    (target : Target) (c : MappingCandidate) : Prop where
  asked : token.id ≠ "" ∧ req.requiredVoice = ""
  plain : ∀ groups, r.groups = some groups → groups.group req.model = none
  row : PinnedTo s.moment (pinKey r token req) now c
  served : ∃ t, outcome (resolveAffinity r st token (pinKey r token req) req now) s = (.ok (some target), t)

/-- What a mapping that serves a request has passed. The request starts in the
given state. -/
structure Admitted (r : Resolver) (st : Store) (token : Token) (req : Request) (now : ℤ) (s : CallState)
    (target : Target) (c : MappingCandidate) : Prop where
  reachable : ∃ cs, reachableCandidates r st (fun _ => false) token req.model req.apiFlavor = .ok cs ∧
    base c ∈ cs
  endpoint : applicationServesEndpoint c.application req.apiFlavor = true
  capable : capabilityRowsSatisfy (st.capabilities c.mapping.id) req.requiredCapabilities = true
  realtime : req.realtimeRequired = true → tooSlowForRealtime r c = true →
    TookPin r st token req now s target c
  voice : ∀ names pool scope, reachableNames r req.model = some names →
    flatPool r st s.moment.fault token (normalizeAPIFlavor req.apiFlavor) req [] names = .ok pool →
    voiceScopeFor st s.moment.fault req.requiredVoice pool = .ok (some scope) →
    c.mapping.id ∈ scope.allowed ∧ voiceListsEligible (st.voices c.mapping.id) req.requiredVoice = true

theorem voiceScopeFor_blank : voiceScopeFor st fault "" pool = .ok none := by
  rw [voiceScopeFor, if_pos (.inl rfl)]

/-- What the voice leaves is not known to lack it. -/
theorem eligible_of_allowed (voice : String)
    (pool : List MappingCandidate) (scope : VoiceScope)
    (h : voiceScopeFor st fault voice pool = .ok (some scope)) (id : String)
    (hid : id ∈ scope.allowed) : voiceListsEligible (st.voices id) voice = true := by
  rw [voiceScopeFor] at h
  split_ifs at h
  · cases h
  obtain ⟨verdicts,-,h⟩ := (bind_ok_iff _ _ _).mp h
  dsimp only at h
  split_ifs at h
  · cases h
  · cases h
  · cases h
    exact (mem_filter.mp hid).2

/-- What an admitted mapping is served as: an instance the request has not found
gone, or a mapping without instances. -/
def Served (r : Resolver) (st : Store) (token : Token) (req : Request) (now : ℤ) (s : CallState)
    (target : Target) : Prop :=
  ∃ c m, targetFrom m c (normalizeAPIFlavor req.apiFlavor) = .ok target ∧
    Admitted r st token req now s target c ∧ (excluded req c = false ∨ base c = c)

section Plain
variable {r : Resolver} {st : Store} {token : Token} {req : Request} {now : ℤ}

theorem FreshGated.admitted {s : CallState} {fault : StoreRead → Bool} {c : MappingCandidate}
    {target : Target} (hnames : reachableNames r req.model = some [req.model])
    (hfault : req.requiredVoice ≠ "" → fault = s.moment.fault) (h : FreshGated r st fault token req c) :
    Admitted r st token req now s target c := by
  constructor
  · exact reachable_of_gated r st token req [req.model] hnames req.model
      (mem_singleton.mpr rfl) c h.gated
  · exact h.gated.endpoint
  · exact h.gated.capable
  · intro hrt hslow
    rw [h.realtime hrt] at hslow
    cases hslow
  · intro names pool scope hn hpool hscope
    rw [hnames] at hn
    cases hn
    by_cases hv : req.requiredVoice = ""
    · rw [hv, voiceScopeFor_blank] at hscope
      cases hscope
    · rw [← hfault hv] at hpool hscope
      have hid := h.voice pool scope hpool hscope
      exact ⟨hid,eligible_of_allowed st fault req.requiredVoice pool scope hscope _ hid⟩

theorem resolveModel_serves (hnames : reachableNames r req.model = some [req.model])
    (hplain : ∀ groups, r.groups = some groups → groups.group req.model = none) (s : CallState) :
    Ensures (fun t => t = s) (resolveModel r st token req (pinKey r token req)
        (normalizeAPIFlavor req.apiFlavor) now)
      (fun target _ => Served r st token req now s target) (fun _ _ => True) := by
  have hfresh : ∀ keepPin start later fault, (req.requiredVoice ≠ "" → fault = s.moment.fault) →
      Ensures (fun t => t.moment.fault = fault)
        (resolveFresh r st token req (pinKey r token req) (normalizeAPIFlavor req.apiFlavor) keepPin
          start later)
        (fun target _ => Served r st token req now s target) (fun _ _ => True) := by
    intro keepPin start later fault hfault
    apply (resolveFresh_gated r st token req _ keepPin start later fault).mono (fun _ h => h) ?_
      (fun _ _ h => h)
    rintro target t ⟨c,m,htarget,hc,hex⟩
    exact ⟨c,m,htarget,hc.admitted hnames hfault,.inl hex⟩
  apply Ensures.ite
  · rintro ⟨hid,hvoice⟩
    -- without a voice it does not matter what the later turn can read
    have hlater : ∀ keepPin start, Ensures (fun _ => True)
        (do
          let now ← readClock
          resolveFresh r st token req (pinKey r token req) (normalizeAPIFlavor req.apiFlavor) keepPin
            start now)
        (fun target _ => Served r st token req now s target) (fun _ _ => True) := by
      intro keepPin start
      apply Ensures.after
      intro later t _
      exact hfresh keepPin start later t.moment.fault (fun h => absurd hvoice h) t rfl
    apply (Ensures.attempt (resolveAffinity_gated r st token (pinKey r token req) req now s).traced).bind
    intro res
    rcases res with e|_|target
    · cases e with
      | pinnedInstancesGone => exact (hlater true _).of_pre fun _ _ => trivial
      | _ => exact Ensures.throw _ fun _ _ => trivial
    · exact (hlater false _).of_pre fun _ _ => trivial
    · apply Ensures.assume (fun t ht => And.intro ((ht.1 (some target) rfl).1 target rfl)
        (Exists.intro t (ht.1 (some target) rfl).2))
      rintro ⟨⟨c,m,htarget,hgated,hpin,hserves⟩,hserved⟩
      rw [pinKey, affinityKeyOf_apiFlavor] at htarget
      rw [pinKey, affinityKeyOf_model] at hgated
      apply Ensures.after
      intro t
      apply Ensures.after
      intro _
      apply Ensures.pure
      intro _ _
      refine ⟨c,m,htarget,?_,hserves⟩
      constructor
      · exact reachable_of_gated r st token req [req.model] hnames req.model
          (mem_singleton.mpr rfl) c hgated
      · exact hgated.endpoint
      · exact hgated.capable
      · intro _ _
        exact ⟨⟨hid,hvoice⟩,hplain,hpin,hserved⟩
      · intro names pool scope _ _ hscope
        rw [hvoice, voiceScopeFor_blank] at hscope
        cases hscope
  · intro _
    exact (hfresh false _ now s.moment.fault (fun _ => rfl)).of_pre fun t ht => by rw [ht]

end Plain

section Group
variable {r : Resolver} {st : Store}

theorem attemptInTurn_serves (g : GroupResolve) (policies : List GroupPolicy) (err : RoutingError) :
    Ensures (fun _ => True) (attemptInTurn r st g policies err)
      (fun target _ => ∃ name c m, (Passes r st g name c ∧ excluded g.req c = false) ∧
        targetFrom m c g.apiFlavor = .ok target) (fun _ _ => True) := by
  induction policies generalizing err with
  | nil => exact Ensures.throw _ fun _ _ => trivial
  | cons p policies ih =>
    have hpasses := passes_selectable r st { g with policy := p }
    have hK : Selectable r st { g with policy := p } fun name c =>
        Passes r st { g with policy := p } name c ∧ excluded g.req c = false := by
      refine ⟨fun m name cands live hname h c hc => ?_,fun _ _ _ h => h⟩
      exact ⟨hpasses.left m name cands live hname h c hc,(mem_leftByContextFit m cands _ c hc).2.1⟩
    have honce := resolveGroupOnce_attemptsWith (T := fun _ => True) (fun _ _ _ _ => trivial) _ hK
      (Set.mem_univ _)
    apply ((Ensures.attempt honce).of_pre
      fun s _ => ⟨trivial,fun _ _ => trivial,fun _ => Set.mem_univ _⟩).bind
    intro res
    cases res with
    | ok target =>
      apply Ensures.pure
      intro s hs
      exact (hs.1 target rfl).1
    | error e =>
      apply Ensures.ite
      · intro _
        exact (ih e).of_pre fun _ _ => trivial
      · intro _
        exact Ensures.throw _ fun _ _ => trivial

/-- A member's candidate has passed the gates of its name, real time and the
group's voice. -/
theorem gated_of_passes (g : GroupResolve) (hflavor : g.apiFlavor = normalizeAPIFlavor g.req.apiFlavor)
    (name : String) (c : MappingCandidate) (h : Passes r st g name c) :
    Gated r st g.token name g.req c ∧
      (g.req.realtimeRequired = true → tooSlowForRealtime r c = false) ∧
      ∀ v, g.voice = some v → c.mapping.id ∈ v.allowed := by
  obtain ⟨-,m,gated,hg,d,hd,hb⟩ := h
  obtain ⟨pool,hpool,hg⟩ := (bind_ok_iff _ _ _).mp hg
  have hm : c.mapping = d.mapping := (congrArg MappingCandidate.mapping hb :)
  have hrestricted : d ∈ restrict g.voice pool ∧
      (g.req.realtimeRequired = true → tooSlowForRealtime r d = false) := by
    cases hg
    split_ifs at hd with hrt
    · rw [mem_filter, Bool.not_eq_true'] at hd
      exact ⟨hd.1,fun _ => hd.2⟩
    · exact ⟨hd,fun h => absurd h hrt⟩
  obtain ⟨hmem,hallowed⟩ := mem_restrict g.voice pool d hrestricted.1
  rw [hflavor] at hpool
  refine ⟨(gated_of_memberPool r st m.fault g.token name g.req pool hpool d hmem).of_base hb,?_,?_⟩
  · rw [tooSlowForRealtime, hm]
    exact hrestricted.2
  · rw [hm]
    exact hallowed

theorem resolveGroup_serves (g : GroupResolve) (now : ℤ) (s : CallState)
    (hflavor : g.apiFlavor = normalizeAPIFlavor g.req.apiFlavor)
    (hnames : reachableNames r g.req.model = some (memberNames g.members)) :
    Ensures (fun t => t = s) (resolveGroup r st g)
      (fun target _ => Served r st g.token g.req now s target) (fun _ _ => True) := by
  apply ensures_fromMoment
  rintro t rfl
  apply Ensures.lifted
  intro voice hvoice
  apply Ensures.after
  intro _
  apply (attemptInTurn_serves { g with voice := voice } _ _).mono (fun _ h => h) ?_ (fun _ _ h => h)
  rintro target t ⟨name,c,m,⟨hpass,hex⟩,htarget⟩
  obtain ⟨hgated,hrealtime,hallowed⟩ :=
    gated_of_passes { g with voice := voice } hflavor name c hpass
  refine ⟨c,m,hflavor ▸ htarget,?_,.inl hex⟩
  constructor
  · exact reachable_of_gated r st g.token g.req _ hnames name hpass.1 c hgated
  · exact hgated.endpoint
  · exact hgated.capable
  · intro hrt hslow
    rw [hrealtime hrt] at hslow
    cases hslow
  · intro names pool scope hn hpool hscope
    rw [hnames] at hn
    cases hn
    by_cases hv : g.req.requiredVoice = ""
    · rw [hv, voiceScopeFor_blank] at hscope
      cases hscope
    rw [groupVoiceScope, if_neg hv, hflavor, hpool] at hvoice
    have hsome : voice = some scope := Except.ok.inj (hvoice.symm.trans hscope)
    have hid := hallowed scope hsome
    exact ⟨hid,eligible_of_allowed st _ _ pool scope hscope _ hid⟩

end Group

theorem resolveStandard_serves (req : Request) (now : ℤ) (s : CallState) :
    Ensures (fun t => t = s) (resolveStandard r st token req (normalizeAPIFlavor req.apiFlavor) now)
      (fun target _ => Served r st token req now s target) (fun _ _ => True) := by
  rw [resolveStandard]
  cases hg : r.groups with
  | none => exact resolveModel_serves (by rw [reachableNames, hg]) (by rw [hg]; nofun) s
  | some groups =>
    dsimp only
    cases hm : groups.group req.model with
    | none =>
      apply Ensures.ite
      · intro _
        exact Ensures.throw _ fun _ _ => trivial
      · intro hd
        refine resolveModel_serves (by simp only [reachableNames, hg, if_neg hd, hm]) ?_ s
        rw [hg]
        rintro _ ⟨⟩
        exact hm
    | some entry =>
      apply Ensures.ite
      · intro _
        exact Ensures.throw _ fun _ _ => trivial
      intro hd
      apply resolveGroup_serves
      · dsimp only
      · simp only [reachableNames, hg, if_neg hd, hm]
        rfl

/-- Whatever path a request is served on, its mapping has passed every gate; one
too slow for real time is served from the token's pin only. -/
theorem served_mapping_admitted (r : Resolver) (st : Store) (token : Token) (req : Request) (now : ℤ)
    (s t : CallState) (target : Target)
    (h : outcome (resolveStandard r st token req (normalizeAPIFlavor req.apiFlavor) now) s =
      (.ok target, t)) : ∃ c m, targetFrom m c (normalizeAPIFlavor req.apiFlavor) = .ok target ∧
      Admitted r st token req now s target c := by
  obtain ⟨c,m,htarget,hc,-⟩ := (resolveStandard_serves r st token req now s s rfl).1 target t h
  exact ⟨c,m,htarget,hc⟩

/-! A speech mapping measured at half real time, which a token's chat request
is pinned to. -/

def voiceResolver : Resolver where
  realtimeMinFactor := 6/5

def voiceStore : Store where
  servers := [{ id := "studio" }]
  applications :=
    [{ id := "audio", serverID := "studio", apiFlavors := ["openai"], affinityTTLSeconds := 3600 }]
  mappings := [{ id := "tts", applicationID := "audio", gatewayModelName := "voice", audioRateX := 1/2 }]
  capabilities := fun id => if id = "tts" then [{ capability := "speech", verdict := .yes }] else []

def slowCandidate : MappingCandidate where
  server := { id := "studio" }
  application := { id := "audio", serverID := "studio", apiFlavors := ["openai"], affinityTTLSeconds := 3600 }
  mapping := { id := "tts", applicationID := "audio", gatewayModelName := "voice", audioRateX := 1/2 }

def voiceToken : Token where
  id := "t1"

def chatRequest : Request where
  model := "voice"
  apiFlavor := "openai_chat_completions"
  clientSessionID := "c1"

def speechRequest : Request :=
  { chatRequest with requiredCapabilities := ["speech"], realtimeRequired := true }

def voiceTurn (req : Request) (now : ℤ) (m : Moment) : Except RoutingError Target × CallState :=
  outcome (resolveStandard voiceResolver voiceStore voiceToken req (normalizeAPIFlavor req.apiFlavor)
    now) { moment := m }

def pinnedMoment : Moment :=
  { affinities := (voiceTurn chatRequest 1 {}).2.moment.affinities }

def voiceTarget : Target where
  routeID := "tts"
  serverID := "studio"
  model := "voice"
  providerModel := ""
  instanceKey := "tts#0"
  instanceCapable := false
  instancePool := false
  apiFlavor := "openai"

theorem served_mapping_admitted_pinned :
    ∃ c m, targetFrom m c (normalizeAPIFlavor speechRequest.apiFlavor) = .ok voiceTarget ∧
      Admitted voiceResolver voiceStore voiceToken speechRequest 2 { moment := pinnedMoment } voiceTarget c :=
  served_mapping_admitted voiceResolver voiceStore voiceToken speechRequest 2 { moment := pinnedMoment }
    (voiceTurn speechRequest 2 pinnedMoment).2 voiceTarget (Prod.ext (by decide +kernel) rfl)

theorem pin_serves_too_slow_mapping :
    chatRequest.requiredCapabilities = [] ∧ (voiceTurn chatRequest 1 {}).1 = .ok voiceTarget ∧
    speechRequest.requiredCapabilities ≠ [] ∧ speechRequest.realtimeRequired = true ∧
    slowCandidate ∈ voiceStore.activeMappingsForModel "voice" "openai" ∧
    tooSlowForRealtime voiceResolver slowCandidate = true ∧
    (voiceTurn speechRequest 2 pinnedMoment).1 = .ok voiceTarget ∧
    voiceTarget.routeID = slowCandidate.mapping.id := by
  refine ⟨rfl,by decide +kernel,by decide,rfl,by decide +kernel,by decide +kernel,by decide +kernel,
    rfl⟩

/-! ### Instances found gone -/

/-- A request as the gateway sends it: a client's lists no instance, and one that
is selected again lists the instance it has found gone. -/
inductive Sent : Request → Prop
  | first (req : Request) (h : req.excludeInstanceKeys = []) : Sent req
  | again (req : Request) (lost : Target) (h : Sent req) (hlost : reselectable lost req = true) :
      Sent (withLostInstance req lost)

/-- Instance 0 is never found gone. -/
theorem Sent.listed {req : Request} (h : Sent req) (target : Target)
    (hkey : target.instanceKey ∈ req.excludeInstanceKeys) : 1 ≤ instanceIdx target := by
  induction h with
  | first req h =>
    rw [h] at hkey
    cases hkey
  | again req lost _ hlost ih =>
    rcases mem_append.mp hkey with hkey|hkey
    · exact ih hkey
    · rw [reselectable, Bool.and_eq_true, decide_eq_true_eq] at hlost
      rw [instanceIdx, mem_singleton.mp hkey, ← instanceIdx]
      exact hlost.1

end OnPremGateway.HardGates
