import OnPremGateway.SelectionViability
import OnPremGateway.RoutingGroups

/-!
# How a reading of the resolver fails

What the resolver works out from one turn's readings fails with the fault of a
read and with nothing else. The answers a client can tell apart are given by
the calls themselves.
-/

set_option autoImplicit false

namespace OnPremGateway.RoutingFaults
open RuntimeTypes RoutingTypes CandidateSelection List
open SelectionViability RoutingGates CallOutcomes
open RoutingCalls RoutingGroups

variable (r : Resolver) (st : Store) (fault : StoreRead → Bool) (token : Token) (m : Moment)

def OnlyFaults {α : Type} (x : Except RoutingError α) : Prop :=
  ∀ e, x = .error e → ∃ what, e = .failed what

section Rules
variable {α β : Type}

theorem onlyFaults_ok (a : α) : OnlyFaults (.ok a : Except RoutingError α) := by
  intro e h
  cases h

theorem onlyFaults_failed (what : String) :
    OnlyFaults (.error (.failed what) : Except RoutingError α) := by
  intro e h
  cases h
  exact ⟨what,rfl⟩

theorem OnlyFaults.bind {x : Except RoutingError α} {f : α → Except RoutingError β}
    (hx : OnlyFaults x) (hf : ∀ a, OnlyFaults (f a)) : OnlyFaults (x >>= f) := by
  intro e h
  rcases (bind_error_iff _ _ _).mp h with h|⟨a,-,h⟩
  · exact hx e h
  · exact hf a e h

theorem onlyFaults_readStore (fault : StoreRead → Bool) (q : StoreRead) (what : String) (a : α) :
    OnlyFaults (readStore fault q what a) := by
  intro e h
  exact ⟨what,((readStore_error_iff _ _ _ _ _).mp h).2.symm⟩

theorem onlyFaults_mapError (x : Except String α) : OnlyFaults (x.mapError RoutingError.failed) := by
  cases x with
  | error what => exact onlyFaults_failed what
  | ok a => exact onlyFaults_ok a

end Rules

/-! ### Selections -/

theorem Picks.onlyFaults {m : Moment} {now : ℤ} {pool : List MappingCandidate} {sel : Selection}
    (h : Picks m now pool sel) : OnlyFaults sel := by
  cases h with
  | failed id hf => exact onlyFaults_failed _
  | nothing hn => exact onlyFaults_ok _
  | found c hc hv => exact onlyFaults_ok _

theorem onlyFaults_markPool (b : Bool) (sel : Selection) (h : OnlyFaults sel) :
    OnlyFaults (markPool b sel) := by
  cases sel with
  | error e => exact fun e' he => h e' he
  | ok found => exact onlyFaults_ok _

theorem leastLoadedFrom_subset (load : MappingCandidate → ℤ) (least : List MappingCandidate)
    (low : ℤ) (pool : List MappingCandidate) :
    ∀ c ∈ leastLoadedFrom load least low pool, c ∈ least ∨ c ∈ pool := by
  induction pool generalizing least low with
  | nil => exact fun c hc => .inl hc
  | cons d ds ih =>
    intro c hc
    rw [leastLoadedFrom] at hc
    split_ifs at hc
    · rcases ih _ _ c hc with h|h
      · exact .inl h
      · exact .inr (mem_cons_of_mem _ h)
    · rcases ih _ _ c hc with h|h
      · rw [mem_singleton.mp h]
        exact .inr mem_cons_self
      · exact .inr (mem_cons_of_mem _ h)
    · rcases ih _ _ c hc with h|h
      · rcases mem_append.mp h with h|h
        · exact .inl h
        · rw [mem_singleton.mp h]
          exact .inr mem_cons_self
      · exact .inr (mem_cons_of_mem _ h)
    · rcases ih _ _ c hc with h|h
      · exact .inl h
      · exact .inr (mem_cons_of_mem _ h)

theorem leastLoadedInstances_subset (pool : List MappingCandidate) :
    ∀ c ∈ leastLoadedInstances m pool, c ∈ pool := by
  intro c hc
  rcases leastLoadedFrom_subset _ _ _ _ c hc with h|h
  · cases h
  · exact h

/-- What a request that must not park can be answered from a capped pool. -/
theorem selectWithoutParking_picks (ac : AtCapacity) (model : String)
    (audio : Bool) (now : ℤ) : ∃ sel, Picks m now ac.pool sel ∧
      selectWithoutParking r m ac model audio now = markPool ac.instancePool sel := by
  have hall := selectWithSwapProtection_picks r m now ac.pool model audio ""
  rw [selectWithoutParking]
  split_ifs with he
  · exact ⟨_,hall,rfl⟩
  · exact ⟨_,Picks.orElse (leastLoadedInstances_subset m ac.pool)
      (selectWithSwapProtection_picks r m now _ model audio "") hall,rfl⟩

theorem onlyFaults_selectWithoutParking (ac : AtCapacity)
    (model : String) (audio : Bool) (now : ℤ) :
    OnlyFaults (selectWithoutParking r m ac model audio now) := by
  obtain ⟨sel,hp,heq⟩ := selectWithoutParking_picks r m ac model audio now
  rw [heq]
  exact onlyFaults_markPool _ _ (Picks.onlyFaults hp)

theorem onlyFaults_effectiveGenTPS (c : MappingCandidate) (model : String) :
    OnlyFaults (candidateEffectiveGenTPS m c model) :=
  (onlyFaults_readStore _ _ _ _).bind (fun _ => onlyFaults_ok _)

theorem onlyFaults_targetFrom (c : MappingCandidate) (apiFlavor : String) :
    OnlyFaults (targetFrom m c apiFlavor) := by
  rw [targetFrom]
  split_ifs
  · exact (onlyFaults_readStore _ _ _ _).bind (fun _ => onlyFaults_ok _)
  · exact onlyFaults_ok _

/-! ### Pools -/

theorem onlyFaults_filterProvisioned
    (cands : List MappingCandidate) : OnlyFaults (filterProvisioned r token cands) := by
  rw [filterProvisioned]
  cases r.provisioning with
  | none => exact onlyFaults_ok _
  | some gate =>
    dsimp only
    split_ifs
    · exact onlyFaults_ok _
    · exact (onlyFaults_mapError _).bind (fun _ => onlyFaults_ok _)

theorem onlyFaults_filterCapable (cands : List MappingCandidate) (required : List String) :
    OnlyFaults (filterCapable st fault cands required) := by
  rw [filterCapable]
  split_ifs
  · exact onlyFaults_ok _
  · exact (onlyFaults_readStore _ _ _ _).bind (fun _ => onlyFaults_ok _)

theorem onlyFaults_memberPool (name apiFlavor fineFlavor : String) (required : List String) :
    OnlyFaults (memberPool r st fault token name apiFlavor fineFlavor required) :=
  (onlyFaults_readStore _ _ _ _).bind fun _ =>
    (onlyFaults_filterProvisioned r token _).bind fun _ => onlyFaults_filterCapable st fault _ _

theorem onlyFaults_flatPool (apiFlavor : String) (req : Request) (seen names : List String) :
    OnlyFaults (flatPool r st fault token apiFlavor req seen names) := by
  induction names generalizing seen with
  | nil => exact onlyFaults_ok _
  | cons name names ih =>
    rw [flatPool]
    split_ifs
    · exact ih seen
    · exact (onlyFaults_memberPool r st fault token _ _ _ _).bind fun _ =>
        (ih _).bind fun _ => onlyFaults_ok _

theorem onlyFaults_voiceScopeFor (voice : String)
    (pool : List MappingCandidate) : OnlyFaults (voiceScopeFor st fault voice pool) := by
  rw [voiceScopeFor]
  split_ifs
  · exact onlyFaults_ok _
  refine (onlyFaults_readStore _ _ _ _).bind fun verdicts => ?_
  dsimp only
  split_ifs
  · exact onlyFaults_ok _
  · exact onlyFaults_ok _
  · exact onlyFaults_ok _

/-! ### Members -/

section Members
variable (r : Resolver) (st : Store) (m : Moment)

variable (cands : List MappingCandidate) (name : String) (g : GroupResolve)

theorem onlyFaults_meetingFloor (floor : ℚ) (cands : List MappingCandidate) :
    OnlyFaults (meetingFloor m name floor cands) := by
  induction cands with
  | nil => exact onlyFaults_ok _
  | cons c cs ih =>
    exact (onlyFaults_effectiveGenTPS m c name).bind fun _ => ih.bind fun _ => onlyFaults_ok _

theorem onlyFaults_filterBySpeedFloor (floor : ℚ) :
    OnlyFaults (filterBySpeedFloor m cands name floor) := by
  rw [filterBySpeedFloor]
  split_ifs
  · exact onlyFaults_ok _
  · exact onlyFaults_meetingFloor m name floor cands

theorem onlyFaults_gatedCandidates (token : Token) (name apiFlavor : String) (req : Request)
    (gw : GroupWalk) : OnlyFaults (gatedCandidates r st m token name apiFlavor req gw) :=
  (onlyFaults_memberPool r st m.fault token _ _ _ _).bind fun _ => onlyFaults_ok _

theorem onlyFaults_eligibleCandidates (token : Token) (name apiFlavor : String) (req : Request)
    (gw : GroupWalk) : OnlyFaults (eligibleCandidates r st m token name apiFlavor req gw) := by
  refine (onlyFaults_gatedCandidates r st m token name apiFlavor req gw).bind fun cands => ?_
  split_ifs
  · exact onlyFaults_ok _
  · exact (onlyFaults_filterBySpeedFloor m _ _ _).bind fun _ => onlyFaults_ok _

theorem onlyFaults_selectMember (token : Token) (name apiFlavor : String) (req : Request) (now : ℤ)
    (gw : GroupWalk) : OnlyFaults (selectMember r st m token name apiFlavor req now gw) := by
  refine (onlyFaults_eligibleCandidates r st m token name apiFlavor req gw).bind fun el => ?_
  dsimp only
  split_ifs
  · exact onlyFaults_ok _
  · exact onlyFaults_ok _
  have hans := selectCandidate_answers r m el.1 req now
  generalize selectCandidate r m el.1 req now = sel at hans
  cases hans with
  | failed id hf => exact onlyFaults_failed _
  | nothing hn hcap => exact onlyFaults_ok _
  | found c hc hv => exact onlyFaults_ok _
  | atCap hne ha hall => exact onlyFaults_ok _

theorem onlyFaults_firstAvailable (mems : List GroupMember)
    (park : ParkMaterial) (anyLive : Bool) :
    OnlyFaults (firstAvailable r st m g mems park anyLive) := by
  induction mems generalizing park anyLive with
  | nil => exact onlyFaults_ok _
  | cons mem mems ih =>
    refine (onlyFaults_selectMember r st m _ _ _ _ _ _).bind fun status => ?_
    cases status with
    | noMapping => exact ih _ _
    | unavailable => exact ih _ _
    | ok sel => exact onlyFaults_ok _
    | atCapacity pm => exact ih _ _

theorem onlyFaults_fastest (best : ℚ) (cands : List MappingCandidate) :
    OnlyFaults (fastest m name best cands) := by
  induction cands generalizing best with
  | nil => exact onlyFaults_ok _
  | cons c cs ih => exact (onlyFaults_effectiveGenTPS m c name).bind fun _ => ih _

theorem onlyFaults_memberSpeeds (mems : List GroupMember) :
    OnlyFaults (memberSpeeds r st m g mems) := by
  induction mems with
  | nil => exact onlyFaults_ok _
  | cons mem mems ih =>
    have hone : OnlyFaults (memberSpeed r st m g mem) :=
      (onlyFaults_eligibleCandidates r st m _ _ _ _ _).bind fun el =>
        (onlyFaults_fastest m _ _ el.1).bind fun _ => onlyFaults_ok _
    exact hone.bind fun _ => ih.bind fun _ => onlyFaults_ok _

theorem onlyFaults_marginMet (best pinned : String × MappingCandidate) :
    OnlyFaults (marginMet m g best pinned) := by
  rw [marginMet]
  split_ifs
  · refine (onlyFaults_effectiveGenTPS m _ _).bind fun pinnedTPS => ?_
    dsimp only
    split_ifs
    · exact onlyFaults_ok _
    · exact (onlyFaults_effectiveGenTPS m _ _).bind fun _ => onlyFaults_ok _
  · exact onlyFaults_ok _

theorem onlyFaults_groupVoiceScope : OnlyFaults (groupVoiceScope r st m g) := by
  rw [groupVoiceScope]
  split_ifs
  · exact onlyFaults_ok _
  · exact (onlyFaults_flatPool r st m.fault _ _ _ _ _).bind fun _ =>
      onlyFaults_voiceScopeFor st m.fault _ _

end Members

end OnPremGateway.RoutingFaults
