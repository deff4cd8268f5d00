import OnPremGateway.CandidateSelection

/-!
# What a selection can answer

A selection over a pool fails with a telemetry read, finds no candidate when
none of the pool is viable, or finds a viable candidate of the pool. Every
preference is tried on a part of the pool and gives way to the whole of it, so
each of them keeps that description. The context filter gives way only when
nothing is left of the pool.
-/

set_option autoImplicit false

namespace OnPremGateway.SelectionViability
open RuntimeTypes InstanceModel RoutingTypes List Bool
open CandidateSelection

variable (r : Resolver) (m : Moment) (candidates : List MappingCandidate) (req : Request) (now : ℤ)
  (pool : List MappingCandidate)

/-- The score's gate on health, load and staleness. It reads neither the name
asked for nor whether the request is an audio one. -/
def viable (m : Moment) (now : ℤ) (c : MappingCandidate) : Bool :=
  (candidateScore m now "" false (m.telemetry c.server.id) c).isSome

theorem score_isSome (c : MappingCandidate) (tel : ServerTelemetry) (hasTel : Bool) (k : ℤ)
    (model model' : String) (audio audio' : Bool) (now : ℤ) :
    (score (scoringRoute c tel hasTel k model audio) model now).isSome =
      (score (scoringRoute c tel hasTel k model' audio') model' now).isSome := by
  have hv : validTelemetry (scoringRoute c tel hasTel k model audio) =
      validTelemetry (scoringRoute c tel hasTel k model' audio') := rfl
  simp only [score, hv]
  cases validTelemetry (scoringRoute c tel hasTel k model' audio') with
  | none => simp [scoringRoute]
  | some e =>
    simp only [scoringRoute]
    split_ifs <;> simp_all

inductive Picks (m : Moment) (now : ℤ) (pool : List MappingCandidate) : Selection → Prop
  | failed (id : String) (h : m.fault (.telemetry id) = true) :
      Picks m now pool (.error (.failed "load server telemetry"))
  | nothing (h : ∀ c ∈ pool, viable m now c = false) : Picks m now pool (.ok none)
  | found (c : MappingCandidate) (hc : c ∈ pool) (hv : viable m now c = true) :
      Picks m now pool (.ok (some c))

section Picks
variable {m : Moment} {now : ℤ} {part pool : List MappingCandidate} {first next : Selection}

theorem Picks.orElse (hsub : ∀ c ∈ part, c ∈ pool) (hf : Picks m now part first)
    (hn : Picks m now pool next) : Picks m now pool (orElse first next) := by
  cases hf with
  | failed id h => exact Picks.failed id h
  | nothing _ => exact hn
  | found c hc hv => exact Picks.found c (hsub c hc) hv

end Picks

/-! ### The score scan -/

def Leads (m : Moment) (now : ℤ) (seen : List MappingCandidate) :
    Option (MappingCandidate × ℚ) → Prop
  | none => ∀ c ∈ seen, viable m now c = false
  | some b => b.1 ∈ seen ∧ viable m now b.1 = true

theorem leads_keepBest (seen : List MappingCandidate) (c : MappingCandidate)
    (best : Option (MappingCandidate × ℚ)) (s : Option ℚ) (hs : s.isSome = viable m now c)
    (hb : Leads m now seen best) : Leads m now (seen++[c]) (keepBest best c s) := by
  cases s with
  | none =>
    cases best with
    | none =>
      intro d hd
      rcases mem_append.mp hd with hd|hd
      · exact hb d hd
      · rw [mem_singleton.mp hd]
        exact hs.symm
    | some b => exact ⟨mem_append_left _ hb.1,hb.2⟩
  | some s =>
    have hc : c ∈ seen++[c] ∧ viable m now c = true := ⟨by simp,hs.symm⟩
    cases best with
    | none => exact hc
    | some b =>
      by_cases hgt : s > b.2
      · rw [keepBest, if_pos hgt]
        exact hc
      · rw [keepBest, if_neg hgt]
        exact ⟨mem_append_left _ hb.1,hb.2⟩

variable (c : MappingCandidate) (model : String) (audio : Bool) (preferred : String)

theorem argmaxFrom_picks (seen pool : List MappingCandidate) (best : Option (MappingCandidate × ℚ))
    (hb : Leads m now seen best) :
    Picks m now (seen++pool) (argmaxFrom m now model audio best pool) := by
  induction pool generalizing seen best with
  | nil =>
    rw [append_nil]
    cases best with
    | none => exact Picks.nothing hb
    | some b => exact Picks.found b.1 hb.1 hb.2
  | cons c cs ih =>
    rw [append_cons, argmaxFrom]
    cases ht : m.fault (.telemetry c.server.id) with
    | true =>
      rw [telemetryOf, readStore, if_pos ht]
      exact Picks.failed _ ht
    | false =>
      rw [telemetryOf, readStore, ht]
      exact ih (seen++[c]) _
        (leads_keepBest m now seen c best _ (score_isSome _ _ _ _ _ _ _ _ _) hb)

theorem argmaxByScore_picks : Picks m now pool (argmaxByScore m pool model audio now) :=
  argmaxFrom_picks m now model audio [] pool none (fun _ h => by cases h)

/-! ### The preferences -/

theorem preferScored_picks : Picks m now pool (preferScored m pool model audio now preferred) := by
  have hall := argmaxByScore_picks m now pool model audio
  rw [preferScored]
  split_ifs
  · exact hall
  cases hf : pool.find? fun c => c.key = preferred with
  | none => exact hall
  | some c =>
    refine Picks.orElse ?_ (argmaxByScore_picks m now [c] model audio) hall
    intro d hd
    rw [mem_singleton.mp hd]
    exact mem_of_find?_eq_some hf

theorem preferPartition_picks
    (inPart : MappingCandidate → Bool) (model : String) (audio : Bool) (preferred : String) :
    Picks m now (pool.filter inPart) (preferPartition m pool inPart model audio now preferred) := by
  rw [preferPartition]
  split_ifs with h
  · rw [isEmpty_iff.mp h]
    exact Picks.nothing (fun _ h => by cases h)
  · exact preferScored_picks m now _ model audio preferred

theorem mem_of_mem_part (inPart : MappingCandidate → Bool) :
    ∀ c ∈ pool.filter inPart, c ∈ pool := fun _ h => mem_of_mem_filter h

theorem selectFromPool_picks :
    Picks m now pool (selectFromPool m pool model audio now preferred) := by
  have hpart : ∀ inPart next, Picks m now pool next → Picks m now pool
        (orElse (preferPartition m pool inPart model audio now preferred) next) :=
    fun inPart next hn => Picks.orElse (mem_of_mem_part pool inPart)
      (preferPartition_picks m now pool inPart model audio preferred) hn
  have hscored := preferScored_picks m now pool model audio preferred
  rw [selectFromPool]
  cases m.loaded with
  | none =>
    cases m.runtimeState with
    | none => exact hscored
    | some _ => exact hpart _ _ hscored
  | some loaded =>
    cases m.runtimeState with
    | none => exact hpart _ _ hscored
    | some _ => exact hpart _ _ (hpart _ _ hscored)

theorem selectWithSwapProtection_picks :
    Picks m now pool (selectWithSwapProtection r m pool model audio now preferred) := by
  have hall := selectFromPool_picks m now pool model audio preferred
  rw [selectWithSwapProtection]
  cases m.activity with
  | none => exact hall
  | some activity =>
    dsimp only
    split_ifs
    · exact hall
    · exact Picks.orElse (mem_of_mem_part pool _)
        (selectFromPool_picks m now _ model audio preferred) hall

/-! ### The capacity cap -/

theorem underCap_of_unwired (now : ℤ)
    (h : (m.activity.isSome || m.instanceActivity.isSome) = false) :
    underCap r m c now false = true := by
  rw [or_eq_false_iff, Option.isSome_eq_false_iff, Option.isSome_eq_false_iff,
    Option.isNone_iff_eq_none, Option.isNone_iff_eq_none] at h
  simp [underCap, h.1, h.2]

/-- Every candidate of the pool a request is left with is at its cap. -/
def AllAtCap (r : Resolver) (m : Moment) (req : Request) (now : ℤ) (pool : List MappingCandidate) :
    Prop :=
  ∀ c ∈ pool, underCap r m c now (judgesLive m req (hasInstance pool)) = false

theorem underCap_filter_isEmpty :
    (pool.filter fun c => underCap r m c now (judgesLive m req (hasInstance pool))).isEmpty = true ↔
      AllAtCap r m req now pool := by
  rw [List.isEmpty_iff, List.filter_eq_nil_iff]
  simp only [AllAtCap, not_eq_true]

theorem selectUnderCap_atCap (hne : pool ≠ []) (ha : r.admission = true)
    (hall : AllAtCap r m req now pool) : selectUnderCap r m pool req now (hasInstance pool) =
      .error (.allAtCapacity ⟨instanceDemand pool req, pool, hasInstance pool⟩) := by
  have hwired : (m.activity.isSome || m.instanceActivity.isSome ||
      judgesLive m req (hasInstance pool)) = true := by
    obtain ⟨c,hc⟩ := exists_mem_of_ne_nil pool hne
    have hcap := hall c hc
    by_contra h
    rw [not_eq_true, or_eq_false_iff] at h
    rw [h.2, underCap_of_unwired r m c now h.1] at hcap
    cases hcap
  simp only [selectUnderCap, hwired, (underCap_filter_isEmpty r m req now pool).mpr hall, ha, if_true]

theorem selectUnderCap_picks (h : ¬(r.admission = true ∧ AllAtCap r m req now pool)) :
    Picks m now pool (selectUnderCap r m pool req now (hasInstance pool)) := by
  have hall := selectWithSwapProtection_picks r m now pool req.model (audioRequest req)
    (preferredInstance r m pool req now (judgesLive m req (hasInstance pool)))
  rw [selectUnderCap]
  dsimp only
  split_ifs with hwired hempty ha hsome
  · exact absurd ⟨ha,(underCap_filter_isEmpty r m req now pool).mp hempty⟩ h
  · exact hall
  · exact Picks.orElse (mem_of_mem_part pool _) (selectWithSwapProtection_picks r m now _ _ _ _) hall
  · exact hall
  · exact hall

/-! ### The selection -/

/-- The candidates the context filter leaves. -/
def leftByContextFit (m : Moment) (candidates : List MappingCandidate) (req : Request) :
    List MappingCandidate :=
  contextFit (reachableNow m candidates req) req

theorem contextFit_subset (reachable : List MappingCandidate) (req : Request) :
    ∀ c ∈ contextFit reachable req, c ∈ reachable := by
  intro c hc
  rw [contextFit] at hc
  split_ifs at hc
  · exact hc
  · exact mem_of_mem_filter hc

theorem contextFit_ne_nil (reachable : List MappingCandidate) (req : Request)
    (h : reachable ≠ []) : contextFit reachable req ≠ [] := by
  rw [contextFit]
  split_ifs with he
  · exact h
  · intro hn
    rw [hn] at he
    exact he rfl

theorem mem_leftByContextFit (h : c ∈ leftByContextFit m candidates req) :
    c ∈ candidates ∧ excluded req c = false ∧ candidateServesNow m c = true := by
  have hr := contextFit_subset _ _ c h
  rw [reachableNow, mem_filter, and_eq_true, not_eq_true'] at hr
  exact hr

theorem mem_reachableNow (hc : c ∈ candidates) (he : excluded req c = false)
    (hs : candidateServesNow m c = true) : c ∈ reachableNow m candidates req := by
  rw [reachableNow, mem_filter, he, hs]
  exact ⟨hc,rfl⟩

inductive Answers (r : Resolver) (m : Moment) (req : Request) (now : ℤ)
    (pool : List MappingCandidate) : Selection → Prop
  | failed (id : String) (h : m.fault (.telemetry id) = true) :
      Answers r m req now pool (.error (.failed "load server telemetry"))
  | nothing (h : ∀ c ∈ pool, viable m now c = false)
      (hcap : pool ≠ [] → ¬(r.admission = true ∧ AllAtCap r m req now pool)) :
      Answers r m req now pool (.ok none)
  | found (c : MappingCandidate) (hc : c ∈ pool) (hv : viable m now c = true) :
      Answers r m req now pool (.ok (some { c with instancePool := hasInstance pool }))
  | atCap (hne : pool ≠ []) (ha : r.admission = true) (hall : AllAtCap r m req now pool) :
      Answers r m req now pool
        (.error (.allAtCapacity ⟨instanceDemand pool req, pool, hasInstance pool⟩))

theorem selectCandidate_answers : Answers r m req now (leftByContextFit m candidates req)
      (selectCandidate r m candidates req now) := by
  rw [selectCandidate, ← leftByContextFit]
  dsimp only
  split_ifs with he
  · have hnil : leftByContextFit m candidates req = [] := by
      rw [leftByContextFit, isEmpty_iff.mp he]
      rfl
    rw [hnil]
    exact Answers.nothing (fun _ h => by cases h) (fun h => absurd rfl h)
  rw [List.isEmpty_iff] at he
  by_cases hcap : r.admission = true ∧ AllAtCap r m req now (leftByContextFit m candidates req)
  · have hne : leftByContextFit m candidates req ≠ [] := contextFit_ne_nil _ req he
    rw [selectUnderCap_atCap r m req now _ hne hcap.1 hcap.2]
    exact Answers.atCap hne hcap.1 hcap.2
  have hp := selectUnderCap_picks r m req now _ hcap
  generalize selectUnderCap r m (leftByContextFit m candidates req) req now
    (hasInstance (leftByContextFit m candidates req)) = sel at hp
  cases hp with
  | failed id h => exact Answers.failed id h
  | nothing h => exact Answers.nothing h (fun _ => hcap)
  | found c hc hv => exact Answers.found c hc hv

/-- With no telemetry read at fault, a servable request is served or told that
everything is at its cap exactly when the context filter left something viable,
or left only candidates at their cap and there is a queue to wait in. -/
theorem servable_request_answered_iff (r : Resolver) (m : Moment)
    (candidates : List MappingCandidate) (req : Request) (now : ℤ)
    (htel : ∀ id, m.fault (.telemetry id) = false)
    (hv : ∃ c ∈ candidates, excluded req c = false ∧ candidateServesNow m c = true ∧
      viable m now c = true) : ((∃ c, selectCandidate r m candidates req now = .ok (some c)) ∨
      ∃ ac, selectCandidate r m candidates req now = .error (.allAtCapacity ac) ∧
        r.admission = true ∧ AllAtCap r m req now (leftByContextFit m candidates req)) ↔
    ((∃ c ∈ leftByContextFit m candidates req, viable m now c = true) ∨
      r.admission = true ∧ AllAtCap r m req now (leftByContextFit m candidates req)) := by
  have hne : leftByContextFit m candidates req ≠ [] := by
    obtain ⟨c,hc,he,hs,-⟩ := hv
    exact contextFit_ne_nil _ _ (ne_nil_of_mem (mem_reachableNow m candidates req c hc he hs))
  have hans := selectCandidate_answers r m candidates req now
  generalize selectCandidate r m candidates req now = sel at hans
  cases hans with
  | failed id hf =>
    rw [htel id] at hf
    cases hf
  | nothing hn hcap =>
    constructor
    · rintro (⟨c,h⟩|⟨ac,h,-⟩)
      · cases h
      · cases h
    · rintro (⟨c,hc,hvc⟩|h)
      · rw [hn c hc] at hvc
        cases hvc
      · exact absurd h (hcap hne)
  | found c hc hvc => exact ⟨fun _ => .inl ⟨c,hc,hvc⟩,fun _ => .inl ⟨_,rfl⟩⟩
  | atCap _ ha hall => exact ⟨fun _ => .inr ⟨ha,hall⟩,fun _ => .inr ⟨_,rfl,ha,hall⟩⟩

/-! Two servers hold the model: one with a window large enough but too loaded
to be viable, and an idle one whose window is too small. -/

def longRequest : Request where
  model := "m"
  apiFlavor := "openai_chat_completions"
  maxTokens := 8000

def roomyCandidate : MappingCandidate where
  server := { id := "s1" }
  application := { id := "a1", serverID := "s1" }
  mapping := { id := "m1", applicationID := "a1", gatewayModelName := "m", contextSize := 32000 }

def idleCandidate : MappingCandidate where
  server := { id := "s2" }
  application := { id := "a2", serverID := "s2" }
  mapping := { id := "m2", applicationID := "a2", gatewayModelName := "m", contextSize := 4000 }

def loadedMoment : Moment where
  telemetry id := some { reportedAt := 1, activeRequests := if id = "s1" then 60 else 0 }

/-- The loaded server with no more room than the idle one. -/
def loadedCandidate : MappingCandidate :=
  { roomyCandidate with mapping := { roomyCandidate.mapping with contextSize := 4000 } }

theorem servable_request_answered_iff_idle :
    (∃ c, selectCandidate {} loadedMoment [loadedCandidate, idleCandidate] longRequest 1 =
        .ok (some c)) ∨
      ∃ ac, selectCandidate {} loadedMoment [loadedCandidate, idleCandidate] longRequest 1 =
          .error (.allAtCapacity ac) ∧ ({} : Resolver).admission = true ∧
        AllAtCap {} loadedMoment longRequest 1
          (leftByContextFit loadedMoment [loadedCandidate, idleCandidate] longRequest) := by
  refine (servable_request_answered_iff {} loadedMoment [loadedCandidate, idleCandidate] longRequest 1
    (fun _ => rfl) ⟨idleCandidate,by simp,by decide,by decide,by decide +kernel⟩).mpr ?_
  exact .inl ⟨idleCandidate,by decide,by decide +kernel⟩

theorem viable_request_finds_no_candidate :
    idleCandidate ∈ [roomyCandidate, idleCandidate] ∧ excluded longRequest idleCandidate = false ∧
    candidateServesNow loadedMoment idleCandidate = true ∧
    viable loadedMoment 1 idleCandidate = true ∧
    selectCandidate {} loadedMoment [roomyCandidate, idleCandidate] longRequest 1 = .ok none := by
  refine ⟨by simp,by decide,by decide,by decide +kernel,by decide +kernel⟩

end OnPremGateway.SelectionViability
