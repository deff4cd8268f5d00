import OnPremGateway.CallFrames
import OnPremGateway.GateFacts

/-!
# What a group's call can answer

A turn serves a candidate that passes a member's gates, parks, or ends because
no member is left to serve or to wait for. One turn is described once; a whole
attempt is that description carried through the waits, the pin and the climb.
-/

set_option autoImplicit false

namespace OnPremGateway.GroupOutcomes
open RuntimeTypes RoutingTypes CandidateSelection List
open SelectionViability RoutingGates CallOutcomes
open RoutingCalls RoutingGroups GateFacts
open RoutingFaults CallFrames SliceOrder

/-! ### A member's candidates -/

theorem mem_meetingFloor (m : Moment) (name : String) (floor : ℚ)
    (cands out : List MappingCandidate) (h : meetingFloor m name floor cands = .ok out)
    (c : MappingCandidate) :
    c ∈ out ↔ c ∈ cands ∧ ∃ tps, candidateEffectiveGenTPS m c name = .ok tps ∧ floor ≤ tps := by
  induction cands generalizing out with
  | nil =>
    cases h
    simp
  | cons d ds ih =>
    obtain ⟨tps,htps,h⟩ := (bind_ok_iff _ _ _).mp h
    obtain ⟨rest,hrest,h⟩ := (bind_ok_iff _ _ _).mp h
    cases h
    have hd : (∃ t, candidateEffectiveGenTPS m d name = .ok t ∧ floor ≤ t) ↔ floor ≤ tps := by
      constructor
      · rintro ⟨t,ht,hf⟩
        rw [htps] at ht
        cases ht
        exact hf
      · intro hf
        exact ⟨tps,htps,hf⟩
    by_cases hf : floor ≤ tps
    · rw [if_pos hf, mem_cons, mem_cons, ih rest hrest]
      constructor
      · rintro (rfl|h)
        · exact ⟨.inl rfl,hd.mpr hf⟩
        · exact ⟨.inr h.1,h.2⟩
      · rintro ⟨rfl|h,ht⟩
        · exact .inl rfl
        · exact .inr ⟨h,ht⟩
    · rw [if_neg hf, mem_cons, ih rest hrest]
      constructor
      · rintro ⟨h,ht⟩
        exact ⟨.inr h,ht⟩
      · rintro ⟨rfl|h,ht⟩
        · exact absurd (hd.mp ht) hf
        · exact ⟨h,ht⟩

def MeetsFloor (m : Moment) (name : String) (floor : ℚ) (c : MappingCandidate) : Prop :=
  floor ≤ 0 ∨ ∃ tps, candidateEffectiveGenTPS m c name = .ok tps ∧ floor ≤ tps

theorem mem_filterBySpeedFloor (m : Moment) (name : String) (floor : ℚ)
    (cands out : List MappingCandidate) (h : filterBySpeedFloor m cands name floor = .ok out)
    (c : MappingCandidate) : c ∈ out ↔ c ∈ cands ∧ MeetsFloor m name floor c := by
  rw [filterBySpeedFloor] at h
  split_ifs at h with hf
  · cases h
    exact ⟨fun hc => ⟨hc,.inl hf⟩,fun hc => hc.1⟩
  rw [mem_meetingFloor m name floor cands out h c]
  constructor
  · rintro ⟨hc,ht⟩
    exact ⟨hc,.inr ht⟩
  · rintro ⟨hc,ht|ht⟩
    · exact absurd ht hf
    · exact ⟨hc,ht⟩

theorem filterLoaded_subset (m : Moment) (cands : List MappingCandidate) (loadedOnly : Bool) :
    ∀ c ∈ filterLoaded m cands loadedOnly, c ∈ cands := by
  intro c hc
  rw [filterLoaded] at hc
  split at hc
  · exact hc
  · split_ifs at hc
    · exact mem_of_mem_filter hc
    · exact hc

section Member
variable {r : Resolver} {st : Store} {m : Moment} {token : Token} {name apiFlavor : String}
  {req : Request} {gw : GroupWalk} {gated cands : List MappingCandidate} {live : Bool}

/-- The eligible candidates are instances of the gated ones. -/
theorem eligible_subset
    (h : eligibleCandidates r st m token name apiFlavor req gw = .ok (cands, live)) :
    ∃ gated, gatedCandidates r st m token name apiFlavor req gw = .ok gated ∧
      ∀ c ∈ cands, c ∈ expandInstances gated m.instances := by
  obtain ⟨gated,hg,h⟩ := (bind_ok_iff _ _ _).mp h
  refine ⟨gated,hg,?_⟩
  split_ifs at h
  · cases h
    intro c hc
    cases hc
  obtain ⟨met,hmet,h⟩ := (bind_ok_iff _ _ _).mp h
  cases h
  intro c hc
  exact ((mem_filterBySpeedFloor m name _ _ met hmet c).mp (filterLoaded_subset m met _ c hc)).1

end Member

/-! ### A member's status -/

inductive MemberEnds (r : Resolver) (m : Moment) (req : Request) (now : ℤ) (name : String)
    (cands : List MappingCandidate) : MemberStatus → Prop
  | noMapping (h : cands = []) : MemberEnds r m req now name cands .noMapping
  | unavailable (h : ∀ c ∈ leftByContextFit m cands req, viable m now c = false) :
      MemberEnds r m req now name cands .unavailable
  | ok (c : MappingCandidate) (hc : c ∈ leftByContextFit m cands req) (instancePool : Bool) :
      MemberEnds r m req now name cands (.ok { c with instancePool := instancePool })
  | atCapacity (pm : ParkMaterial) (ac : AtCapacity) (hfirst : pm.first = some (name, ac))
      (hpool : ac.pool = leftByContextFit m cands req) (hne : ac.pool ≠ [])
      (ha : r.admission = true) (hservers : pm.servers = distinctServerIDs cands) :
      MemberEnds r m req now name cands (.atCapacity pm)

theorem selectMember_ends (r : Resolver) (st : Store) (m : Moment) (token : Token)
    (name apiFlavor : String) (req : Request) (now : ℤ) (gw : GroupWalk) (status : MemberStatus)
    (h : selectMember r st m token name apiFlavor req now gw = .ok status) :
    ∃ cands live, eligibleCandidates r st m token name apiFlavor req gw = .ok (cands, live) ∧
      MemberEnds r m req now name cands status := by
  obtain ⟨⟨cands,live⟩,hel,h⟩ := (bind_ok_iff _ _ _).mp h
  refine ⟨cands,live,hel,?_⟩
  dsimp only at h
  split_ifs at h with hempty hlive
  · cases h
    apply MemberEnds.unavailable
    intro c hc
    rw [isEmpty_iff.mp hempty] at hc
    cases (mem_leftByContextFit m [] req c hc).1
  · cases h
    exact MemberEnds.noMapping (isEmpty_iff.mp hempty)
  have hans := selectCandidate_answers r m cands req now
  generalize selectCandidate r m cands req now = sel at hans h
  cases hans with
  | failed id hf => cases h
  | nothing hn hcap =>
    cases h
    exact MemberEnds.unavailable hn
  | found c hc hv =>
    cases h
    exact MemberEnds.ok c hc _
  | atCap hne ha hall =>
    cases h
    exact MemberEnds.atCapacity _ _ rfl rfl hne ha rfl

def Passes (r : Resolver) (st : Store) (g : GroupResolve) (name : String) (c : MappingCandidate) :
    Prop :=
  name ∈ memberNames g.members ∧
    ∃ m gated, gatedCandidates r st m g.token name g.apiFlavor g.req g.walk = .ok gated ∧
      ∃ d ∈ gated, base c = base d

structure Selectable (r : Resolver) (st : Store) (g : GroupResolve)
    (K : String → MappingCandidate → Prop) : Prop where
  left : ∀ m name cands live, name ∈ memberNames g.members →
    eligibleCandidates r st m g.token name g.apiFlavor g.req g.walk = .ok (cands, live) →
    ∀ c ∈ leftByContextFit m cands g.req, K name c
  pool : ∀ name c instancePool, K name c → K name { c with instancePool := instancePool }

theorem Selectable.reordered {r : Resolver} {st : Store} {g : GroupResolve}
    {K : String → MappingCandidate → Prop} (h : Selectable r st g K) {members : List GroupMember}
    (hmembers : ∀ mem, mem ∈ members ↔ mem ∈ g.members) (now : ℤ) :
    Selectable r st { g with members := members, now := now } K := by
  refine ⟨fun m name cands live hname => h.left m name cands live ?_,h.pool⟩
  obtain ⟨mem,hmem,heq⟩ := mem_map.mp hname
  exact mem_map.mpr ⟨mem,(hmembers mem).mp hmem,heq⟩

theorem passes_selectable (r : Resolver) (st : Store) (g : GroupResolve) :
    Selectable r st g (Passes r st g) := by
  refine ⟨fun m name cands live hname h c hc => ?_,fun _ _ _ h => h⟩
  obtain ⟨gated,hg,hsub⟩ := eligible_subset h
  obtain ⟨d,hd,hb⟩ := mem_expandInstances gated m.instances c
    (hsub c (mem_leftByContextFit m cands g.req c hc).1)
  exact ⟨hname,m,gated,hg,d,hd,hb⟩

section Walk
variable {r : Resolver} {st : Store} {m : Moment} {g : GroupResolve}
  {K : String → MappingCandidate → Prop} (hK : Selectable r st g K)
include hK

theorem selectMember_selects {name : String} {sel : MappingCandidate}
    (hname : name ∈ memberNames g.members)
    (h : selectMember r st m g.token name g.apiFlavor g.req g.now g.walk = .ok (.ok sel)) :
    K name sel := by
  obtain ⟨cands,live,hel,hends⟩ := selectMember_ends r st m _ _ _ _ _ _ _ h
  cases hends with
  | ok c hc b => exact hK.pool _ _ _ (hK.left m name cands live hname hel c hc)

/-- Every candidate a walk may be parked or served with meets the condition. -/
theorem firstAvailable_selects (mems : List GroupMember) (hmems : ∀ mem ∈ mems, mem ∈ g.members)
    (park : ParkMaterial) (anyLive : Bool) (w : Walked)
    (hpark : ∀ f, park.first = some f → ∀ c ∈ f.2.pool, K f.1 c)
    (h : firstAvailable r st m g mems park anyLive = .ok w) :
    (∀ f, w.found = some f → K f.1 f.2) ∧ ∀ f, w.park.first = some f → ∀ c ∈ f.2.pool, K f.1 c := by
  induction mems generalizing park anyLive with
  | nil =>
    cases h
    constructor
    · intro f hf
      cases hf
    · exact hpark
  | cons mem mems ih =>
    have hrest : ∀ mem ∈ mems, mem ∈ g.members := fun x hx => hmems x (mem_cons_of_mem _ hx)
    have hname : mem.memberGatewayName ∈ memberNames g.members :=
      mem_map_of_mem (hmems mem mem_cons_self)
    obtain ⟨status,hstatus,h⟩ := (bind_ok_iff _ _ _).mp h
    cases status with
    | noMapping => exact ih hrest park anyLive hpark h
    | unavailable => exact ih hrest park true hpark h
    | ok sel =>
      cases h
      constructor
      · intro f hf
        cases hf
        exact selectMember_selects hK hname hstatus
      · exact hpark
    | atCapacity pm =>
      apply ih hrest (park.add pm) true ?_ h
      intro f hf
      obtain ⟨cands,live,hel,hends⟩ := selectMember_ends r st m _ _ _ _ _ _ _ hstatus
      cases hends with
      | atCapacity _ ac hfirst hpool hne ha hservers =>
        -- the first member at its cap stays the first
        cases hp : park.first with
        | none =>
          rw [ParkMaterial.add, hp, hfirst] at hf
          cases hf
          rw [hpool]
          exact hK.left m _ cands live hname hel
        | some f' =>
          rw [ParkMaterial.add, hp] at hf
          cases hf
          exact hpark _ hp

theorem walk_selects {w : Walked} (h : firstAvailable r st m g g.members {} false = .ok w) :
    (∀ f, w.named = some f → K f.1 f.2) ∧ ∀ f, w.park.first = some f → ∀ c ∈ f.2.pool, K f.1 c := by
  obtain ⟨hfound,hpark⟩ := firstAvailable_selects hK g.members (fun _ hm => hm) {} false w
    (fun f hf => by cases hf) h
  exact ⟨fun f hf => hfound f (Option.eq_some_of_filter_eq_some hf),hpark⟩

theorem selectWithoutParking_selects {f : String × AtCapacity} {sel : MappingCandidate}
    (hpool : ∀ c ∈ f.2.pool, K f.1 c)
    (h : selectWithoutParking r m f.2 f.1 (audioRequest g.req) g.now = .ok (some sel)) :
    K f.1 sel := by
  obtain ⟨picked,hp,heq⟩ := selectWithoutParking_picks r m f.2 f.1 (audioRequest g.req) g.now
  rw [heq] at h
  cases hp with
  | failed id hf => cases h
  | nothing hn => cases h
  | found c hc hv =>
    cases h
    exact hK.pool _ _ _ (hpool c hc)

end Walk

/-! ### One attempt -/

def DeadWalk (r : Resolver) (st : Store) (m : Moment) (g : GroupResolve) : Prop :=
  ∃ w, firstAvailable r st m g g.members {} false = .ok w ∧ w.named = none ∧
    ((∃ f, w.park.first = some f ∧
        selectWithoutParking r m f.2 f.1 (audioRequest g.req) g.now = .ok none) ∨
      ¬(w.park.servers.isEmpty = false ∧ r.admission = true))

inductive AttemptEnd (r : Resolver) (st : Store) (g : GroupResolve) (T : Moment → Prop)
    (times : Set ℤ) : RoutingError → Prop
  | fault (what : String) : AttemptEnd r st g T times (.failed what)
  | queue (e : RoutingError) (he : OfQueue e) : AttemptEnd r st g T times e
  | empty (h : g.members = []) : AttemptEnd r st g T times .noModelRoute
  | dead (e : RoutingError) (he : e = .noHealthyHost ∨ e = .noModelRoute) (m : Moment) (now : ℤ)
      (members : List GroupMember) (hm : T m) (hnow : now ∈ times)
      (hmembers : ∀ mem, mem ∈ members ↔ mem ∈ g.members)
      (h : DeadWalk r st m { g with members := members, now := now }) : AttemptEnd r st g T times e

/-- The target of a candidate that passes the gates of one of the members. -/
def Serves (r : Resolver) (st : Store) (g : GroupResolve) (target : Target) : Prop :=
  ∃ name c m, Passes r st g name c ∧ targetFrom m c g.apiFlavor = .ok target

section Calls
variable {r : Resolver} {st : Store} {T : Moment → Prop} {times : Set ℤ}
  {E : RoutingError → CallState → Prop} {K : String → MappingCandidate → Prop} (hT : Unwritten T)
include hT

theorem ensures_groupPin (key : AffinityKey) (members : List GroupMember) (now : ℤ) :
    Ensures (TurnsIn T times) (groupPin key members now)
      (fun name s => (name = "" ∨ memberNameExists members name = true) ∧ TurnsIn T times s) E := by
  have hnone : ∀ s, TurnsIn T times s →
      (("" : String) = "" ∨ memberNameExists members "" = true) ∧ TurnsIn T times s :=
    fun s hs => ⟨.inl rfl,hs⟩
  apply ensures_atMoment
  intro m _
  cases lookupAffinity m key with
  | error e => exact Ensures.pure _ hnone
  | ok found =>
    cases found with
    | none => exact Ensures.pure _ hnone
    | some aff =>
      dsimp only
      split_ifs with hpin
      · exact Ensures.pure _ fun s hs => ⟨.inr hpin.2.2,hs⟩
      · apply Ensures.bind (ensures_deleteAffinity hT key)
        intro _
        exact Ensures.pure _ hnone

omit hT in
theorem ensures_warm (g : GroupResolve) (name : String) :
    Ensures (TurnsIn T times) (warm r g name) (fun _ => TurnsIn T times) E := by
  apply Ensures.modify
  intro s hs
  split_ifs
  · exact hs
  · exact ⟨hs.moment,hs.wakes,hs.clock⟩

variable (hfault : ∀ what s, TurnsIn T times s → E (.failed what) s)
include hfault

theorem ensures_serve (g : GroupResolve) (name : String) (sel : MappingCandidate) (hsel : K name sel) :
    Ensures (TurnsIn T times) (serve r g name sel)
      (fun target s => (∃ name c m, K name c ∧ targetFrom m c g.apiFlavor = .ok target) ∧
        TurnsIn T times s) E := by
  have hpin : Ensures (TurnsIn T times) (upsertGroupPin r g name sel)
      (fun _ => TurnsIn T times) E := by
    rw [upsertGroupPin]
    split_ifs
    · exact Ensures.pure _ fun s hs => hs
    · apply (ensures_upsertAffinity hT hfault _ _ _).bind
      intro _
      exact ensures_touchSession hT r _ _ _
  apply hpin.bind
  intro _
  apply ensures_atMoment
  intro m _
  apply (ensures_lift hfault _ (onlyFaults_targetFrom m sel g.apiFlavor)).mono
    (fun s hs => hs) ?_ (fun _ s hs => hs)
  intro target s hs
  exact ⟨⟨name,sel,m,hsel,hs.1⟩,hs.2⟩

omit hT hfault in
theorem none_selected (s : CallState) (hs : TurnsIn T times s) :
    (∀ f, (none : Option (String × MappingCandidate)) = some f → K f.1 f.2) ∧ TurnsIn T times s := by
  refine ⟨fun f hf => ?_,hs⟩
  cases hf

omit hT in
theorem ensures_climbTarget (g : GroupResolve) (hK : Selectable r st g K)
    (pinned : String × MappingCandidate) : Ensures (TurnsIn T times) (climbTarget r st g pinned)
      (fun found s => (∀ f, found = some f → K f.1 f.2) ∧ TurnsIn T times s) E := by
  apply ensures_atMoment
  intro m _
  apply ensures_lifted hfault (onlyFaults_firstAvailable r st m g _ _ _)
  intro w hw
  cases hn : w.named with
  | none => exact Ensures.pure _ none_selected
  | some best =>
    apply Ensures.ite
    · intro _
      exact Ensures.pure _ none_selected
    intro _
    apply ensures_lifted hfault (onlyFaults_marginMet m g best pinned)
    intro met _
    apply Ensures.ite
    · intro _
      exact Ensures.pure _ none_selected
    intro _
    apply Ensures.ite
    · intro _
      apply Ensures.pure
      intro s hs
      refine ⟨fun f hf => ?_,hs⟩
      cases hf
      exact (walk_selects hK hw).1 best hn
    · intro _
      apply (ensures_warm g best.1).bind
      intro _
      exact Ensures.pure _ none_selected

theorem ensures_pinnedMember (g : GroupResolve) (hK : Selectable r st g K) :
    Ensures (TurnsIn T times) (pinnedMember r st g)
      (fun found s => (∀ f, found = some f → K f.1 f.2) ∧ TurnsIn T times s) E := by
  apply (ensures_groupPin hT g.key g.members g.now).bind
  intro pinned
  apply Ensures.assume (fun s hs => hs.1)
  intro hpinned
  apply Ensures.of_pre (P := TurnsIn T times) ?_ fun s hs => hs.2
  apply Ensures.ite
  · intro _
    exact Ensures.pure _ none_selected
  intro hempty
  have hname : pinned ∈ memberNames g.members := by
    have hex := hpinned.resolve_left hempty
    rw [memberNameExists, any_eq_true] at hex
    obtain ⟨mem,hmem,heq⟩ := hex
    rw [← of_decide_eq_true heq]
    exact mem_map_of_mem hmem
  apply ensures_atMoment
  intro m _
  apply ensures_lifted hfault (onlyFaults_selectMember r st m _ _ _ _ _ _)
  intro status hstatus
  cases status with
  | noMapping => exact Ensures.pure _ none_selected
  | unavailable => exact Ensures.pure _ none_selected
  | atCapacity pm => exact Ensures.pure _ none_selected
  | ok sel =>
    have hsel := selectMember_selects hK hname hstatus
    have hstay : ∀ s, TurnsIn T times s →
        (∀ f, some (pinned, sel) = some f → K f.1 f.2) ∧ TurnsIn T times s := by
      intro s hs
      refine ⟨fun f hf => ?_,hs⟩
      cases hf
      exact hsel
    apply Ensures.ite
    · intro _
      apply (ensures_climbTarget hfault g hK (pinned, sel)).bind
      intro best
      cases best with
      | none => exact Ensures.pure _ fun s hs => hstay s hs.2
      | some best => exact Ensures.pure _ fun s hs => hs
    · intro _
      exact Ensures.pure _ hstay

end Calls

section Turns
variable {r : Resolver} {st : Store} {T : Moment → Prop} {times : Set ℤ}
  {K : String → MappingCandidate → Prop} (hT : Unwritten T)

/-- The two ends of an attempt: a target that passed its gates, or an answer
that says why there is none. -/
def Attempts (T : Moment → Prop) (times : Set ℤ) (r : Resolver) (st : Store) (g : GroupResolve)
    (x : Run Target) : Prop :=
  Ensures (TurnsIn T times) x (fun target s => Serves r st g target ∧ TurnsIn T times s)
    (fun e s => AttemptEnd r st g T times e ∧ TurnsIn T times s)

def AttemptsWith (K : String → MappingCandidate → Prop) (T : Moment → Prop) (times : Set ℤ)
    (r : Resolver) (st : Store) (g : GroupResolve) (x : Run Target) : Prop :=
  Ensures (TurnsIn T times) x
    (fun target s => (∃ name c m, K name c ∧ targetFrom m c g.apiFlavor = .ok target) ∧
      TurnsIn T times s)
    (fun e s => AttemptEnd r st g T times e ∧ TurnsIn T times s)

/-- What an attempt ends with does not depend on the order of the members or on
the time it starts at. -/
theorem AttemptsWith.of_reordered {g : GroupResolve} {members : List GroupMember} {now : ℤ}
    {x : Run Target} (hmembers : ∀ mem, mem ∈ members ↔ mem ∈ g.members)
    (h : AttemptsWith K T times r st { g with members := members, now := now } x) :
    AttemptsWith K T times r st g x := by
  apply Ensures.mono h (fun s hs => hs) (fun target s hs => hs)
  rintro e s ⟨he,hs⟩
  refine ⟨?_,hs⟩
  cases he with
  | fault what => exact AttemptEnd.fault what
  | queue _ hq => exact AttemptEnd.queue _ hq
  | empty h =>
    apply AttemptEnd.empty
    rw [eq_nil_iff_forall_not_mem]
    intro mem hmem
    rw [← hmembers mem, show members = [] from h] at hmem
    cases hmem
  | dead _ he m now' ms hm hnow hms hdead =>
    exact AttemptEnd.dead e he m now' ms hm hnow (fun mem => (hms mem).trans (hmembers mem)) hdead

include hT

theorem groupTurn_attempts (g : GroupResolve) (hK : Selectable r st g K) (hnow : g.now ∈ times)
    (deadline : ℤ) (again : ℤ → Run Target) (hagain : ∀ d, AttemptsWith K T times r st g (again d)) :
    AttemptsWith K T times r st g (groupTurn r st g deadline again) := by
  have hfault : ∀ what s, TurnsIn T times s →
      AttemptEnd r st g T times (.failed what) ∧ TurnsIn T times s :=
    fun what s hs => ⟨AttemptEnd.fault what,hs⟩
  have hdead : ∀ e m, T m → (e = .noHealthyHost ∨ e = .noModelRoute) → DeadWalk r st m g →
      AttemptEnd r st g T times e :=
    fun e m hm he h => AttemptEnd.dead e he m g.now g.members hm hnow (fun _ => Iff.rfl) h
  apply ensures_atMoment
  intro m hm
  apply ensures_lifted hfault (onlyFaults_firstAvailable r st m g _ _ _)
  intro w hw
  obtain ⟨hnamed,hfirst⟩ := walk_selects hK hw
  -- a wait, or the end when there is nothing to wait for
  have hpark (hn : w.named = none) : AttemptsWith K T times r st g
      (if w.park.servers.isEmpty = false ∧ r.admission = true then do
        let deadline := if deadline = 0 then deadlineOf g.req g.now w.park.queueSecs else deadline
        parkTurn r deadline w.park.demand
        again deadline
      else if w.anyLive then throw .noHealthyHost
      else throw .noModelRoute) := by
    apply Ensures.ite
    · intro _
      apply (ensures_parkTurn (fun e s he hs => ⟨AttemptEnd.queue e he,hs⟩) r _ _).bind
      intro _
      exact hagain _
    intro hwait
    apply Ensures.ite
    · intro _
      exact Ensures.throw _ fun s hs =>
        ⟨hdead _ m hm (.inl rfl) ⟨w,hw,hn,.inr hwait⟩,hs⟩
    · intro _
      exact Ensures.throw _ fun s hs =>
        ⟨hdead _ m hm (.inr rfl) ⟨w,hw,hn,.inr hwait⟩,hs⟩
  cases hn : w.named with
  | some f => exact ensures_serve hT hfault g f.1 f.2 (hnamed f hn)
  | none =>
    dsimp only
    cases hnp : neverParks g.req with
    | false => exact hpark hn
    | true =>
      cases hf : w.park.first with
      | none => exact hpark hn
      | some f =>
        apply ensures_lifted hfault (onlyFaults_selectWithoutParking r m f.2 f.1 _ _)
        intro sel hsel
        cases sel with
        | none =>
          exact Ensures.throw _ fun s hs =>
            ⟨hdead _ m hm (.inl rfl) ⟨w,hw,hn,.inl ⟨f,hf,hsel⟩⟩,hs⟩
        | some sel =>
          apply (ensures_signalOverflow r g.req _).bind
          intro _
          exact ensures_serve hT hfault g f.1 sel
            (selectWithoutParking_selects hK (hfirst f hf) hsel)

/-- The turns of an attempt: the induction is on the waits to come. -/
theorem groupTurns_attempts (wakes : List Wake) (hwakes : ∀ m, Wake.woke m ∈ wakes → T m)
    (g : GroupResolve) (hK : Selectable r st g K) (hnow : g.now ∈ times) (deadline : ℤ) :
    AttemptsWith K T times r st g (groupTurns r st wakes g deadline) := by
  induction wakes generalizing g deadline with
  | nil =>
    apply groupTurn_attempts hT g hK hnow
    intro d
    exact Ensures.throw _ fun s hs => ⟨AttemptEnd.queue _ OfQueue.parked,hs⟩
  | cons w later ih =>
    apply groupTurn_attempts hT g hK hnow
    intro d
    apply (ensures_waitForSlot (fun e s he hs => ⟨AttemptEnd.queue e he,hs⟩) w later hwakes).bind
    intro _
    apply ensures_readClock.bind
    intro now
    apply Ensures.assume (fun s hs => hs.1)
    intro hnow'
    have hlater := ih (fun m hm => hwakes m (mem_cons_of_mem _ hm)) { g with now := now }
      (hK.reordered (fun _ => Iff.rfl) now) hnow' d
    exact Ensures.of_pre (AttemptsWith.of_reordered (fun _ => Iff.rfl) hlater) fun s hs => hs.2

omit hT in
theorem memberSpeeds_map (m : Moment) (g : GroupResolve) (mems : List GroupMember)
    (speeds : List (GroupMember × ℚ)) (h : memberSpeeds r st m g mems = .ok speeds) :
    speeds.map Prod.fst = mems := by
  induction mems generalizing speeds with
  | nil =>
    cases h
    rfl
  | cons mem mems ih =>
    obtain ⟨one,hone,h⟩ := (bind_ok_iff _ _ _).mp h
    obtain ⟨rest,hrest,h⟩ := (bind_ok_iff _ _ _).mp h
    cases h
    obtain ⟨el,-,hone⟩ := (bind_ok_iff _ _ _).mp hone
    obtain ⟨best,-,hone⟩ := (bind_ok_iff _ _ _).mp hone
    cases hone
    rw [map_cons, ih rest hrest]

omit hT in
theorem mem_orderMembersBySpeed (m : Moment) (g : GroupResolve) (members : List GroupMember)
    (h : orderMembersBySpeed r st m g = .ok members) (mem : GroupMember) :
    mem ∈ members ↔ mem ∈ g.members := by
  obtain ⟨speeds,hspeeds,h⟩ := (bind_ok_iff _ _ _).mp h
  cases h
  rw [← memberSpeeds_map m g g.members speeds hspeeds]
  exact ((sortSlice_perm _ speeds).map Prod.fst).mem_iff

theorem resolveGroupOnce_attemptsWith (g : GroupResolve) (hK : Selectable r st g K)
    (hnow : g.now ∈ times) : AttemptsWith K T times r st g (resolveGroupOnce r st g) := by
  apply Ensures.ite
  · intro hempty
    exact Ensures.throw _ fun s hs => ⟨AttemptEnd.empty (isEmpty_iff.mp hempty),hs⟩
  intro _
  apply ensures_atMoment
  intro m _
  have horder : OnlyFaults (if g.policy.memberOrder = .speed then orderMembersBySpeed r st m g
      else .ok g.members) := by
    split_ifs
    · exact (onlyFaults_memberSpeeds r st m g _).bind fun _ => onlyFaults_ok _
    · exact onlyFaults_ok _
  apply ensures_lifted (fun what s hs => ⟨AttemptEnd.fault what,hs⟩) horder
  intro members hmembers
  have hsame : ∀ mem, mem ∈ members ↔ mem ∈ g.members := by
    split_ifs at hmembers
    · exact mem_orderMembersBySpeed m g members hmembers
    · cases hmembers
      exact fun _ => Iff.rfl
  -- from here on the attempt walks the members in the group's order
  have hK' := hK.reordered hsame g.now
  apply AttemptsWith.of_reordered hsame
  have hfault : ∀ what s, TurnsIn T times s →
      AttemptEnd r st { g with members := members } T times (.failed what) ∧ TurnsIn T times s :=
    fun what s hs => ⟨AttemptEnd.fault what,hs⟩
  apply (ensures_pinnedMember hT hfault { g with members := members } hK').bind
  intro found
  apply Ensures.assume (fun s hs => hs.1)
  intro hfound
  cases found with
  | some f =>
    exact (ensures_serve hT hfault _ f.1 f.2 (hfound f rfl)).of_pre fun s hs => hs.2
  | none =>
    apply Ensures.get.bind
    intro s
    refine Ensures.assume (p := TurnsIn T times s) ?_ ?_
    · rintro t ⟨rfl,ht⟩
      exact ht.2
    intro hs
    exact (groupTurns_attempts hT s.wakes hs.wakes { g with members := members } hK' hnow 0).of_pre
      fun t ht => ht.2.2

theorem resolveGroupOnce_attempts (g : GroupResolve) (hnow : g.now ∈ times) :
    Attempts T times r st g (resolveGroupOnce r st g) :=
  resolveGroupOnce_attemptsWith hT g (passes_selectable r st g) hnow

end Turns

end OnPremGateway.GroupOutcomes
