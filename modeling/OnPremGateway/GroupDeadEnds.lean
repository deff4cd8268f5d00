import OnPremGateway.GroupOutcomes

/-!
# A group is no dead end

As long as some member has a candidate that may serve the request, the last of
a group's attempts finds a member, or finds every such member at its cap and
parks, or serves the request from there when it must not park. What the earlier
attempts answer does not matter, except that an answer that is final is not
one of those that say the group cannot be served.
-/

set_option autoImplicit false

namespace OnPremGateway.GroupDeadEnds
open RuntimeTypes RoutingTypes CandidateSelection List
open SelectionViability RoutingGates CallOutcomes
open RoutingCalls RoutingGroups GateFacts
open RoutingFaults CallFrames GroupOutcomes

/-! ### A member's candidates -/

section Member
variable {r : Resolver} {st : Store} {m : Moment} {token : Token} {name apiFlavor : String}
  {req : Request} {gw : GroupWalk} {gated cands : List MappingCandidate} {live : Bool}

/-- With the loaded-only filter off, a gated candidate that meets the floor is
eligible. -/
theorem eligible_of_gated
    (h : eligibleCandidates r st m token name apiFlavor req gw = .ok (cands, live))
    (hg : gatedCandidates r st m token name apiFlavor req gw = .ok gated) (c : MappingCandidate)
    (hc : c ∈ expandInstances gated m.instances) (hl : gw.policy.loadedOnly = false)
    (hf : MeetsFloor m name gw.policy.minTokensPerSecond c) : c ∈ cands := by
  obtain ⟨gated',hg',h⟩ := (bind_ok_iff _ _ _).mp h
  rw [hg] at hg'
  cases hg'
  have hne : gated.isEmpty ≠ true := by
    obtain ⟨d,hd,-⟩ := mem_expandInstances gated m.instances c hc
    rw [ne_eq, List.isEmpty_iff]
    exact ne_nil_of_mem hd
  rw [if_neg hne] at h
  obtain ⟨met,hmet,h⟩ := (bind_ok_iff _ _ _).mp h
  cases h
  have hin := (mem_filterBySpeedFloor m name _ _ met hmet c).mpr ⟨hc,hf⟩
  rw [filterLoaded, hl]
  cases m.loaded with
  | none => exact hin
  | some loaded => exact hin

theorem gated_stored (hg : gatedCandidates r st m token name apiFlavor req gw = .ok gated)
    (c : MappingCandidate) (hc : c ∈ expandInstances gated m.instances) :
    c.mapping ∈ st.mappings := by
  obtain ⟨d,hd,hb⟩ := mem_expandInstances gated m.instances c hc
  obtain ⟨pool,hpool,hg⟩ := (bind_ok_iff _ _ _).mp hg
  have hd' : d ∈ pool := by
    cases hg
    split_ifs at hd
    · exact (mem_restrict _ _ d (mem_of_mem_filter hd)).1
    · exact (mem_restrict _ _ d hd).1
  have hstored := stored_of_memberPool r st m.fault token name apiFlavor req.apiFlavor _ pool hpool d hd'
  rw [show c.mapping = d.mapping from (congrArg MappingCandidate.mapping hb :)]
  exact (mem_activeMappings st name apiFlavor d hstored).1

end Member

/-- With every context window unknown the context filter leaves all. -/
theorem mem_left_of_unknown (m : Moment) (cands : List MappingCandidate) (req : Request)
    (hctx : ∀ c ∈ cands, c.mapping.contextSize ≤ 0) (c : MappingCandidate) (hc : c ∈ cands)
    (he : excluded req c = false) (hs : candidateServesNow m c = true) :
    c ∈ leftByContextFit m cands req := by
  have hr := mem_reachableNow m cands req c hc he hs
  rw [leftByContextFit, contextFit]
  split_ifs
  · exact hr
  · rw [mem_filter]
    refine ⟨hr,?_⟩
    simp [requestFitsContext, hctx c hc]

/-! ### One walk -/

/-- A member has a candidate that may serve the request under the policy's
floor. -/
def Offered (r : Resolver) (st : Store) (g : GroupResolve) (m : Moment) (floor : ℚ)
    (mem : GroupMember) : Prop :=
  ∃ gated, gatedCandidates r st m g.token mem.memberGatewayName g.apiFlavor g.req g.walk = .ok gated ∧
    ∃ c ∈ expandInstances gated m.instances, candidateServesNow m c = true ∧
      excluded g.req c = false ∧ MeetsFloor m mem.memberGatewayName floor c

def AllViable (r : Resolver) (st : Store) (g : GroupResolve) (m : Moment) (now : ℤ) : Prop :=
  ∀ mem ∈ g.members, ∀ gated,
    gatedCandidates r st m g.token mem.memberGatewayName g.apiFlavor g.req g.walk = .ok gated →
    ∀ c ∈ expandInstances gated m.instances, candidateServesNow m c = true → viable m now c = true

def Parkable (r : Resolver) (m : Moment) (now : ℤ) (p : ParkMaterial) : Prop :=
  r.admission = true ∧ p.servers ≠ [] ∧
    ∃ f, p.first = some f ∧ ∃ c ∈ f.2.pool, viable m now c = true

theorem parkable_add (r : Resolver) (m : Moment) (now : ℤ) (p q : ParkMaterial)
    (hp : p.first = none ∨ Parkable r m now p) (hq : Parkable r m now q) :
    Parkable r m now (p.add q) := by
  obtain ⟨ha,hservers,f,hf,hc⟩ := hq
  refine ⟨ha,?_,?_⟩
  · simp [ParkMaterial.add, hservers]
  rcases hp with hnone|⟨-,-,f',hf',hc'⟩
  · exact ⟨f,by rw [ParkMaterial.add, hnone, hf]; rfl,hc⟩
  · exact ⟨f',by rw [ParkMaterial.add, hf']; rfl,hc'⟩

section Walk
variable {r : Resolver} {st : Store} {g : GroupResolve} {m : Moment}

theorem left_viable (hviable : AllViable r st g m g.now) {mem : GroupMember} (hmem : mem ∈ g.members)
    {cands : List MappingCandidate} {live : Bool}
    (hel : eligibleCandidates r st m g.token mem.memberGatewayName g.apiFlavor g.req g.walk =
      .ok (cands, live)) (c : MappingCandidate) (hc : c ∈ leftByContextFit m cands g.req) :
    viable m g.now c = true := by
  obtain ⟨gated,hg,hsub⟩ := eligible_subset hel
  obtain ⟨hcands,-,hserves⟩ := mem_leftByContextFit m cands g.req c hc
  exact hviable mem hmem gated hg c (hsub c hcands) hserves

theorem left_of_offered (hctx : ∀ mapping ∈ st.mappings, mapping.contextSize ≤ 0)
    (hl : g.policy.loadedOnly = false) {mem : GroupMember}
    (hoff : Offered r st g m g.policy.minTokensPerSecond mem)
    {cands : List MappingCandidate} {live : Bool}
    (hel : eligibleCandidates r st m g.token mem.memberGatewayName g.apiFlavor g.req g.walk =
      .ok (cands, live)) : ∃ c, c ∈ leftByContextFit m cands g.req := by
  obtain ⟨gated,hg,c,hc,hserves,hex,hfloor⟩ := hoff
  have hin := eligible_of_gated hel hg c hc hl hfloor
  refine ⟨c,mem_left_of_unknown m cands g.req ?_ c hin hex hserves⟩
  intro d hd
  obtain ⟨gated',hg',hsub⟩ := eligible_subset hel
  exact hctx d.mapping (gated_stored hg' d (hsub d hd))

theorem mem_distinctServerIDs (cands : List MappingCandidate) (c : MappingCandidate) (hc : c ∈ cands) :
    c.server.id ∈ distinctServerIDs cands := by
  simp only [distinctServerIDs, distinctStrings, mem_reverse, mem_dedup]
  exact mem_map_of_mem hc

theorem atCapacity_parkable (hviable : AllViable r st g m g.now) {mem : GroupMember}
    (hmem : mem ∈ g.members) {pm : ParkMaterial}
    (h : selectMember r st m g.token mem.memberGatewayName g.apiFlavor g.req g.now g.walk =
      .ok (.atCapacity pm)) : Parkable r m g.now pm := by
  obtain ⟨cands,live,hel,hends⟩ := selectMember_ends r st m _ _ _ _ _ _ _ h
  cases hends with
  | atCapacity _ ac hfirst hpool hne ha hservers =>
    obtain ⟨c,hc⟩ := exists_mem_of_ne_nil _ hne
    have hleft : c ∈ leftByContextFit m cands g.req := by
      rw [← hpool]
      exact hc
    refine ⟨ha,?_,_,hfirst,c,hc,left_viable hviable hmem hel c hleft⟩
    rw [hservers]
    exact ne_nil_of_mem (mem_distinctServerIDs cands c (mem_leftByContextFit m _ _ c hleft).1)

/-- A walk that has met a member with an offer, or a member at its cap, finds
one to serve or one to wait for. -/
theorem walk_progress (hctx : ∀ mapping ∈ st.mappings, mapping.contextSize ≤ 0)
    (hl : g.policy.loadedOnly = false) (hviable : AllViable r st g m g.now)
    (mems : List GroupMember) (hmems : ∀ mem ∈ mems, mem ∈ g.members ∧ mem.memberGatewayName ≠ "")
    (park : ParkMaterial) (anyLive : Bool) (w : Walked)
    (hpark : park.first = none ∨ Parkable r m g.now park)
    (h : firstAvailable r st m g mems park anyLive = .ok w)
    (hoff : Parkable r m g.now park ∨
      ∃ mem ∈ mems, Offered r st g m g.policy.minTokensPerSecond mem) :
    w.named ≠ none ∨ Parkable r m g.now w.park := by
  induction mems generalizing park anyLive with
  | nil =>
    cases h
    rcases hoff with hp|⟨mem,hmem,-⟩
    · exact .inr hp
    · cases hmem
  | cons mem mems ih =>
    have hrest : ∀ mem ∈ mems, mem ∈ g.members ∧ mem.memberGatewayName ≠ "" :=
      fun x hx => hmems x (mem_cons_of_mem _ hx)
    obtain ⟨hmem,hname⟩ := hmems mem mem_cons_self
    obtain ⟨status,hstatus,h⟩ := (bind_ok_iff _ _ _).mp h
    obtain ⟨cands,live,hel,hends⟩ := selectMember_ends r st m _ _ _ _ _ _ _ hstatus
    -- a member that is passed over has no offer
    have hskip : leftByContextFit m cands g.req = [] ∨
        (∀ c ∈ leftByContextFit m cands g.req, viable m g.now c = false) → Parkable r m g.now park ∨
          ∃ mem ∈ mems, Offered r st g m g.policy.minTokensPerSecond mem := by
      intro hnone
      rcases hoff with hp|⟨x,hx,hoff⟩
      · exact .inl hp
      rcases mem_cons.mp hx with rfl|hx
      · obtain ⟨c,hc⟩ := left_of_offered hctx hl hoff hel
        rcases hnone with hnil|hdead
        · rw [hnil] at hc
          cases hc
        · have hv := left_viable hviable hmem hel c hc
          rw [hdead c hc] at hv
          cases hv
      · exact .inr ⟨x,hx,hoff⟩
    cases hends with
    | noMapping hnil =>
      apply ih hrest park anyLive hpark h
      apply hskip
      left
      rw [hnil, eq_nil_iff_forall_not_mem]
      intro c hc
      cases (mem_leftByContextFit m [] g.req c hc).1
    | unavailable hdead => exact ih hrest park true hpark h (hskip (.inr hdead))
    | ok c hc b =>
      cases h
      left
      simp [Walked.named, hname]
    | atCapacity pm ac hfirst hpool hne ha hservers =>
      have hp := parkable_add r m g.now park pm hpark (atCapacity_parkable hviable hmem hstatus)
      exact ih hrest (park.add pm) true (.inr hp) h (.inl hp)

theorem not_deadWalk (hctx : ∀ mapping ∈ st.mappings, mapping.contextSize ≤ 0)
    (hl : g.policy.loadedOnly = false) (hviable : AllViable r st g m g.now)
    (hnames : ∀ mem ∈ g.members, mem.memberGatewayName ≠ "")
    (hoff : ∃ mem ∈ g.members, Offered r st g m g.policy.minTokensPerSecond mem) :
    ¬DeadWalk r st m g := by
  rintro ⟨w,hw,hn,hend⟩
  have hp := (walk_progress hctx hl hviable g.members (fun mem hm => ⟨hm,hnames mem hm⟩) {} false w
    (.inl rfl) hw (.inr hoff)).resolve_left (fun h => h hn)
  obtain ⟨ha,hservers,f,hf,c,hc,hv⟩ := hp
  rcases hend with ⟨f',hf',hsel⟩|hwait
  · rw [hf] at hf'
    cases hf'
    obtain ⟨picked,hpicks,heq⟩ := selectWithoutParking_picks r m f.2 f.1 (audioRequest g.req) g.now
    rw [heq] at hsel
    cases hpicks with
    | failed id hfault => cases hsel
    | nothing hnone =>
      rw [hnone c hc] at hv
      cases hv
    | found d hd hvd => cases hsel
  · apply hwait
    refine ⟨?_,ha⟩
    rw [Bool.eq_false_iff, ne_eq, List.isEmpty_iff]
    exact hservers

end Walk

/-! ### The ladder -/

/-- A policy that filters no candidate out whose speed is good enough. -/
def Relaxed (policy p : GroupPolicy) : Prop :=
  p.loadedOnly = false ∧ (p.minTokensPerSecond ≤ 0 ∨
    p.minTokensPerSecond = policy.minTokensPerSecond ∧ policy.minSpeedFallback ≠ .ignore)

theorem attempts_last (policy : GroupPolicy) :
    ∃ first last, attempts policy = first ++ [last] ∧ Relaxed policy last := by
  have hkeep : ¬(policy.minTokensPerSecond > 0 ∧ policy.minSpeedFallback = .ignore) →
      policy.minTokensPerSecond ≤ 0 ∨ policy.minTokensPerSecond = policy.minTokensPerSecond ∧
        policy.minSpeedFallback ≠ .ignore := by
    intro h
    by_cases hz : policy.minTokensPerSecond > 0
    · exact .inr ⟨rfl,fun hi => h ⟨hz,hi⟩⟩
    · exact .inl (le_of_not_gt hz)
  rw [attempts]
  dsimp only
  by_cases hl : policy.loadedOnly = true
  · rw [if_pos hl, if_pos hl]
    by_cases hf : policy.minTokensPerSecond > 0 ∧ policy.minSpeedFallback = .ignore
    · rw [if_pos hf]
      exact ⟨_,_,rfl,rfl,.inl le_rfl⟩
    · rw [if_neg hf, append_nil]
      exact ⟨_,_,rfl,rfl,hkeep hf⟩
  rw [if_neg hl, if_neg hl, append_nil]
  have hl' : policy.loadedOnly = false := Bool.eq_false_iff.mpr hl
  by_cases hf : policy.minTokensPerSecond > 0 ∧ policy.minSpeedFallback = .ignore
  · rw [if_pos hf]
    exact ⟨_,_,rfl,hl',.inl le_rfl⟩
  · rw [if_neg hf, append_nil]
    exact ⟨[],_,rfl,hl',hkeep hf⟩

/-- What the ladder drops stays dropped. -/
theorem attempts_pairwise (policy : GroupPolicy) :
    (attempts policy).Pairwise fun p q => (p.loadedOnly = false → q.loadedOnly = false) ∧
      (p.minTokensPerSecond ≤ 0 → q.minTokensPerSecond ≤ 0) := by
  rw [attempts]
  dsimp only
  by_cases hl : policy.loadedOnly = true <;>
    by_cases hf : policy.minTokensPerSecond > 0 ∧ policy.minSpeedFallback = .ignore <;>
    simp [hl, hf]

/-- The floor a candidate has to meet so that the last attempt takes it. -/
def requiredFloor (policy : GroupPolicy) : ℚ :=
  if policy.minSpeedFallback = .ignore then 0 else policy.minTokensPerSecond

theorem Relaxed.meetsFloor {policy p : GroupPolicy} (h : Relaxed policy p) {m : Moment}
    {name : String} {c : MappingCandidate} (hc : MeetsFloor m name (requiredFloor policy) c) :
    MeetsFloor m name p.minTokensPerSecond c := by
  rcases h.2 with hz|⟨heq,hfall⟩
  · exact .inl hz
  · rw [heq]
    rw [requiredFloor, if_neg hfall] at hc
    exact hc

/-- What is asked of a turn: every candidate that serves now has a score, and
some member has an offer. -/
structure Servable (r : Resolver) (st : Store) (g : GroupResolve) (m : Moment) (now : ℤ) :
    Prop where
  viable : AllViable r st g m now
  offered : ∃ mem ∈ g.members, Offered r st g m (requiredFloor g.policy) mem

def AllServable (r : Resolver) (st : Store) (g : GroupResolve) (times : Set ℤ) (m : Moment) : Prop :=
  ∀ now ∈ times, Servable r st g m now

theorem allServable_unwritten (r : Resolver) (st : Store) (g : GroupResolve) (times : Set ℤ) :
    Unwritten (AllServable r st g times) := by
  intro m affinities reservations h now hnow
  exact ⟨(h now hnow).viable,(h now hnow).offered⟩

/-- The answers that say that a group cannot be served. -/
def DeadEnd (e : RoutingError) : Prop :=
  e = .noHealthyHost ∨ e = .noModelRoute ∨ e = .voiceUnavailable

section Ladder
variable {r : Resolver} {st : Store} {g : GroupResolve} {times : Set ℤ}

theorem AttemptEnd.deadEnd {T : Moment → Prop} {e : RoutingError}
    (h : AttemptEnd r st g T times e) (he : DeadEnd e) : e = .noHealthyHost ∨ e = .noModelRoute := by
  cases h with
  | fault what => rcases he with h|h|h <;> cases h
  | queue _ hq => cases hq <;> rcases he with h|h|h <;> cases h
  | empty _ => exact .inr rfl
  | dead _ he' => exact he'

/-- Under a relaxed policy no attempt is a dead end. -/
theorem AttemptEnd.not_deadEnd (hctx : ∀ mapping ∈ st.mappings, mapping.contextSize ≤ 0)
    (hnames : ∀ mem ∈ g.members, mem.memberGatewayName ≠ "") {p : GroupPolicy}
    (hp : Relaxed g.policy p) (hmembers : g.members ≠ []) {e : RoutingError}
    (h : AttemptEnd r st { g with policy := p } (AllServable r st g times) times e) :
    ¬DeadEnd e := by
  intro he
  cases h with
  | fault what => rcases he with h|h|h <;> cases h
  | queue _ hq => cases hq <;> rcases he with h|h|h <;> cases h
  | empty hnil => exact hmembers hnil
  | dead _ _ m now members hm hnow hsame hdead =>
    apply not_deadWalk hctx hp.1 ?_ ?_ ?_ hdead
    · intro mem hmem gated hg
      exact (hm now hnow).viable mem ((hsame mem).mp hmem) gated hg
    · intro mem hmem
      exact hnames mem ((hsame mem).mp hmem)
    · obtain ⟨mem,hmem,gated,hg,c,hc,hserves,hex,hfloor⟩ := (hm now hnow).offered
      exact ⟨mem,(hsame mem).mpr hmem,gated,hg,c,hc,hserves,hex,hp.meetsFloor hfloor⟩

/-- The ladder: an attempt that is a dead end is followed by another one, and
the last one is none. -/
theorem attemptInTurn_answers (hctx : ∀ mapping ∈ st.mappings, mapping.contextSize ≤ 0)
    (hnames : ∀ mem ∈ g.members, mem.memberGatewayName ≠ "") (hmembers : g.members ≠ [])
    (hnow : g.now ∈ times) (first : List GroupPolicy) (last : GroupPolicy)
    (hlast : Relaxed g.policy last) (err : RoutingError) :
    Ensures (TurnsIn (AllServable r st g times) times)
      (attemptInTurn r st g (first ++ [last]) err) (fun _ _ => True) (fun e _ => ¬DeadEnd e) := by
  have honce : ∀ p, Attempts (AllServable r st g times) times r st { g with policy := p }
      (resolveGroupOnce r st { g with policy := p }) :=
    fun p => resolveGroupOnce_attempts (allServable_unwritten r st g times) _ hnow
  have hstep : ∀ p policies err, (∀ e, AttemptEnd r st { g with policy := p }
        (AllServable r st g times) times e → DeadEnd e →
        Ensures (TurnsIn (AllServable r st g times) times) (attemptInTurn r st g policies e)
          (fun _ _ => True) (fun e _ => ¬DeadEnd e)) →
      Ensures (TurnsIn (AllServable r st g times) times) (attemptInTurn r st g (p::policies) err)
        (fun _ _ => True) (fun e _ => ¬DeadEnd e) := by
    intro p policies err hnext
    apply (Ensures.attempt (honce p)).bind
    intro res
    cases res with
    | ok target => exact Ensures.pure _ fun s hs => trivial
    | error e =>
      apply Ensures.assume (fun s hs => (hs.2 e rfl).1)
      intro hend
      apply Ensures.ite
      · intro he
        exact (hnext e hend (he.imp_right .inl)).of_pre fun s hs => (hs.2 e rfl).2
      · intro he
        exact Ensures.throw _ fun s hs hd => he (AttemptEnd.deadEnd hend hd)
  induction first generalizing err with
  | nil =>
    apply hstep last [] err
    intro e hend he
    exact absurd he (AttemptEnd.not_deadEnd hctx hnames hlast hmembers hend)
  | cons p first ih =>
    apply hstep p (first ++ [last]) err
    intro e _ _
    exact ih e

end Ladder

theorem groupRealtimeCheck_answers (r : Resolver) (st : Store) (m : Moment) (g : GroupResolve)
    (e : RoutingError) (h : groupRealtimeCheck r st m g = .error e) : ¬DeadEnd e := by
  rw [groupRealtimeCheck] at h
  split_ifs at h
  rcases (bind_error_iff _ _ _).mp h with h|⟨pool,-,h⟩
  · obtain ⟨what,rfl⟩ := onlyFaults_flatPool r st m.fault _ _ _ _ _ e h
    rintro (h|h|h) <;> cases h
  rcases (bind_error_iff _ _ _).mp h with h|⟨_,-,h⟩
  · rw [filterRealtime] at h
    dsimp only at h
    split_ifs at h
    cases h
    rintro (h|h|h) <;> cases h
  · cases h

/-- With every context window unknown, no member's name empty, and a member
with an offer at every turn, a group's call is not told that the group cannot
be served; and no later attempt takes up what an earlier one dropped. -/
theorem group_is_no_dead_end (r : Resolver) (st : Store) (g : GroupResolve) (s : CallState)
    (hnames : ∀ mem ∈ g.members, mem.memberGatewayName ≠ "")
    (hctx : ∀ mapping ∈ st.mappings, mapping.contextSize ≤ 0)
    (hturns : ∀ voice, groupVoiceScope r st s.moment g = .ok voice →
      ∀ m, m = s.moment ∨ Wake.woke m ∈ s.wakes → ∀ now, now = g.now ∨ (∃ i, now = s.clock i) →
        Servable r st { g with voice := voice } m now) :
    (∀ e t, outcome (resolveGroup r st g) s = (.error e, t) →
      e ≠ .noHealthyHost ∧ e ≠ .noModelRoute ∧ e ≠ .voiceUnavailable) ∧
    (attempts g.policy).Pairwise fun p q => (p.loadedOnly = false → q.loadedOnly = false) ∧
      (p.minTokensPerSecond ≤ 0 → q.minTokensPerSecond ≤ 0) := by
  refine ⟨?_,attempts_pairwise g.policy⟩
  have hcall : Ensures (fun t => t = s) (resolveGroup r st g) (fun _ _ => True)
      (fun e _ => ¬DeadEnd e) := by
    have hmoment : Ensures (fun t => t = s) thisMoment (fun m t => m = s.moment ∧ t = s)
        (fun e _ => ¬DeadEnd e) := by
      apply Ensures.get.bind
      intro t
      apply Ensures.pure
      rintro t' ⟨rfl,rfl⟩
      exact ⟨rfl,rfl⟩
    apply hmoment.bind
    intro m
    apply Ensures.assume (fun t ht => ht.1)
    rintro rfl
    have hvoice : Ensures (fun t => s.moment = s.moment ∧ t = s)
        (lift (groupVoiceScope r st s.moment g) : Run (Option VoiceScope))
        (fun voice t => groupVoiceScope r st s.moment g = .ok voice ∧ t = s)
        (fun e _ => ¬DeadEnd e) := by
      apply Ensures.lift
      · intro voice hv t ht
        exact ⟨hv,ht.2⟩
      · intro e he t ht
        obtain ⟨what,rfl⟩ := onlyFaults_groupVoiceScope r st s.moment g e he
        rintro (h|h|h) <;> cases h
    apply hvoice.bind
    intro voice
    apply Ensures.assume (fun t ht => ht.1)
    intro hv
    have hall := hturns voice hv
    have hcheck : Ensures (fun t => groupVoiceScope r st s.moment g = .ok voice ∧ t = s)
        (lift (groupRealtimeCheck r st s.moment { g with voice := voice }) : Run Unit)
        (fun _ t => t = s) (fun e _ => ¬DeadEnd e) := by
      apply Ensures.lift
      · intro _ _ t ht
        exact ht.2
      · intro e he t ht
        exact groupRealtimeCheck_answers r st s.moment _ e he
    apply hcheck.bind
    intro _
    obtain ⟨first,last,heq,hlast⟩ := attempts_last g.policy
    rw [show attempts ({ g with voice := voice } : GroupResolve).policy = first ++ [last] from heq]
    have hmembers : g.members ≠ [] := by
      obtain ⟨mem,hmem,-⟩ := (hall s.moment (.inl rfl) g.now (.inl rfl)).offered
      exact ne_nil_of_mem hmem
    have hnow : g.now ∈ { now : ℤ | now = g.now ∨ ∃ i, now = s.clock i } := .inl rfl
    apply (attemptInTurn_answers (g := { g with voice := voice }) hctx hnames hmembers hnow first last
      hlast .noModelRoute).of_pre
    rintro t rfl
    constructor
    · exact hall t.moment (.inl rfl)
    · intro m hm
      exact hall m (.inr hm)
    · intro i
      exact .inr ⟨i,rfl⟩
  intro e t ht
  have hend := (hcall s rfl).2 e t ht
  exact ⟨fun h => hend (.inl h),fun h => hend (.inr (.inl h)),fun h => hend (.inr (.inr h))⟩

/-! A group of two members: the first on a server that is ill, the other on an
idle one. -/

def soleStore (name : String) : Store where
  servers := [{ id := "ward", healthStatus := .unhealthy }, { id := "host" }]
  applications := [{ id := "ill", serverID := "ward", apiFlavors := ["openai"] },
    { id := "app", serverID := "host", apiFlavors := ["openai"] }]
  mappings := [{ id := "off", applicationID := "ill", gatewayModelName := "away" },
    { id := "map", applicationID := "app", gatewayModelName := name }]
  mappings_nodup := by simp

def illCandidate : MappingCandidate where
  server := { id := "ward", healthStatus := .unhealthy }
  application := { id := "ill", serverID := "ward", apiFlavors := ["openai"] }
  mapping := { id := "off", applicationID := "ill", gatewayModelName := "away" }

def soleCandidate (name : String) : MappingCandidate where
  server := { id := "host" }
  application := { id := "app", serverID := "host", apiFlavors := ["openai"] }
  mapping := { id := "map", applicationID := "app", gatewayModelName := name }

def soleGroup (name : String) : GroupResolve where
  token := { id := "t1" }
  req := { model := "team", apiFlavor := "openai_chat_completions" }
  key := ⟨"t1", "team", "openai", ""⟩
  apiFlavor := "openai"
  members := [⟨"away"⟩, ⟨name⟩]
  policy := { loadedOnly := true, minTokensPerSecond := 5, minSpeedFallback := .ignore }
  now := 1

theorem sole_servable (name : String) (now : ℤ)
    (haway : gatedCandidates {} (soleStore name) {} { id := "t1" } "away" "openai" (soleGroup name).req
      (soleGroup name).walk = .ok [illCandidate])
    (hgated : gatedCandidates {} (soleStore name) {} { id := "t1" } name "openai" (soleGroup name).req
      (soleGroup name).walk = .ok [soleCandidate name])
    (hviable : viable {} now (soleCandidate name) = true) :
    Servable {} (soleStore name) (soleGroup name) {} now := by
  constructor
  · intro mem hmem gated hg c hc hserves
    rcases mem_pair.mp hmem with rfl|rfl
    · rw [show gated = [illCandidate] from Except.ok.inj (hg.symm.trans haway)] at hc
      rw [mem_singleton.mp hc] at hserves
      exact absurd hserves (by decide)
    · rw [show gated = [soleCandidate name] from Except.ok.inj (hg.symm.trans hgated)] at hc
      rw [mem_singleton.mp hc]
      exact hviable
  · exact ⟨⟨name⟩,mem_pair.mpr (.inr rfl),_,hgated,soleCandidate name,mem_singleton.mpr rfl,rfl,rfl,
      .inl le_rfl⟩

theorem soleStore_unknown (name : String) :
    ∀ mapping ∈ (soleStore name).mappings, mapping.contextSize ≤ 0 := by
  intro mapping hm
  rcases mem_pair.mp hm with rfl|rfl <;> exact le_rfl

theorem group_is_no_dead_end_sole :
    (∀ e t, outcome (resolveGroup {} (soleStore "chat") (soleGroup "chat")) { moment := {} } =
      (.error e, t) → e ≠ .noHealthyHost ∧ e ≠ .noModelRoute ∧ e ≠ .voiceUnavailable) ∧
    (attempts (soleGroup "chat").policy).length = 3 := by
  refine ⟨(group_is_no_dead_end {} (soleStore "chat") (soleGroup "chat") { moment := {} }
    ?_ (soleStore_unknown "chat") ?_).1,by decide +kernel⟩
  · intro mem hmem
    rcases mem_pair.mp hmem with rfl|rfl <;> decide
  · intro voice hvoice m hm now hnow
    cases hvoice
    rcases hm with rfl|hm
    · apply sole_servable "chat" now (by decide +kernel) (by decide +kernel)
      rcases hnow with rfl|⟨i,rfl⟩
      · decide +kernel
      · change viable {} 0 _ = true
        decide +kernel
    · cases hm

/-- A member without a name is found and not served. -/
theorem unnamed_member_is_dead_end : Servable {} (soleStore "") (soleGroup "") {} 1 ∧
    (∀ mapping ∈ (soleStore "").mappings, mapping.contextSize ≤ 0) ∧
    (outcome (resolveGroup {} (soleStore "") (soleGroup "")) { moment := {} }).1 =
      .error .noHealthyHost :=
  ⟨sole_servable "" 1 (by decide +kernel) (by decide +kernel) (by decide +kernel),
    soleStore_unknown "",by decide +kernel⟩

end OnPremGateway.GroupDeadEnds
