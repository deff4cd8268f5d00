import OnPremGateway.KeyedTable
import OnPremGateway.SelectionViability
import OnPremGateway.RoutingResolver

/-!
# The slot a session holds

A session that is pinned to a server holds one of its slots, so that other
traffic does not take it. The cap counts the slots held without asking who
holds them, and the walk over a group judges the pinned member by that cap.
-/

set_option autoImplicit false

namespace OnPremGateway.SessionSlots
open RuntimeTypes RoutingTypes KeyedTable List
open CandidateSelection SelectionViability RoutingGates
open CallOutcomes RoutingCalls RoutingGroups
open RoutingResolver

def otherSessions (window : ℤ) (sessions : AList (fun _ : String => ℤ)) (own : String) (now : ℤ) :
    List (Sigma fun _ : String => ℤ) :=
  (liveSessions window sessions now).filter fun e => e.1 ≠ own

theorem liveSessions_length (window : ℤ) (sessions : AList (fun _ : String => ℤ)) (own : String)
    (seen now : ℤ) (hown : sessions.lookup own = some seen) (hlive : sub now seen < window) :
    (liveSessions window sessions now).length =
      (otherSessions window sessions own now).length + 1 := by
  have hperm := entries_perm_erase sessions own seen hown
  have hothers : ∀ e ∈ (sessions.erase own).entries, e.1 ≠ own := by
    intro e he h
    have hk : e.1 ∈ sessions.erase own := mem_keys_of_mem he
    rw [AList.mem_erase] at hk
    exact hk.1 h
  have hall : (liveSessions window sessions now).length =
      ((sessions.erase own).entries.filter fun e => sub now e.2 < window).length + 1 := by
    rw [liveSessions, (hperm.filter _).length_eq, filter_cons_of_pos (by simpa using hlive)]
    rfl
  have hrest : (otherSessions window sessions own now).length =
      ((sessions.erase own).entries.filter fun e => sub now e.2 < window).length := by
    rw [otherSessions, liveSessions, filter_filter, (hperm.filter _).length_eq,
      filter_cons_of_neg (by simp)]
    congr 1
    apply filter_congr
    intro e he
    simp [hothers e he]
  rw [hall, hrest]

/-- A group session whose usable pin names a member with an eligible candidate
of a mapping without instances, on a server where the session holds a slot. -/
structure PinnedSlot (r : Resolver) (st : Store) (g : GroupResolve) (s : CallState) where
  aff : RouteAffinity
  cands : List MappingCandidate
  c : MappingCandidate
  sessions : AList (fun _ : String => ℤ)
  activity : String → ServerActivity
  seen : ℤ
  window : 0 < r.reservationWindow
  readable : s.moment.fault (.affinity g.key) = false
  pin : s.moment.affinities.lookup g.key = some aff
  unexpired : g.now < aff.expiresAt
  named : aff.resolvedModel ≠ ""
  member : memberNameExists g.members aff.resolvedModel = true
  eligible : eligibleCandidates r st s.moment g.token aff.resolvedModel g.apiFlavor g.req g.walk =
    .ok (cands, true)
  mem : c ∈ cands
  plain : c.instanceCapable = false
  capped : 0 < c.mapping.maxConcurrency
  server : c.server.id ≠ ""
  wired : s.moment.activity = some activity
  reserved : s.moment.reservations.lookup c.server.id = some sessions
  own : sessions.lookup (r.affinityID g.key) = some seen
  live : sub g.now seen < r.reservationWindow

namespace PinnedSlot
variable {r : Resolver} {st : Store} {g : GroupResolve} {s : CallState} (p : PinnedSlot r st g s)

def inFlight : ℤ := (p.activity p.c.server.id).inFlight

/-- The slots other sessions hold on the server. -/
def others : ℤ := (otherSessions r.reservationWindow p.sessions (r.affinityID g.key) g.now).length

/-- Whether the selection over the member's candidates judges live slots. -/
def judgeLive : Bool :=
  judgesLive s.moment g.req (hasInstance (leftByContextFit s.moment p.cands g.req))

def slotHeld : Bool :=
  match s.moment.liveSlots with
  | none => false
  | some held => held p.c.key

theorem activeCount_eq :
    activeCount r.reservationWindow s.moment.reservations p.c.server.id g.now = p.others + 1 := by
  have hw := p.window
  rw [activeCount, if_neg (by rintro (h|h); · omega
                              · exact p.server h), p.reserved]
  change ((liveSessions _ _ _).length : ℤ) = _
  rw [liveSessions_length _ _ _ _ _ p.own p.live, others]
  push_cast
  rfl

theorem underCap_iff : underCap r s.moment p.c g.now p.judgeLive = true ↔
      p.inFlight + p.others + 1 < p.c.mapping.maxConcurrency ∧
      ¬(p.judgeLive = true ∧ p.slotHeld = true) := by
  have hcap := p.capped
  rw [underCap]
  change (if (p.judgeLive && p.slotHeld) = true then _ else _) = true ↔ _
  rw [← Bool.and_eq_true]
  cases p.judgeLive && p.slotHeld with
  | true => simp
  | false =>
    simp only [p.plain, Bool.false_eq_true, if_false, if_neg (show ¬p.c.mapping.maxConcurrency ≤ 0 by omega),
      p.wired, p.activeCount_eq, decide_eq_true_eq, not_false_eq_true, and_true]
    rw [inFlight]
    omega

theorem groupPin_eq : outcome (groupPin g.key g.members g.now) s = (.ok p.aff.resolvedModel, s) := by
  have hl : lookupAffinity s.moment g.key = .ok (some p.aff) := by
    rw [lookupAffinity, readStore_ok_iff]
    exact ⟨p.readable,p.pin⟩
  have hu : p.aff.expiresAt > g.now ∧ p.aff.resolvedModel ≠ "" ∧
      memberNameExists g.members p.aff.resolvedModel = true := ⟨p.unexpired,p.named,p.member⟩
  simp only [groupPin, thisMoment, outcome_bind, outcome_get, outcome_pure, hl, if_pos hu]

theorem selectMember_ok (hcap : underCap r s.moment p.c g.now p.judgeLive = true)
    (hleft : p.c ∈ leftByContextFit s.moment p.cands g.req)
    (hv : viable s.moment g.now p.c = true) (htel : ∀ id, s.moment.fault (.telemetry id) = false) :
    ∃ sel, selectMember r st s.moment g.token p.aff.resolvedModel g.apiFlavor g.req g.now g.walk =
      .ok (.ok sel) := by
  have hne : p.cands.isEmpty = false := by
    rw [Bool.eq_false_iff, ne_eq, List.isEmpty_iff]
    exact ne_nil_of_mem p.mem
  have hsel : ∃ sel, selectCandidate r s.moment p.cands g.req g.now = .ok (some sel) := by
    have hans := selectCandidate_answers r s.moment p.cands g.req g.now
    generalize selectCandidate r s.moment p.cands g.req g.now = sel at hans
    cases hans with
    | failed id hf =>
      rw [htel id] at hf
      cases hf
    | nothing hn _ =>
      rw [hn p.c hleft] at hv
      cases hv
    | found c _ _ => exact ⟨_,rfl⟩
    | atCap _ _ hall =>
      have hc : underCap r s.moment p.c g.now p.judgeLive = false := hall p.c hleft
      rw [hcap] at hc
      cases hc
  obtain ⟨sel,hsel⟩ := hsel
  refine ⟨sel,?_⟩
  rw [selectMember, p.eligible]
  change (if p.cands.isEmpty = true then _ else _) = _
  rw [hne, hsel]
  rfl

end PinnedSlot

/-- The pinned session's candidate is under its cap exactly when there is room
for the requests in flight, the other sessions' slots and one slot more, its
own; then the session is served on its pin. -/
theorem own_slot_usable_iff (r : Resolver) (st : Store) (g : GroupResolve) (s : CallState)
    (p : PinnedSlot r st g s) : (underCap r s.moment p.c g.now p.judgeLive = true ↔
      p.inFlight + p.others + 1 < p.c.mapping.maxConcurrency ∧
      ¬(p.judgeLive = true ∧ p.slotHeld = true)) ∧
    (underCap r s.moment p.c g.now p.judgeLive = true →
      p.c ∈ leftByContextFit s.moment p.cands g.req → viable s.moment g.now p.c = true →
      (∀ id, s.moment.fault (.telemetry id) = false) → g.policy.failoverMode ≠ .climbUp →
      ∃ sel, outcome (pinnedMember r st g) s = (.ok (some (p.aff.resolvedModel, sel)), s)) := by
  refine ⟨p.underCap_iff,?_⟩
  intro hcap hleft hv htel hmode
  obtain ⟨sel,hsel⟩ := p.selectMember_ok hcap hleft hv htel
  refine ⟨sel,?_⟩
  simp only [pinnedMember, thisMoment, outcome_bind, p.groupPin_eq, if_neg p.named, outcome_get,
    outcome_pure, outcome_lift, hsel, if_neg hmode]

/-! One session of one client, in a group with one member on an idle server. -/

def loneResolver : Resolver where
  admission := true
  reservationWindow := 300*10^9
  groups := some
    { group := fun name => if name = "team" then some ([⟨"chat"⟩], {}) else none
      directAllowed := fun _ => true }

def loneStore (slots : ℤ) : Store where
  servers := [{ id := "s1" }]
  applications :=
    [{ id := "a1", serverID := "s1", apiFlavors := ["openai"], affinityTTLSeconds := 3600 }]
  mappings :=
    [{ id := "m1", applicationID := "a1", gatewayModelName := "chat", maxConcurrency := slots }]
  mappings_nodup := by simp

def loneToken : Token where
  id := "t1"

def loneRequest : Request where
  model := "team"
  apiFlavor := "openai_chat_completions"
  clientSessionID := "c1"

def idleMoment : Moment where
  activity := some fun _ => {}

def loneTurn (slots now : ℤ) (m : Moment) : Except RoutingError Target × CallState :=
  outcome (resolveStandard loneResolver (loneStore slots) loneToken loneRequest "openai" now)
    { moment := m }

def secondState (slots : ℤ) : CallState where
  moment :=
    { idleMoment with
      affinities := (loneTurn slots 1 idleMoment).2.moment.affinities
      reservations := (loneTurn slots 1 idleMoment).2.moment.reservations }

def loneGroup : GroupResolve where
  token := loneToken
  req := loneRequest
  key := ⟨"t1", "team", "openai", "c1"⟩
  apiFlavor := "openai"
  members := [⟨"chat"⟩]
  policy := {}
  now := 2

def loneCandidate (slots : ℤ) : MappingCandidate where
  server := { id := "s1" }
  application := { id := "a1", serverID := "s1", apiFlavors := ["openai"], affinityTTLSeconds := 3600 }
  mapping := { id := "m1", applicationID := "a1", gatewayModelName := "chat", maxConcurrency := slots }

def lonePinned (slots : ℤ) (hslots : 0 < slots)
    (hpin : (secondState slots).moment.affinities.lookup loneGroup.key =
      some ⟨"", "chat", "a1", "s1", 0, 1+3600*10^9, 1, 1, 1⟩)
    (hslot : (secondState slots).moment.reservations.lookup "s1" =
      some (AList.singleton (loneResolver.affinityID loneGroup.key) 1))
    (heligible : eligibleCandidates loneResolver (loneStore slots) (secondState slots).moment loneToken
      "chat" "openai" loneRequest loneGroup.walk = .ok ([loneCandidate slots], true)) :
    PinnedSlot loneResolver (loneStore slots) loneGroup (secondState slots) where
  aff := ⟨"", "chat", "a1", "s1", 0, 1+3600*10^9, 1, 1, 1⟩
  cands := [loneCandidate slots]
  c := loneCandidate slots
  sessions := AList.singleton (loneResolver.affinityID loneGroup.key) 1
  activity := fun _ => {}
  seen := 1
  window := by decide
  readable := rfl
  pin := hpin
  unexpired := by decide
  named := by decide
  member := by decide
  eligible := heligible
  mem := List.mem_singleton.mpr rfl
  plain := rfl
  capped := hslots
  server := by simp [loneCandidate]
  wired := rfl
  reserved := hslot
  own := by decide +kernel
  live := by decide

def twoSlots : PinnedSlot loneResolver (loneStore 2) loneGroup (secondState 2) :=
  lonePinned 2 (by decide) (by decide +kernel) (by decide +kernel) (by decide +kernel)

theorem own_slot_usable_iff_twoSlots :
    ∃ sel, outcome (pinnedMember loneResolver (loneStore 2) loneGroup) (secondState 2) =
      (.ok (some ("chat", sel)), secondState 2) := by
  have h := own_slot_usable_iff loneResolver (loneStore 2) loneGroup (secondState 2) twoSlots
  have hcap := h.1.mpr ⟨by decide +kernel,by decide +kernel⟩
  exact h.2 hcap (by decide +kernel) (by decide +kernel) (fun _ => rfl) (by decide)

def oneSlot : PinnedSlot loneResolver (loneStore 1) loneGroup (secondState 1) :=
  lonePinned 1 (by decide) (by decide +kernel) (by decide +kernel) (by decide +kernel)

/-- With one slot, no request in flight and no other session, the second
request of the session waits for its own slot. -/
theorem session_waits_for_its_own_slot :
    oneSlot.inFlight + oneSlot.others < oneSlot.c.mapping.maxConcurrency ∧
    underCap loneResolver (secondState 1).moment oneSlot.c loneGroup.now oneSlot.judgeLive = false ∧
    (loneTurn 1 2 (secondState 1).moment).1 = .error .parked := by
  refine ⟨by decide +kernel,by decide +kernel,by decide +kernel⟩

end OnPremGateway.SessionSlots
