import OnPremGateway.OwnerRuns

/-!
# Requests are answered exactly once

The replies that were sent and those that are still queued make up the
ledger. A move permutes it, but for the one that accepts a request, and so it
always lists the accepted requests once each.
-/

set_option autoImplicit false

namespace OnPremGateway.OwnerAnswers
open SliceOrder RuntimeTypes AdmissionModel List
open OwnerModel LabelledRuns
open KeyedTable OwnerMoves OwnerPaths
open OwnerEffects OwnerTurns OwnerInstances OwnerRuns

def replies (st : SpecState) : List ℕ := st.pending.map Waiter.reply

def answered (o : Owner) : List ℕ := o.answers.map Prod.fst

def queued (o : Owner) : List ℕ := gather replies o.specs

def ledger (o : Owner) : List ℕ := answered o ++ queued o

def added : Label → List ℕ
  | .accept reply | .resolve reply => [reply]
  | _ => []

theorem added_own {e : Event} : ∀ l ∈ Own e, added l = [] := by
  intro l hl
  cases l with
  | accept | resolve =>
    unfold Own at hl
    split at hl <;> simp [Loose, Adopt, Shut] at hl
  | _ => rfl

variable {l : Label} {o o' : Owner}

theorem added_takes {reply : ℕ} (h : Takes reply l) : added l = [reply] := by
  rcases h with rfl | rfl <;> rfl

theorem replies_eraseP (ws : List Waiter) (reply : ℕ)
    (h : (ws.find? (fun w => w.reply = reply)).isSome = true) :
    (reply::(ws.eraseP fun w => w.reply = reply).map Waiter.reply).Perm (ws.map Waiter.reply) := by
  obtain ⟨w,hw⟩ := Option.isSome_iff_exists.mp h
  obtain ⟨a,before,after,-,ha,hws,he⟩ := exists_of_eraseP (mem_of_find?_eq_some hw)
    (find?_some hw)
  have ha : a.reply = reply := by simpa using ha
  rw [he, hws, map_append, map_append, map_cons, ha]
  exact perm_middle.symm

/-- What leaves a queue is answered. -/
theorem replies_of_change {key : String} {st st' : SpecState} {e : Effect}
    (hc : Change o key st l e st') :
    (e.sent.map Prod.fst ++ replies st').Perm (added l ++ replies st) := by
  cases hc with
  | quiet _ hq =>
    rw [replies, hq.pending]
    exact .refl _
  | fail err =>
    simp only [refusals, replies, map_reverse, map_map, map_nil, append_nil]
    exact reverse_perm _
  | serve now p hp hs =>
    simp only [grants, replies, map_reverse, map_map, map_nil, append_nil]
    exact reverse_perm _
  | answer reply err hw => exact replies_eraseP st.pending reply hw
  | spawn p since hp hg hi =>
    simp only [replies, map_map]
    exact .refl _
  | enqueue w =>
    simp only [replies, map_append, map_cons, map_nil, added]
    rw [nil_append]
    exact perm_append_comm
  | unpark _ since hl _ =>
    rw [show added l = [] by rcases hl with rfl | rfl <;> rfl]
    exact .refl _
  | _ => exact .refl _

theorem ledger_of_move (hm : Move l o o') : (ledger o').Perm (added l ++ ledger o) := by
  obtain ⟨e,f,t⟩ := touch_of_move hm
  have ha : answered o' = e.sent.map Prod.fst ++ answered o := by
    rw [answered, f.answers, map_append, answered]
  rw [ledger, ledger, ha, queued, queued]
  cases t with
  | same hl hs =>
    rw [hs, added_own l (calm_own .idleTick hl)]
    exact .refl _
  | refuse reply err hl hs =>
    rw [hs, hl]
    exact .refl _
  | create key st h hf hl hs =>
    rw [hs, gather_insert, erase_of_lookup_none o.specs key h, replies, hf.pending, hl]
    exact .refl _
  | erase key st h hp hw hb hl hs =>
    have hg := gather_erase replies o.specs key st h
    rw [replies, hw, map_nil, nil_append] at hg
    rw [hs, hl]
    exact (hg.symm.append_left (answered o))
  | change key st st' _ h hc hs =>
    have hg := gather_erase replies o.specs key st h
    have hr := replies_of_change hc
    rw [hs, gather_insert]
    generalize gather replies (o.specs.erase key) = rest at hg ⊢
    generalize e.sent.map Prod.fst = sent at hr ⊢
    -- both sides are the answers, the rest of the queues and the touched queue
    have h1 : (sent ++ answered o ++ (replies st' ++ rest)).Perm
        (answered o ++ (sent ++ replies st' ++ rest)) := by
      rw [append_assoc, append_assoc]
      exact perm_append_comm_assoc _ _ _
    have h2 : (answered o ++ (sent ++ replies st' ++ rest)).Perm
        (answered o ++ (added l ++ gather replies o.specs)) := by
      apply List.Perm.append_left
      refine (hr.append_right rest).trans ?_
      rw [append_assoc]
      exact hg.symm.append_left _
    exact (h1.trans h2).trans (perm_append_comm_assoc _ _ _)

theorem ledger_of_steps {L : Set Label} (hL : ∀ l ∈ L, added l = []) (hs : Steps L o o') :
    (ledger o').Perm (ledger o) := by
  refine hs.keeps (fun x => (ledger x).Perm (ledger o)) (fun l hl x y hm hx => ?_) (.refl _)
  have h := ledger_of_move hm
  rw [hL l hl] at h
  exact h.trans hx

theorem ledger_of_begins {o₁ : Owner} (h : Begins o o₁) :
    (ledger o₁).Perm (ledger o) ∧ o₁.accepted = o.accepted := by
  cases h with
  | release reply key gen st now _ _ hf _ =>
    exact ⟨(gather_replace replies o.specs key st _ hf rfl).append_left _,rfl⟩
  | _ => exact ⟨.refl _,rfl⟩

theorem accepted_of_steps {L : Set Label} (hs : Steps L o o') : o'.accepted = o.accepted :=
  hs.same Owner.accepted fun _ _ _ _ hm => by
    obtain ⟨e,f,-⟩ := touch_of_move hm
    exact f.accepted

/-- The ledger lists the accepted requests, each once. -/
structure Balanced (o : Owner) : Prop where
  ledger : (ledger o).Perm o.accepted
  nodup : o.accepted.Nodup

theorem Balanced.of_perm (h : Balanced o)
    (hl : (OwnerAnswers.ledger o').Perm (OwnerAnswers.ledger o)) (ha : o'.accepted = o.accepted) :
    Balanced o' :=
  ⟨by rw [ha]; exact hl.trans h.ledger,by rw [ha]; exact h.nodup⟩

theorem Balanced.of_own {e : Event} (h : Balanced o) (hs : Steps (Own e) o o') : Balanced o' :=
  h.of_perm (ledger_of_steps added_own hs) (accepted_of_steps hs)

theorem balanced_of_passage {e : Event} (h : Passage o e o') (hb : Balanced o) : Balanced o' := by
  rcases moves_of_passage h with ⟨o₁,hbeg,-,hs⟩ | ⟨reply,l,o₁,o₂,hfresh,hp,ht,hm,hs⟩
  · obtain ⟨hl,ha⟩ := ledger_of_begins hbeg
    exact (hb.of_perm hl ha).of_own hs
  have hp := hp.mono (grow_loose.trans (loose_own e))
  have hled := ledger_of_move hm
  rw [added_takes ht] at hled
  have hacc : o₂.accepted = reply::o.accepted :=
    (accepted_of_steps (Via.single (L := {l}) rfl hm)).trans (accepted_of_steps hp)
  have hb₂ : Balanced o₂ := by
    constructor
    · rw [hacc]
      exact hled.trans (((ledger_of_steps added_own hp).trans hb.ledger).cons reply)
    · rw [hacc]
      exact nodup_cons.mpr ⟨hfresh,hb.nodup⟩
  exact hb₂.of_own (hs.mono (calm_own e))

theorem balanced_of_reachable (o : Owner) (h : o.Reachable) : Balanced o := by
  refine holds_of_reachable Balanced ?_ (fun o o' e _ hp hb => balanced_of_passage hp hb) o h
  rintro o ⟨apple,headroom,reserve,guess,grace,rfl⟩
  exact ⟨.refl _,nodup_nil⟩

theorem mem_queued (o : Owner) (reply : ℕ) :
    reply ∈ queued o ↔ ∃ key st, o.find key = some st ∧ reply ∈ replies st :=
  mem_gather replies o.specs reply

/-- An entry that is listed once is in one queue, once. -/
theorem queued_once (o : Owner) (reply : ℕ) (h : (queued o).count reply = 1) :
    ∃ key st, o.find key = some st ∧ (replies st).count reply = 1 ∧
      ∀ key' st', o.find key' = some st' → reply ∈ replies st' → key' = key := by
  obtain ⟨key,st,hf,hmem⟩ := (mem_queued o reply).mp (count_pos_iff.mp (by omega))
  have hg := (gather_erase replies o.specs key st hf).count_eq reply
  rw [count_append] at hg
  have hpos := count_pos_iff.mpr hmem
  have htotal : (gather replies o.specs).count reply = 1 := h
  refine ⟨key,st,hf,by omega,?_⟩
  intro key' st' hf' hmem'
  by_contra hne
  -- another queue would list the request a second time
  have hrest : reply ∈ gather replies (o.specs.erase key) :=
    (mem_gather replies _ reply).mpr ⟨key',st',(AList.lookup_erase_ne hne).trans hf',hmem'⟩
  have := count_pos_iff.mpr hrest
  omega

theorem answers_of_passage {e : Event} (h : Passage o e o') : o.answers <:+ o'.answers := by
  refine keeps_of_passage (fun x => o.answers <:+ x.answers) (fun o₁ hb _ hx => ?_) (fun _ hx => hx)
    (fun l _ x y hm hx => ?_) h suffix_rfl
  · cases hb <;> exact hx
  · obtain ⟨e,f,-⟩ := touch_of_move hm
    rw [f.answers]
    exact hx.trans (suffix_append _ _)

theorem answers_of_run (h : o.Reachable) (hrun : Relation.ReflTransGen Owner.Step o o') :
    o.answers <:+ o'.answers := by
  have hinv : ∀ x y, Owner.Step x y → Steady x ∧ o.answers <:+ x.answers →
      Steady y ∧ o.answers <:+ y.answers := by
    rintro x y ⟨E,e,hs⟩ ⟨hx,ha⟩
    exact ⟨steady_of_step hx hs,
      ha.trans (answers_of_passage (passage_of_step hx.sound hx.settled hs))⟩
  have h0 : ∀ x, x = o → Steady x ∧ o.answers <:+ x.answers := by
    rintro x rfl
    exact ⟨steady_of_reachable x h,suffix_rfl⟩
  exact (invariant_of_step (fun x => Steady x ∧ o.answers <:+ x.answers) h0 hinv o o' rfl hrun).2

/-- In every state of a run each accepted request has at most one answer; one
that has none is queued at exactly one instance, and one that has an answer at
none. What was sent stays sent for the rest of the run. -/
theorem requests_answered_once (o : Owner) (h : o.Reachable) :
    (∀ reply ∈ answered o, reply ∈ o.accepted) ∧ (∀ reply ∈ o.accepted,
      (answered o).count reply ≤ 1 ∧
      (reply ∉ answered o → ∃ key st, o.find key = some st ∧ (replies st).count reply = 1 ∧
        ∀ key' st', o.find key' = some st' → reply ∈ replies st' → key' = key) ∧
      (reply ∈ answered o → ∀ key st, o.find key = some st → reply ∉ replies st)) ∧
    ∀ o', Relation.ReflTransGen Owner.Step o o' → o.answers <:+ o'.answers := by
  have hb := balanced_of_reachable o h
  refine ⟨?_,?_,?_⟩
  · intro reply hr
    exact hb.ledger.mem_iff.mp (mem_append_left _ hr)
  · intro reply hr
    have hcount : (answered o).count reply+(queued o).count reply = 1 := by
      have hone := count_eq_one_of_mem hb.nodup hr
      rw [← hb.ledger.count_eq reply, ledger, count_append] at hone
      exact hone
    refine ⟨by omega,?_,?_⟩
    · intro hn
      have hzero := count_eq_zero.mpr hn
      exact queued_once o reply (by omega)
    · intro ha key st hf hmem
      have hpos := count_pos_iff.mpr ha
      have hq := count_pos_iff.mpr ((mem_queued o reply).mpr ⟨key,st,hf,hmem⟩)
      omega
  · exact fun o' hrun => answers_of_run h hrun

def quietReadings : Readings where
  now := 1
  range := RangeOrder.listed Unit
  ranges := RangeOrder.listed Site
  permit := fun _ => none
  hostInfo := none
  hostSeq := 0
  measurer := none
  ramMeasurer := true
  expandPlaceholders := fun _ => none
  planSpecConfigFiles := fun _ => none
  grabEphemeralPort := .ok 40000
  expandSpec := fun _ _ => none
  writeSpecConfigFiles := fun _ _ => none
  start := fun _ _ => .ok 7
  tail := ""

def quietEnv : Env := fun _ => quietReadings

def servedAndWaiting : Owner := play quietEnv (newOwner false 0 0 0 0)
  [.apply { specs := [{ id := "a", upstreamModel := "a", ramMB := 10 },
      { id := "b", upstreamModel := "b", ramMB := 10 }] },
    .ensure "a" 0 true, .probe "a" 0 true, .receive ⟨.startResult "a" 0 true, none⟩,
    .ensure "b" 1 true]

theorem requests_answered_once_served :
    answered servedAndWaiting = [0] ∧ servedAndWaiting.accepted = [1, 0] ∧
    (∃ key st, servedAndWaiting.find key = some st ∧ (replies st).count 1 = 1 ∧
      ∀ key' st', servedAndWaiting.find key' = some st' → 1 ∈ replies st' → key' = key) ∧
    ∀ key st, servedAndWaiting.find key = some st → 0 ∉ replies st := by
  have hans : answered servedAndWaiting = [0] := by decide +kernel
  have hacc : servedAndWaiting.accepted = [1, 0] := by decide +kernel
  have h := (requests_answered_once servedAndWaiting (reachable_play quietEnv _ _
    (reachable_newOwner _ _ _ _ _))).2.1
  exact ⟨hans,hacc,(h 1 (by simp [hacc])).2.1 (by simp [hans]),
    (h 0 (by simp [hacc])).2.2 (by simp [hans])⟩

end OnPremGateway.OwnerAnswers
