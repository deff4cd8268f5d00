import OnPremGateway.OwnerAnswers

/-!
# Requests in flight are counted

The count of an instance is the number of grants of its generation that were
not given back. A grant names its generation, so a grant of an earlier one is
never counted for a later one and leads to its own process.
-/

set_option autoImplicit false

namespace OnPremGateway.OwnerGrants
open RuntimeTypes OwnerModel LabelledRuns List
open OwnerMoves OwnerEffects OwnerSound
open OwnerTurns OwnerRuns OwnerAnswers

def grantsGen (gen : ℕ) : Outcome → Bool
  | .granted _ _ g => g = gen
  | .refused _ => false

/-- The grants of a generation among `sent` that were not given back. -/
def heldOf (sent : List (ℕ × Outcome)) (released : List ℕ) (gen : ℕ) : List (ℕ × Outcome) :=
  sent.filter fun a => grantsGen gen a.2 && a.1 ∉ released

def outstanding (o : Owner) (gen : ℕ) : List (ℕ × Outcome) := heldOf o.answers o.released gen

def inFlightDue (o : Owner) : Option Proc → ℤ
  | none => 0
  | some p => (outstanding o p.gen).length

section Lists
variable (sent : List (ℕ × Outcome)) (released : List ℕ) (gen : ℕ)

theorem heldOf_eq_nil (h : ∀ r x k g, (r, Outcome.granted x k g) ∈ sent → g ≠ gen) :
    heldOf sent released gen = [] := by
  rw [heldOf, filter_eq_nil_iff]
  rintro ⟨r,out⟩ hmem
  cases out with
  | granted x k g => simp [grantsGen, h r x k g hmem]
  | refused err => simp [grantsGen]

theorem heldOf_eq_self (hg : ∀ a ∈ sent, grantsGen gen a.2 = true)
    (hr : ∀ a ∈ sent, a.1 ∉ released) : heldOf sent released gen = sent := by
  rw [heldOf, filter_eq_self]
  intro a ha
  simp [hg a ha, hr a ha]

/-- A grant that is given back was held once. -/
theorem heldOf_release (reply g : ℕ) (x k : String) (hmem : (reply, .granted x k g) ∈ sent)
    (hnodup : (sent.map Prod.fst).Nodup) (hr : reply ∉ released) :
    (heldOf sent released gen).length =
      (heldOf sent (reply::released) gen).length+(if g = gen then 1 else 0) := by
  have hperm := perm_cons_erase hmem
  set rest := sent.erase (reply, .granted x k g)
  have hfresh : reply ∉ rest.map Prod.fst :=
    (nodup_cons.mp ((hperm.map Prod.fst).nodup_iff.mp hnodup)).1
  have hsame : heldOf rest (reply::released) gen = heldOf rest released gen := by
    apply filter_congr
    intro a ha
    have hne : a.1 ≠ reply := fun he => hfresh (he ▸ mem_map_of_mem ha)
    simp [hne]
  have h1 := (hperm.filter fun a => grantsGen gen a.2 && a.1 ∉ released).length_eq
  have h2 := (hperm.filter fun a => grantsGen gen a.2 && a.1 ∉ reply::released).length_eq
  rw [heldOf, heldOf] at hsame
  rw [heldOf, heldOf, h1, h2]
  by_cases hg : g = gen
  · rw [filter_cons_of_pos (by simp [grantsGen, hg, hr]),
      filter_cons_of_neg (by simp), hsame, if_pos hg, length_cons]
  · rw [filter_cons_of_neg (by simp [grantsGen, hg]),
      filter_cons_of_neg (by simp), hsame, if_neg hg, Nat.add_zero]

end Lists

/-- Every grant is counted at the generation it was handed out for. -/
structure Counted (o : Owner) : Prop where
  nodup : (ledger o).Nodup
  released : ∀ reply ∈ o.released, reply ∈ answered o
  inFlight : ∀ key st, o.find key = some st → st.inFlight = inFlightDue o st.proc

variable {key : String} {st : SpecState} {gen reply : ℕ}

section Move
variable {l : Label} {o o' : Owner} {e : Effect}

theorem outstanding_of_frame (f : Frame l o o' e) (gen : ℕ) :
    outstanding o' gen = heldOf e.sent o.released gen ++ outstanding o gen := by
  rw [outstanding, f.answers, f.released]
  exact filter_append _ _

/-- A state whose generation is sent no grant keeps its due. -/
theorem due_of_frame (f : Frame l o o' e) (p : Option Proc)
    (h : ∀ q, p = some q → ∀ r x k g, (r, Outcome.granted x k g) ∈ e.sent → g ≠ q.gen) :
    inFlightDue o' p = inFlightDue o p := by
  cases p with
  | none => rfl
  | some q =>
    rw [inFlightDue, inFlightDue, outstanding_of_frame f,
      heldOf_eq_nil e.sent o.released q.gen (h q rfl), nil_append]

theorem unreleased_of_queued (hc : Counted o) (hf : o.find key = some st) (w : Waiter)
    (hw : w ∈ st.pending) : w.reply ∉ o.released := by
  intro hr
  have hq : w.reply ∈ queued o := (mem_queued o w.reply).mpr ⟨key,st,hf,mem_map_of_mem hw⟩
  exact (nodup_append.mp hc.nodup).2.2 _ (hc.released _ hr) _ hq rfl

/-- The count of the touched state follows the grants that are sent. -/
theorem due_of_change (ho : Sound o) (hc : Counted o) (f : Frame l o o' e) {st' : SpecState}
    (hf : o.find key = some st) (h : Change o key st l e st')
    (hnew : ∀ reply ∈ added l, reply ∉ ledger o) : st'.inFlight = inFlightDue o' st'.proc := by
  have hst := hc.inFlight key st hf
  have quietly (p : Option Proc) (hp : p = st.proc) (hs : e.sent = []) :
      st.inFlight = inFlightDue o' p := by
    rw [hst, due_of_frame f p (by simp [hs]), hp]
  cases h with
  | quiet _ hq =>
    rw [hq.inFlight]
    exact quietly _ hq.proc rfl
  | retime p q hp hs =>
    have hg : inFlightDue o' (some q) = inFlightDue o' (some p) := by
      rw [inFlightDue, inFlightDue, hs.gen]
    exact (quietly _ hp.symm rfl).trans hg.symm
  | fail err =>
    rw [due_of_frame f _ (by simp [refusals])]
    exact hst
  | serve now p hp hs =>
    have hheld : heldOf (grants st.pending key p) o.released p.gen = grants st.pending key p := by
      apply heldOf_eq_self
      · simp [grants, grantsGen]
      intro a ha
      simp only [grants, mem_reverse, mem_map] at ha
      obtain ⟨w,hw,rfl⟩ := ha
      exact unreleased_of_queued hc hf w hw
    rw [hp] at hst
    dsimp only
    rw [hst, hp, inFlightDue, inFlightDue, outstanding_of_frame f, hheld, length_append]
    simp only [grants, length_reverse, length_map]
    push_cast
    ring
  | answer reply err hw =>
    rw [due_of_frame f _ (by simp)]
    exact hst
  | signal p serial cause hp hs hcause => exact quietly (some p) hp.symm rfl
  | spawn p since hp hn hg hi hl =>
    -- no grant was ever sent for the generation that is born
    have hz : outstanding o p.gen = [] := by
      apply heldOf_eq_nil
      intro r x k g hmem he
      have hlt := ho.granted_lt r x k g hmem
      rw [he, hg] at hlt
      exact lt_irrefl _ hlt
    dsimp only
    rw [((ho.states key st hf).idle hp).1, due_of_frame f _ (by simp), inFlightDue, hz]
    rfl
  | clear p hp => rfl
  | grant now p reply hp hs =>
    have hr : reply ∉ o.released := fun hmem =>
      hnew reply mem_cons_self (mem_append_left _ (hc.released reply hmem))
    have hheld : heldOf [(reply, Outcome.granted (endpointFor p.port) key p.gen)] o.released p.gen =
        [(reply, .granted (endpointFor p.port) key p.gen)] := by
      apply heldOf_eq_self
      · simp [grantsGen]
      · simp [hr]
    rw [hp] at hst
    dsimp only
    rw [hst, hp, inFlightDue, inFlightDue, outstanding_of_frame f, hheld, length_append]
    simp only [length_cons, length_nil]
    push_cast
    ring
  | _ => exact quietly _ rfl rfl

theorem counted_of_move (hm : Move l o o') (ho : Sound o) (hc : Counted o)
    (hnew : ∀ reply ∈ added l, reply ∉ ledger o) : Counted o' := by
  obtain ⟨e,f,t⟩ := touch_of_move hm
  refine ⟨?_,?_,?_⟩
  · rw [(ledger_of_move hm).nodup_iff, nodup_append]
    refine ⟨?_,hc.nodup,?_⟩
    · cases l <;> simp [added]
    · intro r hr s hs he
      exact hnew r hr (he ▸ hs)
  · intro r hr
    rw [f.released] at hr
    rw [answered, f.answers, map_append]
    exact mem_append_right _ (hc.released r hr)
  · intro k st' h'
    cases t with
    | same hl hs =>
      rw [Owner.find, hs] at h'
      rw [due_of_frame f _ (by simp)]
      exact hc.inFlight k st' h'
    | refuse reply err hl hs =>
      rw [Owner.find, hs] at h'
      rw [due_of_frame f _ (by simp)]
      exact hc.inFlight k st' h'
    | create key st h hf hl hs =>
      rw [due_of_frame f _ (by simp)]
      rw [find_of_insert hs] at h'
      split at h'
      · cases h'
        rw [hf.inFlight, hf.proc]
        rfl
      · exact hc.inFlight k st' h'
    | erase key st h hp hw hb hl hs =>
      rw [due_of_frame f _ (by simp)]
      rw [find_of_erase hs] at h'
      split at h'
      · cases h'
      · exact hc.inFlight k st' h'
    | change key st s' _ hf hch hs =>
      rw [find_of_insert hs] at h'
      split at h'
      · cases h'
        exact due_of_change ho hc f hf hch hnew
      rename_i hk
      rw [due_of_frame f]
      · exact hc.inFlight k st' h'
      · -- another key holds another generation
        intro q hq r x k' g hmem he
        obtain ⟨p,hp,hg,-⟩ := sent_of_change hch hmem
        exact hk (ho.gen_key k key g st'.state st.state ⟨st',q,h',hq,he.symm,rfl⟩
          ⟨st,p,hf,hp,hg,rfl⟩)

theorem counted_of_steps {L : Set Label} (hL : ∀ l ∈ L, added l = []) (hs : Steps L o o')
    (ho : Sound o) (hc : Counted o) : Counted o' := by
  refine (hs.keeps (fun x => Sound x ∧ Counted x) (fun l hl x y hm hx => ?_) ⟨ho,hc⟩).2
  refine ⟨sound_of_move hm hx.1,counted_of_move hm hx.1 hx.2 ?_⟩
  intro reply hr
  rw [hL l hl] at hr
  cases hr

end Move

section Begin
variable {o : Owner}

theorem mem_of_grantOf (h : o.grantOf reply = some (key, gen)) :
    ∃ x, (reply, Outcome.granted x key gen) ∈ o.answers := by
  rw [Owner.grantOf] at h
  split at h
  · rename_i x k g hl
    cases h
    obtain ⟨l₁,l₂,hl,-⟩ := lookup_eq_some_iff.mp hl
    exact ⟨x,by simp [hl]⟩
  · cases h

theorem length_release (hc : Counted o) (h : o.grantOf reply = some (key, gen))
    (hr : reply ∉ o.released) (g : ℕ) : (outstanding o g).length =
      (heldOf o.answers (reply::o.released) g).length+(if gen = g then 1 else 0) := by
  obtain ⟨x,hmem⟩ := mem_of_grantOf h
  exact heldOf_release o.answers o.released g reply gen x key hmem (nodup_append.mp hc.nodup).1 hr

theorem released_answered (hc : Counted o) (h : o.grantOf reply = some (key, gen)) (r : ℕ)
    (hr : r ∈ reply::o.released) : r ∈ answered o := by
  rcases mem_cons.mp hr with rfl | hr
  · obtain ⟨x,hmem⟩ := mem_of_grantOf h
    exact mem_map_of_mem hmem
  · exact hc.released r hr

theorem due_of_other (hc : Counted o) (h : o.grantOf reply = some (key, gen))
    (hr : reply ∉ o.released) (t : ℕ) (p : Option Proc) (hp : ∀ q, p = some q → gen ≠ q.gen) :
    inFlightDue { o with released := reply::o.released, turn := t } p = inFlightDue o p := by
  cases p with
  | none => rfl
  | some q =>
    have hlen := length_release hc h hr q.gen
    rw [if_neg (hp q rfl), Nat.add_zero] at hlen
    rw [inFlightDue, inFlightDue, hlen]
    rfl

theorem counted_of_begins {o₁ : Owner} (h : Begins o o₁) (ho : Sound o) (hc : Counted o) :
    Counted o₁ := by
  cases h with
  | stale reply key gen hg hr hn =>
    refine ⟨hc.nodup,released_answered hc hg,fun k st hf => ?_⟩
    rw [due_of_other hc hg hr]
    · exact hc.inFlight k st hf
    · -- the generation is not held any more
      intro q hq he
      obtain ⟨x,hmem⟩ := mem_of_grantOf hg
      have hk : k = key := ho.granted_key reply x key gen k st.state hmem ⟨st,q,hf,hq,he.symm,rfl⟩
      have hno := hn st (hk ▸ hf)
      simp [SpecState.runs, hq, he] at hno
  | release reply key gen st now hg hr hf hruns =>
    obtain ⟨p,hp,hpg⟩ := runs_proc hruns
    obtain ⟨x,hmem⟩ := mem_of_grantOf hg
    have hled := (ledger_of_begins (.release reply key gen st now hg hr hf hruns)).1
    refine ⟨hled.nodup_iff.mpr hc.nodup,released_answered hc hg,fun k st' h' => ?_⟩
    rw [find_put] at h'
    split at h'
    · cases h'
      have hcount := hc.inFlight key st hf
      have hlen := length_release hc hg hr p.gen
      rw [if_pos hpg.symm] at hlen
      rw [hp, inFlightDue, hlen] at hcount
      dsimp only
      rw [hp]
      change _ = ((heldOf o.answers (reply::o.released) p.gen).length : ℤ)
      push_cast at hcount
      rw [hcount, if_pos (by omega)]
      ring
    · rename_i hk
      change st'.inFlight = inFlightDue { o with released := reply::o.released, turn := o.turn+1 } _
      rw [due_of_other hc hg hr]
      · exact hc.inFlight k st' h'
      · intro q hq he
        exact hk (ho.granted_key reply x key gen k st'.state hmem ⟨st',q,h',hq,he.symm,rfl⟩)
  | _ => exact ⟨hc.nodup,hc.released,hc.inFlight⟩

end Begin

theorem counted_of_passage {o o' : Owner} {e : Event} (ho : Sound o) (hb : Balanced o)
    (h : Passage o e o') (hc : Counted o) : Counted o' := by
  rcases moves_of_passage h with ⟨o₁,hbeg,-,hs⟩ | ⟨reply,l,o₁,o₂,hfresh,hp,ht,hm,hs⟩
  · exact counted_of_steps added_own hs (sound_of_begins hbeg ho) (counted_of_begins hbeg ho hc)
  have hp := hp.mono (grow_loose.trans (loose_own e))
  have hso := sound_of_accept ho reply
  have hc₀ : Counted { o with accepted := reply::o.accepted, turn := o.turn+1 } :=
    ⟨hc.nodup,hc.released,hc.inFlight⟩
  have hso₁ := sound_of_steps hp hso
  have hnew : ∀ r ∈ added l, r ∉ ledger o₁ := by
    intro r hr hmem
    rw [added_takes ht, mem_singleton] at hr
    rw [hr] at hmem
    exact hfresh (hb.ledger.mem_iff.mp ((ledger_of_steps added_own hp).mem_iff.mp hmem))
  have hc₂ := counted_of_move hm hso₁ (counted_of_steps added_own hp hso hc₀) hnew
  exact counted_of_steps added_own (hs.mono (calm_own e)) (sound_of_move hm hso₁) hc₂

/-- In every state of a run the count of an instance is the number of grants
of its generation that were not given back, and zero without a process. -/
theorem inFlight_counts_grants (o : Owner) (h : o.Reachable) (key : String) (st : SpecState)
    (hf : o.find key = some st) : st.inFlight = match st.proc with
      | none => 0
      | some p => ((outstanding o p.gen).length : ℤ) := by
  have hc : Balanced o ∧ Counted o := by
    refine holds_of_reachable (fun o => Balanced o ∧ Counted o) ?_ ?_ o h
    · intro o hi
      refine ⟨balanced_of_reachable o ⟨o,hi,.refl⟩,?_⟩
      have hnone := find_newOwner hi
      obtain ⟨apple,headroom,reserve,guess,grace,rfl⟩ := hi
      refine ⟨nodup_nil,?_,?_⟩
      · intro r hr
        cases hr
      · intro key st hf
        rw [hnone] at hf
        cases hf
    · intro o o' e hst hp hbc
      exact ⟨balanced_of_passage hp hbc.1,counted_of_passage hst.sound hbc.1 hp hbc.2⟩
  have hin := hc.2.inFlight key st hf
  cases hp : st.proc with
  | none =>
    rw [hp] at hin
    exact hin
  | some p =>
    rw [hp] at hin
    exact hin

/-- A process crashes with a request in flight, the next one serves another,
and only then is the first grant given back. -/
def releasedLate : Owner := play quietEnv (newOwner false 0 0 0 0)
  [.apply { specs := [{ id := "a", upstreamModel := "a", ramMB := 10 }] },
    .ensure "a" 0 true, .probe "a" 0 true, .receive ⟨.startResult "a" 0 true, none⟩,
    .exit "a" 0 ⟨1, false⟩, .receive ⟨.childExited "a" 0 ⟨1, false⟩, none⟩,
    .fire ⟨.backoff "a", 1, backoffBase⟩, .receive ⟨.backoffFire "a", some 1⟩,
    .ensure "a" 1 true, .probe "a" 1 true, .receive ⟨.startResult "a" 1 true, none⟩, .release 0]

theorem inFlight_counts_grants_releasedLate :
    releasedLate.released = [0] ∧ ∃ st, releasedLate.find "a" = some st ∧ st.inFlight = 1 ∧
      st.inFlight = match st.proc with
        | none => 0
        | some p => ((outstanding releasedLate p.gen).length : ℤ) := by
  have hrel : releasedLate.released = [0] := by decide +kernel
  have hcount : (releasedLate.find "a").map (fun st => st.inFlight) = some 1 := by decide +kernel
  obtain ⟨st,hf,hi⟩ := Option.map_eq_some_iff.mp hcount
  exact ⟨hrel,st,hf,hi,inFlight_counts_grants releasedLate
    (reachable_play quietEnv _ _ (reachable_newOwner _ _ _ _ _)) "a" st hf⟩

/-! ### Where a grant leads -/

section Endpoints
variable {o o' : Owner} {l : Label} {e : Effect} {k : String} {st' : SpecState} {p' : Proc}

/-- Every grant of a generation that its instance runs leads to its port. -/
def Pointed (o : Owner) : Prop :=
  ∀ r x k gen st p, (r, Outcome.granted x k gen) ∈ o.answers → o.find k = some st →
    st.proc = some p → p.gen = gen → x = endpointFor p.port

theorem port_of_touch (t : Touch l o o' e) (h' : o'.find k = some st') (hp' : st'.proc = some p') :
    p'.gen = o.nextGen ∨ ∃ st p, o.find k = some st ∧ st.proc = some p ∧ p.gen = p'.gen ∧
      p.port = p'.port := by
  rcases origin_of_touch t h' with h | ⟨st,h,hc⟩ | ⟨-,hf⟩
  · exact .inr ⟨st',p',h,hp',rfl,rfl⟩
  · cases hc with
    | quiet _ hq => exact .inr ⟨st,p',h,hq.proc.symm.trans hp',rfl,rfl⟩
    | retime p q hp hs =>
      cases hp'
      exact .inr ⟨st,p,h,hp,hs.gen.symm,hs.port.symm⟩
    | signal p serial cause hp hs hc =>
      cases hp'
      exact .inr ⟨st,p,h,hp,rfl,rfl⟩
    | spawn p since hp hn hg hi hl =>
      cases hp'
      exact .inl hg
    | clear p hp => cases hp'
    | _ => exact .inr ⟨st,p',h,hp',rfl,rfl⟩
  · rw [hf.proc] at hp'
    cases hp'

theorem pointed_of_move (hm : Move l o o') (ho : Sound o) (h : Pointed o) : Pointed o' := by
  obtain ⟨e,f,t⟩ := touch_of_move hm
  intro r x k gen st' p' hmem h' hp' hg'
  rw [f.answers, mem_append] at hmem
  rcases hmem with hsent | hmem
  · cases t with
    | change key st s' _ hf hc hs =>
      obtain ⟨-,-,-,rfl⟩ := sent_of_change hc hsent
      rw [find_of_insert hs, if_pos rfl] at h'
      cases h'
      cases hc with
      | serve now p hp hs =>
        simp only [grants, mem_reverse, mem_map] at hsent
        obtain ⟨w,-,hw⟩ := hsent
        cases hw
        cases hp.symm.trans hp'
        rfl
      | grant now p reply hp hs =>
        cases mem_singleton.mp hsent
        cases hp.symm.trans hp'
        rfl
      | _ => simp [refusals] at hsent
    | _ => simp at hsent
  · rcases port_of_touch t h' hp' with hborn | ⟨st,p,hf,hp,hgen,hport⟩
    · have hlt := ho.granted_lt r x k gen hmem
      omega
    · rw [← hport]
      exact h r x k gen st p hmem hf hp (hgen.trans hg')

end Endpoints

/-- A grant leads to the process that its instance runs, and no other instance
runs that generation. -/
theorem grant_leads_to_its_process (o : Owner) (h : o.Reachable) (reply : ℕ) (x k : String) (gen : ℕ)
    (ha : (reply, Outcome.granted x k gen) ∈ o.answers) (key : String) (st : SpecState) (p : Proc)
    (hf : o.find key = some st) (hp : st.proc = some p) (hg : p.gen = gen) :
    key = k ∧ x = endpointFor p.port := by
  have hs := (steady_of_reachable o h).sound
  obtain rfl := hs.granted_key reply x k gen key st.state ha ⟨st,p,hf,hp,hg,rfl⟩
  refine ⟨rfl,(holds_of_reachable (fun o => Sound o ∧ Pointed o) ?_ ?_ o h).2
    reply x key gen st p ha hf hp hg⟩
  · intro o hi
    refine ⟨(steady_of_initial hi).sound,?_⟩
    intro r x k gen st p _ hf
    rw [find_newOwner hi] at hf
    cases hf
  · intro o o' e ho hpass
    refine keeps_of_passage (fun o => Sound o ∧ Pointed o) ?_
      (fun reply hx => ⟨sound_of_accept hx.1 reply,hx.2⟩)
      (fun l _ x y hm hx => ⟨sound_of_move hm hx.1,pointed_of_move hm hx.1 hx.2⟩) hpass
    rintro o₁ hb - ⟨hs,hpoint⟩
    refine ⟨sound_of_begins hb hs,?_⟩
    cases hb with
    | release reply key gen st now hgrant hr hf hg =>
      intro r x k g st' p ha h' hp
      rw [find_put] at h'
      split at h'
      · rename_i hk
        cases h'
        exact hpoint r x k g st p ha (hk ▸ hf) hp
      · exact hpoint r x k g st' p ha h' hp
    | _ => exact hpoint

theorem grant_leads_to_its_process_releasedLate : ∃ st p, releasedLate.find "a" = some st ∧
    st.proc = some p ∧ endpointFor 40000 = endpointFor p.port := by
  have hrun : (releasedLate.find "a").bind (fun st => st.proc.map Proc.gen) = some 1 := by decide +kernel
  obtain ⟨st,hf,hst⟩ := Option.bind_eq_some_iff.mp hrun
  obtain ⟨p,hp,hg⟩ := Option.map_eq_some_iff.mp hst
  exact ⟨st,p,hf,hp,(grant_leads_to_its_process releasedLate
    (reachable_play quietEnv _ _ (reachable_newOwner _ _ _ _ _)) 1 _ "a" 1 (by decide +kernel)
    "a" st p hf hp hg).2⟩

/-- A burst instance never waits for room: with a queue it has a process. -/
theorem burst_never_waits (o : Owner) (h : o.Reachable) (hc : o.closing = false) (key : String)
    (st : SpecState) (hf : o.find key = some st) (hb : st.burst = true) (hq : st.pending ≠ []) :
    st.proc.isSome = true := by
  by_contra hn
  exact hq ((steady_of_reachable o h).settled hc key st hf hb (Option.not_isSome_iff_eq_none.mp hn))

def burstAsked : Owner := play quietEnv (newOwner false 0 0 0 0)
  [.apply { specs := [{ id := "a", upstreamModel := "a", ramMB := 10, replicable := true }] },
    .ensure "a" 0 true, .ensure "a#1" 1 false]

theorem burst_never_waits_burstAsked : ∃ st, burstAsked.find "a#1" = some st ∧ st.pending ≠ [] ∧
    st.proc.isSome = true := by
  have hrun : (burstAsked.find "a#1").map (fun st => (st.burst, st.pending.length)) = some (true, 1) := by
    decide +kernel
  obtain ⟨st,hf,hst⟩ := Option.map_eq_some_iff.mp hrun
  rw [Prod.mk.injEq] at hst
  have hq : st.pending ≠ [] := by
    intro hnil
    rw [hnil] at hst
    cases hst.2
  exact ⟨st,hf,hq,burst_never_waits burstAsked (reachable_play quietEnv _ _ (reachable_newOwner _ _ _ _ _))
    (by decide +kernel) "a#1" st hf hst.1 hq⟩

end OnPremGateway.OwnerGrants
