import OnPremGateway.OwnerEffects

/-!
# What every move keeps

Each state is coherent with its key, generations are never shared between two
states, a report that is still due belongs to a process that starts or drains,
and an expiry of a drain belongs to one that drains.
-/

set_option autoImplicit false

namespace OnPremGateway.OwnerSound
open RuntimeTypes InstanceModel OwnerModel List Nat
open LabelledRuns OwnerMoves OwnerEffects

structure Coherent (turn : ℕ) (key : String) (st : SpecState) : Prop where
  id : st.spec.id = key
  instance_range : 0 ≤ st.instanceIdx ∧ st.instanceIdx ≤ maxInstanceIndex
  instance_key : st.instanceIdx ≠ 0 → key = instanceKey st.spec.instanceOf st.instanceIdx
  decided : st.decidedTurn ≤ turn
  backoff : st.state = .backoff → st.proc = none ∧ st.burst = false
  starting : st.state = .starting → st.inFlight = 0
  idle : st.proc = none → st.inFlight = 0 ∧ st.backoffOnExit = false ∧ st.intentionalStop = false
  proc : ∀ p, st.proc = some p → p.specID = key
  retry : st.state ≠ .backoff → st.backoffTimer = none

theorem coherent_of_fresh (turn : ℕ) (key : String) (st : SpecState) (h : Fresh key st) :
    Coherent turn key st where
  id := h.id
  instance_range := h.instance_range
  instance_key := h.instance_key
  decided := by rw [h.decidedTurn]; exact zero_le turn
  backoff hs := by rw [h.state] at hs; cases hs
  starting hs := by rw [h.state] at hs; cases hs
  idle _ := ⟨h.inFlight,h.backoffOnExit,h.intentionalStop⟩
  proc p hp := by rw [h.proc] at hp; cases hp
  retry _ := h.backoffTimer

variable {o o' : Owner} {st : SpecState} {s : State} {key : String} {l : Label} {gen : ℕ}
  {L : Set Label}

theorem not_backoff_of_shifts (h : Shifts o st s) : s ≠ .backoff ∧ s ≠ .starting := by
  cases h with
  | rest _ _ _ hs =>
    simp only [mem_cons, not_mem_nil, or_false] at hs
    rcases hs with rfl | rfl | rfl | rfl | rfl <;> decide
  | _ => decide

/-- The wait for a retry does not end by a mere change of state. -/
theorem not_shifts_of_backoff (h : Shifts o st s) (hb : st.state = .backoff → st.proc = none) :
    st.state ≠ .backoff := by
  intro hs
  cases h with
  | rest _ _ hn _ => exact hn hs
  | drain p hp _ =>
    rw [hb hs] at hp
    cases hp
  | run p hp _ _ =>
    rw [hb hs] at hp
    cases hp
  | overdue p hp _ _ =>
    rw [hb hs] at hp
    cases hp
  | closing _ hf =>
    rw [hs] at hf
    cases hf

theorem coherent_of_quiet (turn : ℕ) (key : String) (st st' : SpecState) (hq : Quiet st st')
    (h : Coherent turn key st) : Coherent turn key st' where
  id := by rw [hq.spec]; exact h.id
  instance_range := by rw [hq.instanceIdx]; exact h.instance_range
  instance_key := by rw [hq.spec, hq.instanceIdx]; exact h.instance_key
  decided := by rw [hq.decidedTurn]; exact h.decided
  backoff := by
    rw [hq.state, hq.proc, SpecState.burst, hq.spec, hq.instanceIdx]
    exact h.backoff
  starting := by rw [hq.state, hq.inFlight]; exact h.starting
  idle := by
    rw [hq.proc, hq.inFlight, hq.backoffOnExit, hq.intentionalStop]
    exact h.idle
  proc := by rw [hq.proc]; exact h.proc
  retry := by rw [hq.state, hq.backoffTimer]; exact h.retry

theorem coherent_of_change {st' : SpecState} {e : Effect} (hc : Change o key st l e st')
    (h : Coherent o.turn key st) : Coherent o.turn key st' := by
  cases hc with
  | quiet _ hq => exact coherent_of_quiet o.turn key st st' hq h
  | shift s since hs =>
    have hn := not_backoff_of_shifts hs
    have hw := not_shifts_of_backoff hs fun hb => (h.backoff hb).1
    exact { h with backoff := fun he => absurd he hn.1, starting := fun he => absurd he hn.2
                   retry := fun _ => h.retry hw }
  | deferral hp =>
    refine { h with idle := fun hn => ?_ }
    rw [hn] at hp
    cases hp
  | retime p p' hp hs =>
    refine { h with backoff := fun he => ?_, idle := fun hn => (nomatch hn), proc := fun q hq => ?_ }
    · rw [(h.backoff he).1] at hp
      cases hp
    · cases hq
      rw [hs.specID]
      exact h.proc p hp
  | park since delay hp hb hn hc =>
    exact { h with backoff := fun _ => ⟨hp,hb⟩, starting := fun he => (nomatch he)
                   retry := fun he => absurd rfl he }
  | unpark l since hl hp =>
    refine { h with backoff := fun he => ?_, starting := fun he => ?_, retry := fun _ => rfl }
    · dsimp only at he
      split at he
      · cases he
      · contradiction
    · dsimp only at he
      split at he
      · cases he
      · exact h.starting he
  | serve now p hp hs =>
    refine { h with starting := fun he => ?_, idle := fun hn => ?_ }
    · rw [hs] at he
      cases he
    · rw [hp] at hn
      cases hn
  | signal p serial cause hp hs _ =>
    refine { h with backoff := fun he => ?_, idle := fun hn => (nomatch hn), proc := fun q hq => ?_ }
    · rw [(h.backoff he).1] at hp
      cases hp
    · cases hq
      exact h.proc p hp
  | spawn p since hp hn hg hi hl =>
    refine { h with backoff := fun he => (nomatch he), starting := fun _ => (h.idle hp).1
                    idle := fun hn => (nomatch hn), proc := fun q hq => ?_
                    retry := fun _ => h.retry hn }
    cases hq
    exact hi.trans h.id
  | decide d hd =>
    refine { h with decided := ?_ }
    rcases hd with rfl | rfl
    · exact zero_le _
    · exact le_rfl
  | respec spec hid hk hb =>
    refine { h with id := hid, instance_key := hk, backoff := fun he => ⟨(h.backoff he).1,?_⟩ }
    by_contra hburst
    exact hb (by simpa [SpecState.burst] using hburst) he
  | clear p hp =>
    refine { h with backoff := fun he => ⟨rfl,(h.backoff he).2⟩, starting := fun _ => rfl
                    idle := fun _ => ⟨rfl,rfl,rfl⟩, proc := fun q hq => nomatch hq }
  | grant now p reply hp hs =>
    refine { h with starting := fun he => ?_, idle := fun hn => ?_ }
    · rw [hs] at he
      cases he
    · rw [hp] at hn
      cases hn
  | _ => exact { h with }

def DrainDue (o : Owner) (id : String) (gen : ℕ) : Prop :=
  (∃ T ∈ o.timers, T.purpose = .drain id gen) ∨
    ∃ serial, ⟨.drainGraceExpired id gen, serial⟩ ∈ o.posted

def Holds (o : Owner) (key : String) (gen : ℕ) (s : State) : Prop :=
  ∃ st p, o.find key = some st ∧ st.proc = some p ∧ p.gen = gen ∧ st.state = s

def internal : Command → Bool
  | .waiterTimeout _ _ | .childExited _ _ _ | .startResult _ _ _ | .backoffFire _ | .graceExpiry
  | .stableRun _ _ | .drainGraceExpired _ _ | .killGraceExpired _ _ | .measured _ _ _ => true
  | _ => false

structure Sound (o : Owner) : Prop where
  states : ∀ key st, o.find key = some st → Coherent o.turn key st
  gen_lt : ∀ key gen s, Holds o key gen s → gen < o.nextGen
  gen_key : ∀ key key' gen s s', Holds o key gen s → Holds o key' gen s' → key = key'
  granted_lt : ∀ r x k gen, (r, Outcome.granted x k gen) ∈ o.answers → gen < o.nextGen
  granted_key : ∀ r x k gen key s, (r, Outcome.granted x k gen) ∈ o.answers →
    Holds o key gen s → key = k
  results_nodup : (results o).Nodup
  results_lt : ∀ gen ∈ results o, gen < o.nextGen
  results_state : ∀ key gen s, gen ∈ results o → Holds o key gen s → s = .starting ∨ s = .draining
  drain_lt : ∀ id gen, DrainDue o id gen → gen < o.nextGen
  drain_state : ∀ id gen s, DrainDue o id gen → Holds o id gen s → s = .draining
  posted_internal : ∀ p ∈ o.posted, internal p.cmd = true

/-- With a report still due a state can only be set to drain. -/
theorem results_of_shifts {p : Proc} (h : Shifts o st s) (hp : st.proc = some p)
    (hr : p.gen ∈ results o) (hs : st.state = .starting ∨ st.state = .draining) :
    s = .draining := by
  cases h with
  | rest _ hn _ _ =>
    rw [hn] at hp
    cases hp
  | drain => rfl
  | run q hq _ hn =>
    rw [hq] at hp
    cases hp
    exact absurd hr hn
  | overdue q hq hqs hn =>
    rw [hq] at hp
    cases hp
    rcases hs with hs | hs
    · exact absurd hr (hn hs)
    · rw [hs] at hqs
      rcases hqs with hqs | hqs <;> cases hqs
  | closing _ hf =>
    rw [hf] at hs
    rcases hs with hs | hs <;> cases hs

/-- A process that drains does so until it is gone. -/
theorem not_shifts_of_draining {p : Proc} (h : Shifts o st s) (hp : st.proc = some p) :
    st.state ≠ .draining := by
  intro hd
  cases h with
  | rest _ hn _ _ =>
    rw [hn] at hp
    cases hp
  | drain _ _ hs => exact hs hd
  | run _ _ hs _ =>
    rw [hd] at hs
    cases hs
  | overdue _ _ hs _ =>
    rw [hd] at hs
    rcases hs with hs | hs <;> cases hs
  | closing _ hs =>
    rw [hd] at hs
    cases hs

section Step
variable {l : Label} {o o' : Owner} {e : Effect}

/-- The generation was held before, in a state that was kept or set, or it is
the one born with the move. -/
theorem holds_of_touch (t : Touch l o o' e) (ho : ∀ k st, o.find k = some st → st.spec.id = k)
    (h : Holds o' key gen s) : Holds o key gen s ∨
    (∃ st p, o.find key = some st ∧ st.proc = some p ∧ p.gen = gen ∧ Shifts o st s) ∨
    (gen = o.nextGen ∧ s = .starting ∧ e = { born := [(key, o.nextGen)] }) := by
  obtain ⟨st',p',h',hp',rfl,rfl⟩ := h
  rcases lineage_of_touch t h' hp' with ⟨st,p,hf,hp,hg,-,hs⟩ | ⟨hg,hs,st,hf,-,-,he⟩
  · rcases hs with hs | hs
    · exact .inl ⟨st,p,hf,hp,hg.symm,hs.symm⟩
    · exact .inr (.inl ⟨st,p,hf,hp,hg.symm,hs⟩)
  · rw [ho key st hf] at he
    exact .inr (.inr ⟨hg,hs,he⟩)

theorem held_before_or_born (t : Touch l o o' e) (ho : ∀ k st, o.find k = some st → st.spec.id = k)
    (h : Holds o' key gen s) :
    (∃ s₀, Holds o key gen s₀) ∨ (gen = o.nextGen ∧ e = { born := [(key, o.nextGen)] }) := by
  rcases holds_of_touch t ho h with h | ⟨st,p,hf,hp,hg,-⟩ | ⟨hg,-,he⟩
  · exact .inl ⟨s,h⟩
  · exact .inl ⟨st.state,st,p,hf,hp,hg,rfl⟩
  · exact .inr ⟨hg,he⟩

theorem born_of_touch (t : Touch l o o' e) : e.born = [] ∨ ∃ id, e.born = [(id, o.nextGen)] := by
  cases t with
  | change key st st' _ h hc hs =>
    cases hc with
    | spawn p since hp hn hg hi hl => exact .inr ⟨st.spec.id,by rw [hg]⟩
    | _ => exact .inl rfl
  | _ => exact .inl rfl

/-- The grants of a change are for the process it finds. -/
theorem sent_of_change {st st' : SpecState} (hc : Change o key st l e st') {r : ℕ} {x k : String}
    (h : (r, Outcome.granted x k gen) ∈ e.sent) : ∃ p, st.proc = some p ∧ p.gen = gen ∧ k = key := by
  cases hc with
  | fail err => simp [refusals] at h
  | serve now p hp hs =>
    simp only [grants, mem_reverse, mem_map] at h
    obtain ⟨w,-,hw⟩ := h
    cases hw
    exact ⟨p,hp,rfl,rfl⟩
  | answer reply err hw => simp at h
  | grant now p reply hp hs =>
    simp only [mem_singleton] at h
    cases h
    exact ⟨p,hp,rfl,rfl⟩
  | _ => simp at h

/-- A grant that a move sends is for the generation its key holds. -/
theorem granted_of_touch (t : Touch l o o' e) {r : ℕ} {x k : String}
    (h : (r, Outcome.granted x k gen) ∈ e.sent) : ∃ s, Holds o k gen s := by
  cases t with
  | change key st st' _ hf hc hs =>
    obtain ⟨p,hp,hg,rfl⟩ := sent_of_change hc h
    exact ⟨st.state,st,p,hf,hp,hg,rfl⟩
  | _ => simp at h

theorem results_before (t : Touch l o o' e) (hr : gen ∈ e.born.map Prod.snd ++ results o)
    (hlt : gen < o.nextGen) : gen ∈ results o := by
  rcases born_of_touch t with hb | ⟨id,hb⟩
  · rw [hb] at hr
    exact hr
  rw [hb] at hr
  rcases mem_cons.mp hr with rfl | hr
  · exact absurd hlt (lt_irrefl _)
  · exact hr

theorem results_of_frame (f : Frame l o o' e) : results o' = e.born.map Prod.snd ++ results o := by
  rw [results, results, f.polling, f.posted, map_append, append_assoc]

theorem drainDue_of_move (h : Move l o o') (f : Frame l o o' e) {id : String}
    (hd : DrainDue o' id gen) : DrainDue o id gen ∨ Holds o id gen .draining := by
  rcases hd with ⟨T,hT,hp⟩ | hd
  · rcases drain_timer_of_move h hT hp with hT | ha
    · exact .inl (.inl ⟨T,hT,hp⟩)
    · exact .inr (ha.2 id gen hp)
  · rw [f.posted] at hd
    exact .inl (.inr hd)

theorem results_of_touch (f : Frame l o o' e) (t : Touch l o o' e) (ho : Sound o) :
    (results o').Nodup ∧ ∀ gen ∈ results o', gen < o'.nextGen := by
  rw [results_of_frame f, f.nextGen]
  rcases born_of_touch t with hb | ⟨id,hb⟩
  · rw [hb]
    exact ⟨ho.results_nodup,ho.results_lt⟩
  rw [hb]
  refine ⟨nodup_cons.mpr ⟨fun hr => ?_,ho.results_nodup⟩,fun gen hr => ?_⟩
  · exact absurd (ho.results_lt _ hr) (lt_irrefl _)
  · rcases mem_cons.mp hr with rfl | hr
    · exact lt_succ_self _
    · exact lt_succ_of_lt (ho.results_lt gen hr)

theorem holds_unique {gen' : ℕ} {s' : State} (h : Holds o key gen s) (h' : Holds o key gen' s') :
    gen = gen' ∧ s = s' := by
  obtain ⟨st,p,hf,hp,rfl,rfl⟩ := h
  obtain ⟨st',p',hf',hp',rfl,rfl⟩ := h'
  rw [hf] at hf'
  cases hf'
  rw [hp] at hp'
  cases hp'
  exact ⟨rfl,rfl⟩

theorem sound_of_move (h : Move l o o') (ho : Sound o) : Sound o' := by
  obtain ⟨e,f,t⟩ := touch_of_move h
  have hid (k : String) (st : SpecState) (hk : o.find k = some st) := (ho.states k st hk).id
  have hle : o.nextGen ≤ o'.nextGen := by
    rw [f.nextGen]
    exact le_add_right _ _
  -- nothing that was there before is of the generation born with the move
  have hnew {key : String} {s : State} : ¬Holds o key o.nextGen s :=
    fun hh => absurd (ho.gen_lt key _ s hh) (lt_irrefl _)
  obtain ⟨hnodup,hresults⟩ := results_of_touch f t ho
  refine ⟨?_,?_,?_,?_,?_,hnodup,hresults,?_,?_,?_,f.posted ▸ ho.posted_internal⟩
  · intro key st' h'
    rw [f.turn]
    rcases origin_of_touch t h' with h0 | ⟨st,h0,hc⟩ | ⟨-,hf⟩
    · exact ho.states key st' h0
    · exact coherent_of_change hc (ho.states key st h0)
    · exact coherent_of_fresh _ key st' hf
  · intro key gen s hh
    rcases held_before_or_born t hid hh with ⟨s₀,h0⟩ | ⟨rfl,rfl⟩
    · exact lt_of_lt_of_le (ho.gen_lt key gen s₀ h0) hle
    · rw [f.nextGen]
      exact lt_succ_self _
  · intro key key' gen s s' hh hh'
    rcases held_before_or_born t hid hh with ⟨s₀,h0⟩ | ⟨rfl,rfl⟩
    · rcases held_before_or_born t hid hh' with ⟨s₁,h1⟩ | ⟨rfl,-⟩
      · exact ho.gen_key key key' gen s₀ s₁ h0 h1
      · exact absurd h0 hnew
    rcases held_before_or_born t hid hh' with ⟨s₁,h1⟩ | ⟨-,he⟩
    · exact absurd h1 hnew
    · simp only [Effect.mk.injEq, cons.injEq, Prod.mk.injEq, and_true, true_and] at he
      exact he
  · intro r x k gen ha
    rw [f.answers, mem_append] at ha
    rcases ha with ha | ha
    · obtain ⟨s,hh⟩ := granted_of_touch t ha
      exact lt_of_lt_of_le (ho.gen_lt k gen s hh) hle
    · exact lt_of_lt_of_le (ho.granted_lt r x k gen ha) hle
  · intro r x k gen key s ha hh
    rw [f.answers, mem_append] at ha
    rcases held_before_or_born t hid hh with ⟨s₀,h0⟩ | ⟨rfl,rfl⟩
    · rcases ha with ha | ha
      · obtain ⟨s₁,h1⟩ := granted_of_touch t ha
        exact ho.gen_key key k gen s₀ s₁ h0 h1
      · exact ho.granted_key r x k gen key s₀ ha h0
    · rcases ha with ha | ha
      · cases ha
      · exact absurd (ho.granted_lt r x k _ ha) (lt_irrefl _)
  · intro key gen s hr hh
    rw [results_of_frame f] at hr
    rcases holds_of_touch t hid hh with h0 | ⟨st,p,hf,hp,hg,hs⟩ | ⟨-,hs,-⟩
    · exact ho.results_state key gen s (results_before t hr (ho.gen_lt key gen s h0)) h0
    · have h0 : Holds o key gen st.state := ⟨st,p,hf,hp,hg,rfl⟩
      have hr0 := results_before t hr (ho.gen_lt key gen _ h0)
      exact .inr (results_of_shifts hs hp (hg ▸ hr0) (ho.results_state key gen _ hr0 h0))
    · exact .inl hs
  · intro id gen hd
    rcases drainDue_of_move h f hd with hd | hh
    · exact lt_of_lt_of_le (ho.drain_lt id gen hd) hle
    · exact lt_of_lt_of_le (ho.gen_lt id gen _ hh) hle
  · intro id gen s hd hh
    have hdue := drainDue_of_move h f hd
    have hdrains {s₀ : State} (h0 : Holds o id gen s₀) : s₀ = .draining := by
      rcases hdue with hd | hd
      · exact ho.drain_state id gen s₀ hd h0
      · exact (holds_unique h0 hd).2
    rcases holds_of_touch t hid hh with h0 | ⟨st,p,hf,hp,hg,hs⟩ | ⟨rfl,-,-⟩
    · exact hdrains h0
    · exact absurd (hdrains ⟨st,p,hf,hp,hg,rfl⟩) (not_shifts_of_draining hs hp)
    · rcases hdue with hd | hd
      · exact absurd (ho.drain_lt id _ hd) (lt_irrefl _)
      · exact absurd hd hnew

end Step

theorem sound_of_steps (h : Steps L o o') (ho : Sound o) : Sound o' :=
  h.keeps Sound (fun _ _ _ _ hm hx => sound_of_move hm hx) ho

section Manned

def needsProcess (s : State) : Bool := s = .running || s = .starting || s = .draining

def Manned (o : Owner) (key : String) : Prop :=
  ∀ st, o.find key = some st → needsProcess st.state = true → st.proc.isSome = true

theorem manned_of_shifts (h : Shifts o st s) (hn : needsProcess s = true) :
    st.proc.isSome = true := by
  cases h with
  | rest _ _ _ hs =>
    simp only [mem_cons, not_mem_nil, or_false] at hs
    rcases hs with rfl | rfl | rfl | rfl | rfl <;> cases hn
  | drain p hp _ => rw [hp]; rfl
  | run p hp _ _ => rw [hp]; rfl
  | overdue => cases hn
  | closing => cases hn

theorem manned_of_change {st' : SpecState} {e : Effect} (hc : Change o key st l e st')
    (hl : l ≠ .clear) (h : needsProcess st.state = true → st.proc.isSome = true)
    (hn : needsProcess st'.state = true) : st'.proc.isSome = true := by
  cases hc with
  | quiet _ hq =>
    rw [hq.state] at hn
    rw [hq.proc]
    exact h hn
  | shift s since hs =>
    have hp : st.proc.isSome = true := manned_of_shifts hs hn
    exact hp
  | retime => rfl
  | park => cases hn
  | unpark l since _ hp =>
    dsimp only at hn
    split at hn
    · cases hn
    · exact h hn
  | signal => rfl
  | spawn => rfl
  | clear => exact absurd rfl hl
  | _ => exact h hn

theorem manned_of_move (hm : Move l o o') (hl : l ≠ .clear) (key : String) (h : Manned o key) :
    Manned o' key := by
  obtain ⟨e,-,t⟩ := touch_of_move hm
  intro st' h' hn
  rcases origin_of_touch t h' with h0 | ⟨st,h0,hc⟩ | ⟨-,hf⟩
  · exact h st' h0 hn
  · exact manned_of_change hc hl (h st h0) hn
  · rw [hf.state] at hn
    cases hn

theorem manned_of_steps (hs : Steps L o o') (hL : Label.clear ∉ L) (key : String) (h : Manned o key) :
    Manned o' key := by
  refine hs.keeps (fun x => Manned x key) (fun l hl x y hm hx => manned_of_move hm ?_ key hx) h
  intro he
  rw [he] at hl
  exact hL hl

end Manned

section Awake
variable {l : Label} {o o' : Owner} {e : Effect} {key : String} {st st' : SpecState}

/-- A state waits after a change because it waited before, or because its retry
was just armed. -/
theorem waiting_of_change (h : Change o key st l e st') (hs : st'.state = .backoff) :
    (st.state = .backoff ∧ st'.backoffTimer = st.backoffTimer) ∨ (o.closing = false ∧
      ∃ T ∈ e.parked, T.purpose = .backoff st.spec.id ∧ st'.backoffTimer = some T.serial) := by
  cases h with
  | quiet _ hq =>
    rw [hq.state] at hs
    exact .inl ⟨hs,hq.backoffTimer⟩
  | shift s since hsh => exact absurd hs (not_backoff_of_shifts hsh).1
  | park since delay hp hb hn hc => exact .inr ⟨hc,_,mem_singleton_self _,rfl,rfl⟩
  | unpark l since hl hp =>
    dsimp only at hs
    split at hs
    · cases hs
    · rename_i hn
      exact absurd hs hn
  | spawn p since hp hn hg hi hl => cases hs
  | _ => exact .inl ⟨hs,rfl⟩

def Awake (o : Owner) (key : String) : Prop := ∀ st, o.find key = some st → st.state ≠ .backoff

/-- An owner that closes lets nothing wait anew. -/
theorem awake_of_move (hm : Move l o o') (hc : o.closing = true) (h : Awake o key) :
    Awake o' key := by
  obtain ⟨e,-,t⟩ := touch_of_move hm
  intro st' h' hs
  rcases origin_of_touch t h' with h0 | ⟨st,h0,hch⟩ | ⟨-,hf⟩
  · exact h st' h0 hs
  · rcases waiting_of_change hch hs with ⟨hb,-⟩ | ⟨hopen,-⟩
    · exact h st h0 hb
    · rw [hc] at hopen
      cases hopen
  · rw [hf.state] at hs
    cases hs

theorem awake_of_steps (hs : Steps L o o') (hc : o.closing = true) (h : Awake o key) :
    Awake o' key := by
  refine (hs.keeps (fun x => x.closing = true ∧ Awake x key) (fun l _ x y hm hx => ?_) ⟨hc,h⟩).2
  obtain ⟨e,f,-⟩ := touch_of_move hm
  exact ⟨f.closing.trans hx.1,awake_of_move hm hx.1 hx.2⟩

end Awake

end OnPremGateway.OwnerSound
