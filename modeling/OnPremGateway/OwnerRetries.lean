import OnPremGateway.OwnerStates

/-!
# The timers of the retries

A wait for a retry keeps the handle of its timer. As long as no config calls a
wait off between its retry's firing and its turn, the handle names every timer of
the wait that is armed, and the retry that is received is the one the wait was
entered with. The retry of a wait called off in between is not recalled, and it
ends whatever wait the state has entered since.
-/

set_option autoImplicit false

namespace OnPremGateway.OwnerRetries
open RuntimeTypes OwnerModel LabelledRuns List
open OwnerMoves OwnerPaths OwnerEffects
open OwnerSound OwnerSettled OwnerTurns
open OwnerInstances OwnerRuns OwnerAnswers
open OwnerStates

def post (T : Timer) : Posted := ⟨T.purpose.cmd, some T.serial⟩

def alarms (o : Owner) (key : String) : List Posted :=
  (o.timers.map post ++ o.posted).filter fun p => p.cmd = .backoffFire key

theorem mem_alarms (o : Owner) (key : String) (p : Posted) : p ∈ alarms o key ↔
    ((∃ T ∈ o.timers, post T = p) ∨ p ∈ o.posted) ∧ p.cmd = .backoffFire key := by
  rw [alarms, mem_filter, mem_append, mem_map, decide_eq_true_eq]

theorem cmd_eq_backoffFire (purpose : Purpose) (key : String) :
    purpose.cmd = .backoffFire key ↔ purpose = .backoff key := by
  cases purpose <;> simp [Purpose.cmd]

/-- The handle of a state is the one alarm of its retry, or there is none. -/
def Handled (o : Owner) (key : String) : Prop :=
  alarms o key = [] ∨ ∃ st n, o.find key = some st ∧ st.backoffTimer = some n ∧
    alarms o key = [⟨.backoffFire key, some n⟩]

section Moves
variable {l : Label} {o o' : Owner} {key : String} {st : SpecState} {n : ℕ}

theorem handled_of_subperm (hs : (alarms o' key).Subperm (alarms o key))
    (hh : ∀ st n, o.find key = some st → st.backoffTimer = some n →
      ∃ st', o'.find key = some st' ∧ st'.backoffTimer = some n)
    (h : Handled o key) : Handled o' key := by
  rcases h with h | ⟨st,n,hf,hn,h⟩
  · rw [h] at hs
    exact .inl (subperm_nil.mp hs)
  rw [h] at hs
  cases ha : alarms o' key with
  | nil => exact .inl ha
  | cons p ps =>
    have hlen := hs.length_le
    have hp := hs.subset (ha ▸ mem_cons_self)
    rw [ha, length_cons, length_singleton] at hlen
    obtain ⟨st',hf',hn'⟩ := hh st n hf hn
    refine .inr ⟨st',n,hf',hn',?_⟩
    rw [ha, mem_singleton.mp hp, length_eq_zero_iff.mp (by omega : ps.length = 0)]

/-- The alarms of a move: none is new but that of a wait that begins. -/
theorem alarms_of_move (hm : Move l o o') (key : String) : (alarms o' key).Sublist (alarms o key) ∨
      ∃ T, Parks o o' T ∧ T.purpose = .backoff key ∧
        (alarms o' key).Sublist (post T::alarms o key) := by
  obtain ⟨e,f,-⟩ := touch_of_move hm
  obtain ⟨armed,hs,ha⟩ := (timers_of_move hm).arms
  have hsub : (alarms o' key).Sublist
      ((armed.map post).filter (fun p => p.cmd = .backoffFire key) ++ alarms o key) := by
    rw [alarms, alarms, f.posted, ← filter_append, ← append_assoc, ← map_append]
    exact ((hs.map post).append_right o.posted).filter _
  -- a timer of another purpose rings no alarm
  have hnone (hne : ∀ T ∈ armed, T.purpose ≠ .backoff key) :
      (armed.map post).filter (fun p => p.cmd = .backoffFire key) = [] := by
    rw [filter_eq_nil_iff]
    intro p hp
    obtain ⟨T,hT,rfl⟩ := mem_map.mp hp
    rw [decide_eq_true_eq, post, cmd_eq_backoffFire]
    exact hne T hT
  rcases ha with ha | ⟨T,rfl,hpark⟩
  · rw [hnone fun T hT => (ha T hT).1 key] at hsub
    exact .inl hsub
  by_cases hT : T.purpose = .backoff key
  · refine .inr ⟨T,hpark,hT,hsub.trans ?_⟩
    exact (filter_sublist (l := [post T])).append_right _
  · rw [hnone fun S hS => mem_singleton.mp hS ▸ hT] at hsub
    exact .inl hsub

/-- A handle is let go of only when the wait is called off or over. -/
theorem handle_of_move (hm : Move l o o') (hu : l ≠ .unpark) (hx : l ≠ .elapse) (ho : Sound o)
    (h : o.find key = some st) (hn : st.backoffTimer = some n) :
    ∃ st', o'.find key = some st' ∧ st'.backoffTimer = some n := by
  have hst := ho.states key st h
  have hwait : st.state = .backoff := by
    by_contra hs
    rw [hst.retry hs] at hn
    cases hn
  obtain ⟨e,-,t⟩ := touch_of_move hm
  cases t with
  | same _ hs => exact ⟨st,by rw [Owner.find, hs]; exact h,hn⟩
  | refuse _ _ _ hs => exact ⟨st,by rw [Owner.find, hs]; exact h,hn⟩
  | create k s hk _ _ hs =>
    have hne : key ≠ k := by
      rintro rfl
      rw [h] at hk
      cases hk
    exact ⟨st,by rw [find_of_insert hs, if_neg hne]; exact h,hn⟩
  | erase k s hk _ _ hb _ hs =>
    have hne : key ≠ k := by
      rintro rfl
      rw [h] at hk
      cases hk
      rw [(hst.backoff hwait).2] at hb
      cases hb hwait
    exact ⟨st,by rw [find_of_erase hs, if_neg hne]; exact h,hn⟩
  | change k s s' _ hk hch hs =>
    by_cases hne : key = k
    · rw [← hne, h] at hk
      cases hk
      refine ⟨s',by rw [find_of_insert hs, if_pos hne],?_⟩
      cases hch with
      | quiet _ hq => exact hq.backoffTimer.trans hn
      | park _ _ _ _ hw _ => exact absurd hwait hw
      | unpark _ _ hl _ => exact absurd hl (not_or_intro hu hx)
      | _ => exact hn
    · exact ⟨st,by rw [find_of_insert hs, if_neg hne]; exact h,hn⟩

/-- A handle is kept or is a number not given out before. -/
theorem handle_before_move (hm : Move l o o') (h : o'.find key = some st)
    (hn : st.backoffTimer = some n) : (∃ st, o.find key = some st ∧ st.backoffTimer = some n) ∨
      o.nextTimer ≤ n ∧ n < o'.nextTimer := by
  obtain ⟨e,f,t⟩ := touch_of_move hm
  cases t with
  | same _ hs => exact .inl ⟨st,by rw [Owner.find, ← hs]; exact h,hn⟩
  | refuse _ _ _ hs => exact .inl ⟨st,by rw [Owner.find, ← hs]; exact h,hn⟩
  | create k s _ hf _ hs =>
    rw [find_of_insert hs] at h
    split at h
    · cases h
      rw [hf.backoffTimer] at hn
      cases hn
    · exact .inl ⟨st,h,hn⟩
  | erase k s _ _ _ _ _ hs =>
    rw [find_of_erase hs] at h
    split at h
    · cases h
    · exact .inl ⟨st,h,hn⟩
  | change k s s' _ hk hch hs =>
    rw [find_of_insert hs] at h
    split at h
    · rename_i hkey
      rw [← hkey] at hk
      cases h
      cases hch with
      | quiet _ hq => exact .inl ⟨s,hk,hq.backoffTimer.symm.trans hn⟩
      | park =>
        cases hn
        exact .inr ⟨le_rfl,f.nextTimer⟩
      | unpark => cases hn
      | _ => exact .inl ⟨s,hk,hn⟩
    · exact .inl ⟨st,h,hn⟩

theorem handled_of_move (hm : Move l o o') (hu : l ≠ .unpark) (hx : l ≠ .elapse) (ho : Sound o)
    (h : Handled o key) : Handled o' key := by
  rcases alarms_of_move hm key with hs | ⟨T,⟨k,st,st',hf,hw,-,hp,hf',hn⟩,hT,hs⟩
  · exact handled_of_subperm hs.subperm (fun st n => handle_of_move hm hu hx ho) h
  -- nothing rang before the wait began
  have hst := ho.states k st hf
  rw [hT, Purpose.backoff.injEq] at hp
  have hk : k = key := hst.id.symm.trans hp.symm
  rw [hk] at hf hf'
  have hnone : alarms o key = [] := by
    rcases h with h | ⟨s,n,hfs,hns,-⟩
    · exact h
    rw [hf] at hfs
    cases hfs
    rw [hst.retry hw] at hns
    cases hns
  rw [hnone] at hs
  rcases sublist_singleton.mp hs with h' | h'
  · exact .inl h'
  · refine .inr ⟨st',T.serial,hf',hn,?_⟩
    rw [h', post, hT]
    rfl

/-- As long as the handle stays, whatever happens to other waits, so does its one
alarm. -/
theorem handled_of_kept (hm : Move l o o') (ho : Sound o) (hlt : n < o.nextTimer)
    (h : ∀ st, o.find key = some st → st.backoffTimer = some n → Handled o key)
    (hf : o'.find key = some st) (hn : st.backoffTimer = some n) : Handled o' key := by
  rcases handle_before_move hm hf hn with ⟨s,hs,hns⟩ | ⟨hle,-⟩
  swap
  · exact absurd hlt (not_lt.mpr hle)
  rcases alarms_of_move hm key with hsub | ⟨T,⟨k,s',-,hk,hw,-,hp,-,-⟩,hT,-⟩
  · refine handled_of_subperm hsub.subperm (fun s₁ m hs₁ hm₁ => ?_) (h s hs hns)
    rw [hs] at hs₁
    cases hs₁
    rw [hns] at hm₁
    exact ⟨st,hf,hn.trans hm₁⟩
  · -- the state of this key already waits and begins no other wait
    rw [hT, Purpose.backoff.injEq, (ho.states k s' hk).id] at hp
    rw [← hp, hs] at hk
    cases hk
    rw [(ho.states key s hs).retry hw] at hns
    cases hns

/-- A wait that is called off leaves no alarm if its retry has not fired. -/
theorem handled_of_unpark (hm : Move .unpark o o') (hq : ∀ p ∈ o.posted, p.cmd ≠ .backoffFire key)
    (ho : Sound o) (h : Handled o key) : Handled o' key := by
  have hsub : (alarms o' key).Sublist (alarms o key) := by
    rcases alarms_of_move hm key with hs | ⟨T,⟨k,s,s',hk,hw,-,-,hk',hn⟩,-,-⟩
    · exact hs
    -- a move that calls a wait off begins none
    cases hm with
    | unpark _ j st since hj hp =>
      rw [find_put] at hk'
      split at hk'
      · cases hk'
        cases hn
      have hks : o.find k = some s' := hk'
      rw [hk] at hks
      cases hks
      rw [(ho.states k s hk).retry hw] at hn
      cases hn
  cases hm with
  | unpark _ k st since hf hp =>
    by_cases hk : key = k
    · left
      rcases h with h | ⟨st',n,hf',hn,h⟩
      · rw [h] at hsub
        exact sublist_nil.mp hsub
      rw [← hk, hf', Option.some.injEq] at hf
      subst hf
      rw [eq_nil_iff_forall_not_mem]
      intro p hmem
      have hp' := hsub.subset hmem
      rw [h, mem_singleton] at hp'
      obtain ⟨⟨T,hT,rfl⟩ | hpost,hcmd⟩ := (mem_alarms _ key p).mp hmem
      · have hT : T ∈ (o.cancelTimer (.backoff st'.spec.id) st'.backoffTimer).timers := hT
        rw [hn] at hT
        have hgone := (mem_filter.mp hT).2
        rw [post, cmd_eq_backoffFire] at hcmd
        rw [post, Posted.mk.injEq, Option.some.injEq] at hp'
        rw [(ho.states key st' hf').id, hcmd, hp'.2] at hgone
        simp at hgone
      · exact hq p hpost hcmd
    · refine handled_of_subperm hsub.subperm (fun st n hs hn => ⟨st,?_,hn⟩) h
      exact (find_put_ne _ k key _ hk).trans hs

end Moves

section Closing
variable {l : Label} {o o' : Owner}

def Bound (o : Owner) : Prop :=
  ∀ T ∈ o.timers, ∀ key, T.purpose = .backoff key →
    ∃ st, o.find key = some st ∧ st.backoffTimer = some T.serial

theorem bound_of_handled (h : ∀ key, Handled o key) : Bound o := by
  intro T hT key hp
  have hmem : post T ∈ alarms o key :=
    (mem_alarms o key _).mpr ⟨.inl ⟨T,hT,rfl⟩,(cmd_eq_backoffFire _ key).mpr hp⟩
  rcases h key with h | ⟨st,n,hf,hn,h⟩
  · rw [h] at hmem
    cases hmem
  · rw [h, mem_singleton, post, Posted.mk.injEq, Option.some.injEq] at hmem
    exact ⟨st,hf,hn.trans (congrArg some hmem.2.symm)⟩

theorem bound_of_move (hm : Move l o o') (hx : l ≠ .elapse) (ho : Sound o) (h : Bound o) :
    Bound o' := by
  obtain ⟨armed,hs,ha⟩ := (timers_of_move hm).arms
  intro T hT key hp
  rcases mem_append.mp (hs.subset hT) with hA | hO
  · rcases ha with ha | ⟨S,rfl,k,st,st',hf,-,-,hS,hf',hn⟩
    · exact absurd hp ((ha T hA).1 key)
    · rw [← mem_singleton.mp hA, hp, Purpose.backoff.injEq] at hS
      rw [(ho.states k st hf).id] at hS
      rw [mem_singleton.mp hA, hS]
      exact ⟨st',hf',hn⟩
  obtain ⟨st,hf,hn⟩ := h T hO key hp
  by_cases hu : l = .unpark
  · -- the timer that is left is not the one that was stopped
    subst hu
    cases hm with
    | unpark _ k s since hk _ =>
      by_cases hne : key = k
      · rw [← hne, hf] at hk
        cases hk
        have hT : T ∈ (o.cancelTimer (.backoff st.spec.id) st.backoffTimer).timers := hT
        rw [hn] at hT
        have hgone := (mem_filter.mp hT).2
        rw [(ho.states key st hf).id, hp] at hgone
        simp at hgone
      · exact ⟨st,(find_put_ne _ k key _ hne).trans hf,hn⟩
  · exact handle_of_move hm hu hx ho hf hn

structure Quelled (o : Owner) : Prop where
  awake : ∀ key, Awake o key
  timers : ∀ T ∈ o.timers, ∀ key, T.purpose ≠ .backoff key

theorem quelled_of_bound (ho : Sound o) (h : Bound o) (ha : ∀ key, Awake o key) : Quelled o where
  awake := ha
  timers T hT key hp := by
    obtain ⟨st,hf,hn⟩ := h T hT key hp
    rw [(ho.states key st hf).retry (ha key st hf)] at hn
    cases hn

theorem quelled_of_move (hm : Move l o o') (hc : o.closing = true) (h : Quelled o) :
    Quelled o' where
  awake _ := awake_of_move hm hc (h.awake _)
  timers T hT key hp := by
    obtain ⟨armed,hs,ha⟩ := (timers_of_move hm).arms
    rcases mem_append.mp (hs.subset hT) with hA | hO
    · rcases ha with ha | ⟨S,rfl,k,st,st',-,-,hopen,-⟩
      · exact (ha T hA).1 key hp
      · rw [hc] at hopen
        cases hopen
    · exact h.timers T hO key hp

end Closing

section Begin
variable {o o₁ : Owner} {key : String}

theorem handle_of_begins (hb : Begins o o₁) {st : SpecState} (h : o.find key = some st) :
    ∃ st₁, o₁.find key = some st₁ ∧ st₁.backoffTimer = st.backoffTimer := by
  cases hb with
  | release reply k gen s now _ _ hf _ =>
    rw [find_put]
    split
    · rename_i hk
      rw [hk, hf] at h
      cases h
      exact ⟨_,rfl,rfl⟩
    · exact ⟨st,h,rfl⟩
  | _ => exact ⟨st,h,rfl⟩

theorem alarms_of_begins (hb : Begins o o₁) : (alarms o₁ key).Subperm (alarms o key) := by
  -- a command that is no retry rings no alarm
  have hpost (p : Posted) (hp : p.cmd ≠ .backoffFire key) (ts : List Timer) (ps : List Posted) :
      ((ts.map post ++ p::ps).filter fun p => p.cmd = .backoffFire key).Subperm
        ((ts.map post ++ ps).filter fun p => p.cmd = .backoffFire key) := by
    rw [filter_append, filter_append, filter_cons_of_neg (by simpa using hp)]
  cases hb with
  | receive p hp =>
    exact ((erase_sublist.append_left _).filter _).subperm
  | fire T hT =>
    have hperm : (((o.timers.erase T).map post) ++ post T::o.posted).Perm
        (o.timers.map post ++ o.posted) := by
      have h := ((perm_cons_erase hT).map post).symm.append_right o.posted
      exact perm_middle.trans h
    exact (hperm.filter _).subperm
  | exit k gen exitErr => exact hpost _ (by simp) _ _
  | probe k gen ok _ => exact hpost _ (by simp) _ _
  | measure targets byPID ramByPID => exact hpost _ (by simp) _ _
  | _ => exact List.Subperm.refl _

theorem handled_of_begins (hb : Begins o o₁) (h : Handled o key) : Handled o₁ key := by
  refine handled_of_subperm (alarms_of_begins hb) (fun st n hf hn => ?_) h
  obtain ⟨st₁,hf₁,hn₁⟩ := handle_of_begins hb hf
  exact ⟨st₁,hf₁,hn₁.trans hn⟩

theorem quelled_of_begins (hb : Begins o o₁) (h : Quelled o) : Quelled o₁ where
  awake key st₁ h₁ := by
    obtain ⟨st,hf,hs,-⟩ := find_of_begins hb h₁
    rw [hs]
    exact h.awake key st hf
  timers T hT := by
    apply h.timers T
    cases hb with
    | fire S _ => exact mem_of_mem_erase hT
    | _ => exact hT

end Begin

def Counted (o : Owner) : Prop :=
  ∀ key st n, o.find key = some st → st.backoffTimer = some n → n < o.nextTimer

structure Attended (o : Owner) : Prop where
  handled : o.closing = false → ∀ key, Handled o key
  quelled : o.closing = true → Quelled o
  counted : Counted o

def retryOf (o : Owner) (key : String) : Option ℕ := (o.find key).bind SpecState.backoffTimer

/-- The event is a config that calls off a wait between its retry's firing and
its turn. -/
def overtakes (E : Env) (o : Owner) : Event → Bool
  | .apply cfg => o.posted.any fun p => match p.cmd with
    | .backoffFire key => (o.step E (.apply cfg)).any fun o' => retryOf o' key ≠ retryOf o key
    | _ => false
  | _ => false

section Passages
variable {o o' : Owner} {e : Event} {key : String}

theorem handled_of_loose (hs : Steps Loose o o') (ho : Sound o) (h : Handled o key) :
    Handled o' key := by
  refine (hs.keeps (fun x => Sound x ∧ Handled x key) (fun l hl x y hm hxy => ?_) ⟨ho,h⟩).2
  refine ⟨sound_of_move hm hxy.1,handled_of_move hm ?_ ?_ hxy.1 hxy.2⟩
  · rintro rfl
    simp [Loose] at hl
  · rintro rfl
    simp [Loose] at hl

/-- While no retry has fired, calling waits off leaves no alarm behind. -/
theorem handled_of_adopt (hs : Steps Adopt o o') (hq : ∀ p ∈ o.posted, p.cmd ≠ .backoffFire key)
    (ho : Sound o) (h : Handled o key) : Handled o' key := by
  refine (hs.keeps (fun x => Sound x ∧ x.posted = o.posted ∧ Handled x key)
    (fun l hl x y hm hx => ?_) ⟨ho,rfl,h⟩).2.2
  obtain ⟨e,f,-⟩ := touch_of_move hm
  refine ⟨sound_of_move hm hx.1,f.posted.trans hx.2.1,?_⟩
  by_cases hu : l = .unpark
  · subst hu
    exact handled_of_unpark hm (hx.2.1 ▸ hq) hx.1 hx.2.2
  · refine handled_of_move hm hu ?_ hx.1 hx.2.2
    rintro rfl
    simp [Adopt] at hl

/-- The retry that is received was the only alarm of its state. -/
theorem handled_of_retry {k : String} {serial : Option ℕ} {o₁ : Owner}
    (hm : ⟨.backoffFire k, serial⟩ ∈ o.posted)
    (he : Elapses { o with
      posted := o.posted.erase ⟨.backoffFire k, serial⟩, turn := o.turn+1 } k o₁)
    (h : Handled o key) : Handled o₁ key := by
  have hb := Begins.receive (o := o) _ hm
  by_cases hk : key = k
  · subst hk
    left
    have hperm : (alarms o key).Perm (⟨.backoffFire key, serial⟩::alarms o₁ key) := by
      have hsame : alarms o₁ key = (o.timers.map post ++ o.posted.erase
          ⟨.backoffFire key, serial⟩).filter fun p => p.cmd = .backoffFire key := by
        rcases he with ⟨-,rfl⟩ | ⟨s,since,-,-,rfl⟩ <;> rfl
      have h := (((perm_cons_erase hm).append_left (o.timers.map post)).trans
        perm_middle).filter fun p => p.cmd = .backoffFire key
      rw [filter_cons_of_pos (by simp), ← hsame] at h
      exact h
    have hlen := hperm.length_eq
    rw [length_cons] at hlen
    rcases h with h | ⟨st,n,-,-,h⟩
    · rw [h, length_nil] at hlen
      omega
    · rw [h, length_singleton] at hlen
      exact length_eq_zero_iff.mp (by omega)
  · have h₁ := handled_of_begins hb h
    rcases he with ⟨-,rfl⟩ | ⟨s,since,-,-,rfl⟩
    · exact h₁
    · apply handled_of_subperm _ _ h₁
      · exact List.Subperm.refl _
      · exact fun st n hf hn => ⟨st,(find_put_ne _ k key _ hk).trans hf,hn⟩

theorem counted_of_passage (h : Passage o e o') (ho : Counted o) : Counted o' := by
  refine keeps_of_passage Counted ?_ (fun _ hx => hx) ?_ h ho
  · intro o₁ hb _ hx key st n hf hn
    obtain ⟨s,hs,-,-,-,ht⟩ := find_of_begins hb hf
    have hlt := hx key s n hs (ht.symm.trans hn)
    cases hb <;> exact hlt
  · intro l _ x y hm hx key st n hf hn
    obtain ⟨e,f,-⟩ := touch_of_move hm
    rcases handle_before_move hm hf hn with ⟨s,hs,hns⟩ | ⟨-,hlt⟩
    · exact (hx key s n hs hns).trans_le ((Nat.le_add_right _ _).trans f.nextTimer)
    · exact hlt

/-- A config that leaves the handle of a wait leaves its one alarm. -/
theorem handled_of_left {L : Set Label} {n : ℕ} (hs : Steps L o o') (ho : Sound o)
    (hlt : n < o.nextTimer) (h : Handled o key) (hn : retryOf o' key = some n) : Handled o' key := by
  obtain ⟨st,hf,hn⟩ := Option.bind_eq_some_iff.mp hn
  refine (hs.keeps (fun x => Sound x ∧ n < x.nextTimer ∧
    ∀ st, x.find key = some st → st.backoffTimer = some n → Handled x key)
    (fun l _ x y hm hx => ?_) ⟨ho,hlt,fun _ _ _ => h⟩).2.2 st hf hn
  obtain ⟨e,f,-⟩ := touch_of_move hm
  exact ⟨sound_of_move hm hx.1,hx.2.1.trans_le ((Nat.le_add_right _ _).trans f.nextTimer),
    fun st => handled_of_kept hm hx.1 hx.2.1 hx.2.2⟩

theorem handled_of_passage {E : Env} (ho : Sound o) (hcount : Counted o) (h : Passage o e o')
    (hstep : o.step E e = some o') (hsafe : overtakes E o e = false)
    (hc : o'.closing = false) (hr : Handled o key) : Handled o' key := by
  -- only a close, a config and a retry end a wait
  by_cases hl : Label.unpark ∉ Own e ∧ Label.elapse ∉ Own e
  · refine (keeps_of_passage (fun x => Sound x ∧ Handled x key)
      (fun _ hb _ hx => ⟨sound_of_begins hb hx.1,handled_of_begins hb hx.2⟩)
      (fun reply hx => ⟨sound_of_accept hx.1 reply,hx.2⟩) (fun l hown x y hm hx =>
        ⟨sound_of_move hm hx.1,handled_of_move hm ?_ ?_ hx.1 hx.2⟩) h ⟨ho,hr⟩).2
    · rintro rfl
      exact hl.1 (hown.resolve_right (by simp [Takes]))
    · rintro rfl
      exact hl.2 (hown.resolve_right (by simp [Takes]))
  cases h with
  | calm _ o₁ _ hb hk hs _ =>
    exact handled_of_loose hs.steps (sound_of_begins hb ho) (handled_of_begins hb hr)
  | close _ hs ha =>
    rw [closing_of_steps hs] at hc
    cases hc
  | retry k serial o₁ _ hm he hs _ =>
    have hso := sound_of_begins (Begins.receive (o := o) _ hm) ho
    exact handled_of_loose hs.steps (sound_of_steps he.steps hso) (handled_of_retry hm he hr)
  | adopt cfg o₁ o₂ _ _ ha hcalm hs =>
    have hb : Begins o { o with turn := o.turn+1 } := .turn
    have hso := sound_of_begins hb ho
    have hr₁ := handled_of_begins hb hr
    by_cases hq : ∀ p ∈ o.posted, p.cmd ≠ .backoffFire key
    · exact handled_of_loose (woken_steps hcalm hs) (sound_of_steps ha hso)
        (handled_of_adopt ha hq hso hr₁)
    push Not at hq
    obtain ⟨p,hp,hcmd⟩ := hq
    have hleft := any_eq_false.mp hsafe p hp
    rw [hcmd, hstep] at hleft
    rcases hr with hnil | ⟨st,n,hf,hn,-⟩
    · exact absurd ((mem_alarms o key p).mpr ⟨.inr hp,hcmd⟩) (hnil ▸ not_mem_nil)
    refine handled_of_left ((ha.mono Set.subset_union_left).trans
      ((woken_steps hcalm hs).mono Set.subset_union_right)) hso (hcount key st n hf hn) hr₁ ?_
    have hsame : retryOf o' key = retryOf o key := by simpa using hleft
    rw [hsame, retryOf, hf]
    exact hn
  | _ => exact absurd (by simp [Own, Loose]) hl

/-- A close stops every retry that is armed. -/
theorem quelled_of_close (hs : Steps Shut { o with closing := true, turn := o.turn+1 } o')
    (ha : ∀ key, Awake o' key) (ho : Sound o) (h : ∀ key, Handled o key) : Quelled o' := by
  have hstep := hs.keeps (fun x => Sound x ∧ Bound x) (fun l hl x y hm hx => ?_)
    ⟨sound_of_begins .close ho,bound_of_handled h⟩
  · exact quelled_of_bound hstep.1 hstep.2 ha
  · refine ⟨sound_of_move hm hx.1,bound_of_move hm ?_ hx.1 hx.2⟩
    rintro rfl
    simp [Shut] at hl

/-- Once the owner closes it stays so and arms no retry. -/
theorem quelled_of_passage (h : Passage o e o') (hc : o.closing = true) (hq : Quelled o) :
    o'.closing = true ∧ Quelled o' := by
  refine keeps_of_passage (fun x => x.closing = true ∧ Quelled x) (fun o₁ hb _ hx => ⟨?_,?_⟩)
    (fun _ hx => ⟨hx.1,hx.2.awake,hx.2.timers⟩) (fun l _ x y hm hx => ?_) h ⟨hc,hq⟩
  · cases hb with
    | close => rfl
    | _ => exact hx.1
  · exact quelled_of_begins hb hx.2
  · obtain ⟨e,f,-⟩ := touch_of_move hm
    exact ⟨f.closing.trans hx.1,quelled_of_move hm hx.1 hx.2⟩

theorem attended_of_passage {E : Env} (ho : Sound o) (h : Passage o e o')
    (hstep : o.step E e = some o') (hsafe : overtakes E o e = false) (ha : Attended o) :
    Attended o' := by
  have hcount := counted_of_passage h ha.counted
  cases hc : o.closing with
  | true =>
    obtain ⟨hc',hq⟩ := quelled_of_passage h hc (ha.quelled hc)
    refine ⟨fun hf => ?_,fun _ => hq,hcount⟩
    rw [hc'] at hf
    cases hf
  | false =>
    refine ⟨fun hc' key => handled_of_passage ho ha.counted h hstep hsafe hc' (ha.handled hc key),
      fun hc' => ?_,hcount⟩
    obtain ⟨hs,hawake⟩ := shut_of_passage h hc hc'
    exact quelled_of_close hs hawake ho (ha.handled hc)

end Passages

theorem attended_of_avoiding (o : Owner) (h : ReachableAvoiding overtakes o) : Attended o := by
  refine holds_of_avoiding Attended ?_ ?_ o h
  · rintro o₀ ⟨apple,headroom,reserve,guess,grace,rfl⟩
    exact ⟨fun _ _ => .inl rfl,fun hc => (nomatch hc),fun _ _ _ hf => (nomatch hf)⟩
  · exact fun x y E e hx hsafe hs ha =>
      attended_of_passage hx.sound (passage_of_step hx.sound hx.settled hs) hs hsafe ha

theorem posted_of_receive {E : Env} {o o' : Owner} {p : Posted}
    (h : o.step E (.receive p) = some o') : p ∈ o.posted := by
  by_contra hp
  simp [Owner.step, hp] at h

/-- In a run where no config calls a wait off between its retry's firing and its
turn, a retry that ends a wait is the one whose handle the wait was entered with,
the handles name every retry that is armed, and a close leaves none. -/
theorem retry_ends_its_own_wait (o : Owner) (h : ReachableAvoiding overtakes o) :
    (∀ E key serial o' st, o.step E (.receive ⟨.backoffFire key, serial⟩) = some o' →
      o.find key = some st → st.state = .backoff → st.backoffTimer = serial) ∧
    (∀ T ∈ o.timers, ∀ key, T.purpose = .backoff key →
      ∃ st, o.find key = some st ∧ st.backoffTimer = some T.serial) ∧
    (o.closing = true → ∀ T ∈ o.timers, ∀ key, T.purpose ≠ .backoff key) := by
  have ha := attended_of_avoiding o h
  refine ⟨fun E key serial o' st hstep hf hs => ?_,?_,fun hc => (ha.quelled hc).timers⟩
  · cases hc : o.closing with
    | true => exact absurd hs ((ha.quelled hc).awake key st hf)
    | false =>
      have hmem := (mem_alarms o key ⟨.backoffFire key, serial⟩).mpr
        ⟨.inr (posted_of_receive hstep),rfl⟩
      rcases ha.handled hc key with hnil | ⟨st',n,hf',hn,hone⟩
      · rw [hnil] at hmem
        cases hmem
      rw [hone, mem_singleton, Posted.mk.injEq] at hmem
      rw [hf] at hf'
      cases hf'
      exact hn.trans hmem.2.symm
  · cases hc : o.closing with
    | true => exact fun T hT key hp => absurd hp ((ha.quelled hc).timers T hT key)
    | false => exact bound_of_handled (ha.handled hc)

def failingEnv : Env := fun _ => { quietReadings with start := fun _ _ => .error "no such file" }

def pinnedModel (binary : String) : Spec :=
  { id := "a", upstreamModel := "a", binary := binary, ramMB := 10, pinned := true }

def retryFired : Owner := playAvoiding overtakes failingEnv (newOwner false 0 0 0 0)
  [.apply { specs := [pinnedModel "old"] }, .fire ⟨.backoff "a", 0, backoffDelayFor 1⟩,
    .apply { specs := [pinnedModel "old", { id := "b", upstreamModel := "b" }] }]

theorem retry_ends_its_own_wait_retryFired :
    ∃ st, retryFired.find "a" = some st ∧ st.state = .backoff ∧ st.backoffTimer = some 0 ∧
      (⟨.backoffFire "a", some 0⟩ : Posted) ∈ retryFired.posted := by
  have hmem : (⟨.backoffFire "a", some 0⟩ : Posted) ∈ retryFired.posted := by decide +kernel
  have hstate : (retryFired.find "a").map (fun st => st.state) = some .backoff := by decide +kernel
  have hstep : (retryFired.step quietEnv (.receive ⟨.backoffFire "a", some 0⟩)).isSome = true := by
    decide +kernel
  obtain ⟨o',hstep⟩ := Option.isSome_iff_exists.mp hstep
  obtain ⟨st,hf,hs⟩ := Option.map_eq_some_iff.mp hstate
  have h := retry_ends_its_own_wait retryFired
    (reachable_playAvoiding overtakes failingEnv _ _ ⟨_,⟨_,_,_,_,_,rfl⟩,.refl⟩)
  exact ⟨st,hf,hs,h.1 quietEnv "a" (some 0) o' st hstep hf hs,hmem⟩

/-- The retry has fired when a config with another binary arrives. The wait is
called off, the new binary does not start either, and another wait begins. -/
def retryOvertaken : Owner := play failingEnv (newOwner false 0 0 0 0)
  [.apply { specs := [pinnedModel "old"] }, .fire ⟨.backoff "a", 0, backoffDelayFor 1⟩,
    .apply { specs := [pinnedModel "new"] }]

/-- The retry of the first wait ends the second one, whose own timer stays armed
without a handle. -/
theorem stale_retry_ends_wait :
    ∃ o o' : Owner, o.Reachable ∧ o.closing = false ∧ ∃ E key serial st st' T,
      o.step E (.receive ⟨.backoffFire key, serial⟩) = some o' ∧
      o.find key = some st ∧ st.state = .backoff ∧ st.backoffTimer ≠ serial ∧
      o'.find key = some st' ∧ st'.state = .starting ∧
      T ∈ o'.timers ∧ T.purpose = .backoff key ∧ st'.backoffTimer ≠ some T.serial := by
  have hopen : retryOvertaken.closing = false := by decide +kernel
  have hwait : (retryOvertaken.find "a").map (fun st => (st.state, st.backoffTimer)) =
      some (.backoff, some 1) := by decide +kernel
  have hafter : (retryOvertaken.step quietEnv (.receive ⟨.backoffFire "a", some 0⟩)).map
      (fun o' => ((o'.find "a").map (fun st => (st.state, st.backoffTimer)),
        decide (⟨.backoff "a", 1, backoffDelayFor 2⟩ ∈ o'.timers))) =
      some (some (.starting, none), true) := by decide +kernel
  obtain ⟨st,hf,hs⟩ := Option.map_eq_some_iff.mp hwait
  obtain ⟨o',hstep,ho'⟩ := Option.map_eq_some_iff.mp hafter
  rw [Prod.mk.injEq, Option.map_eq_some_iff] at ho'
  obtain ⟨⟨st',hf',hs'⟩,hT⟩ := ho'
  rw [Prod.mk.injEq] at hs hs'
  refine ⟨retryOvertaken,o',reachable_play failingEnv _ _ (reachable_newOwner _ _ _ _ _),hopen,
    quietEnv,"a",some 0,st,st',⟨.backoff "a", 1, backoffDelayFor 2⟩,hstep,hf,hs.1,?_,hf',hs'.1,
    of_decide_eq_true hT,rfl,?_⟩
  · rw [hs.2]
    decide
  · rw [hs'.2]
    decide

end OnPremGateway.OwnerRetries
