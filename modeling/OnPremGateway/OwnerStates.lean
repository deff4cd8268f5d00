import OnPremGateway.OwnerAnswers

/-!
# States and processes

What the state of an instance says about its process. A resting state has no
process, a waiting one has a retry that is armed or on its way, and a retry is
put off only while there is a process. All of this holds along every run.

A running, starting or draining state has a process as well, as long as no exit
strands an instance. An instance is stranded when its start timed out, a new
config made it burst capacity and drained it, and only then it exited: the exit
owes it a retry, burst capacity is not retried, and it is left draining.
-/

set_option autoImplicit false

namespace OnPremGateway.OwnerStates
open RuntimeTypes OwnerModel LabelledRuns
open OwnerMoves OwnerEffects OwnerSound
open OwnerSettled OwnerTurns OwnerRuns
open OwnerPaths OwnerInstances OwnerExits
open OwnerAnswers

def rests (s : State) : Bool :=
  s = .stopped || s = .crashed || s = .notPermitted || s = .pendingVRAMUnknown

structure Rested (st : SpecState) : Prop where
  proc : rests st.state = true → st.proc = none
  stop : st.intentionalStop = true → st.state = .draining ∨ st.state = .startFailed

def RestedAt (o : Owner) (key : String) : Prop := ∀ st, o.find key = some st → Rested st

/-- The retry of a wait is armed, or its command is on the way. -/
def RetryDue (o : Owner) (key : String) (st : SpecState) : Prop :=
  (∃ T ∈ o.timers, T.purpose = .backoff key ∧ st.backoffTimer = some T.serial) ∨
    ∃ serial, ⟨.backoffFire key, serial⟩ ∈ o.posted

def RetriedAt (o : Owner) (key : String) : Prop :=
  ∀ st, o.find key = some st → st.state = .backoff → RetryDue o key st

section Moves
variable {l : Label} {o o' : Owner} {e : Effect} {key : String} {st st' : SpecState}

theorem rested_of_shifts {s : State} (h : Shifts o st s) (hc : o.closing = false)
    (hidle : st.proc = none → ¬st.intentionalStop = true) (hr : Rested st) (since : ℤ) :
    Rested { st with state := s, since := since } := by
  cases h with
  | rest _ hp hs hn => exact ⟨fun _ => hp,fun hi => absurd hi (hidle hp)⟩
  | drain p hp hs => exact ⟨fun h => (by cases h),fun _ => .inl rfl⟩
  | run p hp hs hg =>
    refine ⟨fun h => (by cases h),fun hi => ?_⟩
    rcases hr.stop hi with hd | hd <;> rw [hs] at hd <;> cases hd
  | overdue p hp hs hg => exact ⟨fun h => (by cases h),fun _ => .inr rfl⟩
  | closing hc' hs =>
    rw [hc] at hc'
    cases hc'

theorem rested_of_change (h : Change o key st l e st') (hc : o.closing = false)
    (hst : Coherent o.turn key st) (hr : Rested st) : Rested st' := by
  -- without a process nothing was told to stop
  have hidle (hp : st.proc = none) : ¬st.intentionalStop = true := by
    rw [(hst.idle hp).2.2]
    decide
  cases h with
  | quiet _ hq =>
    refine ⟨fun h => ?_,fun hi => ?_⟩
    · rw [hq.state] at h
      rw [hq.proc]
      exact hr.proc h
    · rw [hq.intentionalStop] at hi
      rw [hq.state]
      exact hr.stop hi
  | shift s since hs => exact rested_of_shifts hs hc hidle hr since
  | retime p q hp hs =>
    refine ⟨fun h => ?_,hr.stop⟩
    have hn := hr.proc h
    rw [hp] at hn
    cases hn
  | park since delay hp hb hn hc => exact ⟨fun h => (by cases h),fun hi => absurd hi (hidle hp)⟩
  | unpark l since hl hp =>
    by_cases hs : st.state = .backoff
    · exact ⟨fun _ => hp hs,fun hi => absurd hi (hidle (hp hs))⟩
    · simp only [if_neg hs]
      exact ⟨hr.proc,hr.stop⟩
  | signal p serial cause hp hs hcause =>
    refine ⟨fun h => ?_,fun _ => hs⟩
    have hn := hr.proc h
    rw [hp] at hn
    cases hn
  | spawn p since hp hn hg hi hl => exact ⟨fun h => (by cases h),fun hi => absurd hi (hidle hp)⟩
  | clear p hp => exact ⟨fun _ => rfl,fun hi => (by cases hi)⟩
  | _ => exact ⟨hr.proc,hr.stop⟩

theorem rested_of_move (hm : Move l o o') (hc : o.closing = false) (ho : Sound o)
    (h : RestedAt o key) : RestedAt o' key := by
  obtain ⟨e,-,t⟩ := touch_of_move hm
  intro st' h'
  rcases origin_of_touch t h' with h0 | ⟨st,h0,hch⟩ | ⟨-,hf⟩
  · exact h st' h0
  · exact rested_of_change hch hc (ho.states key st h0) (h st h0)
  · refine ⟨fun _ => hf.proc,fun hi => ?_⟩
    rw [hf.intentionalStop] at hi
    cases hi

/-- A retry that is due stays due while its state waits. -/
theorem retryDue_of_move (hm : Move l o o') (ho : Sound o) (h : RetryDue o key st)
    (h' : o'.find key = some st') (hs : st'.state = .backoff)
    (ht : st'.backoffTimer = st.backoffTimer) : RetryDue o' key st' := by
  obtain ⟨e,f,-⟩ := touch_of_move hm
  rcases h with ⟨T,hT,hp,hser⟩ | ⟨serial,hpost⟩
  · rcases (timers_of_move hm).lasts _ hT (by rw [hp]; rfl) with hT' | ⟨-,hg⟩ | ⟨k,s,hk,hid,hn⟩
    · exact .inl ⟨T,hT',hp,ht.trans hser⟩
    · rw [hp] at hg
      cases hg
    · -- only the owner of the timer stops it, and it leaves the wait with it
      rw [hp, Purpose.backoff.injEq] at hid
      have hkey : k = key := (ho.states k s hk).id.symm.trans hid.symm
      rw [hkey] at hn
      exact absurd hs (hn st' h')
  · exact .inr ⟨serial,f.posted.symm ▸ hpost⟩

theorem retried_of_move (hm : Move l o o') (ho : Sound o) (h : RetriedAt o key) :
    RetriedAt o' key := by
  obtain ⟨e,f,t⟩ := touch_of_move hm
  intro st' h' hs
  rcases origin_of_touch t h' with h0 | ⟨st,h0,hch⟩ | ⟨-,hf⟩
  · exact retryDue_of_move hm ho (h st' h0 hs) h' hs rfl
  · rcases waiting_of_change hch hs with ⟨hb,ht⟩ | ⟨-,T,hT,hp,hser⟩
    · exact retryDue_of_move hm ho (h st h0 hb) h' hs ht
    · rw [(ho.states key st h0).id] at hp
      exact .inl ⟨T,f.parked hT,hp,hser⟩
  · rw [hf.state] at hs
    cases hs

theorem retried_of_steps {L : Set Label} (hs : Steps L o o') (ho : Sound o)
    (h : RetriedAt o key) : RetriedAt o' key := by
  refine (hs.keeps (fun x => Sound x ∧ RetriedAt x key) (fun l _ x y hm hx => ?_) ⟨ho,h⟩).2
  exact ⟨sound_of_move hm hx.1,retried_of_move hm hx.1 hx.2⟩

end Moves

section Begin
variable {o o₁ : Owner} {key : String}

/-- The beginning of a step leaves the state and the process of an instance. -/
theorem find_of_begins (hb : Begins o o₁) {st₁ : SpecState} (h : o₁.find key = some st₁) :
    ∃ st, o.find key = some st ∧ st₁.state = st.state ∧ st₁.proc = st.proc ∧
      st₁.intentionalStop = st.intentionalStop ∧ st₁.backoffTimer = st.backoffTimer := by
  cases hb with
  | release reply k gen st now _ _ hf hg =>
    rw [find_put] at h
    split at h
    · rename_i hk
      cases h
      exact ⟨st,hk ▸ hf,rfl,rfl,rfl,rfl⟩
    · exact ⟨st₁,h,rfl,rfl,rfl,rfl⟩
  | _ => exact ⟨st₁,h,rfl,rfl,rfl,rfl⟩

theorem rested_of_begins (hb : Begins o o₁) (h : RestedAt o key) : RestedAt o₁ key := by
  intro st₁ h₁
  obtain ⟨st,hf,hs,hp,hi,-⟩ := find_of_begins hb h₁
  refine ⟨?_,?_⟩
  · rw [hs, hp]
    exact (h st hf).proc
  · rw [hs, hi]
    exact (h st hf).stop

theorem manned_of_begins (hb : Begins o o₁) (h : Manned o key) : Manned o₁ key := by
  intro st₁ h₁ hn
  obtain ⟨st,hf,hs,hp,-,-⟩ := find_of_begins hb h₁
  rw [hs] at hn
  rw [hp]
  exact h st hf hn

/-- A timer that fires becomes the command it was armed for. -/
theorem retryDue_of_begins (hb : Begins o o₁) (hk : Keeps o o₁ (.backoffFire key)) {st st₁ : SpecState}
    (ht : st₁.backoffTimer = st.backoffTimer) (h : RetryDue o key st) : RetryDue o₁ key st₁ := by
  rcases h with ⟨T,hT,hp,hser⟩ | ⟨serial,hpost⟩
  · cases hb with
    | fire T' _ =>
      by_cases he : T = T'
      · right
        refine ⟨some T'.serial,?_⟩
        rw [← he, hp]
        exact List.mem_cons_self
      · exact .inl ⟨T,(List.mem_erase_of_ne he).mpr hT,hp,ht.trans hser⟩
    | _ => exact .inl ⟨T,hT,hp,ht.trans hser⟩
  · exact .inr ⟨serial,hk serial hpost⟩

theorem retried_of_begins (hb : Begins o o₁) (hk : Keeps o o₁ (.backoffFire key)) (h : RetriedAt o key) :
    RetriedAt o₁ key := by
  intro st₁ h₁ hs
  obtain ⟨st,hf,hst,-,-,ht⟩ := find_of_begins hb h₁
  rw [hst] at hs
  exact retryDue_of_begins hb hk ht (h st hf hs)

end Begin

section Passages
variable {o o' : Owner} {e : Event} {key : String}

theorem closing_of_passage (h : Passage o e o') (hc : o'.closing = false) : o.closing = false := by
  by_contra ho
  rw [Bool.not_eq_false] at ho
  have hclosed : o'.closing = true := by
    refine keeps_of_passage (fun x => x.closing = true) (fun o₁ hb _ hx => ?_) (fun _ hx => hx)
      (fun l _ x y hm hx => ?_) h ho
    · cases hb <;> first | rfl | exact hx
    · obtain ⟨e,f,-⟩ := touch_of_move hm
      exact f.closing.trans hx
  rw [hc] at hclosed
  cases hclosed

theorem rested_of_passage (ho : Sound o) (h : Passage o e o') (hc : o'.closing = false)
    (hr : RestedAt o key) : RestedAt o' key := by
  refine (keeps_of_passage (fun x => Sound x ∧ (x.closing = false → RestedAt x key))
    (fun o₁ hb _ hx => ?_) (fun reply hx => ⟨sound_of_accept hx.1 reply,hx.2⟩)
    (fun l _ x y hm hx => ⟨sound_of_move hm hx.1,fun hy => ?_⟩) h ⟨ho,fun _ => hr⟩).2 hc
  · exact ⟨sound_of_begins hb hx.1,fun h₁ => rested_of_begins hb (hx.2 (closing_of_begins hb h₁))⟩
  · obtain ⟨e,f,-⟩ := touch_of_move hm
    have hopen := f.closing.symm.trans hy
    exact rested_of_move hm hopen hx.1 (hx.2 hopen)

theorem retried_of_passage (ho : Sound o) (h : Passage o e o') (hr : RetriedAt o key) :
    RetriedAt o' key := by
  by_cases he : ∃ serial, e = .receive ⟨.backoffFire key, serial⟩
  · obtain ⟨serial,rfl⟩ := he
    cases h with
    | calm _ o₁ _ hb hk hs hc =>
      exact retried_of_steps hs.steps (sound_of_begins hb ho) (retried_of_begins hb (hk _ rfl) hr)
    | retry _ _ o₁ _ hm he hs _ =>
      -- its own command is the one that was received
      apply retried_of_steps hs.steps (sound_of_steps he.steps (sound_of_begins (.receive _ hm) ho))
      exact fun st hf hst => absurd hst (he.state st hf)
  · exact (keeps_of_passage (fun x => Sound x ∧ RetriedAt x key)
      (fun o₁ hb hk hx => ⟨sound_of_begins hb hx.1,
        retried_of_begins hb (hk _ rfl fun serial heq => he ⟨serial,heq⟩) hx.2⟩)
      (fun reply hx => ⟨sound_of_accept hx.1 reply,hx.2⟩)
      (fun l _ x y hm hx => ⟨sound_of_move hm hx.1,retried_of_move hm hx.1 hx.2⟩) h ⟨ho,hr⟩).2

end Passages

def stranding (_ : Env) (o : Owner) : Event → Bool
  | .receive ⟨.childExited key gen _, _⟩ => (o.find key).any fun st => st.runs gen && strands st
  | _ => false

section Manned
variable {o o' : Owner} {e : Event}

/-- The instance that exits is the only one a cleared process is missed at. -/
theorem manned_of_clear {E : Env} {k key : String} {st : SpecState} {p : Proc}
    (hf : o.find k = some st) (hp : st.proc = some p) (hk : key ≠ k) (h : Manned o key) :
    Manned (o.clearProc E k) key := by
  obtain ⟨freed,seq,he⟩ := clearProc_some E o k st p hf hp
  intro st' h' hn
  rw [he] at h'
  exact h st' ((find_put_ne o k key _ hk).symm.trans h') hn

theorem manned_of_passage {E : Env} (h : Passage o e o') (hsafe : stranding E o e = false)
    (hr : ∀ key, RestedAt o key) (hm : ∀ key, Manned o key) (key : String) : Manned o' key := by
  -- only an exit clears a process
  by_cases he : Label.clear ∉ Own e
  · refine keeps_of_passage (fun x => Manned x key) (fun _ hb _ => manned_of_begins hb)
      (fun _ hx => hx) (fun l hl x y hmove => manned_of_move hmove ?_ key) h (hm key)
    rintro rfl
    exact he (hl.resolve_right (by simp [Takes]))
  cases h with
  | calm _ o₁ _ hb hk hs hc =>
    exact manned_of_steps hs.steps loose_clear key (manned_of_begins hb (hm key))
  | exit k gen exitErr serial st p E₁ o₂ E₂ _ hpost hf hp hg hcalm hs hmanned =>
    have hw := (wakeAdmission_calm E₂ o₂ SpecState.wantsWake).trans (hs.mono still_calm)
    apply manned_of_steps hw calm_clear key
    by_cases hk : key = k
    · have hruns : st.runs gen = true := by simp [SpecState.runs, hp, hg]
      have hnot : strands st = false := by
        simpa [stranding, hf, hruns] using hsafe
      rw [hk]
      exact hmanned (hr k st hf).stop hnot
    · apply manned_of_steps hcalm.steps loose_clear key
      exact manned_of_clear hf hp hk (manned_of_begins (.receive _ hpost) (hm key))
  | _ => exact absurd (by simp [Own, Loose, Adopt, Shut]) he

end Manned

theorem rested_of_initial {o : Owner} (h : o.Initial) (key : String) : RestedAt o key := by
  intro st hf
  rw [find_newOwner h] at hf
  cases hf

/-- A wait always has its retry, in any run. -/
theorem retried_of_reachable (o : Owner) (h : o.Reachable) (key : String) : RetriedAt o key := by
  refine holds_of_reachable (fun o => RetriedAt o key) ?_ ?_ o h
  · intro o₀ hi st hf
    rw [find_newOwner hi] at hf
    cases hf
  · exact fun o o' e hst hp hr => retried_of_passage hst.sound hp hr

theorem manned_of_avoiding (o : Owner) (h : ReachableAvoiding stranding o) :
    o.closing = false → (∀ key, RestedAt o key) ∧ ∀ key, Manned o key := by
  refine holds_of_avoiding (fun o => o.closing = false → (∀ key, RestedAt o key) ∧
    ∀ key, Manned o key) ?_ ?_ o h
  · intro x hx _
    refine ⟨rested_of_initial hx,fun key st hf => ?_⟩
    rw [find_newOwner hx] at hf
    cases hf
  · intro x y E e hx hsafe hs hP hy
    have hp := passage_of_step hx.sound hx.settled hs
    obtain ⟨hr,hm⟩ := hP (closing_of_passage hp hy)
    exact ⟨fun key => rested_of_passage hx.sound hp hy (hr key),manned_of_passage hp hsafe hr hm⟩

/-- In every state of a run that strands no instance and does not close, the
state of an instance and its process agree. -/
theorem state_agrees_with_process (o : Owner) (h : ReachableAvoiding stranding o)
    (hc : o.closing = false) (key : String) (st : SpecState) (hf : o.find key = some st) :
    (st.state = .running ∨ st.state = .starting ∨ st.state = .draining → st.proc.isSome = true) ∧
    (st.state = .backoff → st.proc = none ∧ RetryDue o key st) ∧
    (st.state = .stopped ∨ st.state = .crashed ∨ st.state = .notPermitted ∨
      st.state = .pendingVRAMUnknown → st.proc = none) ∧
    (st.proc = none → st.backoffOnExit = false) := by
  have hreach := reachable_of_avoiding h
  have hst := (steady_of_reachable o hreach).sound.states key st hf
  obtain ⟨hr,hm⟩ := manned_of_avoiding o h hc
  refine ⟨fun hs => hm key st hf ?_,fun hs => ?_,fun hs => (hr key st hf).proc ?_,fun hp => ?_⟩
  · rcases hs with hs | hs | hs <;> rw [hs] <;> rfl
  · exact ⟨(hst.backoff hs).1,retried_of_reachable o hreach key st hf hs⟩
  · rcases hs with hs | hs | hs | hs <;> rw [hs] <;> rfl
  · exact (hst.idle hp).2.1

def crashedOnce : Owner := playAvoiding stranding quietEnv (newOwner false 0 0 0 0)
  [.apply { specs := [{ id := "a", upstreamModel := "a", ramMB := 10 }] },
    .ensure "a" 0 true, .probe "a" 0 true, .receive ⟨.startResult "a" 0 true, none⟩,
    .exit "a" 0 ⟨1, false⟩, .receive ⟨.childExited "a" 0 ⟨1, false⟩, none⟩]

theorem state_agrees_with_process_crashedOnce :
    ∃ st, crashedOnce.find "a" = some st ∧ st.state = .backoff ∧ st.proc = none ∧
      RetryDue crashedOnce "a" st := by
  have hopen : crashedOnce.closing = false := by decide +kernel
  have hstate : (crashedOnce.find "a").map (fun st => st.state) = some .backoff := by
    decide +kernel
  obtain ⟨st,hf,hs⟩ := Option.map_eq_some_iff.mp hstate
  have h := state_agrees_with_process crashedOnce
    (reachable_playAvoiding stranding quietEnv _ _ ⟨_,⟨_,_,_,_,_,rfl⟩,.refl⟩) hopen "a" st hf
  exact ⟨st,hf,hs,h.2.1 hs⟩

def twoProtected : Spec :=
  { id := "a", upstreamModel := "a", binary := "old", ramMB := 10, replicable := true
    minInstances := 2 }

/-- The second instance times out at its start, becomes burst capacity of
another launch shape before it is gone, and exits. -/
def stranded : Owner := play quietEnv (newOwner false 0 0 0 0)
  [.apply { specs := [twoProtected] }, .probe "a" 0 true, .receive ⟨.startResult "a" 0 true, none⟩,
    .probe "a#1" 1 false, .receive ⟨.startResult "a#1" 1 false, none⟩,
    .apply { specs := [{ twoProtected with binary := "new", minInstances := 1 }] },
    .exit "a#1" 1 ⟨0, false⟩, .receive ⟨.childExited "a#1" 1 ⟨0, false⟩, none⟩]

/-- The exit leaves it draining without a process. -/
theorem draining_without_process :
    ∃ o : Owner, o.Reachable ∧ o.closing = false ∧ ∃ key st, o.find key = some st ∧
      st.state = .draining ∧ st.proc = none := by
  have hopen : stranded.closing = false := by decide +kernel
  have hstate : (stranded.find "a#1").map (fun st => (st.state, st.proc)) =
      some (.draining, none) := by decide +kernel
  obtain ⟨st,hf,hs⟩ := Option.map_eq_some_iff.mp hstate
  rw [Prod.mk.injEq] at hs
  exact ⟨stranded,reachable_play quietEnv _ _ (reachable_newOwner _ _ _ _ _),hopen,"a#1",st,hf,hs.1,hs.2⟩

end OnPremGateway.OwnerStates
