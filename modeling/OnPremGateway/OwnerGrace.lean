import OnPremGateway.OwnerAnswers

/-!
# The wake at the end of a grace window

A start that only waits for an idle process to leave its grace window is asked
for again by one timer of the owner. Plain moves make no new such waiter and
leave the timer alone, every admission ends with a look at the table that arms
it, and a command that takes a process away or hands out new specs ends with a
wake. So between two turns the timer is armed, or its command is on the way,
whenever there is a waiter.
-/

set_option autoImplicit false

namespace OnPremGateway.OwnerGrace
open RuntimeTypes OwnerModel LabelledRuns Owner Nat Option
open OwnerMoves OwnerPaths OwnerEffects
open OwnerSound OwnerSettled OwnerTurns
open OwnerInstances OwnerRuns OwnerAnswers

/-- The timer of this number is armed, or its command is on the way. -/
def WakeDue (o : Owner) (n : ℕ) : Prop :=
  (∃ T ∈ o.timers, T.purpose = .grace ∧ T.serial = n) ∨ ⟨.graceExpiry, some n⟩ ∈ o.posted

def Ticking (o : Owner) : Prop := ∀ n, o.graceTimer = some n → WakeDue o n

def Graced (o : Owner) : Prop :=
  o.closing = false → 0 < o.evictionGrace →
    ∀ key st, o.find key = some st → st.wantsGraceWake = true → o.graceTimer.isSome = true

section Ticking
variable {l : Label} {o o' : Owner}

theorem ticking_of_regrace (hm : Move .regrace o o') : Ticking o' := by
  cases hm with
  | regrace _ ts n handle expiry hk hn ha hg => exact fun serial h => .inl (hg serial h)

theorem ticking_of_move (hm : Move l o o') (h : Ticking o) : Ticking o' := by
  by_cases hl : l = .regrace
  · subst hl
    exact ticking_of_regrace hm
  obtain ⟨e,f,-⟩ := touch_of_move hm
  intro n hn
  rw [f.graceTimer hl] at hn
  rcases h n hn with ⟨T,hT,hp,hser⟩ | hpost
  · rcases (timers_of_move hm).lasts _ hT (by rw [hp]; rfl) with hT' | ⟨he,-⟩ | ⟨_,_,_,hb,_⟩
    · exact .inl ⟨T,hT',hp,hser⟩
    · exact absurd he hl
    · rw [hp] at hb
      cases hb
  · exact .inr (f.posted.symm ▸ hpost)

theorem ticking_of_steps {L : Set Label} (hs : Steps L o o') (h : Ticking o) : Ticking o' :=
  hs.keeps Ticking (fun _ _ _ _ hm hx => ticking_of_move hm hx) h

theorem ticking_of_begins (hb : Begins o o') (hk : Keeps o o' .graceExpiry) (h : Ticking o) :
    Ticking o' := by
  have hsame : o'.graceTimer = o.graceTimer := by cases hb <;> rfl
  intro n hn
  rw [hsame] at hn
  rcases h n hn with ⟨T,hT,hp,rfl⟩ | hpost
  · cases hb with
    | fire S _ =>
      by_cases he : T = S
      · right
        rw [← he, hp]
        exact List.mem_cons_self
      · exact .inl ⟨T,(List.mem_erase_of_ne he).mpr hT,hp,rfl⟩
    | _ => exact .inl ⟨T,hT,hp,rfl⟩
  · exact .inr (hk (some n) hpost)

theorem ticking_of_passage {e : Event} (h : Passage o e o') (ht : Ticking o) : Ticking o' := by
  by_cases he : ∃ serial, e = .receive ⟨.graceExpiry, serial⟩
  · obtain ⟨serial,rfl⟩ := he
    cases h with
    | calm _ o₁ _ hb hk hs _ => exact ticking_of_steps hs.steps (ticking_of_begins hb (hk _ rfl) ht)
    | grace _ o₁ _ hm hr hs => exact ticking_of_steps (graced_steps hs) (ticking_of_regrace hr)
  · exact keeps_of_passage Ticking (fun o₁ hb hk hx =>
      ticking_of_begins hb (hk _ rfl fun serial heq => he ⟨serial,heq⟩) hx) (fun _ hx => hx)
      (fun _ _ _ _ hm hx => ticking_of_move hm hx) h ht

end Ticking

theorem wantsGraceWake_iff (st : SpecState) : st.wantsGraceWake = true ↔
    st.waitingOnGrace = true ∧ st.proc = none ∧ st.state ≠ .backoff ∧
      (0 < st.pending.length ∨ st.pinnedForAdmission = true) ∧
      (0 < st.pending.length ∨ st.protected = true) := by
  simp only [SpecState.wantsGraceWake, SpecState.wantsWakeAfterStart, SpecState.wantsWake]
  split
  · rename_i h
    rw [Bool.or_eq_true, isSome_iff_ne_none, decide_eq_true_eq] at h
    simp only [Bool.false_and, Bool.and_false, Bool.false_eq_true, false_iff]
    rintro ⟨-,hp,hs,-⟩
    rcases h with h | h
    · exact h hp
    · exact hs h
  · rename_i h
    rw [Bool.or_eq_true, not_or, isSome_iff_ne_none, not_not, decide_eq_true_eq] at h
    simp only [Bool.and_eq_true, Bool.or_eq_true, decide_eq_true_eq, h.1, h.2, ne_eq,
      not_false_eq_true, true_and]
    tauto

section Moves
variable {l : Label} {o o' : Owner} {e : Effect} {key : String} {st st' : SpecState}

/-- The moves that make no start wait for a window and leave the timer alone. -/
def sparing : Label → Bool
  | .quiet | .plain | .create | .decide | .resolve _ => true
  | _ => false

theorem wants_of_change (hc : Change o key st l e st') (hl : sparing l = true)
    (hopen : o.closing = false)
    (h : st'.wantsGraceWake = true) : st.wantsGraceWake = true := by
  rw [wantsGraceWake_iff] at h ⊢
  cases hc with
  | quiet _ hq =>
    have hle := hq.waitingOnGrace
    rw [h.1] at hle
    have hw : st.waitingOnGrace = true := top_le_iff.mp hle
    simp only [SpecState.pinnedForAdmission, SpecState.protected, hq.spec, hq.instanceIdx, hq.proc,
      hq.state, hq.pending] at h ⊢
    exact ⟨hw,h.2⟩
  | shift s since hs =>
    cases hs with
    | rest _ hp hn _ => exact ⟨h.1,hp,hn,h.2.2.2⟩
    | closing hclosing _ =>
      rw [hopen] at hclosing
      cases hclosing
    | drain p hp _ =>
      have hnone : st.proc = none := h.2.1
      rw [hp] at hnone
      cases hnone
    | run p hp _ _ =>
      have hnone : st.proc = none := h.2.1
      rw [hp] at hnone
      cases hnone
    | overdue p hp _ _ =>
      have hnone : st.proc = none := h.2.1
      rw [hp] at hnone
      cases hnone
  | retime p p' hp hs => cases h.2.1
  | park since delay hp hb hn hopen' => exact absurd rfl h.2.2.1
  | unpark l since hl' hp => rcases hl' with rfl | rfl <;> cases hl
  | fail err =>
    obtain ⟨hw,hp,hs,hq,hq'⟩ := h
    refine ⟨hw,hp,hs,?_,?_⟩
    · rcases hq with hq | hq
      · cases hq
      · exact .inr hq
    · rcases hq' with hq' | hq'
      · cases hq'
      · exact .inr hq'
  | serve now p hp hs =>
    have hnone : st.proc = none := h.2.1
    rw [hp] at hnone
    cases hnone
  | answer reply err hw =>
    have hpos : 0 < st.pending.length := by
      cases hpend : st.pending with
      | nil => simp [SpecState.waiting, hpend] at hw
      | cons w ws => exact succ_pos _
    exact ⟨h.1,h.2.1,h.2.2.1,.inl hpos,.inl hpos⟩
  | signal p serial cause hp hs hcause => cases h.2.1
  | spawn p since hp hn hg hi hl' => cases h.2.1
  | verdict ram grace => cases hl
  | respec spec hid hk hb => cases hl
  | clear p hp => cases hl
  | enqueue w => cases hl
  | _ => exact h

theorem graced_of_move (hm : Move l o o') (hl : sparing l = true) (h : Graced o) : Graced o' := by
  obtain ⟨e,f,t⟩ := touch_of_move hm
  have hr : l ≠ .regrace := by
    rintro rfl
    cases hl
  intro hc hg key st' h' hw
  rw [f.closing] at hc
  rw [f.evictionGrace] at hg
  rw [f.graceTimer hr]
  rcases origin_of_touch t h' with h0 | ⟨st,h0,hch⟩ | ⟨-,hf⟩
  · exact h hc hg key st' h0 hw
  · exact h hc hg key st h0 (wants_of_change hch hl hc hw)
  · rw [wantsGraceWake_iff, hf.waitingOnGrace] at hw
    cases hw.1

theorem graced_of_grow (hs : Steps Grow o o') (h : Graced o) : Graced o' :=
  hs.keeps Graced (fun _ hl _ _ hm hx => graced_of_move hm (by rcases hl with rfl | rfl | rfl <;> rfl) hx) h

theorem graced_of_still (hs : Steps Still o o') (h : Graced o) : Graced o' :=
  graced_of_grow (hs.mono (still_plain.trans plain_grow)) h

theorem graced_of_begins (hb : Begins o o') (h : Graced o) : Graced o' := by
  cases hb with
  | release reply k gen s now _ _ hf hr =>
    intro hc hg key st hst hw
    rw [find_put] at hst
    split at hst
    · -- the instance has a process and so waits for nothing
      cases hst
      rw [wantsGraceWake_iff] at hw
      have hnone : s.proc = none := hw.2.1
      rw [SpecState.runs, hnone] at hr
      cases hr
    · exact h hc hg key st hst hw
  | close =>
    intro hc
    cases hc
  | _ => exact h

end Moves

section Admissions
variable (E : Env) (o : Owner)

theorem cancelGrace_eq : o.cancelGrace =
    { o with timers := (o.cancelTimer .grace o.graceTimer).timers
             graceTimer := none, graceTimerAt := 0 } := by
  rw [cancelGrace, cancelTimer_eq]

theorem armGrace_isSome (expiry : Option ℤ) : (o.armGrace E expiry).graceTimer.isSome = true := by
  unfold armGrace
  cases expiry <;> rfl

/-- The look at the table arms the timer if it finds a waiter. -/
theorem graced_rescheduleGraceWake : Graced (o.rescheduleGraceWake E) := by
  intro hc hg key st hf hw
  rw [rescheduleGraceWake] at hc hg hf ⊢
  split at hg
  · rename_i hoff
    rw [cancelGrace_eq] at hg
    exact absurd hg (not_lt.mpr hoff)
  rename_i hon
  rw [if_neg hon] at hf ⊢
  split at hf
  · -- nothing in the table waits
    rename_i hnone
    rw [cancelGrace_eq] at hf
    have hmem := AList.mem_lookup_iff.mp (show st ∈ o.specs.lookup key from hf)
    rw [Bool.not_eq_true', List.any_eq_false] at hnone
    exact absurd hw (hnone _ hmem)
  rename_i hsome
  rw [if_neg hsome]
  dsimp only
  split
  · rename_i harmed
    rw [Bool.and_eq_true, Bool.and_eq_true] at harmed
    exact harmed.1.2
  · exact armGrace_isSome _ _ _

theorem graced_admitAndStart (key : String) : Graced (o.admitAndStart E key) := by
  rw [admitAndStart, admitDepth, admitBody]
  split
  · rename_i hc
    intro hopen
    rw [hc] at hopen
    cases hopen
  · exact graced_rescheduleGraceWake _ _

end Admissions

theorem graced_or_grow {o o' : Owner} (h : Calmly o o') : Graced o' ∨ Steps Grow o o' := by
  induction h with
  | grow hs => exact .inr hs
  | ask E o key => exact .inl (graced_admitAndStart E o key)
  | trans _ _ hab hbc =>
    rcases hbc with hbc | hbc
    · exact .inl hbc
    · rcases hab with hab | hab
      · exact .inl (graced_of_grow hbc hab)
      · exact .inr (hab.trans hbc)

theorem graced_of_calmly {o o' : Owner} (h : Calmly o o') (hg : Graced o) : Graced o' := by
  rcases graced_or_grow h with h | h
  · exact h
  · exact graced_of_grow h hg

/-- A wake asks for whatever waits, unless something was asked for before it. -/
theorem graced_wakeAdmissionCandidates (E : Env) (o : Owner) (h : Graced o ∨ Unasked o) :
    Graced (o.wakeAdmissionCandidates E) := by
  have hcalm := wakeAdmission_calmly E o SpecState.wantsWake
  rcases h with h | h
  · exact graced_of_calmly hcalm h
  by_cases hwait : ∃ key st, o.find key = some st ∧ st.wantsGraceWake = true
  · obtain ⟨key,st,hf,hw⟩ := hwait
    have hmem : (⟨key, specBase st.spec, st.instanceIdx, queuedSince st.pending⟩ : WakeCandidate) ∈
        o.wakeCandidates (E.sub 0) SpecState.wantsWake := by
      have hwake : st.wantsWake = true := by
        rw [SpecState.wantsGraceWake, SpecState.wantsWakeAfterStart, Bool.and_eq_true,
          Bool.and_eq_true] at hw
        exact hw.2.1
      rw [wakeCandidates, SliceOrder.mem_sortSlice, List.mem_filterMap]
      exact ⟨key,mem_keys_of_find o key st (E.sub 0) hf,by rw [hf]; simp [hwake]⟩
    rw [wakeAdmissionCandidates, wakeAdmission]
    cases hcs : o.wakeCandidates (E.sub 0) SpecState.wantsWake with
    | nil =>
      rw [hcs] at hmem
      cases hmem
    | cons c cs =>
      have hask : o.reask ((E.sub 1).sub 0) c.id = o.admitAndStart ((E.sub 1).sub 0) c.id := by
        rw [reask, if_neg]
        rw [Bool.not_eq_true, any_eq_false]
        intro s hs
        rw [decidedThisTurn, Bool.and_eq_false_iff]
        exact .inr (decide_eq_false (h c.id s hs).ne)
      rw [forEach, hask]
      refine graced_of_calmly ?_ (graced_admitAndStart ((E.sub 1).sub 0) o c.id)
      exact forEach_rel Calmly Calmly.refl Calmly.trans _
        (fun E o (c : WakeCandidate) => reask_calmly E o c.id) _ _ _
  · exact graced_of_calmly hcalm fun _ _ key st hf hw => absurd ⟨key,st,hf,hw⟩ hwait

/-- A stretch before a wake asked for something, or nothing was decided yet. -/
theorem graced_or_unasked {o o' : Owner} (h : Calmly o o') (hpos : 0 < o.turn) (hu : Unasked o) :
    Graced o' ∨ Unasked o' := by
  rcases graced_or_grow h with h | h
  · exact .inl h
  · exact .inr (unasked_of_steps h (by simp [Grow]) hpos hu)

theorem graced_of_passage {o o' : Owner} {e : Event} (ho : Sound o) (h : Passage o e o')
    (hg : Graced o) : Graced o' := by
  cases h with
  | calm _ o₁ _ hb hk hs _ => exact graced_of_calmly hs (graced_of_begins hb hg)
  | close _ hs ha =>
    intro hc
    rw [closing_of_steps hs] at hc
    cases hc
  | grace serial o₁ _ hm hr hs =>
    rcases hs with ⟨hclosing,hs⟩ | ⟨E,o₂,hcalm,hs⟩
    · intro hc
      rw [closing_of_steps hs, hclosing] at hc
      cases hc
    · exact graced_of_still hs (graced_rescheduleGraceWake E o₂)
  | retry k serial o₁ _ hm he hs ha =>
    rcases ha with hn | ⟨E,hcalm⟩
    · rcases he with ⟨-,rfl⟩ | ⟨st,since,hf,-⟩
      · exact graced_of_calmly hs (graced_of_begins (.receive _ hm) hg)
      · have hf' : o.find k = some st := hf
        rw [hn] at hf'
        cases hf'
    · exact graced_of_calmly hcalm (graced_admitAndStart E o₁ k)
  | adopt cfg o₁ o₂ E _ ha hcalm hs =>
    have hun := unasked_of_steps ha (by simp [Adopt]) (succ_pos _)
      (unasked_of_turn ho rfl rfl)
    have hpos : 0 < o₁.turn := by
      rw [turn_of_steps ha]
      exact succ_pos _
    exact graced_of_still hs
      (graced_wakeAdmissionCandidates E o₂ (graced_or_unasked hcalm hpos hun))
  | exit k gen exitErr serial st p E₁ o₂ E₂ _ hm hf hp hgen hcalm hs hmanned =>
    have hclear := Move.clear E₁ { o with
      posted := o.posted.erase ⟨.childExited k gen exitErr, serial⟩, turn := o.turn+1 } k st p hf hp
    have hun := unasked_of_move hclear (by simp) (succ_pos _) (unasked_of_turn ho rfl rfl)
    obtain ⟨e,f,-⟩ := touch_of_move hclear
    exact graced_of_still hs (graced_wakeAdmissionCandidates E₂ o₂
      (graced_or_unasked hcalm (f.turn ▸ succ_pos _) hun))
  | request model reply serving o₁ o₂ _ hfresh hp hreq hs =>
    apply graced_of_still hs
    rcases hreq with hm | ⟨k,st,E₁,E₂,hf,rfl⟩
    · exact graced_of_move hm rfl (graced_of_grow hp hg)
    · exact graced_admitAndStart E₂ _ k

/-- Between two turns of an open owner with a grace window, a start that waits
for a window has its wake armed or on the way. -/
theorem grace_wake_pending (o : Owner) (h : o.Reachable) (hc : o.closing = false)
    (hg : 0 < o.evictionGrace) (key : String) (st : SpecState) (hf : o.find key = some st)
    (hw : st.wantsGraceWake = true) : ∃ n, o.graceTimer = some n ∧ WakeDue o n := by
  have hgraced : Graced o := by
    refine holds_of_reachable Graced (fun o₀ hi _ _ key st hf => ?_)
      (fun x y e hx hp hgx => graced_of_passage hx.sound hp hgx) o h
    rw [find_newOwner hi] at hf
    cases hf
  have hticking : Ticking o := by
    refine holds_of_reachable Ticking ?_ (fun x y e _ hp hx => ticking_of_passage hp hx) o h
    rintro o₀ ⟨apple,headroom,reserve,guess,grace,rfl⟩ n hn
    cases hn
  obtain ⟨n,hn⟩ := isSome_iff_exists.mp (hgraced hc hg key st hf hw)
  exact ⟨n,hn,hticking n hn⟩

def waitingForGrace : Owner := play quietEnv (newOwner false 0 0 0 1000)
  [.apply { specs := [{ id := "a", upstreamModel := "a", gpus := [⟨0, 100⟩], ramMB := 10 },
      { id := "b", upstreamModel := "b", gpus := [⟨0, 100⟩], ramMB := 10 }]
            gpuBudgets := [⟨0, 100⟩] },
    .ensure "a" 0 true, .probe "a" 0 true, .receive ⟨.startResult "a" 0 true, none⟩, .release 0,
    .ensure "b" 1 true]

theorem grace_wake_pending_waitingForGrace :
    ∃ st, waitingForGrace.find "b" = some st ∧ st.wantsGraceWake = true ∧
      ∃ n, waitingForGrace.graceTimer = some n ∧ WakeDue waitingForGrace n := by
  have hopen : waitingForGrace.closing = false := by decide +kernel
  have hgrace : 0 < waitingForGrace.evictionGrace := by decide +kernel
  have hwants : (waitingForGrace.find "b").map SpecState.wantsGraceWake = some true := by
    decide +kernel
  obtain ⟨st,hf,hw⟩ := map_eq_some_iff.mp hwants
  exact ⟨st,hf,hw,grace_wake_pending waitingForGrace
    (reachable_play quietEnv _ _ (reachable_newOwner _ _ _ _ _)) hopen hgrace "b" st hf hw⟩

end OnPremGateway.OwnerGrace
