import OnPremGateway.OwnerExits

/-!
# Runs of the owner

A step begins with what happens outside, a timer that fires or a command that
is received, and the owner's moves follow. Every state of a run is sound, and
between two steps every burst instance is settled.
-/

set_option autoImplicit false

namespace OnPremGateway.OwnerRuns
open RuntimeTypes InstanceModel OwnerModel List Owner Nat
open LabelledRuns OwnerMoves OwnerPaths
open OwnerEffects OwnerSound OwnerSettled
open OwnerTurns OwnerInstances OwnerExits

inductive Begins (o : Owner) : Owner → Prop
  | turn : Begins o { o with turn := o.turn+1 }
  | receive (p : Posted) (h : p ∈ o.posted) :
      Begins o { o with posted := o.posted.erase p, turn := o.turn+1 }
  | close : Begins o { o with closing := true, turn := o.turn+1 }
  | stale (reply : ℕ) (key : String) (gen : ℕ) (h : o.grantOf reply = some (key, gen))
      (hr : reply ∉ o.released) (hn : ∀ st, o.find key = some st → st.runs gen = false) :
      Begins o { o with released := reply::o.released, turn := o.turn+1 }
  | release (reply : ℕ) (key : String) (gen : ℕ) (st : SpecState) (now : ℤ)
      (h : o.grantOf reply = some (key, gen)) (hr : reply ∉ o.released)
      (hf : o.find key = some st) (hg : st.runs gen = true) :
      Begins o (Owner.put { o with released := reply::o.released, turn := o.turn+1 } key
        { st with inFlight := if st.inFlight > 0 then st.inFlight-1 else st.inFlight
                  lastUsed := now })
  | fire (T : Timer) (h : T ∈ o.timers) :
      Begins o { o with timers := o.timers.erase T
                        posted := ⟨T.purpose.cmd, some T.serial⟩::o.posted }
  | exit (key : String) (gen : ℕ) (exitErr : ExitErr) :
      Begins o { o with children := o.children.erase (key, gen)
                        posted := ⟨.childExited key gen exitErr, none⟩::o.posted }
  | probe (key : String) (gen : ℕ) (ok : Bool) (h : (key, gen) ∈ o.polling) :
      Begins o { o with polling := o.polling.erase (key, gen)
                        posted := ⟨.startResult key gen ok, none⟩::o.posted }
  | measure (targets : List MeasureTarget) (byPID : AList (fun _ : ℤ => IntMap))
      (ramByPID : IntMap) :
      Begins o { o with measurement := none
                        posted := ⟨.measured targets byPID ramByPID, none⟩::o.posted }

def awaited : Command → Bool
  | .backoffFire _ | .graceExpiry => true
  | _ => false

abbrev taken (o : Owner) (p : Posted) : Owner :=
  { o with posted := o.posted.erase p, turn := o.turn+1 }

def Keeps (o o₁ : Owner) (cmd : Command) : Prop :=
  ∀ serial, ⟨cmd, serial⟩ ∈ o.posted → ⟨cmd, serial⟩ ∈ o₁.posted

theorem keeps_receive (o : Owner) {p : Posted} {cmd : Command} (h : p.cmd ≠ cmd) :
    Keeps o (taken o p) cmd := by
  intro serial hmem
  have hne : (⟨cmd, serial⟩ : Posted) ≠ p := by
    rintro rfl
    exact h rfl
  exact (mem_erase_of_ne hne).mpr hmem

def KeepsFires (o o₁ : Owner) : Prop := ∀ cmd, awaited cmd = true → Keeps o o₁ cmd

/-- The awaited commands are kept, but for the one that is received. -/
def KeepsOthers (e : Event) (o o₁ : Owner) : Prop :=
  ∀ cmd, awaited cmd = true → (∀ serial, e ≠ .receive ⟨cmd, serial⟩) → Keeps o o₁ cmd

theorem keepsOthers_receive (o : Owner) (p : Posted) : KeepsOthers (.receive p) o (taken o p) :=
  fun _ _ hne => keeps_receive o fun he => hne p.serial (he ▸ rfl)

/-- A step, as the moves that follow its beginning. -/
inductive Passage (o : Owner) : Event → Owner → Prop
  | calm (e : Event) (o₁ o' : Owner) (hb : Begins o o₁) (hk : KeepsFires o o₁)
      (hs : Calmly o₁ o') (hc : o₁.closing = o.closing := by rfl) : Passage o e o'
  | close (o' : Owner) (hs : Steps Shut { o with closing := true, turn := o.turn+1 } o')
      (ha : ∀ key, Awake o' key) : Passage o .close o'
  | grace (serial : Option ℕ) (o₁ o' : Owner) (hm : ⟨.graceExpiry, serial⟩ ∈ o.posted)
      (hr : Move .regrace { o with
        posted := o.posted.erase ⟨.graceExpiry, serial⟩, turn := o.turn+1 } o₁)
      (hs : (o₁.closing = true ∧ Steps Still o₁ o') ∨
        ∃ E o₂, Calmly o₁ o₂ ∧ Steps Still (o₂.rescheduleGraceWake E) o') :
      Passage o (.receive ⟨.graceExpiry, serial⟩) o'
  | retry (key : String) (serial : Option ℕ) (o₁ o' : Owner)
      (hm : ⟨.backoffFire key, serial⟩ ∈ o.posted)
      (he : Elapses { o with
        posted := o.posted.erase ⟨.backoffFire key, serial⟩, turn := o.turn+1 } key o₁)
      (hs : Calmly o₁ o')
      (ha : o.find key = none ∨ ∃ E, Calmly (o₁.admitAndStart E key) o') :
      Passage o (.receive ⟨.backoffFire key, serial⟩) o'
  | adopt (cfg : Config) (o₁ o₂ : Owner) (E : Env) (o' : Owner)
      (ha : Steps Adopt { o with turn := o.turn+1 } o₁) (hc : Calmly o₁ o₂)
      (hs : Steps Still (o₂.wakeAdmissionCandidates E) o') : Passage o (.apply cfg) o'
  | exit (key : String) (gen : ℕ) (exitErr : ExitErr) (serial : Option ℕ) (st : SpecState)
      (p : Proc) (E₁ : Env) (o₂ : Owner) (E₂ : Env) (o' : Owner)
      (hm : ⟨.childExited key gen exitErr, serial⟩ ∈ o.posted) (hf : o.find key = some st)
      (hp : st.proc = some p) (hg : p.gen = gen)
      (hc : Calmly (Owner.clearProc E₁ { o with
        posted := o.posted.erase ⟨.childExited key gen exitErr, serial⟩, turn := o.turn+1 } key) o₂)
      (hs : Steps Still (o₂.wakeAdmissionCandidates E₂) o')
      (hmanned : (st.intentionalStop = true → st.state = .draining ∨ st.state = .startFailed) →
        strands st = false → Manned o₂ key) :
      Passage o (.receive ⟨.childExited key gen exitErr, serial⟩) o'
  | request (model : String) (reply : ℕ) (serving : Bool) (o₁ o₂ o' : Owner)
      (hfresh : reply ∉ o.accepted)
      (hp : Steps Grow { o with accepted := reply::o.accepted, turn := o.turn+1 } o₁)
      (hr : Requested reply o₁ o₂) (hs : Steps Still o₂ o') :
      Passage o (.ensure model reply serving) o'

variable {id key : String} {gen : ℕ} {o o' o₁ : Owner} {E : Env} {e : Event}

section Begin
variable {o o₁ : Owner}

theorem holds_congr (hs : o₁.specs = o.specs) {s : State} :
    Holds o₁ key gen s ↔ Holds o key gen s := by
  simp only [Holds, find, hs]

theorem sound_of_outside (ho : Sound o) (hs : o₁.specs = o.specs) (ht : o.turn ≤ o₁.turn)
    (hgen : o₁.nextGen = o.nextGen) (ha : o₁.answers = o.answers) (hr : (results o₁).Nodup)
    (hsub : ∀ gen ∈ results o₁, gen ∈ results o)
    (hd : ∀ id gen, DrainDue o₁ id gen → DrainDue o id gen)
    (hi : ∀ p ∈ o₁.posted, internal p.cmd = true) : Sound o₁ where
  states key st h := by
    rw [find, hs] at h
    have hst := ho.states key st h
    exact { hst with decided := hst.decided.trans ht }
  gen_lt key gen s h := by
    rw [hgen]
    exact ho.gen_lt key gen s ((holds_congr hs).mp h)
  gen_key key key' gen s s' h h' :=
    ho.gen_key key key' gen s s' ((holds_congr hs).mp h) ((holds_congr hs).mp h')
  granted_lt r x k gen h := by
    rw [hgen]
    exact ho.granted_lt r x k gen (ha ▸ h)
  granted_key r x k gen key s h hh :=
    ho.granted_key r x k gen key s (ha ▸ h) ((holds_congr hs).mp hh)
  results_nodup := hr
  results_lt gen h := by
    rw [hgen]
    exact ho.results_lt gen (hsub gen h)
  results_state key gen s h hh :=
    ho.results_state key gen s (hsub gen h) ((holds_congr hs).mp hh)
  drain_lt id gen h := by
    rw [hgen]
    exact ho.drain_lt id gen (hd id gen h)
  drain_state id gen s h hh := ho.drain_state id gen s (hd id gen h) ((holds_congr hs).mp hh)
  posted_internal := hi

theorem sound_of_turn (ho : Sound o) (hs : o₁.specs = o.specs) (ht : o₁.turn = o.turn+1)
    (hgen : o₁.nextGen = o.nextGen) (ha : o₁.answers = o.answers) (htimers : o₁.timers = o.timers)
    (hposted : o₁.posted = o.posted) (hpolling : o₁.polling = o.polling) : Sound o₁ := by
  have hr : results o₁ = results o := by simp only [results, hposted, hpolling]
  refine sound_of_outside ho hs (ht ▸ le_succ _) hgen ha (hr ▸ ho.results_nodup)
    (fun gen h => hr ▸ h) (fun id gen h => ?_) (fun p hp => ho.posted_internal p (hposted ▸ hp))
  rwa [DrainDue, htimers, hposted] at h

theorem internal_cmd (purpose : Purpose) : internal purpose.cmd = true := by
  cases purpose <;> rfl

theorem results_post (p : Posted) (hp : startGen p = none) :
    results { o with posted := p::o.posted } = results o := by
  simp only [results, filterMap_cons, hp]

theorem startGen_fire (T : Timer) : startGen ⟨T.purpose.cmd, some T.serial⟩ = none := by
  cases T.purpose <;> rfl

theorem results_receive_sub (p : Posted) :
    (results { o with posted := o.posted.erase p }).Sublist (results o) :=
  List.Sublist.append (List.Sublist.refl _) (List.Sublist.filterMap _ erase_sublist)

theorem results_receive (p : Posted) (gen : ℕ) (hp : p ∈ o.posted) (hg : startGen p = some gen) :
    (results o).Perm (gen::results { o with posted := o.posted.erase p }) := by
  have h := (perm_cons_erase hp).filterMap startGen
  rw [filterMap_cons_some hg] at h
  exact (h.append_left _).trans perm_middle

theorem results_probe (key : String) (gen : ℕ) (ok : Bool) (h : (key, gen) ∈ o.polling) :
    (results { o with polling := o.polling.erase (key, gen)
                      posted := ⟨.startResult key gen ok, none⟩::o.posted }).Perm (results o) := by
  have hp := ((perm_cons_erase h).map Prod.snd).symm
  simp only [results, filterMap_cons, startGen]
  exact perm_middle.trans (hp.append_right _)

theorem drainDue_fire (T : Timer) (hT : T ∈ o.timers)
    (h : DrainDue { o with timers := o.timers.erase T
                           posted := ⟨T.purpose.cmd, some T.serial⟩::o.posted } id gen) :
    DrainDue o id gen := by
  rcases h with ⟨T',hT',hp⟩ | ⟨serial,hm⟩
  · exact .inl ⟨T',mem_of_mem_erase hT',hp⟩
  rcases mem_cons.mp hm with he | hm
  · refine .inl ⟨T,hT,?_⟩
    have hc : Command.drainGraceExpired id gen = T.purpose.cmd := congrArg Posted.cmd he
    cases hp : T.purpose <;> rw [hp] at hc <;> cases hc
    rfl
  · exact .inr ⟨serial,hm⟩

theorem drainDue_post (p : Posted) (hp : ∀ id gen, p.cmd ≠ .drainGraceExpired id gen)
    (h : DrainDue { o with posted := p::o.posted } id gen) : DrainDue o id gen := by
  rcases h with h | ⟨serial,hm⟩
  · exact .inl h
  · rcases mem_cons.mp hm with rfl | hm
    · exact absurd rfl (hp id gen)
    · exact .inr ⟨serial,hm⟩

theorem drainDue_receive (p : Posted) (h : DrainDue { o with posted := o.posted.erase p } id gen) :
    DrainDue o id gen := by
  rcases h with h | ⟨serial,hm⟩
  · exact .inl h
  · exact .inr ⟨serial,mem_of_mem_erase hm⟩

theorem sound_of_release (ho : Sound o) {st : SpecState} (hf : o.find key = some st) (n now : ℤ)
    (hn : st.inFlight = 0 → n = 0) :
    Sound (o.put key { st with inFlight := n, lastUsed := now }) := by
  have hst := ho.states key st hf
  have hholds {k : String} {gen : ℕ} {s : State}
      (h : Holds (o.put key { st with inFlight := n, lastUsed := now }) k gen s) :
      Holds o k gen s := by
    obtain ⟨st',p,h',hp,hg,hs⟩ := h
    rw [find_put] at h'
    split at h'
    · rename_i hk
      cases h'
      exact ⟨st,p,hk ▸ hf,hp,hg,hs⟩
    · exact ⟨st',p,h',hp,hg,hs⟩
  refine ⟨?_,?_,?_,ho.granted_lt,?_,ho.results_nodup,ho.results_lt,?_,ho.drain_lt,?_,
    ho.posted_internal⟩
  · intro k st' h'
    rw [find_put] at h'
    split at h'
    · rename_i hk
      cases h'
      subst hk
      exact { hst with starting := fun hs => hn (hst.starting hs)
                       idle := fun hp => ⟨hn (hst.idle hp).1,(hst.idle hp).2⟩ }
    · exact ho.states k st' h'
  · exact fun k gen s h => ho.gen_lt k gen s (hholds h)
  · exact fun k k' gen s s' h h' => ho.gen_key k k' gen s s' (hholds h) (hholds h')
  · exact fun r x k gen k' s h hh => ho.granted_key r x k gen k' s h (hholds hh)
  · exact fun k gen s h hh => ho.results_state k gen s h (hholds hh)
  · exact fun id gen s h hh => ho.drain_state id gen s h (hholds hh)

theorem sound_of_begins (h : Begins o o₁) (ho : Sound o) : Sound o₁ := by
  have hsame (p : Posted) (hp : p ∈ o.posted) := ho.posted_internal p hp
  have hcons (q : Posted) (hq : internal q.cmd = true) (p : Posted) (hp : p ∈ q::o.posted) :
      internal p.cmd = true := by
    rcases mem_cons.mp hp with rfl | hp
    · exact hq
    · exact hsame p hp
  cases h with
  | turn => exact sound_of_turn ho rfl rfl rfl rfl rfl rfl rfl
  | receive p h =>
    exact sound_of_outside ho rfl (le_succ _) rfl rfl
      (ho.results_nodup.sublist (results_receive_sub p))
      (fun _ h => (results_receive_sub p).subset h) (fun _ _ h => drainDue_receive p h)
      (fun q hq => hsame q (mem_of_mem_erase hq))
  | close => exact sound_of_turn ho rfl rfl rfl rfl rfl rfl rfl
  | stale reply key gen => exact sound_of_turn ho rfl rfl rfl rfl rfl rfl rfl
  | release reply key gen st now _ _ hf _ =>
    have ho' : Sound { o with released := reply::o.released, turn := o.turn+1 } :=
      sound_of_turn ho rfl rfl rfl rfl rfl rfl rfl
    refine sound_of_release ho' hf _ now fun hz => ?_
    rw [hz]
    rfl
  | fire T hT =>
    have hr := results_post (o := { o with timers := o.timers.erase T }) _ (startGen_fire T)
    refine sound_of_outside ho rfl le_rfl rfl rfl ?_ ?_ (fun _ _ h => drainDue_fire T hT h)
      (hcons _ (internal_cmd T.purpose))
    · rw [hr]
      exact ho.results_nodup
    · intro gen hg
      rw [hr] at hg
      exact hg
  | exit key gen exitErr =>
    exact sound_of_outside ho rfl le_rfl rfl rfl ho.results_nodup (fun _ h => h)
      (fun _ _ h => drainDue_post (o := o) _ (by simp) h) (hcons _ rfl)
  | probe key gen ok h =>
    have hr := results_probe key gen ok h
    exact sound_of_outside ho rfl le_rfl rfl rfl (hr.nodup_iff.mpr ho.results_nodup)
      (fun _ hg => hr.mem_iff.mp hg)
      (fun _ _ h => drainDue_post (o := o) ⟨.startResult key gen ok, none⟩ (by simp) h) (hcons _ rfl)
  | measure targets byPID ramByPID =>
    exact sound_of_outside ho rfl le_rfl rfl rfl ho.results_nodup (fun _ h => h)
      (fun _ _ h => drainDue_post (o := o) _ (by simp) h) (hcons _ rfl)

end Begin

theorem maybeFinishClose_still (o : Owner) : Steps Still o o.maybeFinishClose := by
  rw [maybeFinishClose]
  split
  · exact Via.refl _ o
  split
  · exact Via.refl _ o
  · apply global_still
    constructor <;> rfl

theorem handle_still (E : Env) (o : Owner) (cmd : Command) :
    Steps Still (Owner.dispatch E { o with turn := o.turn+1 } cmd) (o.handle E cmd) := by
  rw [handle]
  split
  · exact maybeFinishClose_still _
  · exact Via.refl _ _

theorem calm_passage (e : Event) (E : Env) (o₀ : Owner) (cmd : Command) (hb : Begins o o₁)
    (hk : KeepsFires o o₁) (hs : Calmly o₁ (Owner.dispatch E { o₀ with turn := o₀.turn+1 } cmd))
    (hc : o₁.closing = o.closing := by rfl) : Passage o e (o₀.handle E cmd) :=
  .calm e o₁ _ hb hk (hs.trans (calmly_of_still (handle_still E o₀ cmd))) hc

theorem release_passage (E : Env) (o : Owner) (reply : ℕ) (key : String) (gen : ℕ)
    (h : o.grantOf reply = some (key, gen)) (hr : reply ∉ o.released) : Passage o (.release reply)
      (Owner.handle E { o with released := reply::o.released } (.release key gen)) := by
  cases hf : o.find key with
  | none =>
    refine calm_passage _ E _ _ (.stale reply key gen h hr ?_) (fun _ _ _ h => h) ?_
    · intro st hst
      rw [hf] at hst
      cases hst
    · have hf' : find { o with released := reply::o.released, turn := o.turn+1 } key = none := hf
      rw [dispatch, handleRelease, hf']
      exact Calmly.refl _
  | some st =>
    have hf' : find { o with released := reply::o.released, turn := o.turn+1 } key = some st := hf
    cases hg : st.runs gen with
    | false =>
      refine calm_passage _ E _ _ (.stale reply key gen h hr ?_) (fun _ _ _ h => h) ?_
      · intro st' hst
        rw [hf] at hst
        cases hst
        exact hg
      · rw [dispatch, handleRelease, hf']
        simp only [hg]
        exact Calmly.refl _
    | true =>
      refine calm_passage _ E _ _ (.release reply key gen st E.here.now h hr hf hg)
        (fun _ _ _ h => h) ?_
      rw [dispatch, handleRelease, hf']
      simp only [hg, Bool.not_true, Bool.false_eq_true, if_false]
      refine Calmly.trans ?_ (wakeAdmission_calmly _ _ _)
      generalize (if st.inFlight > 0 then st.inFlight-1 else st.inFlight) = inFlight
      split
      · rename_i hd
        simp only [Bool.and_eq_true, decide_eq_true_eq] at hd
        obtain ⟨p,hp,-⟩ := runs_proc hg
        exact calmly_of_plain (move_plain (.signal _ key
          { st with inFlight := inFlight, lastUsed := E.here.now } p .lastRelease
          (find_put_self _ key _) hp (.inl hd.1) (.inl hd.2)))
      · exact Calmly.refl _

theorem receive_passage (E : Env) (o : Owner) (p : Posted) (hp : p ∈ o.posted) (ho : Sound o) :
    Passage o (.receive p) (Owner.handle E { o with posted := o.posted.erase p } p.cmd) := by
  have hb := Begins.receive (o := o) p hp
  have ho₁ := sound_of_begins hb ho
  have hint := ho.posted_internal p hp
  have hk : awaited p.cmd = false → KeepsFires o (taken o p) := by
    intro hn cmd hcmd
    refine keeps_receive o ?_
    rintro rfl
    rw [hn] at hcmd
    cases hcmd
  obtain ⟨cmd,serial⟩ := p
  cases cmd with
  | waiterTimeout specID reply =>
    exact calm_passage _ E _ _ hb (hk rfl)
      (calmly_of_plain (handleWaiterTimeout_plain _ specID reply))
  | childExited key gen exitErr =>
    rcases handleChildExited_path E (taken o ⟨.childExited key gen exitErr, serial⟩) key gen exitErr
      ho₁ with he | ⟨st,q,E₁,o₂,E₂,hf,hq,hg,hc,he,hm⟩
    · refine calm_passage _ E _ _ hb (hk rfl) ?_
      rw [dispatch, he]
      exact Calmly.refl _
    have hs := handle_still E { o with
      posted := o.posted.erase ⟨.childExited key gen exitErr, serial⟩ } (.childExited key gen exitErr)
    rw [dispatch, he] at hs
    exact .exit key gen exitErr serial st q E₁ o₂ E₂ _ hp hf hq hg hc hs hm
  | startResult key gen ok =>
    have hr := results_receive ⟨.startResult key gen ok, serial⟩ gen hp rfl
    have hnodup := hr.nodup_iff.mp ho.results_nodup
    refine calm_passage _ E _ _ hb (hk rfl) (handleStartResult_calmly E _ key gen ok ho₁
      (nodup_cons.mp hnodup).1 fun s hs => ?_)
    exact ho.results_state key gen s (hr.mem_iff.mpr mem_cons_self) hs
  | backoffFire key =>
    obtain ⟨o₁,he,hpath⟩ := handleBackoffFire_path E (taken o ⟨.backoffFire key, serial⟩) key ho₁
    have hs := calmly_of_still (handle_still E { o with
      posted := o.posted.erase ⟨.backoffFire key, serial⟩ } (.backoffFire key))
    rw [dispatch] at hs
    rcases hpath with ⟨hn,hr⟩ | ⟨E',hr⟩
    · rw [hr] at hs
      exact .retry key serial o₁ _ hp he hs (.inl hn)
    · rw [hr] at hs
      exact .retry key serial o₁ _ hp he ((Calmly.ask E' o₁ key).trans hs) (.inr ⟨E',hs⟩)
  | graceExpiry =>
    obtain ⟨o₁,hr,hpath⟩ := handleGraceExpiry_path E (taken o ⟨.graceExpiry, serial⟩)
    have hs := handle_still E { o with posted := o.posted.erase ⟨.graceExpiry, serial⟩ } .graceExpiry
    rw [dispatch] at hs
    refine .grace serial o₁ _ hp hr ?_
    rcases hpath with ⟨hc,he⟩ | ⟨E₂,o₂,hcalm,he⟩
    · rw [he] at hs
      exact .inl ⟨hc,hs⟩
    · rw [he] at hs
      exact .inr ⟨E₂,o₂,hcalm,hs⟩
  | stableRun specID gen =>
    exact calm_passage _ E _ _ hb (hk rfl)
      (calmly_of_plain (handleStableRun_plain _ specID gen))
  | drainGraceExpired key gen =>
    refine calm_passage _ E _ _ hb (hk rfl)
      (calmly_of_plain (handleDrainGraceExpired_plain _ key gen fun s hs => ?_))
    exact ho.drain_state key gen s (.inr ⟨serial,hp⟩) hs
  | killGraceExpired specID gen =>
    exact calm_passage _ E _ _ hb (hk rfl)
      (calmly_of_plain (handleKillGraceExpired_plain _ specID gen))
  | measured targets byPID ramByPID =>
    exact calm_passage _ E _ _ hb (hk rfl) (applyMeasurement_calmly E _ targets byPID ramByPID)
  | _ => cases hint

/-- Every step is its beginning and the moves that follow. -/
theorem passage_of_step (ho : Sound o) (hset : o.closing = false → ∀ key, SettledAt o key)
    (h : o.step E e = some o') : Passage o e o' := by
  have ht : Begins o { o with turn := o.turn+1 } := .turn
  cases e <;> simp only [step, Option.ite_none_left_eq_some, Option.ite_none_right_eq_some,
    Option.some.injEq, Option.map_eq_some_iff, Bool.or_eq_true, decide_eq_true_eq, not_or,
    not_not] at h
  case apply cfg =>
    obtain ⟨-,rfl⟩ := h
    rcases applyConfig_path E { o with turn := o.turn+1 } cfg (sound_of_begins ht ho) with
      he | ⟨o₁,o₂,E₂,ha,hc,he⟩
    · refine calm_passage _ E _ _ ht (fun _ _ _ h => h) ?_
      rw [dispatch, he]
      exact Calmly.refl _
    · have hs := handle_still E o (.apply cfg)
      rw [dispatch, he] at hs
      exact .adopt cfg o₁ o₂ E₂ _ ha hc hs
  case ensure model reply serving =>
    obtain ⟨⟨-,hn⟩,rfl⟩ := h
    obtain ⟨o₁,hp,hr⟩ := handleEnsure_path E
      { o with accepted := reply::o.accepted, turn := o.turn+1 } model reply serving hset
    exact .request model reply serving o₁ _ _ hn hp hr
      (handle_still E { o with accepted := reply::o.accepted } (.ensure model reply serving))
  case cancel reply err =>
    obtain ⟨-,rfl⟩ := h
    exact calm_passage _ E _ _ ht (fun _ _ _ h => h)
      (calmly_of_plain (handleCancelEnsure_plain E _ reply err))
  case release reply =>
    obtain ⟨⟨-,hn⟩,⟨key,gen⟩,hg,rfl⟩ := h
    exact release_passage E o reply key gen hg hn
  case stop model =>
    obtain ⟨-,rfl⟩ := h
    exact calm_passage _ E _ _ ht (fun _ _ _ h => h) (calmly_of_plain (stopInstance_plain E _ model))
  case query =>
    obtain ⟨-,rfl⟩ := h
    exact calm_passage _ E _ _ ht (fun _ _ _ h => h) (Calmly.refl _)
  case close =>
    obtain ⟨-,rfl⟩ := h
    have hs := handle_still E o .close
    have hso := sound_of_begins Begins.close ho
    have hshut := closeAll_shut E _ hso
    exact .close _ (hshut.trans (hs.mono (by simp [Still, Shut]))) fun key =>
      awake_of_steps hs (closing_of_steps hshut) (closeAll_awake E _ hso rfl key)
  case fire T =>
    obtain ⟨hT,rfl⟩ := h
    exact .calm _ _ _ (.fire T hT) (fun _ _ _ h => mem_cons_of_mem _ h) (Calmly.refl _)
  case exit specID gen exitErr =>
    obtain ⟨-,rfl⟩ := h
    exact .calm _ _ _ (.exit specID gen exitErr) (fun _ _ _ h => mem_cons_of_mem _ h)
      (Calmly.refl _)
  case probe specID gen ok =>
    obtain ⟨hp,rfl⟩ := h
    exact .calm _ _ _ (.probe specID gen ok hp) (fun _ _ _ h => mem_cons_of_mem _ h)
      (Calmly.refl _)
  case measure byPID ramByPID =>
    obtain ⟨targets,-,rfl⟩ := h
    exact .calm _ _ _ (.measure targets byPID ramByPID) (fun _ _ _ h => mem_cons_of_mem _ h)
      (Calmly.refl _)
  case receive p =>
    obtain ⟨⟨-,hp⟩,rfl⟩ := h
    exact receive_passage E o p hp ho
  case idleTick =>
    obtain ⟨-,rfl⟩ := h
    refine .calm _ _ _ ht (fun _ _ _ h => h) ?_
    rw [idleTick]
    split
    · exact Calmly.refl _
    · exact (calmly_of_plain (scanIdle_plain _ _)).trans
        (calmly_of_still (dispatchMeasurement_still _ _))
  case hostWake =>
    obtain ⟨-,rfl⟩ := h
    refine .calm _ _ _ ht (fun _ _ _ h => h) ?_
    rw [hostWake]
    split
    · exact Calmly.refl _
    · exact wakeAdmission_calmly _ _ _

/-- The moves of a step. Only a config changes specs, only a config or a close
calls waits off, only a retry ends a wait and only an exit clears a process. -/
def Own : Event → Set Label
  | .apply _ => Loose ∪ Adopt
  | .close => Loose ∪ Shut
  | .receive ⟨.backoffFire _, _⟩ => Loose ∪ {.elapse}
  | .receive ⟨.childExited _ _ _, _⟩ => Loose ∪ {.clear}
  | _ => Loose

theorem loose_own (e : Event) : Loose ⊆ Own e := by
  unfold Own
  split <;> simp

theorem calm_own (e : Event) : Calm ⊆ Own e := calm_loose.trans (loose_own e)

theorem graced_steps (hs : (o₁.closing = true ∧ Steps Still o₁ o') ∨
    ∃ E o₂, Calmly o₁ o₂ ∧ Steps Still (o₂.rescheduleGraceWake E) o') : Steps Loose o₁ o' := by
  rcases hs with ⟨-,hs⟩ | ⟨E,o₂,hc,hs⟩
  · exact hs.mono still_loose
  · exact (hc.steps.trans ((rescheduleGraceWake_regrace E o₂).mono
      (regrace_calm.trans calm_loose))).trans (hs.mono still_loose)

theorem woken_steps {o₂ : Owner} (hc : Calmly o₁ o₂)
    (hs : Steps Still (o₂.wakeAdmissionCandidates E) o') : Steps Loose o₁ o' :=
  (hc.trans (wakeAdmission_calmly E o₂ _)).steps.trans (hs.mono still_loose)

def Takes (reply : ℕ) (l : Label) : Prop := l = .accept reply ∨ l = .resolve reply

/-- A step begins and moves follow, or it takes in one request among calm
moves. -/
theorem moves_of_passage (h : Passage o e o') :
    (∃ o₁, Begins o o₁ ∧ KeepsOthers e o o₁ ∧ Steps (Own e) o₁ o') ∨
    ∃ reply l o₁ o₂, reply ∉ o.accepted ∧
      Steps Grow { o with accepted := reply::o.accepted, turn := o.turn+1 } o₁ ∧
      Takes reply l ∧ Move l o₁ o₂ ∧ Steps Calm o₂ o' := by
  cases h with
  | calm _ o₁ _ hb hk hs hc =>
    exact .inl ⟨o₁,hb,fun cmd hcmd _ => hk cmd hcmd,hs.steps.mono (loose_own e)⟩
  | close _ hs ha =>
    exact .inl ⟨_,.close,fun _ _ _ _ hmem => hmem,hs.mono Set.subset_union_right⟩
  | grace serial o₁ _ hm hr hs =>
    exact .inl ⟨_,.receive _ hm,keepsOthers_receive o _,
      (Via.single (by simp [Own, Loose]) hr).trans (graced_steps hs)⟩
  | retry key serial o₁ _ hm he hs _ =>
    exact .inl ⟨_,.receive _ hm,keepsOthers_receive o _,
      (he.steps.mono Set.subset_union_right).trans (hs.steps.mono Set.subset_union_left)⟩
  | adopt cfg o₁ o₂ E _ ha hc hs =>
    exact .inl ⟨_,.turn,fun _ _ _ _ hmem => hmem,(ha.mono Set.subset_union_right).trans
      ((woken_steps hc hs).mono Set.subset_union_left)⟩
  | exit key gen exitErr serial st p E₁ o₂ E₂ _ hm hf hp hg hc hs hmanned =>
    exact .inl ⟨_,.receive _ hm,keepsOthers_receive o _,
      (Via.single (by simp [Own]) (.clear E₁ _ key st p hf hp)).trans
        ((woken_steps hc hs).mono Set.subset_union_left)⟩
  | request model reply serving o₁ o₂ _ hfresh hp hr hs =>
    right
    rcases hr with hm | ⟨key,st,E₁,E₂,hf,rfl⟩
    · exact ⟨reply,_,o₁,o₂,hfresh,hp,.inr rfl,hm,hs.mono still_calm⟩
    · exact ⟨reply,_,o₁,_,hfresh,hp,.inl rfl,.enqueue E₁ o₁ key st reply hf,
        (admitAndStart_calm E₂ _ key).trans (hs.mono still_calm)⟩

/-- Only a close closes the owner. -/
theorem shut_of_passage (h : Passage o e o') (hc : o.closing = false) (hc' : o'.closing = true) :
    Steps Shut { o with closing := true, turn := o.turn+1 } o' ∧ ∀ key, Awake o' key := by
  -- no other move does
  have keeps {L : Set Label} {x : Owner} (hx : x.closing = false) (hs : Steps L x o') : False := by
    rw [closing_of_steps hs, hx] at hc'
    cases hc'
  have keeps_move {l : Label} {x y : Owner} (hm : Move l x y) : y.closing = x.closing := by
    obtain ⟨e,f,-⟩ := touch_of_move hm
    exact f.closing
  cases h with
  | calm _ o₁ _ hb hk hs hsame => exact (keeps (hsame.trans hc) hs.steps).elim
  | close _ hs ha => exact ⟨hs,ha⟩
  | grace serial o₁ _ hm hr hs => exact (keeps ((keeps_move hr).trans hc) (graced_steps hs)).elim
  | retry key serial o₁ _ hm he hs _ =>
    exact (keeps ((closing_of_steps he.steps).trans hc) hs.steps).elim
  | adopt cfg o₁ o₂ E _ ha hcalm hs =>
    exact (keeps ((closing_of_steps ha).trans hc) (woken_steps hcalm hs)).elim
  | exit key gen exitErr serial st p E₁ o₂ E₂ _ hm hf hp hg hcalm hs hmanned =>
    have hclear := Move.clear E₁ (taken o ⟨.childExited key gen exitErr, serial⟩) key st p hf hp
    exact (keeps ((keeps_move hclear).trans hc) (woken_steps hcalm hs)).elim
  | request model reply serving o₁ o₂ _ hfresh hp hr hs =>
    have h₁ : o₁.closing = false := (closing_of_steps hp).trans hc
    rcases hr with hm | ⟨key,st,E₁,E₂,hf,rfl⟩
    · exact (keeps ((keeps_move hm).trans h₁) hs).elim
    · exact (keeps ((keeps_move (.enqueue E₁ o₁ key st reply hf)).trans h₁)
        ((admitAndStart_calm E₂ _ key).trans (hs.mono still_calm))).elim

theorem sound_of_accept (ho : Sound o) (reply : ℕ) :
    Sound { o with accepted := reply::o.accepted, turn := o.turn+1 } :=
  sound_of_turn ho rfl rfl rfl rfl rfl rfl rfl

/-- What the beginning of a step and every move keep survives the step. -/
theorem keeps_of_passage (P : Owner → Prop)
    (hb : ∀ o₁, Begins o o₁ → KeepsOthers e o o₁ → P o → P o₁)
    (ha : ∀ reply, P o → P { o with accepted := reply::o.accepted, turn := o.turn+1 })
    (hm : ∀ l, (l ∈ Own e ∨ ∃ reply, Takes reply l) → ∀ x y, Move l x y → P x → P y)
    (h : Passage o e o') (ho : P o) : P o' := by
  rcases moves_of_passage h with ⟨o₁,hbegin,hk,hs⟩ | ⟨reply,l,o₁,o₂,-,hp,ht,hmove,hs⟩
  · exact hs.keeps P (fun l hl => hm l (.inl hl)) (hb o₁ hbegin hk ho)
  · have hp := (hp.mono (grow_loose.trans (loose_own e))).keeps P fun l hl => hm l (.inl hl)
    exact (hs.mono (calm_own e)).keeps P (fun l hl => hm l (.inl hl))
      (hm l (.inr ⟨reply,ht⟩) o₁ o₂ hmove (hp (ha reply ho)))

section Settled

def Unasked (o : Owner) : Prop := ∀ key st, o.find key = some st → st.decidedTurn < o.turn

theorem fair_of_unasked (h : Unasked o) : Fair o := by
  intro key _ st hf hd
  simp only [decidedThisTurn, Bool.and_eq_true, decide_eq_true_eq] at hd
  exact absurd hd.2 (h key st hf).ne

theorem undecided_of_change {st st' : SpecState} {l : Label} {e : Effect}
    (hc : Change o key st l e st') (hl : l ≠ .decide) : st'.decidedTurn = st.decidedTurn := by
  cases hc with
  | quiet _ hq => exact hq.decidedTurn
  | decide => exact absurd rfl hl
  | _ => rfl

theorem unasked_of_move {l : Label} (hm : Move l o o') (hl : l ≠ .decide) (hpos : 0 < o.turn)
    (h : Unasked o) : Unasked o' := by
  obtain ⟨e,f,t⟩ := touch_of_move hm
  intro key st' h'
  rw [f.turn]
  rcases origin_of_touch t h' with h0 | ⟨st,h0,hc⟩ | ⟨-,hf⟩
  · exact h key st' h0
  · rw [undecided_of_change hc hl]
    exact h key st h0
  · rw [hf.decidedTurn]
    exact hpos

theorem unasked_of_steps {L : Set Label} (hs : Steps L o o') (hL : Label.decide ∉ L)
    (hpos : 0 < o.turn) (h : Unasked o) : Unasked o' := by
  refine (hs.keeps (fun x => 0 < x.turn ∧ Unasked x) (fun l hl x y hm hx => ?_) ⟨hpos,h⟩).2
  obtain ⟨e,f,-⟩ := touch_of_move hm
  refine ⟨f.turn ▸ hx.1,unasked_of_move hm ?_ hx.1 hx.2⟩
  intro he
  rw [he] at hl
  exact hL hl

theorem unasked_of_turn (ho : Sound o) (hs : o₁.specs = o.specs) (ht : o₁.turn = o.turn+1) :
    Unasked o₁ := by
  intro key st h
  rw [find, hs] at h
  rw [ht]
  exact lt_succ_of_le (ho.states key st h).decided

/-- The beginning of a step takes no process and queues nothing. -/
theorem settled_of_begins (h : Begins o o₁) (key : String) (hset : SettledAt o key) :
    SettledAt o₁ key := by
  cases h with
  | release reply k gen st now _ _ hf hg =>
    intro st' h' hb hp
    rw [find_put] at h'
    split at h'
    · rename_i hk
      cases h'
      subst hk
      exact hset st hf hb hp
    · exact hset st' h' hb hp
  | _ => exact hset

theorem closing_of_begins (h : Begins o o₁) (hc : o₁.closing = false) : o.closing = false := by
  cases h with
  | close => cases hc
  | _ => exact hc

theorem open_of_steps {L : Set Label} (hs : Steps L o o') (hc : o'.closing = false) :
    o.closing = false :=
  (closing_of_steps hs).symm.trans hc

theorem still_settled (h : Steps Still o o') (key : String) (hset : SettledAt o key) :
    SettledAt o' key :=
  settled_of_calm (h.mono still_calm) key hset

/-- A wake after a stretch that began with nothing decided settles every burst
instance. -/
theorem settled_of_woken {o₂ : Owner} (hun : Unasked o₁) (ho : Sound o₁) (hcalm : Calmly o₁ o₂)
    (hs : Steps Still (o₂.wakeAdmissionCandidates E) o') (hc : o'.closing = false) (key : String) :
    SettledAt o' key :=
  have hc₂ := open_of_steps (wakeAdmission_calm E o₂ _) (open_of_steps hs hc)
  still_settled hs key (settled_wakeAdmissionCandidates E o₂ (hcalm.fair (fair_of_unasked hun))
    (sound_of_steps hcalm.steps ho) hc₂ key)

/-- Between two steps every burst instance is settled, unless the owner
closes. -/
theorem settled_of_passage (ho : Sound o) (hset : o.closing = false → ∀ key, SettledAt o key)
    (h : Passage o e o') (hc : o'.closing = false) (key : String) : SettledAt o' key := by
  cases h with
  | close _ hs ha =>
    rw [closing_of_steps hs] at hc
    cases hc
  | grace serial o₁ _ hm hr hs =>
    have hw := graced_steps hs
    have hr' : Steps {.regrace} _ o₁ := Via.single rfl hr
    have hco := open_of_steps hr' (open_of_steps hw hc)
    exact settled_of_loose hw key (settled_of_move hr rfl key
      (settled_of_begins (.receive _ hm) key (hset hco key)))
  | retry k serial o₁ _ hm he hs _ =>
    have hco := open_of_steps he.steps (open_of_steps hs.steps hc)
    refine settled_of_loose hs.steps key (he.steps.keeps (fun x => SettledAt x key) ?_
      (settled_of_begins (.receive _ hm) key (hset hco key)))
    rintro l rfl x y hmove hx
    exact settled_of_move hmove rfl key hx
  | calm _ o₁ _ hb hk hs _ =>
    have hco := closing_of_begins hb (open_of_steps hs.steps hc)
    exact settled_of_loose hs.steps key (settled_of_begins hb key (hset hco key))
  | adopt cfg o₁ o₂ E _ ha hcalm hs =>
    have ht : Begins o { o with turn := o.turn+1 } := .turn
    have hun := unasked_of_steps ha (by simp [Adopt]) (succ_pos _)
      (unasked_of_turn ho rfl rfl)
    exact settled_of_woken hun (sound_of_steps ha (sound_of_begins ht ho)) hcalm hs hc key
  | exit k gen exitErr serial st p E₁ o₂ E₂ _ hm hf hp hg hcalm hs hmanned =>
    have hb := Begins.receive (o := o) _ hm
    have hclear := Move.clear E₁ (taken o ⟨.childExited k gen exitErr, serial⟩) k st p hf hp
    have hun := unasked_of_move hclear (by simp) (succ_pos _) (unasked_of_turn ho rfl rfl)
    exact settled_of_woken hun (sound_of_move hclear (sound_of_begins hb ho)) hcalm hs hc key
  | request model reply serving o₁ o₂ _ hfresh hp hr hs =>
    have hso₁ := sound_of_steps hp (sound_of_accept ho reply)
    have hc₂ : o₂.closing = false := open_of_steps hs hc
    apply still_settled hs key
    rcases hr with hm | ⟨k,st,E₁,E₂,hf,rfl⟩
    · have hc₁ := open_of_steps hp
        (open_of_steps (Via.single (L := {.resolve reply}) rfl hm) hc₂)
      exact settled_of_move hm rfl key (settled_of_loose (hp.mono grow_loose) key (hset hc₁ key))
    have henq := Move.enqueue E₁ o₁ k st reply hf
    have hcalm := admitAndStart_calm E₂ (o₁.enqueue E₁ k reply) k
    have hc₁ : (o₁.enqueue E₁ k reply).closing = false := open_of_steps hcalm hc₂
    have hun := unasked_of_move henq (by simp)
      (by rw [turn_of_steps hp]; exact succ_pos _)
      (unasked_of_steps hp (by simp [Grow]) (succ_pos _) (unasked_of_turn ho rfl rfl))
    by_cases hk : key = k
    · rw [hk]
      exact settled_admitAndStart E₂ _ k (fair_of_unasked hun) (sound_of_move henq hso₁) hc₁
    -- the queue of another instance is as it was
    apply settled_of_calm hcalm key
    obtain ⟨w,ts,n,-,-,-,he⟩ := enqueue_some E₁ o₁ k st reply hf
    have hco : o.closing = false := by
      rw [he] at hc₁
      have hc' : o₁.closing = false := hc₁
      exact (closing_of_steps hp).symm.trans hc'
    intro st' h' hb hn
    rw [he] at h'
    have h0 : o₁.find key = some st' := (find_put_ne o₁ k key _ hk).symm.trans h'
    exact settled_of_loose (hp.mono grow_loose) key (hset hco key) st' h0 hb hn

end Settled

structure Steady (o : Owner) : Prop where
  sound : Sound o
  settled : o.closing = false → ∀ key, SettledAt o key

theorem sound_of_passage (ho : Sound o) (h : Passage o e o') : Sound o' :=
  keeps_of_passage Sound (fun _ hb _ ho => sound_of_begins hb ho)
    (fun reply ho => sound_of_accept ho reply) (fun _ _ _ _ hm ho => sound_of_move hm ho) h ho

theorem steady_of_step (ho : Steady o) (h : o.step E e = some o') : Steady o' :=
  have hp := passage_of_step ho.sound ho.settled h
  ⟨sound_of_passage ho.sound hp,settled_of_passage ho.sound ho.settled hp⟩

theorem find_newOwner (h : o.Initial) (key : String) : o.find key = none := by
  obtain ⟨apple,headroom,reserve,guess,grace,rfl⟩ := h
  rfl

theorem steady_of_initial (h : o.Initial) : Steady o := by
  have hnone := find_newOwner h
  have hholds {key : String} {gen : ℕ} {s : State} : ¬Holds o key gen s := by
    rintro ⟨st,p,hf,-⟩
    rw [hnone] at hf
    cases hf
  obtain ⟨apple,headroom,reserve,guess,grace,rfl⟩ := h
  constructor
  · constructor
    · intro key st hf
      rw [hnone] at hf
      cases hf
    · exact fun _ _ _ hh => absurd hh hholds
    · exact fun _ _ _ _ _ hh => absurd hh hholds
    · intro r x k gen ha
      cases ha
    · exact fun _ _ _ _ _ _ _ hh => absurd hh hholds
    · exact nodup_nil
    · intro gen hg
      cases hg
    · exact fun _ _ _ _ hh => absurd hh hholds
    · rintro id gen (⟨T,hT,-⟩ | ⟨serial,hm⟩)
      · cases hT
      · cases hm
    · exact fun _ _ _ _ hh => absurd hh hholds
    · intro p hp
      cases hp
  · intro _ key st hf
    rw [hnone] at hf
    cases hf

theorem reachable_newOwner (apple : Bool) (headroom reserve guess grace : ℤ) :
    (newOwner apple headroom reserve guess grace).Reachable :=
  ⟨_,⟨apple,headroom,reserve,guess,grace,rfl⟩,.refl⟩

def play (E : Env) : Owner → List Event → Owner := LabelledRuns.play (Owner.step E)

theorem reachable_play (E : Env) (o : Owner) (es : List Event) (h : o.Reachable) :
    (play E o es).Reachable := by
  obtain ⟨o₀,hi,hrun⟩ := h
  exact ⟨o₀,hi,hrun.trans ((reaches_play _ o es).lift id fun _ _ ⟨e,hs⟩ => ⟨E,e,hs⟩)⟩

def AvoidingStep (bad : Env → Owner → Event → Bool) (o o' : Owner) : Prop :=
  ∃ (E : Env) (e : Event), bad E o e = false ∧ o.step E e = some o'

/-- The states of the runs without bad events. -/
def ReachableAvoiding (bad : Env → Owner → Event → Bool) (o : Owner) : Prop :=
  ∃ o₀ : Owner, o₀.Initial ∧ Relation.ReflTransGen (AvoidingStep bad) o₀ o

/-- What holds at the start and survives every step without a bad event holds
in every state of a run without them. -/
theorem holds_of_avoiding {bad : Env → Owner → Event → Bool} (P : Owner → Prop)
    (h0 : ∀ o, o.Initial → P o)
    (hs : ∀ o o' E e, Steady o → bad E o e = false → o.step E e = some o' → P o → P o') (o : Owner)
    (h : ReachableAvoiding bad o) : P o := by
  obtain ⟨o₀,hi,hrun⟩ := h
  refine (invariant_of_step (fun o => Steady o ∧ P o)
    (fun o ho => ⟨steady_of_initial ho,h0 o ho⟩) ?_ o₀ o hi hrun).2
  rintro x y ⟨E,e,hbad,hst⟩ ⟨hx,hP⟩
  exact ⟨steady_of_step hx hst,hs x y E e hx hbad hst hP⟩

theorem avoids_nothing (h : o.Reachable) : ReachableAvoiding (fun _ _ _ => false) o := by
  obtain ⟨o₀,hi,hrun⟩ := h
  exact ⟨o₀,hi,hrun.lift id fun _ _ ⟨E,e,hs⟩ => ⟨E,e,rfl,hs⟩⟩

theorem steady_of_reachable (o : Owner) (h : o.Reachable) : Steady o :=
  holds_of_avoiding Steady (fun _ => steady_of_initial)
    (fun _ _ _ _ ho _ hs _ => steady_of_step ho hs) o (avoids_nothing h)

/-- What holds at the start and along every passage holds in every state of a
run. -/
theorem holds_of_reachable (P : Owner → Prop) (h0 : ∀ o, o.Initial → P o)
    (hs : ∀ o o' e, Steady o → Passage o e o' → P o → P o') (o : Owner) (h : o.Reachable) : P o :=
  holds_of_avoiding P h0 (fun o o' _ e ho _ hst =>
    hs o o' e ho (passage_of_step ho.sound ho.settled hst)) o (avoids_nothing h)

theorem reachable_of_avoiding {bad : Env → Owner → Event → Bool} (h : ReachableAvoiding bad o) :
    o.Reachable := by
  obtain ⟨o₀,hi,hrun⟩ := h
  exact ⟨o₀,hi,hrun.lift id fun _ _ ⟨E,e,_,hs⟩ => ⟨E,e,hs⟩⟩

def playAvoiding (bad : Env → Owner → Event → Bool) (E : Env) : Owner → List Event → Owner :=
  playFine (Owner.step E) fun o e => !bad E o e

theorem reachable_playAvoiding (bad : Env → Owner → Event → Bool) (E : Env) (o : Owner)
    (es : List Event) (h : ReachableAvoiding bad o) :
    ReachableAvoiding bad (playAvoiding bad E o es) := by
  obtain ⟨o₀,hi,hrun⟩ := h
  refine ⟨o₀,hi,hrun.trans ((fine_playFine _ _ o es).lift id ?_)⟩
  rintro x y ⟨e,hfine,hs⟩
  exact ⟨E,e,(Bool.not_eq_true' _).mp hfine,hs⟩

end OnPremGateway.OwnerRuns
