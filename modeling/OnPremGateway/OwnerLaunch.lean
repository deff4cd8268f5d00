import OnPremGateway.OwnerAnswers
import OnPremGateway.LaunchExpansion

/-!
# The launch shape of a running child

A child is launched with the spec its state holds then. The spec is replaced
only by a pushed config, which drains the child on the spot where the launch
shape changes, or leaves that to the drain of everything that is forced to
stop. So a child that starts or runs always has the shape of its state's spec,
as long as no config names a spec twice.
-/

set_option autoImplicit false

namespace OnPremGateway.OwnerLaunch
open RuntimeTypes InstanceModel OwnerModel List Owner
open LabelledRuns OwnerMoves OwnerPaths
open OwnerEffects OwnerSound OwnerSettled
open OwnerTurns OwnerInstances OwnerRuns
open OwnerAnswers LaunchExpansion

variable {st : SpecState} {o o' : Owner} {key : String}

section Shapes

theorem deepEqual_iff (a b : Spec) : deepEqual a b = true ↔
    { a with env := ∅ } = { b with env := ∅ } ∧ a.env.entries.Perm b.env.entries := by
  rw [deepEqual, Bool.and_eq_true, decide_eq_true_eq, isPerm_iff]

theorem sameLaunchShape_refl (a : Spec) : sameLaunchShape a a = true :=
  (deepEqual_iff _ _).mpr ⟨rfl,List.Perm.refl _⟩

theorem sameLaunchShape_trans {a b c : Spec} (hab : sameLaunchShape a b = true)
    (hbc : sameLaunchShape b c = true) : sameLaunchShape a c = true := by
  rw [sameLaunchShape, deepEqual_iff] at *
  exact ⟨hab.1.trans hbc.1,hab.2.trans hbc.2⟩

theorem sameLaunchShape_of_deepEqual {a b : Spec} (h : deepEqual a b = true) :
    sameLaunchShape a b = true := by
  rw [deepEqual_iff] at h
  exact (deepEqual_iff _ _).mpr ⟨congrArg launchShape h.1,h.2⟩

/-- The child is up and not on its way out. -/
def Live (st : SpecState) : Prop :=
  st.proc.isSome = true ∧ (st.state = .starting ∨ st.state = .running)

def ShapedState (st : SpecState) : Prop :=
  ∀ p, st.proc = some p → st.state = .starting ∨ st.state = .running →
    sameLaunchShape p.launch st.spec = true

theorem shaped_of_not_live (h : ¬Live st) : ShapedState st := by
  intro p hp hs
  exact absurd ⟨by rw [hp]; rfl,hs⟩ h

theorem shaped_of_no_proc (h : st.proc = none) : ShapedState st := by
  intro p hp
  rw [h] at hp
  cases hp

theorem shaped_respec {spec : Spec} (h : ShapedState st) (hs : sameLaunchShape st.spec spec = true) :
    ShapedState { st with spec := spec } :=
  fun p hp hstate => sameLaunchShape_trans (h p hp hstate) hs

end Shapes

section Moves

def Shaped (o : Owner) : Prop := ∀ key st, o.find key = some st → ShapedState st

theorem shaped_of_shifts {s : State} (h : Shifts o st s) (since : ℤ) (hst : ShapedState st) :
    ShapedState { st with state := s, since := since } := by
  intro p hp hs
  cases h with
  | rest s hn _ _ =>
    rw [hn] at hp
    cases hp
  | run q _ hstart _ => exact hst p hp (.inl hstart)
  | drain | overdue | closing =>
    rcases hs with hs | hs
    · cases hs
    · cases hs

/-- Only a new spec can part a child from its state. -/
theorem shaped_of_change {st' : SpecState} {l : Label} {e : Effect} (hc : Change o key st l e st')
    (hl : l ≠ .respec) (h : ShapedState st) : ShapedState st' := by
  cases hc with
  | quiet _ hq =>
    intro p hp hs
    rw [hq.proc] at hp
    rw [hq.state] at hs
    rw [hq.spec]
    exact h p hp hs
  | shift s since hs => exact shaped_of_shifts hs since h
  | retime p p' hp hsame =>
    intro q hq hs
    cases hq
    rw [hsame.launch]
    exact h p hp hs
  | park since delay hp hb hn hc => exact shaped_of_no_proc hp
  | unpark _ since _ hp =>
    intro p hproc hs
    by_cases hb : st.state = .backoff
    · rw [hp hb] at hproc
      cases hproc
    · rw [if_neg hb] at hs
      exact h p hproc hs
  | signal p serial cause hp hs hc =>
    intro q hq hstate
    cases hq
    exact h p hp hstate
  | spawn p since hp hn hg hi hlaunch =>
    intro q hq _
    cases hq
    rw [hlaunch]
    exact sameLaunchShape_refl st.spec
  | respec => exact absurd rfl hl
  | clear p hp => exact shaped_of_no_proc rfl
  | _ => exact h

theorem shaped_of_move {l : Label} (hm : Move l o o') (hl : l ≠ .respec) (h : Shaped o) :
    Shaped o' := by
  obtain ⟨e,-,t⟩ := touch_of_move hm
  intro key st' h'
  rcases origin_of_touch t h' with h0 | ⟨st,h0,hc⟩ | ⟨-,hf⟩
  · exact h key st' h0
  · exact shaped_of_change hc hl (h key st h0)
  · exact shaped_of_no_proc hf.proc

theorem shaped_of_steps {L : Set Label} (hs : Steps L o o') (hL : .respec ∉ L) (h : Shaped o) :
    Shaped o' := by
  refine hs.keeps Shaped (fun l hl x y hm hx => shaped_of_move hm ?_ hx) h
  rintro rfl
  exact hL hl

theorem shaped_of_begins {o₁ : Owner} (hb : Begins o o₁) (h : Shaped o) : Shaped o₁ := by
  cases hb with
  | release reply key gen st now _ _ hf _ =>
    intro k st' h'
    rw [find_put] at h'
    split at h'
    · cases h'
      exact h key st hf
    · exact h k st' h'
  | _ => exact h

/-- No command but a pushed config does that. -/
theorem shaped_of_passage {e : Event} (hp : Passage o e o') (he : ∀ cfg, e ≠ .apply cfg)
    (h : Shaped o) : Shaped o' := by
  refine keeps_of_passage Shaped (fun _ hb _ => shaped_of_begins hb) (fun _ hx => hx)
    (fun l hl x y hm => shaped_of_move hm ?_) hp h
  rintro rfl
  have hown := hl.resolve_right (by simp [Takes])
  unfold Own at hown
  split at hown
  · exact he _ rfl
  all_goals simp [Loose, Shut] at hown

end Moves

section Frames

def Local (key : String) (o o' : Owner) : Prop := ∀ k, k ≠ key → o'.find k = o.find k

theorem Local.refl (key : String) (o : Owner) : Local key o o := fun _ _ => rfl

theorem Local.trans {a b c : Owner} (hab : Local key a b) (hbc : Local key b c) : Local key a c :=
  fun k hk => (hbc k hk).trans (hab k hk)

theorem local_insert (hs : o'.specs = o.specs.insert key st) : Local key o o' := by
  intro k hk
  rw [find_of_insert hs, if_neg hk]

/-- The other states are kept, and the one at the key is as required. -/
def Leaves (key : String) (P : SpecState → Prop) (o o' : Owner) : Prop :=
  Local key o o' ∧ ∀ st, o'.find key = some st → P st

section Leaves
variable {P Q : SpecState → Prop}

theorem Leaves.imp (h : Leaves key P o o') (hPQ : ∀ st, P st → Q st) : Leaves key Q o o' :=
  ⟨h.1,fun st hst => hPQ st (h.2 st hst)⟩

theorem Leaves.after {a : Owner} (hl : Local key a o) (h : Leaves key P o o') : Leaves key P a o' :=
  ⟨hl.trans h.1,h.2⟩

theorem leaves_nothing (h : o.find key = none) : Leaves key P o o :=
  ⟨Local.refl key o,fun st hst => by rw [h] at hst; cases hst⟩

theorem leaves_same (h : o.find key = some st) (hP : P st) : Leaves key P o o := by
  refine ⟨Local.refl key o,fun st' hst => ?_⟩
  rw [h] at hst
  cases hst
  exact hP

theorem leaves_insert (hs : o'.specs = o.specs.insert key st) (hP : P st) : Leaves key P o o' := by
  refine ⟨local_insert hs,fun st' hst => ?_⟩
  rw [find_of_insert hs, if_pos rfl] at hst
  cases hst
  exact hP

end Leaves

variable (E : Env) (o : Owner) (key : String)

theorem modify_local (f : SpecState → SpecState) : Local key o (o.modify key f) := by
  cases h : o.find key with
  | none =>
    rw [modify_none o key f h]
    exact Local.refl key o
  | some st =>
    rw [modify_some o key st f h]
    exact local_insert rfl

theorem deleteState_leaves (P : SpecState → Prop) : Leaves key P o (o.deleteState key) := by
  refine ⟨fun k hk => by rw [find_deleteState, if_neg hk],fun st hst => ?_⟩
  rw [find_deleteState, if_pos rfl] at hst
  cases hst

theorem cancelBackoff_local : Local key o (o.cancelBackoff key) := by
  cases h : o.find key with
  | none =>
    rw [cancelBackoff, h]
    exact Local.refl key o
  | some st =>
    rw [cancelBackoff_some o key st h]
    exact local_insert rfl

theorem failPending_local (err : Err) : Local key o (o.failPending key err) := by
  cases h : o.find key with
  | none =>
    rw [failPending_none o key err h]
    exact Local.refl key o
  | some st =>
    rw [failPending_some o key st err h]
    exact local_insert rfl

/-- A drain touches its own state only, and that state is not live after. -/
theorem beginDrain_spec : Leaves key (fun st => ¬Live st) o (o.beginDrain E key) := by
  rw [beginDrain]
  cases h : o.find key with
  | none => exact leaves_nothing h
  | some st =>
    dsimp only
    split
    · rename_i hn
      refine leaves_same h fun hlive => ?_
      rw [Bool.or_eq_true, decide_eq_true_eq] at hn
      rcases hn with hn | hn
      · rw [Option.isNone_iff_eq_none] at hn
        rw [Live, hn] at hlive
        exact Bool.noConfusion hlive.1
      · rw [Live, hn] at hlive
        rcases hlive.2 with hs | hs <;> cases hs
    rename_i hn
    rw [Bool.or_eq_true, not_or] at hn
    obtain ⟨p,hp⟩ : ∃ p, st.proc = some p := by
      rw [← Option.ne_none_iff_exists']
      simpa using hn.1
    refine Leaves.after (modify_local o key fun st =>
      if st.state = .draining then st else { st with state := .draining, since := (E.sub 0).here.now }) ?_
    have hfind : (o.setState (E.sub 0) key .draining).find key =
        some { st with state := .draining, since := (E.sub 0).here.now } := by
      rw [find_setState, h]
      simp [show st.state ≠ .draining by simpa using hn.2]
    have dead {st' : SpecState} (hs : st'.state = .draining) : ¬Live st' := by
      rintro ⟨-,hlive⟩
      rw [hs] at hlive
      rcases hlive with hs | hs <;> cases hs
    split
    · rcases terminateNow_some _ key _ p .drainStarted hfind hp with he | he
      · rw [he]
        exact leaves_same hfind (dead rfl)
      · rw [he]
        exact leaves_insert rfl (dead rfl)
    · rw [armDrain, hfind]
      simp only [hp]
      exact leaves_insert rfl (dead rfl)

theorem removeState_spec : Leaves key (fun st => ¬Live st) o (o.removeState E key) := by
  rw [removeState]
  cases h : o.find key with
  | none => exact leaves_nothing h
  | some st =>
    dsimp only
    split
    · exact (beginDrain_spec E (o.put key { st with removed := true }) key).after (local_insert rfl)
    · exact (deleteState_leaves _ key _).after
        ((cancelBackoff_local o key).trans (failPending_local _ key _))

/-- A new spec keeps the shape, drains the child or is forced to stop. -/
theorem reconcileSpec_spec (st : SpecState) (spec : Spec) (h : o.find key = some st)
    (hid : spec.id = key) (hst : ShapedState st) : Leaves key (fun st' => ShapedState st' ∨
      (spec.adminState = .forceStopped ∧ st' = { st with spec := spec })) o (o.reconcileSpec E key spec) := by
  rw [reconcileSpec, h]
  dsimp only
  refine Leaves.after (o := o.put key { st with spec := spec }) (local_insert rfl) ?_
  have hfind := find_put_self o key { st with spec := spec }
  split
  · rename_i hc
    rw [Bool.and_eq_true, Option.isNone_iff_eq_none] at hc
    -- nothing runs, and nothing starts to
    have hidle (st' : SpecState) (hp : st'.proc = none) : ShapedState st' ∨
        (spec.adminState = .forceStopped ∧ st' = { st with spec := spec }) := .inl (shaped_of_no_proc hp)
    have hrest {o' : Owner}
        (h : Leaves key (fun st => st.proc = none) (o.put key { st with spec := spec }) o') :
        Leaves key (fun st => st.proc = none) (o.put key { st with spec := spec })
          (o'.setState (E.sub 0) key .stopped) := by
      refine ⟨h.1.trans (modify_local _ key _),fun st' hst' => ?_⟩
      rw [find_setState, Option.map_eq_some_iff] at hst'
      obtain ⟨st₁,h₁,rfl⟩ := hst'
      split <;> exact h.2 st₁ h₁
    split
    · exact (hrest (leaves_same hfind hc.2)).imp hidle
    split
    · refine (hrest ?_).imp hidle
      rw [cancelBackoff_some _ key _ hfind]
      exact leaves_insert rfl hc.2
    · exact leaves_same hfind (hidle _ hc.2)
  · split
    · rw [hid]
      exact (beginDrain_spec (E.sub 0) _ key).imp fun st' hdead => .inl (shaped_of_not_live hdead)
    · rename_i hkeep
      apply leaves_same hfind
      by_cases hforced : spec.adminState = .forceStopped
      · exact .inr ⟨hforced,rfl⟩
      left
      apply shaped_respec hst
      cases heq : deepEqual st.spec spec with
      | true => exact sameLaunchShape_of_deepEqual heq
      | false => simpa [heq, hforced] using hkeep

/-- Where nothing runs a new spec owes nothing. -/
theorem reconcileSpec_idle (st : SpecState) (spec : Spec) (h : o.find key = some st)
    (hid : spec.id = key) (hp : st.proc = none) :
    Leaves key ShapedState o (o.reconcileSpec E key spec) := by
  refine (reconcileSpec_spec E o key st spec h hid (shaped_of_no_proc hp)).imp fun st' hspec => ?_
  rcases hspec with hs | ⟨-,rfl⟩
  · exact hs
  · exact shaped_of_no_proc hp

end Frames

section Visits
variable {α : Type} (I : Owner → Prop) (P Q : String → SpecState → Prop)

/-- A loop that visits each state at most once takes what it visits from one
property to another. -/
theorem forEach_visit (site : α → String) (f : Env → Owner → α → Owner) (xs : List α)
    (hnd : (xs.map site).Nodup) (hI : ∀ E o, ∀ x ∈ xs, I o → I (f E o x))
    (hv : ∀ E o, ∀ x ∈ xs, I o → (∀ st, o.find (site x) = some st → P (site x) st) →
      Leaves (site x) (Q (site x)) o (f E o x))
    (E : Env) (o : Owner) (ho : I o) (hP : ∀ x ∈ xs, ∀ st, o.find (site x) = some st → P (site x) st)
    (key : String) (st : SpecState) (h : (forEach f E o xs).find key = some st) :
    Q key st ∨ (key ∉ xs.map site ∧ o.find key = some st) := by
  induction xs generalizing E o with
  | nil => exact .inr ⟨not_mem_nil,h⟩
  | cons x xs ih =>
    rw [map_cons, nodup_cons] at hnd
    rw [forEach] at h
    obtain ⟨hlocal,hhead⟩ := hv (E.sub 0) o x mem_cons_self ho (hP x mem_cons_self)
    have htail : ∀ y ∈ xs, y ∈ x::xs := fun y hy => mem_cons_of_mem x hy
    have hrest := ih hnd.2 (fun E o y hy => hI E o y (htail y hy))
      (fun E o y hy => hv E o y (htail y hy)) (E.sub 1) (f (E.sub 0) o x)
      (hI _ _ _ mem_cons_self ho) ?_ h
    · rcases hrest with hQ | ⟨hn,hfind⟩
      · exact .inl hQ
      · by_cases hkey : key = site x
        · rw [hkey] at hfind ⊢
          exact .inl (hhead st hfind)
        · refine .inr ⟨?_,(hlocal key hkey).symm.trans hfind⟩
          rw [map_cons, mem_cons, not_or]
          exact ⟨hkey,hn⟩
    · intro y hy st hst
      have hne : site y ≠ site x := fun he => hnd.1 (he ▸ mem_map_of_mem hy)
      rw [hlocal (site y) hne] at hst
      exact hP y (htail y hy) st hst

/-- A loop over the whole table takes every state from one property to another. -/
theorem forEach_keys (f : Env → Owner → String → Owner) (hI : ∀ E o key, I o → I (f E o key))
    (hv : ∀ E o key, I o → (∀ st, o.find key = some st → P key st) → Leaves key (Q key) o (f E o key))
    (E E' : Env) (o : Owner) (ho : I o) (hP : ∀ key st, o.find key = some st → P key st)
    (key : String) (st : SpecState) (h : (forEach f E o (o.keys E')).find key = some st) :
    Q key st := by
  have hnd : ((o.keys E').map id).Nodup := by
    rw [map_id]
    exact (E'.here.range.perm () _).nodup_iff.mpr o.specs.nodupKeys
  rcases forEach_visit I P Q id f (o.keys E') hnd (fun E o k _ => hI E o k)
    (fun E o k _ => hv E o k) E o ho (fun k _ => hP k) key st h with hQ | ⟨hn,hfind⟩
  · exact hQ
  · rw [map_id] at hn
    exact absurd (mem_keys_of_find o key st E' hfind) hn

end Visits

section Configs

def Pledged (st : SpecState) : Prop := st.removed = false ∧ st.spec.adminState = .forceStopped

/-- What each part of a config push owes to a state: the shape, or a pledge, and
to a live child a place in the config. -/
def Followed (key : String) (st : SpecState) : Prop :=
  ShapedState st ∨ (Pledged st ∧ reservedSpecID key = false)

def Kept (newIDs : List String) (key : String) (st : SpecState) : Prop :=
  ¬Live st ∨ (specBase st.spec ∈ newIDs ∧ Followed key st)

def Owed (newIDs : List String) (_ : String) (st : SpecState) : Prop :=
  ShapedState st ∨ (Pledged st ∧ specBase st.spec ∈ newIDs)

theorem adoptSpec_spec (E : Env) (o : Owner) (spec : Spec)
    (hr : reservedSpecID spec.id = false) (h : ∀ st, o.find spec.id = some st → ShapedState st) :
    Leaves spec.id (Followed spec.id) o (o.adoptSpec E spec) := by
  rw [adoptSpec]
  cases hf : o.find spec.id with
  | none =>
    rw [if_pos (by simp), create, hf, if_neg (by simp)]
    exact leaves_insert rfl (.inl (shaped_of_no_proc rfl))
  | some st =>
    rw [if_neg (by simp)]
    have hfind : (o.modify spec.id fun st => { st with removed := false }).find spec.id =
        some { st with removed := false } := by
      rw [find_modify_self, hf]
      rfl
    refine ((reconcileSpec_spec (E.sub 1) _ spec.id _ spec hfind rfl (h st hf)).imp
      fun st' hspec => ?_).after (modify_local o spec.id _)
    rcases hspec with hs | ⟨hforced,rfl⟩
    · exact .inl hs
    · exact .inr ⟨⟨rfl,hforced⟩,hr⟩

theorem dropUndesired_spec (newIDs : List String) (E : Env) (o : Owner) (key : String)
    (h : ∀ st, o.find key = some st → Followed key st) :
    Leaves key (Kept newIDs key) o (Owner.dropUndesired newIDs E o key) := by
  rw [dropUndesired]
  cases hf : o.find key with
  | none => exact leaves_nothing hf
  | some st =>
    dsimp only
    split
    · rename_i hin
      exact leaves_same hf (.inr ⟨hin,h st hf⟩)
    · exact (removeState_spec E o key).imp fun _ => .inl

theorem shaped_of_kept {newIDs : List String} (h : Kept newIDs key st)
    (hr : reservedSpecID key = true) : ShapedState st := by
  rcases h with hdead | ⟨-,hs | ⟨-,hn⟩⟩
  · exact shaped_of_not_live hdead
  · exact hs
  · rw [hn] at hr
    cases hr

theorem owed_of_kept {newIDs : List String} (h : Kept newIDs key st) : Owed newIDs key st := by
  rcases h with hdead | ⟨hin,hs | ⟨hp,-⟩⟩
  · exact .inl (shaped_of_not_live hdead)
  · exact .inl hs
  · exact .inr ⟨hp,hin⟩

theorem reviseInstance_spec (specs : List Spec) (E : Env) (o : Owner) (key : String) (ho : Sound o)
    (hr : ∀ spec ∈ specs, reservedSpecID spec.id = false)
    (h : ∀ st, o.find key = some st → Kept (specs.map Spec.id) key st) :
    Leaves key (Owed (specs.map Spec.id) key) o (Owner.reviseInstance specs E o key) := by
  rw [reviseInstance]
  cases hf : o.find key with
  | none => exact leaves_nothing hf
  | some st =>
    have hkept := h st hf
    have hsame : Leaves key (Owed (specs.map Spec.id) key) o o := leaves_same hf (owed_of_kept hkept)
    have hgone (E : Env) : Leaves key (Owed (specs.map Spec.id) key) o (o.removeState E key) :=
      (removeState_spec E o key).imp fun st hdead => .inl (shaped_of_not_live hdead)
    dsimp only
    split
    · exact hsame
    rename_i hne
    have hkey := (ho.states key st hf).instance_key hne
    have hres : reservedSpecID key = true := by
      rw [hkey]
      exact reserved_instanceKey _ _ hne
    split
    · exact hsame
    rename_i base hbase
    have hmem : base ∈ specs := mem_reverse.mp (mem_of_find?_eq_some hbase)
    have hof : base.id = st.spec.instanceOf := by simpa using find?_some hbase
    have hid : (specForInstance base st.instanceIdx).id = key := by
      rw [specForInstance_id, hof, ← hkey]
    split
    · exact hgone _
    split
    · exact hgone _
    refine Leaves.after (o := o.put key { st with removed := false }) (local_insert rfl) ?_
    have hfind := find_put_self o key { st with removed := false }
    split
    · rename_i hburst
      rw [Bool.and_eq_true, Option.isNone_iff_eq_none] at hburst
      have hlater : Local key (o.put key { st with removed := false }) (if st.state = .backoff then
          ((o.put key { st with removed := false }).cancelBackoff key).setState (E.sub 1) key
            .stopped else (o.put key { st with removed := false }).cancelBackoff key) := by
        split
        · exact (cancelBackoff_local _ key).trans (modify_local _ key _)
        · exact cancelBackoff_local _ key
      obtain ⟨-,st',hf',-,-,hp,-⟩ := leaveBackoff_wind (E.sub 1) _ key _ st.state hfind
        hburst.2 rfl
      generalize (if st.state = .backoff then _ else _ : Owner) = o' at hlater hf' ⊢
      refine Leaves.after hlater ?_
      split
      · exact (deleteState_leaves _ key _).after (cancelBackoff_local _ key)
      · exact (reconcileSpec_idle (E.sub 2) o' key st' _ hf' hid hp).imp fun _ => .inl
    have hshaped : ShapedState st := shaped_of_kept hkept hres
    refine (reconcileSpec_spec (E.sub 2) _ key _ (specForInstance base st.instanceIdx) hfind hid
      hshaped).imp fun st' hspec => ?_
    rcases hspec with hs | ⟨hforced,rfl⟩
    · exact .inl hs
    rcases hkept with hdead | ⟨hin,-⟩
    · exact .inl (shaped_of_not_live hdead)
    refine .inr ⟨⟨rfl,hforced⟩,?_⟩
    -- the instance belongs to the config, so its base has a name
    have hname : base.id ≠ "" := by
      intro he
      rw [specBase, ← hof, if_pos he, (ho.states key st hf).id] at hin
      obtain ⟨spec,hspec,hkey⟩ := mem_map.mp hin
      rw [← hkey, hr spec hspec] at hres
      cases hres
    have hbase : specBase (specForInstance base st.instanceIdx) = base.id := by
      rw [specForInstance, if_neg hne, specBase, if_neg hname]
    rw [hbase]
    exact mem_map_of_mem hmem

/-- The state is as it was, or nothing runs in it. -/
def Untouched (key : String) (a b : Owner) : Prop :=
  b.find key = a.find key ∨ ∃ st, b.find key = some st ∧ st.proc = none

theorem Untouched.trans {a b c : Owner} (hab : Untouched key a b) (hbc : Untouched key b c) :
    Untouched key a c := by
  rcases hbc with hbc | hbc
  · rw [Untouched, hbc]
    exact hab
  · exact .inr hbc

theorem ensureProtectedFloor_spec (E : Env) (o : Owner) (key : String) :
    Untouched key o (o.ensureProtectedFloor E) := by
  refine forEach_rel (Untouched key) (fun _ => .inl rfl) Untouched.trans _
    (fun E o spec => ?_) E o o.cfg.specs
  refine forEach_rel (Untouched key) (fun _ => .inl rfl) Untouched.trans _
    (fun E o k => ?_) E o (floorIndexes spec)
  split
  · exact .inl rfl
  rw [create]
  split
  · exact .inl rfl
  rw [Untouched, find_put]
  split
  · exact .inr ⟨_,rfl,rfl⟩
  · exact .inl rfl

theorem drainForced_spec (newIDs : List String) (E : Env) (o : Owner) (key : String)
    (h : ∀ st, o.find key = some st → Owed newIDs key st) :
    Leaves key ShapedState o (Owner.drainForced newIDs E o key) := by
  rw [drainForced]
  cases hf : o.find key with
  | none => exact leaves_nothing hf
  | some st =>
    have hsame (hs : ¬(Pledged st ∧ specBase st.spec ∈ newIDs) ∨ st.proc = none) :
        Leaves key ShapedState o o := by
      apply leaves_same hf
      rcases hs with hs | hs
      · exact (h st hf).resolve_right hs
      · exact shaped_of_no_proc hs
    dsimp only
    split
    · rename_i hout
      refine hsame (.inl ?_)
      rintro ⟨⟨hkeep,-⟩,hin⟩
      simp [hkeep, hin] at hout
    split
    · exact (beginDrain_spec E o key).imp fun st' hdead => shaped_of_not_live hdead
    rename_i hforced
    rw [Bool.and_eq_true, decide_eq_true_eq, not_and_or, Option.not_isSome_iff_eq_none] at hforced
    refine hsame ?_
    rcases hforced with hf' | hp
    · exact .inl fun hp => hf' hp.1.2
    · exact .inr hp

theorem shaped_adoptConfig (E : Env) (o : Owner) (cfg : Config) (ho : Sound o)
    (hr : ∀ spec ∈ cfg.specs, reservedSpecID spec.id = false)
    (hnd : (cfg.specs.map Spec.id).Nodup) (h : Shaped o) (key : String) (st : SpecState)
    (hst : (o.adoptConfig E cfg).find key = some st) : Owed (cfg.specs.map Spec.id) key st := by
  rw [adoptConfig] at hst
  have r1 : Steps Still o { o with cfg := cfg, allowedPairs := cfg.allowedPairs } := by
    apply global_still
    constructor <;> rfl
  have ho1 := sound_of_steps r1 ho
  have h1 : Shaped { o with cfg := cfg, allowedPairs := cfg.allowedPairs } := h
  set o1 : Owner := { o with cfg := cfg, allowedPairs := cfg.allowedPairs }
  have ho2 := sound_of_steps (forEach_sound Adopt adoptSpec cfg.specs
    (fun E o spec hs hx => adoptSpec_adopt E o spec hx (hr spec hs)) (E.sub 0) o1 ho1) ho1
  have h2 : ∀ key st, (forEach adoptSpec (E.sub 0) o1 cfg.specs).find key = some st →
      Followed key st := by
    intro key st hst
    rcases forEach_visit Sound (fun _ => ShapedState) Followed Spec.id adoptSpec cfg.specs hnd
      (fun E o spec hs hx => sound_of_steps (adoptSpec_adopt E o spec hx (hr spec hs)) hx)
      (fun E o spec hs _ hP => adoptSpec_spec E o spec (hr spec hs) hP)
      (E.sub 0) o1 ho1 (fun spec _ st hst => h1 spec.id st hst) key st hst with hf | ⟨-,hf⟩
    · exact hf
    · exact .inl (h1 key st hf)
  set o2 := forEach adoptSpec (E.sub 0) o1 cfg.specs
  have h3 := forEach_keys (fun _ => True) Followed (Kept (cfg.specs.map Spec.id))
    (dropUndesired (cfg.specs.map Spec.id)) (fun _ _ _ h => h)
    (fun E o key _ hP => dropUndesired_spec _ E o key hP) (E.sub 1) (E.sub 2) o2 trivial h2
  have r3 := forEach_steps Wind _ (dropUndesired_wind (cfg.specs.map Spec.id)) (E.sub 1) o2
    (o2.keys (E.sub 2))
  set o3 := forEach (dropUndesired (cfg.specs.map Spec.id)) (E.sub 1) o2 (o2.keys (E.sub 2))
  have ho4 := sound_of_steps (rebuildUpstreamIndex_still (E.sub 3) o3) (sound_of_steps r3 ho2)
  have h5 := forEach_keys Sound (Kept (cfg.specs.map Spec.id)) (Owed (cfg.specs.map Spec.id))
    (reviseInstance cfg.specs)
    (fun E o key hx => sound_of_steps (reviseInstance_adopt cfg.specs E o key hx) hx)
    (fun E o key hx hP => reviseInstance_spec cfg.specs E o key hx hr hP) (E.sub 4) (E.sub 5)
    (o3.rebuildUpstreamIndex (E.sub 3)) ho4 h3
  rcases ensureProtectedFloor_spec (E.sub 6) _ key with hsame | ⟨st',hst',hp⟩
  · rw [hsame] at hst
    exact h5 key st hst
  · rw [hst'] at hst
    cases hst
    exact .inl (shaped_of_no_proc hp)

/-- A config that names each spec once leaves every child with its shape. -/
theorem shaped_applyConfig (E : Env) (o : Owner) (cfg : Config) (ho : Sound o)
    (hnd : (cfg.specs.map Spec.id).Nodup) (h : Shaped o) : Shaped (o.applyConfig E cfg) := by
  rw [applyConfig]
  dsimp only
  split
  · exact h
  have hr : ∀ spec ∈ withoutReservedSpecIDs cfg.specs, reservedSpecID spec.id = false := by
    intro spec hs
    simpa using (mem_filter.mp hs).2
  have howed := shaped_adoptConfig (E.sub 0) o
    { cfg with specs := withoutReservedSpecIDs cfg.specs } ho hr
    (hnd.sublist (filter_sublist.map Spec.id)) h
  set o1 := o.adoptConfig (E.sub 0) { cfg with specs := withoutReservedSpecIDs cfg.specs }
  have hdrained := forEach_keys (fun _ => True)
    (Owed ((withoutReservedSpecIDs cfg.specs).map Spec.id)) (fun _ => ShapedState)
    (drainForced ((withoutReservedSpecIDs cfg.specs).map Spec.id)) (fun _ _ _ h => h)
    (fun E o key _ hP => drainForced_spec _ E o key hP) (E.sub 2) (E.sub 1) o1 trivial howed
  refine shaped_of_steps (wakeAdmission_calmly (E.sub 4) _ _).steps (by simp [Loose]) ?_
  exact shaped_of_steps (forEach_rel Calmly Calmly.refl Calmly.trans _ reask_calmly _ _ _).steps
    (by simp [Loose]) hdrained

end Configs

/-- A config that names a spec twice. -/
def repeatsSpec (_ : Env) (_ : Owner) : Event → Bool
  | .apply cfg => !decide (cfg.specs.map Spec.id).Nodup
  | _ => false

theorem shaped_of_avoiding (o : Owner) (h : ReachableAvoiding repeatsSpec o) : Shaped o := by
  refine holds_of_avoiding Shaped (fun o hi key st hf => ?_) (fun o o' E e ho hbad hstep hs => ?_) o h
  · rw [find_newOwner hi] at hf
    cases hf
  · by_cases he : ∃ cfg, e = .apply cfg
    · obtain ⟨cfg,rfl⟩ := he
      rw [step] at hstep
      split at hstep
      · cases hstep
      cases hstep
      have hnd : (cfg.specs.map Spec.id).Nodup := by simpa [repeatsSpec] using hbad
      exact shaped_of_steps (handle_still E o (.apply cfg)) (by simp [Still])
        (shaped_applyConfig E _ cfg (sound_of_begins .turn ho.sound) hnd hs)
    · exact shaped_of_passage (passage_of_step ho.sound ho.settled hstep)
        (fun cfg hc => he ⟨cfg,hc⟩) hs

/-- A child that is up was launched with the shape its state's spec has now,
and a launch reads nothing else of a spec. -/
theorem running_child_has_its_shape :
    (∀ o, ReachableAvoiding repeatsSpec o → ∀ key st p, o.find key = some st → st.proc = some p →
      st.state = .starting ∨ st.state = .running → sameLaunchShape p.launch st.spec = true) ∧
    (∀ a b, sameLaunchShape a b = true → ∀ (H : Host) (port : ℤ) (vendor : GPUVendor)
      (getenv : String → Bytes) (dir : String),
      expandSpec H a port vendor getenv dir = expandSpec H b port vendor getenv dir ∧
      effectiveWorkDir H a = effectiveWorkDir H b ∧
      planSpecConfigFiles H a port dir = planSpecConfigFiles H b port dir) := by
  constructor
  · intro o h key st p hf hp hs
    exact shaped_of_avoiding o h key st hf p hp hs
  · intro a b hab H port vendor getenv dir
    have h := sameLaunch_of_sameLaunchShape a b hab
    exact ⟨expandSpec_of_sameLaunch h H port vendor getenv dir,effectiveWorkDir_of_sameLaunch h H,
      planSpecConfigFiles_of_sameLaunch h H port dir⟩

def servedModel (binary : String) : Spec :=
  { id := "a", upstreamModel := "a", binary := binary, ramMB := 10 }

def bringUp (binary : String) : List Event :=
  [.apply { specs := [servedModel binary] }, .ensure "a" 0 true, .probe "a" 0 true,
    .receive ⟨.startResult "a" 0 true, none⟩]

def retimed : Owner := playAvoiding repeatsSpec quietEnv (newOwner false 0 0 0 0)
  (bringUp "old" ++ [.apply { specs := [{ servedModel "old" with idleTimeoutSeconds := 30 }] }])

theorem running_child_has_its_shape_retimed :
    ∃ st p, retimed.find "a" = some st ∧ st.proc = some p ∧ st.state = .running ∧
      p.launch ≠ st.spec ∧ sameLaunchShape p.launch st.spec = true ∧
      ∀ (H : Host) (port : ℤ) (vendor : GPUVendor) (getenv : String → Bytes) (dir : String),
        expandSpec H p.launch port vendor getenv dir = expandSpec H st.spec port vendor getenv dir := by
  have hrun : (retimed.find "a").bind (fun st => st.proc.map fun p =>
      (st.state, p.launch.idleTimeoutSeconds, st.spec.idleTimeoutSeconds)) = some (.running, 0, 30) := by
    decide +kernel
  obtain ⟨st,hf,hst⟩ := Option.bind_eq_some_iff.mp hrun
  obtain ⟨p,hp,hfields⟩ := Option.map_eq_some_iff.mp hst
  rw [Prod.mk.injEq, Prod.mk.injEq] at hfields
  obtain ⟨hs,hold,hnew⟩ := hfields
  have hshape := running_child_has_its_shape.1 retimed
    (reachable_playAvoiding repeatsSpec quietEnv _ _ ⟨_,⟨_,_,_,_,_,rfl⟩,.refl⟩) "a" st p hf hp
    (.inr hs)
  refine ⟨st,p,hf,hp,hs,fun he => ?_,hshape,fun H port vendor getenv dir =>
    (running_child_has_its_shape.2 _ _ hshape H port vendor getenv dir).1⟩
  rw [he, hnew] at hold
  cases hold

/-- The config names the model twice with a new binary, first to be stopped and
then not. The first spec leaves the drain to what is forced, and the second one
is not. -/
def servedTwice : Owner := play quietEnv (newOwner false 0 0 0 0)
  (bringUp "old" ++ [.apply { specs :=
    [{ servedModel "new" with adminState := .forceStopped }, servedModel "new"] }])

theorem child_keeps_old_shape :
    ∃ o : Owner, o.Reachable ∧ ∃ key st p, o.find key = some st ∧ st.proc = some p ∧
      st.state = .running ∧ sameLaunchShape p.launch st.spec = false := by
  have hrun : (servedTwice.find "a").bind (fun st => st.proc.map fun p =>
      (st.state, sameLaunchShape p.launch st.spec)) = some (.running, false) := by
    decide +kernel
  obtain ⟨st,hf,hst⟩ := Option.bind_eq_some_iff.mp hrun
  obtain ⟨p,hp,hfields⟩ := Option.map_eq_some_iff.mp hst
  rw [Prod.mk.injEq] at hfields
  exact ⟨servedTwice,reachable_play quietEnv _ _ (reachable_newOwner _ _ _ _ _),"a",st,p,hf,hp,
    hfields.1,hfields.2⟩

end OnPremGateway.OwnerLaunch
