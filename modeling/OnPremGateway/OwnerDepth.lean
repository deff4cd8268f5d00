import OnPremGateway.OwnerSettled

/-!
# The depth of an admission

An admission wakes only higher instances of its own spec, makes no state and
leaves every instance its number. The numbers end at 63, so an admission that
may nest 65 deep does what one without a bound does.
-/

set_option autoImplicit false

namespace OnPremGateway.OwnerDepth
open RuntimeTypes InstanceModel AdmissionModel
open SliceOrder OwnerModel LabelledRuns
open OwnerMoves OwnerPaths OwnerEffects
open OwnerSound OwnerSettled

section Numbers
variable {o o' : Owner} {key : String}

theorem index_of_change {l : Label} {e : Effect} {st st' : SpecState}
    (hc : Change o key st l e st') : st'.instanceIdx = st.instanceIdx := by
  cases hc with
  | quiet _ hq => exact hq.instanceIdx
  | _ => rfl

def Numbered (o o' : Owner) : Prop :=
  ∀ key st', o'.find key = some st' → ∃ st, o.find key = some st ∧ st'.instanceIdx = st.instanceIdx

theorem numbered_of_move {l : Label} (hm : Move l o o') (hl : l ≠ .create) : Numbered o o' := by
  obtain ⟨e,-,t⟩ := touch_of_move hm
  intro key st' h'
  cases t with
  | same _ hs => exact ⟨st',by rw [Owner.find, ← hs]; exact h',rfl⟩
  | refuse _ _ _ hs => exact ⟨st',by rw [Owner.find, ← hs]; exact h',rfl⟩
  | create _ _ _ _ hcreate _ => exact absurd hcreate hl
  | erase k st h hp hw _ _ hs =>
    rw [find_of_erase hs] at h'
    split at h'
    · cases h'
    · exact ⟨st',h',rfl⟩
  | change k st s' _ h hc hs =>
    rw [find_of_insert hs] at h'
    split at h'
    · rename_i hk
      cases h'
      exact ⟨st,hk ▸ h,index_of_change hc⟩
    · exact ⟨st',h',rfl⟩

theorem numbered_of_calm (hs : Steps Calm o o') : Numbered o o' := by
  refine hs.keeps (fun x => Numbered o x) (fun l hl x y hm hx => ?_) fun _ st h => ⟨st,h,rfl⟩
  have hne : l ≠ .create := by
    rintro rfl
    simp [Calm] at hl
  intro key st' h'
  obtain ⟨st,h,hi⟩ := numbered_of_move hm hne key st' h'
  obtain ⟨st₀,h₀,hi₀⟩ := hx key st h
  exact ⟨st₀,h₀,hi.trans hi₀⟩

end Numbers

theorem admitBody_congr {wake wake' : Admitter} {o : Owner} {key : String}
    (hc : ∀ E o k, Steps Calm o (wake' E o k)) (h : Agree o key wake wake') (E : Env) :
    admitBody wake E o key = admitBody wake' E o key := by
  have hd : decideStart wake (E.sub 0) o key = decideStart wake' (E.sub 0) o key := by
    rcases decideStart_asked wake wake' (E.sub 0) o key with ⟨_,_,_,he⟩ | hasked
    · rw [he, he]
    · exact hasked.same hc h
  rw [admitBody, admitBody, hd]

/-- Two loops agree when their bodies do wherever the loop gets to. -/
theorem forEach_congr {α : Type} (P : Owner → Prop) (f g : Env → Owner → α → Owner) (xs : List α)
    (hfg : ∀ x ∈ xs, ∀ E o, P o → f E o x = g E o x) (hP : ∀ E o x, P o → P (g E o x)) (E : Env)
    (o : Owner) (ho : P o) : forEach f E o xs = forEach g E o xs := by
  induction xs generalizing E o with
  | nil => rfl
  | cons x xs ih =>
    rw [forEach, forEach, hfg x List.mem_cons_self (E.sub 0) o ho]
    exact ih (fun y hy => hfg y (List.mem_cons_of_mem x hy)) (E.sub 1) _ (hP _ _ _ ho)

theorem mem_waitingSiblings (E : Env) (o : Owner) (key id : String) (st : SpecState)
    (hf : o.find key = some st) (h : id ∈ o.waitingSiblings E key) :
    ∃ sib, o.find id = some sib ∧ st.instanceIdx < sib.instanceIdx := by
  rw [Owner.waitingSiblings, hf] at h
  have hmem := (sortSlice_perm _ _).mem_iff.mp h
  obtain ⟨sib,hs,hsib⟩ := (Option.any_eq_true _ _).mp (List.mem_filter.mp hmem).2
  simp only [Bool.and_eq_true, decide_eq_true_eq] at hsib
  exact ⟨sib,hs,hsib.1.2⟩

/-- One more level changes nothing once the levels reach past the last
number. -/
theorem admitDepth_succ (n : ℕ) (E : Env) (o : Owner) (key : String) (ho : Sound o)
    (hn : ∀ st, o.find key = some st → maxInstanceIndex-st.instanceIdx < n+1) :
    admitDepth (n+2) E o key = admitDepth (n+1) E o key := by
  induction n generalizing E o key with
  | zero =>
    rw [admitDepth, admitDepth]
    refine admitBody_congr (wakeSiblingsWaitingFor_calm _ (admitDepth_calm 0)) ?_ E
    intro E o' hs
    rw [wakeSiblingsWaitingFor, wakeSiblingsWaitingFor]
    cases hf : o'.find key with
    | none => simp [Owner.waitingSiblings, hf, forEach]
    | some st =>
      have hnone : o'.waitingSiblings (E.sub 0) key = [] := by
        rw [List.eq_nil_iff_forall_not_mem]
        intro id hid
        -- the number past the last one
        obtain ⟨sib,hsib,hlt⟩ := mem_waitingSiblings _ o' key id st hf hid
        obtain ⟨st₀,hf₀,hi⟩ := numbered_of_calm hs key st hf
        have hrange := ((sound_of_steps hs ho).states id sib hsib).instance_range.2
        have hbound := hn st₀ hf₀
        push_cast at hbound
        omega
      rw [hnone, forEach, forEach]
  | succ n ih =>
    rw [admitDepth, admitDepth]
    refine admitBody_congr (wakeSiblingsWaitingFor_calm _ (admitDepth_calm (n+1))) ?_ E
    intro E o' hs
    rw [wakeSiblingsWaitingFor, wakeSiblingsWaitingFor]
    cases hf : o'.find key with
    | none => simp [Owner.waitingSiblings, hf, forEach]
    | some st =>
      obtain ⟨st₀,hf₀,hi⟩ := numbered_of_calm hs key st hf
      refine forEach_congr (fun x => Steps Calm o' x) _ _ _ ?_ ?_ _ _ (Via.refl _ o')
      · intro id hid E x hx
        obtain ⟨sib,hsib,hlt⟩ := mem_waitingSiblings _ o' key id st hf hid
        cases hfx : x.find id with
        | none => rfl
        | some s =>
          simp only
          split
          · rfl
          apply ih _ _ _ (sound_of_steps (hs.trans hx) ho)
          intro s' hs'
          rw [hfx] at hs'
          cases hs'
          obtain ⟨sib',hsib',hidx⟩ := numbered_of_calm hx id s hfx
          rw [hsib] at hsib'
          cases hsib'
          have hbound := hn st₀ hf₀
          push_cast at hbound
          omega
      · intro E x id hx
        split
        · exact hx
        · split
          · exact hx
          · exact hx.trans (admitDepth_calm (n+1) E x id)

/-- No admission runs out of depth. -/
theorem admitAndStart_deeper (n : ℕ) (E : Env) (o : Owner) (key : String) (ho : Sound o) :
    admitDepth (65+n) E o key = o.admitAndStart E key := by
  induction n with
  | zero => rfl
  | succ n ih =>
    rw [← ih]
    have hstep := admitDepth_succ (64+n) E o key ho ?_
    · rw [show 65+(n+1) = 64+n+2 by omega, show 65+n = 64+n+1 by omega]
      exact hstep
    · intro st hf
      have hrange := (ho.states key st hf).instance_range.1
      rw [maxInstanceIndex]
      push_cast
      omega

end OnPremGateway.OwnerDepth
