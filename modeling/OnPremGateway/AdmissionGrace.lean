import OnPremGateway.AdmissionRanges
import OnPremGateway.AdmissionSearch

/-!
# The grace window

The window only ever keeps processes out of the victim set, and time lets them in
again. A snapshot whose processes may all still go that could go before is never
blocked where it was not, so an answer that proceeds keeps proceeding, and a wait is
blamed on the window exactly when time alone ends it. Only a window as long as the
longest duration never ends, because the age of a process saturates there.
-/

set_option autoImplicit false

namespace OnPremGateway.AdmissionGrace
open SliceOrder RuntimeTypes AdmissionModel List Bool Admission
open AdmissionOrder AdmissionSteps AdmissionRules
open AdmissionVerdict AdmissionSearch

variable {r : RunningProc} (ρ : Ranges) (snap : PolicySnapshot) (spec : Spec)

def withClock (snap : PolicySnapshot) (now grace : ℤ) : PolicySnapshot :=
  { snap with now := now, evictionGrace := grace }

/-- An answer that lets the candidate start, at once or after evictions. -/
def Proceeds (dec : Decision) : Prop := dec.ok = true ∨ dec.evict ≠ []

/-! ### More processes may go -/

/-- Past the rule for candidates of unknown demand, such a candidate has its grant or
met no known occupant. -/
theorem granted_or_alone (a : Admission) (hb : (afterRules ρ a).blocked = false)
    (hu : a.unknownVRAM = true) :
    a.snap.vramBootstrapEligible = true ∨ ∀ r ∈ a.running, ¬knownToucher ρ a r := by
  have hrest : Reach (a.ruleMatrix.ruleUnknownVRAMCandidate ρ) (afterRules ρ a) :=
    (ruleUnknownVRAMOccupant_reach ρ _).trans <| (rulePerGPUVRAM_reach ρ _).trans <|
      (ruleHostRAM_reach ρ _).trans (ruleProcessCount_reach ρ _)
  have hsame := reach_sameInput _ _ (ruleMatrix_reach a)
  have hcandidate := reach_blocked _ _ hrest hb
  rw [ruleUnknownVRAMCandidate, hsame.unknownVRAM, hu, hsame.snap] at hcandidate
  simp only [Bool.not_true, Bool.false_eq_true, if_false] at hcandidate
  by_cases heligible : a.snap.vramBootstrapEligible = true
  · exact .inl heligible
  rw [if_neg heligible] at hcandidate
  refine .inr fun r hr hknown => ?_
  apply blockOnKnownTouchers_post ρ _ hcandidate r (hsame.running ▸ hr)
  rw [knownToucher, hsame.gpuIdx]
  exact hknown

/-- What the rules queue are processes that may go, each with its higher siblings. -/
theorem queued_family (a b : Admission) (ha : Made a) (hs : Sound b) (hab : Reach a b) :
    Family a fun r => b.queued r = true := by
  have hsame := reach_sameInput a b hab
  have hentry : ∀ r ∈ a.running, b.queued r = true → b.toEvict.lookup r.specID = some r := by
    intro r hr hq
    obtain ⟨s,hlookup⟩ := Option.isSome_iff_exists.mp hq
    obtain ⟨hid,hs,-⟩ := hs.entry r.specID s hlookup
    rw [hsame.running] at hs
    rwa [inj_on_of_nodup_map ha.regular.distinct hs hr hid] at hlookup
  constructor
  · intro r hr hq
    rw [← reach_mayEvict a b hab]
    exact (hs.entry r.specID r (hentry r hr hq)).2.2
  · intro r hr hq o ho hbase hlt
    exact hs.closed r.specID r (hentry r hr hq) o (hsame.running ▸ ho) hbase hlt

section Clock

variable (ρ : Ranges) {snap : PolicySnapshot} {spec : Spec}
variable (hreg : Regular snap spec (others snap spec))
include hreg

theorem regular_withClock (now grace : ℤ) :
    Regular (withClock snap now grace) spec (others (withClock snap now grace) spec) :=
  hreg.subperm (.refl _) rfl

variable (hu : Uniform snap.running)
include hu

/-- When every process that could go may still go, the rules do not come to block. -/
theorem unblocked_of_more {now grace now' grace' : ℤ}
    (hmore : ∀ r ∈ snap.running, isEvictable r now grace = true → isEvictable r now' grace' = true)
    (hb : (afterRules ρ (newAdmission (withClock snap now grace) spec)).blocked = false) :
    (afterRules ρ (newAdmission (withClock snap now' grace') spec)).blocked = false := by
  obtain ⟨a,ha⟩ : ∃ a, a = newAdmission (withClock snap now grace) spec := ⟨_,rfl⟩
  obtain ⟨a',ha'⟩ : ∃ a', a' = newAdmission (withClock snap now' grace') spec := ⟨_,rfl⟩
  have hrunning : a'.running = a.running := by rw [ha, ha']; rfl
  have hmem : ∀ r ∈ a.running, r ∈ snap.running := by
    intro r hr
    rw [ha] at hr
    exact mem_of_mem_filter ((newAdmission_perm _ spec).mem_iff.mp hr)
  have hmade : Made a := ha ▸ newAdmission_made _ spec (regular_withClock hreg now grace)
  have hmade' : Made a' := ha' ▸ newAdmission_made _ spec (regular_withClock hreg now' grace')
  have hsound : Sound a := ha ▸ newAdmission_sound _ spec
  have huniform : Uniform a.running :=
    ⟨fun r hr o ho => hu.cards r (hmem r hr) o (hmem o ho),
      fun r hr o ho => hu.known r (hmem r hr) o (hmem o ho),
      fun r hr o ho => hu.ram r (hmem r hr) o (hmem o ho)⟩
  rw [← ha] at hb
  rw [← ha']
  have hfamily := queued_family a (afterRules ρ a) hmade (reach_sound _ _ (afterRules_reach ρ a) hsound)
    (afterRules_reach ρ a)
  have hmet := remaining_met ρ a hmade hsound hb
  rw [remaining, (reach_sameInput _ _ (afterRules_reach ρ a)).running] at hmet
  apply afterRules_unblocked ρ a' hmade' (ha' ▸ newAdmission_sound _ spec) (by rw [ha']; rfl)
    (hrunning ▸ huniform) _ _ (afterRules ρ a).queued
  · refine ⟨?_,hrunning ▸ hfamily.closed⟩
    intro r hr hq
    have hmay := hfamily.mayEvict r (hrunning ▸ hr) hq
    rw [ha, mayEvict, and_eq_true] at hmay
    rw [ha', mayEvict, and_eq_true]
    exact ⟨hmore r (hmem r (hrunning ▸ hr)) hmay.1,hmay.2⟩
  · rw [hrunning]
    rw [ha] at hmet
    rw [ha', ha]
    exact ⟨hmet.matrix,hmet.alone,hmet.measured,hmet.cards,hmet.ram,hmet.count⟩
  · intro hunknown
    have halone := granted_or_alone ρ a hb (by rw [ha]; rw [ha'] at hunknown; exact hunknown)
    rw [ha] at halone
    rw [ha']
    exact halone
  · rw [ha] at hmet
    rw [ha']
    exact fun hbudget => (hmet.ram hbudget).1

end Clock

/-! ### Time lets processes go -/

theorem isEvictable_later {now now' grace : ℤ} (hle : now ≤ now')
    (h : isEvictable r now grace = true) : isEvictable r now' grace = true := by
  simp only [isEvictable, withinGrace, and_eq_true, not_eq_true', and_eq_false_iff,
    decide_eq_false_iff_not] at h ⊢
  refine ⟨h.1,h.2.imp_right fun hage => ?_⟩
  simp only [sub] at hage ⊢
  omega

theorem isEvictable_off {now grace : ℤ} (h : isEvictable r now grace = true) (now' : ℤ) :
    isEvictable r now' 0 = true := by
  simp only [isEvictable, withinGrace, and_eq_true] at h ⊢
  exact ⟨h.1,by simp⟩

theorem isEvictable_expired {now now' grace : ℤ} (hgrace : grace < maxDuration)
    (hage : r.lastUsed+grace < now') (hpos : 0 < grace) (h : isEvictable r now 0 = true) :
    isEvictable r now' grace = true := by
  simp only [isEvictable, withinGrace, and_eq_true] at h ⊢
  refine ⟨h.1,?_⟩
  have hout : ¬sub now' r.lastUsed ≤ grace := by
    simp only [sub, maxDuration, minDuration] at hgrace ⊢
    omega
  simp [hout]

theorem exists_expired (rs : List RunningProc) (grace now : ℤ) :
    ∃ now', now ≤ now' ∧ ∀ r ∈ rs, r.lastUsed+grace < now' := by
  induction rs with
  | nil => exact ⟨now,le_rfl,fun r hr => absurd hr not_mem_nil⟩
  | cons r rs ih =>
    obtain ⟨now',hle,hall⟩ := ih
    refine ⟨max now' (r.lastUsed+grace+1),le_max_of_le_left hle,?_⟩
    intro o ho
    rcases mem_cons.mp ho with rfl | ho
    · omega
    · have := hall o ho
      omega

/-! ### The answers -/

theorem proceeds_open (hopen : snap.noEvict = false) : Proceeds (admitSpec ρ snap spec) ↔
      refusal ρ snap spec = none ∧ (afterRules ρ (newAdmission snap spec)).blocked = false := by
  rw [Proceeds, admitSpec_open ρ snap spec hopen]
  rcases admitSteps_cases ρ snap spec with ⟨dec,hr,hd,ht⟩ | ⟨_,hb,hok,he,_⟩ | ⟨hr,hb,_,hd⟩ | ⟨hr,hb,hk,hd⟩
  · simp [hd, hr, ht.ok, ht.evict]
  · simp [hok, he, hb]
  · simp [hd, hr, hb]
  · rw [hd]
    refine iff_of_true (.inr fun hnil => hk ?_) ⟨hr,hb⟩
    have hlength := (victims_perm ρ (afterRules ρ (newAdmission snap spec))).length_eq
    rw [map_eq_nil_iff.mp hnil, length_map, length_nil] at hlength
    rw [AList.keys, keys, length_map, ← hlength]

theorem wait_open :
    (admitSpec ρ snap spec).wait = true ↔ snap.noEvict = false ∧ refusal ρ snap spec = none ∧
      (afterRules ρ (newAdmission snap spec)).blocked = true := by
  cases hopen : snap.noEvict with
  | true => simp [(noEvict_answer ρ snap spec hopen).2]
  | false =>
    rw [admitSpec_open ρ snap spec hopen]
    rcases admitSteps_cases ρ snap spec with ⟨dec,hr,hd,ht⟩ | ⟨hr,hb,_,_,hw,_⟩ | ⟨_,hb,_,hd⟩ | ⟨_,hb,_,hd⟩
    · simp [hd, hr, ht.wait]
    · simp [hr, hb, hw]
    · simp [hd, hb]
    · simp [hd, hb]

theorem refusal_withClock (now grace : ℤ) :
    refusal ρ (withClock snap now grace) spec = refusal ρ snap spec := rfl

/-- A wait is blamed on the window when the rules do not block without it. -/
theorem waitOnGrace_iff (hgrace : 0 < snap.evictionGrace)
    (hw : (admitSpec ρ snap spec).wait = true) : (admitSpec ρ snap spec).waitOnGrace = true ↔
      (afterRules ρ (newAdmission (withClock snap snap.now 0) spec)).blocked = false := by
  obtain ⟨hopen,hr,hb⟩ := (wait_open ρ snap spec).mp hw
  have hsame := reach_sameInput _ _ (afterRules_reach ρ (newAdmission snap spec))
  have hsnap : (newAdmission snap spec).snap = snap := rfl
  have hspec : (newAdmission snap spec).spec = spec := rfl
  have hoff : refusal ρ.rerun (withClock snap snap.now 0) spec = none := by
    rw [AdmissionRanges.refusal_range ρ.rerun ρ, refusal_withClock, hr]
  rw [admitSpec_open ρ snap spec hopen, admitSteps, rulePipeline_eq, hr]
  dsimp only
  rw [Admission.decide, if_pos hb]
  dsimp only
  rw [blockedSolelyByGrace, hsame.snap, hsame.spec, hsnap, hspec, if_neg (not_le.mpr hgrace)]
  rw [show { snap with evictionGrace := 0 } = withClock snap snap.now 0 from rfl, admitStepsGraceOff,
    rulePipeline_eq, hoff]
  dsimp only
  rw [AdmissionRanges.afterRules_range ρ.rerun ρ, Admission.decide]
  split
  · next hblocked => simp [hblocked]
  next hblocked =>
  split
  · simp [hblocked]
  · simp [hblocked]

/-- An answer that proceeds keeps proceeding, and a wait is blamed on a window shorter
than the longest duration exactly when it ends by itself. -/
theorem grace_runs_out (ρ ρ' : Ranges) (snap : PolicySnapshot) (spec : Spec)
    (hreg : Regular snap spec (others snap spec)) (hu : Uniform snap.running)
    (hgrace : 0 < snap.evictionGrace) :
    (∀ now, snap.now ≤ now → Proceeds (admitSpec ρ snap spec) →
      Proceeds (admitSpec ρ' { snap with now := now } spec)) ∧
    (snap.evictionGrace < maxDuration → (admitSpec ρ snap spec).wait = true →
      ((admitSpec ρ snap spec).waitOnGrace = true ↔
        ∃ now, snap.now ≤ now ∧ (admitSpec ρ' { snap with now := now } spec).wait = false)) := by
  have hself : withClock snap snap.now snap.evictionGrace = snap := rfl
  have hrange : ∀ now, admitSpec ρ' { snap with now := now } spec =
      admitSpec ρ (withClock snap now snap.evictionGrace) spec :=
        fun now => AdmissionRanges.admitSpec_range ρ' ρ _ spec
  constructor
  · intro now hle hproceeds
    rw [hrange]
    cases hopen : snap.noEvict with
    | false =>
      obtain ⟨hr,hb⟩ := (proceeds_open ρ snap spec hopen).mp hproceeds
      refine (proceeds_open ρ (withClock snap now snap.evictionGrace) spec hopen).mpr ⟨hr,?_⟩
      rw [← hself] at hb
      exact unblocked_of_more ρ hreg hu (fun r _ => isEvictable_later hle) hb
    | true =>
      have hok : (admitSpec ρ snap spec).ok = true :=
        hproceeds.resolve_right fun hevict => hevict (noEvict_answer ρ snap spec hopen).1
      have hmet := (ok_iff_met ρ snap spec hreg).mp hok
      refine .inl ((ok_iff_met ρ _ spec (regular_withClock hreg now snap.evictionGrace)).mpr ?_)
      exact ⟨hmet.matrix,hmet.alone,hmet.measured,hmet.cards,hmet.ram,hmet.count⟩
  · intro hshort hw
    obtain ⟨hopen,hr,hb⟩ := (wait_open ρ snap spec).mp hw
    have hwait : ∀ now, (admitSpec ρ' { snap with now := now } spec).wait = false ↔
        (afterRules ρ (newAdmission (withClock snap now snap.evictionGrace) spec)).blocked = false := by
      intro now
      have hiff := wait_open ρ (withClock snap now snap.evictionGrace) spec
      rw [refusal_withClock, hr] at hiff
      rw [hrange, ← not_eq_true, hiff, ← not_eq_true (blocked _)]
      exact not_congr ⟨fun h => h.2.2,fun h => ⟨hopen,rfl,h⟩⟩
    rw [waitOnGrace_iff ρ snap spec hgrace hw]
    constructor
    · intro hoff
      obtain ⟨now,hle,hexpired⟩ := exists_expired snap.running snap.evictionGrace snap.now
      refine ⟨now,hle,(hwait now).mpr ?_⟩
      exact unblocked_of_more ρ hreg hu (fun r hr => isEvictable_expired hshort (hexpired r hr) hgrace) hoff
    · rintro ⟨now,-,hends⟩
      exact unblocked_of_more ρ hreg hu (fun r _ h => isEvictable_off h snap.now) ((hwait now).mp hends)

def recentlyUsed (grace : ℤ) : PolicySnapshot where
  running := [{ specID := "b", spec := "b", gpus := (∅ : IntMap).insert 0 6000 }]
  now := 5
  evictionGrace := grace
  budgets := (∅ : IntMap).insert 0 10000
  allowed := (∅ : AList (fun _ : String × String => Bool)).insert ("a", "b") true

theorem recentlyUsed_uniform (grace : ℤ) : Uniform (recentlyUsed grace).running :=
  uniform_of_bases _ (nodup_singleton _)

theorem grace_runs_out_recently_used :
    (admitSpec (RangeOrder.listed Site) (recentlyUsed 10) sharedCandidate).wait = true ∧
      ∃ now, (recentlyUsed 10).now ≤ now ∧
        (admitSpec (RangeOrder.listed Site) { recentlyUsed 10 with now := now }
          sharedCandidate).wait = false := by
  have hw : (admitSpec (RangeOrder.listed Site) (recentlyUsed 10) sharedCandidate).wait = true := by
    decide +kernel
  have hgrace :
      (admitSpec (RangeOrder.listed Site) (recentlyUsed 10) sharedCandidate).waitOnGrace = true := by
    decide +kernel
  have hruns := grace_runs_out (RangeOrder.listed Site) (RangeOrder.listed Site) (recentlyUsed 10)
    sharedCandidate ⟨by decide,by decide,by decide,by decide⟩ (recentlyUsed_uniform 10) (by decide)
  exact ⟨hw,(hruns.2 (by decide) hw).mp hgrace⟩

/-- Behind a window as long as the longest duration a wait is blamed on the window,
yet no instant ends it. -/
theorem longest_grace_never_ends :
    (admitSpec (RangeOrder.listed Site) (recentlyUsed maxDuration) sharedCandidate).wait = true ∧
      (admitSpec (RangeOrder.listed Site) (recentlyUsed maxDuration) sharedCandidate).waitOnGrace = true ∧
      ∀ now, (admitSpec (RangeOrder.listed Site) { recentlyUsed maxDuration with now := now }
        sharedCandidate).wait = true := by
  have hw : (admitSpec (RangeOrder.listed Site) (recentlyUsed maxDuration) sharedCandidate).wait = true := by
    decide +kernel
  refine ⟨hw,by decide +kernel,?_⟩
  intro now
  obtain ⟨hopen,hr,hb⟩ := (wait_open (RangeOrder.listed Site) _ _).mp hw
  refine (wait_open _ (withClock (recentlyUsed maxDuration) now maxDuration) _).mpr ⟨hopen,hr,?_⟩
  by_contra hunblocked
  rw [not_eq_true] at hunblocked
  have hnever : ∀ r now, isEvictable r now maxDuration = false := by
    intro r now
    have hinside : sub now r.lastUsed ≤ maxDuration := by
      simp only [sub, maxDuration, minDuration]
      omega
    have hpos : 0 < maxDuration := by decide
    simp [isEvictable, withinGrace, hinside, hpos]
  have hblocked : (afterRules (RangeOrder.listed Site)
      (newAdmission (withClock (recentlyUsed maxDuration) 5 maxDuration) sharedCandidate)).blocked = false :=
    unblocked_of_more _ ⟨by decide,by decide,by decide,by decide⟩ (recentlyUsed_uniform maxDuration)
      (fun r _ h => absurd h (by rw [hnever]; exact false_ne_true)) hunblocked
  exact absurd (hb.symm.trans hblocked) true_eq_false.mp

end OnPremGateway.AdmissionGrace
