import OnPremGateway.EnergyEngine
import OnPremGateway.SharedLoad

/-!
# Measured power is shared exactly

Each request cuts its own window where the power or the number of requests changes,
and takes its part of every piece. Over all the requests of a server the parts are the
energy the server drew while it served any of them.
-/

set_option autoImplicit false

namespace OnPremGateway.EnergySharing
open EnergyEngine List

/-! ### Spans of a sorted list -/

theorem sum_spans (f : ℤ → ℚ) (a : ℤ) (l : List ℤ) (h : (a::l).Pairwise (· < ·)) :
    (((a::l).zip l).map fun p => ∑ k ∈ Finset.Ico p.1 p.2, f k).sum =
      ∑ k ∈ Finset.Ico a ((a::l).getLast (List.cons_ne_nil a l)), f k := by
  induction l generalizing a with
  | nil => simp
  | cons b l ih =>
    obtain ⟨hfirst,hrest⟩ := pairwise_cons.mp h
    have hlast : b ≤ (b::l).getLast (cons_ne_nil b l) :=
      (hrest.imp le_of_lt).rel_getLast mem_cons_self
    rw [zip_cons_cons, map_cons, sum_cons, ih b hrest, getLast_cons (cons_ne_nil b l),
      sum_Ico_split f (hfirst b mem_cons_self).le hlast]

/-- Nothing of the list lies between neighbours. -/
theorem gap_of_mem_zip {l : List ℤ} (h : l.Pairwise (· < ·)) {a b : ℤ} (hab : (a,b) ∈ l.zip l.tail) :
    a < b ∧ a ∈ l ∧ b ∈ l ∧ ∀ x ∈ l, x ≤ a ∨ b ≤ x := by
  induction l with
  | nil => cases hab
  | cons c l ih =>
    obtain ⟨hfirst,hrest⟩ := pairwise_cons.mp h
    cases l with
    | nil => cases hab
    | cons d l =>
      rw [tail_cons, zip_cons_cons, mem_cons] at hab
      rcases hab with heq | hab
      · rw [Prod.mk.injEq] at heq
        obtain ⟨rfl,rfl⟩ := heq
        refine ⟨hfirst b mem_cons_self,mem_cons_self,mem_cons_of_mem a mem_cons_self,?_⟩
        intro x hx
        rcases mem_cons.mp hx with rfl | hx
        · exact .inl le_rfl
        · rcases mem_cons.mp hx with rfl | hx
          · exact .inr le_rfl
          · exact .inr ((pairwise_cons.mp hrest).1 x hx).le
      · obtain ⟨hlt,ha,hb,hgap⟩ := ih hrest hab
        refine ⟨hlt,mem_cons_of_mem c ha,mem_cons_of_mem c hb,?_⟩
        intro x hx
        rcases mem_cons.mp hx with rfl | hx
        · exact .inl (hfirst a ha).le
        · exact hgap x hx

theorem sorted_dedup (l : List ℤ) : (l.insertionSort (· ≤ ·)).dedup.Pairwise (· < ·) := by
  have hle : (l.insertionSort (· ≤ ·)).dedup.Pairwise (· ≤ ·) :=
    (pairwise_insertionSort (· ≤ ·) l).sublist (dedup_sublist _)
  exact (hle.and (nodup_dedup _)).imp fun h => lt_of_le_of_ne h.1 h.2

variable {k start stop : ℤ} {siblings : List Event} {c : Interval}

/-- The spans of the sorted bounds of a window make up the window. -/
theorem sum_window {bounds : List ℤ} (hstart : start ∈ bounds) (hstop : stop ∈ bounds)
    (hin : ∀ t ∈ bounds, start ≤ t ∧ t ≤ stop) (f : ℤ → ℚ) :
    (((bounds.insertionSort (· ≤ ·)).dedup.zip (bounds.insertionSort (· ≤ ·)).dedup.tail).map
      fun p => ∑ k ∈ Finset.Ico p.1 p.2, f k).sum = ∑ k ∈ Finset.Ico start stop, f k := by
  have hmem : ∀ t, t ∈ (bounds.insertionSort (· ≤ ·)).dedup ↔ t ∈ bounds := by
    intro t
    rw [mem_dedup, mem_insertionSort]
  have hsorted := sorted_dedup bounds
  cases hl : (bounds.insertionSort (· ≤ ·)).dedup with
  | nil =>
    rw [← hmem, hl] at hstart
    cases hstart
  | cons a l =>
    rw [hl] at hsorted hmem
    have hle := hsorted.imp (S := (· ≤ ·)) le_of_lt
    have hfirst : a = start := by
      apply le_antisymm
      · exact hle.rel_head ((hmem start).mpr hstart)
      · exact (hin a ((hmem a).mp mem_cons_self)).1
    have hlast : (a::l).getLast (cons_ne_nil a l) = stop := by
      apply le_antisymm
      · exact (hin _ ((hmem _).mp (getLast_mem _))).2
      · exact hle.rel_getLast ((hmem stop).mpr hstop)
    rw [tail_cons, sum_spans f a l hsorted, hlast, hfirst]

/-! ### The power at a moment -/

/-- Each sample holds until the next, the first also before, the last also after. -/
noncomputable def stepPower (pue : ℚ) : List Sample → ℝ → ℚ
  | [], _ => 0
  | [s], _ => serverPowerW s pue
  | s::next::rest, t => if t < next.reportedAt then serverPowerW s pue else stepPower pue (next::rest) t

def holds (k : ℤ) (s : PowerStep) : Bool := s.start ≤ k ∧ k < s.stop

def counts (k : ℤ) (c : Interval) : Bool := c.start ≤ k ∧ k < c.stop

theorem find_buildPowerSteps (pue : ℚ) (first : Bool) (s : Sample) (rest : List Sample)
    (hk : (if first then start else max start s.reportedAt) ≤ k) (hstop : k < stop) :
    ∃ step, (buildPowerSteps start stop pue first (s::rest)).find? (holds k) = some step ∧
      step.watts = stepPower pue (s::rest) k := by
  induction rest generalizing first s with
  | nil =>
    have hlt : ¬stop ≤ (if first then start else max start s.reportedAt) := by omega
    refine ⟨⟨if first then start else max start s.reportedAt,stop,serverPowerW s pue⟩,?_,rfl⟩
    simp [buildPowerSteps, hlt, holds, hk, hstop]
  | cons next rest ih =>
    have hstep : ∀ lo hi, hi ≤ k →
        (if hi ≤ lo then [] else [(⟨lo,hi,serverPowerW s pue⟩ : PowerStep)]).find? (holds k) =
          none := by
      intro lo hi hle
      split
      · rfl
      · simp [holds, hle]
    rw [buildPowerSteps, head?_cons, Option.map_some, Option.getD_some, find?_append]
    by_cases hnext : k < next.reportedAt
    · have hlt : ¬min stop next.reportedAt ≤ (if first then start else max start s.reportedAt) := by
        have hmin : k < min stop next.reportedAt := lt_min hstop hnext
        omega
      refine ⟨⟨if first then start else max start s.reportedAt,
        min stop next.reportedAt,serverPowerW s pue⟩,?_,?_⟩
      · rw [if_neg hlt, find?_singleton]
        simp [holds, hk, hstop, hnext]
      · rw [stepPower, if_pos (Int.cast_lt.mpr hnext)]
    have hnone := hstep (if first then start else max start s.reportedAt) (min stop next.reportedAt)
      ((min_le_right _ _).trans (not_lt.mp hnext))
    rw [hnone, Option.none_or, stepPower, if_neg (fun h => hnext (Int.cast_lt.mp h))]
    apply ih false next
    rw [if_neg Bool.false_ne_true]
    refine max_le ?_ (not_lt.mp hnext)
    cases first with
    | true => exact hk
    | false => exact (le_max_left _ _).trans hk

theorem buildPowerSteps_bounds (pue : ℚ) (hstart : millisecond ∣ start) (hstop : millisecond ∣ stop)
    (samples : List Sample) (first : Bool) (hwhole : ∀ s ∈ samples, millisecond ∣ s.reportedAt) :
    ∀ x ∈ buildPowerSteps start stop pue first samples, ∀ t ∈ [x.start,x.stop],
      (start ≤ t ∧ t ≤ stop) ∧ millisecond ∣ t := by
  induction samples generalizing first with
  | nil => exact fun x hx => absurd hx not_mem_nil
  | cons s rest ih =>
    intro x hx t ht
    rw [buildPowerSteps] at hx
    rcases mem_append.mp hx with hx | hx
    · obtain ⟨lo,hlo⟩ : ∃ lo, lo = if first then start else max start s.reportedAt := ⟨_,rfl⟩
      obtain ⟨hi,hhi⟩ : ∃ hi, hi = min stop ((rest.head?.map Sample.reportedAt).getD stop) := ⟨_,rfl⟩
      rw [← hlo, ← hhi] at hx
      have hstart' : start ≤ lo := by
        rw [hlo]
        split
        · exact le_rfl
        · exact le_max_left _ _
      have hstop' : hi ≤ stop := hhi ▸ min_le_left _ _
      have hlowhole : millisecond ∣ lo := by
        rw [hlo]
        split
        · exact hstart
        rcases max_choice start s.reportedAt with h | h
        · rw [h]
          exact hstart
        · rw [h]
          exact hwhole s mem_cons_self
      have hhiwhole : millisecond ∣ hi := by
        have hnext : millisecond ∣ (rest.head?.map Sample.reportedAt).getD stop := by
          cases rest with
          | nil => exact hstop
          | cons next rest => exact hwhole next (by simp)
        rw [hhi]
        rcases min_choice stop ((rest.head?.map Sample.reportedAt).getD stop) with h | h
        · rw [h]
          exact hstop
        · rw [h]
          exact hnext
      split at hx
      · cases hx
      next hlt =>
      rw [mem_singleton] at hx
      subst hx
      simp only [mem_cons, not_mem_nil, or_false] at ht
      rcases ht with rfl | rfl
      · exact ⟨⟨hstart',by omega⟩,hlowhole⟩
      · exact ⟨⟨by omega,hstop'⟩,hhiwhole⟩
    · exact ih false (fun y hy => hwhole y (mem_cons_of_mem s hy)) x hx t ht

/-! ### The number of requests at a moment -/

theorem find_pieces (hstop : millisecond ∣ stop) (a : ℤ) (cuts : List ℤ)
    (hcuts : CutsOf siblings a stop cuts) (hk : a ≤ k) (hkstop : k < stop) :
    ∃ c, (pieces siblings stop a cuts).find? (counts k) = some c ∧ c.n = seenAt siblings k := by
  have hpiece : ∀ a b, millisecond ∣ a → millisecond ∣ b → a ≤ k → k < b →
      (∀ sib ∈ siblings, ∀ t ∈ [sib.start,sib.createdAt], t ≤ a ∨ b ≤ t) →
      ∃ c, (piece siblings a b).find? (counts k) = some c ∧ c.n = seenAt siblings k := by
    intro a b ha hb hak hkb hclear
    have hmid := midpoint_between ha hb (by omega)
    rw [piece, if_neg (by omega)]
    refine ⟨_,find?_singleton.trans (if_pos (by simp [counts, hak, hkb])),?_⟩
    rw [seenAt, ← countP_midpoint hmid hclear ⟨hak,hkb⟩, add_comm]
  induction cuts generalizing a with
  | nil =>
    rw [pieces]
    apply hpiece a stop (hcuts.whole a mem_cons_self) hstop hk hkstop
    intro sib hsib t ht
    by_contra hbetween
    have hmem := hcuts.all sib hsib t ht (by omega) (by omega)
    cases hmem
  | cons b cuts ih =>
    obtain ⟨hfirst,hrest⟩ := pairwise_cons.mp hcuts.sorted
    have hab : a ≤ b := hfirst b mem_cons_self
    have hb : b ≤ stop := hcuts.inside b (by simp)
    rw [pieces, find?_append]
    by_cases hkb : k < b
    · have hclear : ∀ sib ∈ siblings, ∀ t ∈ [sib.start,sib.createdAt], t ≤ a ∨ b ≤ t := by
        intro sib hsib t ht
        by_contra hbetween
        rcases mem_cons.mp (hcuts.all sib hsib t ht (by omega) (by omega)) with rfl | hmem
        · omega
        · have := (pairwise_cons.mp hrest).1 t hmem
          omega
      obtain ⟨c,hfound,hn⟩ := hpiece a b (hcuts.whole a mem_cons_self) (hcuts.whole b (by simp)) hk hkb hclear
      exact ⟨c,by rw [hfound]; rfl,hn⟩
    have hnone : (piece siblings a b).find? (counts k) = none := by
      rw [piece]
      split
      · rfl
      · simp [counts, not_lt.mp hkb]
    rw [hnone, Option.none_or]
    refine ih b ⟨hrest,?_,?_,?_⟩ (not_lt.mp hkb)
    · exact fun t ht => hcuts.whole t (mem_cons_of_mem a ht)
    · exact fun t ht => hcuts.inside t (mem_cons_of_mem a ht)
    · intro sib hsib t ht hbt htstop
      have hmem := hcuts.all sib hsib t ht (by omega) htstop
      exact (mem_cons.mp hmem).resolve_left (by omega)

theorem pieces_bounds (a : ℤ) (cuts : List ℤ) (hc : c ∈ pieces siblings stop a cuts) :
    c.start ∈ a::cuts ∧ (c.stop ∈ cuts ∨ c.stop = stop) := by
  have hpiece : ∀ a b, c ∈ piece siblings a b → c.start = a ∧ c.stop = b := by
    intro a b hc
    rw [piece] at hc
    split at hc
    · cases hc
    · rw [mem_singleton.mp hc]
      exact ⟨rfl,rfl⟩
  induction cuts generalizing a with
  | nil =>
    obtain ⟨hstart,hstop⟩ := hpiece a stop hc
    exact ⟨mem_cons.mpr (.inl hstart),.inr hstop⟩
  | cons b cuts ih =>
    rcases mem_append.mp hc with hc | hc
    · obtain ⟨hstart,hstop⟩ := hpiece a b hc
      exact ⟨mem_cons.mpr (.inl hstart),.inl (mem_cons.mpr (.inl hstop))⟩
    · obtain ⟨hstart,hstop⟩ := ih b hc
      exact ⟨mem_cons_of_mem a hstart,hstop.imp_left (mem_cons_of_mem b)⟩

/-! ### One request -/

section Request

variable {start stop : ℤ} {sorted : List Sample} {siblings : List Event} (pue : ℚ)
variable (hlt : start < stop) (hstart : millisecond ∣ start) (hstop : millisecond ∣ stop)
variable (hsome : sorted ≠ []) (hsamples : ∀ s ∈ sorted, millisecond ∣ s.reportedAt)
variable (hwhole : ∀ sib ∈ siblings, sib.Whole)

def boundsOf (steps : List PowerStep) (cc : List Interval) : List ℤ :=
  (steps.flatMap fun s => [s.start,s.stop]) ++ cc.flatMap fun c => [c.start,c.stop]

theorem step_mem_boundsOf {steps : List PowerStep} (cc : List Interval) {s : PowerStep} (hs : s ∈ steps) :
    s.start ∈ boundsOf steps cc ∧ s.stop ∈ boundsOf steps cc := by
  constructor
  · exact mem_append_left _ (mem_flatMap.mpr ⟨s,hs,by simp⟩)
  · exact mem_append_left _ (mem_flatMap.mpr ⟨s,hs,by simp⟩)

theorem interval_mem_boundsOf {steps : List PowerStep} {cc : List Interval} (hc : c ∈ cc) :
    c.start ∈ boundsOf steps cc ∧ c.stop ∈ boundsOf steps cc := by
  constructor
  · exact mem_append_right _ (mem_flatMap.mpr ⟨c,hc,by simp⟩)
  · exact mem_append_right _ (mem_flatMap.mpr ⟨c,hc,by simp⟩)

include hsome in
theorem find_step (hk : start ≤ k) (hkstop : k < stop) :
    ∃ step, (buildPowerSteps start stop pue true sorted).find? (holds k) = some step ∧
      step.watts = stepPower pue sorted k := by
  obtain ⟨s,rest,rfl⟩ := exists_cons_of_ne_nil hsome
  exact find_buildPowerSteps pue true s rest hk hkstop

include hlt hstart hstop hwhole in
theorem find_interval (hk : start ≤ k) (hkstop : k < stop) :
    ∃ c, (concurrencyBreakpoints start stop siblings).find? (counts k) = some c ∧
      c.n = seenAt siblings k := by
  rw [concurrencyBreakpoints, if_neg (not_le.mpr hlt)]
  exact find_pieces hstop start _ (cutsOf_sorted hlt hstart hwhole) hk hkstop

include hlt hstart hstop hwhole in
theorem concurrencyBreakpoints_bounds (hc : c ∈ concurrencyBreakpoints start stop siblings) :
    ∀ t ∈ [c.start,c.stop], (start ≤ t ∧ t ≤ stop) ∧ millisecond ∣ t := by
  intro t ht
  have hcuts := cutsOf_sorted hlt hstart hwhole
  rw [concurrencyBreakpoints, if_neg (not_le.mpr hlt)] at hc
  obtain ⟨hfrom,hto⟩ := pieces_bounds start _ hc
  have hmem : t ∈ start::(siblings.flatMap (cutsOf start stop)).insertionSort (· ≤ ·) ∨ t = stop := by
    simp only [mem_cons, not_mem_nil, or_false] at ht
    rcases ht with rfl | rfl
    · exact .inl hfrom
    · exact hto.imp_left (mem_cons_of_mem start)
  rcases hmem with hmem | rfl
  · refine ⟨⟨?_,hcuts.inside t hmem⟩,hcuts.whole t hmem⟩
    rcases mem_cons.mp hmem with rfl | hmem
    · exact le_rfl
    · exact (pairwise_cons.mp hcuts.sorted).1 t hmem
  · exact ⟨⟨hlt.le,le_rfl⟩,hstop⟩

include hlt hstart hstop hsome hsamples hwhole in
/-- The bounds of a window's steps and stretches run from its start to its end. -/
theorem boundsOf_window :
    let bounds :=
      boundsOf (buildPowerSteps start stop pue true sorted) (concurrencyBreakpoints start stop siblings)
    start ∈ bounds ∧ stop ∈ bounds ∧ ∀ t ∈ bounds, (start ≤ t ∧ t ≤ stop) ∧ millisecond ∣ t := by
  have hsteps := buildPowerSteps_bounds pue hstart hstop sorted true hsamples
  refine ⟨?_,?_,?_⟩
  · obtain ⟨s,hfound,-⟩ := find_step pue hsome le_rfl hlt
    have hs := mem_of_find?_eq_some hfound
    have hin := (hsteps s hs s.start (by simp)).1
    have hcontains : s.start ≤ start ∧ start < s.stop := by simpa [holds] using find?_some hfound
    have hmem := (step_mem_boundsOf (concurrencyBreakpoints start stop siblings) hs).1
    rwa [le_antisymm hcontains.1 hin.1] at hmem
  · have hend : start ≤ stop-1 := by omega
    obtain ⟨s,hfound,-⟩ := find_step pue hsome hend (sub_one_lt stop)
    have hs := mem_of_find?_eq_some hfound
    have hin := (hsteps s hs s.stop (by simp)).1
    have hcontains : s.start ≤ stop-1 ∧ stop-1 < s.stop := by simpa [holds] using find?_some hfound
    have heq : s.stop = stop := by omega
    exact heq ▸ (step_mem_boundsOf _ hs).2
  · intro t ht
    rcases mem_append.mp ht with ht | ht
    · obtain ⟨s,hs,ht⟩ := mem_flatMap.mp ht
      exact hsteps s hs t ht
    · obtain ⟨c,hc,ht⟩ := mem_flatMap.mp ht
      exact concurrencyBreakpoints_bounds hlt hstart hstop hwhole hc t ht

include hlt hstart hstop hsome hwhole in
/-- Between neighbouring bounds the midpoint stands for every nanosecond. -/
theorem span_value {a b : ℤ} (ha : start ≤ a) (hb : b ≤ stop)
    (hmid : a < midpoint a b ∧ midpoint a b < b)
    (hgap : ∀ t ∈ boundsOf (buildPowerSteps start stop pue true sorted)
      (concurrencyBreakpoints start stop siblings),
      t ≤ a ∨ b ≤ t) (hk : a ≤ k ∧ k < b) :
    stepPower pue sorted k = powerAt (buildPowerSteps start stop pue true sorted) a b ∧
      seenAt siblings k = concurrencyAt (concurrencyBreakpoints start stop siblings) a b := by
  obtain ⟨steps,hsteps⟩ : ∃ steps, steps = buildPowerSteps start stop pue true sorted := ⟨_,rfl⟩
  obtain ⟨cc,hcc⟩ : ∃ cc, cc = concurrencyBreakpoints start stop siblings := ⟨_,rfl⟩
  obtain ⟨s,hfound,hs⟩ := find_step pue hsome (ha.trans hk.1) (hk.2.trans_le hb)
  obtain ⟨c,hcounted,hc⟩ := find_interval hlt hstart hstop hwhole (ha.trans hk.1) (hk.2.trans_le hb)
  rw [← hsteps] at hfound hgap ⊢
  rw [← hcc] at hcounted hgap ⊢
  have hpowerSame : steps.find? (holds (midpoint a b)) = steps.find? (holds k) := by
    apply find?_congr
    intro x hx
    have hfrom := hgap x.start (step_mem_boundsOf cc hx).1
    have hto := hgap x.stop (step_mem_boundsOf cc hx).2
    exact decide_eq_decide.mpr (by omega)
  have hcountSame : cc.find? (counts (midpoint a b)) = cc.find? (counts k) := by
    apply find?_congr
    intro x hx
    have hfrom := hgap x.start (interval_mem_boundsOf hx).1
    have hto := hgap x.stop (interval_mem_boundsOf hx).2
    exact decide_eq_decide.mpr (by omega)
  have hpowerAt : powerAt steps a b = ((steps.find? (holds (midpoint a b))).map PowerStep.watts).getD 0 := rfl
  have hcountAt : concurrencyAt cc a b = ((cc.find? (counts (midpoint a b))).map Interval.n).getD 1 := rfl
  rw [hpowerAt, hpowerSame, hfound, hcountAt, hcountSame, hcounted]
  exact ⟨hs.symm,hc.symm⟩

/-- What a request is charged of a power, nanosecond by nanosecond. -/
noncomputable def charge (pue : ℚ) (sorted : List Sample) (siblings : List Event) (g : ℚ → ℚ) (k : ℤ) : ℚ :=
  g (stepPower pue sorted k)/(seenAt siblings k : ℚ)/(3600*second)

include hlt hstart hstop hsome hsamples hwhole in
theorem sum_shared_spans (g : ℚ → ℚ) : let steps := buildPowerSteps start stop pue true sorted
    let cc := concurrencyBreakpoints start stop siblings
    let uniq := ((boundsOf steps cc).insertionSort (· ≤ ·)).dedup
    ((uniq.zip uniq.tail).map fun p =>
      shareOf (g (powerAt steps p.1 p.2)) (concurrencyAt cc p.1 p.2) p.1 p.2).sum =
      ∑ k ∈ Finset.Ico start stop, charge pue sorted siblings g k := by
  intro steps cc uniq
  obtain ⟨hfirst,hlast,hbounds⟩ := boundsOf_window pue hlt hstart hstop hsome hsamples hwhole
  have hmem : ∀ t, t ∈ uniq ↔ t ∈ boundsOf steps cc := by
    intro t
    rw [mem_dedup, mem_insertionSort]
  rw [← sum_window hfirst hlast fun t ht => (hbounds t ht).1]
  apply congrArg sum
  apply map_congr_left
  rintro ⟨a,b⟩ hspan
  obtain ⟨hab,ha,hb,hgap⟩ := gap_of_mem_zip (sorted_dedup (boundsOf steps cc)) hspan
  obtain ⟨⟨hastart,-⟩,hawhole⟩ := hbounds a ((hmem a).mp ha)
  obtain ⟨⟨-,hbstop⟩,hbwhole⟩ := hbounds b ((hmem b).mp hb)
  have hvalue : ∀ k ∈ Finset.Ico a b, stepPower pue sorted k = powerAt steps a b ∧
      seenAt siblings k = concurrencyAt cc a b := by
    intro k hk
    exact span_value pue hlt hstart hstop hsome hwhole hastart hbstop
      (midpoint_between hawhole hbwhole hab) (fun t ht => hgap t ((hmem t).mpr ht)) (Finset.mem_Ico.mp hk)
  have hone : 1 ≤ concurrencyAt cc a b := by
    rw [← (hvalue a (Finset.mem_Ico.mpr ⟨le_rfl,hab⟩)).2]
    exact Nat.succ_pos _
  have hsame : ∀ k ∈ Finset.Ico a b, charge pue sorted siblings g k =
      g (powerAt steps a b)/(concurrencyAt cc a b : ℚ)/(3600*second) := by
    intro k hk
    rw [charge, (hvalue k hk).1, (hvalue k hk).2]
  have hlen : (((b-a).toNat : ℕ) : ℚ) = ((b-a : ℤ) : ℚ) := by
    exact_mod_cast Int.toNat_of_nonneg (by omega)
  rw [Finset.sum_congr rfl hsame, Finset.sum_const, Int.card_Ico, nsmul_eq_mul, hlen, shareOf, atLeastOne,
    if_neg (not_lt.mpr hone), seconds]
  ring

end Request

theorem stepPower_pos {pue : ℚ} {sorted : List Sample} (hsome : sorted ≠ [])
    (hpower : ∀ s ∈ sorted, 0 < serverPowerW s pue) (t : ℝ) : 0 < stepPower pue sorted t := by
  induction sorted with
  | nil => exact absurd rfl hsome
  | cons s rest ih =>
    cases rest with
    | nil => exact hpower s mem_cons_self
    | cons next rest =>
      rw [stepPower]
      split
      · exact hpower s mem_cons_self
      · exact ih (cons_ne_nil _ _) fun x hx => hpower x (mem_cons_of_mem s hx)

def byTime (samples : List Sample) : List Sample :=
  samples.insertionSort fun a b => a.reportedAt ≤ b.reportedAt

/-- A window that the samples cover is measured. -/
theorem measuredEnergy_eq {samples : List Sample} {pue idleW : ℚ} (hlt : start < stop)
    (hstart : millisecond ∣ start) (hstop : millisecond ∣ stop)
    (hcover : tier1CoverageOK start stop (byTime samples) = true)
    (hsamples : ∀ s ∈ samples, millisecond ∣ s.reportedAt)
    (hpower : ∀ s ∈ samples, 0 < serverPowerW s pue) (hwhole : ∀ sib ∈ siblings, sib.Whole) :
    measuredEnergy start stop samples siblings pue idleW = some
      ⟨∑ k ∈ Finset.Ico start stop, charge pue (byTime samples) siblings id k,
        ∑ k ∈ Finset.Ico start stop,
          charge pue (byTime samples) siblings (fun p => max 0 (p-idleW)) k,.measured⟩ := by
  have hmem : ∀ s, s ∈ byTime samples ↔ s ∈ samples := fun s => mem_insertionSort _
  have hsome : byTime samples ≠ [] := by
    intro hnil
    rw [hnil] at hcover
    cases hcover
  have hsamples' : ∀ s ∈ byTime samples, millisecond ∣ s.reportedAt := fun s hs => hsamples s ((hmem s).mp hs)
  have hpower' : ∀ s ∈ byTime samples, 0 < serverPowerW s pue := fun s hs => hpower s ((hmem s).mp hs)
  have hpos : ∀ k : ℤ, 0 < stepPower pue (byTime samples) k := fun k => stepPower_pos hsome hpower' k
  have hnonneg : ∀ g : ℚ → ℚ, (∀ p, 0 < p → 0 ≤ g p) →
      0 ≤ ∑ k ∈ Finset.Ico start stop, charge pue (byTime samples) siblings g k := by
    intro g hg
    apply Finset.sum_nonneg
    intro k _
    have := hg _ (hpos k)
    have hsecond : (0 : ℚ) < second := by norm_num [second]
    rw [charge]
    positivity
  have hclean : ∀ v : ℚ, 0 ≤ v → cleanNonNeg v = v := fun v hv => if_neg (not_lt.mpr hv)
  have hempty : samples.isEmpty = false := by
    rw [isEmpty_eq_false_iff]
    intro hnil
    rw [hnil] at hsome
    exact hsome rfl
  have hany : ((buildPowerSteps start stop pue true (byTime samples)).all fun s =>
      decide (s.watts ≤ 0)) = false := by
    obtain ⟨s,hfound,hs⟩ := find_step pue hsome le_rfl hlt
    rw [all_eq_false]
    refine ⟨s,mem_of_find?_eq_some hfound,?_⟩
    rw [decide_eq_true_eq, hs]
    exact not_le.mpr (hpos start)
  have htotal := sum_shared_spans pue hlt hstart hstop hsome hsamples' hwhole id
  have hmarginal := sum_shared_spans pue hlt hstart hstop hsome hsamples' hwhole fun p => max 0 (p-idleW)
  have hintegrate : integrateSteps (buildPowerSteps start stop pue true (byTime samples))
      (concurrencyBreakpoints start stop siblings) idleW =
      (∑ k ∈ Finset.Ico start stop, charge pue (byTime samples) siblings id k,
        ∑ k ∈ Finset.Ico start stop, charge pue (byTime samples) siblings (fun p => max 0 (p-idleW)) k) :=
    Prod.ext htotal hmarginal
  have hsorted : samples.insertionSort (fun a b => a.reportedAt ≤ b.reportedAt) = byTime samples := rfl
  simp only [measuredEnergy, hsorted, hempty, hcover, Bool.not_true, Bool.or_self, Bool.false_eq_true,
    if_false, hany, hintegrate]
  rw [hclean _ (hnonneg id fun p hp => hp.le), hclean _ (hnonneg _ fun p _ => le_max_left _ _)]

/-! ### All requests of a server -/

/-- The integral of what is constant on each of some unit cells. -/
theorem integral_cells {f : ℝ → ℝ} (S : Finset ℤ)
    (h : ∀ k ∈ S, ∀ t ∈ Set.Ico (k : ℝ) (k+1), f t = f k) :
    ∫ t in ⋃ k ∈ S, Set.Ico (k : ℝ) (k+1), f t = ∑ k ∈ S, f k := by
  have hcell : ∀ k ∈ S, ∫ t in Set.Ico (k : ℝ) (k+1), f t = f k := by
    intro k hk
    rw [MeasureTheory.setIntegral_congr_fun measurableSet_Ico (h k hk), MeasureTheory.setIntegral_const]
    simp
  rw [MeasureTheory.integral_biUnion_finset S (fun k _ => measurableSet_Ico), Finset.sum_congr rfl hcell]
  · intro j _ k _ hjk
    rw [Function.onFun, Set.disjoint_left]
    intro t hj hk
    apply hjk
    rw [Set.mem_Ico] at hj hk
    exact (Int.floor_eq_iff.mpr hj).symm.trans (Int.floor_eq_iff.mpr hk)
  · intro k hk
    have hconst : MeasureTheory.IntegrableOn (fun _ => f k) (Set.Ico (k : ℝ) (k+1)) :=
      MeasureTheory.integrableOn_const (by simp)
    exact hconst.congr_fun (fun t ht => (h k hk t ht).symm) measurableSet_Ico

theorem stepPower_cell (pue : ℚ) (sorted : List Sample) (k : ℤ) {t : ℝ} (ht : t ∈ Set.Ico (k : ℝ) (k+1)) :
    stepPower pue sorted t = stepPower pue sorted k := by
  have hbefore : ∀ r : ℤ, t < r ↔ (k : ℝ) < r := by
    intro r
    constructor
    · exact fun h => ht.1.trans_lt h
    · intro h
      have hle : k+1 ≤ r := Int.cast_lt.mp h
      exact ht.2.trans_le (by exact_mod_cast hle)
  induction sorted with
  | nil => rfl
  | cons s rest ih =>
    cases rest with
    | nil => rfl
    | cons next rest => simp only [stepPower, hbefore, ih]

/-- The time a server served any of the requests. -/
def served (events : Finset Event) : Set ℝ := ⋃ ev ∈ events, Set.Ico (ev.start : ℝ) ev.createdAt

theorem served_eq (events : Finset Event) :
    served events = ⋃ k ∈ events.biUnion Event.cells, Set.Ico (k : ℝ) (k+1) := by
  ext t
  simp only [served, Set.mem_iUnion, Set.mem_Ico, exists_prop, Finset.mem_biUnion, Event.cells,
    Finset.mem_Ico]
  constructor
  · rintro ⟨ev,hev,hstart,hstop⟩
    exact ⟨⌊t⌋,⟨ev,hev,Int.le_floor.mpr hstart,Int.floor_lt.mpr hstop⟩,Int.floor_le t,Int.lt_floor_add_one t⟩
  · rintro ⟨k,⟨ev,hev,hstart,hstop⟩,hk,hk'⟩
    refine ⟨ev,hev,?_,?_⟩
    · exact (Int.cast_le.mpr hstart).trans hk
    · exact hk'.trans_le (by exact_mod_cast hstop)

section Server

variable (events : Finset Event) (samples : List Sample) (cfg : ServerEnergyConfig)
variable (idleW mappingCoeff sysDefaultWhPerToken : ℚ)

/-- The energy of an event, with all the others as its siblings. -/
noncomputable def energyOf (ev : Event) : EnergyResult :=
  computeEnergy ev samples (events.erase ev).toList cfg idleW mappingCoeff sysDefaultWhPerToken

/-- The samples cover the windows of the requests with power readings. -/
structure Measured : Prop where
  whole : ∀ ev ∈ events, ev.Whole
  samplesWhole : ∀ s ∈ samples, millisecond ∣ s.reportedAt
  power : ∀ s ∈ samples, 0 < serverPowerW s (effectivePue cfg.pue 0)
  covered : ∀ ev ∈ events, ev.start < ev.createdAt →
    tier1CoverageOK ev.start ev.createdAt (byTime samples) = true

variable {events samples cfg} (h : Measured events samples cfg)

theorem seenAt_erase (ev : Event) (k : ℤ) :
    seenAt (events.erase ev).toList k = SharedLoad.seen Event.cells (fun ev => events.erase ev) ev k := by
  have hactive : (events.erase ev).filter (fun sib => k ∈ sib.cells) =
      ((events.erase ev).toList.filter fun sib => decide (k ∈ sib.cells)).toFinset := by
    ext sib
    simp
  rw [seenAt, SharedLoad.seen, hactive, toFinset_card_of_nodup ((Finset.nodup_toList _).filter _),
    countP_eq_length_filter]

include h in
theorem energyOf_eq {ev : Event} (hev : ev ∈ events) (hlt : ev.start < ev.createdAt) :
    energyOf events samples cfg idleW mappingCoeff sysDefaultWhPerToken ev =
      ⟨∑ k ∈ ev.cells, charge (effectivePue cfg.pue 0) (byTime samples) (events.erase ev).toList id k,
        ∑ k ∈ ev.cells, charge (effectivePue cfg.pue 0) (byTime samples) (events.erase ev).toList
          (fun p => max 0 (p-idleW)) k,.measured⟩ := by
  have hsiblings : ∀ sib ∈ (events.erase ev).toList, sib.Whole := by
    intro sib hsib
    exact h.whole sib (Finset.mem_of_mem_erase (Finset.mem_toList.mp hsib))
  rw [energyOf, computeEnergy, if_pos hlt, measuredEnergy_eq hlt (h.whole ev hev).start (h.whole ev hev)
    (h.covered ev hev hlt) h.samplesWhole h.power hsiblings]
  rfl

/-- The time a request is charged for is shared with none forgotten and none counted
twice. -/
theorem sum_charges : ∑ ev ∈ events with ev.start < ev.createdAt,
    ∑ k ∈ ev.cells, charge (effectivePue cfg.pue 0) (byTime samples) (events.erase ev).toList id k =
      (∑ k ∈ events.biUnion Event.cells,
        stepPower (effectivePue cfg.pue 0) (byTime samples) k)/(3600*second) := by
  have hempty : ∀ ev ∈ events, ev ∉ events.filter (fun ev => ev.start < ev.createdAt) →
      ∑ k ∈ ev.cells, charge (effectivePue cfg.pue 0) (byTime samples) (events.erase ev).toList id k = 0 := by
    intro ev hev hnot
    have hle : ev.createdAt ≤ ev.start := not_lt.mp fun hlt => hnot (Finset.mem_filter.mpr ⟨hev,hlt⟩)
    rw [Event.cells, Finset.Ico_eq_empty (not_lt.mpr hle), Finset.sum_empty]
  rw [Finset.sum_subset (Finset.filter_subset _ _) hempty, Finset.sum_div]
  have hweighted := @SharedLoad.sum_weighted_share Event ℤ _ events Event.cells _ fun k =>
    stepPower (effectivePue cfg.pue 0) (byTime samples) k/(3600*second)
  rw [← hweighted]
  apply Finset.sum_congr rfl
  intro ev _
  apply Finset.sum_congr rfl
  intro k _
  rw [charge, seenAt_erase, id, div_right_comm]

end Server

/-- Every covered request is measured, its marginal energy lies between nothing and
its energy, and together the requests are charged exactly what the server drew while it
served any of them. -/
theorem energy_shared_exactly (events : Finset Event) (samples : List Sample) (cfg : ServerEnergyConfig)
    (idleW mappingCoeff sysDefaultWhPerToken : ℚ) (h : Measured events samples cfg) (hidle : 0 ≤ idleW) :
    let energy := energyOf events samples cfg idleW mappingCoeff sysDefaultWhPerToken
    (∀ ev ∈ events, ev.start < ev.createdAt → (energy ev).source = .measured ∧
      0 ≤ (energy ev).whMarginal ∧ (energy ev).whMarginal ≤ (energy ev).whTotal) ∧
    ((∑ ev ∈ events with ev.start < ev.createdAt, (energy ev).whTotal : ℚ) : ℝ) =
      (∫ t in served events, (stepPower (effectivePue cfg.pue 0) (byTime samples) t : ℝ))/(3600*second) := by
  intro energy
  constructor
  · intro ev hev hlt
    have hsome : byTime samples ≠ [] := by
      intro hnil
      have hcover := h.covered ev hev hlt
      rw [hnil] at hcover
      cases hcover
    have hpos : ∀ k : ℤ, 0 < stepPower (effectivePue cfg.pue 0) (byTime samples) k := by
      intro k
      apply stepPower_pos hsome
      exact fun s hs => h.power s ((mem_insertionSort _).mp hs)
    have hsecond : (0 : ℚ) < second := by norm_num [second]
    rw [show energy ev = _ from energyOf_eq idleW mappingCoeff sysDefaultWhPerToken h hev hlt]
    refine ⟨rfl,?_,?_⟩
    · dsimp only
      apply Finset.sum_nonneg
      intro k _
      rw [charge]
      positivity
    · dsimp only
      apply Finset.sum_le_sum
      intro k _
      have hle : max 0 (stepPower (effectivePue cfg.pue 0) (byTime samples) k-idleW) ≤
          stepPower (effectivePue cfg.pue 0) (byTime samples) k := by
        have := hpos k
        exact max_le this.le (by linarith)
      rw [charge, charge, id]
      gcongr
  · have hsum : ∑ ev ∈ events with ev.start < ev.createdAt, (energy ev).whTotal =
        (∑ k ∈ events.biUnion Event.cells,
          stepPower (effectivePue cfg.pue 0) (byTime samples) k)/(3600*second) := by
      rw [← sum_charges]
      apply Finset.sum_congr rfl
      intro ev hev
      obtain ⟨hev,hlt⟩ := Finset.mem_filter.mp hev
      rw [show energy ev = _ from energyOf_eq idleW mappingCoeff sysDefaultWhPerToken h hev hlt]
    have hcell : ∀ k ∈ events.biUnion Event.cells, ∀ t ∈ Set.Ico (k : ℝ) (k+1),
        (stepPower (effectivePue cfg.pue 0) (byTime samples) t : ℝ) =
          stepPower (effectivePue cfg.pue 0) (byTime samples) k := by
      intro k _ t ht
      rw [stepPower_cell _ _ k ht]
    rw [hsum, served_eq,
      integral_cells (f := fun t => (stepPower (effectivePue cfg.pue 0) (byTime samples) t : ℝ)) _
        hcell]
    push_cast
    rfl

def overlapping : Finset Event :=
  {⟨"a","host","route",2*second,2000,10,.tokens⟩,⟨"b","host","route",3*second,2000,10,.tokens⟩}

def reading : List Sample := [⟨second,some 60,[],none⟩]

theorem energy_shared_exactly_overlapping : Measured overlapping reading ⟨0,1⟩ ∧
      ((∑ ev ∈ overlapping with ev.start < ev.createdAt,
        (energyOf overlapping reading ⟨0,1⟩ 10 0 0 ev).whTotal : ℚ) :
          ℝ) =
        (∫ t in served overlapping, (stepPower (effectivePue 1 0) (byTime reading) t : ℝ))/(3600*second) := by
  have hmeasured : Measured overlapping reading ⟨0,1⟩ := by
    constructor
    · intro ev hev
      simp only [overlapping, Finset.mem_insert, Finset.mem_singleton] at hev
      rcases hev with rfl | rfl
      · exact ⟨2000,rfl⟩
      · exact ⟨3000,rfl⟩
    · intro s hs
      rw [mem_singleton.mp hs]
      exact ⟨1000,rfl⟩
    · intro s hs
      rw [mem_singleton.mp hs]
      decide +kernel
    · intro ev hev _
      simp only [overlapping, Finset.mem_insert, Finset.mem_singleton] at hev
      rcases hev with rfl | rfl
      · decide +kernel
      · decide +kernel
  exact ⟨hmeasured,(energy_shared_exactly overlapping reading ⟨0,1⟩ 10 0 0 hmeasured (by norm_num)).2⟩

end OnPremGateway.EnergySharing
