import Mathlib

/-!
# Attributing energy to a request

A finished request is priced from what is known of its server over its window:
power samples when they cover it, a configured wattage otherwise, a coefficient
per token at last. Power is shared between the requests the server was serving,
so the window is cut where their number changes. Times are nanoseconds and
floats exact, so the guards against infinite values have nothing to catch.
-/

set_option autoImplicit false

namespace OnPremGateway.EnergyEngine
open List

def second : ℤ := 1000000000
def millisecond : ℤ := 1000000

def maxSampleGap : ℤ := 2*second

inductive BillingUnit
  | tokens | image | audioSecond | audioBytes
deriving DecidableEq

/-- What the engine and its caller read of a usage event. -/
structure Event where
  id : String
  host : String
  routeID : String
  createdAt : ℤ
  latencyMS : ℤ
  outputTokens : ℤ
  billingUnit : BillingUnit
deriving DecidableEq

/-- A request ends when its event is created and began its latency before. -/
def Event.start (ev : Event) : ℤ := ev.createdAt-ev.latencyMS*millisecond

structure Sample where
  reportedAt : ℤ
  systemPowerW : Option ℚ
  gpuPowerW : List ℚ
  cpuPowerW : Option ℚ

structure ServerEnergyConfig where
  estimatedWatts : ℚ
  pue : ℚ

inductive Source
  | measured | estimated | modeled | unpriceable
deriving DecidableEq

structure EnergyResult where
  whTotal : ℚ
  whMarginal : ℚ
  source : Source
deriving DecidableEq

structure Interval where
  start : ℤ
  stop : ℤ
  n : ℕ

structure PowerStep where
  start : ℤ
  stop : ℤ
  watts : ℚ

def effectivePue (pue sysDefaultPue : ℚ) : ℚ :=
  if 0 < pue then pue else if 0 < sysDefaultPue then sysDefaultPue else 1

def sanitizeWatts (w : ℚ) : ℚ := if w < 0 then 0 else w

def serverPowerW (sample : Sample) (pue : ℚ) : ℚ :=
  let base := (sample.gpuPowerW.map sanitizeWatts).sum + (sample.cpuPowerW.map sanitizeWatts).getD 0
  match sample.systemPowerW with
  | some v => if 0 < v then v*pue else base*pue
  | none => base*pue

def midpoint (a b : ℤ) : ℤ := a+(b-a)/2

def cutsOf (start stop : ℤ) (sib : Event) : List ℤ :=
  [sib.start,sib.createdAt].filter fun t => decide (start < t ∧ t < stop)

def piece (siblings : List Event) (a b : ℤ) : List Interval :=
  if b ≤ a then []
  else
    let mid := midpoint a b
    [⟨a,b,1+siblings.countP fun sib => decide (sib.start < mid ∧ mid < sib.createdAt)⟩]

def pieces (siblings : List Event) (stop : ℤ) : ℤ → List ℤ → List Interval
  | a, [] => piece siblings a stop
  | a, b::cuts => piece siblings a b ++ pieces siblings stop b cuts

def concurrencyBreakpoints (start stop : ℤ) (siblings : List Event) : List Interval :=
  if stop ≤ start then []
  else pieces siblings stop start ((siblings.flatMap (cutsOf start stop)).insertionSort (· ≤ ·))

def cleanNonNeg (v : ℚ) : ℚ := if v < 0 then 0 else v

def seconds (start stop : ℤ) : ℚ := ((stop-start : ℤ) : ℚ)/(second : ℚ)

def atLeastOne (n : ℕ) : ℕ := if n < 1 then 1 else n

def shareOf (watts : ℚ) (n : ℕ) (start stop : ℤ) : ℚ :=
  watts/(atLeastOne n : ℚ)*seconds start stop/3600

def tier1CoverageOK (start stop : ℤ) (sorted : List Sample) : Bool :=
  match sorted.head?, sorted.getLast? with
  | some first, some last =>
    !decide (maxSampleGap < first.reportedAt-start) && !decide (maxSampleGap < stop-last.reportedAt) &&
      (sorted.zip sorted.tail).all fun (a,b) =>
        !(decide (a.reportedAt < stop) && decide (start < b.reportedAt) &&
          decide (maxSampleGap < b.reportedAt-a.reportedAt))
  | _, _ => false

/-- The first sample's power reaches back to the start, the last one's to the end. -/
def buildPowerSteps (start stop : ℤ) (pue : ℚ) : Bool → List Sample → List PowerStep
  | _, [] => []
  | first, s::rest =>
    let lo := if first then start else max start s.reportedAt
    let hi := min stop ((rest.head?.map Sample.reportedAt).getD stop)
    (if hi ≤ lo then [] else [⟨lo,hi,serverPowerW s pue⟩]) ++ buildPowerSteps start stop pue false rest

def powerAt (steps : List PowerStep) (a b : ℤ) : ℚ :=
  ((steps.find? fun s => decide (s.start ≤ midpoint a b ∧ midpoint a b < s.stop)).map PowerStep.watts).getD 0

def concurrencyAt (cc : List Interval) (a b : ℤ) : ℕ :=
  ((cc.find? fun c => decide (c.start ≤ midpoint a b ∧ midpoint a b < c.stop)).map Interval.n).getD 1

def integrateSteps (steps : List PowerStep) (cc : List Interval) (idleW : ℚ) : ℚ × ℚ :=
  let bounds := (steps.flatMap fun s => [s.start,s.stop]) ++ cc.flatMap fun c => [c.start,c.stop]
  let uniq := (bounds.insertionSort (· ≤ ·)).dedup
  let spans := uniq.zip uniq.tail
  ((spans.map fun (a,b) => shareOf (powerAt steps a b) (concurrencyAt cc a b) a b).sum,
    (spans.map fun (a,b) => shareOf (max 0 (powerAt steps a b-idleW)) (concurrencyAt cc a b) a b).sum)

def measuredEnergy (start stop : ℤ) (samples : List Sample) (siblings : List Event) (pue idleW : ℚ) :
    Option EnergyResult :=
  let sorted := samples.insertionSort (fun a b => a.reportedAt ≤ b.reportedAt)
  if samples.isEmpty || !tier1CoverageOK start stop sorted then none
  else
    let steps := buildPowerSteps start stop pue true sorted
    if steps.all fun s => decide (s.watts ≤ 0) then none
    else
      let (total,marginal) := integrateSteps steps (concurrencyBreakpoints start stop siblings) idleW
      some ⟨cleanNonNeg total,cleanNonNeg marginal,.measured⟩

def estimatedEnergy (start stop : ℤ) (siblings : List Event) (watts idleW : ℚ) : EnergyResult :=
  let cc := concurrencyBreakpoints start stop siblings
  { whTotal := cleanNonNeg (cc.map fun c => shareOf watts c.n c.start c.stop).sum
    whMarginal := cleanNonNeg (cc.map fun c => shareOf (max 0 (watts-idleW)) c.n c.start c.stop).sum
    source := .estimated }

def modeledEnergy (ev : Event) (mappingCoeff sysDefaultWhPerToken : ℚ) : EnergyResult :=
  if ev.billingUnit ≠ .tokens then ⟨0,0,.unpriceable⟩
  else
    let coeff := if mappingCoeff ≤ 0 then sysDefaultWhPerToken else mappingCoeff
    let wh := cleanNonNeg (coeff*ev.outputTokens)
    ⟨wh,wh,.modeled⟩

def computeEnergy (ev : Event) (samples : List Sample) (siblings : List Event)
    (cfg : ServerEnergyConfig) (idleW mappingCoeff sysDefaultWhPerToken : ℚ) : EnergyResult :=
  let measured :=
    if ev.start < ev.createdAt then
      measuredEnergy ev.start ev.createdAt samples siblings (effectivePue cfg.pue 0) idleW
    else none
  match measured with
  | some res => res
  | none =>
    if 0 < cfg.estimatedWatts then
      estimatedEnergy ev.start ev.createdAt siblings cfg.estimatedWatts idleW
    else modeledEnergy ev mappingCoeff sysDefaultWhPerToken

/-! ## The estimated share, nanosecond by nanosecond -/

noncomputable def Event.cells (ev : Event) : Finset ℤ := Finset.Ico ev.start ev.createdAt

def Event.Whole (ev : Event) : Prop := millisecond ∣ ev.createdAt

noncomputable def seenAt (siblings : List Event) (k : ℤ) : ℕ :=
  siblings.countP (fun sib => decide (k ∈ sib.cells)) + 1

theorem Event.Whole.start {ev : Event} (h : ev.Whole) : millisecond ∣ ev.start :=
  Int.dvd_sub h (Int.dvd_mul_left _ _)

variable {a b start stop : ℤ} {siblings : List Event}

theorem midpoint_between (ha : millisecond ∣ a) (hb : millisecond ∣ b) (h : a < b) :
    a < midpoint a b ∧ midpoint a b < b := by
  have hgap : millisecond ≤ b-a := Int.le_of_dvd (by omega) (Int.dvd_sub hb ha)
  simp only [millisecond] at hgap
  simp only [midpoint]
  omega

/-- Where no sibling begins or ends, the midpoint stands for every nanosecond. -/
theorem countP_midpoint {k : ℤ} (hmid : a < midpoint a b ∧ midpoint a b < b)
    (hclear : ∀ sib ∈ siblings, ∀ t ∈ [sib.start,sib.createdAt], t ≤ a ∨ b ≤ t) (hk : a ≤ k ∧ k < b) :
    siblings.countP (fun sib => decide (sib.start < midpoint a b ∧ midpoint a b < sib.createdAt)) =
      siblings.countP (fun sib => decide (k ∈ sib.cells)) := by
  apply countP_congr
  intro sib hsib
  have hstart := hclear sib hsib sib.start (by simp)
  have hend := hclear sib hsib sib.createdAt (by simp)
  simp only [decide_eq_true_eq, Event.cells, Finset.mem_Ico]
  omega

def shared (cc : List Interval) : ℚ := (cc.map fun c => ((c.stop-c.start : ℤ) : ℚ)/(c.n : ℚ)).sum

theorem shared_append (cc dd : List Interval) : shared (cc++dd) = shared cc + shared dd := by
  simp [shared]

theorem shared_piece (ha : millisecond ∣ a) (hb : millisecond ∣ b)
    (hclear : ∀ sib ∈ siblings, ∀ t ∈ [sib.start,sib.createdAt], t ≤ a ∨ b ≤ t) :
    shared (piece siblings a b) = ∑ k ∈ Finset.Ico a b, (1 : ℚ)/seenAt siblings k := by
  rw [piece]
  split
  · next h => rw [Finset.Ico_eq_empty (by omega), Finset.sum_empty, shared, map_nil, sum_nil]
  next h =>
  have hmid := midpoint_between ha hb (by omega)
  have hsame : ∀ k ∈ Finset.Ico a b, (1 : ℚ)/seenAt siblings k = 1/((1 + siblings.countP fun sib =>
        decide (sib.start < midpoint a b ∧ midpoint a b < sib.createdAt) : ℕ) : ℚ) := by
    intro k hk
    rw [seenAt, countP_midpoint hmid hclear (Finset.mem_Ico.mp hk), add_comm]
  rw [Finset.sum_congr rfl hsame, Finset.sum_const, Int.card_Ico, nsmul_eq_mul, mul_one_div]
  have hlen : (((b-a).toNat : ℕ) : ℚ) = ((b-a : ℤ) : ℚ) := by
    exact_mod_cast Int.toNat_of_nonneg (by omega)
  rw [hlen, shared, map_singleton, sum_singleton]

theorem sum_Ico_split (f : ℤ → ℚ) {c : ℤ} (hab : a ≤ b) (hbc : b ≤ c) :
    ∑ k ∈ Finset.Ico a c, f k = ∑ k ∈ Finset.Ico a b, f k + ∑ k ∈ Finset.Ico b c, f k := by
  rw [← Finset.Ico_union_Ico_eq_Ico hab hbc,
    Finset.sum_union (Finset.Ico_disjoint_Ico_consecutive a b c)]

theorem shared_pieces (hstop : millisecond ∣ stop) (a : ℤ) (cuts : List ℤ)
    (hsorted : (a::cuts).Pairwise (· ≤ ·)) (hwhole : ∀ t ∈ a::cuts, millisecond ∣ t)
    (hle : ∀ t ∈ a::cuts, t ≤ stop)
    (hcuts : ∀ sib ∈ siblings, ∀ t ∈ [sib.start,sib.createdAt], a < t → t < stop → t ∈ cuts) :
    shared (pieces siblings stop a cuts) = ∑ k ∈ Finset.Ico a stop, (1 : ℚ)/seenAt siblings k := by
  induction cuts generalizing a with
  | nil =>
    rw [pieces]
    apply shared_piece (hwhole a (by simp)) hstop
    intro sib hsib t ht
    by_contra hbetween
    have hmem := hcuts sib hsib t ht (by omega) (by omega)
    simp at hmem
  | cons b cuts ih =>
    obtain ⟨hfirst,hrest⟩ := pairwise_cons.mp hsorted
    have hab : a ≤ b := hfirst b (by simp)
    have hb : b ≤ stop := hle b (by simp)
    rw [pieces, shared_append, sum_Ico_split _ hab hb, ih b hrest]
    · congr 1
      apply shared_piece (hwhole a (by simp)) (hwhole b (by simp))
      intro sib hsib t ht
      -- a bound between a and b would have come before b among the sorted cuts
      by_contra hbetween
      have hmem := hcuts sib hsib t ht (by omega) (by omega)
      rcases mem_cons.mp hmem with rfl | hmem
      · omega
      · have := (pairwise_cons.mp hrest).1 t hmem
        omega
    · intro t ht
      exact hwhole t (mem_cons_of_mem _ ht)
    · intro t ht
      exact hle t (mem_cons_of_mem _ ht)
    · intro sib hsib t ht hbt hts
      have hmem := hcuts sib hsib t ht (by omega) hts
      exact (mem_cons.mp hmem).resolve_left (by omega)

theorem mem_cuts {t : ℤ} : t ∈ (siblings.flatMap (cutsOf start stop)).insertionSort (· ≤ ·) ↔
      ∃ sib ∈ siblings, t ∈ [sib.start,sib.createdAt] ∧ start < t ∧ t < stop := by
  rw [mem_insertionSort, mem_flatMap]
  simp only [cutsOf, mem_filter, decide_eq_true_eq]

structure CutsOf (siblings : List Event) (start stop : ℤ) (cuts : List ℤ) : Prop where
  sorted : (start::cuts).Pairwise (· ≤ ·)
  whole : ∀ t ∈ start::cuts, millisecond ∣ t
  inside : ∀ t ∈ start::cuts, t ≤ stop
  all : ∀ sib ∈ siblings, ∀ t ∈ [sib.start,sib.createdAt], start < t → t < stop → t ∈ cuts

theorem cutsOf_sorted (h : start < stop) (hstart : millisecond ∣ start)
    (hwhole : ∀ sib ∈ siblings, sib.Whole) :
    CutsOf siblings start stop ((siblings.flatMap (cutsOf start stop)).insertionSort (· ≤ ·)) where
  sorted := by
    rw [pairwise_cons]
    constructor
    · intro t ht
      obtain ⟨_,_,_,hlt,_⟩ := mem_cuts.mp ht
      exact hlt.le
    · exact pairwise_insertionSort _ _
  whole := by
    intro t ht
    rcases mem_cons.mp ht with rfl | ht
    · exact hstart
    obtain ⟨sib,hsib,hbound,_⟩ := mem_cuts.mp ht
    simp only [mem_cons, not_mem_nil, or_false] at hbound
    rcases hbound with rfl | rfl
    · exact (hwhole sib hsib).start
    · exact hwhole sib hsib
  inside := by
    intro t ht
    rcases mem_cons.mp ht with rfl | ht
    · exact h.le
    · obtain ⟨_,_,_,_,hlt⟩ := mem_cuts.mp ht
      exact hlt.le
  all := by
    intro sib hsib t ht hlt hstop
    exact mem_cuts.mpr ⟨sib,hsib,ht,hlt,hstop⟩

/-- The stretches of a window share it as its nanoseconds do. -/
theorem shared_breakpoints (hstart : millisecond ∣ start) (hstop : millisecond ∣ stop)
    (hwhole : ∀ sib ∈ siblings, sib.Whole) : shared (concurrencyBreakpoints start stop siblings) =
      ∑ k ∈ Finset.Ico start stop, (1 : ℚ)/seenAt siblings k := by
  rw [concurrencyBreakpoints]
  split
  · next h => rw [Finset.Ico_eq_empty (by omega), Finset.sum_empty, shared, map_nil, sum_nil]
  · next h =>
    have hcuts := cutsOf_sorted (not_le.mp h) hstart hwhole
    exact shared_pieces hstop start _ hcuts.sorted hcuts.whole hcuts.inside hcuts.all

/-- Every stretch counts the target itself. -/
theorem pos_of_mem_pieces (a : ℤ) (cuts : List ℤ) {c : Interval}
    (hc : c ∈ pieces siblings stop a cuts) : 1 ≤ c.n := by
  have hpiece : ∀ a b, c ∈ piece siblings a b → 1 ≤ c.n := by
    intro a b hc
    rw [piece] at hc
    split at hc
    · simp at hc
    · rw [mem_singleton.mp hc]
      exact Nat.le_add_right 1 _
  induction cuts generalizing a with
  | nil => exact hpiece _ _ hc
  | cons b cuts ih =>
    rcases mem_append.mp hc with hc | hc
    · exact hpiece _ _ hc
    · exact ih b hc

theorem sum_shareOf (watts : ℚ) (cc : List Interval) (hpos : ∀ c ∈ cc, 1 ≤ c.n) :
    (cc.map fun c => shareOf watts c.n c.start c.stop).sum = watts/(3600*second)*shared cc := by
  induction cc with
  | nil => simp [shared]
  | cons c cc ih =>
    have hc : 1 ≤ c.n := hpos c (by simp)
    rw [map_cons, sum_cons, ih fun d hd => hpos d (mem_cons_of_mem _ hd), shared,
      shared, map_cons, sum_cons, shareOf, atLeastOne, if_neg (by omega), seconds]
    ring

/-- Without power samples, a configured wattage is shared over every nanosecond
of the window between the request and the siblings active then. -/
theorem computeEnergy_estimated {ev : Event} {cfg : ServerEnergyConfig}
    (idleW mappingCoeff sysDefaultWhPerToken : ℚ) (hwatts : 0 < cfg.estimatedWatts) (hev : ev.Whole)
    (hwhole : ∀ sib ∈ siblings, sib.Whole) :
    (computeEnergy ev [] siblings cfg idleW mappingCoeff sysDefaultWhPerToken).whTotal =
      cfg.estimatedWatts/(3600*second)*∑ k ∈ ev.cells, (1 : ℚ)/seenAt siblings k := by
  have hnone : (if ev.start < ev.createdAt then
      measuredEnergy ev.start ev.createdAt [] siblings (effectivePue cfg.pue 0) idleW else none) =
        none := by
    simp [measuredEnergy]
  have hpos : ∀ c ∈ concurrencyBreakpoints ev.start ev.createdAt siblings, 1 ≤ c.n := by
    intro c hc
    rw [concurrencyBreakpoints] at hc
    split at hc
    · simp at hc
    · exact pos_of_mem_pieces _ _ hc
  have hsum : 0 ≤ cfg.estimatedWatts/(3600*(second : ℚ))*∑ k ∈ ev.cells, (1 : ℚ)/seenAt siblings k := by
    have hsecond : (0 : ℚ) < second := by norm_num [second]
    positivity
  simp only [computeEnergy, hnone, hwatts, if_true, estimatedEnergy]
  rw [sum_shareOf _ _ hpos, shared_breakpoints hev.start hev hwhole, ← Event.cells, cleanNonNeg,
    if_neg hsum.not_gt]

end OnPremGateway.EnergyEngine
