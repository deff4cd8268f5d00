import Mathlib

/-!
# The activity time series

Events are counted in the bucket they were created in and in every bucket they
ran in. A window of too many buckets is covered by wider ones.
-/

set_option autoImplicit false

namespace OnPremGateway.ActivitySeries
open List Bool

def millisecond : ℤ := 1000000
def second : ℤ := 1000000000

structure Event where
  createdAt : ℤ
  latencyMS : ℤ
  inputTokens : ℤ
  outputTokens : ℤ
  energyWh : ℚ

def Event.start (e : Event) : ℤ := e.createdAt-e.latencyMS*millisecond

structure TimeSeriesPoint where
  t : ℤ
  connections : ℕ
  concurrency : ℕ
  promptTokensPerSecond : ℚ
  completionTokensPerSecond : ℚ
  energyWh : ℚ

structure TimeSeries where
  points : List TimeSeriesPoint
  bucketSeconds : ℤ
  fromTime : ℤ
  toTime : ℤ

def maxTimeSeriesBuckets : ℤ := 5000

/-- The five slices at one index. -/
structure Sums where
  connections : ℕ := 0
  concurrency : ℕ := 0
  prompt : ℚ := 0
  completion : ℚ := 0
  energy : ℚ := 0

structure Grid where
  fromTime : ℤ
  toTime : ℤ
  bucket : ℤ
  n : ℤ

def Grid.edge (g : Grid) (i : ℕ) : ℤ := g.fromTime+i*g.bucket

def ceilDiv (a b : ℤ) : ℤ := (a+b-1).tdiv b

def add (n idx : ℤ) (f : Sums → Sums) (sums : ℕ → Sums) : ℕ → Sums :=
  if 0 ≤ idx ∧ idx < n then Function.update sums idx.toNat (f (sums idx.toNat)) else sums

def countConnection (g : Grid) (sums : ℕ → Sums) (e : Event) : ℕ → Sums :=
  if ¬e.createdAt < g.fromTime ∧ e.createdAt < g.toTime then
    add g.n ((e.createdAt-g.fromTime).tdiv g.bucket) (fun s =>
      { s with connections := s.connections+1, prompt := s.prompt+e.inputTokens
               completion := s.completion+e.outputTokens, energy := s.energy+e.energyWh }) sums
  else sums

def raise (n : ℤ) : ℕ → ℤ → (ℕ → Sums) → ℕ → Sums
  | 0, _, sums => sums
  | passes+1, i, sums =>
    raise n passes (i+1) (add n i (fun s => { s with concurrency := s.concurrency+1 }) sums)

def firstIdx (ds bucket : ℤ) : ℤ := if ds > 0 then ds.tdiv bucket else 0

def countConcurrency (g : Grid) (sums : ℕ → Sums) (e : Event) : ℕ → Sums :=
  let de := e.createdAt-g.fromTime
  let ds := e.start-g.fromTime
  if de ≤ 0 then sums
  else
    let lastIdx := ceilDiv de g.bucket-1
    let lastIdx := if lastIdx ≥ g.n then g.n-1 else lastIdx
    raise g.n (lastIdx+1-firstIdx ds g.bucket).toNat (firstIdx ds g.bucket) sums

def count (g : Grid) (sums : ℕ → Sums) (e : Event) : ℕ → Sums :=
  countConcurrency g (countConnection g sums e) e

def coarsened (span bucketSecs : ℤ) : ℤ :=
  if ceilDiv span (bucketSecs*second) > maxTimeSeriesBuckets then
    let spanSecs := ceilDiv span second
    let effSecs := ceilDiv spanSecs maxTimeSeriesBuckets
    if effSecs < 1 then 1 else effSecs
  else bucketSecs

def computeTimeSeries (events : List Event) (fromTime toTime bucketSecs : ℤ) : TimeSeries :=
  let bucketSecs := if bucketSecs ≤ 0 then 1 else bucketSecs
  let span := toTime-fromTime
  if ¬toTime > fromTime ∨ ceilDiv span (bucketSecs*second) ≤ 0 then
    ⟨[], bucketSecs, fromTime, toTime⟩
  else
    let bucketSecs := coarsened span bucketSecs
    let bucket := bucketSecs*second
    let n := ceilDiv span bucket
    let sums := events.foldl (count ⟨fromTime,toTime,bucket,n⟩) fun _ => {}
    let points := (List.range n.toNat).map fun i =>
      { t := fromTime+i*bucket, connections := (sums i).connections
        concurrency := (sums i).concurrency, promptTokensPerSecond := (sums i).prompt/bucketSecs
        completionTokensPerSecond := (sums i).completion/bucketSecs, energyWh := (sums i).energy }
    ⟨points, bucketSecs, fromTime, toTime⟩

/-- The buckets of a length that cover a duration are not too many. -/
def Fits (span secs : ℤ) : Prop := 0 < secs ∧ span ≤ maxTimeSeriesBuckets*(secs*second)

def createdIn (start stop : ℤ) (e : Event) : Bool := start ≤ e.createdAt ∧ e.createdAt < stop

def overlaps (bStart bEnd : ℤ) (e : Event) : Bool := bStart < e.createdAt ∧ e.start < bEnd

@[simp] theorem createdIn_iff (start stop : ℤ) (e : Event) :
    createdIn start stop e = true ↔ start ≤ e.createdAt ∧ e.createdAt < stop := by
  simp [createdIn]

theorem ceilDiv_le_iff {a b : ℤ} (k : ℤ) (ha : 0 ≤ a) (hb : 0 < b) : ceilDiv a b ≤ k ↔ a ≤ k*b := by
  rw [ceilDiv, Int.tdiv_eq_ediv_of_nonneg (by omega), ← Int.lt_add_one_iff,
    Int.ediv_lt_iff_lt_mul hb, add_mul]
  omega

theorem ceilDiv_pos {a b : ℤ} (ha : 0 < a) (hb : 0 < b) : 0 < ceilDiv a b := by
  have h := ceilDiv_le_iff 0 ha.le hb
  omega

theorem coarsened_spec {span secs : ℤ} (hspan : 0 < span) (hsecs : 0 < secs) :
    Fits span (coarsened span secs) ∧ (Fits span secs → coarsened span secs = secs) ∧
    (¬Fits span secs → ∀ k, Fits span k → coarsened span secs ≤ k) := by
  have hsecond : 0 < second := by decide
  have hfits := ceilDiv_le_iff maxTimeSeriesBuckets hspan.le (mul_pos hsecs hsecond)
  have hseconds := ceilDiv_pos hspan hsecond
  have heff (k : ℤ) : ceilDiv (ceilDiv span second) maxTimeSeriesBuckets ≤ k ↔
      span ≤ maxTimeSeriesBuckets*(k*second) := by
    rw [ceilDiv_le_iff k hseconds.le (by decide), ceilDiv_le_iff _ hspan.le hsecond,
      mul_left_comm, mul_assoc]
  have hpos := ceilDiv_pos hseconds (b := maxTimeSeriesBuckets) (by decide)
  have hone : ¬ceilDiv (ceilDiv span second) maxTimeSeriesBuckets < 1 := by omega
  unfold coarsened Fits
  split
  · simp only [if_neg hone]
    refine ⟨⟨hpos,(heff _).mp le_rfl⟩,fun h => ?_,fun _ k hk => (heff k).mpr hk.2⟩
    omega
  · exact ⟨⟨hsecs,by omega⟩,fun _ => rfl,fun h => absurd ⟨hsecs,by omega⟩ h⟩

section Counts
variable (sums : ℕ → Sums) (i : ℕ)

theorem add_apply {n : ℤ} (idx : ℤ) (f : Sums → Sums) (hi : i < n) :
    add n idx f sums i = if idx = i then f (sums i) else sums i := by
  rw [add]
  split
  · rw [Function.update_apply]
    split
    · simp_all
    · rw [if_neg (by omega)]
  · rw [if_neg (by omega)]

theorem raise_apply {n : ℤ} (passes : ℕ) (first : ℤ) (hi : i < n) :
    raise n passes first sums i = { sums i with concurrency :=
      (sums i).concurrency + if first ≤ i ∧ i < first+passes then 1 else 0 } := by
  induction passes generalizing first sums with
  | zero => rw [raise, if_neg (by omega)]; rfl
  | succ passes ih =>
    rw [raise, ih, add_apply _ _ _ _ hi]
    by_cases hf : first = i
    · rw [if_pos hf, if_neg (by omega), if_pos (by omega)]
    · have hiff : first+1 ≤ i ∧ i < first+1+passes ↔ first ≤ i ∧ i < first+(passes+1 : ℕ) := by
        omega
      rw [if_neg hf, if_congr hiff rfl rfl]

variable {g : Grid} (hb : 0 < g.bucket) (hi : i < g.n)
include hb hi

/-- The buckets an event ran in are those from the first to the last index. -/
theorem countConcurrency_apply (e : Event) : countConcurrency g sums e i = { sums i with
    concurrency :=
      (sums i).concurrency + if overlaps (g.edge i) (g.edge (i+1)) e then 1 else 0 } := by
  have hnonneg : 0 ≤ i*g.bucket := by positivity
  simp only [countConcurrency, overlaps, Grid.edge, decide_eq_true_eq, Nat.cast_succ, add_mul, one_mul]
  split
  · rw [if_neg (by omega)]
    rfl
  have hlast := ceilDiv_le_iff i (a := e.createdAt-g.fromTime) (by omega) hb
  have hfirst : firstIdx (e.start-g.fromTime) g.bucket ≤ i ↔
      e.start < g.fromTime+(i*g.bucket+g.bucket) := by
    rw [firstIdx]
    split
    · rw [Int.tdiv_eq_ediv_of_nonneg (by omega), ← Int.lt_add_one_iff, Int.ediv_lt_iff_lt_mul hb,
        add_mul]
      omega
    · omega
  simp only [raise_apply _ _ _ _ hi]
  congr 2
  exact if_congr (by omega) rfl rfl

/-- An event of the window is counted in the bucket that contains it. -/
theorem countConnection_counts (e : Event) :
    (countConnection g sums e i).concurrency = (sums i).concurrency ∧
    (countConnection g sums e i).connections = (sums i).connections +
      if createdIn g.fromTime g.toTime e && createdIn (g.edge i) (g.edge (i+1)) e then 1 else 0 := by
  simp only [countConnection, createdIn_iff, Grid.edge, and_eq_true, not_lt]
  split
  · have hidx : (e.createdAt-g.fromTime).tdiv g.bucket = i ↔
        g.fromTime+i*g.bucket ≤ e.createdAt ∧ e.createdAt < g.fromTime+(i+1 : ℕ)*g.bucket := by
      rw [Int.tdiv_eq_ediv_of_nonneg (by omega), Int.ediv_eq_iff_of_pos hb, Nat.cast_succ, add_mul]
      omega
    simp only [← hidx, add_apply _ _ _ _ hi]
    clear hidx
    split <;> simp [*]
  · simp [*]

theorem foldl_counts (events : List Event) :
    (events.foldl (count g) sums i).connections = (sums i).connections + events.countP (fun e =>
      createdIn g.fromTime g.toTime e && createdIn (g.edge i) (g.edge (i+1)) e) ∧
    (events.foldl (count g) sums i).concurrency = (sums i).concurrency +
      events.countP (overlaps (g.edge i) (g.edge (i+1))) := by
  induction events generalizing sums with
  | nil => exact ⟨rfl,rfl⟩
  | cons e events ih =>
    obtain ⟨hsame,hcount⟩ := countConnection_counts sums i hb hi e
    rw [foldl_cons, (ih _).1, (ih _).2, count, countConcurrency_apply _ _ hb hi, hsame, hcount]
    simp only [countP_cons]
    omega

end Counts

/-- The buckets divide the events of the window up to their end. -/
theorem sum_connections {g : Grid} (events : List Event) (hb : 0 < g.bucket) (n : ℕ) :
    ((List.range n).map fun i => events.countP fun e =>
      createdIn g.fromTime g.toTime e && createdIn (g.edge i) (g.edge (i+1)) e).sum =
    events.countP fun e =>
      createdIn g.fromTime g.toTime e && createdIn g.fromTime (g.edge n) e := by
  induction n with
  | zero =>
    symm
    rw [range_zero, map_nil, sum_nil, countP_eq_zero]
    intro e _
    simp [Grid.edge]
  | succ n ih =>
    have hnonneg : 0 ≤ n*g.bucket := by positivity
    rw [range_succ, map_append, sum_append, ih, map_singleton, sum_singleton]
    symm
    rw [countP_eq_countP_filter_add events _ (createdIn g.fromTime (g.edge n)),
      countP_filter, countP_filter]
    congr 1 <;> refine countP_congr fun e _ => ?_ <;>
      simp only [and_eq_true, not_eq_true', ← not_eq_true, createdIn_iff, Grid.edge,
        Nat.cast_succ, add_mul, one_mul] <;> omega

theorem computeTimeSeries_counts (events : List Event) (fromTime toTime bucketSecs : ℤ)
    (h : fromTime < toTime) : let ts := computeTimeSeries events fromTime toTime bucketSecs
    let requested := if bucketSecs ≤ 0 then 1 else bucketSecs
    let n := ts.points.length
    let bStart := fun i : ℕ => fromTime+i*(ts.bucketSeconds*second)
    (1 ≤ n ∧ n ≤ 5000) ∧ bStart (n-1) < toTime ∧ toTime ≤ bStart n ∧
    (Fits (toTime-fromTime) requested → ts.bucketSeconds = requested) ∧
    (¬Fits (toTime-fromTime) requested →
      IsLeast {secs | Fits (toTime-fromTime) secs} ts.bucketSeconds) ∧
    ts.points.map (·.t) = (List.range n).map bStart ∧
    ts.points.map (·.connections) = (List.range n).map (fun i => events.countP fun e =>
      createdIn fromTime toTime e && createdIn (bStart i) (bStart (i+1)) e) ∧
    (ts.points.map (·.connections)).sum = events.countP (createdIn fromTime toTime) ∧
    ts.points.map (·.concurrency) = (List.range n).map (fun i =>
      events.countP (overlaps (bStart i) (bStart (i+1)))) := by
  have hspan : 0 < toTime-fromTime := by omega
  have hreq : 0 < if bucketSecs ≤ 0 then 1 else bucketSecs := by split <;> omega
  have hsecond : 0 < second := by decide
  have hlen := ceilDiv_pos hspan (mul_pos hreq hsecond)
  have hopen : ¬(¬toTime > fromTime ∨
      ceilDiv (toTime-fromTime) ((if bucketSecs ≤ 0 then 1 else bucketSecs)*second) ≤ 0) := by omega
  obtain ⟨hfits,hkept,hleast⟩ := coarsened_spec hspan hreq
  have hbucket := mul_pos hfits.1 hsecond
  have hpos := ceilDiv_pos hspan hbucket
  obtain ⟨n,hn⟩ := Int.eq_ofNat_of_zero_le hpos.le
  have hle (k : ℤ) := ceilDiv_le_iff k hspan.le hbucket
  simp only [computeTimeSeries, if_neg hopen, length_map, length_range, map_map, hn,
    Int.toNat_natCast]
  generalize coarsened (toTime-fromTime) (if bucketSecs ≤ 0 then 1 else bucketSecs) = secs at *
  rw [hn] at hle hpos
  have hcover := (hle n).mp le_rfl
  have hmax := (hle 5000).mpr hfits.2
  have hlast := (hle (n-1)).not.mp (by omega)
  let g : Grid := ⟨fromTime,toTime,secs*second,n⟩
  have hcounts (i : ℕ) (hi : i ∈ range n) := foldl_counts (fun _ => {}) i (g := g) hbucket
    (Int.ofNat_lt.mpr (mem_range.mp hi)) events
  have hconn := map_congr_left fun i hi => (hcounts i hi).1.trans (zero_add _)
  have hconc := map_congr_left fun i hi => (hcounts i hi).2.trans (zero_add _)
  refine ⟨by omega,?_,by omega,hkept,fun hf => ⟨hfits,fun k hk => hleast hf k hk⟩,rfl,hconn,?_,hconc⟩
  · rw [Nat.cast_pred (by omega)]
    omega
  · refine (congrArg sum hconn).trans ((sum_connections (g := g) events hbucket n).trans ?_)
    refine countP_congr fun e _ => ?_
    simp only [g, createdIn_iff, Grid.edge, and_eq_true]
    omega

theorem computeTimeSeries_counts_two :
    (computeTimeSeries [⟨1500*millisecond,1000,0,0,0⟩] 0 (2*second) 1).points.map (·.concurrency) =
      [1,1] :=
  (computeTimeSeries_counts [⟨1500*millisecond,1000,0,0,0⟩] 0 (2*second) 1
    (by decide)).2.2.2.2.2.2.2.2.trans (by decide +kernel)

/-- An event that would have started after its end is counted by the same rule. -/
theorem negative_latency_counted :
    (computeTimeSeries [⟨3*millisecond,-2,0,0,0⟩] 0 second 1).points.map (·.concurrency) = [1] ∧
    [(⟨3*millisecond,-2,0,0,0⟩ : Event)].countP (fun e => 0 ≤ e.latencyMS && overlaps 0 second e) = 0 := by
  decide +kernel

end OnPremGateway.ActivitySeries
