import OnPremGateway.LimiterExactness

/-!
# What the limits bound

With requests handled one at a time, no more of them complete in a period than the
quota leaves; and no window has more requests pass the rate than it allows.
-/

set_option autoImplicit false

namespace OnPremGateway.LimiterBounds
open PrincipalLimits LimiterExactness List Option

/-! ### Quotas -/

def completions (p : Principal) : List Event → ℕ
  | [] => 0
  | .complete q _ _ _::events => (if q = p then 1 else 0) + completions p events
  | _::events => completions p events

/-- A request of the principal is admitted only when none is running, and completes
only when it was allowed. -/
def OneAtATime (p : Principal) : Bool → World → List Event → Prop
  | _, _, [] => True
  | busy, w, .admitRequest q now faults::events =>
    if q = p then busy = false ∧
      OneAtATime p (decide ((w.admitRequest q now faults).2.1 = .allowed))
      (step w (.admitRequest q now faults)) events
    else OneAtATime p busy (step w (.admitRequest q now faults)) events
  | busy, w, .complete q now tokens cost::events =>
    if q = p then busy = true ∧ OneAtATime p false (step w (.complete q now tokens cost)) events
    else OneAtATime p busy (step w (.complete q now tokens cost)) events
  | busy, w, .setLimits q cfg::events => OneAtATime p busy (step w (.setLimits q cfg)) events

def HasQuota (quota : ℤ) (period : Period) (cfg : LimitConfig) : Prop :=
  cfg.requestQuota = quota ∧ cfg.requestQuotaPeriod = period

def Within (period : Period) (ps : Instant) (events : List Event) : Prop :=
  ∀ e ∈ events, ∀ now, e.time = some now → periodStart period now = ps

def usedRequests (w : World) (p : Principal) (ps : Instant) : ℤ := (w.db.usageAggregateSince p ps).requests

section quota

variable {p : Principal} {quota : ℤ} {period : Period} {w : World} {clock : Instant}

theorem used_lt_of_allowed (hquota : 0 < quota) (hperiod : period ≠ .off)
    (hholds : Holds p (HasQuota quota period) w)
    {now : Instant} (h : Good w.limiter w.db now) (hallowed : (w.admitRequest p now {}).2.1 = .allowed) :
    usedRequests w p (periodStart period now) < quota := by
  obtain ⟨-,cfg,hexact⟩ := admit_exact (p := p) h
  obtain ⟨hq,hp⟩ := configFor_holds hholds now hexact.config
  have hnot := hexact.allowed hallowed (requestLimit cfg {}) mem_cons_self (by
    rw [requestLimit, decide_eq_true_eq, hq, hp]
    exact ⟨hquota,hperiod⟩)
  rw [requestLimit, decide_eq_false_iff_not, not_le, hq, hp] at hnot
  exact hnot

theorem usedRequests_complete (w : World) (p q : Principal) (now : Instant) (tokens : ℤ) (cost : ℚ)
    (ps : Instant) (hps : ps ≤ now) : usedRequests (step w (.complete q now tokens cost)) p ps =
      usedRequests w p ps + if q = p then 1 else 0 := by
  rw [usedRequests, step, usageAggregateSince_append]
  by_cases hq : q = p
  · rw [if_pos ⟨hq,hps⟩, if_pos hq]
    rfl
  · rw [if_neg fun h => hq h.1, if_neg hq, add_zero]
    rfl

/-- What the principal has used was used by now, and before its running request was
allowed below the quota. -/
structure Running (p : Principal) (quota : ℤ) (period : Period) (w : World) (clock : Instant) (busy : Bool) :
    Prop where
  rows : ∀ u ∈ w.db.usage, u.principal = p → u.createdAt ≤ clock
  allowed : busy = true → ∃ t ≤ clock, usedRequests w p (periodStart period t) < quota ∧
    ∀ u ∈ w.db.usage, u.principal = p → u.createdAt ≤ t

/-- A request that still runs completes below the quota, in a new period too. -/
theorem Running.used_lt (h : Running p quota period w clock true) (hquota : 0 < quota) {now : Instant}
    (hnow : clock ≤ now) : usedRequests w p (periodStart period now) < quota := by
  obtain ⟨t,ht,hused,hrows⟩ := h.allowed rfl
  by_cases hs : periodStart period now ≤ t
  · rw [← periodStart_between period hs (ht.trans hnow)]
    exact hused
  have hnone : w.db.usage.filter (fun u => u.principal = p ∧ periodStart period now ≤ u.createdAt) = [] := by
    rw [filter_eq_nil_iff]
    intro u hu hin
    rw [decide_eq_true_eq] at hin
    exact hs (hin.2.trans (hrows u hu hin.1))
  rw [usedRequests, Database.usageAggregateSince, hnone]
  exact hquota

def busyAfter (p : Principal) (busy : Bool) (w : World) : Event → Bool
  | .admitRequest q now faults => if q = p then (w.admitRequest q now faults).2.1 = .allowed else busy
  | .complete q _ _ _ => if q = p then false else busy
  | .setLimits _ _ => busy

theorem oneAtATime_cons {busy : Bool} {e : Event} {events : List Event}
    (h : OneAtATime p busy w (e::events)) : OneAtATime p (busyAfter p busy w e) (step w e) events := by
  cases e with
  | admitRequest q now faults =>
    rw [OneAtATime] at h
    rw [busyAfter]
    split at h
    · next hq =>
      rw [if_pos hq]
      exact h.2
    · next hq =>
      rw [if_neg hq]
      exact h
  | complete q now tokens cost =>
    rw [OneAtATime] at h
    rw [busyAfter]
    split at h
    · next hq =>
      rw [if_pos hq]
      exact h.2
    · next hq =>
      rw [if_neg hq]
      exact h
  | setLimits q cfg => exact h

theorem step_running (hquota : 0 < quota) (hperiod : period ≠ .off) {busy : Bool}
    (hgood : Good w.limiter w.db clock) (hholds : Holds p (HasQuota quota period) w)
    (h : Running p quota period w clock busy) {e : Event} (htime : ∀ now, e.time = some now → clock ≤ now)
    (hreads : ∀ q now faults, e = .admitRequest q now faults → faults = {}) :
    Running p quota period (step w e) (e.time.getD clock) (busyAfter p busy w e) := by
  cases e with
  | admitRequest q now faults =>
    obtain rfl := hreads q now faults rfl
    have hnow := htime now rfl
    refine ⟨fun u hu hp => (h.rows u hu hp).trans hnow,?_⟩
    rw [busyAfter]
    split
    · next hq =>
      subst hq
      intro hallowed
      rw [decide_eq_true_eq] at hallowed
      exact ⟨now,le_rfl,used_lt_of_allowed hquota hperiod hholds (hgood.later hnow) hallowed,
        fun u hu hp => (h.rows u hu hp).trans hnow⟩
    · intro hbusy
      obtain ⟨t,ht,hused,hrows⟩ := h.allowed hbusy
      exact ⟨t,ht.trans hnow,hused,hrows⟩
  | complete q now tokens cost =>
    have hnow := htime now rfl
    constructor
    · intro u hu hp
      rcases mem_append.mp hu with hu | hu
      · exact (h.rows u hu hp).trans hnow
      · rw [mem_singleton] at hu
        rw [hu]
        exact le_rfl
    · rw [busyAfter]
      split
      · exact nofun
      next hq =>
      intro hbusy
      obtain ⟨t,ht,hused,hrows⟩ := h.allowed hbusy
      refine ⟨t,ht.trans hnow,?_,?_⟩
      · have hsame : usedRequests (step w (.complete q now tokens cost)) p (periodStart period t) =
            usedRequests w p (periodStart period t) := by
          rw [usedRequests_complete _ _ _ _ _ _ _ ((periodStart_le period t).trans (ht.trans hnow)),
            if_neg hq, add_zero]
        rw [hsame]
        exact hused
      · intro u hu hp
        rcases mem_append.mp hu with hu | hu
        · exact hrows u hu hp
        · rw [mem_singleton] at hu
          rw [hu] at hp
          exact absurd hp hq
  | setLimits q cfg => exact ⟨h.rows,h.allowed⟩

structure Steady (p : Principal) (quota : ℤ) (period : Period) (w : World) (clock : Instant) (busy : Bool)
    (events : List Event) : Prop where
  good : Good w.limiter w.db clock
  clocked : Clocked clock events
  reads : Reads events
  holds : Holds p (HasQuota quota period) w
  keeps : Keeps p (HasQuota quota period) events
  serial : OneAtATime p busy w events
  running : Running p quota period w clock busy

theorem Steady.step (hquota : 0 < quota) (hperiod : period ≠ .off) {busy : Bool} {e : Event}
    {events : List Event} (h : Steady p quota period w clock busy (e::events)) :
    Steady p quota period (step w e) (e.time.getD clock) (busyAfter p busy w e) events := by
  have hfaults : ∀ q now faults, e = .admitRequest q now faults → faults = {} := by
    rintro q now faults rfl
    exact h.reads q now faults mem_cons_self
  refine ⟨step_good h.good h.clocked.1 hfaults,h.clocked.2,?_,
    step_holds h.holds ?_,?_,oneAtATime_cons h.serial,
    step_running hquota hperiod h.good h.holds h.running h.clocked.1 hfaults⟩
  · intro q now faults hmem
    exact h.reads q now faults (mem_cons_of_mem e hmem)
  · rintro x rfl
    exact h.keeps x mem_cons_self
  · intro x hx
    exact h.keeps x (mem_cons_of_mem e hx)

theorem Steady.run (hquota : 0 < quota) (hperiod : period ≠ .off) (before : List Event) {busy : Bool}
    {events : List Event} (h : Steady p quota period w clock busy (before ++ events)) :
    ∃ clock' busy', Steady p quota period (run w before) clock' busy' events := by
  induction before generalizing w clock busy with
  | nil => exact ⟨clock,busy,h⟩
  | cons e before ih => exact ih (h.step hquota hperiod)

/-- The induction is on the events; only completions use up what is left. -/
theorem completions_le (hquota : 0 < quota) (hperiod : period ≠ .off) (ps : Instant) (events : List Event)
    {busy : Bool} (h : Steady p quota period w clock busy events) (hin : Within period ps events) :
    (completions p events : ℤ) ≤ max 0 (quota - usedRequests w p ps) := by
  induction events generalizing w clock busy with
  | nil => exact le_max_left _ _
  | cons e events ih =>
    have hrest := ih (h.step hquota hperiod) fun x hx => hin x (mem_cons_of_mem e hx)
    cases e with
    | admitRequest q now faults => exact hrest
    | complete q now tokens cost =>
      have hnow : periodStart period now = ps := hin _ mem_cons_self now rfl
      have hused := usedRequests_complete w p q now tokens cost ps (hnow ▸ periodStart_le period now)
      rw [hused] at hrest
      rw [completions]
      by_cases hq : q = p
      · have hbusy : busy = true := by
          have hserial := h.serial
          rw [OneAtATime, if_pos hq] at hserial
          exact hserial.1
        have hbelow := (hbusy ▸ h.running).used_lt hquota (h.clocked.1 now rfl)
        rw [hnow] at hbelow
        rw [if_pos hq] at hrest ⊢
        omega
      · rw [if_neg hq] at hrest ⊢
        rw [add_zero] at hrest
        rw [zero_add]
        exact hrest
    | setLimits q cfg => exact hrest

end quota

/-! ### Rates -/

def HasRate (n window : ℤ) (cfg : LimitConfig) : Prop :=
  cfg.rateRequests = n ∧ cfg.rateWindowSeconds = window

def ratePasses (p : Principal) (times : Instant → Bool) : World → List Event → ℕ
  | _, [] => 0
  | w, .admitRequest q now faults::events =>
    (if q = p ∧ times now ∧ (w.admitRequest q now faults).2.1.isRate = false then 1 else 0) +
      ratePasses p times (step w (.admitRequest q now faults)) events
  | w, e::events => ratePasses p times (step w e) events

def remaining (n : ℤ) (entry : Option RateBucket) (b : ℤ) : ℤ :=
  match entry with
  | none => n
  | some st => if st.bucket < b then n else if st.bucket = b then n - st.count else 0

def Sound (n window : ℤ) (clock : Instant) (entry : Option RateBucket) : Prop :=
  ∀ st, entry = some st → st.bucket ≤ bucketOf window clock ∧ 0 ≤ st.count ∧ st.count ≤ n

theorem unix_mono {t t' : Instant} (h : t ≤ t') : unix t ≤ unix t' := by
  have hdiv : t/second ≤ t'/second := Nat.div_le_div_right h
  exact sub_le_sub_right (Int.ofNat_le.mpr hdiv) _

section rate

variable {p : Principal} {n window : ℤ} {clock now : Instant}

theorem currentBucket_some (st : RateBucket) (b : ℤ) :
    currentBucket (some st) b = if st.bucket = b then st else ⟨b,0⟩ := by
  by_cases h : st.bucket = b
  · simp [currentBucket, Option.filter, h]
  · simp [currentBucket, Option.filter, h]

/-- The bucket of the window at hand, after it has been started anew if need be. -/
theorem currentBucket_spec {entry : Option RateBucket} (hn : 0 < n) (hsound : Sound n window now entry) :
    (currentBucket entry (bucketOf window now)).bucket = bucketOf window now ∧
      0 ≤ (currentBucket entry (bucketOf window now)).count ∧
      (currentBucket entry (bucketOf window now)).count ≤ n ∧
      ∀ b, remaining n (some (currentBucket entry (bucketOf window now))) b ≤ remaining n entry b := by
  cases entry with
  | none =>
    refine ⟨rfl,le_rfl,hn.le,?_⟩
    intro b
    simp only [currentBucket, remaining, filter_none, getD_none]
    split_ifs <;> omega
  | some st =>
    obtain ⟨hbucket,hcount,hfull⟩ := hsound st rfl
    rw [currentBucket_some]
    split
    · next heq => exact ⟨heq,hcount,hfull,fun b => le_rfl⟩
    next hne =>
    refine ⟨rfl,le_rfl,hn.le,?_⟩
    intro b
    simp only [remaining]
    split_ifs <;> omega

variable (l : Limiter) (db : Database) {cfg : LimitConfig}

theorem checkRate_cases (hn : 0 < n) (hwindow : 0 < window)
    (hrate : HasRate n window cfg) {st : RateBucket}
    (hst : currentBucket (l.rateBuckets p) (bucketOf window now) = st) :
    ((l.checkRate p cfg now).2 ≠ none ∧ (l.checkRate p cfg now).1.rateBuckets p = some st) ∨
      (l.checkRate p cfg now).2 = none ∧ st.count < n ∧
        (l.checkRate p cfg now).1.rateBuckets p = some ⟨st.bucket,st.count+1⟩ := by
  obtain ⟨rfl,rfl⟩ := hrate
  have hon : ¬(cfg.rateRequests ≤ 0 ∨ cfg.rateWindowSeconds ≤ 0) := by omega
  rw [Limiter.checkRate, if_neg hon]
  dsimp only
  rw [hst]
  split
  · exact Or.inl ⟨some_ne_none _,Function.update_self _ _ _⟩
  · next hfree => exact Or.inr ⟨rfl,not_le.mp hfree,Function.update_self _ _ _⟩

/-- A request that passes takes one of what its window has left. -/
theorem checkRate_remaining (hn : 0 < n) (hwindow : 0 < window)
    (hrate : HasRate n window cfg) (hsound : Sound n window now (l.rateBuckets p)) :
    Sound n window now ((l.checkRate p cfg now).1.rateBuckets p) ∧
      ∀ b, (if bucketOf window now = b ∧ (l.checkRate p cfg now).2 = none then 1 else 0) +
        remaining n ((l.checkRate p cfg now).1.rateBuckets p) b ≤ remaining n (l.rateBuckets p) b := by
  obtain ⟨hbucket,hcount,hfull,hle⟩ := currentBucket_spec hn hsound
  rcases checkRate_cases l hn hwindow hrate rfl with ⟨hdenied,heq⟩ | ⟨hpassed,hfree,heq⟩
  · rw [heq]
    constructor
    · rintro _ ⟨⟩
      exact ⟨hbucket.le,hcount,hfull⟩
    · intro b
      rw [if_neg fun h => hdenied h.2, zero_add]
      exact hle b
  rw [heq]
  constructor
  · rintro _ ⟨⟩
    exact ⟨hbucket.le,by dsimp only; omega,by dsimp only; omega⟩
  · intro b
    refine le_trans ?_ (hle b)
    simp only [remaining, hpassed, and_true, hbucket]
    split_ifs <;> omega

theorem configFor_rateBuckets (fails : Bool) (q : Principal) (now : Instant) :
    (l.configFor db fails q now).1.rateBuckets = l.rateBuckets := by
  rw [Limiter.configFor]
  split
  · rfl
  · split
    · rfl
    · rfl

theorem admit_rate (hcfg : (l.configFor db false p now).2 = some cfg) (hne : cfg ≠ {}) :
    (l.admitRequest db {} p now).1.rateBuckets = (l.checkRate p cfg now).1.rateBuckets ∧
      ((l.admitRequest db {} p now).2.1.isRate = false ↔ (l.checkRate p cfg now).2 = none) := by
  have hsame : ((l.configFor db false p now).1.checkRate p cfg now).1.rateBuckets =
      (l.checkRate p cfg now).1.rateBuckets ∧
      ((l.configFor db false p now).1.checkRate p cfg now).2 = (l.checkRate p cfg now).2 := by
    have hbuckets := configFor_rateBuckets l db false p now
    rw [Limiter.checkRate, Limiter.checkRate, hbuckets]
    split
    · exact ⟨hbuckets,rfl⟩
    dsimp only
    split
    · exact ⟨rfl,rfl⟩
    · exact ⟨rfl,rfl⟩
  rw [Limiter.admitRequest]
  dsimp only
  rw [hcfg]
  dsimp only
  rw [if_neg hne, ← hsame.1, ← hsame.2]
  split
  · next wait heq =>
    rw [heq]
    exact ⟨rfl,⟨fun h => absurd h (by simp [Verdict.isRate]),fun h => absurd h (some_ne_none _)⟩⟩
  next heq =>
  rw [heq]
  obtain ⟨-,hrate,hverdict⟩ := checkLimits_other
    ((l.configFor db false p now).1.checkRate p cfg now).1 db p now (limitsOf cfg {})
  refine ⟨hrate,⟨fun _ => rfl,fun _ => ?_⟩⟩
  rcases hverdict with hallowed | ⟨limit,hlimit,hv⟩
  · rw [hallowed]
    rfl
  rw [hv]
  rw [limitsOf, mem_cons, mem_cons, mem_singleton] at hlimit
  rcases hlimit with rfl | rfl | rfl
  · rfl
  · rfl
  · rfl

theorem checkRate_other {q : Principal} (hq : p ≠ q) (cfg : LimitConfig) (now : Instant) :
    (l.checkRate q cfg now).1.rateBuckets p = l.rateBuckets p := by
  rw [Limiter.checkRate]
  split
  · rfl
  dsimp only
  split
  · exact Function.update_of_ne hq _ _
  · exact Function.update_of_ne hq _ _

theorem admit_other {q : Principal} (hq : p ≠ q) (faults : Faults) (now : Instant) :
    (l.admitRequest db faults q now).1.rateBuckets p = l.rateBuckets p := by
  have hconfig := congrFun (configFor_rateBuckets l db faults.config q now) p
  rw [Limiter.admitRequest]
  dsimp only
  split
  · exact hconfig
  next cfg _ =>
  have hrate := (checkRate_other (l.configFor db faults.config q now).1 hq cfg now).trans hconfig
  split
  · exact hconfig
  · split
    · exact hrate
    · exact (congrFun (checkLimits_other _ _ _ _ _).2.1 p).trans hrate

theorem configFor_some (q : Principal) (now : Instant) :
    ∃ cfg, (l.configFor db false q now).2 = some cfg := by
  rw [Limiter.configFor]
  split
  · exact ⟨_,rfl⟩
  · rw [if_neg Bool.false_ne_true]
    exact ⟨_,rfl⟩

theorem admit_remaining {w : World} (hn : 0 < n) (hwindow : 0 < window)
    (hholds : Holds p (HasRate n window) w)
    (hsound : Sound n window now (w.limiter.rateBuckets p)) :
    Sound n window now ((step w (.admitRequest p now {})).limiter.rateBuckets p) ∧
      ∀ b, (if bucketOf window now = b ∧ (w.admitRequest p now {}).2.1.isRate = false then 1 else 0) +
        remaining n ((step w (.admitRequest p now {})).limiter.rateBuckets p) b ≤
          remaining n (w.limiter.rateBuckets p) b := by
  obtain ⟨cfg,hcfg⟩ := configFor_some w.limiter w.db p now
  have hrate := configFor_holds hholds now hcfg
  have hne : cfg ≠ {} := by
    rintro rfl
    exact absurd hrate.1 hn.ne
  obtain ⟨hbuckets,hpasses⟩ := admit_rate w.limiter w.db hcfg hne
  rw [step, World.admitRequest, hbuckets]
  simp only [hpasses]
  exact checkRate_remaining w.limiter hn hwindow hrate hsound

theorem ratePasses_le (hn : 0 < n) (hwindow : 0 < window) (b : ℤ) (events : List Event) {w : World}
    (hsound : Sound n window clock (w.limiter.rateBuckets p)) (hclock : Clocked clock events)
    (hreads : Reads events) (hholds : Holds p (HasRate n window) w)
    (hkeeps : Keeps p (HasRate n window) events) :
    (ratePasses p (fun now => bucketOf window now = b) w events : ℤ) ≤
      remaining n (w.limiter.rateBuckets p) b := by
  induction events generalizing w clock with
  | nil =>
    rw [ratePasses]
    cases hentry : w.limiter.rateBuckets p with
    | none => exact hn.le
    | some st =>
      obtain ⟨-,hcount,hfull⟩ := hsound st hentry
      rw [remaining]
      split_ifs <;> omega
  | cons e events ih =>
    have hreads' : Reads events := fun q now faults hmem => hreads q now faults (mem_cons_of_mem e hmem)
    have hkeeps' : Keeps p (HasRate n window) events := fun x hx => hkeeps x (mem_cons_of_mem e hx)
    have hholds' : Holds p (HasRate n window) (step w e) := by
      apply step_holds hholds
      rintro x rfl
      exact hkeeps x mem_cons_self
    have hlater : ∀ now, clock ≤ now → Sound n window now (w.limiter.rateBuckets p) := by
      intro now hnow st hst
      obtain ⟨hbucket,hcount⟩ := hsound st hst
      exact ⟨hbucket.trans (Int.tdiv_le_tdiv hwindow (unix_mono hnow)),hcount⟩
    cases e with
    | admitRequest q now faults =>
      obtain rfl := hreads q now faults mem_cons_self
      have hnow := hlater now (hclock.1 now rfl)
      rw [ratePasses]
      by_cases hq : q = p
      · subst hq
        obtain ⟨hsound',hle⟩ := admit_remaining hn hwindow hholds hnow
        have hrest := ih hsound' hclock.2 hreads' hholds' hkeeps'
        have hb := hle b
        simp only [true_and, decide_eq_true_eq]
        push_cast
        exact (add_le_add_right hrest _).trans hb
      · have hsame := admit_other w.limiter w.db (Ne.symm hq) {} now
        rw [if_neg fun h => hq h.1, zero_add, ← hsame]
        exact ih (hsame.symm ▸ hnow) hclock.2 hreads' hholds' hkeeps'
    | complete q now tokens cost =>
      have hsame := congrFun (record_rateBuckets w.limiter q tokens cost now) p
      have hrest := ih (w := step w (.complete q now tokens cost))
        (hsame.symm ▸ hlater now (hclock.1 now rfl)) hclock.2 hreads' hholds' hkeeps'
      rw [step, hsame] at hrest
      exact hrest
    | setLimits q cfg => exact ih hsound hclock.2 hreads' hholds' hkeeps'

end rate

/-- From the epoch on a window of that many seconds is one of the limiter's. -/
theorem bucketOf_of_window {window : ℤ} {k : ℕ} {now : Instant} (hfrom : k*window ≤ unix now)
    (hto : unix now < (k+1)*window) : bucketOf window now = k := by
  have hwindow : 0 < window := by
    have hlt := hfrom.trans_lt hto
    rw [add_mul, one_mul] at hlt
    omega
  have hpos : 0 ≤ unix now := (mul_nonneg (Int.natCast_nonneg k) hwindow.le).trans hfrom
  rw [bucketOf, Int.tdiv_eq_ediv_of_nonneg hpos]
  refine le_antisymm ?_ ((Int.le_ediv_iff_mul_le hwindow).mpr hfrom)
  exact Int.lt_add_one_iff.mp (Int.ediv_lt_of_lt_mul hwindow hto)

theorem ratePasses_mono {p : Principal} {a b : Instant → Bool} (h : ∀ now, a now → b now)
    (events : List Event)
    (w : World) : ratePasses p a w events ≤ ratePasses p b w events := by
  induction events generalizing w with
  | nil => exact le_rfl
  | cons e events ih =>
    cases e with
    | admitRequest q now faults =>
      rw [ratePasses, ratePasses]
      refine add_le_add ?_ (ih _)
      split_ifs with ha hb
      · exact le_rfl
      · exact absurd ⟨ha.1,h now ha.2.1,ha.2.2⟩ hb
      · exact Nat.zero_le _
      · exact le_rfl
    | complete q now tokens cost => exact ih _
    | setLimits q cfg => exact ih _

/-! ### Comparisons, quotas and rates of a run -/

/-- Every comparison uses the sums of the store since the start of the current
period of the configuration in use. -/
def ComparesExactly (w : World) (events : List Event) : Prop :=
  ∀ before p now after, events = before ++ .admitRequest p now {}::after → ∃ cfg,
    ((run w before).limiter.configFor (run w before).db false p now).2 = some cfg ∧
      ∀ x ∈ ((run w before).admitRequest p now {}).2.2, x.limit ∈ limitsOf cfg {} ∧
        x.used = (run w before).db.usageAggregateSince p (periodStart x.limit.period now)

/-- With a quota that stays and requests one at a time, no more requests complete in
a period than the quota leaves. -/
def QuotaBounds (w : World) (start : Instant) (events : List Event) : Prop :=
  ∀ p quota period, 0 < quota → period ≠ .off → (∀ u ∈ w.db.usage, u.principal = p → u.createdAt ≤ start) →
    (∃ cfg, w.db.limits p = some cfg ∧ HasQuota quota period cfg) → Keeps p (HasQuota quota period) events →
    OneAtATime p false w events → ∀ before stretch ps, events = before ++ stretch → Within period ps stretch →
      (completions p stretch : ℤ) ≤ max 0 (quota - usedRequests (run w before) p ps)

/-- With a rate that stays, no window has more requests pass than it allows: neither
a bucket of the limiter nor the seconds of an aligned window. -/
def RateBounds (w : World) (events : List Event) : Prop :=
  ∀ p n window, 0 < n → 0 < window → (∃ cfg, w.db.limits p = some cfg ∧ HasRate n window cfg) →
    Keeps p (HasRate n window) events →
    (∀ b, (ratePasses p (fun now => bucketOf window now = b) w events : ℤ) ≤ n) ∧
      ∀ k : ℕ, (ratePasses p (fun now => k*window ≤ unix now ∧ unix now < (k+1)*window) w events : ℤ) ≤ n

theorem limiter_exact (ttl : ℤ) (db : Database) (start : Instant) (events : List Event)
    (hclock : Clocked start events) (hreads : Reads events) :
    ComparesExactly ⟨newPrincipalLimiter ttl,db⟩ events ∧
      QuotaBounds ⟨newPrincipalLimiter ttl,db⟩ start events ∧
      RateBounds ⟨newPrincipalLimiter ttl,db⟩ events := by
  have hgood : Good (newPrincipalLimiter ttl) db start := new_good ttl db start
  have hcache : ∀ p, (newPrincipalLimiter ttl).configCache p = none := fun p => by rw [newPrincipalLimiter]
  have hholds : ∀ p (P : LimitConfig → Prop), (∃ cfg, db.limits p = some cfg ∧ P cfg) →
      Holds p P ⟨newPrincipalLimiter ttl,db⟩ := by
    intro p P hstored
    refine ⟨hstored,?_⟩
    intro c hc
    rw [hcache p] at hc
    cases hc
  refine ⟨?_,?_,?_⟩
  · rintro before p now after rfl
    obtain ⟨hbefore,hafter⟩ := (clocked_append start before _).mp hclock
    have hrun := run_good before ⟨newPrincipalLimiter ttl,db⟩ start hgood hbefore
      fun q t faults hmem => hreads q t faults (mem_append_left _ hmem)
    obtain ⟨-,cfg,hexact⟩ := admit_exact (p := p) (hrun.later (hafter.1 now rfl))
    exact ⟨cfg,hexact.config,hexact.comparisons⟩
  · rintro p quota period hquota hperiod hrows hstored hkeeps hserial before stretch ps rfl hin
    have hsteady : Steady p quota period ⟨newPrincipalLimiter ttl,db⟩ start false (before ++ stretch) :=
      ⟨hgood,hclock,hreads,hholds p _ hstored,hkeeps,hserial,hrows,fun h => absurd h Bool.false_ne_true⟩
    obtain ⟨clock',busy',hrun⟩ := hsteady.run hquota hperiod before
    exact completions_le hquota hperiod ps stretch hrun hin
  · intro p n window hn hwindow hstored hkeeps
    have hnone : (newPrincipalLimiter ttl).rateBuckets p = none := by rw [newPrincipalLimiter]
    have hbuckets : ∀ b, (ratePasses p (fun now => bucketOf window now = b)
        ⟨newPrincipalLimiter ttl,db⟩ events : ℤ) ≤ n := by
      intro b
      have hsound : Sound n window start ((newPrincipalLimiter ttl).rateBuckets p) := by
        rw [hnone]
        intro st hst
        cases hst
      have hle := ratePasses_le (w := ⟨newPrincipalLimiter ttl,db⟩) hn hwindow b events hsound hclock hreads
        (hholds p _ hstored) hkeeps
      rw [hnone] at hle
      exact hle
    refine ⟨hbuckets,?_⟩
    intro k
    have hmono := ratePasses_mono (p := p) (a := fun now => k*window ≤ unix now ∧ unix now < (k+1)*window)
      (b := fun now => bucketOf window now = k) (by
        intro now hnow
        rw [decide_eq_true_eq] at hnow ⊢
        exact bucketOf_of_window hnow.1 hnow.2) events ⟨newPrincipalLimiter ttl,db⟩
    exact (Int.ofNat_le.mpr hmono).trans (hbuckets k)

section Client

def client : Principal := ⟨"service","s"⟩

def ledger : Database where
  usage := []
  limits := fun p => if p = client then some { requestQuota := 1, requestQuotaPeriod := .day } else none

def morning : List Event :=
  [.admitRequest client (63870000000*second) {},.complete client (63870000001*second) 7 (1/2),
    .admitRequest client (63870000002*second) {}]

end Client

theorem limiter_exact_morning : (ComparesExactly ⟨newPrincipalLimiter 0,ledger⟩ morning ∧
      QuotaBounds ⟨newPrincipalLimiter 0,ledger⟩ 0 morning ∧
      RateBounds ⟨newPrincipalLimiter 0,ledger⟩ morning) ∧
    ((run ⟨newPrincipalLimiter 0,ledger⟩ (morning.take 2)).admitRequest client (63870000002*second) {}).2.1 =
      .requestQuota := by
  refine ⟨limiter_exact 0 ledger 0 morning ⟨?_,?_,?_,trivial⟩ ?_,by decide +kernel⟩
  · exact fun now _ => Nat.zero_le now
  · rintro _ ⟨⟩
    decide +kernel
  · rintro _ ⟨⟩
    decide +kernel
  · intro p now faults hmem
    simp only [morning, mem_cons, not_mem_nil, or_false, Event.admitRequest.injEq, reduceCtorEq,
      false_or] at hmem
    rcases hmem with ⟨-,-,rfl⟩ | ⟨-,-,rfl⟩
    · rfl
    · rfl

end OnPremGateway.LimiterBounds
