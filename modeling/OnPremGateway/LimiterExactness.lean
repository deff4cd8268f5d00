import OnPremGateway.PrincipalLimits

/-!
# The limiter is exact

The limiter compares the limits with sums it may have read a while ago. They are
nevertheless the sums of the store at the moment of the comparison: a completed
request is added to every sum that can still be read while it is fresh. A sum it
is not added to is one of an earlier period, or of a period the configuration in
use does not name; by the time another configuration names it, the sum has expired.
-/

set_option autoImplicit false

namespace OnPremGateway.LimiterExactness
open PrincipalLimits CalendarPeriods List Option Function Nat

variable (period : Period) {ttl : ℕ} {db : Database} {now : Instant} {p : Principal}

theorem periodStart_mono {t t' : Instant} (h : t ≤ t') :
    periodStart period t ≤ periodStart period t' := by
  have hday : t/day ≤ t'/day := Nat.div_le_div_right h
  cases period with
  | off => exact le_rfl
  | hour => exact floor_mono hour h
  | day => exact floor_mono day h
  | week => exact mul_le_mul_right day (sub_weekday_mono hday)
  | month => exact mul_le_mul_right day (sub_dayOfMonth_mono hday)
  | other name => exact le_rfl

theorem periodStart_le (t : Instant) : periodStart period t ≤ t := by
  have hday : t/day*day ≤ t := div_mul_le_self t day
  cases period with
  | off => exact zero_le t
  | hour => exact div_mul_le_self t hour
  | day => exact hday
  | week => exact (mul_le_mul_right day (sub_le _ _)).trans hday
  | month => exact (mul_le_mul_right day (sub_le _ _)).trans hday
  | other name => exact zero_le t

theorem periodStart_between {t t' : Instant} (hs : periodStart period t' ≤ t) (h : t ≤ t') :
    periodStart period t = periodStart period t' := by
  have hpos : 0 < day := by decide
  have hday : t/day ≤ t'/day := Nat.div_le_div_right h
  cases period with
  | off => rfl
  | hour => exact floor_between (by decide) hs h
  | day => exact floor_between hpos hs h
  | week =>
    rw [periodStart, periodStart, sub_weekday_between ((le_div_iff_mul_le hpos).mpr hs) hday]
  | month =>
    rw [periodStart, periodStart, sub_dayOfMonth_between ((le_div_iff_mul_le hpos).mpr hs) hday]
  | other name => rfl

/-! ### Sums -/

theorem usageAggregateSince_append (db : Database) (u : Usage) (p : Principal) (since : Instant) :
    ({ db with usage := db.usage ++ [u] } : Database).usageAggregateSince p since =
      if u.principal = p ∧ since ≤ u.createdAt then (db.usageAggregateSince p since).add u.tokens u.cost
      else db.usageAggregateSince p since := by
  simp only [Database.usageAggregateSince, filter_append, foldl_append, filter_cons,
    filter_nil, decide_eq_true_eq]
  split
  · rfl
  · rfl

/-! ### The invariant -/

/-- A sum is up to date and kept so, or it is of an earlier period, or its period is
not in use and has not been since the configuration was read, or it has expired
before that. -/
inductive Tracked (ttl : ℕ) (db : Database) (clock : Instant) (p : Principal) (period : Period)
    (c : ConfigEntry) (e : AggregateEntry) : Prop
  | exact (hsums : e.sums = db.usageAggregateSince p e.periodStart) (hperiod : period ∈ c.cfg.periods)
  | past (h : e.periodStart < periodStart period clock)
  | unused (hperiod : period ∉ c.cfg.periods) (hloaded : e.loadedAt ≤ c.loadedAt)
  | expired (h : e.loadedAt + ttl ≤ c.loadedAt)

structure EntryGood (ttl : ℕ) (db : Database) (clock : Instant) (p : Principal) (period : Period)
    (c : ConfigEntry) (e : AggregateEntry) : Prop where
  loaded : e.loadedAt ≤ clock
  start : e.periodStart = periodStart period e.loadedAt
  tracked : Tracked ttl db clock p period c e

structure Good (l : Limiter) (db : Database) (clock : Instant) : Prop where
  config : ∀ p c, l.configCache p = some c → c.loadedAt ≤ clock
  entry : ∀ p period e, l.aggCache p period = some e →
    ∃ c, l.configCache p = some c ∧ EntryGood l.cacheTTL db clock p period c e

variable {clock : Instant} {c : ConfigEntry} {e : AggregateEntry}

theorem EntryGood.later {now : Instant} {p : Principal} {period : Period}
    (h : EntryGood ttl db clock p period c e) (hnow : clock ≤ now) :
    EntryGood ttl db now p period c e where
  loaded := h.loaded.trans hnow
  start := h.start
  tracked := by
    cases h.tracked with
    | exact hsums hperiod => exact .exact hsums hperiod
    | past hpast => exact .past (hpast.trans_le (periodStart_mono period hnow))
    | unused hperiod hloaded => exact .unused hperiod hloaded
    | expired hexpired => exact .expired hexpired

theorem Good.later {l : Limiter} {db : Database} {now : Instant} (h : Good l db clock)
    (hnow : clock ≤ now) : Good l db now where
  config := fun p c hc => (h.config p c hc).trans hnow
  entry := by
    intro p period e he
    obtain ⟨c,hc,hgood⟩ := h.entry p period e he
    exact ⟨c,hc,hgood.later hnow⟩

/-- What is still fresh under a configuration that names its period is up to date. -/
theorem EntryGood.fresh {period : Period} (h : EntryGood ttl db now p period c e)
    (hloaded : c.loadedAt ≤ now) (hperiod : period ∈ c.cfg.periods)
    (hstart : e.periodStart = periodStart period now) (hfresh : now < e.loadedAt + ttl) :
    e.sums = db.usageAggregateSince p (periodStart period now) := by
  cases h.tracked with
  | exact hsums _ =>
    rw [hsums, hstart]
  | past hpast => exact absurd hstart hpast.ne
  | unused hnot _ => exact absurd hperiod hnot
  | expired hexpired => exact absurd (hfresh.trans_le (hexpired.trans hloaded)) (lt_irrefl now)

/-- A configuration that is read again leaves the sums in order. -/
theorem EntryGood.reload {period : Period} (h : EntryGood ttl db now p period c e)
    (hloaded : c.loadedAt ≤ now) (hstale : c.loadedAt + ttl ≤ now) (cfg : LimitConfig) :
    EntryGood ttl db now p period ⟨cfg,now⟩ e where
  loaded := h.loaded
  start := h.start
  tracked := by
    cases h.tracked with
    | exact hsums _ =>
      by_cases hperiod : period ∈ cfg.periods
      · exact .exact hsums hperiod
      · exact .unused hperiod h.loaded
    | past hpast => exact .past hpast
    | unused _ hbefore => exact .expired ((Nat.add_le_add_right hbefore ttl).trans hstale)
    | expired hexpired => exact .expired (hexpired.trans hloaded)

/-- A completed request is added to every sum that is kept up to date. -/
theorem EntryGood.record {period : Period} (h : EntryGood ttl db now p period c e) (tokens : ℤ)
    (cost : ℚ) : EntryGood ttl { db with usage := db.usage ++ [⟨p,now,tokens,cost⟩] } now p period c
      (if period ∈ c.cfg.periods ∧ e.periodStart = periodStart period now then
        { e with sums := e.sums.add tokens cost }
      else e) := by
  split
  · next hbump =>
    refine ⟨h.loaded,h.start,?_⟩
    cases h.tracked with
    | exact hsums hperiod =>
      refine .exact ?_ hperiod
      have hin : e.periodStart ≤ now := hbump.2 ▸ periodStart_le period now
      rw [usageAggregateSince_append, if_pos ⟨rfl,hin⟩, ← hsums]
    | past hpast => exact .past hpast
    | unused hnot _ => exact absurd hbump.1 hnot
    | expired hexpired => exact .expired hexpired
  · next hskip =>
    refine ⟨h.loaded,h.start,?_⟩
    cases h.tracked with
    | exact hsums hperiod =>
      -- the period of the sum is over
      have hle : e.periodStart ≤ periodStart period now := h.start ▸ periodStart_mono period h.loaded
      exact .past (lt_of_le_of_ne hle fun heq => hskip ⟨hperiod,heq⟩)
    | past hpast => exact .past hpast
    | unused hnot hloaded => exact .unused hnot hloaded
    | expired hexpired => exact .expired hexpired

/-! ### The parts of an admission -/

section admission

variable {l : Limiter} {db : Database} {p : Principal} {now : Instant}

theorem configFor_good (h : Good l db now) : ∃ c, (l.configFor db false p now).2 = some c.cfg ∧
    (l.configFor db false p now).1.configCache p = some c ∧ Good (l.configFor db false p now).1 db now := by
  rw [Limiter.configFor]
  split
  · next e heq =>
    obtain ⟨hc,-⟩ := filter_eq_some_iff.mp heq
    exact ⟨e,rfl,hc,h⟩
  next heq =>
  rw [if_neg Bool.false_ne_true]
  dsimp only
  refine ⟨⟨_,now⟩,rfl,update_self _ _ _,?_,?_⟩
  · intro q c hc
    dsimp only at hc
    by_cases hq : q = p
    · subst hq
      rw [update_self] at hc
      cases hc
      exact le_rfl
    · rw [update_of_ne hq] at hc
      exact h.config q c hc
  · intro q period e he
    obtain ⟨c,hc,hgood⟩ := h.entry q period e he
    by_cases hq : q = p
    · subst hq
      refine ⟨_,update_self _ _ _,hgood.reload (h.config q c hc) ?_ _⟩
      by_contra hfresh
      rw [filter_eq_none_iff] at heq
      exact heq c hc (by simpa using hfresh)
    · exact ⟨c,(update_of_ne hq _ _).trans hc,hgood⟩

theorem checkRate_caches (l : Limiter) (p : Principal) (now : Instant) (cfg : LimitConfig) :
    (l.checkRate p cfg now).1.cacheTTL = l.cacheTTL ∧ (l.checkRate p cfg now).1.aggCache = l.aggCache ∧
      (l.checkRate p cfg now).1.configCache = l.configCache := by
  rw [Limiter.checkRate]
  split
  · exact ⟨rfl,rfl,rfl⟩
  dsimp only
  split
  · exact ⟨rfl,rfl,rfl⟩
  · exact ⟨rfl,rfl,rfl⟩

theorem Good.checkRate (h : Good l db now) (cfg : LimitConfig) : Good (l.checkRate p cfg now).1 db now := by
  obtain ⟨httl,hagg,hconfig⟩ := checkRate_caches l p now cfg
  constructor
  · rw [hconfig]
    exact h.config
  · rw [hconfig, hagg, httl]
    exact h.entry

/-- A sum for a period in use is that of the store. -/
theorem aggregate_exact (h : Good l db now) (hc : l.configCache p = some c) {period : Period}
    (hperiod : period ∈ c.cfg.periods) :
    (l.aggregate db false p period now).2 = db.usageAggregateSince p (periodStart period now) ∧
      Good (l.aggregate db false p period now).1 db now ∧
      (l.aggregate db false p period now).1.configCache = l.configCache := by
  rw [Limiter.aggregate]
  dsimp only
  split
  · next e heq =>
    obtain ⟨he,hfresh⟩ := filter_eq_some_iff.mp heq
    rw [decide_eq_true_eq] at hfresh
    obtain ⟨c',hc',hgood⟩ := h.entry p period e he
    obtain rfl := some.inj (hc.symm.trans hc')
    exact ⟨hgood.fresh (h.config p c hc) hperiod hfresh.1 hfresh.2,h,rfl⟩
  rw [if_neg Bool.false_ne_true]
  refine ⟨rfl,⟨h.config,?_⟩,rfl⟩
  intro q per e he
  dsimp only at he
  by_cases hq : q = p
  · subst hq
    rw [update_self] at he
    by_cases hper : per = period
    · subst hper
      rw [update_self] at he
      cases he
      exact ⟨c,hc,le_rfl,rfl,.exact rfl hperiod⟩
    · rw [update_of_ne hper] at he
      exact h.entry q per e he
  · rw [update_of_ne hq] at he
    exact h.entry q per e he

/-- The limits are compared with the sums of the store, and all of them are when
the request is allowed. -/
theorem checkLimits_exact (limits : List Limit) (h : Good l db now) (hc : l.configCache p = some c)
    (hlimits : ∀ limit ∈ limits, limit.fails = false ∧ limit.verdict ≠ .allowed ∧
      (limit.on → limit.period ∈ c.cfg.periods)) : Good (l.checkLimits db p now limits).1 db now ∧
      (∀ x ∈ (l.checkLimits db p now limits).2.2, x.limit ∈ limits ∧
        x.used = db.usageAggregateSince p (periodStart x.limit.period now)) ∧
      ((l.checkLimits db p now limits).2.1 = .allowed → ∀ limit ∈ limits, limit.on →
        limit.reached (db.usageAggregateSince p (periodStart limit.period now)) = false) := by
  induction limits generalizing l with
  | nil => exact ⟨h,nofun,nofun⟩
  | cons limit limits ih =>
    obtain ⟨hfails,hverdict,hperiod⟩ := hlimits limit mem_cons_self
    have hrest := fun x hx => hlimits x (mem_cons_of_mem limit hx)
    rw [Limiter.checkLimits]
    split
    · next hon =>
      obtain ⟨hused,hgood,hconfig⟩ := aggregate_exact h hc (hperiod hon)
      dsimp only
      rw [hfails]
      split
      · next hreached =>
        refine ⟨hgood,?_,fun hallowed => absurd hallowed hverdict⟩
        intro x hx
        rw [mem_singleton] at hx
        subst hx
        exact ⟨mem_cons_self,hused⟩
      next hreached =>
      obtain ⟨hgood',hexact,hallowed⟩ := ih hgood (hconfig ▸ hc) hrest
      refine ⟨hgood',?_,?_⟩
      · intro x hx
        rcases mem_cons.mp hx with rfl | hx
        · exact ⟨mem_cons_self,hused⟩
        · exact ⟨mem_cons_of_mem limit (hexact x hx).1,(hexact x hx).2⟩
      · intro hv x hx hxon
        rcases mem_cons.mp hx with rfl | hx
        · rw [← hused]
          exact Bool.not_eq_true _ ▸ hreached
        · exact hallowed hv x hx hxon
    · next hoff =>
      obtain ⟨hgood',hexact,hallowed⟩ := ih h hc hrest
      refine ⟨hgood',?_,?_⟩
      · intro x hx
        exact ⟨mem_cons_of_mem limit (hexact x hx).1,(hexact x hx).2⟩
      · intro hv x hx hxon
        rcases mem_cons.mp hx with rfl | hx
        · exact absurd hxon hoff
        · exact hallowed hv x hx hxon

theorem limitsOf_checked (cfg : LimitConfig) (limit : Limit) (h : limit ∈ limitsOf cfg {}) :
    limit.fails = false ∧ limit.verdict ≠ .allowed ∧ (limit.on → limit.period ∈ cfg.periods) := by
  have hperiod : limit.on → limit.period ∈ cfg.periods := fun hon =>
    mem_map_of_mem (mem_filter.mpr ⟨h,hon⟩)
  rw [limitsOf, mem_cons, mem_cons, mem_singleton] at h
  rcases h with rfl | rfl | rfl
  · exact ⟨rfl,nofun,hperiod⟩
  · exact ⟨rfl,nofun,hperiod⟩
  · exact ⟨rfl,nofun,hperiod⟩

/-- What an admission compares and what it allows. -/
structure Exact (l : Limiter) (db : Database) (p : Principal) (now : Instant) (cfg : LimitConfig) : Prop where
  config : (l.configFor db false p now).2 = some cfg
  comparisons : ∀ x ∈ (l.admitRequest db {} p now).2.2, x.limit ∈ limitsOf cfg {} ∧
    x.used = db.usageAggregateSince p (periodStart x.limit.period now)
  allowed : (l.admitRequest db {} p now).2.1 = .allowed → ∀ limit ∈ limitsOf cfg {}, limit.on →
    limit.reached (db.usageAggregateSince p (periodStart limit.period now)) = false

theorem admit_exact (h : Good l db now) :
    Good (l.admitRequest db {} p now).1 db now ∧ ∃ cfg, Exact l db p now cfg := by
  obtain ⟨c,hcfg,hc,hgood⟩ := configFor_good (p := p) h
  suffices hadmitted : Good (l.admitRequest db {} p now).1 db now ∧
      (∀ x ∈ (l.admitRequest db {} p now).2.2, x.limit ∈ limitsOf c.cfg {} ∧
        x.used = db.usageAggregateSince p (periodStart x.limit.period now)) ∧
      ((l.admitRequest db {} p now).2.1 = .allowed → ∀ limit ∈ limitsOf c.cfg {}, limit.on →
        limit.reached (db.usageAggregateSince p (periodStart limit.period now)) = false) from
    ⟨hadmitted.1,c.cfg,hcfg,hadmitted.2.1,hadmitted.2.2⟩
  rw [Limiter.admitRequest]
  dsimp only
  rw [hcfg]
  dsimp only
  split
  · next hzero =>
    refine ⟨hgood,nofun,?_⟩
    intro _ limit hlimit hon
    -- no limit is on in the zero configuration
    rw [hzero] at hlimit
    have hoff : ∀ x ∈ limitsOf {} {}, x.on = false := by decide
    rw [hoff limit hlimit] at hon
    exact absurd hon Bool.false_ne_true
  · have hrate := Good.checkRate (p := p) hgood c.cfg
    split
    · exact ⟨hrate,nofun,nofun⟩
    · refine checkLimits_exact (limitsOf c.cfg {}) hrate ?_ (limitsOf_checked c.cfg)
      rw [(checkRate_caches _ _ _ c.cfg).2.2]
      exact hc

/-! What an admission leaves alone. -/

theorem aggregate_other (l : Limiter) (db : Database) (p : Principal) (now : Instant) (fails : Bool)
    (period : Period) : (l.aggregate db fails p period now).1.configCache = l.configCache ∧
      (l.aggregate db fails p period now).1.rateBuckets = l.rateBuckets := by
  rw [Limiter.aggregate]
  dsimp only
  split
  · exact ⟨rfl,rfl⟩
  · split
    · exact ⟨rfl,rfl⟩
    · exact ⟨rfl,rfl⟩

theorem checkLimits_other (l : Limiter) (db : Database) (p : Principal) (now : Instant)
    (limits : List Limit) :
    (l.checkLimits db p now limits).1.configCache = l.configCache ∧
      (l.checkLimits db p now limits).1.rateBuckets = l.rateBuckets ∧
      ((l.checkLimits db p now limits).2.1 = .allowed ∨
        ∃ limit ∈ limits, (l.checkLimits db p now limits).2.1 = limit.verdict) := by
  induction limits generalizing l with
  | nil => exact ⟨rfl,rfl,Or.inl rfl⟩
  | cons limit limits ih =>
    have hsame := aggregate_other l db p now limit.fails limit.period
    rw [Limiter.checkLimits]
    split
    · dsimp only
      split
      · exact ⟨hsame.1,hsame.2,Or.inr ⟨limit,mem_cons_self,rfl⟩⟩
      obtain ⟨hconfig,hrate,hverdict⟩ := ih (l := (l.aggregate db limit.fails p limit.period now).1)
      refine ⟨hconfig.trans hsame.1,hrate.trans hsame.2,hverdict.imp_right ?_⟩
      rintro ⟨x,hx,heq⟩
      exact ⟨x,mem_cons_of_mem limit hx,heq⟩
    · obtain ⟨hconfig,hrate,hverdict⟩ := ih (l := l)
      refine ⟨hconfig,hrate,hverdict.imp_right ?_⟩
      rintro ⟨x,hx,heq⟩
      exact ⟨x,mem_cons_of_mem limit hx,heq⟩

end admission

/-! ### Runs -/

theorem EntryGood.congr {db db' : Database} {p : Principal} {period : Period}
    (h : EntryGood ttl db clock p period c e)
    (hsums : ∀ since, db'.usageAggregateSince p since = db.usageAggregateSince p since) :
    EntryGood ttl db' clock p period c e where
  loaded := h.loaded
  start := h.start
  tracked := by
    cases h.tracked with
    | exact heq hperiod => exact .exact (heq.trans (hsums _).symm) hperiod
    | past hpast => exact .past hpast
    | unused hperiod hloaded => exact .unused hperiod hloaded
    | expired hexpired => exact .expired hexpired

theorem record_configCache (l : Limiter) (p : Principal) (tokens : ℤ) (cost : ℚ) (now : Instant) :
    (l.record p tokens cost now).configCache = l.configCache := by
  rw [Limiter.record]
  split
  · rfl
  · rfl

theorem record_rateBuckets (l : Limiter) (p : Principal) (tokens : ℤ) (cost : ℚ) (now : Instant) :
    (l.record p tokens cost now).rateBuckets = l.rateBuckets := by
  rw [Limiter.record]
  split
  · rfl
  · rfl

theorem Good.record {l : Limiter} {db : Database} {now : Instant} (h : Good l db now) (p : Principal)
    (tokens : ℤ) (cost : ℚ) :
    Good (l.record p tokens cost now) { db with usage := db.usage ++ [⟨p,now,tokens,cost⟩] } now := by
  have hother : ∀ q, q ≠ p → ∀ since, ({ db with usage := db.usage ++ [⟨p,now,tokens,cost⟩] } :
      Database).usageAggregateSince q since = db.usageAggregateSince q since := by
    intro q hq since
    rw [usageAggregateSince_append, if_neg fun heq => hq heq.1.symm]
  refine ⟨record_configCache l p tokens cost now ▸ h.config,?_⟩
  rw [record_configCache]
  intro q period e he
  rw [Limiter.record] at he ⊢
  split at he
  · next hnone =>
    -- without a configuration there is no sum of the principal
    obtain ⟨c,hc,hgood⟩ := h.entry q period e he
    have hq : q ≠ p := by
      rintro rfl
      rw [hnone] at hc
      exact absurd hc nofun
    exact ⟨c,hc,hgood.congr (hother q hq)⟩
  next c hc =>
  dsimp only at he
  by_cases hq : q = p
  · subst hq
    rw [update_self, map_eq_some_iff] at he
    obtain ⟨e',he',rfl⟩ := he
    obtain ⟨c',hc',hgood⟩ := h.entry q period e' he'
    obtain rfl := some.inj (hc.symm.trans hc')
    exact ⟨c,hc,hgood.record tokens cost⟩
  · rw [update_of_ne hq] at he
    obtain ⟨c',hc',hgood⟩ := h.entry q period e he
    exact ⟨c',hc',hgood.congr (hother q hq)⟩

theorem step_good {w : World} (h : Good w.limiter w.db clock) {e : Event}
    (htime : ∀ now, e.time = some now → clock ≤ now)
    (hreads : ∀ p now faults, e = .admitRequest p now faults → faults = {}) :
    Good (step w e).limiter (step w e).db (e.time.getD clock) := by
  cases e with
  | admitRequest p now faults =>
    obtain rfl := hreads p now faults rfl
    exact (admit_exact (h.later (htime now rfl))).1
  | complete p now tokens cost => exact (h.later (htime now rfl)).record p tokens cost
  | setLimits p cfg =>
    refine ⟨h.config,?_⟩
    intro q period e he
    obtain ⟨c,hc,hgood⟩ := h.entry q period e he
    exact ⟨c,hc,hgood.congr fun _ => rfl⟩

theorem new_good (ttl : ℤ) (db : Database) (clock : Instant) : Good (newPrincipalLimiter ttl) db clock where
  config := by
    intro p c hc
    rw [newPrincipalLimiter] at hc
    cases hc
  entry := by
    intro p period e he
    rw [newPrincipalLimiter] at he
    cases he

def clockAfter (clock : Instant) (events : List Event) : Instant :=
  events.foldl (fun clock e => e.time.getD clock) clock

theorem clocked_append (clock : Instant) (before after : List Event) :
    Clocked clock (before ++ after) ↔ Clocked clock before ∧ Clocked (clockAfter clock before) after := by
  induction before generalizing clock with
  | nil => exact ⟨fun h => ⟨trivial,h⟩,fun h => h.2⟩
  | cons e before ih =>
    rw [cons_append, Clocked, Clocked, ih, and_assoc]
    rfl

theorem run_good (events : List Event) (w : World) (clock : Instant) (h : Good w.limiter w.db clock)
    (hclock : Clocked clock events) (hreads : Reads events) :
    Good (run w events).limiter (run w events).db (clockAfter clock events) := by
  induction events generalizing w clock with
  | nil => exact h
  | cons e events ih =>
    refine ih (step w e) _ (step_good h hclock.1 ?_) hclock.2 ?_
    · rintro p now faults rfl
      exact hreads p now faults mem_cons_self
    · intro p now faults hmem
      exact hreads p now faults (mem_cons_of_mem e hmem)

/-! ### A configuration that stays -/

structure Holds (p : Principal) (P : LimitConfig → Prop) (w : World) : Prop where
  stored : ∃ cfg, w.db.limits p = some cfg ∧ P cfg
  cached : ∀ c, w.limiter.configCache p = some c → P c.cfg

def Keeps (p : Principal) (P : LimitConfig → Prop) (events : List Event) : Prop :=
  ∀ x, Event.setLimits p x ∈ events → ∃ cfg, x = some cfg ∧ P cfg

section holds

variable {p : Principal} {P : LimitConfig → Prop} {w : World}

theorem configFor_holds (h : Holds p P w) (now : Instant) {cfg : LimitConfig}
    (hcfg : (w.limiter.configFor w.db false p now).2 = some cfg) : P cfg := by
  rw [Limiter.configFor] at hcfg
  split at hcfg
  · next e heq =>
    cases hcfg
    exact h.cached e (filter_eq_some_iff.mp heq).1
  rw [if_neg Bool.false_ne_true] at hcfg
  obtain ⟨stored,hstored,hP⟩ := h.stored
  rw [hstored] at hcfg
  cases hcfg
  exact hP

theorem configFor_configCache (h : Holds p P w) (q : Principal) (fails : Bool) (now : Instant)
    (c : ConfigEntry)
    (hc : (w.limiter.configFor w.db fails q now).1.configCache p = some c) : P c.cfg := by
  rw [Limiter.configFor] at hc
  split at hc
  · exact h.cached c hc
  split at hc
  · exact h.cached c hc
  dsimp only at hc
  by_cases hq : p = q
  · subst hq
    rw [update_self] at hc
    cases hc
    obtain ⟨stored,hstored,hP⟩ := h.stored
    rw [hstored]
    exact hP
  · rw [update_of_ne hq] at hc
    exact h.cached c hc

theorem admit_configCache (l : Limiter) (db : Database) (faults : Faults) (q : Principal) (now : Instant) :
    (l.admitRequest db faults q now).1.configCache = (l.configFor db faults.config q now).1.configCache := by
  rw [Limiter.admitRequest]
  dsimp only
  split
  · rfl
  next cfg _ =>
  have hrate := (checkRate_caches (l.configFor db faults.config q now).1 q now cfg).2.2
  split
  · rfl
  · split
    · exact hrate
    · exact (checkLimits_other _ _ _ _ _).1.trans hrate

theorem step_holds (h : Holds p P w) {e : Event}
    (hkeeps : ∀ x, e = .setLimits p x → ∃ cfg, x = some cfg ∧ P cfg) :
    Holds p P (step w e) := by
  cases e with
  | admitRequest q now faults =>
    refine ⟨h.stored,?_⟩
    intro c hc
    rw [step, World.admitRequest, admit_configCache] at hc
    exact configFor_configCache h q faults.config now c hc
  | complete q now tokens cost =>
    refine ⟨h.stored,?_⟩
    intro c hc
    rw [step, record_configCache] at hc
    exact h.cached c hc
  | setLimits q x =>
    refine ⟨?_,h.cached⟩
    by_cases hq : p = q
    · subst hq
      obtain ⟨cfg,rfl,hP⟩ := hkeeps x rfl
      exact ⟨cfg,update_self _ _ _,hP⟩
    · obtain ⟨cfg,hstored,hP⟩ := h.stored
      exact ⟨cfg,(update_of_ne hq _ _).trans hstored,hP⟩

end holds

end OnPremGateway.LimiterExactness
