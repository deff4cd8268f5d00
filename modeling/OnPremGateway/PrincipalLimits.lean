import OnPremGateway.CalendarPeriods

/-!
# Limits of a principal

Requests of a service or a user are admitted under up to four limits: a rate in
tumbling windows, a quota of requests, a quota of tokens and a budget, the last
three per calendar period. What has been used is summed up in the store; the
limiter keeps the sums it has read for a while and adds every completed request to
them, and it keeps the configuration for as long.
-/

set_option autoImplicit false

namespace OnPremGateway.PrincipalLimits
open CalendarPeriods

/-- Nanoseconds since the first of January of the year one. -/
abbrev Instant := ℕ

def second : ℕ := 1000000000
def hour : ℕ := 3600*second
def day : ℕ := 24*hour

def unix (now : Instant) : ℤ := (now/second : ℕ) - 62135596800

structure Principal where
  type : String
  id : String
  deriving DecidableEq, Repr

inductive Period where
  | off
  | hour
  | day
  | week
  | month
  | other (name : String)
  deriving DecidableEq, Repr

def periodStart : Period → Instant → Instant
  | .hour, now => now/hour*hour
  | .day, now => now/day*day
  | .week, now => (now/day - (weekday (now/day)+6) % 7)*day
  | .month, now => (now/day - dayOfMonth (now/day))*day
  | .off, _ => 0
  | .other _, _ => 0

structure LimitConfig where
  rateRequests : ℤ := 0
  rateWindowSeconds : ℤ := 0
  requestQuota : ℤ := 0
  requestQuotaPeriod : Period := .off
  tokenQuota : ℤ := 0
  tokenQuotaPeriod : Period := .off
  costBudget : ℚ := 0
  costBudgetPeriod : Period := .off
  deriving DecidableEq

/-! ### The store -/

structure Usage where
  principal : Principal
  createdAt : Instant
  tokens : ℤ
  cost : ℚ

structure Sums where
  requests : ℤ := 0
  tokens : ℤ := 0
  cost : ℚ := 0
  deriving DecidableEq

structure Database where
  usage : List Usage
  limits : Principal → Option LimitConfig

def Sums.add (s : Sums) (tokens : ℤ) (cost : ℚ) : Sums := ⟨s.requests+1,s.tokens+tokens,s.cost+cost⟩

def Database.usageAggregateSince (db : Database) (p : Principal) (since : Instant) : Sums :=
  (db.usage.filter fun u => u.principal = p ∧ since ≤ u.createdAt).foldl (fun s u => s.add u.tokens u.cost) {}

structure Faults where
  config : Bool := false
  requests : Bool := false
  tokens : Bool := false
  cost : Bool := false
  deriving DecidableEq

/-! ### The limiter -/

structure AggregateEntry where
  sums : Sums
  periodStart : Instant
  loadedAt : Instant

structure ConfigEntry where
  cfg : LimitConfig
  loadedAt : Instant

structure RateBucket where
  bucket : ℤ
  count : ℤ

structure Limiter where
  cacheTTL : ℕ
  aggCache : Principal → Period → Option AggregateEntry := fun _ _ => none
  configCache : Principal → Option ConfigEntry := fun _ => none
  rateBuckets : Principal → Option RateBucket := fun _ => none

def defaultLimiterCacheTTL : ℕ := 10*second

def newPrincipalLimiter (ttl : ℤ) : Limiter where
  cacheTTL := if ttl ≤ 0 then defaultLimiterCacheTTL else ttl.toNat

inductive Verdict where
  | allowed
  | rate (retryAfter : ℤ)
  | requestQuota
  | tokenQuota
  | costBudget
  deriving DecidableEq

def Verdict.reason : Verdict → String
  | .allowed => ""
  | .rate _ => "rate"
  | .requestQuota => "request_quota"
  | .tokenQuota => "token_quota"
  | .costBudget => "cost_budget"

def Verdict.isRate : Verdict → Bool
  | .rate _ => true
  | _ => false

structure Limit where
  on : Bool
  period : Period
  reached : Sums → Bool
  verdict : Verdict
  fails : Bool

variable (l : Limiter) (p : Principal) (db : Database) (cfg : LimitConfig) (faults : Faults)

def requestLimit : Limit where
  on := 0 < cfg.requestQuota ∧ cfg.requestQuotaPeriod ≠ .off
  period := cfg.requestQuotaPeriod
  reached := fun used => cfg.requestQuota ≤ used.requests
  verdict := .requestQuota
  fails := faults.requests

def tokenLimit : Limit where
  on := 0 < cfg.tokenQuota ∧ cfg.tokenQuotaPeriod ≠ .off
  period := cfg.tokenQuotaPeriod
  reached := fun used => cfg.tokenQuota ≤ used.tokens
  verdict := .tokenQuota
  fails := faults.tokens

def costLimit : Limit where
  on := 0 < cfg.costBudget ∧ cfg.costBudgetPeriod ≠ .off
  period := cfg.costBudgetPeriod
  reached := fun used => cfg.costBudget ≤ used.cost
  verdict := .costBudget
  fails := faults.cost

def limitsOf : List Limit :=
  [requestLimit cfg faults,tokenLimit cfg faults,costLimit cfg faults]

def LimitConfig.periods : List Period :=
  ((limitsOf cfg {}).filter Limit.on).map Limit.period

def Limiter.configFor (fails : Bool) (p : Principal) (now : Instant) :
    Limiter × Option LimitConfig :=
  match (l.configCache p).filter fun e => now < e.loadedAt + l.cacheTTL with
  | some e => (l,some e.cfg)
  | none =>
    if fails then (l,none)
    else
      let cfg := (db.limits p).getD {}
      ({ l with configCache := Function.update l.configCache p (some ⟨cfg,now⟩) },some cfg)

def bucketOf (window : ℤ) (now : Instant) : ℤ := (unix now).tdiv window

def currentBucket (entry : Option RateBucket) (bucket : ℤ) : RateBucket :=
  (entry.filter fun st => st.bucket = bucket).getD ⟨bucket,0⟩

def Limiter.checkRate (now : Instant) :
    Limiter × Option ℤ :=
  if cfg.rateRequests ≤ 0 ∨ cfg.rateWindowSeconds ≤ 0 then (l,none)
  else
    let bucket := bucketOf cfg.rateWindowSeconds now
    let st := currentBucket (l.rateBuckets p) bucket
    if cfg.rateRequests ≤ st.count then
      ({ l with rateBuckets := Function.update l.rateBuckets p (some st) },
        some (max 0 (((bucket+1)*cfg.rateWindowSeconds + 62135596800)*second - now)))
    else
      ({ l with rateBuckets := Function.update l.rateBuckets p (some ⟨st.bucket,st.count+1⟩) },none)

def Limiter.aggregate (fails : Bool) (p : Principal) (period : Period)
    (now : Instant) : Limiter × Sums :=
  let ps := periodStart period now
  match (l.aggCache p period).filter fun e => e.periodStart = ps ∧ now < e.loadedAt + l.cacheTTL with
  | some e => (l,e.sums)
  | none =>
    if fails then (l,{})
    else
      let sums := db.usageAggregateSince p ps
      ({ l with
        aggCache := Function.update l.aggCache p
          (Function.update (l.aggCache p) period (some ⟨sums,ps,now⟩)) },sums)

structure Comparison where
  limit : Limit
  used : Sums

/-- The limits in their order up to the first that is reached, with the comparisons
made. -/
def Limiter.checkLimits (db : Database) (p : Principal) (now : Instant) :
    Limiter → List Limit → Limiter × Verdict × List Comparison
  | l, [] => (l,.allowed,[])
  | l, limit::limits =>
    if limit.on then
      let a := l.aggregate db limit.fails p limit.period now
      if limit.reached a.2 then (a.1,limit.verdict,[⟨limit,a.2⟩])
      else
        let rest := checkLimits db p now a.1 limits
        (rest.1,rest.2.1,⟨limit,a.2⟩::rest.2.2)
    else checkLimits db p now l limits

def Limiter.admitRequest (p : Principal) (now : Instant) :
    Limiter × Verdict × List Comparison :=
  let c := l.configFor db faults.config p now
  match c.2 with
  | none => (c.1,.allowed,[])
  | some cfg =>
    if cfg = {} then (c.1,.allowed,[])
    else
      let r := c.1.checkRate p cfg now
      match r.2 with
      | some wait => (r.1,.rate wait,[])
      | none => r.1.checkLimits db p now (limitsOf cfg faults)

def Limiter.record (tokens : ℤ) (cost : ℚ) (now : Instant) : Limiter :=
  match l.configCache p with
  | none => l
  | some c =>
    let bump := fun period (e : AggregateEntry) =>
      if period ∈ c.cfg.periods ∧ e.periodStart = periodStart period now then
        { e with sums := e.sums.add tokens cost }
      else e
    { l with
      aggCache := Function.update l.aggCache p fun period => (l.aggCache p period).map (bump period) }

/-! ### Runs -/

structure World where
  limiter : Limiter
  db : Database

inductive Event where
  | admitRequest (p : Principal) (now : Instant) (faults : Faults)
  | complete (p : Principal) (now : Instant) (tokens : ℤ) (cost : ℚ)
  | setLimits (p : Principal) (cfg : Option LimitConfig)

def World.admitRequest (w : World) (p : Principal) (now : Instant) (faults : Faults) :
    Limiter × Verdict × List Comparison :=
  w.limiter.admitRequest w.db faults p now

/-- The row of a completed request is stored when it is recorded. -/
def step (w : World) : Event → World
  | .admitRequest p now faults => { w with limiter := (w.admitRequest p now faults).1 }
  | .complete p now tokens cost =>
    ⟨w.limiter.record p tokens cost now,{ w.db with usage := w.db.usage ++ [⟨p,now,tokens,cost⟩] }⟩
  | .setLimits p cfg => { w with db := { w.db with limits := Function.update w.db.limits p cfg } }

def run (w : World) (events : List Event) : World := events.foldl step w

def Event.time : Event → Option Instant
  | .admitRequest _ now _ => some now
  | .complete _ now _ _ => some now
  | .setLimits _ _ => none

/-- The clock never goes back. -/
def Clocked : Instant → List Event → Prop
  | _, [] => True
  | clock, e::events => (∀ now, e.time = some now → clock ≤ now) ∧ Clocked (e.time.getD clock) events

/-- No read of the store fails. -/
def Reads (events : List Event) : Prop :=
  ∀ p now faults, Event.admitRequest p now faults ∈ events → faults = {}

end OnPremGateway.PrincipalLimits
