import OnPremGateway.EnergyEngine
import OnPremGateway.SharedLoad

/-!
# The energy reconciler

Usage events are stored as requests end. A pass picks the settled events that
have no energy yet, oldest first, prices each against the events its store then
holds for the same server, and stamps it for good.
-/

set_option autoImplicit false

namespace OnPremGateway.EnergyLedger
open EnergyEngine List Event

def energyReconcileBatchLimit : ℕ := 500
def defaultEnergySettleDelay : ℤ := 10*second
def defaultEnergyBackfillWindow : ℤ := 168*3600*second
def energyMaxRequestWindow : ℤ := 30*60*second

/-- The energy columns of a usage event. The last field keeps the siblings it was
priced against, which nothing reads back. -/
structure Stamp where
  energy : EnergyResult
  siblings : List Event

structure Ledger where
  events : List Event
  stamps : String → Option Stamp
  calibrations : List (String × ℚ)

inductive ReadError
  | notFound | failed

structure AIServer where
  estimatedWatts : ℚ
  idleWatts : ℚ
  pue : ℚ

/-- What a pass reads outside the usage store. -/
structure Reads where
  energySettleDelay : ℤ
  energyBackfillWindow : ℤ
  energyDefaultPue : ℚ
  energyDefaultWhPerToken : ℚ
  mappingByID : String → Except ReadError (String × ℚ)
  aiServerByID : String → Except ReadError AIServer
  idle : String → ℚ
  telemetrySamples : String → ℤ → ℤ → Except ReadError (List Sample)

def older (a b : Event) : Prop := a.createdAt < b.createdAt ∨ a.createdAt = b.createdAt ∧ a.id ≤ b.id

instance (a b : Event) : Decidable (older a b) := inferInstanceAs (Decidable (_ ∨ _))

variable (r : Reads) (l : Ledger) (ev : Event)

def Ledger.unpricedUsageEvents (notBefore notAfter : ℤ) (limit : ℕ) : List Event :=
  ((l.events.filter fun e => (l.stamps e.id).isNone &&
    decide (notBefore ≤ e.createdAt ∧ e.createdAt ≤ notAfter)).insertionSort older).take limit

def Ledger.usageEventsForServerWindow (serverID : String) (start stop : ℤ) : List Event :=
  let fetched := l.events.filter fun e => decide (e.host = serverID) &&
    decide (start-energyMaxRequestWindow ≤ e.createdAt ∧ e.createdAt ≤ stop+energyMaxRequestWindow)
  fetched.filter fun e => !(decide (stop < e.start) || decide (e.createdAt < start))

def Ledger.updateUsageEventEnergy (id : String) (stamp : Stamp) : Ledger :=
  if l.events.any fun e => decide (e.id = id) then
    { l with stamps := Function.update l.stamps id (some stamp) }
  else l

def energyMappingCoeff (routeID : String) : String × ℚ :=
  if routeID = "" then ("",0)
  else
    match r.mappingByID routeID with
    | .ok mapping => mapping
    | .error _ => ("",0)

def Ledger.siblings : List Event :=
  (l.usageEventsForServerWindow ev.host ev.start ev.createdAt).filter fun sib => !decide (sib.id = ev.id)

def samplesFor : Except ReadError (List Sample) :=
  if ev.start < ev.createdAt then
    r.telemetrySamples ev.host (ev.start-maxSampleGap) (ev.createdAt+maxSampleGap)
  else .ok []

def calibrates (mappingID : String) (res : EnergyResult) : Bool :=
  decide (res.source = .measured) && decide (ev.billingUnit = .tokens) && decide (0 < ev.outputTokens) &&
    !decide (mappingID = "")

def reconcileEnergyEvent : Ledger :=
  let (mappingID,mappingCoeff) := energyMappingCoeff r ev.routeID
  match r.aiServerByID ev.host with
  | .error .notFound =>
    l.updateUsageEventEnergy ev.id ⟨modeledEnergy ev mappingCoeff r.energyDefaultWhPerToken,[]⟩
  | .error .failed => l
  | .ok server =>
    let cfg := ⟨server.estimatedWatts,effectivePue server.pue r.energyDefaultPue⟩
    let idleW := if server.idleWatts ≤ 0 then r.idle ev.host else server.idleWatts
    match samplesFor r ev with
    | .error _ => l
    | .ok samples =>
      let res := computeEnergy ev samples (l.siblings ev) cfg idleW mappingCoeff r.energyDefaultWhPerToken
      let l := l.updateUsageEventEnergy ev.id ⟨res,l.siblings ev⟩
      if calibrates ev mappingID res then
        { l with calibrations := l.calibrations ++ [(mappingID,res.whMarginal/ev.outputTokens)] }
      else l

def orDefault (value default : ℤ) : ℤ := if value ≤ 0 then default else value

def Ledger.due (r : Reads) (now : ℤ) : List Event :=
  l.unpricedUsageEvents (now-orDefault r.energyBackfillWindow defaultEnergyBackfillWindow)
    (now-orDefault r.energySettleDelay defaultEnergySettleDelay) energyReconcileBatchLimit

def reconcileEnergyOnce (now : ℤ) : Ledger :=
  (l.due r now).foldl (reconcileEnergyEvent r) l

/-! ## Runs -/

inductive Op
  | record (ev : Event)
  | pass (now : ℤ) (r : Reads)

def step : Op → Ledger
  | .record ev => { l with events := l.events ++ [ev] }
  | .pass now r => reconcileEnergyOnce r l now

def run (ops : List Op) : Ledger := ops.foldl step l

def start : Ledger := ⟨[],fun _ => none,[]⟩

def recorded (ops : List Op) : List Event :=
  ops.filterMap fun op => match op with
    | .record ev => some ev
    | .pass _ _ => none

/-- The energy stamped on the given events. -/
def Ledger.attributed (events : List Event) : ℚ :=
  (events.map fun ev => ((l.stamps ev.id).map fun s => s.energy.whTotal).getD 0).sum

/-- The length of the union of the windows, in nanoseconds. -/
noncomputable def unionLength (events : List Event) : ℕ := (events.toFinset.biUnion Event.cells).card

def Meets (a b : Event) : Prop := max a.start b.start < min a.createdAt b.createdAt

instance (a b : Event) : Decidable (Meets a b) := inferInstanceAs (Decidable (_ < _))

/-- Every request that overlaps an event about to be priced has ended and been
stored, and within the store's margin. -/
def Ledger.Foresees (requests : List Event) (r : Reads) (now : ℤ) : Prop :=
  ∀ ev ∈ l.due r now, ∀ sib ∈ requests, sib.id ≠ ev.id → Meets ev sib →
    sib ∈ l.events ∧ sib.createdAt ≤ ev.createdAt+energyMaxRequestWindow

instance (l : Ledger) (requests : List Event) (r : Reads) (now : ℤ) :
    Decidable (l.Foresees requests r now) :=
  inferInstanceAs (Decidable (∀ ev ∈ l.due r now, ∀ sib ∈ requests, sib.id ≠ ev.id → Meets ev sib → _))

def Op.Timely (requests : List Event) (l : Ledger) : Op → Prop
  | .record _ => True
  | .pass now r => l.Foresees requests r now

instance (requests : List Event) (l : Ledger) : (op : Op) → Decidable (op.Timely requests l)
  | .record _ => inferInstanceAs (Decidable True)
  | .pass now r => inferInstanceAs (Decidable (l.Foresees requests r now))

def Timely (requests : List Event) : Ledger → List Op → Prop
  | _, [] => True
  | l, op::ops => op.Timely requests l ∧ Timely requests (step l op) ops

/-- A pass that reads the configured wattage of the server and no power samples. -/
def Op.Flat (serverID : String) (watts : ℚ) : Op → Prop
  | .record _ => True
  | .pass _ r => (∃ server, r.aiServerByID serverID = .ok server ∧ server.estimatedWatts = watts) ∧
      ∀ start stop, r.telemetrySamples serverID start stop = .ok []

/-- A request on the server, its window on whole milliseconds. -/
structure Request (serverID : String) (ev : Event) : Prop where
  host : ev.host = serverID
  whole : ev.Whole

/-! ## One pass -/

theorem mem_siblings {l : Ledger} {ev sib : Event} : sib ∈ l.siblings ev ↔
    sib ∈ l.events ∧ sib.host = ev.host ∧ sib.id ≠ ev.id ∧ sib.start ≤ ev.createdAt ∧
      ev.start ≤ sib.createdAt ∧ ev.start-energyMaxRequestWindow ≤ sib.createdAt ∧
      sib.createdAt ≤ ev.createdAt+energyMaxRequestWindow := by
  simp only [Ledger.siblings, Ledger.usageEventsForServerWindow, mem_filter, Bool.and_eq_true,
    decide_eq_true_eq, Bool.not_eq_true', Bool.or_eq_false_iff, decide_eq_false_iff_not, not_lt]
  tauto

/-- A request that overlaps is a sibling once it is stored, unless it ends beyond
the margin of the store. -/
theorem mem_siblings_of_meets {serverID : String} {l : Ledger} {ev sib : Event}
    (hev : Request serverID ev) (hsib : Request serverID sib) (hid : sib.id ≠ ev.id) (hmeets : Meets ev sib) :
    sib ∈ l.siblings ev ↔ sib ∈ l.events ∧ sib.createdAt ≤ ev.createdAt+energyMaxRequestWindow := by
  rw [Meets, max_lt_iff, lt_min_iff, lt_min_iff] at hmeets
  have hmargin : 0 ≤ energyMaxRequestWindow := by decide
  rw [mem_siblings, hev.host, hsib.host]
  constructor
  · rintro ⟨hmem,-,-,-,-,-,hle⟩
    exact ⟨hmem,hle⟩
  · rintro ⟨hmem,hle⟩
    exact ⟨hmem,rfl,hid,by omega,by omega,by omega,hle⟩

theorem siblings_sublist : (l.siblings ev).Sublist l.events :=
  ((filter_sublist).trans filter_sublist).trans filter_sublist

structure PricedIn (watts : ℚ) (l : Ledger) (ev : Event) (s : Stamp) : Prop where
  siblings : s.siblings = l.siblings ev
  total : s.energy.whTotal = watts/(3600*second)*∑ k ∈ ev.cells, (1 : ℚ)/seenAt s.siblings k

section pass

variable {serverID : String} {watts : ℚ} {r : Reads}

theorem samplesFor_flat (hsamples : ∀ start stop, r.telemetrySamples serverID start stop = .ok [])
    {ev : Event} (hev : Request serverID ev) : samplesFor r ev = .ok [] := by
  rw [samplesFor, hev.host, hsamples]
  split <;> rfl

theorem reconcileEnergyEvent_stamps (hwatts : 0 < watts) {now : ℤ}
    (hflat : (Op.pass now r).Flat serverID watts)
    {l : Ledger} (hall : ∀ e ∈ l.events, Request serverID e) {ev : Event} (hev : ev ∈ l.events) :
    (reconcileEnergyEvent r l ev).events = l.events ∧ ∃ s, PricedIn watts l ev s ∧
        (reconcileEnergyEvent r l ev).stamps = Function.update l.stamps ev.id (some s) := by
  obtain ⟨⟨server,hserver,rfl⟩,hsamples⟩ := hflat
  have hrequest := hall ev hev
  have hrow : (l.events.any fun e => decide (e.id = ev.id)) = true :=
    any_eq_true.mpr ⟨ev,hev,by simp⟩
  rw [reconcileEnergyEvent]
  simp only [hrequest.host, hserver, samplesFor_flat hsamples hrequest, Ledger.updateUsageEventEnergy,
    hrow, if_true]
  have hwhole : ∀ sib ∈ l.siblings ev, sib.Whole :=
    fun sib hsib => (hall sib (mem_siblings.mp hsib).1).whole
  generalize (if server.idleWatts ≤ 0 then r.idle serverID else server.idleWatts) = idleW
  split
  all_goals
    refine ⟨rfl,_,?_,rfl⟩
    exact ⟨rfl,computeEnergy_estimated _ _ _ hwatts hrequest.whole hwhole⟩

theorem siblings_congr {l l' : Ledger} (h : l'.events = l.events) (ev : Event) :
    l'.siblings ev = l.siblings ev := by
  simp only [Ledger.siblings, Ledger.usageEventsForServerWindow, h]

theorem PricedIn.congr {l l' : Ledger} (h : l'.events = l.events) {ev : Event} {s : Stamp}
    (hs : PricedIn watts l' ev s) : PricedIn watts l ev s :=
  ⟨hs.siblings.trans (siblings_congr h ev),hs.total⟩

/-- Pricing events one after the other prices each against the same store. -/
theorem fold_stamps (hwatts : 0 < watts) {now : ℤ} (hflat : (Op.pass now r).Flat serverID watts)
    (evs : List Event) (hids : (evs.map Event.id).Nodup) (l : Ledger)
    (hall : ∀ e ∈ l.events, Request serverID e) (hevs : ∀ ev ∈ evs, ev ∈ l.events) :
    (evs.foldl (reconcileEnergyEvent r) l).events = l.events ∧
      (∀ ev ∈ evs, ∃ s, PricedIn watts l ev s ∧
        (evs.foldl (reconcileEnergyEvent r) l).stamps ev.id = some s) ∧
      ∀ i, i ∉ evs.map Event.id → (evs.foldl (reconcileEnergyEvent r) l).stamps i = l.stamps i := by
  induction evs generalizing l with
  | nil => exact ⟨rfl,nofun,fun _ _ => rfl⟩
  | cons ev evs ih =>
    obtain ⟨hevents,s,hpriced,hstamps⟩ :=
      reconcileEnergyEvent_stamps hwatts hflat hall (hevs ev (by simp))
    obtain ⟨hnew,hids⟩ := nodup_cons.mp hids
    obtain ⟨hkept,hdone,hother⟩ := ih hids (reconcileEnergyEvent r l ev) (hevents ▸ hall)
      (hevents ▸ fun e he => hevs e (mem_cons_of_mem _ he))
    refine ⟨hkept.trans hevents,?_,?_⟩
    · intro e he
      rcases mem_cons.mp he with rfl | he
      · refine ⟨s,hpriced,?_⟩
        rw [foldl_cons, hother _ hnew, hstamps, Function.update_self]
      · obtain ⟨t,ht,hstamp⟩ := hdone e he
        exact ⟨t,ht.congr hevents,hstamp⟩
    · intro i hi
      rw [map_cons, mem_cons, not_or] at hi
      rw [foldl_cons, hother i hi.2, hstamps, Function.update_of_ne hi.1]

theorem mem_due {l : Ledger} {now : ℤ} {ev : Event} (h : ev ∈ l.due r now) :
    ev ∈ l.events ∧ l.stamps ev.id = none := by
  have hmem := mem_of_mem_take h
  rw [mem_insertionSort, mem_filter, Bool.and_eq_true, Option.isNone_iff_eq_none] at hmem
  exact ⟨hmem.1,hmem.2.1⟩

theorem due_nodup {l : Ledger} (hids : (l.events.map Event.id).Nodup) (now : ℤ) :
    ((l.due r now).map Event.id).Nodup := by
  have hpicked : (l.events.filter fun e => (l.stamps e.id).isNone && decide
      (now-orDefault r.energyBackfillWindow defaultEnergyBackfillWindow ≤ e.createdAt ∧
        e.createdAt ≤ now-orDefault r.energySettleDelay defaultEnergySettleDelay)).Sublist l.events :=
    filter_sublist
  have hsorted := ((perm_insertionSort older _).map Event.id).nodup_iff.mpr
    ((hpicked.map Event.id).nodup hids)
  exact ((take_sublist _ _).map Event.id).nodup hsorted

end pass

/-! ## Whole runs -/

/-- Every stamped event was priced against all the requests that overlap it. -/
def Ledger.Complete (l : Ledger) (requests : List Event) : Prop :=
  ∀ ev ∈ requests, ∀ s, l.stamps ev.id = some s →
    ∀ sib ∈ requests, sib.id ≠ ev.id → Meets ev sib → sib ∈ s.siblings

structure Ledger.Stamped (watts : ℚ) (l : Ledger) (ev : Event) (s : Stamp) : Prop where
  mem : ev ∈ l.events
  total : s.energy.whTotal = watts/(3600*second)*∑ k ∈ ev.cells, (1 : ℚ)/seenAt s.siblings k
  sublist : s.siblings.Sublist l.events
  others : ∀ sib ∈ s.siblings, sib.id ≠ ev.id

def Ledger.Priced (watts : ℚ) (l : Ledger) : Prop :=
  ∀ i s, l.stamps i = some s → ∃ ev, ev.id = i ∧ l.Stamped watts ev s

section run

variable {serverID : String} {watts : ℚ} {requests : List Event}

theorem eq_of_id (hids : (requests.map Event.id).Nodup) {a b : Event} (ha : a ∈ requests)
    (hb : b ∈ requests) (h : a.id = b.id) : a = b :=
  inj_on_of_nodup_map hids ha hb h

theorem pass_stamps (hwatts : 0 < watts) {now : ℤ} {r : Reads}
    (hflat : (Op.pass now r).Flat serverID watts) {l : Ledger}
    (hids : (l.events.map Event.id).Nodup) (hall : ∀ e ∈ l.events, Request serverID e) (i : String) :
    (∃ ev ∈ l.due r now, ev.id = i ∧
        ∃ s, PricedIn watts l ev s ∧ (step l (.pass now r)).stamps i = some s) ∨
      i ∉ (l.due r now).map Event.id ∧ (step l (.pass now r)).stamps i = l.stamps i := by
  obtain ⟨_,hdone,hother⟩ := fold_stamps hwatts hflat (l.due r now) (due_nodup hids now) l hall
    fun e he => (mem_due he).1
  by_cases hdue : i ∈ (l.due r now).map Event.id
  · obtain ⟨ev,hev,rfl⟩ := mem_map.mp hdue
    exact Or.inl ⟨ev,hev,rfl,hdone ev hev⟩
  · exact Or.inr ⟨hdue,hother i hdue⟩

theorem pass_events (hwatts : 0 < watts) {now : ℤ} {r : Reads}
    (hflat : (Op.pass now r).Flat serverID watts) {l : Ledger}
    (hids : (l.events.map Event.id).Nodup) (hall : ∀ e ∈ l.events, Request serverID e) :
    (step l (.pass now r)).events = l.events :=
  (fold_stamps hwatts hflat (l.due r now) (due_nodup hids now) l hall fun _ he => (mem_due he).1).1

theorem step_priced (hwatts : 0 < watts) {op : Op} (hflat : op.Flat serverID watts) {l : Ledger}
    (hids : (l.events.map Event.id).Nodup) (hall : ∀ e ∈ l.events, Request serverID e)
    (h : l.Priced watts) : (step l op).Priced watts := by
  intro i s hs
  cases op with
  | record new =>
    obtain ⟨ev,hid,hstamped⟩ := h i s hs
    have hgrows : l.events.Sublist (step l (.record new)).events := sublist_append_left _ _
    exact ⟨ev,hid,hgrows.subset hstamped.mem,hstamped.total,hstamped.sublist.trans hgrows,
      hstamped.others⟩
  | pass now r =>
    have hevents := pass_events hwatts hflat hids hall
    rcases pass_stamps hwatts hflat hids hall i with ⟨ev,hdue,hid,t,hpriced,ht⟩ | ⟨-,hkept⟩
    · obtain rfl := Option.some.inj (hs.symm.trans ht)
      refine ⟨ev,hid,hevents ▸ (mem_due hdue).1,hpriced.total,?_,?_⟩
      · rw [hpriced.siblings, hevents]
        exact siblings_sublist l ev
      · intro sib hsib
        rw [hpriced.siblings] at hsib
        exact (mem_siblings.mp hsib).2.2.1
    · obtain ⟨ev,hid,hstamped⟩ := h i s (hkept ▸ hs)
      exact ⟨ev,hid,hevents ▸ hstamped.mem,hstamped.total,hevents ▸ hstamped.sublist,hstamped.others⟩

/-- A step leaves the stamps complete when they were and the step foresees what it
prices. -/
theorem step_complete_iff (hwatts : 0 < watts) {op : Op} (hflat : op.Flat serverID watts) {l : Ledger}
    (hids : (requests.map Event.id).Nodup) (hall : ∀ e ∈ requests, Request serverID e)
    (hsub : l.events.Sublist requests) :
    (step l op).Complete requests ↔ l.Complete requests ∧ op.Timely requests l := by
  cases op with
  | record ev => exact (and_iff_left trivial).symm
  | pass now r =>
    have hidsl := (hsub.map Event.id).nodup hids
    have halll : ∀ e ∈ l.events, Request serverID e := fun e he => hall e (hsub.subset he)
    have hstamps := pass_stamps hwatts hflat hidsl halll
    constructor
    · intro hcomplete
      constructor
      · intro ev hev s hs sib hsib hid hmeets
        rcases hstamps ev.id with ⟨e,hdue,hsame,-⟩ | ⟨-,hkept⟩
        · rw [← hsame, (mem_due hdue).2] at hs
          exact absurd hs nofun
        · exact hcomplete ev hev s (hkept.trans hs) sib hsib hid hmeets
      · intro ev hev sib hsib hid hmeets
        have hmem := hsub.subset (mem_due hev).1
        rcases hstamps ev.id with ⟨e,hdue,hsame,s,hpriced,hs⟩ | ⟨hnot,-⟩
        · obtain rfl := eq_of_id hidsl (mem_due hdue).1 (mem_due hev).1 hsame
          have hseen := hcomplete e hmem s hs sib hsib hid hmeets
          rw [hpriced.siblings] at hseen
          exact (mem_siblings_of_meets (hall e hmem) (hall sib hsib) hid hmeets).mp hseen
        · exact absurd (mem_map_of_mem hev) hnot
    · rintro ⟨hcomplete,htimely⟩ ev hev s hs sib hsib hid hmeets
      rcases hstamps ev.id with ⟨e,hdue,hsame,t,hpriced,ht⟩ | ⟨-,hkept⟩
      · obtain rfl := eq_of_id hids (hsub.subset (mem_due hdue).1) hev hsame
        obtain rfl := Option.some.inj (hs.symm.trans ht)
        rw [hpriced.siblings]
        exact (mem_siblings_of_meets (hall e hev) (hall sib hsib) hid hmeets).mpr
          (htimely e hdue sib hsib hid hmeets)
      · exact hcomplete ev hev s (hkept ▸ hs) sib hsib hid hmeets

/-- A run of passes and requests, from any store that holds part of the requests. -/
theorem run_priced_complete (hwatts : 0 < watts) (ops : List Op)
    (hflat : ∀ op ∈ ops, op.Flat serverID watts) (hids : (requests.map Event.id).Nodup)
    (hall : ∀ e ∈ requests, Request serverID e) (l : Ledger)
    (hrequests : requests = l.events ++ recorded ops) (hpriced : l.Priced watts) :
    (run l ops).events = requests ∧ (run l ops).Priced watts ∧
      ((run l ops).Complete requests ↔ l.Complete requests ∧ Timely requests l ops) := by
  induction ops generalizing l with
  | nil =>
    rw [recorded, filterMap_nil, append_nil] at hrequests
    exact ⟨hrequests.symm,hpriced,(and_iff_left trivial).symm⟩
  | cons op ops ih =>
    have hsub : l.events.Sublist requests := hrequests ▸ sublist_append_left _ _
    have hidsl := (hsub.map Event.id).nodup hids
    have halll : ∀ e ∈ l.events, Request serverID e := fun e he => hall e (hsub.subset he)
    have hop := hflat op (by simp)
    have hnext : requests = (step l op).events ++ recorded ops := by
      cases op with
      | record ev => simpa [step, recorded] using hrequests
      | pass now r => simpa [pass_events hwatts hop hidsl halll, recorded] using hrequests
    obtain ⟨hevents,hdone,hcomplete⟩ := ih (fun op' ho => hflat op' (mem_cons_of_mem _ ho))
      (step l op) hnext (step_priced hwatts hop hidsl halll hpriced)
    refine ⟨hevents,hdone,hcomplete.trans ?_⟩
    rw [step_complete_iff hwatts hop hids hall hsub, Timely, and_assoc]

end run

/-! ## The energy attributed -/

def Ledger.knownTo (l : Ledger) (ev : Event) : Finset Event :=
  (((l.stamps ev.id).map Stamp.siblings).getD []).toFinset

theorem meets_iff (a b : Event) : Meets a b ↔ ∃ k, k ∈ a.cells ∧ k ∈ b.cells := by
  simp only [Meets, cells, Finset.mem_Ico]
  constructor
  · intro h
    rw [max_lt_iff, lt_min_iff, lt_min_iff] at h
    exact ⟨max a.start b.start,⟨le_max_left _ _,max_lt h.1.1 h.2.1⟩,
      le_max_right _ _,max_lt h.1.2 h.2.2⟩
  · rintro ⟨k,ha,hb⟩
    exact lt_of_le_of_lt (max_le ha.1 hb.1) (lt_min ha.2 hb.2)

section attributed

variable {watts : ℚ} {l : Ledger}

theorem knownTo_eq {ev : Event} {s : Stamp} (hs : l.stamps ev.id = some s) :
    l.knownTo ev = s.siblings.toFinset := by
  rw [Ledger.knownTo, hs, Option.map_some, Option.getD_some]

theorem stamped_of_mem (hids : (l.events.map Event.id).Nodup) (hpriced : l.Priced watts) {ev : Event}
    (hev : ev ∈ l.events) {s : Stamp} (hs : l.stamps ev.id = some s) : l.Stamped watts ev s := by
  obtain ⟨e,hid,hstamped⟩ := hpriced ev.id s hs
  rwa [← eq_of_id hids hstamped.mem hev hid]

theorem seenAt_eq (hids : (l.events.map Event.id).Nodup) {ev : Event} {s : Stamp}
    (hs : l.stamps ev.id = some s) (hstamped : l.Stamped watts ev s) (k : ℤ) :
    seenAt s.siblings k = SharedLoad.seen Event.cells l.knownTo ev k := by
  have hnodup := hstamped.sublist.nodup (List.Nodup.of_map _ hids)
  have hactive : s.siblings.toFinset.filter (fun j => k ∈ j.cells) =
      (s.siblings.filter fun sib => decide (k ∈ sib.cells)).toFinset := by
    ext j
    simp
  rw [seenAt, SharedLoad.seen, knownTo_eq hs, hactive,
    toFinset_card_of_nodup (hnodup.filter _), countP_eq_length_filter]

theorem attributed_eq (hids : (l.events.map Event.id).Nodup) (hpriced : l.Priced watts)
    (hdone : ∀ ev ∈ l.events, ∃ s, l.stamps ev.id = some s) : l.attributed l.events =
      watts/(3600*second)*∑ ev ∈ l.events.toFinset, SharedLoad.share Event.cells l.knownTo ev := by
  rw [Finset.mul_sum, sum_toFinset _ (List.Nodup.of_map _ hids), Ledger.attributed]
  apply congrArg sum
  apply map_congr_left
  intro ev hev
  obtain ⟨s,hs⟩ := hdone ev hev
  have hstamped := stamped_of_mem hids hpriced hev hs
  rw [hs, Option.map_some, Option.getD_some, hstamped.total, SharedLoad.share]
  simp only [seenAt_eq hids hs hstamped]

theorem knowsAll_iff (hids : (l.events.map Event.id).Nodup)
    (hdone : ∀ ev ∈ l.events, ∃ s, l.stamps ev.id = some s) :
    SharedLoad.KnowsAll l.events.toFinset Event.cells l.knownTo ↔ l.Complete l.events := by
  constructor
  · intro h ev hev s hs sib hsib hid hmeets
    have hknown := h ev (mem_toFinset.mpr hev) sib (mem_toFinset.mpr hsib)
      (fun heq => hid (congrArg Event.id heq)) ((meets_iff ev sib).mp hmeets)
    rwa [knownTo_eq hs, mem_toFinset] at hknown
  · intro h ev hev sib hsib hne hmeets
    rw [mem_toFinset] at hev hsib
    obtain ⟨s,hs⟩ := hdone ev hev
    rw [knownTo_eq hs, mem_toFinset]
    exact h ev hev s hs sib hsib (fun hid => hne (eq_of_id hids hsib hev hid))
      ((meets_iff ev sib).mpr hmeets)

/-- The energy attributed stays within the wattage over the union of the windows
exactly when every event was priced against all that overlap it. -/
theorem attributed_le_iff (hwatts : 0 < watts) (hids : (l.events.map Event.id).Nodup)
    (hpriced : l.Priced watts) (hdone : ∀ ev ∈ l.events, ∃ s, l.stamps ev.id = some s) :
    l.attributed l.events ≤ watts*(unionLength l.events/second)/3600 ↔ l.Complete l.events := by
  have hknown : ∀ ev ∈ l.events.toFinset, l.knownTo ev ⊆ l.events.toFinset.erase ev := by
    intro ev hev sib hsib
    rw [mem_toFinset] at hev
    obtain ⟨s,hs⟩ := hdone ev hev
    have hstamped := stamped_of_mem hids hpriced hev hs
    rw [knownTo_eq hs, mem_toFinset] at hsib
    rw [Finset.mem_erase, mem_toFinset]
    exact ⟨fun heq => hstamped.others sib hsib (congrArg Event.id heq),hstamped.sublist.subset hsib⟩
  have hbound : watts*(unionLength l.events/second)/3600 =
      watts/(3600*second)*((l.events.toFinset.biUnion cells).card : ℚ) := by
    rw [unionLength]
    ring
  have hfactor : 0 < watts/(3600*(second : ℚ)) := by
    have hsecond : (0 : ℚ) < second := by norm_num [second]
    positivity
  rw [attributed_eq hids hpriced hdone, hbound, mul_le_mul_iff_right₀ hfactor,
    SharedLoad.sum_share_le_iff hknown, knowsAll_iff hids hdone]

end attributed

/-- Whatever the requests on a server without telemetry and whenever the passes
run, once every event is stamped the energy attributed is at most the wattage over
the union of the request windows exactly when no pass priced an event before the
requests that overlap it were stored. -/
theorem attributed_at_most_once_iff (serverID : String) (watts : ℚ) (hwatts : 0 < watts) (ops : List Op)
    (hids : ((recorded ops).map Event.id).Nodup) (hrequests : ∀ ev ∈ recorded ops, Request serverID ev)
    (hflat : ∀ op ∈ ops, op.Flat serverID watts)
    (hdone : ∀ ev ∈ recorded ops, ∃ s, (run start ops).stamps ev.id = some s) :
    (run start ops).attributed (recorded ops) ≤ watts*(unionLength (recorded ops)/second)/3600 ↔
      Timely (recorded ops) start ops := by
  obtain ⟨hevents,hpriced,hcomplete⟩ := run_priced_complete hwatts ops hflat hids hrequests start
    (nil_append _).symm nofun
  have hempty : start.Complete (recorded ops) := nofun
  rw [← hevents] at hids hdone
  have hle := attributed_le_iff hwatts hids hpriced hdone
  rw [hevents] at hle
  rw [hle, hcomplete]
  exact and_iff_right hempty

def wattageOnly (watts : ℚ) : Reads where
  energySettleDelay := 0
  energyBackfillWindow := 0
  energyDefaultPue := 0
  energyDefaultWhPerToken := 0
  mappingByID := fun _ => .error .notFound
  aiServerByID := fun _ => .ok ⟨watts,0,0⟩
  idle := fun _ => 0
  telemetrySamples := fun _ _ _ => .ok []

def request (id : String) (startS endS : ℤ) : Event where
  id := id
  host := "server"
  routeID := ""
  createdAt := endS*second
  latencyMS := (endS-startS)*1000
  outputTokens := 0
  billingUnit := .tokens

theorem request_request (id : String) (startS endS : ℤ) : Request "server" (request id startS endS) :=
  ⟨rfl,⟨endS*1000,by simp only [request, second, millisecond]; ring⟩⟩

theorem request_cells (id : String) (startS endS : ℤ) :
    (request id startS endS).cells = Finset.Ico (startS*second) (endS*second) := by
  rw [Event.cells, Event.start]
  congr 1
  simp only [request, second, millisecond]
  ring

/-- Two requests that overlap, both stored when the pass prices them. -/
theorem attributed_at_most_once_settled :
    (run start [.record (request "a" 0 10),.record (request "b" 5 12),
        .pass (30*second) (wattageOnly 3600)]).attributed [request "a" 0 10,request "b" 5 12] ≤
      3600*(unionLength [request "a" 0 10,request "b" 5 12]/second)/3600 := by
  apply (attributed_at_most_once_iff "server" 3600 (by norm_num) _ _ _ _ _).mpr
  · exact ⟨trivial,trivial,by decide +kernel,trivial⟩
  · decide
  · intro ev hev
    simp only [recorded, filterMap_cons, filterMap_nil, mem_cons, not_mem_nil, or_false] at hev
    rcases hev with rfl | rfl
    · exact request_request _ _ _
    · exact request_request _ _ _
  · intro op hop
    simp only [mem_cons, not_mem_nil, or_false] at hop
    rcases hop with rfl | rfl | rfl
    · trivial
    · trivial
    · exact ⟨⟨_,rfl,rfl⟩,fun _ _ => rfl⟩
  · intro ev hev
    rw [← Option.isSome_iff_exists]
    revert ev
    decide +kernel

/-- A short request ends and is priced alone while a long one is still running;
the long one is later priced as if the two had shared. -/
theorem running_sibling_priced_twice : let short := request "a" 0 10
    let long := request "b" 0 60
    let l := run start [.record short,.pass (20*second) (wattageOnly 3600),.record long,
      .pass (70*second) (wattageOnly 3600)]
    l.attributed [short,long] = 65 ∧ (3600 : ℚ)*(unionLength [short,long]/second)/3600 = 60 := by
  constructor
  · decide +kernel
  · have hunion : unionLength [request "a" 0 10,request "b" 0 60] = 60000000000 := by
      have hcover : ([request "a" 0 10,request "b" 0 60].toFinset.biUnion cells) =
          Finset.Ico (0*second) (60*second) := by
        ext k
        simp only [toFinset_cons, toFinset_nil, Finset.biUnion_insert, Finset.mem_union,
          request_cells, Finset.mem_Ico, insert_empty_eq, Finset.singleton_biUnion, second]
        omega
      rw [unionLength, hcover, Int.card_Ico]
      rfl
    simp only [hunion]
    norm_num [second]

end OnPremGateway.EnergyLedger
