import OnPremGateway.SliceOrder
import OnPremGateway.KeyedTable
import OnPremGateway.LabelledRuns

/-!
# Demand signals and scale-up passes

A request that finds every instance of its model busy signals demand. One pass
per model runs at a time; a signal that the running pass may not serve waits in
the model's queue and gets a pass of its own in its turn, unless an instance
that serves it was started meanwhile. A step is one critical section of the
scaler: a signal, the end of a pass or the shutdown.
-/

set_option autoImplicit false

namespace OnPremGateway.InstanceScaler
open SliceOrder KeyedTable LabelledRuns List

structure DemandSignal where
  model : String
  serverID : String := ""
  mappingIDs : List String := []
  apiFlavor : String := ""
  deriving DecidableEq, Repr

/-- A spec on a server; with an empty server there is none. -/
structure ScaleKey where
  serverID : String := ""
  mappingID : String := ""
  deriving DecidableEq, Repr

structure SignalKey where
  serverID : String
  mappingIDs : String
  apiFlavor : String
  deriving DecidableEq, Repr

def signalKeyOf (d : DemandSignal) : SignalKey where
  serverID := d.serverID
  mappingIDs := "\x00".intercalate (sortSlice (fun a b => a < b) d.mappingIDs)
  apiFlavor := d.apiFlavor

def signalServedBy (d : DemandSignal) (host : ScaleKey) (flavor : String) : Bool :=
  if host.serverID = "" || (d.serverID ≠ "" && d.serverID ≠ host.serverID) then false
  else if d.mappingIDs.length = 0 then d.apiFlavor = flavor
  else d.mappingIDs.contains host.mappingID

inductive StartOutcome where
  | failed
  | started
  | lost
  deriving DecidableEq, Repr

/-- The hosts a round of a pass could ask, best first, and what its ask comes to. -/
structure Round where
  cands : List ScaleKey
  outcome : StartOutcome
  deriving DecidableEq, Repr

/-- The rounds of a pass until a host started an instance, none is left to ask or
the server shuts down. -/
def scaleUp : List Round → List ScaleKey → ScaleKey
  | [], _ => {}
  | r::rounds, asked =>
    match r.cands.find? (fun c => c ∉ asked) with
    | none => {}
    | some c =>
      match r.outcome with
      | .started => c
      | .failed => scaleUp rounds (c::asked)
      | .lost => scaleUp rounds asked

/-- A queued signal. The other fields are the account of its wait: its number,
the signals before it when it was queued, and the passes of its model that have
ended since, each with the host it started an instance on and its flavor. -/
structure Queued where
  signal : DemandSignal
  serial : ℕ
  ahead : ℕ
  ended : List (ScaleKey × String) := []
  deriving DecidableEq, Repr

def Queued.key (q : Queued) : SignalKey := signalKeyOf q.signal

def Queued.note (q : Queued) (pass : ScaleKey × String) : Queued :=
  { q with ended := q.ended ++ [pass] }

/-- The scaler. A running pass is known by its signal; `arrived`, `began` and
`dropped` account for the signals that were queued. -/
structure Scaler where
  scaling : AList (fun _ : String => SignalKey) := ∅
  followUps : AList (fun _ : String => List Queued) := ∅
  running : List DemandSignal := []
  down : Bool := false
  arrived : ℕ := 0
  began : List Queued := []
  dropped : List Queued := []

def Scaler.queue (s : Scaler) (model : String) : List Queued := (s.followUps.lookup model).getD []

def Scaler.signal (s : Scaler) (d : DemandSignal) (ensures : Bool) : Scaler :=
  if d.model = "" then s
  else if !ensures || s.down then s
  else
    match s.scaling.lookup d.model with
    | some runningKey =>
      let queued := s.queue d.model
      if signalKeyOf d ≠ runningKey && !queued.any (fun q => q.key = signalKeyOf d) then
        { s with
          followUps := s.followUps.insert d.model
            (queued ++ [{ signal := d, serial := s.arrived, ahead := queued.length }])
          arrived := s.arrived+1 }
      else s
    | none =>
      { s with scaling := s.scaling.insert d.model (signalKeyOf d), running := d::s.running }

/-- The pass for this signal has ended. What it served is dropped from the front
of the queue, and the first signal it did not serve gets the next pass. -/
def Scaler.followUp (s : Scaler) (d : DemandSignal) (started : ScaleKey) : Scaler :=
  let served := fun q : Queued => signalServedBy q.signal started d.apiFlavor
  let queued := (s.queue d.model).map fun q => q.note (started, d.apiFlavor)
  let s := { s with running := s.running.erase d }
  if s.down then
    { s with followUps := s.followUps.erase d.model, scaling := s.scaling.erase d.model }
  else
    let s := { s with dropped := queued.takeWhile served ++ s.dropped }
    match queued.dropWhile served with
    | next::rest =>
      { s with
        followUps := s.followUps.insert d.model rest
        scaling := s.scaling.insert d.model next.key
        running := next.signal::s.running
        began := next::s.began }
    | [] => { s with followUps := s.followUps.erase d.model, scaling := s.scaling.erase d.model }

inductive Event where
  | signal (d : DemandSignal) (ensures : Bool)
  | passEnds (d : DemandSignal) (rounds : List Round)
  | shutdown
  deriving DecidableEq, Repr

def Scaler.step (s : Scaler) : Event → Option Scaler
  | .signal d ensures => some (s.signal d ensures)
  | .passEnds d rounds => if d ∈ s.running then some (s.followUp d (scaleUp rounds [])) else none
  | .shutdown => some { s with down := true }

/-- An instance that was started while the signal waited serves it. -/
def Queued.Served (q : Queued) : Prop :=
  ∃ pass ∈ q.ended, signalServedBy q.signal pass.1 pass.2 = true

/-- The signals that wait for their turn. -/
def Scaler.waiting (s : Scaler) : List Queued := gather id s.followUps

inductive Deed (s : Scaler) : Event → Scaler → Prop
  | idle (d : DemandSignal) (ensures : Bool) : Deed s (.signal d ensures) s
  | begin (d : DemandSignal) (ensures : Bool) (h : s.scaling.lookup d.model = none) :
      Deed s (.signal d ensures)
        { s with scaling := s.scaling.insert d.model (signalKeyOf d), running := d::s.running }
  | queue (d : DemandSignal) (ensures : Bool) (key : SignalKey)
      (h : s.scaling.lookup d.model = some key) (hk : signalKeyOf d ≠ key)
      (hq : signalKeyOf d ∉ (s.queue d.model).map Queued.key) : Deed s (.signal d ensures)
        { s with
          followUps := s.followUps.insert d.model (s.queue d.model ++
            [{ signal := d, serial := s.arrived, ahead := (s.queue d.model).length }])
          arrived := s.arrived+1 }
  | turn (d : DemandSignal) (rounds : List Round) (taken : List Queued) (next : Queued)
      (rest : List Queued) (hd : d ∈ s.running)
      (hq : (s.queue d.model).map (fun q => q.note (scaleUp rounds [], d.apiFlavor)) =
        taken ++ next::rest)
      (ht : ∀ q ∈ taken, signalServedBy q.signal (scaleUp rounds []) d.apiFlavor = true)
      (hn : signalServedBy next.signal (scaleUp rounds []) d.apiFlavor = false) :
      Deed s (.passEnds d rounds)
        { s with
          followUps := s.followUps.insert d.model rest
          scaling := s.scaling.insert d.model next.key
          running := next.signal::s.running.erase d
          began := next::s.began
          dropped := taken ++ s.dropped }
  | finish (d : DemandSignal) (rounds : List Round) (taken : List Queued) (hd : d ∈ s.running)
      (hq : (s.queue d.model).map (fun q => q.note (scaleUp rounds [], d.apiFlavor)) = taken)
      (ht : ∀ q ∈ taken, signalServedBy q.signal (scaleUp rounds []) d.apiFlavor = true) :
      Deed s (.passEnds d rounds)
        { s with
          followUps := s.followUps.erase d.model
          scaling := s.scaling.erase d.model
          running := s.running.erase d
          dropped := taken ++ s.dropped }
  | halt (d : DemandSignal) (rounds : List Round) (hd : d ∈ s.running) (hdown : s.down = true) :
      Deed s (.passEnds d rounds)
        { s with
          followUps := s.followUps.erase d.model
          scaling := s.scaling.erase d.model
          running := s.running.erase d }
  | shutdown : Deed s .shutdown { s with down := true }

theorem followUp_deed (s : Scaler) (d : DemandSignal) (rounds : List Round) (hd : d ∈ s.running) :
    Deed s (.passEnds d rounds) (s.followUp d (scaleUp rounds [])) := by
  rw [Scaler.followUp]
  dsimp only
  split
  · exact .halt d rounds hd (by assumption)
  set queued := (s.queue d.model).map fun q => q.note (scaleUp rounds [], d.apiFlavor) with hqueued
  have hsplit := takeWhile_append_dropWhile
    (p := fun q : Queued => signalServedBy q.signal (scaleUp rounds []) d.apiFlavor) (l := queued)
  have htaken : ∀ q ∈ queued.takeWhile
      (fun q => signalServedBy q.signal (scaleUp rounds []) d.apiFlavor),
      signalServedBy q.signal (scaleUp rounds []) d.apiFlavor = true :=
    fun q hq => (mem_takeWhile_imp hq :)
  split
  · rename_i next rest hleft
    rw [hleft] at hsplit
    have hnext := head?_dropWhile_not
      (fun q : Queued => signalServedBy q.signal (scaleUp rounds []) d.apiFlavor) queued
    rw [hleft, head?_cons] at hnext
    exact .turn d rounds _ next rest hd hsplit.symm htaken (by simpa using hnext)
  · rename_i hleft
    rw [hleft, append_nil] at hsplit
    exact .finish d rounds _ hd hsplit.symm htaken

theorem deed_of_step (s s' : Scaler) (e : Event) (h : s.step e = some s') : Deed s e s' := by
  cases e with
  | signal d ensures =>
    rw [Scaler.step] at h
    cases h
    rw [Scaler.signal]
    split
    · exact .idle d ensures
    split
    · exact .idle d ensures
    split
    · rename_i key hkey
      dsimp only
      split
      · rename_i hnew
        rw [Bool.and_eq_true, decide_eq_true_eq, Bool.not_eq_true', any_eq_false] at hnew
        refine .queue d ensures key hkey hnew.1 ?_
        rw [mem_map]
        rintro ⟨q,hq,hk⟩
        exact hnew.2 q hq (decide_eq_true hk)
      · exact .idle d ensures
    · exact .begin d ensures (by assumption)
  | passEnds d rounds =>
    rw [Scaler.step] at h
    split at h
    · cases h
      exact followUp_deed s d rounds (by assumption)
    · cases h
  | shutdown =>
    cases h
    exact .shutdown

section Invariant

theorem lookup_insert_eq {β : Type} (m : AList fun _ : String => β) (model : String) (b : β) (k : String) :
    (m.insert model b).lookup k = if k = model then some b else m.lookup k := by
  split
  · next h => rw [h, AList.lookup_insert]
  · next h => exact AList.lookup_insert_ne h

theorem lookup_erase_eq {β : Type} (m : AList fun _ : String => β) (model k : String) :
    (m.erase model).lookup k = if k = model then none else m.lookup k := by
  split
  · next h => rw [h, AList.lookup_erase]
  · next h => exact AList.lookup_erase_ne h

theorem queue_insert (s : Scaler) (model k : String) (qs : List Queued) :
    ((s.followUps.insert model qs).lookup k).getD [] = if k = model then qs else s.queue k := by
  rw [lookup_insert_eq]
  split <;> rfl

theorem queue_erase (s : Scaler) (model k : String) :
    ((s.followUps.erase model).lookup k).getD [] = if k = model then [] else s.queue k := by
  rw [lookup_erase_eq]
  split <;> rfl

theorem waiting_perm (s : Scaler) (model : String) :
    s.waiting.Perm (s.queue model ++ gather id (s.followUps.erase model)) := by
  rw [Scaler.waiting, Scaler.queue]
  cases h : s.followUps.lookup model with
  | none =>
    rw [erase_of_lookup_none _ _ h]
    exact List.Perm.refl _
  | some qs => exact gather_erase id s.followUps model qs h

structure Orderly (s : Scaler) : Prop where
  single : (s.running.map DemandSignal.model).Nodup
  scaling : ∀ model key, s.scaling.lookup model = some key ↔
    ∃ d ∈ s.running, d.model = model ∧ signalKeyOf d = key
  manned : ∀ model, s.queue model ≠ [] → ∃ d ∈ s.running, d.model = model
  named : ∀ model, ∀ q ∈ s.queue model, q.signal.model = model
  distinct : ∀ model, ((s.queue model).map Queued.key).Nodup
  apart : ∀ d ∈ s.running, signalKeyOf d ∉ (s.queue d.model).map Queued.key
  ranked : ∀ (model : String) (i : ℕ) (q : Queued),
    (s.queue model)[i]? = some q → i+q.ended.length ≤ q.ahead
  account : s.down = false →
    ((s.waiting ++ s.began ++ s.dropped).map Queued.serial).Perm (List.range s.arrived)
  dropped : ∀ q ∈ s.dropped, q.Served

theorem orderly_new : Orderly {} where
  single := nodup_nil
  scaling model key := by
    constructor
    · intro h
      cases h
    · rintro ⟨d,hd,-⟩
      cases hd
  manned model h := absurd rfl h
  named model q hq := by cases hq
  distinct model := nodup_nil
  apart d hd := by cases hd
  ranked model i q h := by cases h
  account _ := List.Perm.refl _
  dropped q hq := by cases hq

variable {s : Scaler}

/-- The passes of the other models, one each. -/
def Others (s : Scaler) (model : String) (others : List DemandSignal) : Prop :=
  (others.map DemandSignal.model).Nodup ∧ ∀ r, r ∈ others ↔ r ∈ s.running ∧ r.model ≠ model

theorem others_erase (h : Orderly s) {d : DemandSignal} (hd : d ∈ s.running) :
    Others s d.model (s.running.erase d) := by
  have hperm := perm_cons_erase hd
  have hnd := (hperm.map DemandSignal.model).nodup_iff.mp h.single
  rw [map_cons, nodup_cons] at hnd
  refine ⟨hnd.2,fun r => ⟨fun hr => ⟨mem_of_mem_erase hr,fun he => hnd.1 ?_⟩,?_⟩⟩
  · rw [← he]
    exact mem_map_of_mem hr
  · rintro ⟨hr,hne⟩
    refine (mem_erase_of_ne ?_).mpr hr
    rintro rfl
    exact hne rfl

/-- What waits for a model stands behind its pass. -/
structure Lane (model : String) (pass : Option DemandSignal) (qs : List Queued) : Prop where
  own : ∀ d ∈ pass, d.model = model
  manned : qs ≠ [] → pass ≠ none
  named : ∀ q ∈ qs, q.signal.model = model
  distinct : (qs.map Queued.key).Nodup
  apart : ∀ d ∈ pass, signalKeyOf d ∉ qs.map Queued.key
  ranked : ∀ (i : ℕ) (q : Queued), qs[i]? = some q → i+q.ended.length ≤ q.ahead

/-- One model's pass and queue are replaced. -/
theorem orderly_lane {s' : Scaler} (h : Orderly s) {model : String} (pass : Option DemandSignal)
    (qs : List Queued) (hlane : Lane model pass qs) {others : List DemandSignal}
    (hrun : s'.running.Perm (pass.toList ++ others)) (hothers : Others s model others)
    (hscaling : ∀ k, s'.scaling.lookup k = if k = model then pass.map signalKeyOf else s.scaling.lookup k)
    (hqueue : ∀ k, s'.queue k = if k = model then qs else s.queue k)
    (haccount : s'.down = false →
      ((s'.waiting ++ s'.began ++ s'.dropped).map Queued.serial).Perm (List.range s'.arrived))
    (hdropped : ∀ q ∈ s'.dropped, q.Served) : Orderly s' := by
  have hmem (r : DemandSignal) : r ∈ s'.running ↔ r ∈ pass ∨ r ∈ s.running ∧ r.model ≠ model := by
    rw [hrun.mem_iff, mem_append, Option.mem_toList, hothers.2, Option.mem_def]
  constructor
  case single =>
    rw [(hrun.map _).nodup_iff, map_append, nodup_append']
    refine ⟨by cases pass <;> simp,hothers.1,?_⟩
    rw [disjoint_left]
    simp only [mem_map, Option.mem_toList, not_exists, not_and]
    rintro _ ⟨r,hr,rfl⟩ r' hr' he
    exact ((hothers.2 r').mp hr').2 (he.trans (hlane.own r hr))
  case scaling =>
    intro k key
    rw [hscaling]
    split
    · next hk =>
      rw [Option.map_eq_some_iff]
      constructor
      · rintro ⟨d,hd,rfl⟩
        exact ⟨d,(hmem d).mpr (.inl hd),(hlane.own d hd).trans hk.symm,rfl⟩
      · rintro ⟨r,hr,hrm,rfl⟩
        exact ⟨r,((hmem r).mp hr).resolve_right fun hr => hr.2 (hrm.trans hk),rfl⟩
    · next hk =>
      rw [h.scaling]
      constructor
      · rintro ⟨r,hr,rfl,hkey⟩
        exact ⟨r,(hmem r).mpr (.inr ⟨hr,hk⟩),rfl,hkey⟩
      · rintro ⟨r,hr,rfl,hkey⟩
        exact ⟨r,(((hmem r).mp hr).resolve_left fun hr => hk (hlane.own r hr)).1,rfl,hkey⟩
  case manned =>
    intro k hne
    rw [hqueue] at hne
    split at hne
    · next hk =>
      obtain ⟨d,hd⟩ := Option.ne_none_iff_exists'.mp (hlane.manned hne)
      exact ⟨d,(hmem d).mpr (.inl hd),(hlane.own d hd).trans hk.symm⟩
    · next hk =>
      obtain ⟨r,hr,rfl⟩ := h.manned k hne
      exact ⟨r,(hmem r).mpr (.inr ⟨hr,hk⟩),rfl⟩
  case apart =>
    intro r hr
    rw [hqueue]
    rcases (hmem r).mp hr with hr | ⟨hr,hne⟩
    · rw [if_pos (hlane.own r hr)]
      exact hlane.apart r hr
    · rw [if_neg hne]
      exact h.apart r hr
  case account => exact haccount
  case dropped => exact hdropped
  all_goals
    intro k
    rw [hqueue]
    split
  · next hk => exact hk ▸ hlane.named
  · exact h.named k
  · exact hlane.distinct
  · exact h.distinct k
  · exact hlane.ranked
  · exact h.ranked k

theorem others_of_free (h : Orderly s) {model : String} (hfree : s.scaling.lookup model = none) :
    Others s model s.running ∧ s.queue model = [] := by
  have hnone : ∀ r ∈ s.running, r.model ≠ model := by
    intro r hr he
    have hr' := (h.scaling model (signalKeyOf r)).mpr ⟨r,hr,he,rfl⟩
    rw [hfree] at hr'
    cases hr'
  refine ⟨⟨h.single,fun r => ⟨fun hr => ⟨hr,hnone r hr⟩,And.left⟩⟩,?_⟩
  -- without a pass of its model nothing waits for it
  by_contra hq
  obtain ⟨r,hr,hm⟩ := h.manned model hq
  exact hnone r hr hm

theorem orderly_begin (h : Orderly s) (d : DemandSignal)
    (hfree : s.scaling.lookup d.model = none) :
    Orderly { s with scaling := s.scaling.insert d.model (signalKeyOf d), running := d::s.running } := by
  obtain ⟨hothers,hempty⟩ := others_of_free h hfree
  refine orderly_lane h (some d) [] ?_ (List.Perm.refl _) hothers
    (fun k => lookup_insert_eq _ _ _ _) (fun k => ?_) h.account h.dropped
  · constructor <;> simp
  · split
    · next hk => exact hk ▸ hempty
    · rfl

/-- The signals waiting for a model, those that got their pass and those dropped keep their count. -/
theorem count_waiting (h : Orderly s) (hup : s.down = false) (model : String) (n : ℕ) :
    ((s.queue model).map Queued.serial).count n +
      ((gather id (s.followUps.erase model)).map Queued.serial).count n +
      (s.began.map Queued.serial).count n + (s.dropped.map Queued.serial).count n =
      (List.range s.arrived).count n := by
  have hold := perm_iff_count.mp (h.account hup) n
  have hwait := perm_iff_count.mp ((waiting_perm s model).map Queued.serial) n
  simp only [map_append, count_append] at hold hwait
  omega

theorem orderly_queue (h : Orderly s) (d : DemandSignal) (key : SignalKey)
    (hrun : s.scaling.lookup d.model = some key) (hk : signalKeyOf d ≠ key)
    (hq : signalKeyOf d ∉ (s.queue d.model).map Queued.key) : Orderly { s with
      followUps := s.followUps.insert d.model (s.queue d.model ++
        [{ signal := d, serial := s.arrived, ahead := (s.queue d.model).length }])
      arrived := s.arrived+1 } := by
  obtain ⟨r,hr,hrm,rfl⟩ := (h.scaling d.model key).mp hrun
  have hothers := others_erase h hr
  rw [hrm] at hothers
  refine orderly_lane h (some r) _ ⟨by simpa using hrm,by simp,?_,?_,?_,?_⟩ (perm_cons_erase hr)
    hothers (fun k => ?_) (fun k => queue_insert s d.model k _) (fun hup => ?_) h.dropped
  · intro q hmem
    rcases mem_append.mp hmem with hmem | hmem
    · exact h.named d.model q hmem
    · rw [mem_singleton.mp hmem]
  · rw [map_append, nodup_append']
    exact ⟨h.distinct d.model,nodup_singleton _,by simpa [Queued.key] using hq⟩
  · intro r' hr'
    cases hr'
    rw [map_append, mem_append, not_or]
    exact ⟨hrm ▸ h.apart r hr,by simpa [Queued.key] using hk.symm⟩
  · intro i q hi
    by_cases hlt : i < (s.queue d.model).length
    · rw [getElem?_append_left hlt] at hi
      exact h.ranked d.model i q hi
    rw [getElem?_append_right (Nat.not_lt.mp hlt), getElem?_singleton] at hi
    split at hi
    · cases hi
      change i+0 ≤ (s.queue d.model).length
      omega
    · cases hi
  · split
    · next hk => exact hk ▸ hrun
    · rfl
  · rw [perm_iff_count]
    intro n
    have hn := count_waiting h hup d.model n
    rw [Scaler.waiting, gather_insert, range_succ, count_append, ← hn]
    simp only [map_append, count_append, id, map_cons, map_nil]
    omega

theorem orderly_erase (h : Orderly s) (d : DemandSignal) (hd : d ∈ s.running)
    (taken : List Queued) (ht : ∀ q ∈ taken, q.Served)
    (hs : s.down = false → (s.queue d.model).map Queued.serial = taken.map Queued.serial) :
    Orderly { s with
      followUps := s.followUps.erase d.model, scaling := s.scaling.erase d.model
      running := s.running.erase d, dropped := taken ++ s.dropped } := by
  refine orderly_lane h none [] ?_ (List.Perm.refl _) (others_erase h hd)
    (fun k => lookup_erase_eq _ _ _) (fun k => queue_erase s d.model k) (fun hup => ?_)
    (forall_mem_append.mpr ⟨ht,h.dropped⟩)
  · constructor <;> simp
  · rw [perm_iff_count]
    intro n
    have hn := count_waiting h hup d.model n
    rw [hs hup] at hn
    rw [Scaler.waiting, ← hn]
    simp only [map_append, count_append]
    omega

theorem served_of_taken (model : String) (pass : ScaleKey × String) (taken left : List Queued)
    (hq : (s.queue model).map (fun q => q.note pass) = taken ++ left)
    (ht : ∀ q ∈ taken, signalServedBy q.signal pass.1 pass.2 = true) (q : Queued) (hmem : q ∈ taken) :
    q.Served := by
  have hnoted : q ∈ (s.queue model).map (fun q => q.note pass) := by
    rw [hq]
    exact mem_append_left left hmem
  obtain ⟨q₀,-,rfl⟩ := mem_map.mp hnoted
  exact ⟨pass,mem_append_right _ mem_cons_self,ht _ hmem⟩

theorem serials_of_noted (model : String) (pass : ScaleKey × String) (qs : List Queued)
    (hq : (s.queue model).map (fun q => q.note pass) = qs) :
    (s.queue model).map Queued.serial = qs.map Queued.serial := by
  rw [← hq, map_map]
  rfl

theorem orderly_turn (h : Orderly s) (d : DemandSignal) (hd : d ∈ s.running)
    (pass : ScaleKey × String) (taken : List Queued) (next : Queued) (rest : List Queued)
    (hq : (s.queue d.model).map (fun q => q.note pass) = taken ++ next::rest)
    (ht : ∀ q ∈ taken, signalServedBy q.signal pass.1 pass.2 = true) : Orderly { s with
      followUps := s.followUps.insert d.model rest, scaling := s.scaling.insert d.model next.key
      running := next.signal::s.running.erase d, began := next::s.began
      dropped := taken ++ s.dropped } := by
  have hnamed : ∀ q ∈ taken ++ next::rest, q.signal.model = d.model := by
    intro q hmem
    rw [← hq] at hmem
    obtain ⟨q₀,hq₀,rfl⟩ := mem_map.mp hmem
    exact h.named d.model q₀ hq₀
  have hkeys : ((taken ++ next::rest).map Queued.key).Nodup := by
    rw [← hq, map_map]
    exact h.distinct d.model
  rw [map_append, map_cons, nodup_append', nodup_cons] at hkeys
  refine orderly_lane h (some next.signal) rest ⟨?_,by simp,?_,hkeys.2.1.2,?_,?_⟩
    (List.Perm.refl _) (others_erase h hd) (fun k => lookup_insert_eq _ _ _ _)
    (fun k => queue_insert s d.model k rest) (fun hup => ?_)
    (forall_mem_append.mpr ⟨served_of_taken d.model pass taken _ hq ht,h.dropped⟩)
  · intro r hr
    cases hr
    exact hnamed next (by simp)
  · exact fun q hmem => hnamed q (by simp [hmem])
  · intro r hr
    cases hr
    exact hkeys.2.1.1
  · intro i q hi
    -- the signal has moved up by at least one
    have hat : ((s.queue d.model).map (fun q => q.note pass))[taken.length+(i+1)]? = some q := by
      rw [hq, getElem?_append_right (Nat.le_add_right _ _), Nat.add_sub_cancel_left]
      exact hi
    rw [getElem?_map, Option.map_eq_some_iff] at hat
    obtain ⟨q₀,hq₀,rfl⟩ := hat
    have hrank := h.ranked d.model _ q₀ hq₀
    simp only [Queued.note, length_append, length_singleton]
    omega
  · rw [perm_iff_count]
    intro n
    have hn := count_waiting h hup d.model n
    rw [serials_of_noted d.model pass _ hq] at hn
    rw [Scaler.waiting, gather_insert, ← hn]
    simp only [map_append, map_cons, count_append, count_cons, id]
    omega

theorem orderly_of_deed {e : Event} {s' : Scaler} (hs : Deed s e s') (h : Orderly s) : Orderly s' := by
  cases hs with
  | idle => exact h
  | begin d ensures hfree => exact orderly_begin h d hfree
  | queue d ensures key hrun hk hq => exact orderly_queue h d key hrun hk hq
  | turn d rounds taken next rest hd hq ht hn => exact orderly_turn h d hd _ taken next rest hq ht
  | finish d rounds taken hd hq ht =>
    exact orderly_erase h d hd taken
      (served_of_taken d.model _ taken [] (hq.trans (append_nil taken).symm) ht)
      (fun _ => serials_of_noted d.model _ taken hq)
  | halt d rounds hd hdown =>
    refine orderly_erase h d hd [] (fun q hq => by cases hq) (fun hup => ?_)
    rw [hdown] at hup
    cases hup
  | shutdown => exact { h with account := fun hc => by cases hc }

end Invariant

section Runs

/-- What a pass served stands at the front of its model's queue when it ends. -/
def servedFirst (s : Scaler) : Event → Bool
  | .passEnds d rounds =>
    let served := fun q : Queued => signalServedBy q.signal (scaleUp rounds []) d.apiFlavor
    !((s.queue d.model).dropWhile served).any served
  | _ => true

structure Unserved (s : Scaler) : Prop where
  waiting : ∀ model, ∀ q ∈ s.queue model, ¬q.Served
  began : ∀ q ∈ s.began, ¬q.Served

theorem not_served_note {q : Queued} {pass : ScaleKey × String} (h : ¬q.Served)
    (hn : signalServedBy q.signal pass.1 pass.2 = false) : ¬(q.note pass).Served := by
  rintro ⟨p,hp,hs⟩
  rcases mem_append.mp hp with hp | hp
  · exact h ⟨p,hp,hs⟩
  · rw [mem_singleton] at hp
    rw [hp] at hs
    exact Bool.false_ne_true (hn.symm.trans hs)

theorem left_unserved {s : Scaler} {d : DemandSignal} {rounds : List Round} {taken rest : List Queued}
    {next : Queued} (hfine : servedFirst s (.passEnds d rounds) = true)
    (h : ∀ q ∈ s.queue d.model, ¬q.Served)
    (hq : (s.queue d.model).map (fun q => q.note (scaleUp rounds [], d.apiFlavor)) =
      taken ++ next::rest)
    (ht : ∀ q ∈ taken, signalServedBy q.signal (scaleUp rounds []) d.apiFlavor = true)
    (hn : signalServedBy next.signal (scaleUp rounds []) d.apiFlavor = false) :
    ∀ q ∈ next::rest, ¬q.Served := by
  obtain ⟨t,left,hsplit,rfl,hleft⟩ := map_eq_append_iff.mp hq
  obtain ⟨n,r,rfl,rfl,rfl⟩ := map_eq_cons_iff.mp hleft
  have htaken : ∀ q ∈ t, signalServedBy q.signal (scaleUp rounds []) d.apiFlavor = true :=
    fun q hq => ht (q.note _) (mem_map_of_mem hq)
  have hdrop : (s.queue d.model).dropWhile
      (fun q => signalServedBy q.signal (scaleUp rounds []) d.apiFlavor) = n::r := by
    rw [hsplit, dropWhile_append_of_pos htaken, dropWhile_cons_of_neg]
    rw [Bool.not_eq_true]
    exact hn
  rw [servedFirst, Bool.not_eq_true', hdrop, any_eq_false] at hfine
  intro q hmem
  rw [← hleft] at hmem
  obtain ⟨q₀,hq₀,rfl⟩ := mem_map.mp hmem
  refine not_served_note (h q₀ ?_) (Bool.eq_false_of_not_eq_true (hfine q₀ hq₀))
  rw [hsplit]
  exact mem_append_right t hq₀

theorem unserved_of_deed {s s' : Scaler} {e : Event} (hs : Deed s e s')
    (hfine : servedFirst s e = true) (h : Unserved s) : Unserved s' := by
  -- a queue that is emptied holds nothing that was served
  have herase : ∀ d : DemandSignal, ∀ model,
      ∀ q ∈ ((s.followUps.erase d.model).lookup model).getD [], ¬q.Served := by
    intro d model q hq
    rw [queue_erase] at hq
    split at hq
    · cases hq
    · exact h.waiting model q hq
  cases hs with
  | idle => exact h
  | begin => exact ⟨h.waiting,h.began⟩
  | queue d ensures key =>
    refine ⟨fun model q hq => ?_,h.began⟩
    rw [Scaler.queue, queue_insert] at hq
    split at hq
    · rcases mem_append.mp hq with hq | hq
      · exact h.waiting d.model q hq
      · rw [mem_singleton] at hq
        rintro ⟨pass,hp,-⟩
        rw [hq] at hp
        cases hp
    · exact h.waiting model q hq
  | turn d rounds taken next rest hd hq ht hn =>
    have hleft := left_unserved hfine (h.waiting d.model) hq ht hn
    refine ⟨fun model q hmem => ?_,fun q hmem => ?_⟩
    · rw [Scaler.queue, queue_insert] at hmem
      split at hmem
      · exact hleft q (mem_cons_of_mem next hmem)
      · exact h.waiting model q hmem
    · rcases mem_cons.mp hmem with rfl | hmem
      · exact hleft q mem_cons_self
      · exact h.began q hmem
  | finish d => exact ⟨herase d,h.began⟩
  | halt d => exact ⟨herase d,h.began⟩
  | shutdown => exact ⟨h.waiting,h.began⟩

theorem orderly_of_run (fine : Scaler → Event → Bool) (s : Scaler)
    (h : Relation.ReflTransGen (FineStep Scaler.step fine) {} s) : Orderly s := by
  refine @invariant_of_step _ (fun s => s = {}) _ Orderly ?_ ?_ {} s rfl h
  · rintro s rfl
    exact orderly_new
  · rintro s t ⟨e,-,hs⟩ hx
    exact orderly_of_deed (deed_of_step s t e hs) hx

theorem unserved_of_run (s : Scaler)
    (h : Relation.ReflTransGen (FineStep Scaler.step servedFirst) {} s) : Unserved s := by
  refine @invariant_of_step _ (fun s => s = {}) _ Unserved ?_ ?_ {} s rfl h
  · rintro s rfl
    exact ⟨(fun model q hq => by cases hq),(fun q hq => by cases hq)⟩
  · rintro s t ⟨e,hfine,hs⟩ hx
    exact unserved_of_deed (deed_of_step s t e hs) hfine hx

/-- A signal that a running pass may not serve waits under its key. -/
theorem queued_of_signal (s : Scaler) (h : Orderly s) (hup : s.down = false) (d r : DemandSignal)
    (hd : d.model ≠ "") (hr : r ∈ s.running) (hm : r.model = d.model)
    (hk : signalKeyOf r ≠ signalKeyOf d) :
    signalKeyOf d ∈ ((s.signal d true).queue d.model).map Queued.key := by
  have hrun := (h.scaling d.model (signalKeyOf r)).mpr ⟨r,hr,hm,rfl⟩
  rw [Scaler.signal, if_neg hd, hup, if_neg (by decide), hrun]
  dsimp only
  split
  · rw [Scaler.queue, queue_insert, if_pos rfl, map_append]
    exact mem_append_right _ mem_cons_self
  rename_i hnot
  have hany : (s.queue d.model).any (fun q => q.key = signalKeyOf d) = true := by
    simpa [hk.symm] using hnot
  obtain ⟨q,hq,he⟩ := any_eq_true.mp hany
  rw [mem_map]
  exact ⟨q,hq,of_decide_eq_true he⟩

/-- Before a shutdown: one pass per model runs; a signal that the running pass
may not serve waits under its key, which is no other waiting signal's and not
the running pass's; each signal that was queued waits, got a pass or was
dropped, and only one of these; what waits is not served yet, has a pass of its
model ahead of it and is passed over no more often than there were signals
before it; and of what waits no more, those and only those got a pass that no
instance started meanwhile serves. -/
theorem signals_get_their_turn (s : Scaler)
    (h : Relation.ReflTransGen (FineStep Scaler.step servedFirst) {} s) (hup : s.down = false) :
    (∀ model, (s.running.filter (fun d => d.model = model)).length ≤ 1) ∧
    (∀ d r, d.model ≠ "" → r ∈ s.running → r.model = d.model → signalKeyOf r ≠ signalKeyOf d →
      signalKeyOf d ∈ ((s.signal d true).queue d.model).map Queued.key) ∧
    (∀ model, ((s.queue model).map Queued.key).Nodup ∧
      ∀ d ∈ s.running, d.model = model → signalKeyOf d ∉ (s.queue model).map Queued.key) ∧
    ((s.waiting ++ s.began ++ s.dropped).map Queued.serial).Perm (List.range s.arrived) ∧
    (∀ q ∈ s.waiting, ¬q.Served ∧ (∃ d ∈ s.running, d.model = q.signal.model) ∧
      q.ended.length ≤ q.ahead) ∧ (∀ q ∈ s.began ++ s.dropped, q ∈ s.began ↔ ¬q.Served) := by
  have ho := orderly_of_run servedFirst s h
  have hu := unserved_of_run s h
  refine ⟨?_,queued_of_signal s ho hup,?_,ho.account hup,?_,?_⟩
  · intro model
    have hnd := ho.single.sublist ((filter_sublist (p := fun d => d.model = model)).map _)
    have hsame : (s.running.filter (fun d => d.model = model)).map DemandSignal.model =
        replicate (s.running.filter (fun d => d.model = model)).length model := by
      refine eq_replicate_iff.mpr ⟨length_map _,fun m hm => ?_⟩
      obtain ⟨d,hd,rfl⟩ := mem_map.mp hm
      exact of_decide_eq_true (mem_filter.mp hd).2
    rw [hsame] at hnd
    exact nodup_replicate.mp hnd
  · intro model
    refine ⟨ho.distinct model,?_⟩
    rintro d hd rfl
    exact ho.apart d hd
  · intro q hq
    obtain ⟨model,qs,hqs,hmem⟩ := (mem_gather id s.followUps q).mp hq
    have hqueue : s.queue model = qs := by rw [Scaler.queue, hqs]; rfl
    have hin : q ∈ s.queue model := hqueue ▸ hmem
    obtain ⟨i,hi⟩ := mem_iff_getElem?.mp hin
    have hrank := ho.ranked model i q hi
    obtain ⟨d,hd,hm⟩ := ho.manned model (ne_nil_of_mem hin)
    exact ⟨hu.waiting model q hin,⟨d,hd,hm.trans (ho.named model q hin).symm⟩,by omega⟩
  · intro q hq
    refine ⟨hu.began q,fun hn => ?_⟩
    rcases mem_append.mp hq with hq | hq
    · exact hq
    · exact absurd (ho.dropped q hq) hn

def turnTaken : List Event :=
  [.signal { model := "m", mappingIDs := ["a"] } true,
    .signal { model := "m", serverID := "s2", mappingIDs := ["b"] } true,
    .signal { model := "m", mappingIDs := ["b", "c"] } true,
    .passEnds { model := "m", mappingIDs := ["a"] } [⟨[⟨"s1", "a"⟩], .failed⟩],
    .passEnds { model := "m", serverID := "s2", mappingIDs := ["b"] } [⟨[⟨"s2", "b"⟩], .started⟩]]

theorem signals_get_their_turn_turnTaken :
    (playFine Scaler.step servedFirst {} turnTaken).began.map Queued.serial = [0] ∧
    (playFine Scaler.step servedFirst {} turnTaken).dropped.map Queued.serial = [1] ∧
    ∀ q ∈ (playFine Scaler.step servedFirst {} turnTaken).began, ¬q.Served := by
  have hup : (playFine Scaler.step servedFirst {} turnTaken).down = false := by decide
  have h := signals_get_their_turn _ (fine_playFine Scaler.step servedFirst {} turnTaken) hup
  refine ⟨by decide,by decide,fun q hq => ?_⟩
  exact (h.2.2.2.2.2 q (mem_append_left _ hq)).mp hq

/-- The first pass starts an instance that serves the third signal, which stands
behind one it does not serve; the pass for that one serves neither. -/
def servedBehind : List Event :=
  [.signal { model := "m", mappingIDs := ["a"] } true,
    .signal { model := "m", serverID := "s2", mappingIDs := ["b"] } true,
    .signal { model := "m", mappingIDs := ["a", "c"] } true,
    .passEnds { model := "m", mappingIDs := ["a"] } [⟨[⟨"s1", "a"⟩], .started⟩],
    .passEnds { model := "m", serverID := "s2", mappingIDs := ["b"] } [⟨[⟨"s2", "b"⟩], .started⟩]]

/-- A signal that was served while it waited gets a pass nevertheless. -/
theorem served_signal_gets_a_pass :
    ∃ s, Relation.ReflTransGen (FineStep Scaler.step (fun _ _ => true)) {} s ∧ s.down = false ∧
      ∃ q ∈ s.began, q.Served := by
  refine ⟨_,fine_playFine Scaler.step (fun _ _ => true) {} servedBehind,by decide,?_⟩
  refine ⟨{ signal := { model := "m", mappingIDs := ["a", "c"] }, serial := 1, ahead := 1
            ended := [(⟨"s1", "a"⟩, ""), (⟨"s2", "b"⟩, "")] },by decide,?_⟩
  exact ⟨(⟨"s1", "a"⟩, ""),mem_cons_self,by decide⟩

end Runs

end OnPremGateway.InstanceScaler
