import OnPremGateway.RoutingFaults

/-!
# What a call's own writes leave

A call writes pins and reservations, and notes what it sends. Whatever holds of
the turns it goes through and does not read those is still so after each of its
writes, and a write fails with the fault of the store and with nothing else.
-/

set_option autoImplicit false

namespace OnPremGateway.CallFrames
open RuntimeTypes RoutingTypes CandidateSelection
open CallOutcomes RoutingCalls RoutingFaults

structure TurnsIn (T : Moment → Prop) (times : Set ℤ) (s : CallState) : Prop where
  moment : T s.moment
  wakes : ∀ m, Wake.woke m ∈ s.wakes → T m
  clock : ∀ i, s.clock i ∈ times

def Unwritten (T : Moment → Prop) : Prop :=
  ∀ m affinities reservations, T m →
    T { m with affinities := affinities, reservations := reservations }

inductive OfQueue : RoutingError → Prop
  | timeout : OfQueue .queueTimeout
  | full : OfQueue .queueFull
  | ended : OfQueue .contextEnded
  | parked : OfQueue .parked

section Frames
variable {T : Moment → Prop} {times : Set ℤ} {E : RoutingError → CallState → Prop}

theorem ensures_fromMoment {α : Type} {P : CallState → Prop} {Q : α → CallState → Prop}
    {f : Moment → Run α} (hf : ∀ s, P s → Ensures (fun t => t = s) (f s.moment) Q E) :
    Ensures P (thisMoment >>= f) Q E :=
  fun s hs => hf s hs s rfl

theorem ensures_atMoment {α : Type} {Q : α → CallState → Prop} {f : Moment → Run α}
    (hf : ∀ m, T m → Ensures (TurnsIn T times) (f m) Q E) :
    Ensures (TurnsIn T times) (thisMoment >>= f) Q E :=
  ensures_fromMoment fun s hs => (hf s.moment hs.moment).of_pre fun _ ht => ht ▸ hs

theorem ensures_readClock :
    Ensures (TurnsIn T times) readClock (fun now s => now ∈ times ∧ TurnsIn T times s) E := by
  refine Ensures.get.bind fun s => ?_
  have hs : Ensures (fun t => s = t ∧ TurnsIn T times t)
      (modify fun s => { s with ticks := s.ticks+1 } : Run PUnit)
      (fun _ t => s.clock s.ticks ∈ times ∧ TurnsIn T times t) E := by
    refine Ensures.modify _ ?_
    rintro t ⟨rfl,ht⟩
    exact ⟨ht.clock _,ht.moment,ht.wakes,ht.clock⟩
  exact hs.bind fun _ => Ensures.pure _ fun t ht => ht

theorem ensures_signalDemand (r : Resolver) (demands : List Demand) :
    Ensures (TurnsIn T times) (signalDemand r demands) (fun _ => TurnsIn T times) E := by
  refine Ensures.modify _ fun s hs => ?_
  split_ifs
  · exact hs
  · exact ⟨hs.moment,hs.wakes,hs.clock⟩

theorem ensures_signalOverflow (r : Resolver) (req : Request) (d : Option Demand) :
    Ensures (TurnsIn T times) (signalOverflow r req d) (fun _ => TurnsIn T times) E := by
  refine Ensures.modify _ fun s hs => ?_
  split_ifs
  · exact hs
  · exact ⟨hs.moment,hs.wakes,hs.clock⟩

section Faults
variable (hfault : ∀ what s, TurnsIn T times s → E (.failed what) s)
include hfault

theorem ensures_lift {α : Type} (x : Except RoutingError α) (hx : OnlyFaults x) :
    Ensures (TurnsIn T times) (lift x : Run α) (fun a s => x = .ok a ∧ TurnsIn T times s) E := by
  refine Ensures.lift x ?_ ?_
  · intro a ha s hs
    exact ⟨ha,hs⟩
  · intro e he s hs
    obtain ⟨what,rfl⟩ := hx e he
    exact hfault what s hs

theorem ensures_lifted {α β : Type} {Q : β → CallState → Prop} {x : Except RoutingError α}
    {f : α → Run β} (hx : OnlyFaults x)
    (hf : ∀ a, x = .ok a → Ensures (TurnsIn T times) (f a) Q E) :
    Ensures (TurnsIn T times) (lift x >>= f) Q E :=
  (ensures_lift hfault x hx).bind fun a =>
    Ensures.assume (fun _ h => h.1) fun h => (hf a h).of_pre fun _ hs => hs.2

end Faults

section Queue
variable (hqueue : ∀ e s, OfQueue e → TurnsIn T times s → E e s)
include hqueue

theorem ensures_parkTurn (r : Resolver) (deadline : ℤ) (demands : List Demand) :
    Ensures (TurnsIn T times) (parkTurn r deadline demands) (fun _ => TurnsIn T times) E := by
  rw [parkTurn]
  split_ifs
  · refine ensures_readClock.bind fun t => ?_
    split_ifs
    · exact Ensures.throw _ fun s hs => hqueue _ s OfQueue.timeout hs.2
    · exact (ensures_signalDemand r demands).of_pre fun s hs => hs.2
  · exact ensures_signalDemand r demands

theorem ensures_waitForSlot (w : Wake) (later : List Wake) (hw : ∀ m, Wake.woke m ∈ w::later → T m) :
    Ensures (TurnsIn T times) (waitForSlot w later) (fun _ => TurnsIn T times) E := by
  have hlater : ∀ m, Wake.woke m ∈ later → T m := fun m hm => hw m (List.mem_cons_of_mem _ hm)
  have hends : ∀ e, OfQueue e → Ensures (TurnsIn T times)
      ((do modify fun s => { s with wakes := later }
           throw e) : Run Unit) (fun _ => TurnsIn T times) E := by
    intro e he
    refine (Ensures.modify (Q := fun _ => TurnsIn T times) _ fun s hs => ?_).bind fun _ =>
      Ensures.throw e fun s hs => hqueue e s he hs
    exact ⟨hs.moment,hlater,hs.clock⟩
  cases w with
  | woke m =>
    refine Ensures.modify _ fun s hs => ?_
    exact ⟨hw m List.mem_cons_self,hlater,hs.clock⟩
  | timeout => exact hends _ OfQueue.timeout
  | full => exact hends _ OfQueue.full
  | ended => exact hends _ OfQueue.ended

end Queue

/-! ### Pins and reservations -/

section Writes
variable (hT : Unwritten T)
include hT

theorem ensures_touchSession (r : Resolver) (serverID key : String) (now : ℤ) :
    Ensures (TurnsIn T times) (touchSession r serverID key now) (fun _ => TurnsIn T times) E := by
  refine Ensures.modify _ fun s hs => ?_
  exact ⟨hT s.moment _ _ hs.moment,hs.wakes,hs.clock⟩

theorem ensures_deleteAffinity (key : AffinityKey) :
    Ensures (TurnsIn T times) (deleteAffinity key) (fun _ => TurnsIn T times) E := by
  refine Ensures.modify _ fun s hs => ?_
  split_ifs
  · exact hs
  · exact ⟨hT s.moment _ _ hs.moment,hs.wakes,hs.clock⟩

variable (hfault : ∀ what s, TurnsIn T times s → E (.failed what) s)
include hfault

theorem ensures_upsertAffinity (key : AffinityKey) (what : String) (row : RouteAffinity) :
    Ensures (TurnsIn T times) (upsertAffinity key what row) (fun _ => TurnsIn T times) E := by
  apply ensures_atMoment
  intro m _
  apply ensures_lifted hfault (onlyFaults_readStore m.fault _ what ())
  intro _ _
  refine Ensures.modify _ fun s hs => ?_
  exact ⟨hT s.moment _ _ hs.moment,hs.wakes,hs.clock⟩

end Writes

end Frames

end OnPremGateway.CallFrames
