import OnPremGateway.LabelledRuns

/-!
# The admission queue

Requests wait in line for a free slot. A release signals the first of them that
watches its server and takes it out of the line; a waiter that stops waiting for
any reason takes itself out before it returns. Between the two it may still be
signalled, but no waiter is signalled twice.
-/

set_option autoImplicit false

namespace OnPremGateway.AdmissionQueue
open LabelledRuns List

inductive AdmissionError
  | timeout
  | full
  | cancelled
  deriving DecidableEq

/-- Why a waiter stops waiting. -/
inductive Cause
  | signal
  | recheck
  | timeout
  | done
  deriving DecidableEq

def Cause.answer : Cause → Option AdmissionError
  | .signal | .recheck => none
  | .timeout => some .timeout
  | .done => some .cancelled

/-- Where a call of `WaitForSlot` stands. -/
inductive Stage
  | parked (timed : Bool)
  | leaving (answer : Option AdmissionError)
  | returned (answer : Option AdmissionError)
  deriving DecidableEq

structure Waiter where
  id : ℕ
  servers : List String
  deriving DecidableEq

/-- The calls are numbered as they come. `signalled` lists the waiters in the
order their channels were sent to. -/
structure Queue where
  maxDepth : ℕ
  rechecks : Bool := true
  waiters : List Waiter := []
  calls : List Stage := []
  signalled : List ℕ := []

def newAdmissionQueue (maxDepth : ℤ) : Queue where
  maxDepth := if maxDepth ≤ 0 then 128 else maxDepth.toNat

def hasRoom (q : Queue) : Bool := q.waiters.length < q.maxDepth

def enter (q : Queue) (serverIDs : List String) (timed : Bool) : Queue :=
  if hasRoom q then
    { q with
      waiters := q.waiters ++ [⟨q.calls.length, serverIDs.filter (· ≠ "")⟩]
      calls := q.calls ++ [.parked timed] }
  else { q with calls := q.calls ++ [.returned (some .full)] }

def ready (q : Queue) (i : ℕ) (timed : Bool) : Cause → Bool
  | .signal => q.signalled.contains i
  | .recheck => q.rechecks
  | .timeout => timed
  | .done => true

def wake (q : Queue) (i : ℕ) (cause : Cause) : Option Queue :=
  match q.calls[i]? with
  | some (.parked timed) =>
    if ready q i timed cause then some { q with calls := q.calls.set i (.leaving cause.answer) }
    else none
  | _ => none

def remove (q : Queue) (i : ℕ) : Queue := { q with waiters := q.waiters.eraseP (·.id = i) }

def leave (q : Queue) (i : ℕ) : Option Queue :=
  match q.calls[i]? with
  | some (.leaving answer) => some { remove q i with calls := q.calls.set i (.returned answer) }
  | _ => none

def watches (server : String) (w : Waiter) : Bool := w.servers.contains server

def release (q : Queue) (server : String) : Queue :=
  if server = "" then q
  else
    match q.waiters.find? (watches server) with
    | none => q
    | some w =>
      { q with
        waiters := q.waiters.eraseP (watches server)
        signalled := q.signalled ++ [w.id] }

inductive Event
  | enter (serverIDs : List String) (timed : Bool)
  | release (server : String)
  | wake (i : ℕ) (cause : Cause)
  | leave (i : ℕ)

def step (q : Queue) : Event → Option Queue
  | .enter serverIDs timed => some (enter q serverIDs timed)
  | .release server => some (release q server)
  | .wake i cause => wake q i cause
  | .leave i => leave q i

/-! ### What every step keeps -/

/-- The line is in order of arrival and no longer than it may be. Who stands in
it has not been signalled and has not returned. -/
structure Orderly (q : Queue) : Prop where
  sorted : q.waiters.Pairwise (·.id < ·.id)
  depth : q.waiters.length ≤ q.maxDepth
  fresh : ∀ w ∈ q.waiters, w.id ∉ q.signalled
  staying : ∀ w ∈ q.waiters, ∃ stage, q.calls[w.id]? = some stage ∧ ∀ a, stage ≠ .returned a
  once : q.signalled.Nodup
  known : ∀ i ∈ q.signalled, i < q.calls.length
  named : ∀ w ∈ q.waiters, "" ∉ w.servers

theorem orderly_new (maxDepth : ℤ) : Orderly (newAdmissionQueue maxDepth) := by
  constructor <;> simp [newAdmissionQueue]

variable {q : Queue}

theorem Orderly.lt (h : Orderly q) (w : Waiter) (hw : w ∈ q.waiters) : w.id < q.calls.length := by
  obtain ⟨stage,hs,-⟩ := h.staying w hw
  exact (List.getElem?_eq_some_iff.mp hs).1

theorem orderly_enter (h : Orderly q) (serverIDs : List String) (timed : Bool) :
    Orderly (enter q serverIDs timed) := by
  have hold (stage : Stage) (w : Waiter) (hw : w ∈ q.waiters) :
      ∃ s, (q.calls ++ [stage])[w.id]? = some s ∧ ∀ a, s ≠ .returned a := by
    rw [getElem?_append_left (h.lt w hw)]
    exact h.staying w hw
  have hknown (stage : Stage) (i : ℕ) (hi : i ∈ q.signalled) : i < (q.calls ++ [stage]).length := by
    have := h.known i hi
    simp
    omega
  rw [enter]
  split_ifs with hroom
  · rw [hasRoom, decide_eq_true_eq] at hroom
    have hnew : q.calls.length ∉ q.signalled := fun hi => lt_irrefl _ (h.known _ hi)
    constructor
    · refine pairwise_append.mpr ⟨h.sorted,pairwise_singleton _ _,?_⟩
      simpa using h.lt
    · simpa using hroom
    · simpa [or_imp, forall_and] using ⟨h.fresh,hnew⟩
    · intro w hw
      rcases mem_append.mp hw with hw|hw
      · exact hold _ w hw
      · simp [mem_singleton.mp hw]
    · exact h.once
    · exact hknown _
    · simpa [or_imp, forall_and] using h.named
  · exact ⟨h.sorted,h.depth,h.fresh,hold _,h.once,hknown _,h.named⟩

/-- Out of the line one may be taken at any time. -/
theorem Orderly.sublist (h : Orderly q) {ws : List Waiter} (hs : ws.Sublist q.waiters) :
    Orderly { q with waiters := ws } :=
  ⟨h.sorted.sublist hs,hs.length_le.trans h.depth,fun w hw => h.fresh w (hs.subset hw),
    fun w hw => h.staying w (hs.subset hw),h.once,h.known,fun w hw => h.named w (hs.subset hw)⟩

/-- A call that is not in line may be in any stage. -/
theorem Orderly.set (h : Orderly q) (i : ℕ) (stage : Stage)
    (hi : (∀ w ∈ q.waiters, w.id ≠ i) ∨ ∀ a, stage ≠ .returned a) :
    Orderly { q with calls := q.calls.set i stage } := by
  refine ⟨h.sorted,h.depth,h.fresh,fun w hw => ?_,h.once,by simpa using h.known,h.named⟩
  by_cases he : i = w.id
  · subst he
    rcases hi with hi|hi
    · exact absurd rfl (hi w hw)
    · exact ⟨stage,by simp [h.lt w hw],hi⟩
  · simpa [getElem?_set_ne he] using h.staying w hw

/-- Who takes itself out of the line is not in it any more. -/
theorem ne_of_mem_remove (i : ℕ) (ws : List Waiter) (hs : ws.Pairwise (·.id < ·.id)) :
    ∀ w ∈ ws.eraseP (·.id = i), w.id ≠ i := by
  induction ws with
  | nil => simp
  | cons v ws ih =>
    rw [pairwise_cons] at hs
    by_cases hv : v.id = i
    · simp only [hv, decide_true, eraseP_cons_of_pos]
      exact fun w hw => by have := hs.1 w hw; omega
    · simpa [hv] using ih hs.2

theorem find_eraseP_split {server : String} {w : Waiter}
    (hw : q.waiters.find? (watches server) = some w) :
    ∃ before after, q.waiters = before ++ w::after ∧ (∀ v ∈ before, watches server v = false) ∧
      watches server w = true ∧ q.waiters.eraseP (watches server) = before ++ after := by
  obtain ⟨hp,before,after,heq,hb⟩ := find?_eq_some_iff_append.mp hw
  refine ⟨before,after,heq,by simpa using hb,hp,?_⟩
  rw [heq, eraseP_append_right _ (by simpa using hb), eraseP_cons_of_pos hp]

theorem orderly_release (h : Orderly q) (server : String) : Orderly (release q server) := by
  rw [release]
  split_ifs
  · exact h
  split
  · exact h
  rename_i w hw
  obtain ⟨before,after,heq,-,-,hcut⟩ := find_eraseP_split hw
  have hmem : w ∈ q.waiters := mem_of_find?_eq_some hw
  have hrest := h.sublist (eraseP_sublist (p := watches server) (l := q.waiters))
  refine ⟨hrest.sorted,hrest.depth,fun v hv => ?_,hrest.staying,?_,?_,hrest.named⟩
  · -- the one that is signalled differs from those that stay
    have hne : v.id ≠ w.id := by
      have hs := h.sorted
      rw [heq] at hs
      dsimp only at hv
      rw [hcut] at hv
      grind [pairwise_cons]
    simpa [hne] using hrest.fresh v hv
  · simpa [nodup_append] using ⟨h.once,fun i hi he => h.fresh w hmem (he ▸ hi)⟩
  · simpa [or_imp, forall_and] using ⟨h.known,h.lt w hmem⟩

theorem orderly_of_step {q' : Queue} (h : Orderly q) (hs : EventStep step q q') : Orderly q' := by
  obtain ⟨event,hs⟩ := hs
  cases event with
  | enter serverIDs timed => exact Option.some.inj hs ▸ orderly_enter h serverIDs timed
  | release server => exact Option.some.inj hs ▸ orderly_release h server
  | wake i cause =>
    rw [step, wake] at hs
    split at hs
    · split_ifs at hs
      cases hs
      exact h.set i _ (Or.inr (by simp))
    · cases hs
  | leave i =>
    rw [step, leave] at hs
    split at hs
    · cases hs
      exact (h.sublist eraseP_sublist).set i _ (Or.inl (ne_of_mem_remove i _ h.sorted))
    · cases hs

theorem orderly_of_reachable (maxDepth : ℤ) (q : Queue)
    (hq : Relation.ReflTransGen (EventStep step) (newAdmissionQueue maxDepth) q) : Orderly q := by
  induction hq with
  | refl => exact orderly_new maxDepth
  | tail _ hs h => exact orderly_of_step h hs

/-! ### Releases -/

/-- A release serves the earliest that watches its server, and nobody else. -/
structure Serves (q : Queue) (server : String) (q' : Queue) : Prop where
  idle : (∀ w ∈ q.waiters, watches server w = false) → q' = q
  first : ∀ before w after, q.waiters = before ++ w::after → watches server w = true →
    (∀ v ∈ before, watches server v = false) →
    q' = { q with waiters := before ++ after, signalled := q.signalled ++ [w.id] }

theorem release_serves (h : Orderly q) (server : String) : Serves q server (release q server) := by
  constructor
  · intro hn
    simp [release, find?_eq_none.mpr (by simpa using hn)]
  · intro before w after heq hw hb
    have hserver : server ≠ "" := by
      rintro rfl
      exact h.named w (by simp [heq]) (by simpa [watches] using hw)
    have hfind : q.waiters.find? (watches server) = some w :=
      find?_eq_some_iff_append.mpr ⟨hw,before,after,heq,by simpa using hb⟩
    rw [release, if_neg hserver, hfind]
    simp only [heq]
    rw [eraseP_append_right _ (by simpa using hb), eraseP_cons_of_pos hw]

/-- One release after the other signals the watching waiters in line, first in,
first out. -/
theorem signalled_releases (h : Orderly q) (server : String) (n : ℕ) :
    ((release · server)^[n] q).signalled =
      q.signalled ++ ((q.waiters.filter (watches server)).take n).map Waiter.id := by
  induction n generalizing q with
  | zero => simp
  | succ n ih =>
    rw [Function.iterate_succ_apply, ih (orderly_release h server)]
    cases hf : q.waiters.find? (watches server) with
    | none =>
      have hnone := find?_eq_none.mp hf
      rw [(release_serves h server).idle (by simpa using hnone),
        filter_eq_nil_iff.mpr hnone, take_nil, take_nil]
    | some w =>
      obtain ⟨before,after,heq,hb,hw,-⟩ := find_eraseP_split hf
      have hbefore : before.filter (watches server) = [] := by simpa using hb
      rw [(release_serves h server).first before w after heq hw hb, heq]
      simp [hbefore, hw]

/-- Over every interleaving of calls, releases, wakes and returns, the line is
bounded and in order of arrival, a release serves its first watching waiter
alone, nobody is signalled twice, releases in a row are handed out first in,
first out, and who has returned is not in line. -/
theorem releases_hand_off_in_order (maxDepth : ℤ) (q : Queue)
    (hq : Relation.ReflTransGen (EventStep step) (newAdmissionQueue maxDepth) q) :
    q.waiters.length ≤ q.maxDepth ∧ q.waiters.Pairwise (·.id < ·.id) ∧
    (∀ server, Serves q server (release q server)) ∧ q.signalled.Nodup ∧
    (∀ server n, n ≤ (q.waiters.filter (watches server)).length →
      ∃ woken, ((release · server)^[n] q).signalled = q.signalled ++ woken ∧ woken.length = n ∧
        woken.Nodup ∧ woken = ((q.waiters.filter (watches server)).take n).map Waiter.id) ∧
    ∀ i a, q.calls[i]? = some (.returned a) → ∀ w ∈ q.waiters, w.id ≠ i := by
  have h := orderly_of_reachable maxDepth q hq
  refine ⟨h.depth,h.sorted,release_serves h,h.once,fun server n hn => ?_,?_⟩
  · refine ⟨_,signalled_releases h server n,by simpa using hn,?_,rfl⟩
    have hsub := (take_sublist n (q.waiters.filter (watches server))).trans filter_sublist
    exact pairwise_map.mpr ((h.sorted.sublist hsub).imp ne_of_lt)
  · rintro i a hi w hw rfl
    obtain ⟨stage,hs,hne⟩ := h.staying w hw
    exact hne a (Option.some.inj (hs.symm.trans hi))

def releasedTwice : Queue :=
  play step (newAdmissionQueue 2) [.enter ["a", "b"] true, .enter ["b"] false, .enter ["b"] true,
    .wake 0 .timeout, .release "b", .leave 0, .release "b"]

theorem releases_hand_off_in_order_two :
    releasedTwice.signalled = [0, 1] ∧ releasedTwice.signalled.Nodup ∧
      ∀ server, Serves releasedTwice server (release releasedTwice server) := by
  have h := releases_hand_off_in_order 2 releasedTwice (reaches_play step _ _)
  exact ⟨by decide,h.2.2.2.1,h.2.2.1⟩

end OnPremGateway.AdmissionQueue
