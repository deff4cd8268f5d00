import OnPremGateway.RuntimeLogs

/-!
# No byte of a log view goes uncounted

What a viewer has been told about, in text or as missing, is all that was published
to it, and the boundary markers arrive once each and in order. The count of what is
missing leaves out one thing: bytes that a dropped text entry itself reported as
missing.
-/

set_option autoImplicit false

namespace OnPremGateway.LogConservation
open RuntimeLogs List Option

variable (ops : List ViewOp) (v : View) (dropped : ℕ) (entries : List LogEntry) (s : LogSub)
  (batch : LogBatch)

def entryBytes (e : LogEntry) : ℕ := e.text.length + e.droppedBytes

def entriesBytes (entries : List LogEntry) : ℕ := (entries.map entryBytes).sum

def batchesBytes (batches : List LogBatch) : ℕ := (batches.map fun b => entriesBytes b.entries).sum

def markers (entries : List LogEntry) : List LogEntry :=
  (entries.filter fun e => e.event.isSome).map fun e => { e with droppedBytes := 0 }

def batchesMarkers (batches : List LogBatch) : List LogEntry := batches.flatMap fun b => markers b.entries

def textDropped (entries : List LogEntry) : ℕ :=
  ((entries.filter fun e => e.event = none).map LogEntry.droppedBytes).sum

def Proper (batch : LogBatch) : Prop := ∀ e ∈ batch.entries, e.event ≠ none → e.text = []

structure Live (batch : LogBatch) : Prop where
  live : batch.scrollback = false
  proper : Proper batch

/-! ### Entries -/

theorem entriesBytes_append (a b : List LogEntry) :
    entriesBytes (a ++ b) = entriesBytes a + entriesBytes b := by
  simp [entriesBytes]

theorem markers_append (a b : List LogEntry) : markers (a ++ b) = markers a ++ markers b := by
  simp [markers]

theorem stampFirst_bytes :
    entriesBytes (stampFirst dropped entries) = entriesBytes entries + dropped := by
  cases entries with
  | nil => simp [stampFirst, entriesBytes, entryBytes]
  | cons e entries =>
    simp only [stampFirst, entriesBytes, entryBytes, map_cons, sum_cons]
    omega

theorem stampFirst_markers : markers (stampFirst dropped entries) = markers entries := by
  cases entries with
  | nil => rfl
  | cons e entries =>
    by_cases he : e.event.isSome
    · simp [stampFirst, markers, he]
    · simp [stampFirst, markers, he]

theorem stamped_bytes (dropped : ℕ) : entriesBytes (s.stampedLocked batch dropped).entries =
      entriesBytes s.carry + entriesBytes batch.entries + dropped := by
  rw [LogSub.stampedLocked]
  split
  · next h =>
    rw [h.1, h.2]
    simp [entriesBytes]
  dsimp only
  split
  · rw [stampFirst_bytes, entriesBytes_append]
  · next h =>
    rw [entriesBytes_append]
    omega

theorem stamped_markers (dropped : ℕ) :
    markers (s.stampedLocked batch dropped).entries = markers s.carry ++ markers batch.entries := by
  rw [LogSub.stampedLocked]
  split
  · next h =>
    rw [h.2]
    rfl
  dsimp only
  split
  · rw [stampFirst_markers, markers_append]
  · rw [markers_append]

/-- The text of a batch, its markers and what its text entries report as missing. -/
theorem entriesBytes_split (h : ∀ e ∈ entries, e.event ≠ none → e.text = []) :
    entriesBytes entries = batchTextBytes entries +
      entriesBytes (entries.filter fun e => e.event.isSome) + textDropped entries := by
  induction entries with
  | nil => rfl
  | cons e entries ih =>
    have hrest := ih fun x hx => h x (mem_cons_of_mem e hx)
    have htext := h e mem_cons_self
    cases hevent : e.event with
    | none =>
      simp only [entriesBytes, batchTextBytes, textDropped, entryBytes, map_cons, sum_cons, hevent,
        filter_cons, isSome_none, decide_true, if_true, Bool.false_eq_true, if_false] at hrest ⊢
      omega
    | some event =>
      rw [hevent] at htext
      simp only [entriesBytes, batchTextBytes, textDropped, entryBytes, map_cons, sum_cons, hevent,
        filter_cons, isSome_some, if_true, reduceCtorEq, decide_false, Bool.false_eq_true, if_false,
        htext nofun, length_nil] at hrest ⊢
      omega

/-! ### One step -/

def pending (v : View) : ℕ :=
  batchesBytes v.hand.toList + batchesBytes v.sub.ch + v.sub.dropped + entriesBytes v.sub.carry

def pendingMarkers (v : View) : List LogEntry :=
  batchesMarkers v.hand.toList ++ batchesMarkers v.sub.ch ++ markers v.sub.carry

/-- Markers of a dropped batch are carried unless the stream ends. -/
theorem carryLocked_spec (h : (s.carryLocked entries).closed = false) :
    s.carryLocked entries = { s with carry := s.carry ++ entries.filter fun e => e.event.isSome } := by
  induction entries generalizing s with
  | nil => simp [LogSub.carryLocked]
  | cons e entries ih =>
    rw [LogSub.carryLocked] at h ⊢
    by_cases hevent : e.event = none
    · rw [if_pos hevent] at h ⊢
      rw [ih s h]
      simp [hevent]
    have hsome : e.event.isSome = true := isSome_iff_ne_none.mpr hevent
    rw [if_neg hevent] at h ⊢
    split at h
    · next hfull =>
      rw [LogSub.resyncLocked] at h
      split at h
      · next hclosed =>
        rw [hclosed] at h
        cases h
      · cases h
    · next hroom =>
      rw [if_neg hroom, ih _ h]
      simp [hsome]

theorem step_closed (op : ViewOp) (h : v.sub.closed = true) : (v.step op).sub.closed = true := by
  cases op with
  | deliver batch =>
    rw [View.step, LogSub.deliver, if_pos h]
    exact h
  | receive =>
    rw [View.step]
    split
    · exact h
    · exact h
  | take =>
    rw [View.step]
    split
    · exact h
    · exact h

def deliveredBy : ViewOp → List LogBatch
  | .deliver batch => [batch]
  | _ => []

def lost (v : View) : ViewOp → ℕ
  | .deliver batch => if v.sub.ch.length < runtimeLogSubBuffer then 0 else textDropped batch.entries
  | _ => 0

theorem batchesBytes_append (a b : List LogBatch) :
    batchesBytes (a ++ b) = batchesBytes a + batchesBytes b := by
  simp [batchesBytes]

theorem batchesMarkers_append (a b : List LogBatch) :
    batchesMarkers (a ++ b) = batchesMarkers a ++ batchesMarkers b := by
  simp [batchesMarkers]

theorem batchesBytes_singleton (b : LogBatch) : batchesBytes [b] = entriesBytes b.entries := by
  simp [batchesBytes]

theorem batchesMarkers_singleton (b : LogBatch) : batchesMarkers [b] = markers b.entries := by
  simp [batchesMarkers]

structure Accounts (v v' : View) (missed : ℕ) (batches : List LogBatch) : Prop where
  bytes : batchesBytes v'.received + pending v' + missed =
    batchesBytes v.received + pending v + batchesBytes batches
  markers : batchesMarkers v'.received ++ pendingMarkers v' =
    batchesMarkers v.received ++ pendingMarkers v ++ batchesMarkers batches

theorem deliver_accounts {batch : LogBatch} (hlive : Live batch)
    (hopen : (v.step (.deliver batch)).sub.closed = false) :
    Accounts v (v.step (.deliver batch)) (lost v (.deliver batch)) [batch] := by
  have hbefore : v.sub.closed = false := by
    by_contra h
    rw [Bool.not_eq_false] at h
    rw [step_closed v _ h] at hopen
    cases hopen
  rw [View.step] at hopen ⊢
  rw [LogSub.deliver, hbefore, hlive.live] at hopen ⊢
  simp only [Bool.false_eq_true, if_false] at hopen ⊢
  rw [LogSub.send] at hopen ⊢
  split at hopen
  · next hroom =>
    rw [if_pos hroom, lost, if_pos hroom]
    constructor
    · simp only [pending, batchesBytes_append, batchesBytes_singleton, stamped_bytes]
      simp only [entriesBytes, map_nil, sum_nil]
      omega
    · simp only [pendingMarkers, batchesMarkers_append, batchesMarkers_singleton, stamped_markers]
      simp [markers]
  · next hfull =>
    rw [if_neg hfull, lost, if_neg hfull, carryLocked_spec _ _ hopen]
    have hsplit := entriesBytes_split batch.entries hlive.proper
    constructor
    · simp only [pending, batchesBytes_singleton, entriesBytes_append]
      omega
    · simp only [pendingMarkers, batchesMarkers_singleton, markers_append, append_assoc]
      simp [markers]

theorem step_accounts (op : ViewOp) (hlive : ∀ batch ∈ deliveredBy op, Live batch)
    (hopen : (v.step op).sub.closed = false) : Accounts v (v.step op) (lost v op) (deliveredBy op) := by
  cases op with
  | deliver batch => exact deliver_accounts v (hlive batch (mem_singleton_self batch)) hopen
  | receive =>
    rw [View.step]
    split
    · next batch ch hhand hch =>
      constructor
      · simp only [pending, lost, deliveredBy, hhand, hch, toList_none, toList_some]
        simp only [batchesBytes, map_nil, map_cons, sum_nil, sum_cons]
        omega
      · simp [pendingMarkers, deliveredBy, hhand, hch, batchesMarkers]
    · exact ⟨rfl,(append_nil _).symm⟩
  | take =>
    rw [View.step]
    split
    · exact ⟨rfl,(append_nil _).symm⟩
    next batch hhand =>
    have hcleared : (v.sub.take batch).1 = { v.sub with dropped := 0 } := rfl
    have hbytes : entriesBytes (v.sub.take batch).2.entries = entriesBytes batch.entries + v.sub.dropped := by
      rw [LogSub.take]
      dsimp only
      split
      · next hzero => rw [hzero, add_zero]
      · exact stampFirst_bytes _ _
    have hmarkers : markers (v.sub.take batch).2.entries = markers batch.entries := by
      rw [LogSub.take]
      dsimp only
      split
      · rfl
      · exact stampFirst_markers _ _
    constructor
    · simp only [pending, lost, deliveredBy, hhand, toList_none, toList_some,
        batchesBytes_append, batchesBytes_singleton, hbytes, hcleared]
      simp only [batchesBytes, map_nil, sum_nil]
      omega
    · simp only [pendingMarkers, deliveredBy, hhand, toList_none, toList_some,
        batchesMarkers_append, batchesMarkers_singleton, hmarkers, hcleared]
      simp [batchesMarkers]

/-! ### Runs -/

def delivered (ops : List ViewOp) : List LogBatch := ops.flatMap deliveredBy

def lostAlong : View → List ViewOp → ℕ
  | _, [] => 0
  | v, op::ops => lost v op + lostAlong (v.step op) ops

theorem run_closed (h : v.sub.closed = true) : (v.run ops).sub.closed = true := by
  induction ops generalizing v with
  | nil => exact h
  | cons op ops ih => exact ih (v.step op) (step_closed v op h)

theorem run_accounts (hlive : ∀ batch ∈ delivered ops, Live batch)
    (hopen : (v.run ops).sub.closed = false) : Accounts v (v.run ops) (lostAlong v ops) (delivered ops) := by
  induction ops generalizing v with
  | nil => exact ⟨rfl,(append_nil _).symm⟩
  | cons op ops ih =>
    have hstep : (v.step op).sub.closed = false := by
      by_contra h
      rw [Bool.not_eq_false] at h
      have hclosed := run_closed ops (v.step op) h
      rw [View.run, foldl_cons, ← View.run, hclosed] at hopen
      cases hopen
    have hfirst := step_accounts v op (fun b hb => hlive b (by simp [delivered, hb])) hstep
    have hrest := ih (v.step op) (fun b hb => hlive b (by
      simp only [delivered, flatMap_cons, mem_append]
      exact Or.inr hb)) hopen
    have hall : delivered (op::ops) = deliveredBy op ++ delivered ops := by simp [delivered]
    have hrun : v.run (op::ops) = (v.step op).run ops := rfl
    constructor
    · have h1 := hfirst.bytes
      have h2 := hrest.bytes
      rw [hrun, hall, batchesBytes_append, lostAlong]
      omega
    · rw [hrun, hall, batchesMarkers_append, hrest.markers, hfirst.markers, append_assoc, append_assoc]

def CarriesMarkers (s : LogSub) : Prop := ∀ e ∈ s.carry, e.text = []

theorem carryLocked_carries (h : CarriesMarkers s)
    (hproper : ∀ e ∈ entries, e.event ≠ none → e.text = []) : CarriesMarkers (s.carryLocked entries) := by
  induction entries generalizing s with
  | nil => exact h
  | cons e entries ih =>
    have hrest := fun x hx => hproper x (mem_cons_of_mem e hx)
    rw [LogSub.carryLocked]
    split
    · exact ih s h hrest
    next hevent =>
    split
    · rw [LogSub.resyncLocked]
      split
      · exact h
      · exact nofun
    apply ih _ _ hrest
    intro x hx
    rcases mem_append.mp hx with hx | hx
    · exact h x hx
    · rw [mem_singleton] at hx
      rw [hx]
      exact hproper e mem_cons_self hevent

theorem send_carries (more replay : Bool) (h : CarriesMarkers s)
    (hproper : Proper batch) : CarriesMarkers (s.send batch more replay) := by
  rw [LogSub.send]
  split
  · exact nofun
  · exact carryLocked_carries _ _ h hproper

theorem run_carries (h : CarriesMarkers v.sub)
    (hlive : ∀ batch ∈ delivered ops, Live batch) : CarriesMarkers (v.run ops).sub := by
  induction ops generalizing v with
  | nil => exact h
  | cons op ops ih =>
    apply ih (v.step op)
    · cases op with
      | deliver batch =>
        have hproper := (hlive batch (by simp [delivered, deliveredBy])).proper
        rw [View.step, LogSub.deliver]
        dsimp only
        split
        · exact h
        split
        · split
          · exact h
          · exact send_carries _ _ _ _ h hproper
        · exact send_carries _ _ _ _ h hproper
      | receive =>
        rw [View.step]
        split
        · exact h
        · exact h
      | take =>
        rw [View.step]
        split
        · exact h
        · exact h
    · intro b hb
      apply hlive b
      simp only [delivered, flatMap_cons, mem_append]
      exact Or.inr hb

/-- No text entry of a batch that does not fit reports missing bytes of its own. -/
def Counted : View → List ViewOp → Prop
  | _, [] => True
  | v, op::ops => (∀ batch ∈ deliveredBy op, runtimeLogSubBuffer ≤ v.sub.ch.length →
      ∀ e ∈ batch.entries, e.event = none → e.droppedBytes = 0) ∧ Counted (v.step op) ops

theorem textDropped_eq_zero_iff :
    textDropped entries = 0 ↔ ∀ e ∈ entries, e.event = none → e.droppedBytes = 0 := by
  rw [textDropped, sum_eq_zero_iff]
  constructor
  · intro h e he hevent
    exact h _ (mem_map_of_mem (mem_filter.mpr ⟨he,by simp [hevent]⟩))
  · intro h x hx
    obtain ⟨e,he,rfl⟩ := mem_map.mp hx
    rw [mem_filter, decide_eq_true_eq] at he
    exact h e he.1 he.2

theorem lostAlong_eq_zero_iff : lostAlong v ops = 0 ↔ Counted v ops := by
  induction ops generalizing v with
  | nil => exact ⟨fun _ => trivial,fun _ => rfl⟩
  | cons op ops ih =>
    rw [lostAlong, Nat.add_eq_zero_iff, ih, Counted]
    apply and_congr_left'
    cases op with
    | deliver batch =>
      simp only [lost, deliveredBy, mem_singleton, forall_eq]
      split
      · next hroom => exact ⟨fun _ h => absurd hroom (not_lt.mpr h),fun _ => rfl⟩
      · next hfull =>
        rw [textDropped_eq_zero_iff]
        exact ⟨fun h _ => h,fun h => h (not_lt.mp hfull)⟩
    | receive => simp [lost, deliveredBy]
    | take => simp [lost, deliveredBy]

/-- Text and missing bytes received, those still queued, the pending count and the
counts of the carried markers are what was delivered. -/
def Balanced (v : View) (ops : List ViewOp) : Prop :=
  batchesBytes v.received + (batchesBytes v.hand.toList + batchesBytes v.sub.ch) + v.sub.dropped +
    (v.sub.carry.map LogEntry.droppedBytes).sum = batchesBytes (delivered ops)

/-- Every marker is received, queued or carried once, in the order it was published. -/
def MarkersInOrder (v : View) (ops : List ViewOp) : Prop :=
  batchesMarkers v.received ++ batchesMarkers v.hand.toList ++ batchesMarkers v.sub.ch ++
    markers v.sub.carry = batchesMarkers (delivered ops)

/-- Up to a resync the markers arrive in order, and the bytes balance exactly when
no dropped text entry reported missing bytes of its own. -/
theorem view_balanced_iff (ops : List ViewOp) (hlive : ∀ batch ∈ delivered ops, Live batch)
    (hopen : (View.run {} ops).sub.closed = false) :
    (Balanced (View.run {} ops) ops ↔ Counted {} ops) ∧ MarkersInOrder (View.run {} ops) ops := by
  have haccounts := run_accounts ops {} hlive hopen
  have hcarry : entriesBytes (View.run {} ops).sub.carry =
      ((View.run {} ops).sub.carry.map LogEntry.droppedBytes).sum := by
    have hcarries := run_carries ops {} nofun hlive
    rw [entriesBytes]
    congr 1
    apply map_congr_left
    intro e he
    rw [entryBytes, hcarries e he, length_nil, zero_add]
  constructor
  · rw [← lostAlong_eq_zero_iff, Balanced]
    have hbytes := haccounts.bytes
    have hinit : batchesBytes ({} : View).received + pending {} = 0 := rfl
    rw [hinit, pending, hcarry] at hbytes
    omega
  · have hmarkers := haccounts.markers
    have hinit : batchesMarkers ({} : View).received ++ pendingMarkers {} = [] := rfl
    rw [hinit, nil_append, pendingMarkers] at hmarkers
    rw [MarkersInOrder, ← hmarkers]
    simp only [append_assoc]

def textBatch (text : Bytes) (droppedBytes : ℕ) : LogBatch := { entries := [{ text, droppedBytes }] }
def startBatch : LogBatch := { entries := [{ pid := 7, event := some .started }] }

def stalledOps : List ViewOp :=
  [.deliver (textBatch [104, 105] 3), .receive, .take] ++
    List.replicate runtimeLogSubBuffer (.deliver (textBatch [104] 0)) ++
    [.deliver startBatch, .deliver (textBatch [98, 121, 101] 0), .receive, .take]

theorem view_balanced_iff_stalled :
    (∀ batch ∈ delivered stalledOps, Live batch) ∧ (View.run {} stalledOps).sub.closed = false ∧
      MarkersInOrder (View.run {} stalledOps) stalledOps := by
  have hlive : ∀ batch ∈ delivered stalledOps, Live batch := by
    intro batch hbatch
    have hall : delivered stalledOps =
        [textBatch [104, 105] 3] ++ replicate 16 (textBatch [104] 0) ++
          [startBatch, textBatch [98, 121, 101] 0] := rfl
    rw [hall] at hbatch
    simp only [mem_append, mem_replicate, mem_cons, not_mem_nil, or_false] at hbatch
    rcases hbatch with (rfl | ⟨-,rfl⟩) | rfl | rfl
    · exact ⟨rfl,by simp [Proper, textBatch]⟩
    · exact ⟨rfl,by simp [Proper, textBatch]⟩
    · exact ⟨rfl,by simp [Proper, startBatch]⟩
    · exact ⟨rfl,by simp [Proper, textBatch]⟩
  have hopen : (View.run {} stalledOps).sub.closed = false := by decide +kernel
  exact ⟨hlive,hopen,(view_balanced_iff stalledOps hlive hopen).2⟩

def crowdedOps : List ViewOp :=
  List.replicate runtimeLogSubBuffer (.deliver (textBatch [104] 0)) ++ [.deliver (textBatch [105] 5)]

theorem dropped_line_uncounted :
    (View.run {} crowdedOps).sub.closed = false ∧ ¬ Balanced (View.run {} crowdedOps) crowdedOps := by
  rw [Balanced]
  decide +kernel

end OnPremGateway.LogConservation
