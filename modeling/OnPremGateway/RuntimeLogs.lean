import Mathlib

/-!
# One log view

A viewer of a managed process's output reads batches from a bounded queue. A batch
that does not fit loses its text, which is counted, and keeps its boundary markers,
which wait for the next batch that fits. The count is stamped on the next batch
that is queued, or on the next one the reader takes.
-/

set_option autoImplicit false

namespace OnPremGateway.RuntimeLogs

abbrev Bytes := List UInt8

def runtimeLogSubBuffer : ℕ := 16
def runtimeLogSubMarkerCarry : ℕ := 256

inductive LogEvent where
  | started
  | exited
  | startFailed
  deriving DecidableEq, Repr

structure LogCommand where
  binary : String
  args : List String
  workDir : String
  env : List String
  masked : Bool
  envRedacted : Bool
  truncated : Bool
  deriving DecidableEq

structure LogEntry where
  pid : ℤ := 0
  timestamp : String := ""
  text : Bytes := []
  droppedBytes : ℕ := 0
  event : Option LogEvent := none
  exitCode : ℤ := 0
  command : Option LogCommand := none
  instanceIndex : ℕ := 0
  deriving DecidableEq

structure LogBatch where
  scrollback : Bool := false
  more : Bool := false
  entries : List LogEntry
  deriving DecidableEq

structure LogSub where
  ch : List LogBatch := []
  dropped : ℕ := 0
  carry : List LogEntry := []
  sbStarted : Bool := false
  sbDone : Bool := false
  closed : Bool := false
  deriving DecidableEq

def batchTextBytes (entries : List LogEntry) : ℕ := (entries.map fun e => e.text.length).sum

def stampFirst (dropped : ℕ) : List LogEntry → List LogEntry
  | [] => [{ droppedBytes := dropped }]
  | e::entries => { e with droppedBytes := e.droppedBytes + dropped }::entries

def LogSub.stampedLocked (s : LogSub) (batch : LogBatch) (dropped : ℕ) : LogBatch :=
  if dropped = 0 ∧ s.carry = [] then batch
  else
    let entries := s.carry ++ batch.entries
    { batch with entries := if 0 < dropped then stampFirst dropped entries else entries }

def LogSub.resyncLocked (s : LogSub) : LogSub :=
  if s.closed then s else { s with closed := true, carry := [] }

def LogSub.carryLocked (s : LogSub) : List LogEntry → LogSub
  | [] => s
  | e::entries =>
    if e.event = none then s.carryLocked entries
    else if runtimeLogSubMarkerCarry ≤ s.carry.length then s.resyncLocked
    else LogSub.carryLocked { s with carry := s.carry ++ [e] } entries

def LogSub.send (s : LogSub) (batch : LogBatch) (more : Bool) (replay : Bool) : LogSub :=
  if s.ch.length < runtimeLogSubBuffer then
    { s with
      ch := s.ch ++ [s.stampedLocked batch s.dropped]
      carry := []
      dropped := 0
      sbStarted := s.sbStarted || replay
      sbDone := if replay then !more else s.sbDone }
  else LogSub.carryLocked { s with dropped := s.dropped + batchTextBytes batch.entries } batch.entries

def LogSub.deliver (s : LogSub) (batch : LogBatch) : LogSub :=
  if s.closed then s
  else if batch.scrollback then
    if s.sbDone then s
    else s.send { batch with more := false, scrollback := !s.sbStarted } batch.more true
  else s.send { batch with more := false } batch.more false

def LogSub.take (s : LogSub) (batch : LogBatch) : LogSub × LogBatch :=
  ({ s with dropped := 0 },
    if s.dropped = 0 then batch else { batch with entries := stampFirst s.dropped batch.entries })

/-! ### A view and its reader -/

/-- What the reader holds between the queue and its own stamp, and what it has
written. -/
structure View where
  sub : LogSub := {}
  hand : Option LogBatch := none
  received : List LogBatch := []

inductive ViewOp where
  | deliver (batch : LogBatch)
  | receive
  | take

def View.step (v : View) : ViewOp → View
  | .deliver batch => { v with sub := v.sub.deliver batch }
  | .receive =>
    match v.hand, v.sub.ch with
    | none, batch::ch => { v with sub := { v.sub with ch }, hand := some batch }
    | _, _ => v
  | .take =>
    match v.hand with
    | none => v
    | some batch =>
      let taken := v.sub.take batch
      { sub := taken.1, hand := none, received := v.received ++ [taken.2] }

def View.run (v : View) (ops : List ViewOp) : View := ops.foldl View.step v

end OnPremGateway.RuntimeLogs
