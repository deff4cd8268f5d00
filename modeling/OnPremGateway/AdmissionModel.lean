import OnPremGateway.SliceOrder
import OnPremGateway.RuntimeTypes

/-!
# The admission policy

`admitSpec` answers whether a spec may start next to the processes of a snapshot.
Six rules walk one accumulator in a fixed order, and a process that one rule
queues for eviction counts as gone for every later rule. The only freedom the
program leaves is the order in which it ranges over its maps; every function
that ranges over one takes that order as an argument.
-/

set_option autoImplicit false

namespace OnPremGateway.AdmissionModel
open SliceOrder RuntimeTypes

inductive Caller where
  | gpu (index : ℤ)
  | ram
  | count
  | drain
  deriving DecidableEq, Repr

inductive Site where
  | gpus (specID : String)
  | slots (caller : Caller)
  | toEvict
  | rerun (s : Site)
  deriving DecidableEq, Repr

abbrev Ranges := RangeOrder Site

def Ranges.rerun (ρ : Ranges) : Ranges :=
  ⟨fun s _ es => ρ.visit (.rerun s) es, fun s _ es => ρ.perm (.rerun s) es⟩

def withinGrace (lastUsed now grace : ℤ) : Bool := grace > 0 && sub now lastUsed ≤ grace

def isEvictable (r : RunningProc) (now grace : ℤ) : Bool :=
  !r.pinned && !r.starting && r.inFlight = 0 && !withinGrace r.lastUsed now grace

def occupies (r : RunningProc) (i : ℤ) : Bool := (r.gpus.lookup i).isSome

def firstSharedGPU (r : RunningProc) (idx : List ℤ) : Option ℤ := idx.find? (occupies r)

def touchesAnyGPU (r : RunningProc) (idx : List ℤ) : Bool := (firstSharedGPU r idx).isSome

def lowerUnknown (found : Option ℤ) (e : Sigma (fun _ : ℤ => ℤ)) : Option ℤ :=
  if e.2 ≠ 0 then found
  else match found with
    | none => some e.1
    | some lowest => if e.1 < lowest then some e.1 else some lowest

def firstUnknownGPU (ρ : Ranges) (r : RunningProc) : Option ℤ :=
  (ρ.visit (.gpus r.specID) r.gpus.entries).foldl lowerUnknown none

def procHasUnknownVRAM (ρ : Ranges) (r : RunningProc) : Bool := (firstUnknownGPU ρ r).isSome

def pairAllowed (allowed : AList (fun _ : String × String => Bool)) (candidateBase : String)
    (r : RunningProc) : Bool :=
  baseOf r = candidateBase || (allowed.lookup (pairKey candidateBase (baseOf r))).getD false

def ownDemandRefusal (snap : PolicySnapshot) (spec : Spec) : Option Decision :=
  spec.gpus.findSome? fun g =>
    let budget := valueAt snap.budgets g.index
    if g.vramMB = 0 then none
    else if budget ≤ 0 then none
    else if g.vramMB > budget then
      some
        { reason := some .notPermitted
          message :=
            s!"spec {spec.id}: gpu {g.index} demand {g.vramMB} MB exceeds budget {budget} MB on its own" }
    else none

def ramOwnDemandRefusal (snap : PolicySnapshot) (spec : Spec) : Option Decision :=
  if snap.hostRAMBudgetMB ≤ 0 ∨ spec.ramMB ≤ 0 then none
  else
    let limit := max snap.hostRAMCeilingMB snap.hostRAMBudgetMB
    if spec.ramMB ≤ limit then none
    else some { reason := some .notPermitted
                message := s!"spec {spec.id}: RAM demand {spec.ramMB} MB exceeds the host RAM " ++
                  s!"budget {limit} MB on its own" }

def pinnedUnknownCandidateRefusal (running : List RunningProc) (gpuIdx : List ℤ) : Option Decision :=
  if running.any (fun r => r.pinned && touchesAnyGPU r gpuIdx) then
    some { reason := some .pendingVRAMUnknown }
  else none

def outranksAsBlocker (closed : Bool) (id : String) (bestClosed : Bool) (bestID : String) : Bool :=
  if closed ≠ bestClosed then closed else id < bestID

structure Blocker where
  proc : RunningProc
  sharedGPU : ℤ
  pairClosed : Bool

def considerBlocker (ρ : Ranges) (snap : PolicySnapshot) (base : String) (gpuIdx : List ℤ)
    (found : Option Blocker) (r : RunningProc) : Option Blocker :=
  if !r.pinned || !procHasUnknownVRAM ρ r then found
  else match firstSharedGPU r gpuIdx with
    | none => found
    | some gpu =>
      let closed := !pairAllowed snap.allowed base r
      match found with
      | none => some ⟨r, gpu, closed⟩
      | some best =>
        if outranksAsBlocker closed r.specID best.pairClosed best.proc.specID then
          some ⟨r, gpu, closed⟩
        else some best

def pinnedUnknownOccupantRefusal (ρ : Ranges) (snap : PolicySnapshot) (spec : Spec)
    (running : List RunningProc) (gpuIdx : List ℤ) : Option Decision :=
  match running.foldl (considerBlocker ρ snap (specBase spec) gpuIdx) none with
  | none => none
  | some b =>
    if b.pairClosed then
      some { reason := some .notPermitted
             message := s!"spec {spec.id}: gpu {b.sharedGPU} is held by pinned spec {b.proc.specID}, " ++
               "and that pair is not permitted by the co-residency matrix" }
    else
      let unknownGPU := (firstUnknownGPU ρ b.proc).getD 0
      some { reason := some .pendingVRAMUnknown
             message := s!"spec {spec.id}: gpu {b.sharedGPU} is held by pinned spec {b.proc.specID}, " ++
               s!"whose own demand on gpu {unknownGPU} is unknown" }

def olderFirst (a b : RunningProc) : Bool :=
  if a.lastUsed ≠ b.lastUsed then a.lastUsed < b.lastUsed else a.specID < b.specID

def sortOldestFirst (procs : List RunningProc) : List RunningProc := sortSlice olderFirst procs

def higherFirst (a b : RunningProc) : Bool :=
  if a.instanceIdx ≠ b.instanceIdx then a.instanceIdx > b.instanceIdx else a.specID < b.specID

def slotsOf (procs : List RunningProc) : List (String × List ℕ) :=
  (procs.map baseOf).dedup.map (fun base => (base, slotsFrom (fun r => baseOf r = base) procs 0))

def reorderSlots (procs : List RunningProc) (slot : String × List ℕ) : List RunningProc :=
  if slot.2.length < 2 then procs
  else writeSlots procs (slot.2.zip (sortSlice higherFirst (readSlots procs slot.2)))

def siblingsHighestFirst (ρ : Ranges) (caller : Caller) (procs : List RunningProc) :
    List RunningProc :=
  (ρ.visit (.slots caller) (slotsOf procs)).foldl reorderSlots procs

structure Admission where
  snap : PolicySnapshot
  spec : Spec
  running : List RunningProc
  unknownVRAM : Bool
  gpuIdx : List ℤ
  base : String
  candidateRole : String
  toEvict : AList (fun _ : String => RunningProc) := ∅
  blocked : Bool := false
  ramBlocked : Bool := false
  waitMessage : String := ""
  bootstrapEvicted : Bool := false

def drawnBefore (candidateRole : String) (a b : RunningProc) : Bool :=
  if a.surplus ≠ b.surplus then a.surplus
  else if (a.role = candidateRole) ≠ (b.role = candidateRole) then a.role = candidateRole
  else olderFirst a b

variable (ρ : Ranges) (snap : PolicySnapshot) (spec : Spec) (a : Admission) (r : RunningProc)

def Admission.orderVictims (caller : Caller) (a : Admission)
    (procs : List RunningProc) : List RunningProc :=
  siblingsHighestFirst ρ caller (sortSlice (drawnBefore a.candidateRole) procs)

def Admission.queued : Bool := (a.toEvict.lookup r.specID).isSome

def Admission.higherSiblingStays : Bool :=
  a.running.any fun o => !(o.instanceIdx ≤ r.instanceIdx || baseOf o ≠ baseOf r) && !a.queued o

def Admission.mayEvict : Bool :=
  isEvictable r a.snap.now a.snap.evictionGrace && baseOf r ≠ a.base

def Admission.evictable : Bool :=
  a.mayEvict r && !a.higherSiblingStays r

def Admission.evictableOf (procs : List RunningProc) : List RunningProc :=
  procs.filter a.mayEvict

def Admission.queue : Admission :=
  { a with toEvict := a.toEvict.insert r.specID r }

def Admission.block : Admission := { a with blocked := true }

def runsBefore (a b : RunningProc) : Bool :=
  if baseOf a ≠ baseOf b then baseOf a < baseOf b else higherFirst a b

def newAdmission : Admission where
  snap := snap
  spec := spec
  running := sortSlice runsBefore (snap.running.filter (fun r => r.specID ≠ spec.id))
  unknownVRAM := specHasUnknownVRAM spec
  gpuIdx := specGPUIndexes spec
  base := specBase spec
  candidateRole := roleOf spec.role

def Admission.queueOrBlock : Admission :=
  if a.evictable r then a.queue r else a.block

def Admission.ruleMatrix : Admission :=
  a.running.foldl (fun a r =>
    if pairAllowed a.snap.allowed a.base r then a else a.queueOrBlock r) a

def Admission.bootstrapEvictTouchers : Admission :=
  a.running.foldl (fun a r =>
    if !touchesAnyGPU r a.gpuIdx || procHasUnknownVRAM ρ r then a
    else if a.evictable r then { a.queue r with bootstrapEvicted := true }
    else a.block) a

def firstSpecUnknownGPU : ℤ :=
  match spec.gpus.find? (fun g => g.vramMB = 0) with
  | some g => g.index
  | none => 0

/-- One turn of the precedence block: the occupant blocks, and the lowest
spec id is the one the message names. -/
def blockOnKnown (s : Admission × Option (String × ℤ)) (r : RunningProc) :
    Admission × Option (String × ℤ) :=
  match firstSharedGPU r s.1.gpuIdx with
  | none => s
  | some gpu =>
    if procHasUnknownVRAM ρ r then s
    else match s.2 with
      | none => (s.1.block, some (r.specID, gpu))
      | some best => (s.1.block, if r.specID < best.1 then some (r.specID, gpu) else some best)

def Admission.blockOnKnownTouchers : Admission :=
  match a.running.foldl (blockOnKnown ρ) (a, none) with
  | (a, none) => a
  | (a, some (blocker, gpu)) =>
    { a with waitMessage := s!"spec {a.spec.id}: its own demand on gpu " ++
        s!"{firstSpecUnknownGPU a.spec} is unknown, so it waits for spec {blocker} " ++
        s!"to leave gpu {gpu} rather than evicting it" }

def Admission.ruleUnknownVRAMCandidate : Admission :=
  if !a.unknownVRAM then a
  else if a.snap.vramBootstrapEligible then a.bootstrapEvictTouchers ρ
  else a.blockOnKnownTouchers ρ

def Admission.ruleUnknownVRAMOccupant : Admission :=
  a.running.foldl (fun a r =>
    if !procHasUnknownVRAM ρ r || !touchesAnyGPU r a.gpuIdx then a else a.queueOrBlock r) a

/-- The draw the three resource rules share: stop once `done`, pass over a
victim whose higher sibling stays, queue any other one and account for it. -/
def drawVictims (done : ℤ → Bool) (account : ℤ → RunningProc → ℤ) :
    Admission → ℤ → List RunningProc → Admission × ℤ
  | a, n, [] => (a, n)
  | a, n, r::rs =>
    if done n then (a, n)
    else if a.evictable r then drawVictims done account (a.queue r) (account n r) rs
    else drawVictims done account a n rs

def Admission.remaining : List RunningProc := a.running.filter (fun r => !a.queued r)

/-- The sum wraps at every step, which comes to one wrap of the whole sum. -/
def Admission.chargeGPUBudget (g : SpecGPU) : Admission :=
  let budget := valueAt a.snap.budgets g.index
  if g.vramMB = 0 then a
  else if budget ≤ 0 then a
  else
    let touchers := a.remaining.filter (fun r => occupies r g.index)
    let sum := wrapInt (g.vramMB + (touchers.map (fun r => valueAt r.gpus g.index)).sum)
    if sum ≤ budget then a
    else
      let idleTouchers := a.orderVictims ρ (.gpu g.index) (a.evictableOf touchers)
      let drawn := drawVictims (fun sum => sum ≤ budget)
        (fun sum r => wrapInt (sum - valueAt r.gpus g.index)) a sum idleTouchers
      if drawn.2 > budget then drawn.1.block else drawn.1

def Admission.rulePerGPUVRAM : Admission :=
  a.spec.gpus.foldl (fun a g => a.chargeGPUBudget ρ g) a

def ramCharge : ℤ :=
  if specHasUnknownRAM spec then snap.ramBootstrapGuessMB else spec.ramMB

def Admission.ruleHostRAM : Admission :=
  let budget := a.snap.hostRAMBudgetMB
  if budget ≤ 0 then a
  else if a.snap.ramBootstrapInFlight then { a with blocked := true, ramBlocked := true }
  else
    let candidateRAM := ramCharge a.snap a.spec
    if candidateRAM ≤ 0 then a
    else
      let holders := a.remaining.filter (fun r => !(r.ramMB ≤ 0))
      let sum := wrapInt (candidateRAM + (holders.map RunningProc.ramMB).sum)
      if sum ≤ budget then a
      else
        let idleHolders := a.orderVictims ρ .ram (a.evictableOf holders)
        let drawn := drawVictims (fun sum => sum ≤ budget) (fun sum r => wrapInt (sum - r.ramMB))
          a sum idleHolders
        if drawn.2 > budget then { drawn.1 with blocked := true, ramBlocked := true } else drawn.1

def Admission.ruleProcessCount : Admission :=
  if a.snap.maxProcesses ≤ 0 then a
  else
    let remaining : ℤ := a.running.length - a.toEvict.keys.length
    let deficit := remaining + 1 - a.snap.maxProcesses
    if deficit ≤ 0 then a
    else
      let candidates := a.orderVictims ρ .count (a.evictableOf a.remaining)
      let drawn := drawVictims (fun drawn => drawn = deficit) (fun drawn _ => drawn + 1)
        a 0 candidates
      if drawn.2 < deficit then drawn.1.block else drawn.1

def rulePipeline : Except Decision Admission :=
  let a := newAdmission snap spec
  match ownDemandRefusal snap spec with
  | some dec => .error dec
  | none =>
  match ramOwnDemandRefusal snap spec with
  | some dec => .error dec
  | none =>
  match (if a.unknownVRAM then pinnedUnknownCandidateRefusal a.running a.gpuIdx else none) with
  | some dec => .error dec
  | none =>
  match pinnedUnknownOccupantRefusal ρ snap spec a.running a.gpuIdx with
  | some dec => .error dec
  | none =>
    let a := a.ruleMatrix
    let a := a.ruleUnknownVRAMCandidate ρ
    let a := a.ruleUnknownVRAMOccupant ρ
    let a := a.rulePerGPUVRAM ρ
    let a := a.ruleHostRAM ρ
    .ok (a.ruleProcessCount ρ)

def Admission.victims : List RunningProc :=
  siblingsHighestFirst ρ .drain
    (sortOldestFirst ((ρ.visit .toEvict a.toEvict.entries).map (fun e => e.2)))

def Admission.decide (solelyByGrace : Bool) : Decision :=
  if a.blocked then
    { wait := true, waitOnRAM := a.ramBlocked, waitOnGrace := solelyByGrace
      message := a.waitMessage }
  else if a.toEvict.keys.length = 0 then { ok := true }
  else { evict := (a.victims ρ).map RunningProc.specID, vramBootstrap := a.bootstrapEvicted }

def admitStepsGraceOff : Decision :=
  match rulePipeline ρ snap spec with
  | .error dec => dec
  | .ok a => a.decide ρ false

def Admission.blockedSolelyByGrace : Bool :=
  if a.snap.evictionGrace ≤ 0 then false
  else
    let alt := admitStepsGraceOff ρ.rerun { a.snap with evictionGrace := 0 } a.spec
    !alt.wait && alt.reason.isNone

def admitSteps : Decision :=
  match rulePipeline ρ snap spec with
  | .error dec => dec
  | .ok a => a.decide ρ (a.blockedSolelyByGrace ρ)

def noCapacityCause (dec : Decision) : String :=
  match dec.reason with
  | some s => if dec.message ≠ "" then s!"{s.text} ({dec.message})" else s.text
  | none =>
    if dec.evict.length > 0 then "it would evict " ++ ", ".intercalate dec.evict
    else if dec.message ≠ "" then "it would wait: " ++ dec.message
    else if dec.waitOnRAM then "it would wait for host RAM"
    else if dec.waitOnGrace then "it would wait for an occupant's eviction grace to expire"
    else "it would wait for an occupant that cannot be evicted now"

def noEvictGate (dec : Decision) : Decision :=
  if dec.ok then dec
  else
    { noCapacity := true
      message :=
        s!"spec {spec.id}: no free capacity to start without evicting or waiting: {noCapacityCause dec}" }

def admitSpec : Decision :=
  let dec := admitSteps ρ snap spec
  if snap.noEvict then noEvictGate spec dec else dec

end OnPremGateway.AdmissionModel
