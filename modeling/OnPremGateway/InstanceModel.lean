import OnPremGateway.RuntimeTypes

/-!
# Instances of a spec

A replicable spec runs as several instances. Instance 0 is addressed by the
spec's own name and instance `k` by that name followed by `#k`. The protected
count says how many of them are kept up; every instance past it is burst
capacity.
-/

set_option autoImplicit false

namespace OnPremGateway.InstanceModel
open RuntimeTypes

def maxInstanceIndex : ℤ := 63

def instanceSeparator : Char := '#'

def instanceAddress (base : String) (k : ℤ) : String :=
  if k = 0 then base else base ++ "#" ++ toString k

variable (s : List Char) (base : Spec) (specID : String) (spec : Spec) (k : ℤ)

def instanceKey : String := instanceAddress specID k

def plainInstanceIndex : Bool :=
  !(s.length = 0 || s.length > 2 || s.head? = some '0') && s.all (fun c => '0' ≤ c && c ≤ '9')

def atoi : ℤ := s.foldl (fun n c => 10*n+((c.toNat : ℤ)-48)) 0

def splitLast : Option (List Char × List Char) :=
  match s.reverse.dropWhile (fun c => c ≠ instanceSeparator) with
  | [] => none
  | _::before =>
    some (before.reverse, (s.reverse.takeWhile (fun c => c ≠ instanceSeparator)).reverse)

def parseInstanceAddress (model : String) : String × ℤ :=
  match splitLast model.toList with
  | none => (model, 0)
  | some (before, suffix) =>
    if !plainInstanceIndex suffix then (model, 0)
    else
      let n := atoi suffix
      if n < 1 ∨ n > maxInstanceIndex then (model, 0) else (String.ofList before, n)

def protectedCount : ℤ :=
  let floor := if spec.replicable then spec.minInstances else 0
  let baseline := if spec.pinned || spec.adminState = .forceRunning then 1 else 0
  max floor baseline

def instanceAllowed : Bool :=
  if k = 0 then true
  else if k < 0 || !spec.replicable || k > maxInstanceIndex then false
  else spec.maxInstances = 0 || k < spec.maxInstances

def isBurst : Bool := k ≥ max (protectedCount spec) 1

def reservedSpecID (id : String) : Bool := id.toList.contains instanceSeparator

def withoutReservedSpecIDs (specs : List Spec) : List Spec :=
  specs.filter (fun spec => !reservedSpecID spec.id)

def specForInstance : Spec :=
  if k = 0 then base
  else { base with id := instanceKey base.id k, instanceOf := base.id, instanceIdx := k }

def deepEqual (a b : Spec) : Bool :=
  { a with env := ∅ } = { b with env := ∅ } && a.env.entries.isPerm b.env.entries

def launchShape (s : Spec) : Spec :=
  { s with
    model := "", healthPath := "", healthTimeoutSeconds := 0, startupTimeoutSeconds := 0
    idleTimeoutSeconds := 0, admissionWaitTimeoutSeconds := 0, pinned := false
    adminState := .unset, type := "", metricsPath := "", contextProbePath := "", ramMB := 0
    role := "", replicable := false, minInstances := 0, maxInstances := 0
    gpus := s.gpus.map (fun g => { g with vramMB := 0 }) }

def sameLaunchShape (a b : Spec) : Bool := deepEqual (launchShape a) (launchShape b)

def demandUnknown : Bool := specHasUnknownVRAM spec || specHasUnknownRAM spec

def raisedDemand (vram : IntMap) (ram : ℤ) : Spec :=
  let spec := if vram.entries.length > 0 && spec.gpus.length > 0 then
      { spec with gpus := spec.gpus.map fun g =>
          if valueAt vram g.index > g.vramMB then { g with vramMB := valueAt vram g.index } else g }
    else spec
  { spec with ramMB := max spec.ramMB ram }

theorem instanceKey_zero : instanceKey specID 0 = specID := rfl

/-- An instance past the first has a key no spec of a config can have. -/
theorem reserved_instanceKey (hk : k ≠ 0) :
    reservedSpecID (instanceKey specID k) = true := by
  rw [instanceKey, instanceAddress, if_neg hk, reservedSpecID]
  simp [instanceSeparator]

theorem specForInstance_id :
    (specForInstance base k).id = instanceKey base.id k := by
  rw [specForInstance]
  split
  · rename_i h
    rw [h, instanceKey_zero]
  · rfl

theorem isBurst_specForInstance (k j : ℤ) :
    isBurst (specForInstance base k) j = isBurst base j := by
  rw [specForInstance]
  split
  · rfl
  · rfl

theorem not_isBurst_zero : isBurst spec 0 = false := by
  simp only [isBurst, decide_eq_false_iff_not]
  omega

/-- Burst capacity lies past the protected instances. -/
theorem not_protected_of_isBurst (h : isBurst spec k = true) :
    ¬k < protectedCount spec := by
  simp only [isBurst, decide_eq_true_eq] at h
  omega

theorem instanceAllowed_range (h : instanceAllowed spec k = true) :
    0 ≤ k ∧ k ≤ maxInstanceIndex := by
  rw [instanceAllowed] at h
  split at h
  · rename_i hk
    rw [hk, maxInstanceIndex]
    omega
  split at h
  · exact Bool.noConfusion h
  · rename_i _ hn
    simp only [Bool.or_eq_true, decide_eq_true_eq, Bool.not_eq_true'] at hn
    omega

theorem parseInstanceAddress_range (model : String) :
    0 ≤ (parseInstanceAddress model).2 ∧ (parseInstanceAddress model).2 ≤ maxInstanceIndex := by
  have hz : (0 : ℤ) ≤ maxInstanceIndex := by decide
  rw [parseInstanceAddress]
  split
  · exact ⟨le_refl 0,hz⟩
  split
  · exact ⟨le_refl 0,hz⟩
  simp only
  split
  · exact ⟨le_refl 0,hz⟩
  · rename_i _ hn
    simp only
    omega

example : parseInstanceAddress "llama#12" = ("llama", 12) := by decide
example : parseInstanceAddress "llama#64" = ("llama#64", 0) := by decide

end OnPremGateway.InstanceModel
