import OnPremGateway.OwnerTypes

/-!
# Where the runtime configuration comes from

The agent takes its desired state from a local file or from the gateway. Either
source holds the last document it could read and tells whether a load changed
it; the driver hands a document to the manager when the load changed it or when
nothing was handed over yet.
-/

set_option autoImplicit false

namespace OnPremGateway.RuntimeConfigSource
open RuntimeTypes OwnerModel

/-- The runtime configuration as a document. -/
structure Document extends OwnerModel.Config where
  routerListen : ℤ := 0
  deriving DecidableEq

/-- The codes a failed load is reported with. -/
inductive ParseErrorCode where
  | none
  | jsonSyntax
  | duplicateSpecID
  | invalidConfigFileName
  | fileMissing
  | readFailed
  | unclassified
  deriving DecidableEq, Repr

def ParseErrorCode.text : ParseErrorCode → String
  | .none => ""
  | .jsonSyntax => "json_syntax"
  | .duplicateSpecID => "duplicate_spec_id"
  | .invalidConfigFileName => "invalid_config_file_name"
  | .fileMissing => "file_missing"
  | .readFailed => "read_failed"
  | .unclassified => "unclassified"

def sameETag (a b : String) : Bool := a ≠ "" ∧ a = b

variable {Raw : Type}

/-! ### A local file -/

inductive AccessError where
  | notExist
  | other
  deriving DecidableEq, Repr

def classifyFileAccessError : AccessError → ParseErrorCode
  | .notExist => .fileMissing
  | .other => .readFailed

structure FileView (Raw : Type) where
  stat : Except AccessError ℤ
  read : Except AccessError Raw

structure FileSource where
  cached : Document := {}
  seenMod : Option ℤ := none
  lastErr : ParseErrorCode := .none
  lastErrAt : ℤ := 0
  deriving DecidableEq

def FileSource.recordAccessFailure (s : FileSource) (now : ℤ) (e : AccessError) : FileSource :=
  let code := classifyFileAccessError e
  if s.lastErr ≠ code then { s with seenMod := none, lastErr := code, lastErrAt := now }
  else { s with seenMod := none }

section Loading
variable (parseConfig : Raw → Except ParseErrorCode Document)

def FileSource.load (view : FileView Raw) (now : ℤ) (s : FileSource) : Document × Bool × FileSource :=
  match view.stat with
  | .error e => (s.cached, false, s.recordAccessFailure now e)
  | .ok modTime =>
    if s.seenMod = some modTime then (s.cached, false, s)
    else match view.read with
      | .error e => (s.cached, false, s.recordAccessFailure now e)
      | .ok raw =>
        match parseConfig raw with
        | .error code =>
          (s.cached, false, { s with
              seenMod := some modTime
              lastErr := code
              lastErrAt := now })
        | .ok cfg =>
          (cfg, true,
            { cached := cfg
              seenMod := some modTime
              lastErr := .none
              lastErrAt := 0 })

/-! ### The gateway -/

inductive Response (Raw : Type) where
  | failed
  | notModified
  | notFound
  | document (body : Except Unit Raw)
  | status (code : ℤ)

structure GatewaySource where
  cached : Document := {}
  etag : String := ""
  disk : Option Document := none
  deriving DecidableEq

def GatewaySource.persist (s : GatewaySource) (written : Bool) (cfg : Document) : GatewaySource :=
  { cached := cfg, etag := cfg.etag, disk := if written then some cfg else s.disk }

def GatewaySource.load (answer : Response Raw) (written : Bool) (s : GatewaySource) :
    Document × Bool × GatewaySource :=
  match answer with
  | .document (.ok raw) =>
    match parseConfig raw with
    | .error _ => (s.cached, false, s)
    | .ok cfg => (cfg, !sameETag cfg.etag s.etag, s.persist written cfg)
  | _ => (s.cached, false, s)

def GatewaySource.applyPushed (raw : Raw) (written : Bool) (s : GatewaySource) :
    Document × Bool × GatewaySource :=
  match parseConfig raw with
  | .error _ => (s.cached, false, s)
  | .ok cfg =>
    if sameETag cfg.etag s.etag then (cfg, false, s) else (cfg, true, s.persist written cfg)

/-! ### The driver -/

inductive Source where
  | file (s : FileSource)
  | gateway (s : GatewaySource)
  deriving DecidableEq

def Source.cached : Source → Document
  | .file s => s.cached
  | .gateway s => s.cached

/-- What the driver meets outside: the gateway's features and answer, the file,
whether the disk takes a copy, and the time. -/
structure Surroundings (Raw : Type) where
  features : List String
  answer : Response Raw
  view : FileView Raw
  written : Bool := true
  now : ℤ := 0

def Source.load (around : Surroundings Raw) (pushed : Option Raw) : Source →
    Document × Bool × Source
  | .file s =>
    let r := s.load parseConfig around.view around.now
    (r.1, r.2.1, .file r.2.2)
  | .gateway s =>
    let r := match pushed with
      | some raw => s.applyPushed parseConfig raw around.written
      | none => s.load parseConfig around.answer around.written
    (r.1, r.2.1, .gateway r.2.2)

def withoutReplicable (cfg : Document) : Document × Bool :=
  if cfg.specs.any Spec.replicable then
    ({ cfg with specs := cfg.specs.map fun spec => { spec with replicable := false } }, true)
  else (cfg, false)

def effective (instances : Bool) (cfg : Document) : Document :=
  if instances then cfg else (withoutReplicable cfg).1

structure Report where
  config : Document
  parseError : ParseErrorCode
  deriving DecidableEq

/-- The driver with its source. The last document handed to the manager and the
reports sent are recorded. -/
structure Driver where
  src : Source
  reporter : Bool := true
  active : Bool := false
  applied : Bool := false
  appliedSpecCount : ℕ := 0
  appliedInstances : Bool := false
  instancesWithheld : Bool := false
  handed : Option Document := none
  reports : List Report := []

def runtimeManagerFeature : String := "runtime_manager"
def gatewayFeatureRuntimeInstances : String := "runtime_instances"

variable (d : Driver) (cfg : Document) (around : Surroundings Raw) (pushed : Option Raw)

def Driver.stopAll : Driver :=
  { d with
    active := false
    applied := false
    appliedSpecCount := 0
    instancesWithheld := false
    handed := some {} }

def Driver.sendReport : Driver :=
  match d.src with
  | .file s =>
    if d.reporter then { d with reports := d.reports ++ [⟨cfg, s.lastErr⟩] } else d
  | .gateway _ => d

def Driver.apply (instances : Bool) (cfg : Document) : Driver :=
  { d with
    applied := true
    appliedSpecCount := cfg.specs.length
    appliedInstances := instances
    instancesWithheld := !instances && (withoutReplicable cfg).2
    handed := some (effective instances cfg) }

def Driver.sync (d : Driver) : Driver :=
  if runtimeManagerFeature ∉ around.features then d.stopAll
  else
    let instances := decide (gatewayFeatureRuntimeInstances ∈ around.features)
    let r := d.src.load parseConfig around pushed
    let d := { d with active := true, src := r.2.2 }
    if !r.2.1 && d.applied && instances = d.appliedInstances then d
    else (d.apply instances r.1).sendReport r.1

def Driver.resendReport (d : Driver) : Driver :=
  match d.src with
  | .file s =>
    if d.active && d.reporter then
      let r := s.load parseConfig around.view around.now
      ({ d with src := .file r.2.2 } : Driver).sendReport r.1
    else d
  | .gateway _ => d

/-! ### What a load gives -/

theorem FileSource.cached_recordAccessFailure (s : FileSource) (now : ℤ) (e : AccessError) :
    (s.recordAccessFailure now e).cached = s.cached := by
  rw [FileSource.recordAccessFailure]
  split_ifs <;> rfl

/-- A load gives what the source holds after it, and a load without a change
leaves that as it was. -/
theorem FileSource.load_cached (s : FileSource) (view : FileView Raw) (now : ℤ) :
    (s.load parseConfig view now).1 = (s.load parseConfig view now).2.2.cached ∧
      ((s.load parseConfig view now).2.1 = false →
        (s.load parseConfig view now).2.2.cached = s.cached) := by
  rw [FileSource.load]
  cases view.stat with
  | error e => exact ⟨(s.cached_recordAccessFailure now e).symm,fun _ => s.cached_recordAccessFailure now e⟩
  | ok modTime =>
    dsimp only
    by_cases hseen : s.seenMod = some modTime
    · rw [if_pos hseen]
      exact ⟨rfl,fun _ => rfl⟩
    rw [if_neg hseen]
    cases view.read with
    | error e =>
      exact ⟨(s.cached_recordAccessFailure now e).symm,fun _ => s.cached_recordAccessFailure now e⟩
    | ok raw =>
      dsimp only
      cases parseConfig raw with
      | error code => exact ⟨rfl,fun _ => rfl⟩
      | ok cfg => exact ⟨rfl,fun h => Bool.noConfusion h⟩

def Source.LoadsCached (src : Source) : Prop :=
  (src.load parseConfig around pushed).1 = (src.load parseConfig around pushed).2.2.cached ∧
    ((src.load parseConfig around pushed).2.1 = false →
      (src.load parseConfig around pushed).2.2.cached = src.cached)

/-! ### What a sync hands over -/

def Driver.Following : Prop :=
  d.applied = true → d.handed = some (effective d.appliedInstances d.src.cached)

def Surroundings.instances : Bool :=
  gatewayFeatureRuntimeInstances ∈ around.features

theorem Driver.sendReport_src : (d.sendReport cfg).src = d.src := by
  rw [Driver.sendReport]
  split
  · split_ifs <;> rfl
  · rfl

theorem Driver.sendReport_following :
    (d.sendReport cfg).handed = d.handed ∧ ((d.sendReport cfg).Following ↔ d.Following) := by
  rw [Driver.Following, Driver.sendReport_src, Driver.sendReport]
  split
  · split_ifs <;> exact ⟨rfl,Iff.rfl⟩
  · exact ⟨rfl,Iff.rfl⟩

/-- After a sync with the feature declared, the manager has what the source
holds. -/
theorem Driver.following_sync (hdeclared : runtimeManagerFeature ∈ around.features)
    (hload : Source.LoadsCached parseConfig around pushed d.src) (h : d.Following) :
    (d.sync parseConfig around pushed).src = (d.src.load parseConfig around pushed).2.2 ∧
      (d.sync parseConfig around pushed).Following ∧ (d.sync parseConfig around pushed).handed =
        some (effective around.instances (d.sync parseConfig around pushed).src.cached) := by
  rw [Driver.sync, if_neg (not_not.mpr hdeclared)]
  obtain ⟨hcfg,hsame⟩ := hload
  generalize d.src.load parseConfig around pushed = r at hcfg hsame ⊢
  dsimp only
  by_cases hskip : (!r.2.1 && d.applied &&
      decide (decide (gatewayFeatureRuntimeInstances ∈ around.features) = d.appliedInstances)) = true
  · rw [if_pos hskip]
    rw [Bool.and_eq_true, Bool.and_eq_true, decide_eq_true_iff, Bool.not_eq_true'] at hskip
    have hforce := h hskip.1.2
    rw [← hsame hskip.1.1] at hforce
    refine ⟨rfl,fun _ => hforce,?_⟩
    rw [Surroundings.instances, hskip.2]
    exact hforce
  · rw [if_neg hskip, Driver.sendReport_src, (Driver.sendReport_following _ _).1,
      (Driver.sendReport_following _ _).2, hcfg]
    exact ⟨rfl,fun _ => rfl,rfl⟩

end Loading

end OnPremGateway.RuntimeConfigSource
