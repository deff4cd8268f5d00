import OnPremGateway.RuntimeConfigSource

/-!
# An edited configuration file

In file mode two callers load from one source: the sync, which hands a changed
document to the manager, and the resending of the report, which does not. A
change that a resend has read is no change for the sync after it.
-/

set_option autoImplicit false

namespace OnPremGateway.FileModeSync
open RuntimeTypes RuntimeConfigSource List

variable {Raw : Type} (parseConfig : Raw → Except ParseErrorCode Document)

/-- A file with its time of modification. -/
structure File (Raw : Type) where
  modTime : ℤ
  content : Raw

def view : Option (File Raw) → FileView Raw
  | none => { stat := .error .notExist, read := .error .notExist }
  | some f => { stat := .ok f.modTime, read := .ok f.content }

structure Agent (Raw : Type) where
  disk : Option (File Raw) := none
  driver : Driver

inductive Op (Raw : Type) where
  | write (f : File Raw)
  | remove
  | sync (features : List String) (pushed : Option Raw) (now : ℤ)
  | resendReport (now : ℤ)

variable (a : Agent Raw) (ops : List (Op Raw)) (features : List String) (now : ℤ)

def around : Surroundings Raw :=
  { features := features, answer := .failed, view := view a.disk, now := now }

def step : Op Raw → Agent Raw
  | .write f => { a with disk := some f }
  | .remove => { a with disk := none }
  | .sync features pushed now =>
    { a with driver := a.driver.sync parseConfig (around a features now) pushed }
  | .resendReport now => { a with driver := a.driver.resendReport parseConfig (around a [] now) }

def run : Agent Raw := ops.foldl (step parseConfig) a

/-- An agent that starts in file mode. -/
def start (disk : Option (File Raw)) (reporter : Bool) : Agent Raw :=
  { disk := disk, driver := { src := .file {}, reporter := reporter } }

/-- The gateway declares the runtime manager at every sync. -/
def declared : Op Raw → Bool
  | .sync features _ _ => runtimeManagerFeature ∈ features
  | _ => true

/-- What was handed to the manager last is what the source holds. -/
def InForce (a : Agent Raw) : Prop :=
  a.driver.handed =
    some (effective (decide (gatewayFeatureRuntimeInstances ∈ features)) a.driver.src.cached)

/-- A resend that is sent and loads a change takes it away from the next sync. -/
def leavesChange : Op Raw → Bool
  | .resendReport now =>
    match a.driver.src with
    | .file s =>
      !(a.driver.active && a.driver.reporter) || !(s.load parseConfig (view a.disk) now).2.1
    | .gateway _ => true
  | _ => true

/-! ### Steps -/

structure Following (a : Agent Raw) : Prop where
  file : ∃ s, a.driver.src = .file s
  following : a.driver.Following

theorem following_sync (pushed : Option Raw) (now : ℤ)
    (hdeclared : runtimeManagerFeature ∈ features) (h : Following a) :
    Following (step parseConfig a (.sync features pushed now)) ∧
      InForce features (step parseConfig a (.sync features pushed now)) := by
  obtain ⟨⟨s,hsrc⟩,hfollow⟩ := h
  have hload : Source.LoadsCached parseConfig (around a features now) pushed a.driver.src := by
    rw [hsrc]
    exact s.load_cached parseConfig _ _
  obtain ⟨hsrc',hfollow',hhanded⟩ :=
    a.driver.following_sync parseConfig (around a features now) pushed hdeclared hload hfollow
  refine ⟨⟨?_,hfollow'⟩,hhanded⟩
  rw [hsrc] at hsrc'
  exact ⟨_,hsrc'⟩

theorem following_resend (hleaves : leavesChange parseConfig a (.resendReport now) = true) (h : Following a) :
    Following (step parseConfig a (.resendReport now)) := by
  obtain ⟨⟨s,hsrc⟩,hfollow⟩ := h
  rw [leavesChange, hsrc] at hleaves
  dsimp only at hleaves
  have hdriver : (step parseConfig a (.resendReport now)).driver =
      if a.driver.active && a.driver.reporter then
        ({ a.driver with src := .file (s.load parseConfig (view a.disk) now).2.2 } : Driver).sendReport
          (s.load parseConfig (view a.disk) now).1
      else a.driver := by
    rw [step]
    dsimp only
    rw [Driver.resendReport, hsrc]
    rfl
  by_cases hsent : (a.driver.active && a.driver.reporter) = true
  · rw [if_pos hsent] at hdriver
    rw [hsent, Bool.not_true, Bool.false_or, Bool.not_eq_true'] at hleaves
    constructor
    · rw [hdriver, Driver.sendReport_src]
      exact ⟨_,rfl⟩
    · rw [hdriver, (Driver.sendReport_following _ _).2]
      intro happlied
      have hforce := hfollow happlied
      rw [hsrc] at hforce
      change a.driver.handed = some (effective a.driver.appliedInstances
        (s.load parseConfig (view a.disk) now).2.2.cached)
      rw [(s.load_cached parseConfig (view a.disk) now).2 hleaves]
      exact hforce
  · rw [if_neg hsent] at hdriver
    constructor
    · exact ⟨s,hdriver ▸ hsrc⟩
    · exact hdriver ▸ hfollow

theorem following_step (op : Op Raw) (hdeclared : declared op = true)
    (hleaves : leavesChange parseConfig a op = true) (h : Following a) :
    Following (step parseConfig a op) := by
  cases op with
  | write f => exact ⟨h.file,h.following⟩
  | remove => exact ⟨h.file,h.following⟩
  | sync features pushed now =>
    exact (following_sync parseConfig a features pushed now (of_decide_eq_true hdeclared) h).1
  | resendReport now => exact following_resend parseConfig a now hleaves h

/-! ### Runs -/

/-- Every resend of the run leaves changes to the syncs. -/
def LeavesChanges (a : Agent Raw) : List (Op Raw) → Prop
  | [] => True
  | op::ops => leavesChange parseConfig a op = true ∧ LeavesChanges (step parseConfig a op) ops

theorem following_run (hdeclared : ∀ op ∈ ops, declared op = true) (hleaves : LeavesChanges parseConfig a ops)
    (h : Following a) : Following (run parseConfig a ops) := by
  induction ops generalizing a with
  | nil => exact h
  | cons op ops ih =>
    apply ih (step parseConfig a op) (fun o ho => hdeclared o (mem_cons_of_mem op ho)) hleaves.2
    exact following_step parseConfig a op (hdeclared op mem_cons_self) hleaves.1 h

theorem leavesChanges_append (ops ops' : List (Op Raw)) :
    LeavesChanges parseConfig a (ops ++ ops') ↔
      LeavesChanges parseConfig a ops ∧ LeavesChanges parseConfig (run parseConfig a ops) ops' := by
  induction ops generalizing a with
  | nil => simp [LeavesChanges, run]
  | cons op ops ih => simp [LeavesChanges, run, ih, and_assoc]

/-- After every sync of a run whose resends leave changes to the syncs, the
manager has the document the source holds. -/
theorem edited_file_in_force (disk : Option (File Raw)) (reporter : Bool)
    (pre : List (Op Raw)) (features : List String) (pushed : Option Raw) (now : ℤ)
    (hdeclared : ∀ op ∈ pre ++ [.sync features pushed now], declared op = true)
    (hleaves : LeavesChanges parseConfig (start disk reporter) (pre ++ [.sync features pushed now])) :
    InForce features
      (run parseConfig (start disk reporter) (pre ++ [.sync features pushed now])) := by
  rw [leavesChanges_append] at hleaves
  rw [forall_mem_append] at hdeclared
  have hfollow := following_run parseConfig _ pre hdeclared.1 hleaves.1 ⟨⟨{},rfl⟩,fun h => Bool.noConfusion h⟩
  rw [run, foldl_append]
  exact (following_sync parseConfig _ features pushed now
    (of_decide_eq_true (hdeclared.2 _ (mem_singleton_self _))) hfollow).2

def namedDocument (etag : String) : Except ParseErrorCode Document :=
  if etag = "" then .error .jsonSyntax else .ok { etag := etag }

def synced : Op String := .sync [runtimeManagerFeature] none 0

theorem edited_file_in_force_resent :
    (run namedDocument (start none true) [.write ⟨1, "a"⟩, synced, .resendReport 0]).driver.handed =
      some { etag := "a" } ∧
    InForce [runtimeManagerFeature] (run namedDocument (start none true)
      ([.write ⟨1, "a"⟩, synced, .resendReport 0, .write ⟨2, "b"⟩] ++ [synced])) :=
  ⟨by decide,edited_file_in_force namedDocument none true _ [runtimeManagerFeature] none 0 (by decide)
    ⟨rfl,rfl,rfl,rfl,rfl,trivial⟩⟩

/-- The file is edited, a report is sent again, and the sync after it leaves the
manager with the document from before. -/
theorem resend_hides_edit : (run namedDocument (start none true)
        [.write ⟨1, "a"⟩, synced, .write ⟨2, "b"⟩, .resendReport 0, synced]).driver.handed =
        some { etag := "a" } ∧
      ¬ InForce [runtimeManagerFeature] (run namedDocument (start none true)
        [.write ⟨1, "a"⟩, synced, .write ⟨2, "b"⟩, .resendReport 0, synced]) := by
  constructor
  · decide
  · rw [InForce]
    decide

end OnPremGateway.FileModeSync
