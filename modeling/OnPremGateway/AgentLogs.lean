import OnPremGateway.LaunchCommand
import OnPremGateway.RuntimeLogs

/-!
# The output the agent retains

Every process of a spec writes into the one log of the spec. A log holds records up
to a capacity: text of one generation grows its last record, and what is over the
capacity leaves from the front, counted. A further instance has each of its lines
opened by its index.
-/

set_option autoImplicit false

namespace OnPremGateway.AgentLogs
open List
open LaunchExpansion (Bytes bytes)
open LaunchCommand (ResolvedCommand)
open RuntimeLogs (LogEvent)

def logCoalesceTarget : ℕ := 8192
def logRecordOverhead : ℕ := 64
def newline : UInt8 := 10

def commandBytes : Option ResolvedCommand → ℕ
  | none => 0
  | some c => (bytes c.binary).length + (bytes c.workDir).length + (c.args.map List.length).sum +
      (c.env.map List.length).sum

structure LogRecord where
  gen : ℕ
  pid : ℤ
  time : ℤ
  text : Bytes := []
  event : Option LogEvent := none
  exitCode : ℤ := 0
  instanceIdx : ℤ := 0
  command : Option ResolvedCommand := none

def LogRecord.size (r : LogRecord) : ℕ := r.text.length + commandBytes r.command + logRecordOverhead

structure SpecLog where
  recs : List LogRecord := []
  bytes : ℤ := 0
  dropped : ℤ := 0
  lastWrite : ℤ := 0

def SpecLog.trimFrom (perSpec : ℤ) (l : SpecLog) : List LogRecord → SpecLog
  | [] => { l with recs := [] }
  | head::rest =>
    if l.bytes > perSpec then
      let excess := l.bytes-perSpec
      if head.text.length > excess then
        { l with recs := { head with text := head.text.drop excess.toNat }::rest
                 bytes := l.bytes-excess, dropped := l.dropped+excess }
      else SpecLog.trimFrom perSpec
        { l with dropped := l.dropped+head.text.length, bytes := l.bytes-head.size } rest
    else { l with recs := head::rest }

def SpecLog.trimLocked (perSpec : ℤ) (l : SpecLog) : SpecLog := l.trimFrom perSpec l.recs

def SpecLog.appendLocked (perSpec : ℤ) (l : SpecLog) (rec : LogRecord) : SpecLog :=
  let l := { l with lastWrite := rec.time }
  let appended := { l with recs := l.recs ++ [rec], bytes := l.bytes+rec.size }
  match l.recs.getLast? with
  | none => appended.trimLocked perSpec
  | some last =>
    if rec.event = none ∧ last.event = none ∧ last.gen = rec.gen ∧
        last.text.length < logCoalesceTarget then
      { l with recs := l.recs.dropLast ++ [{ last with text := last.text ++ rec.text }]
               bytes := l.bytes+rec.text.length }.trimLocked perSpec
    else appended.trimLocked perSpec

def instanceLinePrefix (k : ℤ) : Bytes :=
  if k ≤ 0 then [] else [0x5B, 0x23] ++ (Nat.toDigits 10 k.toNat).map Char.toUInt8 ++ [0x5D, 0x20]

structure ProcLog where
  instanceIdx : ℤ := 0
  opening : Bytes := []
  midLine : Bool := false

def newInstanceProc (k : ℤ) : ProcLog := { instanceIdx := k, opening := instanceLinePrefix k }

/-- The lines of a text, each with its newline. -/
def lines : Bytes → List Bytes
  | [] => []
  | c::cs => if c = newline then [c]::lines cs else match lines cs with
    | [] => [[c]]
    | l::ls => (c::l)::ls

/-- One turn of the loop takes one line, or what there is of it. -/
def openLines (opening : Bytes) : Bool → List Bytes → Bytes × Bool
  | midLine, [] => ([], midLine)
  | midLine, l::ls =>
    let rest := openLines opening (l.getLast? ≠ some newline) ls
    ((if midLine then [] else opening) ++ l ++ rest.1, rest.2)

def ProcLog.prefixLinesLocked (p : ProcLog) (b : Bytes) : Bytes × ProcLog :=
  if p.opening = [] then (b, p)
  else
    let out := openLines p.opening p.midLine (lines b)
    (out.1, { p with midLine := out.2 })

abbrev Procs := ℕ → ProcLog

inductive Call where
  | write (gen : ℕ) (pid now : ℤ) (b : Bytes)
  | mark (gen : ℕ) (pid now : ℤ) (event : LogEvent) (exitCode : ℤ) (cmd : Option ResolvedCommand)

/-- The record a call appends. -/
def Call.record (procs : Procs) : Call → Option LogRecord
  | .write gen pid now b =>
    if b = [] then none
    else some { gen := gen, pid := pid, time := now, text := ((procs gen).prefixLinesLocked b).1
                instanceIdx := (procs gen).instanceIdx }
  | .mark gen pid now event exitCode cmd =>
    some { gen := gen, pid := pid, time := now, event := some event, exitCode := exitCode
           command := cmd, instanceIdx := (procs gen).instanceIdx }

def Call.procs (procs : Procs) : Call → Procs
  | .write gen _ _ b => Function.update procs gen ((procs gen).prefixLinesLocked b).2
  | .mark .. => procs

def records : Procs → List Call → List LogRecord
  | _, [] => []
  | procs, c::calls => (c.record procs).toList ++ records (c.procs procs) calls

def retained (perSpec : ℤ) (procs : Procs) (calls : List Call) : SpecLog :=
  (records procs calls).foldl (SpecLog.appendLocked perSpec) {}

def texts (recs : List LogRecord) : Bytes := recs.flatMap LogRecord.text

def sizes (recs : List LogRecord) : ℕ := (recs.map LogRecord.size).sum

/-! ### Retention -/

structure Kept (perSpec : ℤ) (all : Bytes) (l : SpecLog) : Prop where
  bytes : l.bytes = sizes l.recs
  room : 0 ≤ perSpec → l.bytes ≤ perSpec
  suffix : texts l.recs <:+ all
  dropped : l.dropped + (texts l.recs).length = all.length

theorem trimFrom_kept (perSpec : ℤ) (all : Bytes) (recs : List LogRecord) (l : SpecLog)
    (hbytes : l.bytes = sizes recs) (hsuffix : texts recs <:+ all)
    (hdropped : l.dropped + (texts recs).length = all.length) :
    Kept perSpec all (l.trimFrom perSpec recs) := by
  induction recs generalizing l with
  | nil =>
    simp only [sizes, map_nil, sum_nil] at hbytes
    exact ⟨by simpa [SpecLog.trimFrom, sizes] using hbytes,fun h => by simp [SpecLog.trimFrom, hbytes, h],
      hsuffix,hdropped⟩
  | cons head rest ih =>
    have hsizes : (sizes (head::rest) : ℤ) = head.size + sizes rest := by simp [sizes]
    have htexts : texts (head::rest) = head.text ++ texts rest := by simp [texts]
    rw [hsizes] at hbytes
    rw [htexts, length_append, Nat.cast_add] at hdropped
    rw [SpecLog.trimFrom]
    split
    · next hover =>
      dsimp only
      split
      · next hcut =>
        -- the cut ends the loop: the rest of the head's text stays in front
        have hn : ((l.bytes-perSpec).toNat : ℤ) = l.bytes-perSpec := by omega
        set n := (l.bytes-perSpec).toNat
        have hsize : ({ head with text := head.text.drop n } : LogRecord).size + n = head.size := by
          simp only [LogRecord.size, length_drop]
          omega
        refine ⟨?_,fun _ => by dsimp only; omega,?_,?_⟩
        · simp only [sizes, map_cons, sum_cons, Nat.cast_add] at hbytes ⊢
          omega
        · refine List.IsSuffix.trans ?_ hsuffix
          rw [htexts]
          exact ⟨head.text.take n,by simp [texts, ← append_assoc]⟩
        · simp only [texts, flatMap_cons, length_append, length_drop] at hdropped ⊢
          omega
      · refine ih _ (by dsimp only; omega) ?_ (by dsimp only; omega)
        rw [htexts] at hsuffix
        exact (suffix_append head.text (texts rest)).trans hsuffix
    · next hfits =>
      refine ⟨by simpa [hsizes] using hbytes,fun _ => by simpa using hfits,hsuffix,?_⟩
      rw [htexts, length_append, Nat.cast_add]
      exact hdropped

theorem appendLocked_kept {perSpec : ℤ} {all : Bytes} {l : SpecLog} (hl : Kept perSpec all l)
    (rec : LogRecord) : Kept perSpec (all ++ rec.text) (l.appendLocked perSpec rec) := by
  have hsuffix : texts l.recs ++ rec.text <:+ all ++ rec.text := by
    obtain ⟨lost,hlost⟩ := hl.suffix
    exact ⟨lost,by rw [← hlost, append_assoc]⟩
  have hlength := hl.dropped
  have hbytes := hl.bytes
  have happended : Kept perSpec (all ++ rec.text) (SpecLog.trimLocked perSpec
      { l with lastWrite := rec.time, recs := l.recs ++ [rec], bytes := l.bytes+rec.size }) := by
    apply trimFrom_kept
    · simp [sizes] at hbytes ⊢
      omega
    · simpa [texts] using hsuffix
    · simp [texts] at hlength ⊢
      omega
  rw [SpecLog.appendLocked]
  split
  · exact happended
  next last hlast =>
  split
  · have hrecs : l.recs = l.recs.dropLast ++ [last] := (dropLast_append_getLast? last hlast).symm
    rw [hrecs] at hsuffix hlength hbytes
    apply trimFrom_kept
    · simp [sizes, LogRecord.size] at hbytes ⊢
      omega
    · simpa [texts] using hsuffix
    · simp [texts] at hlength ⊢
      omega
  · exact happended

/-- The log weighs what its records weigh and never more than its capacity, and holds
the end of all text appended to it, the rest being counted as dropped. -/
theorem retained_exact (perSpec : ℤ) (procs : Procs) (calls : List Call) :
    let l := retained perSpec procs calls
    let all := texts (records procs calls)
    l.bytes = sizes l.recs ∧ (0 ≤ perSpec → l.bytes ≤ perSpec) ∧ texts l.recs <:+ all ∧
      l.dropped + (texts l.recs).length = all.length := by
  have hkept (recs : List LogRecord) :
      Kept perSpec (texts recs) (recs.foldl (SpecLog.appendLocked perSpec) {}) := by
    induction recs using reverseRecOn with
    | nil => exact ⟨rfl,id,suffix_rfl,rfl⟩
    | append_singleton recs rec ih =>
      rw [foldl_concat, texts, flatMap_append, flatMap_singleton]
      exact appendLocked_kept ih rec
  have h := hkept (records procs calls)
  exact ⟨h.bytes,h.room,h.suffix,h.dropped⟩

/-! ### Lines of a further instance -/

def opened (opening : Bytes) : Bool → Bytes → Bytes
  | _, [] => []
  | midLine, c::cs => (if midLine then [] else opening) ++ c::opened opening (c ≠ newline) cs

def endsMid : Bool → Bytes → Bool
  | midLine, [] => midLine
  | _, c::cs => endsMid (c ≠ newline) cs

def withoutOpening (opening line : Bytes) : Bytes :=
  if opening.isPrefixOf line then line.drop opening.length else line

/-- What one generation was asked to write. -/
def stream (gen : ℕ) (calls : List Call) : Bytes := calls.flatMap fun
  | .write g _ _ b => if g = gen then b else []
  | .mark .. => []

/-- What one generation is recorded to have written. -/
def recorded (gen : ℕ) (recs : List LogRecord) : Bytes := texts (recs.filter fun r => r.gen = gen)

variable {opening : Bytes}

theorem opened_append (midLine : Bool) (x y : Bytes) : opened opening midLine (x ++ y) =
    opened opening midLine x ++ opened opening (endsMid midLine x) y := by
  induction x generalizing midLine with
  | nil => rfl
  | cons c x ih => simp [opened, endsMid, ih]

theorem flatten_lines (b : Bytes) : (lines b).flatten = b := by
  induction b with
  | nil => rfl
  | cons c b ih =>
    rw [lines]
    split
    · simp [ih]
    · split <;> simp_all

theorem openLines_lines (midLine : Bool) (b : Bytes) :
    openLines opening midLine (lines b) = (opened opening midLine b,endsMid midLine b) := by
  induction b generalizing midLine with
  | nil => rfl
  | cons c b ih =>
    by_cases hc : c = newline
    · simp [lines, openLines, opened, endsMid, hc, ih]
    have hrest := ih true
    cases hl : lines b with
    | nil => simp_all [lines, openLines, opened, endsMid]
    | cons l ls =>
      have hlast : decide ((c::l).getLast? ≠ some newline) = decide (l.getLast? ≠ some newline) := by
        cases l with
        | nil => simp [hc]
        | cons d l => rw [getLast?_cons_cons]
      simp only [hl, openLines, Prod.mk.injEq] at hrest
      rw [lines, if_neg hc, hl, openLines, hlast, opened, endsMid, decide_eq_true hc, ← hrest.1, ← hrest.2]
      simp

theorem lines_append (hopening : newline ∉ opening) (c : UInt8) (b : Bytes) :
    ∃ l ls, lines (c::b) = l::ls ∧ lines (opening ++ c::b) = (opening ++ l)::ls := by
  induction opening with
  | nil =>
    by_cases hc : c = newline
    · exact ⟨[c],lines b,by simp [lines, hc],by simp [lines, hc]⟩
    · cases hl : lines b with
      | nil => exact ⟨[c],[],by simp [lines, hc, hl],by simp [lines, hc, hl]⟩
      | cons l ls => exact ⟨c::l,ls,by simp [lines, hc, hl],by simp [lines, hc, hl]⟩
  | cons d opening ih =>
    obtain ⟨l,ls,hb,hrest⟩ := ih fun h => hopening (mem_cons_of_mem d h)
    have hd : d ≠ newline := fun h => hopening (h ▸ mem_cons_self)
    exact ⟨l,ls,hb,by simp [lines, hd, hrest]⟩

/-- Every line is opened but the one that was open before. -/
theorem lines_opened (hopening : newline ∉ opening) (b : Bytes) :
    lines (opened opening false b) = (lines b).map (opening ++ ·) ∧
    lines (opened opening true b) = (lines b).take 1 ++ ((lines b).drop 1).map (opening ++ ·) := by
  induction b with
  | nil => exact ⟨rfl,rfl⟩
  | cons c b ih =>
    have htrue : lines (opened opening true (c::b)) =
        (lines (c::b)).take 1 ++ ((lines (c::b)).drop 1).map (opening ++ ·) := by
      by_cases hc : c = newline
      · simp [opened, lines, hc, ih.1]
      · cases hl : lines b with
        | nil => simp [opened, lines, hc, ih.2, hl]
        | cons l ls => simp [opened, lines, hc, ih.2, hl]
    refine ⟨?_,htrue⟩
    have hopen : opened opening false (c::b) = opening ++ opened opening true (c::b) := by simp [opened]
    obtain ⟨l,ls,hl,hl'⟩ := lines_append hopening c (opened opening (c ≠ newline) b)
    have hcons : opened opening true (c::b) = c::opened opening (c ≠ newline) b := by simp [opened]
    rw [hopen, hcons, hl']
    rw [hcons, hl] at htrue
    cases hb : lines (c::b) with
    | nil => simp [hb] at htrue
    | cons m ms => simp_all

/-- An opening is made of brackets, a hash, digits and a blank. -/
theorem mem_instanceLinePrefix {k : ℤ} {b : UInt8} (h : b ∈ instanceLinePrefix k) :
    b ∈ [0x5B, 0x23, 0x5D, 0x20] ∨ 48 ≤ b.toNat ∧ b.toNat ≤ 57 := by
  rw [instanceLinePrefix] at h
  split at h
  · cases h
  simp only [mem_append, mem_map] at h
  obtain (h | ⟨c,hc,rfl⟩) | h := h
  · left
    simp at h ⊢
    tauto
  · have hd := Char.isDigit_iff_toNat.mp (Nat.isDigit_of_mem_toDigits (by decide) (by decide) hc)
    rw [Char.toUInt8, UInt32.toNat_toUInt8]
    have hval : c.val.toNat = c.toNat := rfl
    have hzero : '0'.toNat = 48 := rfl
    have hnine : '9'.toNat = 57 := rfl
    omega
  · left
    simp at h ⊢
    tauto

theorem newline_not_mem (k : ℤ) : newline ∉ instanceLinePrefix k := by
  intro h
  have := mem_instanceLinePrefix h
  simp [newline] at this

/-- A call records what its generation writes and leaves its writer in step. -/
theorem recorded_call (gen : ℕ) (procs : Procs) (h : (procs gen).opening ≠ []) (c : Call) :
    recorded gen (c.record procs).toList =
      opened (procs gen).opening (procs gen).midLine (stream gen [c]) ∧
    c.procs procs gen = { procs gen with midLine := endsMid (procs gen).midLine (stream gen [c]) } := by
  cases c with
  | mark g pid now event exitCode cmd =>
    refine ⟨?_,rfl⟩
    by_cases hg : g = gen
    · simp [recorded, texts, Call.record, stream, opened, hg]
    · simp [recorded, texts, Call.record, stream, opened, hg]
  | write g pid now b =>
    by_cases hg : g = gen
    · subst g
      by_cases hb : b = []
      · simp [recorded, texts, Call.record, Call.procs, stream, hb, ProcLog.prefixLinesLocked, h,
          lines, openLines, opened, endsMid]
      · simp [recorded, texts, Call.record, Call.procs, stream, hb, ProcLog.prefixLinesLocked, h,
          openLines_lines]
    · have hprocs : Call.procs procs (.write g pid now b) gen = procs gen :=
        Function.update_of_ne (Ne.symm hg) ..
      refine ⟨?_,by simpa [stream, hg, endsMid] using hprocs⟩
      by_cases hb : b = []
      · simp [recorded, texts, Call.record, stream, hg, hb, opened]
      · simp [recorded, texts, Call.record, stream, hg, hb, opened]

/-- A generation's records hold its stream with each line opened once. -/
theorem recorded_eq (gen : ℕ) (calls : List Call) (procs : Procs) (h : (procs gen).opening ≠ []) :
    recorded gen (records procs calls) =
      opened (procs gen).opening (procs gen).midLine (stream gen calls) := by
  induction calls generalizing procs with
  | nil => rfl
  | cons c calls ih =>
    obtain ⟨hrecorded,hprocs⟩ := recorded_call gen procs h c
    have hrest := ih (c.procs procs) (by rw [hprocs]; exact h)
    have hstream : stream gen (c::calls) = stream gen [c] ++ stream gen calls := by simp [stream]
    have hrecords : recorded gen (records procs (c::calls)) =
        recorded gen (c.record procs).toList ++ recorded gen (records (c.procs procs) calls) := by
      simp [records, recorded, texts]
    rw [hrecords, hrecorded, hrest, hprocs, hstream, opened_append]

/-- However the stream of a further instance is cut into writes, its recorded text is
the same, and without the opening of each line it is the stream. -/
theorem opened_chunks_agree (k : ℤ) (hk : 1 ≤ k) (gen : ℕ) (procs procs' : Procs) (calls calls' : List Call)
    (hp : procs gen = newInstanceProc k) (hp' : procs' gen = newInstanceProc k)
    (h : stream gen calls = stream gen calls') :
    recorded gen (records procs calls) = recorded gen (records procs' calls') ∧
    (lines (recorded gen (records procs calls))).flatMap (withoutOpening (instanceLinePrefix k)) =
      stream gen calls := by
  have hpos : ¬k ≤ 0 := by omega
  have hopening : (newInstanceProc k).opening ≠ [] := by simp [newInstanceProc, instanceLinePrefix, hpos]
  have hr := recorded_eq gen calls procs (by rw [hp]; exact hopening)
  have hr' := recorded_eq gen calls' procs' (by rw [hp']; exact hopening)
  rw [hp] at hr
  rw [hp', ← h] at hr'
  rw [hr, hr']
  refine ⟨rfl,?_⟩
  rw [show (newInstanceProc k).opening = instanceLinePrefix k from rfl,
    show (newInstanceProc k).midLine = false from rfl, (lines_opened (newline_not_mem k) _).1, flatMap_map]
  have hback (line : Bytes) :
      withoutOpening (instanceLinePrefix k) (instanceLinePrefix k ++ line) = line := by
    simp [withoutOpening]
  simp only [hback]
  rw [flatMap_id', flatten_lines]

theorem opened_chunks_agree_cut :
    stream 1 [.write 1 7 0 [97, 10], .write 1 7 1 [98]] = stream 1 [.write 1 7 0 [97, 10, 98]] ∧
    recorded 1 (records (fun _ => newInstanceProc 2) [.write 1 7 0 [97, 10], .write 1 7 1 [98]]) =
      recorded 1 (records (fun _ => newInstanceProc 2) [.write 1 7 0 [97, 10, 98]]) := by
  refine ⟨rfl,(opened_chunks_agree 2 (by decide) 1 _ _ _ _ ?_ ?_ ?_).1⟩ <;> rfl

end OnPremGateway.AgentLogs
