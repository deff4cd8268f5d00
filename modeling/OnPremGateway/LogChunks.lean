import OnPremGateway.AgentLogs
import OnPremGateway.Utf8Runes

/-!
# Records that leave the agent in frames

A batch takes as many records as are sure to fit its limit, by a bound on what each
byte costs in JSON. Text that is too long is cut between two characters and outside
the opening of a line. A record that cannot be cut and stands alone is sent all the
same.
-/

set_option autoImplicit false

namespace OnPremGateway.LogChunks
open List Nat
open LaunchExpansion (Bytes bytes)
open LaunchCommand (ResolvedCommand)
open RuntimeLogs (LogEvent)
open Utf8Runes (runeStart Utf8)
open AgentLogs

def logBatchWireOverhead : ℤ := 96
def logEntryWireOverhead : ℤ := 224
def logCommandWireOverhead : ℤ := 96

structure LogEntry where
  pid : ℤ := 0
  time : ℤ := 0
  text : Bytes := []
  droppedBytes : ℤ := 0
  event : Option LogEvent := none
  exitCode : ℤ := 0
  command : Option ResolvedCommand := none
  instanceIdx : ℤ := 0

variable (specID text : Bytes) (r : LogRecord) (budget : ℤ) (recs : List LogRecord)

def entryOf : LogEntry :=
  { pid := r.pid, time := r.time, text := r.text, event := r.event, exitCode := r.exitCode
    command := r.command, instanceIdx := r.instanceIdx }

def withDropped (out : List LogEntry) (dropped : ℤ) : List LogEntry :=
  if dropped ≤ 0 then out else match out with
  | [] => [{ droppedBytes := dropped }]
  | e::es => { e with droppedBytes := dropped }::es

def jsonByteMaxBytes (c : UInt8) : ℤ :=
  if c ∈ [10, 13, 9, 34, 92] then 2
  else if c < 0x20 ∨ c ∈ [60, 62, 38] ∨ c ≥ 0x80 then 6
  else 1

def jsonStringMaxBytes (s : Bytes) : ℤ := 2 + (s.map jsonByteMaxBytes).sum

def eventText : LogEvent → Bytes
  | .started => bytes "started"
  | .exited => bytes "exited"
  | .startFailed => bytes "start_failed"

def commandWireMax : Option ResolvedCommand → ℤ
  | none => 0
  | some c => logCommandWireOverhead + jsonStringMaxBytes (bytes c.binary) +
      jsonStringMaxBytes (bytes c.workDir) + (c.args.map fun a => jsonStringMaxBytes a+1).sum +
      (c.env.map fun e => jsonStringMaxBytes e+1).sum

/-- The bound for the entry of a record. -/
def wireMax (event : Option LogEvent) (command : Option ResolvedCommand) : ℤ :=
  logEntryWireOverhead + (if text = [] then 0 else jsonStringMaxBytes text) +
    (event.elim 0 fun e => jsonStringMaxBytes (eventText e)) + commandWireMax command

def entryWireMax : ℤ := wireMax r.text r.event r.command

/-- How many bytes the loop takes before the room runs out. -/
def fitting : ℤ → Bytes → ℕ
  | _, [] => 0
  | room, c::text => if jsonByteMaxBytes c > room then 0 else fitting (room-jsonByteMaxBytes c) text + 1

/-- Back to the start of a character, or to the start of the text. -/
def runeCut (text : Bytes) : ℕ → ℕ
  | 0 => 0
  | n+1 => if (text[n+1]?).any (fun c => !runeStart c) then runeCut text n else n+1

def lineStart : ℕ := (text.rdropWhile (· ≠ newline)).length

def outsideLinePrefix (n : ℕ) : ℕ :=
  let opening := instanceLinePrefix r.instanceIdx
  if opening = [] ∨ n = 0 ∨ n ≥ r.text.length then n
  else
    let start := lineStart (r.text.take n)
    if n-start < opening.length ∧ opening.isPrefixOf (r.text.drop start) then start else n

def splits : Bool := r.event = none && r.command.isNone && r.text ≠ []

def splitRecord : Option (LogRecord × LogRecord) :=
  if !splits r then none
  else
    let room := budget-logEntryWireOverhead-2
    let n := outsideLinePrefix r (runeCut r.text (fitting room r.text))
    if n = 0 then none
    else some ({ r with text := r.text.take n }, { r with text := r.text.drop n })

/-- The records that fit as a whole, the others, and the budget left. -/
def takeWhole : ℤ → List LogRecord → List LogRecord × List LogRecord × ℤ
  | budget, [] => ([], [], budget)
  | budget, r::recs =>
    if entryWireMax r > budget then ([], r::recs, budget)
    else
      let rest := takeWhole (budget-entryWireMax r) recs
      (r::rest.1, rest.2)

def fixedCost (dropped : ℤ) : ℤ :=
  logBatchWireOverhead + jsonStringMaxBytes specID + if dropped > 0 then logEntryWireOverhead else 0

/-- What is taken, what is left, and the budget left. -/
def divide : List LogRecord × List LogRecord × ℤ :=
  match takeWhole budget recs with
  | (taken, [], budget) => (taken, [], budget)
  | (taken, r::rest, budget) => match splitRecord r budget with
    | some (head, tail) => (taken ++ [head], tail::rest, budget-entryWireMax head)
    | none => if taken.isEmpty then ([r], rest, budget-entryWireMax r) else (taken, r::rest, budget)

def takeChunk (dropped limit : ℤ) :
    List LogEntry × List LogRecord × ℤ :=
  let (taken, rest, budget) := divide (limit-fixedCost specID dropped) recs
  (withDropped (taken.map entryOf) dropped, rest, limit-budget)

/-- The bound for a marshaled batch. -/
def batchWireMax (entries : List LogEntry) : ℤ :=
  logBatchWireOverhead + jsonStringMaxBytes specID +
    (entries.map fun e => wireMax e.text e.event e.command).sum

/-- Chunk after chunk until nothing is left; what is missing is missing before the first. -/
def chunks (specID : Bytes) (limit : ℤ) : ℕ → List LogRecord → ℤ → Option (List (List LogEntry))
  | 0, _, _ => none
  | fuel+1, recs, dropped => match takeChunk specID recs dropped limit with
    | (entries, [], _) => some [entries]
    | (entries, rest, _) => (chunks specID limit fuel rest 0).map (entries :: ·)

/-! ### Costs -/

def cost : ℤ := (text.map jsonByteMaxBytes).sum

theorem jsonByteMaxBytes_bounds (c : UInt8) : 1 ≤ jsonByteMaxBytes c ∧ jsonByteMaxBytes c ≤ 6 := by
  rw [jsonByteMaxBytes]
  split
  · omega
  · split <;> omega

theorem cost_nonneg : 0 ≤ cost text := by
  induction text with
  | nil => exact le_refl 0
  | cons c text ih =>
    have hc := jsonByteMaxBytes_bounds c
    simp only [cost, map_cons, sum_cons] at ih ⊢
    omega

theorem entryWireMax_text {r : LogRecord} (h : splits r = true) :
    entryWireMax r = logEntryWireOverhead + 2 + cost r.text := by
  simp only [splits, Bool.and_eq_true, decide_eq_true_eq, Option.isNone_iff_eq_none] at h
  simp [entryWireMax, wireMax, h, commandWireMax, jsonStringMaxBytes, cost]
  omega

/-- What is cut off at or before the end of the loop fits the room. -/
theorem cost_take_le {room : ℤ} (text : Bytes) (n : ℕ) (hpos : n ≠ 0) (hn : n ≤ fitting room text) :
    cost (text.take n) ≤ room := by
  induction text generalizing room n with
  | nil => exact absurd (le_zero.mp hn) hpos
  | cons c text ih =>
    obtain ⟨n,rfl⟩ := exists_eq_succ_of_ne_zero hpos
    rw [fitting] at hn
    split at hn
    · omega
    have hrest : cost (text.take n) ≤ room-jsonByteMaxBytes c := by
      by_cases hzero : n = 0
      · simp only [hzero, cost, take_zero, map_nil, sum_nil]
        omega
      · exact ih n hzero (by omega)
    simp only [cost, take_succ_cons, map_cons, sum_cons] at hrest ⊢
    omega

/-- The loop passes whatever fits. -/
theorem le_fitting {room : ℤ} (text : Bytes) (n : ℕ) (hn : n ≤ text.length) (h : cost (text.take n) ≤ room) :
    n ≤ fitting room text := by
  induction text generalizing room n with
  | nil => simpa [fitting] using hn
  | cons c text ih =>
    cases n with
    | zero => exact zero_le _
    | succ n =>
      have hpos := cost_nonneg (text.take n)
      simp only [cost, take_succ_cons, map_cons, sum_cons] at h hpos
      rw [fitting, if_neg (by omega)]
      have hrest := @ih (room-jsonByteMaxBytes c) n (by simpa using hn) (by rw [cost]; omega)
      omega

/-! ### Where a text is cut -/

theorem runeCut_le (n : ℕ) : runeCut text n ≤ n := by
  induction n with
  | zero => exact le_refl 0
  | succ n ih =>
    rw [runeCut]
    split
    · omega
    · exact le_refl _

theorem le_runeCut {n p : ℕ} (hp : p ≤ n) (hstart : ∀ c, text[p]? = some c → runeStart c = true) :
    p ≤ runeCut text n := by
  induction n with
  | zero => exact hp
  | succ n ih =>
    rw [runeCut]
    split
    · next hc =>
      apply ih
      by_contra hlt
      have hpn : p = n+1 := by omega
      subst hpn
      simp only [Option.any_eq_true] at hc
      obtain ⟨c,hc,hnot⟩ := hc
      simp [hstart c hc] at hnot
    · exact hp

theorem runeStart_runeCut (n : ℕ) (hn : runeCut text n ≠ 0) (c : UInt8)
    (hc : text[runeCut text n]? = some c) : runeStart c = true := by
  induction n with
  | zero => exact absurd rfl hn
  | succ n ih =>
    rw [runeCut] at hn hc
    split at hc
    · next hnot =>
      rw [if_pos hnot] at hn
      exact ih hn hc
    · next hnot =>
      rw [hc] at hnot
      simpa using hnot

theorem lineStart_take (b : Bytes) : lineStart (b.take (lineStart b)) = lineStart b := by
  have hpre := rdropWhile_prefix (· ≠ newline) b
  rw [lineStart, lineStart, ← prefix_iff_eq_take.mp hpre, rdropWhile_idempotent]

/-- The line of the cut starts with the opening, and the cut is inside it. -/
def InsideOpening (n : ℕ) : Prop :=
  let opening := instanceLinePrefix r.instanceIdx
  let start := lineStart (r.text.take n)
  opening <+: r.text.drop start ∧ start < n ∧ n < start + opening.length

theorem outsideLinePrefix_spec (n : ℕ) (hn : n < r.text.length) :
    outsideLinePrefix r n ≤ n ∧ ¬InsideOpening r (outsideLinePrefix r n) := by
  rw [outsideLinePrefix]
  dsimp only
  split
  · next hskip =>
    refine ⟨le_refl n,fun ⟨_,hlt,hend⟩ => ?_⟩
    rcases hskip with h | h | h
    · rw [h, length_nil] at hend
      omega
    · omega
    · omega
  have hpre := rdropWhile_prefix (· ≠ newline) (r.text.take n)
  have hle : lineStart (r.text.take n) ≤ n := hpre.length_le.trans (length_take_le n _)
  split
  · refine ⟨hle,fun ⟨_,hlt,_⟩ => ?_⟩
    -- the cut has moved to the start of a line
    have hline := lineStart_take (r.text.take n)
    rw [take_take, min_eq_left hle] at hline
    omega
  · next hmoved =>
    refine ⟨le_refl n,fun ⟨hp,hlt,hend⟩ => hmoved ⟨by omega,?_⟩⟩
    exact isPrefixOf_iff_prefix.mpr hp

theorem outsideLinePrefix_cases (n : ℕ) :
    outsideLinePrefix r n = n ∨ r.text[outsideLinePrefix r n]? = some 0x5B := by
  rw [outsideLinePrefix]
  dsimp only
  split
  · exact .inl rfl
  next hskip =>
  split
  · next hmoved =>
    right
    obtain ⟨z,hz⟩ := isPrefixOf_iff_prefix.mp hmoved.2
    have hget := @getElem?_drop _ r.text (lineStart (r.text.take n)) 0
    have hpos : ¬r.instanceIdx ≤ 0 := fun h => hskip (.inl (by rw [instanceLinePrefix, if_pos h]))
    rw [← hz, instanceLinePrefix, if_neg hpos] at hget
    simpa using hget.symm
  · exact .inl rfl

def before (n : ℕ) : LogRecord := { r with text := r.text.take n }
def after (n : ℕ) : LogRecord := { r with text := r.text.drop n }

/-- Output is cut between two characters and outside the openings of its lines. -/
structure CleanCut (r : LogRecord) (n : ℕ) : Prop where
  output : splits r = true
  pos : 0 < n
  lt : n < r.text.length
  chars : Utf8 r.text → Utf8 (r.text.take n) ∧ Utf8 (r.text.drop n)
  outside : ¬InsideOpening r n

theorem splitRecord_spec {r head tail : LogRecord} {budget : ℤ} (hlong : budget < entryWireMax r)
    (h : splitRecord r budget = some (head, tail)) :
    ∃ n, CleanCut r n ∧ head = before r n ∧ tail = after r n ∧ entryWireMax head ≤ budget := by
  rw [splitRecord] at h
  split at h
  · cases h
  next hs =>
  have hs : splits r = true := by simpa using hs
  dsimp only at h
  split at h
  · cases h
  next hn =>
  set room := budget-logEntryWireOverhead-2 with hroom
  set m := runeCut r.text (fitting room r.text) with hm
  set n := outsideLinePrefix r m with hnm
  simp only [Option.some.injEq, Prod.mk.injEq] at h
  have hmle : m ≤ fitting room r.text := runeCut_le _ _
  have hwhole := entryWireMax_text hs
  have hlt : fitting room r.text < r.text.length := by
    by_contra hge
    have hne : r.text.length ≠ 0 := by
      simp only [splits, Bool.and_eq_true, decide_eq_true_eq] at hs
      simpa using hs.2
    have hc := cost_take_le r.text r.text.length hne (not_lt.mp hge)
    rw [take_length] at hc
    omega
  obtain ⟨hle,houtside⟩ := outsideLinePrefix_spec r m (by omega)
  have hstart (c : UInt8) (hc : r.text[n]? = some c) : runeStart c = true := by
    rcases outsideLinePrefix_cases r m with heq | heq
    · rw [hnm, heq] at hc
      exact runeStart_runeCut _ _ (by omega) c hc
    · rw [heq, Option.some.injEq] at hc
      rw [← hc]
      decide
  refine ⟨n,⟨hs,by omega,by omega,fun hutf => ?_,houtside⟩,h.1.symm,h.2.symm,?_⟩
  · have hn : n < r.text.length := by omega
    rw [drop_eq_getElem_cons hn]
    rw [← take_append_drop n r.text, drop_eq_getElem_cons hn] at hutf
    exact hutf.cut (hstart _ (getElem?_eq_getElem hn))
  · have hhead : splits (before r n) = true := by
      simp only [splits, Bool.and_eq_true, decide_eq_true_eq] at hs
      simp [splits, before, hs, take_eq_nil_iff, hn]
    have hcost := cost_take_le r.text n hn (hle.trans hmle)
    have htotal := entryWireMax_text hhead
    rw [← h.1]
    change entryWireMax (before r n) ≤ budget
    rw [htotal]
    change _ + cost (r.text.take n) ≤ budget
    omega

theorem length_instanceLinePrefix {k : ℤ} (hk : k < 2^63) : (instanceLinePrefix k).length ≤ 23 := by
  rw [instanceLinePrefix]
  split
  · simp
  have hdigits := (length_toDigits_le_iff (b := 10) (n := k.toNat) (k := 19) (by decide) (by decide)).mpr
    (by omega)
  simp only [length_append, length_cons, length_nil, length_map]
  omega

theorem cost_instanceLinePrefix (k : ℤ) : cost (instanceLinePrefix k) = (instanceLinePrefix k).length := by
  have hone : ∀ c ∈ instanceLinePrefix k, jsonByteMaxBytes c = 1 := by
    intro c hc
    have hplain := mem_instanceLinePrefix hc
    rw [jsonByteMaxBytes]
    simp only [mem_cons, not_mem_nil, or_false, ← UInt8.toNat_inj, UInt8.lt_iff_toNat_lt,
      ge_iff_le, UInt8.le_iff_toNat_le, UInt8.reduceToNat] at hplain ⊢
    rw [if_neg (by omega), if_neg (by omega)]
  rw [cost, map_congr_left hone]
  simp

theorem cost_le : cost text ≤ 6*text.length := by
  induction text with
  | nil => exact le_refl 0
  | cons c text ih =>
    have hc := jsonByteMaxBytes_bounds c
    simp only [cost, map_cons, sum_cons, length_cons] at ih ⊢
    omega

theorem runeStart_head {s : Bytes} (h : Utf8 s) (c : UInt8) (hc : s[0]? = some c) : runeStart c = true := by
  obtain ⟨chars,rfl⟩ := h
  cases chars with
  | nil => cases hc
  | cons ch chars =>
    obtain ⟨b,rest,heq,-⟩ := Utf8Runes.encodeChar_cases ch
    rw [Utf8Runes.encode_cons, heq] at hc
    cases hc
    exact (Utf8Runes.runeStart_encodeChar heq).1

/-- A first part that fits and ends with a character is before the cut. -/
theorem le_cut (a : Bytes) (room : ℤ) {z : Bytes} (hz : Utf8 z) (hcost : cost a ≤ room) :
    a.length ≤ runeCut (a ++ z) (fitting room (a ++ z)) := by
  apply le_runeCut
  · exact le_fitting (a ++ z) a.length (by simp) (by simpa using hcost)
  · intro c hc
    rw [getElem?_append_right (le_refl _), Nat.sub_self] at hc
    exact runeStart_head hz c hc

/-- Valid output with room for one character is cut after at least one. -/
theorem splitRecord_isSome {r : LogRecord} {budget : ℤ} (hs : splits r = true) (hutf : Utf8 r.text)
    (hk : r.instanceIdx < 2^63) (hroom : logEntryWireOverhead+2+24 ≤ budget) :
    splitRecord r budget ≠ none := by
  rw [splitRecord, if_neg (by simp [hs])]
  dsimp only
  set room := budget-logEntryWireOverhead-2 with hdef
  set m := runeCut r.text (fitting room r.text) with hm
  have hpos : 0 < m := by
    obtain ⟨chars,hchars⟩ := hutf
    cases chars with
    | nil => simp [splits, hchars, Utf8Runes.encode] at hs
    | cons ch chars =>
      obtain ⟨b,rest,heq,-⟩ := Utf8Runes.encodeChar_cases ch
      have hlen := (Utf8Runes.runeStart_encodeChar heq).2.1
      have hcost := cost_le (String.utf8EncodeChar ch)
      rw [Utf8Runes.encode_cons] at hchars
      have hcut := le_cut (String.utf8EncodeChar ch) room ⟨chars,rfl⟩
        (by simp only [heq, length_cons] at hcost ⊢; omega)
      rw [← hchars, ← hm, heq, length_cons] at hcut
      omega
  have hne : outsideLinePrefix r m ≠ 0 := by
    rw [outsideLinePrefix]
    dsimp only
    split
    · omega
    next hskip =>
    split
    · next hmoved =>
      intro hzero
      rw [hzero, drop_zero, isPrefixOf_iff_prefix] at hmoved
      obtain ⟨hlt,z,hz⟩ := hmoved
      -- what follows the opening starts a character, so the cut was not inside it
      have hz' : Utf8 z := by
        have hk' : ¬r.instanceIdx ≤ 0 := fun h => hskip (.inl (by rw [instanceLinePrefix, if_pos h]))
        rw [← hz, instanceLinePrefix, if_neg hk'] at hutf
        exact (Utf8.split (a := [0x5B, 0x23] ++ (toDigits 10 r.instanceIdx.toNat).map Char.toUInt8 ++ [0x5D])
          (c := 0x20) (y := z) (by simpa using hutf) (by decide)).2
      have hlen := length_instanceLinePrefix hk
      have hcut := le_cut (instanceLinePrefix r.instanceIdx) room hz'
        (by rw [cost_instanceLinePrefix]; omega)
      rw [hz, ← hm] at hcut
      omega
    · omega
  rw [if_neg hne]
  exact Option.some_ne_none _

/-! ### A chunk -/

def total : ℤ := (recs.map entryWireMax).sum

theorem total_append (a b : List LogRecord) : total (a ++ b) = total a + total b := by simp [total]

theorem takeWhole_spec :
    recs = (takeWhole budget recs).1 ++ (takeWhole budget recs).2.1 ∧
    (takeWhole budget recs).2.2 + total (takeWhole budget recs).1 = budget ∧
    (0 ≤ budget → 0 ≤ (takeWhole budget recs).2.2) ∧
    ∀ r ∈ (takeWhole budget recs).2.1.head?, (takeWhole budget recs).2.2 < entryWireMax r := by
  induction recs generalizing budget with
  | nil => simp [takeWhole, total]
  | cons r recs ih =>
    rw [takeWhole]
    split
    · next h => simpa [total] using h
    obtain ⟨hrecs,hsum,hpos,hhead⟩ := ih (budget-entryWireMax r)
    refine ⟨by simpa using hrecs,?_,fun _ => hpos (by omega),hhead⟩
    simp only [total, map_cons, sum_cons] at hsum ⊢
    omega

/-- What is taken and what is left are the records in order, at most one of them cut. -/
def Divides (recs taken rest : List LogRecord) : Prop :=
  recs = taken ++ rest ∨ ∃ first r n last, CleanCut r n ∧ recs = first ++ r::last ∧
    taken = first ++ [before r n] ∧ rest = after r n::last

theorem divide_spec :
    Divides recs (divide budget recs).1 (divide budget recs).2.1 ∧
    (recs ≠ [] → (divide budget recs).1 ≠ []) ∧
    (divide budget recs).2.2 + total (divide budget recs).1 = budget ∧
    (0 ≤ budget → 0 ≤ (divide budget recs).2.2 ∨ ∃ r ∈ recs, (divide budget recs).1 = [r] ∧
      budget < entryWireMax r ∧ splitRecord r budget = none) := by
  obtain ⟨hrecs,hsum,hpos,hhead⟩ := takeWhole_spec budget recs
  rw [divide]
  generalize takeWhole budget recs = t at hrecs hsum hpos hhead
  obtain ⟨taken,rest,b⟩ := t
  cases rest with
  | nil => exact ⟨.inl hrecs,by simp [hrecs],hsum,fun h => .inl (hpos h)⟩
  | cons r rest =>
    have hlong : b < entryWireMax r := hhead r rfl
    dsimp only at hrecs hsum hpos ⊢
    split
    · next head tail hsplit =>
      obtain ⟨n,hcut,rfl,rfl,hle⟩ := splitRecord_spec hlong hsplit
      refine ⟨.inr ⟨taken,r,n,rest,hcut,hrecs,rfl,rfl⟩,fun _ => by simp,?_,
        fun _ => .inl (by dsimp only; omega)⟩
      rw [total_append]
      simp only [total, map_cons, map_nil, sum_cons, sum_nil] at hsum ⊢
      omega
    next hsplit =>
    split
    · next halone =>
      rw [List.isEmpty_iff] at halone
      subst halone
      simp only [total, map_nil, sum_nil, add_zero] at hsum
      subst hsum
      refine ⟨.inl (by simpa using hrecs),fun _ => by simp,by simp [total],fun _ => .inr ?_⟩
      exact ⟨r,by simp [hrecs],rfl,hlong,hsplit⟩
    · next hsome =>
      exact ⟨.inl hrecs,fun _ => by simpa using hsome,hsum,fun h => .inl (hpos h)⟩

/-- There is room for one character, and for every record that is not output. -/
structure Roomy (specID : Bytes) (limit : ℤ) (recs : List LogRecord) (dropped : ℤ) : Prop where
  room : fixedCost specID dropped + (logEntryWireOverhead+2+24) ≤ limit
  markers : ∀ r ∈ recs, splits r = false → fixedCost specID dropped + entryWireMax r ≤ limit
  index : ∀ r ∈ recs, r.instanceIdx < 2^63

/-- What of a record that is not valid UTF-8 cannot be cut, and so makes up a batch
of its own however long it is. -/
structure Uncut (specID : Bytes) (limit : ℤ) (recs : List LogRecord) (batch : List LogEntry)
    (r : LogRecord) (dropped : ℤ) : Prop where
  alone : batch = withDropped [entryOf r] dropped
  whole : splitRecord r (limit-fixedCost specID dropped) = none
  hostile : ∃ src ∈ recs, r.text <:+ src.text ∧ ¬Utf8 src.text

def Bounded (limit : ℤ) (recs : List LogRecord) (batch : List LogEntry) : Prop :=
  batchWireMax specID batch ≤ limit ∨ ∃ r dropped, Uncut specID limit recs batch r dropped

section Iteration

variable {specID : Bytes} {limit dropped : ℤ} {recs taken rest : List LogRecord}

theorem batchWireMax_le (specID : Bytes) (dropped : ℤ) (taken : List LogRecord) :
    batchWireMax specID (withDropped (taken.map entryOf) dropped) ≤
      fixedCost specID dropped + total taken := by
  have hentry : (taken.map entryOf).map (fun e => wireMax e.text e.event e.command) =
    taken.map entryWireMax := by
    rw [map_map]
    rfl
  rw [withDropped.eq_def, fixedCost, total]
  split
  · rw [if_neg (by omega), batchWireMax, hentry]
    omega
  rw [if_pos (by omega), batchWireMax]
  cases taken with
  | nil => simp [wireMax, commandWireMax]
  | cons r taken =>
    simp only [map_cons, cons.injEq] at hentry
    simp only [map_cons, sum_cons, hentry.2, entryOf, entryWireMax, logEntryWireOverhead]
    omega

theorem chunk_bounded (h : Roomy specID limit recs dropped) :
    Bounded specID limit recs (takeChunk specID recs dropped limit).1 := by
  obtain ⟨-,-,hsum,hpos⟩ := divide_spec (limit-fixedCost specID dropped) recs
  have hroom := h.room
  have hover : (0 : ℤ) ≤ logEntryWireOverhead := by decide
  rcases hpos (by omega) with hleft | ⟨r,hr,htaken,hlong,hsplit⟩
  · left
    calc
      batchWireMax specID (takeChunk specID recs dropped limit).1 ≤
          fixedCost specID dropped + total (divide (limit-fixedCost specID dropped) recs).1 :=
        batchWireMax_le specID dropped _
      _ ≤ limit := by omega
  · have halone := congrArg (fun taken => withDropped (taken.map entryOf) dropped) htaken
    refine .inr ⟨r,dropped,halone,hsplit,r,hr,suffix_rfl,fun hutf => ?_⟩
    by_cases hs : splits r = true
    · exact splitRecord_isSome hs hutf (h.index r hr) (by omega) hsplit
    · linarith [h.markers r hr (by simpa using hs)]

def weight (recs : List LogRecord) : ℕ := (recs.map fun r => r.text.length+1).sum

theorem weight_lt (h : Divides recs taken rest) (ht : taken ≠ []) : weight rest < weight recs := by
  rcases h with rfl | ⟨first,r,n,last,hcut,rfl,-,rfl⟩
  · obtain ⟨r,taken,rfl⟩ := exists_cons_of_ne_nil ht
    simp [weight]
    omega
  have := hcut.pos
  have := hcut.lt
  simp [weight, after]
  omega

theorem mem_rest (h : Divides recs taken rest) {x : LogRecord} (hx : x ∈ rest) :
    x ∈ recs ∨ ∃ r ∈ recs, ∃ n, CleanCut r n ∧ x = after r n := by
  rcases h with rfl | ⟨first,r,n,last,hcut,rfl,-,rfl⟩
  · exact .inl (mem_append_right _ hx)
  · rcases mem_cons.mp hx with rfl | hx
    · exact .inr ⟨r,by simp,n,hcut,rfl⟩
    · exact .inl (by simp [hx])

theorem Roomy.left (h : Roomy specID limit recs dropped) (hdiv : Divides recs taken rest) :
    Roomy specID limit rest 0 := by
  have hfixed : fixedCost specID 0 ≤ fixedCost specID dropped := by
    rw [fixedCost, fixedCost, if_neg (lt_irrefl 0)]
    split <;> simp [logEntryWireOverhead]
  refine ⟨by linarith [h.room],fun x hx hs => ?_,fun x hx => ?_⟩
  · rcases mem_rest hdiv hx with hx | ⟨r,hr,n,hcut,rfl⟩
    · linarith [h.markers x hx hs]
    · have hout := hcut.output
      have hlt := hcut.lt
      simp only [splits, after, Bool.and_eq_true, decide_eq_true_eq] at hs hout
      simp [hout] at hs
      omega
  · rcases mem_rest hdiv hx with hx | ⟨r,hr,n,hcut,rfl⟩
    · exact h.index x hx
    · exact h.index r hr

/-- What is left of a record is cut off its end, between two characters. -/
theorem Bounded.left {batch : List LogEntry} (h : Bounded specID limit rest batch)
    (hdiv : Divides recs taken rest) : Bounded specID limit recs batch := by
  refine h.imp_right fun ⟨r,d,huncut⟩ => ⟨r,d,huncut.alone,huncut.whole,?_⟩
  obtain ⟨src,hsrc,hsuffix,hinvalid⟩ := huncut.hostile
  rcases mem_rest hdiv hsrc with hx | ⟨src,hx,n,hcut,rfl⟩
  · exact ⟨src,hx,hsuffix,hinvalid⟩
  · exact ⟨src,hx,hsuffix.trans (drop_suffix n _),fun hutf => hinvalid (hcut.chars hutf).2⟩

/-- Chunk after chunk the records come to an end, and every chunk is bounded. -/
theorem chunks_spec (fuel : ℕ) (hfuel : weight recs < fuel) :
    ∃ batches, chunks specID limit fuel recs dropped = some batches ∧
      (Roomy specID limit recs dropped → ∀ b ∈ batches, Bounded specID limit recs b) := by
  induction fuel generalizing recs dropped with
  | zero => omega
  | succ fuel ih =>
    obtain ⟨hdiv,hne,-⟩ := divide_spec (limit-fixedCost specID dropped) recs
    have hfits := @chunk_bounded specID limit dropped recs
    rw [takeChunk] at hfits
    rw [chunks, takeChunk]
    generalize divide (limit-fixedCost specID dropped) recs = t at hdiv hne hfits
    obtain ⟨taken,rest,b⟩ := t
    cases rest with
    | nil => exact ⟨_,rfl,fun h => by simpa using hfits h⟩
    | cons x rest =>
      have hrecs : recs ≠ [] := by
        rintro rfl
        rcases hdiv with h | ⟨first,r,n,last,-,h,-⟩ <;> simp at h
      have hlt := weight_lt hdiv (hne hrecs)
      obtain ⟨batches,hbatches,hall⟩ := @ih 0 (x::rest) (by dsimp only at hlt; omega)
      refine ⟨_,by dsimp only; rw [hbatches, Option.map_some],fun h b hb => ?_⟩
      rcases mem_cons.mp hb with rfl | hb
      · exact hfits h
      · exact (hall (h.left hdiv) b hb).left hdiv

end Iteration

/-- A chunk divides the records in order, takes something, and ends in its turn; it
fits, as does every chunk after it, unless it is one piece of invalid output that
cannot be cut. -/
theorem chunks_divide_and_fit {specID : Bytes} {limit dropped : ℤ} {recs : List LogRecord}
    (h : Roomy specID limit recs dropped) : ∃ taken rest used batches,
      takeChunk specID recs dropped limit = (withDropped (taken.map entryOf) dropped, rest, used) ∧
      Divides recs taken rest ∧ (recs ≠ [] → taken ≠ []) ∧
      Bounded specID limit recs (withDropped (taken.map entryOf) dropped) ∧
      chunks specID limit (weight recs+1) recs dropped = some batches ∧
      ∀ b ∈ batches, Bounded specID limit recs b := by
  obtain ⟨hdiv,hne,-⟩ := divide_spec (limit-fixedCost specID dropped) recs
  obtain ⟨batches,hbatches,hall⟩ := @chunks_spec specID limit dropped recs
    (weight recs+1) (lt_succ_self _)
  exact ⟨_,_,_,batches,rfl,hdiv,hne,chunk_bounded h,hbatches,hall h⟩

def twoLines : List LogRecord :=
  [{ gen := 0, pid := 1, time := 0, event := some .started, instanceIdx := 1 },
    { gen := 0, pid := 1, time := 0, text := bytes "[#1] ab\n[#1] cd\n", instanceIdx := 1 }]

/-- Room for a marker and twelve bytes: the cut moves back to the second line. -/
theorem chunks_divide_and_fit_lines :
    (takeChunk [] twoLines 5 793).1.map (fun e => (e.droppedBytes, e.text)) =
      [(5, []), (0, bytes "[#1] ab\n")] ∧
    (takeChunk [] twoLines 5 793).2.1.map LogRecord.text = [bytes "[#1] cd\n"] ∧
    ∃ batches, chunks [] 793 (weight twoLines+1) twoLines 5 = some batches ∧
      ∀ b ∈ batches, batchWireMax [] b ≤ 793 := by
  have hroomy : Roomy [] 793 twoLines 5 := ⟨by decide +kernel,by decide +kernel,by decide +kernel⟩
  obtain ⟨-,-,-,batches,-,-,-,-,hbatches,hall⟩ := chunks_divide_and_fit hroomy
  refine ⟨by decide +kernel,by decide +kernel,batches,hbatches,fun b hb => (hall b hb).resolve_right ?_⟩
  rintro ⟨r,d,-,-,src,hsrc,-,hinvalid⟩
  apply hinvalid
  rcases mem_pair.mp hsrc with rfl | rfl
  · exact ⟨[],rfl⟩
  · exact ⟨"[#1] ab\n[#1] cd\n".toList,by decide +kernel⟩

/-- Output made of continuation bytes only cannot be cut, and alone it is sent whole. -/
theorem continuation_bytes_overflow :
    Roomy [] 348 [{ gen := 0, pid := 0, time := 0, text := replicate 10 0x80 }] 0 ∧
    348 < batchWireMax []
      (takeChunk [] [{ gen := 0, pid := 0, time := 0, text := replicate 10 0x80 }] 0 348).1 := by
  refine ⟨⟨by decide,?_,?_⟩,by decide⟩ <;> simp [splits]

end OnPremGateway.LogChunks
