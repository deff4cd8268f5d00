import OnPremGateway.LabelledRuns
import OnPremGateway.RuntimeConfigSource

/-!
# From a write to the agent's manager

A write to the gateway's store is followed by a notification. A worker derives
the server's document and puts it on the agent's connection; the agent keeps the
latest wake in one slot, owes at most one sync beside the one that runs, and a
sync takes the document of its wake or fetches one. Every stage drops all but
the latest, and what comes last is the document of the store.
-/

set_option autoImplicit false

namespace OnPremGateway.ConfigDelivery
open LabelledRuns RuntimeTypes RuntimeConfigSource List Bool Option

/-! ### Etags -/

def hexDigits : List Char :=
  ['0', '1', '2', '3', '4', '5', '6', '7', '8', '9', 'a', 'b', 'c', 'd', 'e', 'f']

/-- An etag of the gateway is the hexadecimal form of a digest. -/
def HexText (s : String) : Prop := s ≠ "" ∧ ∀ c ∈ s.toList, c ∈ hexDigits

def trimChars (p : Char → Bool) (cs : List Char) : List Char :=
  ((cs.dropWhile p).reverse.dropWhile p).reverse

def trimWeak : List Char → List Char
  | 'W' :: '/' :: cs => cs
  | cs => cs

def etagMatches (header etag : String) : Bool :=
  let header := trimChars isSpace header.toList
  if header = [] ∨ etag = "" then false
  else if header = ['*'] then true
  else (header.splitOn ',').any fun raw =>
    trimChars (· = '"') (trimWeak (trimChars isSpace raw)) = etag.toList

theorem trimChars_eq_self (p : Char → Bool) (cs : List Char) (h : ∀ c ∈ cs, p c = false) :
    trimChars p cs = cs := by
  have hdrop : ∀ ds : List Char, (∀ c ∈ ds, p c = false) → ds.dropWhile p = ds := by
    intro ds hds
    cases ds with
    | nil => rfl
    | cons d ds => rw [dropWhile_cons_of_neg (by rw [hds d mem_cons_self]; decide)]
  rw [trimChars, hdrop cs h, hdrop cs.reverse (fun c hc => h c (mem_reverse.mp hc)),
    reverse_reverse]

theorem hexDigit_facts (c : Char) (h : c ∈ hexDigits) :
    isSpace c = false ∧ decide (c = '"') = false ∧ c ≠ ',' ∧ c ≠ '*' ∧ c ≠ 'W' := by
  rw [hexDigits] at h
  fin_cases h <;> decide

theorem trimWeak_eq_self (cs : List Char) (h : ∀ c ∈ cs, c ≠ 'W') : trimWeak cs = cs := by
  unfold trimWeak
  split
  · exact absurd rfl (h 'W' mem_cons_self)
  · rfl

/-- Between digests a match is equality. -/
theorem etagMatches_iff (header etag : String) (hh : HexText header) (he : etag ≠ "") :
    etagMatches header etag = true ↔ header = etag := by
  have hfacts := fun c hc => hexDigit_facts c (hh.2 c hc)
  have htrim : trimChars isSpace header.toList = header.toList :=
    trimChars_eq_self _ _ fun c hc => (hfacts c hc).1
  have hne : header.toList ≠ [] := fun h => hh.1 (String.toList_eq_nil_iff.mp h)
  have hstar : header.toList ≠ ['*'] := by
    intro h
    exact (hfacts '*' (by rw [h]; exact mem_singleton_self _)).2.2.2.1 rfl
  have hsplit : header.toList.splitOn ',' = [header.toList] := by
    apply splitOnP_eq_singleton
    intro c hc
    rw [beq_eq_false_iff_ne]
    exact (hfacts c hc).2.2.1
  rw [etagMatches, htrim, if_neg (not_or.mpr ⟨hne,he⟩), if_neg hstar, hsplit, any_cons,
    any_nil, Bool.or_false, htrim, trimWeak_eq_self _ fun c hc => (hfacts c hc).2.2.2.2,
    trimChars_eq_self _ _ fun c hc => (hfacts c hc).2.1, decide_eq_true_iff, String.toList_inj]

/-! ### The gateway and the agent -/

/-- What the documents of a server are made of. The agent starts with the
document on its disk; documents with one etag are one document. -/
structure Gateway (Content Raw : Type) where
  derive : Content → Document
  marshal : Document → Raw
  parseConfig : Raw → Except ParseErrorCode Document
  features : List String
  disk : Document
  declared : runtimeManagerFeature ∈ features
  parse_marshal : ∀ c, parseConfig (marshal (derive c)) = .ok (derive c)
  hexText : ∀ c, HexText (derive c).etag
  disk_hexText : disk.etag ≠ "" → HexText disk.etag
  identified : ∀ c c', (derive c).etag = (derive c').etag → derive c = derive c'
  disk_identified : ∀ c, disk.etag = (derive c).etag → disk = derive c

/-- A pass of the push worker: started, with its document derived, or with its
frame on the connection. -/
inductive Pass (Raw : Type) where
  | started
  | derived (frame : Raw)
  | sent
  deriving DecidableEq

/-- A sync: started with the document of its wake, with the gateway's answer, or
with the manager told. -/
inductive SyncRun (Raw : Type) where
  | started (pushed : Option Raw)
  | fetched (answer : Response Raw)
  | finished

/-- The store, the push worker of one server, the agent's connection and slot,
the run loop's hand and the syncs. A worker that is registered has its dirty
flag; an owed sync has its payload. -/
structure World (Content Raw : Type) where
  store : Content
  unnotified : ℕ := 0
  worker : Option Bool := none
  passes : List (Pass Raw) := []
  frames : List Raw := []
  slot : Option (Option Raw) := none
  hand : Option (Option Raw) := none
  running : Bool := false
  owed : Option (Option Raw) := none
  syncs : List (SyncRun Raw) := []
  driver : Driver

inductive Event (Content : Type) where
  | write (c : Content)
  | notify
  | derive (i : ℕ)
  | send (i : ℕ)
  | check (i : ℕ)
  | deliver
  | connect
  | poll
  | take
  | trigger
  | fetch (i : ℕ)
  | complete (i : ℕ) (written : Bool)
  | finish (i : ℕ)

variable {Content Raw : Type} (g : Gateway Content Raw)

def knownETag (d : Driver) : String :=
  match d.src with
  | .gateway s => s.etag
  | .file _ => ""

def handleAgentRuntimeConfig (c : Content) (ifNoneMatch : String) : Response Raw :=
  if etagMatches ifNoneMatch (g.derive c).etag then .notModified
  else .document (.ok (g.marshal (g.derive c)))

def wakeRuntimeConfig (w : World Content Raw) (data : Option Raw) : World Content Raw :=
  { w with slot := some data }

def triggerRuntimeSync (w : World Content Raw) (data : Option Raw) : World Content Raw :=
  if w.running then { w with owed := some data }
  else { w with running := true, syncs := .started data::w.syncs }

def syncSurroundings (written : Bool) (answer : Response Raw) : Surroundings Raw :=
  { features := g.features
    answer := answer
    view := { stat := .error .notExist, read := .error .notExist }
    written := written }

def completeSync (w : World Content Raw) (i : ℕ) (written : Bool) (answer : Response Raw)
    (pushed : Option Raw) : World Content Raw :=
  { w with
    syncs := w.syncs.set i .finished
    driver := w.driver.sync g.parseConfig (syncSurroundings g written answer) pushed }

/-- One step of the gateway or the agent; an event that cannot happen gives
nothing. -/
def step (w : World Content Raw) : Event Content → Option (World Content Raw)
  | .write c => some { w with store := c, unnotified := w.unnotified+1 }
  | .notify =>
    if w.unnotified = 0 then none
    else
      match w.worker with
      | some _ => some { w with unnotified := w.unnotified-1, worker := some true }
      | none =>
        some { w with
          unnotified := w.unnotified-1
          worker := some false
          passes := .started::w.passes }
  | .derive i =>
    match w.passes[i]? with
    | some .started => some { w with passes := w.passes.set i (.derived (g.marshal (g.derive w.store))) }
    | _ => none
  | .send i =>
    match w.passes[i]? with
    | some (.derived frame) =>
      some { w with
        passes := w.passes.set i .sent
        frames := w.frames ++ [frame] }
    | _ => none
  | .check i =>
    match w.passes[i]? with
    | some .sent =>
      if w.worker = some true then
        some { w with
          worker := some false
          passes := w.passes.set i .started }
      else
        some { w with
          worker := none
          passes := w.passes.eraseIdx i }
    | _ => none
  | .deliver =>
    match w.frames with
    | frame::frames => some (wakeRuntimeConfig { w with frames := frames } (some frame))
    | [] => none
  | .connect => some (wakeRuntimeConfig w none)
  | .poll => if w.hand = none then some { w with hand := some none } else none
  | .take =>
    match w.hand, w.slot with
    | none, some data =>
      some { w with
        hand := some data
        slot := none }
    | _, _ => none
  | .trigger =>
    match w.hand with
    | some data => some (triggerRuntimeSync { w with hand := none } data)
    | none => none
  | .fetch i =>
    match w.syncs[i]? with
    | some (.started none) =>
      some { w with
        syncs := w.syncs.set i (.fetched (handleAgentRuntimeConfig g w.store (knownETag w.driver))) }
    | _ => none
  | .complete i written =>
    match w.syncs[i]? with
    | some (.started (some raw)) => some (completeSync g w i written .failed (some raw))
    | some (.fetched answer) => some (completeSync g w i written answer none)
    | _ => none
  | .finish i =>
    match w.syncs[i]? with
    | some .finished =>
      match w.owed with
      | some data =>
        some { w with
          owed := none
          syncs := w.syncs.set i (.started data) }
      | none =>
        some { w with
          running := false
          syncs := w.syncs.eraseIdx i }
    | _ => none

/-- The agent starts with the document on its disk and a first sync; the store
has some content and nothing is on its way. -/
def start (c : Content) : World Content Raw :=
  { store := c
    running := true
    syncs := [.started none]
    driver := { src := .gateway { cached := g.disk, etag := g.disk.etag, disk := some g.disk } } }

/-- The states of a run. -/
def Reaches : World Content Raw → World Content Raw → Prop :=
  Relation.ReflTransGen (EventStep (step g))

/-- No pass runs or is owed, no frame is on its way, no wake waits and no sync
runs or is owed. -/
def Quiet (w : World Content Raw) : Prop :=
  w.unnotified = 0 ∧ w.passes = [] ∧ w.frames = [] ∧ w.slot = none ∧ w.hand = none ∧ w.syncs = []

/-! ### What is on its way -/

def Known (d : Document) : Prop := d = g.disk ∨ ∃ c, d = g.derive c

theorem Known.eq_derive {d : Document} (h : Known g d) (c : Content)
    (hetag : d.etag = (g.derive c).etag) : d = g.derive c := by
  cases h with
  | inl hdisk =>
    rw [hdisk] at hetag ⊢
    exact g.disk_identified c hetag
  | inr hderive =>
    obtain ⟨c',rfl⟩ := hderive
    exact g.identified c' c hetag

def Frame (raw : Raw) : Prop := ∃ c, raw = g.marshal (g.derive c)

/-- A wake without a document, or with one of the store. -/
def Wake (data : Option Raw) : Prop := ∀ raw ∈ data, Frame g raw

inductive Answer : Response Raw → Prop where
  | notModified : Answer .notModified
  | document (raw : Raw) (h : Frame g raw) : Answer (.document (.ok raw))

def Leads (w : World Content Raw) (data : Option Raw) : Prop :=
  ∀ raw ∈ data, raw = g.marshal (g.derive w.store)

/-- The manager has the document of the store. -/
def Applied (w : World Content Raw) : Prop :=
  w.driver.handed = some (effective (decide (gatewayFeatureRuntimeInstances ∈ g.features))
    (g.derive w.store))

def SyncLeads (w : World Content Raw) : SyncRun Raw → Prop
  | .started data => Leads g w data
  | .fetched answer =>
    answer = .document (.ok (g.marshal (g.derive w.store))) ∨
      answer = .notModified ∧ w.driver.src.cached = g.derive w.store
  | .finished => Applied g w

/-- The latest of what is on its way to the manager leads to the document of the
store; where nothing is, the manager has it. -/
structure Downstream (w : World Content Raw) : Prop where
  frames : ∀ frame ∈ w.frames.getLast?, frame = g.marshal (g.derive w.store)
  slot : w.frames = [] → ∀ data ∈ w.slot, Leads g w data
  hand : w.frames = [] → w.slot = none → ∀ data ∈ w.hand, Leads g w data
  owed : w.frames = [] → w.slot = none → w.hand = none → ∀ data ∈ w.owed, Leads g w data
  syncs : w.frames = [] → w.slot = none → w.hand = none → w.owed = none →
    ∀ s ∈ w.syncs, SyncLeads g w s
  applied : w.frames = [] → w.slot = none → w.hand = none → w.owed = none → w.syncs = [] →
    Applied g w

/-- A pass that derived its document derived that of the store, and after its
frame is on the connection that frame is the latest. -/
structure Upstream (w : World Content Raw) : Prop where
  derived : ∀ frame, w.passes = [.derived frame] → frame = g.marshal (g.derive w.store)
  sent : (∀ p ∈ w.passes, p = .sent) → Downstream g w

/-! ### One worker and one sync -/

structure Counted (w : World Content Raw) : Prop where
  passes : w.passes.length = if w.worker.isSome then 1 else 0
  syncs : w.syncs.length = if w.running then 1 else 0
  owed : w.running = false → w.owed = none

theorem eq_singleton_of_getElem? {α : Type} {l : List α} {i : ℕ} {a : α} (hl : l.length ≤ 1)
    (h : l[i]? = some a) : l = [a] ∧ i = 0 := by
  obtain ⟨hi,rfl⟩ := List.getElem?_eq_some_iff.mp h
  match l, hl with
  | [b], _ =>
    have hzero : i = 0 := by
      rw [length_singleton] at hi
      omega
    exact ⟨by simp [hzero],hzero⟩

inductive Move (w : World Content Raw) : World Content Raw → Prop where
  | write (c : Content) : Move w { w with store := c, unnotified := w.unnotified+1 }
  | mark (n : ℕ) (dirty : Bool) (hn : w.unnotified = n+1) (hw : w.worker = some dirty) :
      Move w { w with unnotified := n, worker := some true }
  | launch (n : ℕ) (hn : w.unnotified = n+1) (hw : w.worker = none) (hp : w.passes = []) :
      Move w { w with unnotified := n, worker := some false, passes := [.started] }
  | derive (hp : w.passes = [.started]) :
      Move w { w with passes := [.derived (g.marshal (g.derive w.store))] }
  | send (frame : Raw) (hp : w.passes = [.derived frame]) :
      Move w { w with passes := [.sent], frames := w.frames ++ [frame] }
  | again (hp : w.passes = [.sent]) (hw : w.worker = some true) :
      Move w { w with worker := some false, passes := [.started] }
  | leave (hp : w.passes = [.sent]) (hw : w.worker ≠ some true) :
      Move w { w with worker := none, passes := [] }
  | deliver (frame : Raw) (frames : List Raw) (hf : w.frames = frame::frames) :
      Move w { w with frames := frames, slot := some (some frame) }
  | connect : Move w { w with slot := some none }
  | poll (hh : w.hand = none) : Move w { w with hand := some none }
  | take (data : Option Raw) (hh : w.hand = none) (hs : w.slot = some data) :
      Move w { w with hand := some data, slot := none }
  | owe (data : Option Raw) (hh : w.hand = some data) (hr : w.running = true) :
      Move w { w with hand := none, owed := some data }
  | run (data : Option Raw) (hh : w.hand = some data) (hr : w.running = false) (hs : w.syncs = []) :
      Move w { w with hand := none, running := true, syncs := [.started data] }
  | fetch (hs : w.syncs = [.started none]) : Move w { w with
        syncs := [.fetched (handleAgentRuntimeConfig g w.store (knownETag w.driver))] }
  | complete (run : SyncRun Raw) (written : Bool) (answer : Response Raw) (pushed : Option Raw)
      (hs : w.syncs = [run])
      (hrun : run = .started pushed ∧ pushed ≠ none ∨ run = .fetched answer ∧ pushed = none) :
      Move w { completeSync g w 0 written answer pushed with syncs := [.finished] }
  | resume (data : Option Raw) (hs : w.syncs = [.finished]) (ho : w.owed = some data) :
      Move w { w with owed := none, syncs := [.started data] }
  | rest (hs : w.syncs = [.finished]) (ho : w.owed = none) :
      Move w { w with running := false, syncs := [] }

variable {w w' : World Content Raw}

theorem move_of_step (hc : Counted w) (e : Event Content) (h : step g w e = some w') :
    Move g w w' := by
  have hpasses : w.passes.length ≤ 1 := by
    rw [hc.passes]
    split_ifs <;> omega
  have hsyncs : w.syncs.length ≤ 1 := by
    rw [hc.syncs]
    split_ifs <;> omega
  cases e with
  | write c =>
    cases h
    exact .write c
  | notify =>
    rw [step] at h
    cases hn : w.unnotified with
    | zero =>
      rw [if_pos hn] at h
      cases h
    | succ n =>
      rw [if_neg (by omega)] at h
      cases hw : w.worker with
      | some dirty =>
        rw [hw] at h
        cases h
        rw [hn]
        exact .mark n dirty hn hw
      | none =>
        rw [hw] at h
        cases h
        have hp : w.passes = [] := by
          have hlen := hc.passes
          rw [hw] at hlen
          exact length_eq_zero_iff.mp hlen
        rw [hn, hp]
        exact .launch n hn hw hp
  | derive i =>
    rw [step] at h
    split at h
    · rename_i hat
      obtain ⟨hp,rfl⟩ := eq_singleton_of_getElem? hpasses hat
      cases h
      rw [hp]
      exact .derive hp
    · cases h
  | send i =>
    rw [step] at h
    split at h
    · rename_i frame hat
      obtain ⟨hp,rfl⟩ := eq_singleton_of_getElem? hpasses hat
      cases h
      rw [hp]
      exact .send frame hp
    · cases h
  | check i =>
    rw [step] at h
    split at h
    · rename_i hat
      obtain ⟨hp,rfl⟩ := eq_singleton_of_getElem? hpasses hat
      by_cases hw : w.worker = some true
      · rw [if_pos hw] at h
        cases h
        rw [hp]
        exact .again hp hw
      · rw [if_neg hw] at h
        cases h
        rw [hp]
        exact .leave hp hw
    · cases h
  | deliver =>
    rw [step] at h
    cases hf : w.frames with
    | nil =>
      rw [hf] at h
      cases h
    | cons frame frames =>
      rw [hf] at h
      cases h
      exact .deliver frame frames hf
  | connect =>
    cases h
    exact .connect
  | poll =>
    rw [step] at h
    by_cases hh : w.hand = none
    · rw [if_pos hh] at h
      cases h
      exact .poll hh
    · rw [if_neg hh] at h
      cases h
  | take =>
    rw [step] at h
    split at h
    · rename_i data hh hs
      cases h
      exact .take data hh hs
    · cases h
  | trigger =>
    rw [step] at h
    cases hh : w.hand with
    | none =>
      rw [hh] at h
      cases h
    | some data =>
      rw [hh] at h
      cases h
      rw [triggerRuntimeSync]
      dsimp only
      by_cases hr : w.running = true
      · rw [if_pos hr]
        exact .owe data hh hr
      rw [if_neg hr]
      rw [not_eq_true] at hr
      have hs : w.syncs = [] := by
        have hlen := hc.syncs
        rw [hr] at hlen
        exact length_eq_zero_iff.mp hlen
      rw [hs]
      exact .run data hh hr hs
  | fetch i =>
    rw [step] at h
    split at h
    · rename_i hat
      obtain ⟨hs,rfl⟩ := eq_singleton_of_getElem? hsyncs hat
      cases h
      rw [hs]
      exact .fetch hs
    · cases h
  | complete i written =>
    rw [step] at h
    split at h
    · rename_i raw hat
      obtain ⟨hs,rfl⟩ := eq_singleton_of_getElem? hsyncs hat
      cases h
      have hmove := Move.complete (g := g) (w := w) _ written .failed (some raw) hs
        (.inl ⟨rfl,some_ne_none raw⟩)
      rw [completeSync, hs] at hmove ⊢
      exact hmove
    · rename_i answer hat
      obtain ⟨hs,rfl⟩ := eq_singleton_of_getElem? hsyncs hat
      cases h
      have hmove := Move.complete (g := g) (w := w) _ written answer none hs (.inr ⟨rfl,rfl⟩)
      rw [completeSync, hs] at hmove ⊢
      exact hmove
    · cases h
  | finish i =>
    rw [step] at h
    split at h
    · rename_i hat
      obtain ⟨hs,rfl⟩ := eq_singleton_of_getElem? hsyncs hat
      cases ho : w.owed with
      | some data =>
        rw [ho] at h
        cases h
        rw [hs]
        exact .resume data hs ho
      | none =>
        rw [ho] at h
        cases h
        rw [hs, ← ho]
        exact .rest hs ho
    · cases h

theorem counted_move (hc : Counted w) (h : Move g w w') : Counted w' := by
  have hp := hc.passes
  have hs := hc.syncs
  have ho := hc.owed
  cases h with
  | complete run written answer pushed hrun =>
    rw [hrun] at hs
    exact ⟨hp,hs,ho⟩
  | _ => constructor <;> simp_all

/-! ### What is on its way comes from the store -/

inductive Sound : SyncRun Raw → Prop where
  | started (data : Option Raw) (h : Wake g data) : Sound (.started data)
  | fetched (answer : Response Raw) (h : Answer g answer) : Sound (.fetched answer)
  | finished : Sound .finished

/-- The source holds a document of the server under its etag, the manager has it,
and everything on its way is a document of the store. -/
structure Traffic (w : World Content Raw) : Prop where
  source : ∃ s, w.driver.src = .gateway s ∧ s.etag = s.cached.etag ∧ Known g s.cached
  following : w.driver.Following
  derived : ∀ frame, w.passes = [.derived frame] → Frame g frame
  frames : ∀ frame ∈ w.frames, Frame g frame
  slot : ∀ data ∈ w.slot, Wake g data
  hand : ∀ data ∈ w.hand, Wake g data
  owed : ∀ data ∈ w.owed, Wake g data
  syncs : ∀ s ∈ w.syncs, Sound g s

theorem traffic_start (c : Content) : Traffic g (start g c) where
  source := ⟨_,rfl,rfl,.inl rfl⟩
  following := fun h => Bool.noConfusion h
  derived := fun _ h => by cases h
  frames := fun _ h => by cases h
  slot := fun _ h => by cases h
  hand := fun _ h => by cases h
  owed := fun _ h => by cases h
  syncs := by
    intro s hs
    rw [mem_singleton.mp hs]
    exact .started none fun _ h => by cases h

theorem wake_none : Wake g (none : Option Raw) := fun _ h => by cases h

theorem answer_handle (c : Content) (etag : String) :
    Answer g (handleAgentRuntimeConfig g c etag) := by
  rw [handleAgentRuntimeConfig]
  split_ifs
  · exact .notModified
  · exact .document _ ⟨c,rfl⟩

def taken (cached : Document) (answer : Response Raw) : Option Raw → Document
  | some raw =>
    match g.parseConfig raw with
    | .ok cfg => cfg
    | .error _ => cached
  | none =>
    match answer with
    | .document (.ok raw) =>
      match g.parseConfig raw with
      | .ok cfg => cfg
      | .error _ => cached
    | _ => cached

theorem sameETag_eq {cfg cached : Document} (hcfg : ∃ c, cfg = g.derive c) (hc : Known g cached)
    (h : sameETag cfg.etag cached.etag = true) : cfg = cached := by
  obtain ⟨c,rfl⟩ := hcfg
  rw [sameETag, decide_eq_true_iff] at h
  exact (hc.eq_derive g c h.2.symm).symm

/-- A source of the gateway loads what the sync takes. -/
theorem load_gateway (s : GatewaySource) (around : Surroundings Raw) (pushed : Option Raw)
    (hetag : s.etag = s.cached.etag) (hknown : Known g s.cached) (hpushed : Wake g pushed)
    (hanswer : pushed = none → Answer g around.answer) :
    Source.LoadsCached g.parseConfig around pushed (.gateway s) ∧
      ∃ s', ((Source.gateway s).load g.parseConfig around pushed).2.2 = .gateway s' ∧
        s'.cached = taken g s.cached around.answer pushed ∧ s'.etag = s'.cached.etag ∧
        Known g s'.cached := by
  cases pushed with
  | some raw =>
    obtain ⟨c,rfl⟩ := hpushed raw rfl
    rw [Source.LoadsCached, Source.load]
    simp only [GatewaySource.applyPushed, g.parse_marshal, taken]
    by_cases hsame : sameETag (g.derive c).etag s.etag = true
    · rw [if_pos hsame]
      rw [hetag] at hsame
      have heq := sameETag_eq g ⟨c,rfl⟩ hknown hsame
      exact ⟨⟨heq,fun _ => rfl⟩,s,rfl,heq.symm,hetag,hknown⟩
    · rw [if_neg hsame]
      exact ⟨⟨rfl,fun h => Bool.noConfusion h⟩,_,rfl,rfl,rfl,.inr ⟨c,rfl⟩⟩
  | none =>
    rw [Source.LoadsCached, Source.load]
    dsimp only
    cases hans : around.answer with
    | document body =>
      have ha := hanswer rfl
      rw [hans] at ha
      cases ha with
      | document raw hframe =>
        obtain ⟨c,rfl⟩ := hframe
        simp only [GatewaySource.load, g.parse_marshal, taken]
        refine ⟨⟨rfl,fun h => ?_⟩,_,rfl,rfl,rfl,.inr ⟨c,rfl⟩⟩
        rw [not_eq_false', hetag] at h
        exact sameETag_eq g ⟨c,rfl⟩ hknown h
    | _ => exact ⟨⟨rfl,fun _ => rfl⟩,s,rfl,rfl,hetag,hknown⟩

/-- After a sync the source holds what the sync took, and the manager has it. -/
theorem sync_taken (d : Driver) (s : GatewaySource) (hsrc : d.src = .gateway s)
    (hetag : s.etag = s.cached.etag) (hknown : Known g s.cached) (hfollow : d.Following)
    (around : Surroundings Raw) (hfeatures : around.features = g.features) (pushed : Option Raw)
    (hpushed : Wake g pushed) (hanswer : pushed = none → Answer g around.answer) :
    (∃ s', (d.sync g.parseConfig around pushed).src = .gateway s' ∧ s'.etag = s'.cached.etag ∧
        Known g s'.cached) ∧ (d.sync g.parseConfig around pushed).Following ∧
      (d.sync g.parseConfig around pushed).handed =
        some (effective (decide (gatewayFeatureRuntimeInstances ∈ g.features))
          (taken g s.cached around.answer pushed)) := by
  obtain ⟨hload,s',hs',htaken,hetag',hknown'⟩ :=
    load_gateway g s around pushed hetag hknown hpushed hanswer
  rw [← hsrc] at hload hs'
  have hdeclared : runtimeManagerFeature ∈ around.features := hfeatures ▸ g.declared
  obtain ⟨hsrc',hfollow',hhanded⟩ := d.following_sync g.parseConfig around pushed hdeclared hload hfollow
  refine ⟨⟨s',hsrc'.trans hs',hetag',hknown'⟩,hfollow',?_⟩
  rw [hhanded, hsrc', hs', Source.cached, htaken, Surroundings.instances, hfeatures]

theorem sound_run (h : Traffic g w) {run : SyncRun Raw} {answer : Response Raw}
    {pushed : Option Raw} (hs : w.syncs = [run])
    (hrun : run = .started pushed ∧ pushed ≠ none ∨ run = .fetched answer ∧ pushed = none) :
    Wake g pushed ∧ (pushed = none → Answer g answer) := by
  have hsound := h.syncs run (by rw [hs]; exact mem_singleton_self run)
  rcases hrun with ⟨rfl,hne⟩ | ⟨rfl,rfl⟩
  · cases hsound with
    | started _ hwake => exact ⟨hwake,fun hnone => absurd hnone hne⟩
  · cases hsound with
    | fetched _ hanswer => exact ⟨wake_none g,fun _ => hanswer⟩

theorem traffic_move (h : Traffic g w) (hm : Move g w w') : Traffic g w' := by
  cases hm with
  | write c => exact { h with }
  | mark => exact { h with }
  | launch => exact { h with derived := nofun }
  | derive hp =>
    refine { h with derived := fun frame hframe => ?_ }
    cases hframe
    exact ⟨w.store,rfl⟩
  | send frame hp =>
    refine { h with derived := nofun, frames := fun f hf => ?_ }
    cases mem_append.mp hf with
    | inl hold => exact h.frames f hold
    | inr hnew =>
      rw [mem_singleton.mp hnew]
      exact h.derived frame hp
  | again hp hw => exact { h with derived := nofun }
  | leave hp hw => exact { h with derived := nofun }
  | deliver frame frames hf =>
    have hframes := h.frames
    rw [hf] at hframes
    refine { h with
      frames := fun f hmem => hframes f (mem_cons_of_mem frame hmem)
      slot := fun data hdata => ?_ }
    cases hdata
    intro raw hraw
    cases hraw
    exact hframes frame mem_cons_self
  | connect =>
    refine { h with slot := fun data hdata => ?_ }
    cases hdata
    exact wake_none g
  | poll hh =>
    refine { h with hand := fun data hdata => ?_ }
    cases hdata
    exact wake_none g
  | take data hh hs =>
    refine { h with slot := nofun, hand := fun d hd => ?_ }
    cases hd
    exact h.slot data hs
  | owe data hh hr =>
    refine { h with hand := nofun, owed := fun d hd => ?_ }
    cases hd
    exact h.hand data hh
  | run data hh hr hs =>
    refine { h with hand := nofun, syncs := fun s hmem => ?_ }
    rw [mem_singleton.mp hmem]
    exact .started data (h.hand data hh)
  | fetch hs =>
    refine { h with syncs := fun s hmem => ?_ }
    rw [mem_singleton.mp hmem]
    exact .fetched _ (answer_handle g _ _)
  | complete run written answer pushed hs hrun =>
    obtain ⟨s,hsrc,hetag,hknown⟩ := h.source
    obtain ⟨hpushed,hanswer⟩ := sound_run g h hs hrun
    obtain ⟨hsource,hfollow,-⟩ := sync_taken g w.driver s hsrc hetag hknown h.following
      (syncSurroundings g written answer) rfl pushed hpushed hanswer
    refine { h with source := hsource, following := hfollow, syncs := fun s hmem => ?_ }
    rw [mem_singleton.mp hmem]
    exact .finished
  | resume data hs ho =>
    refine { h with owed := nofun, syncs := fun s hmem => ?_ }
    rw [mem_singleton.mp hmem]
    exact .started data (h.owed data ho)
  | rest hs ho => exact { h with syncs := nofun }

/-! ### The latest write wins -/

def Settled (w : World Content Raw) : Prop :=
  w.unnotified = 0 → w.worker ≠ some true → Upstream g w

theorem leads_none (w : World Content Raw) : Leads g w none := nofun

theorem settled_start (c : Content) : Settled g (start g c) := by
  intro _ _
  refine { derived := nofun, sent := fun _ => ?_ }
  refine { frames := nofun, slot := nofun, hand := nofun, owed := nofun
           syncs := fun _ _ _ _ s hs => ?_, applied := nofun }
  rw [mem_singleton.mp hs]
  exact leads_none g _

/-- A fetch gets the document of the store, or is told that the source has it. -/
theorem fetch_leads (w : World Content Raw) (h : Traffic g w) :
    SyncLeads g w (.fetched (handleAgentRuntimeConfig g w.store (knownETag w.driver))) := by
  obtain ⟨s,hsrc,hetag,hknown⟩ := h.source
  rw [SyncLeads, handleAgentRuntimeConfig, knownETag, hsrc]
  by_cases hmatch : etagMatches s.etag (g.derive w.store).etag = true
  · rw [if_pos hmatch]
    right
    refine ⟨rfl,?_⟩
    have hne : s.etag ≠ "" := by
      intro hempty
      rw [hempty] at hmatch
      exact Bool.noConfusion hmatch
    have hhex : HexText s.etag := by
      rw [hetag] at hne ⊢
      cases hknown with
      | inl hdisk =>
        rw [hdisk] at hne ⊢
        exact g.disk_hexText hne
      | inr hderive =>
        obtain ⟨c,hc⟩ := hderive
        rw [hc]
        exact g.hexText c
    rw [etagMatches_iff _ _ hhex (g.hexText w.store).1, hetag] at hmatch
    exact hknown.eq_derive g w.store hmatch
  · rw [if_neg hmatch]
    exact .inl rfl

/-- A sync that leads to the document of the store takes it. -/
theorem taken_leads (w : World Content Raw) (cached : Document) (answer : Response Raw)
    (pushed : Option Raw) (run : SyncRun Raw)
    (hrun : run = .started pushed ∧ pushed ≠ none ∨ run = .fetched answer ∧ pushed = none)
    (hcached : w.driver.src.cached = cached) (h : SyncLeads g w run) :
    taken g cached answer pushed = g.derive w.store := by
  rcases hrun with ⟨rfl,hne⟩ | ⟨rfl,rfl⟩
  · obtain ⟨raw,rfl⟩ := ne_none_iff_exists'.mp hne
    rw [h raw rfl, taken, g.parse_marshal]
  · rcases h with rfl | ⟨rfl,hsrc⟩
    · rw [taken, g.parse_marshal]
    · exact hcached.symm.trans hsrc

theorem Upstream.keeps (h : Upstream g w) (hpasses : w'.passes = w.passes)
    (hstore : w'.store = w.store) (hd : Downstream g w → Downstream g w') : Upstream g w' := by
  constructor
  · rw [hpasses, hstore]
    exact h.derived
  · rw [hpasses]
    exact fun hsent => hd (h.sent hsent)

theorem settled_move (hc : Counted w) (ht : Traffic g w) (h : Settled g w) (hm : Move g w w') :
    Settled g w' := by
  intro hn hw
  cases hm with
  | write c => cases hn
  | mark => exact absurd rfl hw
  | launch =>
    exact { derived := nofun, sent := fun hall => by cases hall _ mem_cons_self }
  | derive hp =>
    refine { derived := fun frame hframe => ?_, sent := fun hall => by cases hall _ mem_cons_self }
    cases hframe
    rfl
  | send frame hp =>
    have hlast := (h hn hw).derived frame hp
    refine { derived := nofun, sent := fun _ => ?_ }
    have hne : w.frames ++ [frame] ≠ [] := by simp
    refine { frames := fun f hf => ?_, slot := fun hnil => absurd hnil hne
             hand := fun hnil => absurd hnil hne, owed := fun hnil => absurd hnil hne
             syncs := fun hnil => absurd hnil hne, applied := fun hnil => absurd hnil hne }
    rw [getLast?_concat] at hf
    cases hf
    exact hlast
  | again hp hw' =>
    exact { derived := nofun, sent := fun hall => by cases hall _ mem_cons_self }
  | leave hp hw' =>
    refine { derived := nofun, sent := fun _ => ?_ }
    have hd := (h hn hw').sent (by rw [hp]; exact fun p hmem => mem_singleton.mp hmem)
    exact { hd with }
  | deliver frame frames hf =>
    refine (h hn hw).keeps g rfl rfl fun hd => ?_
    have hlast := hd.frames
    rw [hf] at hlast
    refine { frames := fun f hmem => ?_, slot := fun hnil data hdata => ?_, hand := nofun
             owed := nofun, syncs := nofun, applied := nofun }
    · apply hlast
      rw [getLast?_cons, mem_def, mem_def.mp hmem]
      rfl
    · cases hdata
      intro raw hraw
      cases hraw
      apply hlast
      rw [show frames = [] from hnil]
      rfl
  | connect =>
    refine (h hn hw).keeps g rfl rfl fun hd => ?_
    refine { hd with slot := fun hnil data hdata => ?_, hand := nofun, owed := nofun
                     syncs := nofun, applied := nofun }
    cases hdata
    exact leads_none g _
  | poll hh =>
    refine (h hn hw).keeps g rfl rfl fun hd => ?_
    refine { hd with hand := fun hnil hslot data hdata => ?_, owed := nofun, syncs := nofun
                     applied := nofun }
    cases hdata
    exact leads_none g _
  | take data hh hs =>
    refine (h hn hw).keeps g rfl rfl fun hd => ?_
    refine { hd with slot := nofun, hand := fun hnil _ d hdata => ?_, owed := nofun
                     syncs := nofun, applied := nofun }
    cases hdata
    exact hd.slot hnil data hs
  | owe data hh hr =>
    refine (h hn hw).keeps g rfl rfl fun hd => ?_
    refine { hd with hand := nofun, owed := fun hnil hslot _ d hdata => ?_, syncs := nofun
                     applied := nofun }
    cases hdata
    exact hd.hand hnil hslot data hh
  | run data hh hr hs =>
    refine (h hn hw).keeps g rfl rfl fun hd => ?_
    refine { hd with hand := nofun, owed := ?_, syncs := fun hnil hslot _ _ s hmem => ?_
                     applied := nofun }
    · intro _ _ _ d hdata
      have howed := hc.owed hr
      change w.owed = some d at hdata
      rw [howed] at hdata
      cases hdata
    · rw [mem_singleton.mp hmem]
      exact hd.hand hnil hslot data hh
  | fetch hs =>
    refine (h hn hw).keeps g rfl rfl fun hd => ?_
    refine { hd with syncs := fun _ _ _ _ s hmem => ?_, applied := nofun }
    rw [mem_singleton.mp hmem]
    exact fetch_leads g w ht
  | complete run written answer pushed hs hrun =>
    refine (h hn hw).keeps g rfl rfl fun hd => ?_
    obtain ⟨s,hsrc,hetag,hknown⟩ := ht.source
    obtain ⟨hpushed,hanswer⟩ := sound_run g ht hs hrun
    obtain ⟨-,-,hhanded⟩ := sync_taken g w.driver s hsrc hetag hknown ht.following
      (syncSurroundings g written answer) rfl pushed hpushed hanswer
    refine { hd with syncs := fun hnil hslot hhand howed r hmem => ?_, applied := nofun }
    rw [mem_singleton.mp hmem]
    have hleads := hd.syncs hnil hslot hhand howed run (by rw [hs]; exact mem_singleton_self run)
    have htaken := taken_leads g w s.cached answer pushed run hrun (by rw [hsrc]; rfl) hleads
    rw [SyncLeads, Applied]
    refine hhanded.trans ?_
    change some (effective _ (taken g s.cached answer pushed)) = _
    rw [htaken]
    rfl
  | resume data hs ho =>
    refine (h hn hw).keeps g rfl rfl fun hd => ?_
    refine { hd with owed := nofun, syncs := fun hnil hslot hhand _ s hmem => ?_, applied := nofun }
    rw [mem_singleton.mp hmem]
    exact hd.owed hnil hslot hhand data ho
  | rest hs ho =>
    refine (h hn hw).keeps g rfl rfl fun hd => ?_
    refine { hd with syncs := nofun, applied := fun hnil hslot hhand _ _ => ?_ }
    exact hd.syncs hnil hslot hhand ho .finished (by rw [hs]; exact mem_singleton_self _)

/-! ### Runs -/

structure Good (w : World Content Raw) : Prop where
  counted : Counted w
  traffic : Traffic g w
  settled : Settled g w

theorem good_step (h : Good g w) (e : Event Content) (he : step g w e = some w') : Good g w' := by
  have hm := move_of_step g h.counted e he
  exact ⟨counted_move g h.counted hm,traffic_move g h.traffic hm,
    settled_move g h.counted h.traffic h.settled hm⟩

theorem good_reaches (h : Good g w) (hr : Reaches g w w') : Good g w' := by
  induction hr with
  | refl => exact h
  | tail _ hstep ih =>
    obtain ⟨e,he⟩ := hstep
    exact good_step g ih e he

/-- One pass and one sync run at a time, and where nothing is on its way the
manager has the document of the store. -/
theorem latest_config_wins (c : Content) (w : World Content Raw) (hr : Reaches g (start g c) w) :
    w.passes.length ≤ 1 ∧ w.syncs.length ≤ 1 ∧ (Quiet w → Applied g w) := by
  obtain ⟨hc,ht,hs⟩ := good_reaches g ⟨⟨rfl,rfl,fun _ => rfl⟩,traffic_start g c,settled_start g c⟩ hr
  have hpasses := hc.passes
  have hsyncs := hc.syncs
  refine ⟨by split_ifs at hpasses <;> omega,by split_ifs at hsyncs <;> omega,?_⟩
  rintro ⟨hn,hp,hf,hslot,hhand,hsync⟩
  have hworker : w.worker = none := by
    rw [hp, length_nil] at hpasses
    split_ifs at hpasses with hsome
    exact not_isSome_iff_eq_none.mp hsome
  have hrunning : w.running = false := by
    rw [hsync, length_nil] at hsyncs
    split_ifs at hsyncs with htrue
    exact not_eq_true _ ▸ htrue
  have hup := hs hn (by rw [hworker]; exact (some_ne_none true).symm)
  have hd := hup.sent (by rw [hp]; exact fun p hmem => absurd hmem not_mem_nil)
  exact hd.applied hf hslot hhand (hc.owed hrunning) hsync

def twoDocuments : Gateway Bool Document where
  derive b := { etag := if b then "b" else "a" }
  marshal := id
  parseConfig := .ok
  features := [runtimeManagerFeature]
  disk := {}
  declared := List.mem_cons_self
  parse_marshal _ := rfl
  hexText b := by cases b <;> simp [HexText, hexDigits]
  disk_hexText h := absurd rfl h
  identified b c h := by cases b <;> cases c <;> first | rfl | exact absurd h (by decide)
  disk_identified b h := by cases b <;> exact absurd h (by decide)

def writeDuringFetch : List (Event Bool) :=
  [.fetch 0, .write true, .notify, .derive 0, .send 0, .check 0, .deliver, .take, .trigger,
    .complete 0 true, .finish 0, .complete 0 true, .finish 0]

def afterWrite : World Bool Document := play (step twoDocuments) (start twoDocuments false) writeDuringFetch

theorem latest_config_wins_during_fetch : Quiet afterWrite ∧ Applied twoDocuments afterWrite := by
  have hquiet : Quiet afterWrite := ⟨rfl,rfl,rfl,rfl,rfl,rfl⟩
  exact ⟨hquiet,(latest_config_wins twoDocuments false _ (reaches_play ..)).2.2 hquiet⟩

/-- Whatever is still on its way, the source holds one whole document under its
own etag, and what the manager runs is that document. -/
theorem agent_holds_whole_document (c : Content) (w : World Content Raw) (hr : Reaches g (start g c) w) :
    ∃ s, w.driver.src = .gateway s ∧ s.etag = s.cached.etag ∧ Known g s.cached ∧
      (w.driver.applied = true → w.driver.handed = some (effective w.driver.appliedInstances s.cached)) := by
  have ht := (good_reaches g ⟨⟨rfl,rfl,fun _ => rfl⟩,traffic_start g c,settled_start g c⟩ hr).traffic
  obtain ⟨s,hs,hetag,hknown⟩ := ht.source
  refine ⟨s,hs,hetag,hknown,fun happlied => ?_⟩
  have hfollow := ht.following happlied
  rwa [hs] at hfollow

theorem agent_holds_whole_document_during_fetch :
    ∃ s, afterWrite.driver.src = .gateway s ∧ Known twoDocuments s.cached := by
  obtain ⟨s,hs,-,hknown,-⟩ := agent_holds_whole_document twoDocuments false afterWrite (reaches_play ..)
  exact ⟨s,hs,hknown⟩

end OnPremGateway.ConfigDelivery
