import OnPremGateway.VoiceRelay

/-!
# Every section is spoken, in order

Four facts carry the relay. The legs get their slots in the order of the
document: no leg queues for one before all ahead of it have settled. The relay
has taken the legs from the front of that order, and those behind it have ended
with nothing left on their channels. So the leg it waits for is never kept from
a slot by a later one, and a slot held by an earlier one is about to be
released. And what has been published, what the current leg has left and what
the legs not yet taken will say are together the whole script.
-/

set_option autoImplicit false

namespace OnPremGateway.VoiceOrder
open LabelledRuns VoiceRelay Option Nat

/-! ## The script -/

def scriptFrom (k : ℕ) : List (List Chunk) → List (ℕ × Chunk)
  | [] => []
  | chunks::rest => chunks.map (Prod.mk k) ++ scriptFrom (k+1) rest

/-- All the legs' chunks, leg by leg in the order of the document. -/
def script (S : VoiceRun) : List (ℕ × Chunk) := scriptFrom 0 S.sections

/-- The chunks among the published frames, each with the section it was tagged
with. -/
def spoken (r : Relay) : List (ℕ × Chunk) :=
  (r.published.filter fun f => !f.silence).map fun f => (f.sectionIndex,⟨f.rate,f.data⟩)

/-- What the leg at hand has not handed over yet. -/
def outstanding (s : State) : List (ℕ × Chunk) :=
  match s.relay.cur with
  | none => []
  | some k =>
    match s.legs[k]? with
    | none => []
    | some l => (l.audioCh ++ l.pending).map (Prod.mk k)

variable {d j k : ℕ} {chunks : List Chunk} {l l' : Leg} {legs : List Leg} {rest : List ℕ}

theorem scriptFrom_drop {sections : List (List Chunk)} (h : sections[k]? = some chunks) :
    scriptFrom k (sections.drop k) =
      chunks.map (Prod.mk k) ++ scriptFrom (k+1) (sections.drop (k+1)) := by
  obtain ⟨hk,rfl⟩ := List.getElem?_eq_some_iff.mp h
  rw [List.drop_eq_getElem_cons hk, scriptFrom]

theorem spoken_deliver (r : Relay) (k : ℕ) (a : Chunk) :
    spoken (r.deliver k a) = spoken r ++ [(k,a)] := by
  simp [spoken, Relay.deliver]

theorem spoken_fillGap (encode : List UInt8 → String) (r : Relay) (rate : ℤ) (k : ℕ) :
    spoken (r.fillGap encode rate k) = spoken r := by
  obtain ⟨-,-,⟨hpublished,-⟩ | ⟨data,hpublished,-⟩⟩ := fillGap_spec encode r rate k
  · simp [spoken, hpublished]
  · simp [spoken, hpublished]

theorem outstanding_of_cur {s : State} (hcur : s.relay.cur = some k) (hl : s.legs[k]? = some l) :
    outstanding s = (l.audioCh ++ l.pending).map (Prod.mk k) := by
  simp [outstanding, hcur, hl]

theorem outstanding_of_none {s : State} (hcur : s.relay.cur = none) : outstanding s = [] := by
  simp [outstanding, hcur]

/-! ## One leg changed, one leg added -/

theorem get_set_cases {m : Leg} (h : (legs.set k l')[j]? = some m) :
    (j = k ∧ m = l') ∨ (j ≠ k ∧ legs[j]? = some m) := by
  by_cases hjk : j = k
  · subst hjk
    rw [List.getElem?_set_self'] at h
    cases hl : legs[j]? with
    | none => simp [hl] at h
    | some l => exact .inl ⟨rfl,by simpa [hl] using h.symm⟩
  · rw [List.getElem?_set_ne fun h => hjk h.symm] at h
    exact .inr ⟨hjk,h⟩

theorem get_set_same (h : legs[k]? = some l) : (legs.set k l')[k]? = some l' := by
  simp [List.getElem?_set_self', h]

theorem get_append_cases {x m : Leg} (h : (legs ++ [x])[j]? = some m) :
    legs[j]? = some m ∨ (j = legs.length ∧ m = x) := by
  rw [List.getElem?_append] at h
  split at h
  · exact .inl h
  rename_i hj
  obtain ⟨hlt,heq⟩ := List.getElem?_eq_some_iff.mp h
  simp only [List.length_singleton, lt_one_iff] at hlt
  exact .inr ⟨by omega,by simpa [hlt] using heq.symm⟩

theorem held_set (h : legs[k]? = some l) :
    held (legs.set k l') = held legs - (if l.stage.holdsSlot = true then 1 else 0) +
      (if l'.stage.holdsSlot = true then 1 else 0) := by
  obtain ⟨hk,rfl⟩ := List.getElem?_eq_some_iff.mp h
  exact List.countP_set hk

theorem get_lt (h : legs[j]? = some l) : j < legs.length :=
  (List.getElem?_eq_some_iff.mp h).1

/-! ## The line at the gate -/

structure Line (S : VoiceRun) (legs : List Leg) : Prop where
  ordered : ∀ (i j : ℕ) (li lj : Leg), legs[i]? = some li → legs[j]? = some lj → i < j →
    lj.stage.turned = true → li.stage.settled = true
  ended : ∀ (j : ℕ) (l : Leg), legs[j]? = some l → l.stage.audioClosed = true → l.pending = []
  within : held legs ≤ S.slots

section Gate
variable {S : VoiceRun} {legs : List Leg}

theorem Line.of_after {i : ℕ} (h : Line S legs) (hafter : after legs k = true) (hi : i < k)
    (hl : legs[i]? = some l) : l.stage.settled = true := by
  cases k with
  | zero => exact absurd hi (not_lt_zero i)
  | succ k =>
    simp only [after] at hafter
    split at hafter
    · rename_i p hp
      by_cases hik : i = k
      · subst hik
        rw [hl, some.injEq] at hp
        exact hp ▸ hafter
      · have hturned : p.stage.turned = true := by
          cases hstage : p.stage <;> simp [hstage, Stage.settled, Stage.turned] at hafter ⊢
        exact h.ordered i k l p hl hp (by omega) hturned
    · cases hafter

theorem Line.set (h : Line S legs) (hl : legs[k]? = some l)
    (hstep : Keeps (after legs k) (decide (held legs < S.slots)) l l') :
    Line S (legs.set k l') := by
  refine ⟨?_,?_,?_⟩
  · intro i j li lj hli hlj hij hturned
    obtain ⟨rfl,rfl⟩ | ⟨-,hget⟩ := get_set_cases hli
    · obtain ⟨rfl,-⟩ | ⟨-,hlj⟩ := get_set_cases hlj
      · exact absurd hij (lt_irrefl _)
      · exact hstep.settled (h.ordered i j l lj hl hlj hij hturned)
    obtain ⟨rfl,rfl⟩ | ⟨-,hlj⟩ := get_set_cases hlj
    · obtain hold | hafter := hstep.turned hturned
      · exact h.ordered i j li l hget hl hij hold
      · exact h.of_after hafter hij hget
    · exact h.ordered i j li lj hget hlj hij hturned
  · intro j m hm hclosed
    obtain ⟨rfl,rfl⟩ | ⟨-,hm⟩ := get_set_cases hm
    · exact hstep.ended (h.ended j l hl) hclosed
    · exact h.ended j m hm hclosed
  · have hwithin := h.within
    have hslots : 1 ≤ S.slots := le_max_right _ _
    rw [held_set hl]
    cases hnew : l'.stage.holdsSlot with
    | false =>
      simp only [Bool.false_eq_true, if_false]
      omega
    | true =>
      obtain hold | hfree := hstep.holdsSlot hnew
      · simp only [hold, if_true]
        omega
      · have hlt : held legs < S.slots := of_decide_eq_true hfree
        simp only [if_true]
        omega

theorem Line.append (h : Line S legs) (chunks : List Chunk) :
    Line S (legs ++ [newVoiceSpeechLeg chunks]) := by
  refine ⟨?_,?_,?_⟩
  · intro i j li lj hli hlj hij hturned
    obtain hlj | ⟨rfl,rfl⟩ := get_append_cases hlj
    · obtain hli | ⟨rfl,rfl⟩ := get_append_cases hli
      · exact h.ordered i j li lj hli hlj hij hturned
      · exact absurd (get_lt hlj) (by omega)
    · simp [newVoiceSpeechLeg, Stage.turned] at hturned
  · intro j l hl hclosed
    obtain hl | ⟨rfl,rfl⟩ := get_append_cases hl
    · exact h.ended j l hl hclosed
    · simp [newVoiceSpeechLeg, Stage.audioClosed] at hclosed
  · simpa [held, newVoiceSpeechLeg, Stage.holdsSlot] using h.within

end Gate

/-! ## The loop that launches the legs -/

structure Launched (S : VoiceRun) (s : State) : Prop where
  length : s.legs.length ≤ S.sections.length
  starting : ∀ k, s.loop = .starting k →
    k + 1 = s.legs.length ∧ ∃ l : Leg, s.legs[k]? = some l ∧ l.stage = .created
  created : ∀ (j : ℕ) (l : Leg), s.legs[j]? = some l → l.stage = .created → s.loop = .starting j
  closed : s.legsClosed = true → s.legs.length = S.sections.length
  joined : s.loop = .joined → s.relay.returned = true

section Launches
variable {S : VoiceRun} {s t : State}

theorem Launched.not_created (h : Launched S s) (hl : s.legs[j]? = some l)
    (hloop : ∀ k, s.loop ≠ .starting k) : l.stage ≠ .created :=
  fun hcreated => hloop j (h.created j l hl hcreated)

theorem Launched.move (h : Launched S s) (hmove : Move S s t) : Launched S t := by
  cases hmove with
  | hand chunks hloop hnext =>
    have hlt := (List.getElem?_eq_some_iff.mp hnext).1
    refine ⟨by simpa using hlt,?_,?_,by simp [State.legsClosed],by simp⟩
    · intro k hk
      cases hk
      exact ⟨by simp,newVoiceSpeechLeg chunks,by simp,rfl⟩
    · intro j l hl hcreated
      obtain hl | ⟨rfl,-⟩ := get_append_cases hl
      · exact absurd hcreated (h.not_created hl fun k => by simp [hloop])
      · rfl
  | start k l hloop hl =>
    refine ⟨by simpa using h.length,by simp,?_,by simp [State.legsClosed],by simp⟩
    intro j m hm hcreated
    obtain ⟨rfl,rfl⟩ | ⟨hjk,hm⟩ := get_set_cases hm
    · cases hcreated
    · have hj := h.created j m hm hcreated
      rw [hloop, Loop.starting.injEq] at hj
      exact absurd hj.symm hjk
  | close hloop hnext =>
    have hle := List.getElem?_eq_none_iff.mp hnext
    refine ⟨h.length,by simp,?_,fun _ => le_antisymm h.length hle,by simp⟩
    intro j l hl hcreated
    exact absurd hcreated (h.not_created hl fun k => by simp [hloop])
  | join n l hloop hl hresult =>
    refine ⟨h.length,by simp,?_,fun _ => h.closed (by simp [State.legsClosed, hloop]),by simp⟩
    intro j m hm hcreated
    exact absurd hcreated (h.not_created hm fun k => by simp [hloop])
  | wait n hloop hl hreturned =>
    refine ⟨h.length,by simp,?_,fun _ => h.closed (by simp [State.legsClosed, hloop]),
      fun _ => hreturned⟩
    intro j m hm hcreated
    exact absurd hcreated (h.not_created hm fun k => by simp [hloop])
  | leg k l l' hl hcreated hstep =>
    refine ⟨by simpa using h.length,?_,?_,fun hclosed => by simpa using h.closed hclosed,h.joined⟩
    · intro j hj
      obtain ⟨hlast,m,hm,hmc⟩ := h.starting j hj
      have hjk : k ≠ j := by
        rintro rfl
        rw [hl, some.injEq] at hm
        exact hcreated (hm ▸ hmc)
      exact ⟨by simpa using hlast,m,by simpa [List.getElem?_set_ne hjk] using hm,hmc⟩
    · intro j m hm hmc
      obtain ⟨rfl,rfl⟩ | ⟨-,hm⟩ := get_set_cases hm
      · exact absurd hmc hstep.started
      · exact h.created j m hm hmc
  | take k rest hcur hqueue hreturned => exact ⟨h.length,h.starting,h.created,h.closed,h.joined⟩
  | finish hcur hqueue hclosed => exact ⟨h.length,h.starting,h.created,h.closed,fun _ => rfl⟩
  | deliver k l a rest hcur hl haudio =>
    refine ⟨by simpa using h.length,?_,?_,fun hclosed => by simpa using h.closed hclosed,h.joined⟩
    · intro j hj
      obtain ⟨hlast,m,hm,hmc⟩ := h.starting j hj
      by_cases hjk : k = j
      · subst hjk
        rw [hl, some.injEq] at hm
        exact ⟨by simpa using hlast,_,get_set_same hl,by simpa [hm] using hmc⟩
      · exact ⟨by simpa using hlast,m,by simpa [List.getElem?_set_ne hjk] using hm,hmc⟩
    · intro j m hm hmc
      obtain ⟨rfl,rfl⟩ | ⟨-,hm⟩ := get_set_cases hm
      · exact h.created j l hl hmc
      · exact h.created j m hm hmc
  | next k l hcur hl haudio hclosed => exact ⟨h.length,h.starting,h.created,h.closed,h.joined⟩
  | gap rate k =>
    refine ⟨h.length,h.starting,h.created,h.closed,fun hloop => ?_⟩
    exact (fillGap_spec S.encodeToString s.relay rate k).2.1.trans (h.joined hloop)

theorem Line.move (h : Line S s.legs) (hs : Launched S s) (hmove : Move S s t) : Line S t.legs := by
  cases hmove with
  | hand chunks hloop hnext => exact h.append chunks
  | start k l hloop hl =>
    obtain ⟨-,m,hm,hcreated⟩ := hs.starting k hloop
    rw [hl, some.injEq] at hm
    exact h.set hl (advanced_start _ _ l (hm ▸ hcreated)).toKeeps
  | leg k l l' hl hcreated hstep => exact h.set hl hstep.toKeeps
  | deliver k l a rest hcur hl haudio => exact h.set hl (keeps_receive _ _ l rest)
  | close hloop hnext => exact h
  | join n l hloop hl hresult => exact h
  | wait n hloop hl hreturned => exact h
  | take k rest hcur hqueue hreturned => exact h
  | finish hcur hqueue hclosed => exact h
  | next k l hcur hl haudio hclosed => exact h
  | gap rate k => exact h

end Launches

/-! ## Where the relay stands -/

structure Position (S : VoiceRun) (d : ℕ) (s : State) : Prop where
  handed : d ≤ s.legs.length
  queue : s.legsCh = List.range' d (s.legs.length - d)
  cur : ∀ k, s.relay.cur = some k → k + 1 = d
  passed : ∀ (j : ℕ) (l : Leg), s.legs[j]? = some l → j < d → s.relay.cur ≠ some j →
    l.stage.audioClosed = true ∧ l.audioCh = []
  untaken : ∀ (j : ℕ) (l : Leg), s.legs[j]? = some l → d ≤ j → S.sections[j]? = some (l.audioCh ++ l.pending)
  returned : s.relay.returned = true → s.legsClosed = true ∧ s.relay.cur = none ∧ d = s.legs.length

/-- What has been published, with what the first `d` legs still have to say and
what the others will say. -/
structure Streamed (S : VoiceRun) (d : ℕ) (s : State) : Prop where
  numbered : s.relay.published.map Frame.seq = List.range s.relay.published.length
  seq : s.relay.seq = s.relay.published.length
  whole : spoken s.relay ++ outstanding s ++ scriptFrom d (S.sections.drop d) = script S

section Relaying
variable {S : VoiceRun} {d : ℕ} {s t : State}

theorem outstanding_congr {loop loop' : Loop} {legs' : List Leg} {queue queue' : List ℕ} {r : Relay}
    (h : ∀ k l, r.cur = some k → legs[k]? = some l → ∃ l', legs'[k]? = some l' ∧
      l'.audioCh ++ l'.pending = l.audioCh ++ l.pending)
    (hlt : ∀ k, r.cur = some k → k < legs.length) :
    outstanding ⟨loop',legs',queue',r⟩ = outstanding ⟨loop,legs,queue,r⟩ := by
  cases hcur : r.cur with
  | none => rw [outstanding_of_none hcur, outstanding_of_none hcur]
  | some k =>
    have hl := List.getElem?_eq_getElem (hlt k hcur)
    obtain ⟨l',hl',hchunks⟩ := h k _ hcur hl
    rw [outstanding_of_cur hcur hl', outstanding_of_cur hcur hl, hchunks]

theorem Position.cur_lt (h : Position S d s) (hcur : s.relay.cur = some k) : k < s.legs.length := by
  have hk := h.cur k hcur
  have hd := h.handed
  omega

/-- The front of the queue is the first leg not taken. -/
theorem Position.front (h : Position S d s) (hqueue : s.legsCh = k::rest) :
    k = d ∧ d < s.legs.length ∧ rest = List.range' (d+1) (s.legs.length - (d+1)) := by
  have hrange := h.queue
  rw [hqueue] at hrange
  cases hn : s.legs.length - d with
  | zero => simp [hn] at hrange
  | succ n =>
    rw [hn, List.range'_succ, List.cons.injEq] at hrange
    have hrest : s.legs.length - (d+1) = n := by omega
    exact ⟨hrange.1,by omega,by rw [hrest]; exact hrange.2⟩

theorem Position.emptied (h : Position S d s) (hqueue : s.legsCh = []) : d = s.legs.length := by
  have hrange := h.queue
  rw [hqueue] at hrange
  have hzero : s.legs.length - d = 0 := by simpa using congrArg List.length hrange.symm
  have hd := h.handed
  omega

theorem Position.set {after free : Bool} {loop : Loop} (h : Position S d s)
    (hl : s.legs[k]? = some l) (hstep : Advanced after free l l')
    (hloop : s.legsClosed = true → s.loop = loop) :
    Position S d { s with loop, legs := s.legs.set k l' } := by
  refine ⟨by simpa using h.handed,by simpa using h.queue,h.cur,?_,?_,?_⟩
  · intro j m hm hj hcur
    obtain ⟨rfl,rfl⟩ | ⟨-,hm⟩ := get_set_cases hm
    · obtain ⟨hclosed,hempty⟩ := h.passed j l hl hj hcur
      obtain ⟨hstays,hsame⟩ := hstep.stays hclosed
      exact ⟨hstays,hsame.trans hempty⟩
    · exact h.passed j m hm hj hcur
  · intro j m hm hj
    obtain ⟨rfl,rfl⟩ | ⟨-,hm⟩ := get_set_cases hm
    · rw [hstep.chunks]
      exact h.untaken j l hl hj
    · exact h.untaken j m hm hj
  · intro hreturned
    obtain ⟨hclosed,hcur,hd⟩ := h.returned hreturned
    have hsame := hloop hclosed
    subst hsame
    exact ⟨hclosed,hcur,by simpa using hd⟩

theorem Streamed.set {after free : Bool} {loop : Loop} (h : Streamed S d s) (hpos : Position S d s)
    (hl : s.legs[k]? = some l) (hstep : Advanced after free l l') :
    Streamed S d { s with loop, legs := s.legs.set k l' } := by
  refine ⟨h.numbered,h.seq,?_⟩
  rw [← h.whole]
  congr 2
  refine outstanding_congr (fun j m hcur hm => ?_) (fun j hcur => hpos.cur_lt hcur)
  by_cases hjk : k = j
  · subst hjk
    rw [hl, some.injEq] at hm
    exact ⟨l',get_set_same hl,hm ▸ hstep.chunks⟩
  · exact ⟨m,by rwa [List.getElem?_set_ne hjk],rfl⟩

theorem Position.hand (h : Position S d s) (hloop : s.loop = .scanning)
    (hnext : S.sections[s.legs.length]? = some chunks) : Position S d { s with
      loop := .starting s.legs.length
      legs := s.legs ++ [newVoiceSpeechLeg chunks]
      legsCh := s.legsCh ++ [s.legs.length] } := by
  have hd := h.handed
  refine ⟨by simp only [List.length_append, List.length_singleton]; omega,?_,h.cur,?_,?_,?_⟩
  · have hlength : s.legs.length + 1 - d = (s.legs.length - d) + 1 := by omega
    have hlast : d + (s.legs.length - d) = s.legs.length := by omega
    simp only [List.length_append, List.length_singleton]
    rw [hlength, List.range'_concat, one_mul, hlast, h.queue]
  · intro j l hl hj hcur
    obtain hl | ⟨rfl,-⟩ := get_append_cases hl
    · exact h.passed j l hl hj hcur
    · exact absurd hj (by omega)
  · intro j l hl hj
    obtain hl | ⟨rfl,rfl⟩ := get_append_cases hl
    · exact h.untaken j l hl hj
    · exact hnext
  · intro hreturned
    have hclosed := (h.returned hreturned).1
    simp [State.legsClosed, hloop] at hclosed

theorem Streamed.hand (h : Streamed S d s) (hpos : Position S d s) : Streamed S d { s with
      loop := .starting s.legs.length
      legs := s.legs ++ [newVoiceSpeechLeg chunks]
      legsCh := s.legsCh ++ [s.legs.length] } := by
  refine ⟨h.numbered,h.seq,?_⟩
  rw [← h.whole]
  congr 2
  refine outstanding_congr (fun j m hcur hm => ?_) (fun j hcur => hpos.cur_lt hcur)
  exact ⟨m,by rw [List.getElem?_append_left (get_lt hm), hm],rfl⟩

theorem Position.take (h : Position S d s) (hcur : s.relay.cur = none) (hqueue : s.legsCh = d::rest)
    (hreturned : s.relay.returned = false) :
    Position S (d+1) { s with legsCh := rest, relay := { s.relay with cur := some d } } := by
  obtain ⟨-,hlt,hrest⟩ := h.front hqueue
  refine ⟨hlt,hrest,?_,?_,?_,?_⟩
  · intro k hk
    cases hk
    rfl
  · intro j l hl hj hne
    have hjd : j ≠ d := fun hjd => hne (by rw [hjd])
    exact h.passed j l hl (by omega) (by simp [hcur])
  · intro j l hl hj
    exact h.untaken j l hl (by omega)
  · intro hr
    exact absurd (hr.symm.trans hreturned) (by decide)

theorem Streamed.take (h : Streamed S d s) (hpos : Position S d s) (hcur : s.relay.cur = none)
    (hqueue : s.legsCh = d::rest) :
    Streamed S (d+1) { s with legsCh := rest, relay := { s.relay with cur := some d } } := by
  obtain ⟨-,hlt,-⟩ := hpos.front hqueue
  have hl := List.getElem?_eq_getElem hlt
  refine ⟨h.numbered,h.seq,?_⟩
  rw [← h.whole, outstanding_of_none hcur, List.append_nil,
    scriptFrom_drop (hpos.untaken d _ hl le_rfl), ← List.append_assoc]
  congr 2
  exact outstanding_of_cur rfl hl

theorem Position.deliver {a : Chunk} {rest : List Chunk} (h : Position S d s)
    (hcur : s.relay.cur = some k) : Position S d { s with
      legs := s.legs.set k { l with audioCh := rest }
      relay := s.relay.deliver k a } := by
  have hk := h.cur k hcur
  refine ⟨by simpa using h.handed,by simpa using h.queue,h.cur,?_,?_,?_⟩
  · intro j m hm hj hne
    obtain ⟨rfl,rfl⟩ | ⟨-,hm⟩ := get_set_cases hm
    · exact absurd hcur hne
    · exact h.passed j m hm hj hne
  · intro j m hm hj
    obtain ⟨rfl,rfl⟩ | ⟨-,hm⟩ := get_set_cases hm
    · exact absurd hj (by omega)
    · exact h.untaken j m hm hj
  · intro hreturned
    have hnone := (h.returned hreturned).2.1
    rw [hcur] at hnone
    cases hnone

theorem Streamed.deliver {a : Chunk} {rest : List Chunk} (h : Streamed S d s)
    (hcur : s.relay.cur = some k) (hl : s.legs[k]? = some l) (haudio : l.audioCh = a::rest) :
    Streamed S d { s with
      legs := s.legs.set k { l with audioCh := rest }
      relay := s.relay.deliver k a } := by
  refine ⟨?_,?_,?_⟩
  · simp [Relay.deliver, h.numbered, h.seq, List.range_succ]
  · simp [Relay.deliver, h.seq]
  · have hleft : outstanding { s with
          legs := s.legs.set k { l with audioCh := rest }
          relay := s.relay.deliver k a } = (rest ++ l.pending).map (Prod.mk k) := by
      simp only [outstanding, Relay.deliver, hcur, get_set_same hl]
    rw [← h.whole, outstanding_of_cur hcur hl, hleft, spoken_deliver, haudio]
    simp

theorem Position.next (h : Position S d s) (hcur : s.relay.cur = some k) (hl : s.legs[k]? = some l)
    (haudio : l.audioCh = []) (hclosed : l.stage.audioClosed = true) :
    Position S d { s with relay := { s.relay with cur := none } } := by
  refine ⟨h.handed,h.queue,by simp,?_,h.untaken,?_⟩
  · intro j m hm hj _
    by_cases hjk : k = j
    · subst hjk
      rw [hl, some.injEq] at hm
      exact ⟨hm ▸ hclosed,hm ▸ haudio⟩
    · exact h.passed j m hm hj (by simpa [hcur] using hjk)
  · intro hreturned
    obtain ⟨hended,-,hd⟩ := h.returned hreturned
    exact ⟨hended,rfl,hd⟩

theorem Streamed.next (h : Streamed S d s) (hcur : s.relay.cur = some k) (hl : s.legs[k]? = some l)
    (haudio : l.audioCh = []) (hended : l.pending = []) :
    Streamed S d { s with relay := { s.relay with cur := none } } := by
  refine ⟨h.numbered,h.seq,?_⟩
  have hnothing : outstanding s = [] := by
    rw [outstanding_of_cur hcur hl, haudio, hended]
    rfl
  rw [← h.whole, hnothing, outstanding_of_none rfl]
  rfl

theorem Position.gap (h : Position S d s) (rate : ℤ) (k : ℕ) :
    Position S d { s with relay := s.relay.fillGap S.encodeToString rate k } := by
  obtain ⟨hcur,hreturned,-⟩ := fillGap_spec S.encodeToString s.relay rate k
  refine ⟨h.handed,h.queue,?_,?_,h.untaken,?_⟩
  · simpa only [hcur] using h.cur
  · simpa only [hcur] using h.passed
  · intro hr
    obtain ⟨hclosed,hnone,hd⟩ := h.returned (hreturned.symm.trans hr)
    exact ⟨hclosed,hcur.trans hnone,hd⟩

theorem Streamed.gap (h : Streamed S d s) (rate : ℤ) (k : ℕ) :
    Streamed S d { s with relay := s.relay.fillGap S.encodeToString rate k } := by
  obtain ⟨hcur,-,hframes⟩ := fillGap_spec S.encodeToString s.relay rate k
  refine ⟨?_,?_,?_⟩
  · obtain ⟨hpublished,-⟩ | ⟨data,hpublished,-⟩ := hframes
    · simpa only [hpublished] using h.numbered
    · simp [hpublished, h.numbered, h.seq, List.range_succ]
  · obtain ⟨hpublished,hseq⟩ | ⟨data,hpublished,hseq⟩ := hframes
    · simpa only [hpublished, hseq] using h.seq
    · simp [hpublished, hseq, h.seq]
  · rw [spoken_fillGap, ← h.whole]
    simp only [outstanding, hcur]

end Relaying

/-! ## Runs -/

structure Kept (S : VoiceRun) (s : State) : Prop where
  line : Line S s.legs
  launched : Launched S s
  relayed : ∃ d, Position S d s ∧ Streamed S d s

section Run
variable {S : VoiceRun} {s t : State}

theorem kept_init (S : VoiceRun) : Kept S {} := by
  refine ⟨⟨by simp,by simp,by simp [held]⟩,?_,0,?_,?_⟩
  · exact ⟨zero_le _,by simp,by simp,by simp [State.legsClosed],by simp⟩
  · exact ⟨le_rfl,rfl,by simp,by simp,by simp,by simp⟩
  · exact ⟨rfl,rfl,rfl⟩

/-- What a step of the loop between two legs leaves to the relay. -/
theorem Position.loop {loop : Loop} (h : Position S d s)
    (hclosed : s.legsClosed = true → ({ s with loop } : State).legsClosed = true) :
    Position S d { s with loop } := by
  refine ⟨h.handed,h.queue,h.cur,h.passed,h.untaken,fun hreturned => ?_⟩
  obtain ⟨hended,hrest⟩ := h.returned hreturned
  exact ⟨hclosed hended,hrest⟩

theorem Kept.relayed_move (h : Kept S s) (hmove : Move S s t) :
    ∃ d, Position S d t ∧ Streamed S d t := by
  obtain ⟨d,hpos,hstream⟩ := h.relayed
  cases hmove with
  | hand chunks hloop hnext => exact ⟨d,hpos.hand hloop hnext,hstream.hand hpos⟩
  | start k l hloop hl =>
    obtain ⟨-,m,hm,hcreated⟩ := h.launched.starting k hloop
    rw [hl, some.injEq] at hm
    have hstep := advanced_start true true l (hm ▸ hcreated)
    exact ⟨d,hpos.set hl hstep (by simp [State.legsClosed, hloop]),hstream.set hpos hl hstep⟩
  | close hloop hnext =>
    exact ⟨d,hpos.loop fun _ => rfl,hstream.numbered,hstream.seq,hstream.whole⟩
  | join n l hloop hl hresult =>
    exact ⟨d,hpos.loop fun _ => rfl,hstream.numbered,hstream.seq,hstream.whole⟩
  | wait n hloop hl hreturned =>
    exact ⟨d,hpos.loop fun _ => rfl,hstream.numbered,hstream.seq,hstream.whole⟩
  | leg k l l' hl hcreated hstep =>
    exact ⟨d,hpos.set hl hstep fun _ => rfl,hstream.set hpos hl hstep⟩
  | take k rest hcur hqueue hreturned =>
    obtain ⟨rfl,-,-⟩ := hpos.front hqueue
    exact ⟨k+1,hpos.take hcur hqueue hreturned,hstream.take hpos hcur hqueue⟩
  | finish hcur hqueue hclosed =>
    refine ⟨d,⟨hpos.handed,hpos.queue,hpos.cur,hpos.passed,hpos.untaken,fun _ => ?_⟩,
      hstream.numbered,hstream.seq,hstream.whole⟩
    exact ⟨hclosed,hcur,hpos.emptied hqueue⟩
  | deliver k l a rest hcur hl haudio =>
    exact ⟨d,hpos.deliver hcur,hstream.deliver hcur hl haudio⟩
  | next k l hcur hl haudio hclosed =>
    exact ⟨d,hpos.next hcur hl haudio hclosed,
      hstream.next hcur hl haudio (h.line.ended k l hl hclosed)⟩
  | gap rate k => exact ⟨d,hpos.gap rate k,hstream.gap rate k⟩

theorem Kept.move (h : Kept S s) (hmove : Move S s t) : Kept S t :=
  ⟨h.line.move h.launched hmove,h.launched.move hmove,h.relayed_move hmove⟩

theorem kept_of_reachable (h : Reachable S s) : Kept S s := by
  refine invariant_of_step (Kept S) (fun s (hs : s = {}) => hs ▸ kept_init S) ?_ {} s rfl h
  rintro s t ⟨a,ha⟩ hs
  exact hs.move (move_of_step ha)

/-! ## No run stands still -/

def CanStep (S : VoiceRun) (s : State) : Prop := ∃ a, a ≠ .tick ∧ (step S s a).isSome = true

theorem canStep_leg (hl : s.legs[k]? = some l)
    (h : (l.advance S.voiceSectionAudioQueue (after s.legs k)
      (decide (held s.legs < S.slots))).isSome = true) : CanStep S s := by
  refine ⟨.leg k,by simp,?_⟩
  obtain ⟨l',hl'⟩ := isSome_iff_exists.mp h
  simp [step, stepLeg, hl, hl']

theorem exists_held (h : 0 < held s.legs) :
    ∃ (j : ℕ) (l : Leg), s.legs[j]? = some l ∧ l.stage.holdsSlot = true := by
  obtain ⟨l,hmem,hholds⟩ := List.countP_pos_iff.mp h
  obtain ⟨j,hj,rfl⟩ := List.getElem_of_mem hmem
  exact ⟨j,_,List.getElem?_eq_getElem hj,hholds⟩

/-- A leg that has closed its channel has only its report and its release ahead. -/
theorem canStep_of_closed (hl : s.legs[k]? = some l) (hclosed : l.stage.audioClosed = true)
    (hleft : l.stage ≠ .released) : CanStep S s := by
  refine canStep_leg hl ?_
  obtain ⟨stage,pending,audioCh⟩ := l
  cases stage <;> simp_all [Leg.advance, Stage.audioClosed]

/-- The leg the relay waits for gets its slot: an earlier leg that holds one has
closed its channel, and a later one has not had its turn. -/
theorem canStep_of_slot (h : Kept S s) (hpos : Position S d s) (hcur : s.relay.cur = some k)
    (hl : s.legs[k]? = some l) (hstage : l.stage = .slot) : CanStep S s := by
  by_cases hfree : held s.legs < S.slots
  · refine canStep_leg hl ?_
    simp [Leg.advance, hstage, hfree]
  have hslots : 1 ≤ S.slots := le_max_right _ _
  obtain ⟨j,m,hm,hholds⟩ := exists_held (s := s) (by omega)
  obtain hjk | rfl | hkj := lt_trichotomy j k
  · have hne : s.relay.cur ≠ some j := by
      rw [hcur, Ne, some.injEq]
      omega
    have hk := hpos.cur k hcur
    obtain ⟨hclosed,-⟩ := hpos.passed j m hm (by omega) hne
    refine canStep_of_closed hm hclosed ?_
    intro hreleased
    simp [hreleased, Stage.holdsSlot] at hholds
  · rw [hl, some.injEq] at hm
    simp [← hm, hstage, Stage.holdsSlot] at hholds
  · have hturned : m.stage.turned = true := by
      cases hs : m.stage <;> simp [hs, Stage.holdsSlot, Stage.turned] at hholds ⊢
    have hsettled := h.line.ordered k j l m hl hm hkj hturned
    simp [hstage, Stage.settled] at hsettled

theorem after_of_passed (hpos : Position S d s) (hcur : s.relay.cur = some k) :
    after s.legs k = true := by
  have hk := hpos.cur k hcur
  have hd := hpos.handed
  cases k with
  | zero => rfl
  | succ k =>
    have hl := List.getElem?_eq_getElem (show k < s.legs.length by omega)
    have hne : s.relay.cur ≠ some k := by simp [hcur]
    obtain ⟨hclosed,-⟩ := hpos.passed k _ hl (by omega) hne
    simp only [after, hl]
    cases hs : s.legs[k].stage <;> simp [hs, Stage.audioClosed, Stage.settled] at hclosed ⊢

theorem canStep_llm_starting (h : Launched S s) (hloop : s.loop = .starting k) : CanStep S s := by
  obtain ⟨-,l,hl,-⟩ := h.starting k hloop
  exact ⟨.llm,by simp,by simp [step, stepLLM, hloop, hl]⟩

/-- The relay or the leg it waits for can go on. -/
theorem canStep_of_cur (h : Kept S s) (hpos : Position S d s) (hcur : s.relay.cur = some k) :
    CanStep S s := by
  obtain ⟨l,hl⟩ : ∃ l, s.legs[k]? = some l := ⟨_,List.getElem?_eq_getElem (hpos.cur_lt hcur)⟩
  have hreturned : s.relay.returned = false := by
    cases hr : s.relay.returned with
    | false => rfl
    | true => exact absurd (hcur.symm.trans (hpos.returned hr).2.1) (some_ne_none k)
  cases haudio : l.audioCh with
  | cons a rest =>
    exact ⟨.relay,by simp,by simp [step, stepRelay, hreturned, hcur, hl, haudio]⟩
  | nil =>
    cases hstage : l.stage with
    | created => exact canStep_llm_starting h.launched (h.launched.created k l hl hstage)
    | turn => exact canStep_leg hl (by simp [Leg.advance, hstage, after_of_passed hpos hcur])
    | slot => exact canStep_of_slot h hpos hcur hl hstage
    | held => exact canStep_leg hl (by simp [Leg.advance, hstage])
    | speaking =>
      -- its channel is empty, so the next chunk has room
      refine canStep_leg hl ?_
      cases hpending : l.pending with
      | nil => simp [Leg.advance, hstage, hpending]
      | cons c rest => simp [Leg.advance, hstage, hpending, haudio, S.audioQueue_pos]
    | closed | reported | released =>
      refine ⟨.relay,by simp,?_⟩
      simp [step, stepRelay, hreturned, hcur, hl, haudio, hstage, Stage.audioClosed]

theorem canStep_of_legs (h : Kept S s) (hpos : Position S d s)
    (hreturned : s.relay.returned = false) (hfeed : s.legsCh ≠ [] ∨ s.legsClosed = true) :
    CanStep S s := by
  cases hcur : s.relay.cur with
  | some k => exact canStep_of_cur h hpos hcur
  | none =>
    refine ⟨.relay,by simp,?_⟩
    cases hqueue : s.legsCh with
    | cons k rest => simp [step, stepRelay, hreturned, hcur, hqueue]
    | nil =>
      obtain hne | hclosed := hfeed
      · exact absurd hqueue hne
      · simp [step, stepRelay, hreturned, hcur, hqueue, hclosed]

theorem Kept.canStep (h : Kept S s) (hloop : s.loop ≠ .joined) : CanStep S s := by
  obtain ⟨d,hpos,-⟩ := h.relayed
  cases hl : s.loop with
  | joined => exact absurd hl hloop
  | starting k => exact canStep_llm_starting h.launched hl
  | scanning =>
    cases hnext : S.sections[s.legs.length]? with
    | none => exact ⟨.llm,by simp,by simp [step, stepLLM, hl, hnext]⟩
    | some chunks =>
      by_cases hroom : s.legsCh.length < S.voiceSectionQueue
      · exact ⟨.llm,by simp,by simp [step, stepLLM, hl, hnext, hroom]⟩
      have hpositive := S.sectionQueue_pos
      refine canStep_of_legs h hpos ?_ (.inl (List.ne_nil_of_length_pos (by omega)))
      cases hr : s.relay.returned with
      | false => rfl
      | true =>
        have hclosed := (hpos.returned hr).1
        simp [State.legsClosed, hl] at hclosed
  | joining n =>
    cases hr : s.relay.returned with
    | false => exact canStep_of_legs h hpos hr (.inr (by simp [State.legsClosed, hl]))
    | true =>
      cases hleg : s.legs[n]? with
      | none => exact ⟨.llm,by simp,by simp [step, stepLLM, hl, hleg, hr]⟩
      | some l =>
        by_cases hresult : l.stage.hasResult = true
        · exact ⟨.llm,by simp,by simp [step, stepLLM, hl, hleg, hresult]⟩
        obtain ⟨-,hcur,hd⟩ := hpos.returned hr
        have hclosed := (hpos.passed n l hleg (hd ▸ get_lt hleg) (by simp [hcur])).1
        refine canStep_of_closed hleg hclosed ?_
        intro hreleased
        simp [hreleased, Stage.hasResult] at hresult

end Run

/-! ## The result -/

/-- In every state an interleaving can reach, no more legs hold a slot than the
run allows and, until all are joined, some goroutine can go on without the
timer. The published frames are numbered from zero; those that are not silence
are the chunks of the script up to some point, and all of it once the relay has
returned, as it has when the legs are joined. -/
theorem sections_relay_in_order (S : VoiceRun) (s : State) (h : Reachable S s) :
    held s.legs ≤ S.limit ∧ (s.loop ≠ .joined → ∃ a, a ≠ .tick ∧ (step S s a).isSome = true) ∧
      s.relay.published.map Frame.seq = List.range s.relay.published.length ∧
      spoken s.relay <+: script S ∧ (s.loop = .joined → s.relay.returned = true) ∧
      (s.relay.returned = true → spoken s.relay = script S) := by
  have hkept := kept_of_reachable h
  obtain ⟨d,hpos,hstream⟩ := hkept.relayed
  have hslots : S.slots = S.limit := max_eq_left S.limit_pos
  refine ⟨hslots ▸ hkept.line.within,hkept.canStep,hstream.numbered,?_,hkept.launched.joined,?_⟩
  · exact ⟨outstanding s ++ scriptFrom d (S.sections.drop d),by
      rw [← hstream.whole, List.append_assoc]⟩
  · intro hreturned
    obtain ⟨hclosed,hcur,hd⟩ := hpos.returned hreturned
    have hlength := hkept.launched.closed hclosed
    have hwhole := hstream.whole
    rw [outstanding_of_none hcur, List.append_nil, List.drop_eq_nil_of_le (by omega)] at hwhole
    simpa [scriptFrom] using hwhole

def twoSections : VoiceRun where
  sections := [[⟨16000,"AAEC"⟩,⟨16000,"AwQF"⟩],[⟨16000,"BgcI"⟩]]
  limit := 1
  voiceSectionQueue := 1
  voiceSectionAudioQueue := 1
  fallbackRate := 0
  silenceEnabled := true
  encodeToString bytes := if bytes.isEmpty then "" else "AAAA"
  limit_pos := by decide
  sectionQueue_pos := by decide
  audioQueue_pos := by decide

def twoSectionsRun : List Act :=
  [.llm,.relay,.llm,.leg 0,.leg 0,.leg 0,.leg 0,.llm,.llm,.relay,.leg 0,.relay,.leg 0,.leg 1,.relay,
    .tick,.relay,.leg 0,.leg 0,.leg 1,.leg 1,.leg 1,.relay,.leg 1,.leg 1,.leg 1,.relay,.llm,.llm,
    .llm,.relay,.llm]

theorem sections_relay_in_order_two :
    ∃ s, Reachable twoSections s ∧ s.loop = .joined ∧ s.relay.published.length = 4 ∧
      spoken s.relay = script twoSections := by
  have hs := reaches_play (step twoSections) {} twoSectionsRun
  obtain ⟨-,-,-,-,-,hall⟩ := sections_relay_in_order twoSections _ hs
  exact ⟨_,hs,by decide +kernel,by decide +kernel,hall (by decide +kernel)⟩

end OnPremGateway.VoiceOrder
