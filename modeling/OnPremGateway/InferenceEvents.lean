import OnPremGateway.RuntimeTypes

/-!
# What a provider streams and what a client is sent

A provider yields text and reasoning deltas, assembled tool calls and one
completion. Each translated stream is written frame by frame; a write that
fails leaves no frame behind. How a stream ended is read off the provider's
error and what the session knows of the client.
-/

set_option autoImplicit false

namespace OnPremGateway.InferenceEvents
open RuntimeTypes List

structure ToolCall where
  id : String := ""
  name : String := ""
  arguments : String := ""
  deriving DecidableEq, Repr

structure Usage where
  inputTokens : ℤ := 0
  outputTokens : ℤ := 0
  totalTokens : ℤ := 0
  cachedTokens : ℤ := 0
  deriving DecidableEq, Repr

inductive StreamEvent where
  | textDelta (text reasoning : String)
  | toolCall (call : Option ToolCall)
  | completed (usage : Option Usage) (finishReason : String)
  | other
  deriving DecidableEq, Repr

def argumentsOrEmpty (args : String) : String := if trimSpace args = "" then "\x7b\x7d" else args

theorem trimSpace_eq_empty_iff (s : String) :
    trimSpace s = "" ↔ ∀ c ∈ s.toList, isSpace c = true := by
  have hnil : ∀ cs : List Char, String.ofList cs = "" ↔ cs = [] := by
    intro cs
    constructor
    · intro h
      rw [← String.toList_ofList (l := cs), h]
      rfl
    · rintro rfl
      rfl
  rw [trimSpace, hnil, reverse_eq_nil_iff, dropWhile_eq_nil_iff]
  simp only [mem_reverse]
  constructor
  · intro h
    -- what is left starts with no space, so nothing is left
    rw [← dropWhile_eq_nil_iff]
    by_contra hne
    have hhead := head_dropWhile_not isSpace hne
    rw [h _ (head_mem hne)] at hhead
    cases hhead
  · intro h c hc
    rw [dropWhile_eq_nil_iff.mpr h] at hc
    cases hc

theorem argumentsOrEmpty_eq_iff (args : String) :
    argumentsOrEmpty args = args ↔ trimSpace args ≠ "" := by
  rw [argumentsOrEmpty]
  split_ifs with h
  · constructor
    · intro heq
      rw [← heq] at h
      exact absurd h (by decide)
    · exact fun hne => absurd h hne
  · exact ⟨fun _ => h,fun _ => rfl⟩

/-- A delta with text or reasoning, or both. -/
structure Chunk where
  text : String := ""
  reasoning : String := ""
  deriving DecidableEq, Repr

def Chunk.event (d : Chunk) : StreamEvent := .textDelta d.text d.reasoning

/-- A stream that ends well: deltas, then tool calls, then the completion. -/
def providerEvents (chunks : List Chunk) (calls : List ToolCall) (usage : Option Usage)
    (finishReason : String) : List StreamEvent :=
  chunks.map Chunk.event ++ (calls.map (fun tc => .toolCall (some tc)) ++
    [.completed usage finishReason])

/-! ### The connection -/

structure Wire (F : Type) where
  fails : ℕ → Bool
  sent : List F := []
  tried : ℕ := 0

def Wire.emit {F : Type} (w : Wire F) (f : F) : Wire F :=
  { w with sent := if w.fails w.tried then w.sent else w.sent ++ [f], tried := w.tried+1 }

def Wire.broken {F : Type} (w : Wire F) : Bool := w.fails w.tried

def Wire.Sound {F : Type} (w : Wire F) : Prop := ∀ n, w.fails n = false

section Wire
variable {F : Type} {w : Wire F}

theorem Wire.Sound.sent_emit (h : w.Sound) (f : F) : (w.emit f).sent = w.sent ++ [f] := by
  simp [Wire.emit, h w.tried]

theorem Wire.Sound.emit (h : w.Sound) (f : F) : (w.emit f).Sound := h

theorem Wire.Sound.broken (h : w.Sound) : w.broken = false := h w.tried

def Wire.Extends (w w' : Wire F) : Prop := w'.fails = w.fails ∧ ∃ fs, w'.sent = w.sent ++ fs

theorem Wire.Extends.refl (w : Wire F) : w.Extends w := ⟨rfl,[],(append_nil _).symm⟩

theorem Wire.Extends.trans {w w' w'' : Wire F} (h : w.Extends w') (h' : w'.Extends w'') :
    w.Extends w'' := by
  obtain ⟨hf,fs,hs⟩ := h
  obtain ⟨hf',gs,hs'⟩ := h'
  exact ⟨hf'.trans hf,fs ++ gs,by rw [hs', hs, append_assoc]⟩

theorem Wire.Extends.emit {w' : Wire F} (h : w.Extends w') (f : F) : w.Extends (w'.emit f) := by
  apply h.trans
  refine ⟨rfl,if w'.fails w'.tried then [] else [f],?_⟩
  rw [Wire.emit]
  split_ifs
  · exact (append_nil _).symm
  · rfl

theorem Wire.Extends.sound {w' : Wire F} (h : w.Extends w') (hs : w.Sound) : w'.Sound := by
  intro n
  rw [h.1]
  exact hs n

/-- What the frames that went out show, frame by frame. -/
def Wire.shown {β : Type} (g : F → List β) (w : Wire F) : List β := w.sent.flatMap g

theorem Wire.Sound.shown_emit {β : Type} (h : w.Sound) (g : F → List β) (f : F) :
    (w.emit f).shown g = w.shown g ++ g f := by
  rw [Wire.shown, h.sent_emit, flatMap_append, flatMap_singleton]
  rfl

theorem Wire.shown_emit_silent {β : Type} (g : F → List β) (f : F) (hf : g f = []) :
    (w.emit f).shown g = w.shown g := by
  rw [Wire.shown, Wire.emit, Wire.shown]
  split_ifs
  · rfl
  · rw [flatMap_append, flatMap_singleton, hf, append_nil]

end Wire

/-! ### The end of a stream -/

def errCodeStreamIdleTimeout : String := "provider.stream_idle_timeout"
def errCodeClientDisconnected : String := "provider.client_disconnected"
def errUnavailable : String := "provider.unavailable"
def msgStreamIdleTimeout : String := "stream idle timeout"
def msgProviderError : String := "provider error"

/-- The code of the error the provider returned, if any, and whether the idle
watchdog fired and the client is gone. -/
structure Ending where
  providerError : Option String := none
  idledOut : Bool := false
  contextDone : Bool := false
  deriving DecidableEq, Repr

def Ending.clientGone (e : Ending) : Bool := e.contextDone && !e.idledOut

def terminalStatus (streamErr : Option String) (e : Ending) : String :=
  match streamErr with
  | none => ""
  | some code =>
    if e.idledOut then errCodeStreamIdleTimeout
    else if e.clientGone then errCodeClientDisconnected
    else code

def handleEvents {σ : Type} (handle : σ → StreamEvent → σ × Bool) : σ → List StreamEvent → σ × Bool
  | s, [] => (s, false)
  | s, ev::evs =>
    match handle s ev with
    | (s, true) => (s, true)
    | (s, false) => handleEvents handle s evs

theorem handleEvents_cons {σ : Type} (handle : σ → StreamEvent → σ × Bool) (s : σ)
    (ev : StreamEvent) (evs : List StreamEvent) (h : (handle s ev).2 = false) :
    handleEvents handle s (ev::evs) = handleEvents handle (handle s ev).1 evs := by
  rw [handleEvents]
  generalize handle s ev = res at h ⊢
  obtain ⟨s',failed⟩ := res
  subst h
  rfl

theorem handleEvents_append {σ : Type} (handle : σ → StreamEvent → σ × Bool) (s t : σ)
    (evs more : List StreamEvent) (h : handleEvents handle s evs = (t, false)) :
    handleEvents handle s (evs ++ more) = handleEvents handle t more := by
  induction evs generalizing s with
  | nil =>
    cases h
    rfl
  | cons ev evs ih =>
    have hok : (handle s ev).2 = false := by
      rw [handleEvents] at h
      rcases hres : handle s ev with ⟨s',failed⟩
      rw [hres] at h
      cases failed with
      | true => cases h
      | false => rfl
    rw [handleEvents_cons handle s ev evs hok] at h
    rw [cons_append, handleEvents_cons handle s ev _ hok]
    exact ih _ h

section Provider
variable {σ κ : Type} {handle : σ → StreamEvent → σ × Bool}

/-- What each event of a list establishes holds after the list. -/
theorem handleEvents_map {ε : Type} (event : ε → StreamEvent) (next : κ → ε → κ)
    (P : κ → σ → Prop)
    (hstep : ∀ k s e, P k s → (handle s (event e)).2 = false ∧ P (next k e) (handle s (event e)).1)
    (k : κ) (s : σ) (h : P k s) (es : List ε) :
    ∃ t, handleEvents handle s (es.map event) = (t, false) ∧ P (es.foldl next k) t := by
  induction es generalizing k s with
  | nil => exact ⟨s,rfl,h⟩
  | cons e es ih =>
    obtain ⟨hok,he⟩ := hstep k s e h
    obtain ⟨t,ht,hP⟩ := ih _ _ he
    refine ⟨t,?_,hP⟩
    rw [map_cons, handleEvents_cons _ _ _ _ hok]
    exact ht

/-- A property of the writer that follows the deltas and the calls holds at the
end of a stream that ends well. -/
theorem handleEvents_provider (next : κ → Chunk → κ) (P : κ → List ToolCall → σ → Prop)
    (hchunk : ∀ k s d, P k [] s →
      (handle s (Chunk.event d)).2 = false ∧ P (next k d) [] (handle s (Chunk.event d)).1)
    (hcall : ∀ k calls s tc, P k calls s → (handle s (.toolCall (some tc))).2 = false ∧
      P k (calls ++ [tc]) (handle s (.toolCall (some tc))).1)
    (hdone : ∀ k calls s usage finish, P k calls s → (handle s (.completed usage finish)).2 = false ∧
      P k calls (handle s (.completed usage finish)).1)
    (k : κ) (s : σ) (h : P k [] s) (chunks : List Chunk) (calls : List ToolCall)
    (usage : Option Usage) (finish : String) :
    ∃ t, handleEvents handle s (providerEvents chunks calls usage finish) = (t, false) ∧
      P (chunks.foldl next k) calls t := by
  obtain ⟨t,ht,hP⟩ := handleEvents_map Chunk.event next (fun k s => P k [] s) hchunk k s h chunks
  obtain ⟨u,hu,hPu⟩ := handleEvents_map (fun tc => .toolCall (some tc)) (fun l tc => l ++ [tc])
    (fun l s => P (chunks.foldl next k) l s) (fun l s tc => hcall _ l s tc) [] t hP calls
  rw [foldl_append_eq_append, nil_append, ← flatMap_def, flatMap_singleton'] at hPu
  obtain ⟨hok,hlast⟩ := hdone _ calls u usage finish hPu
  refine ⟨_,?_,hlast⟩
  rw [providerEvents, handleEvents_append _ _ _ _ _ ht, handleEvents_append _ _ _ _ _ hu,
    handleEvents_cons _ _ _ _ hok]
  rfl

end Provider

def streamError (failed : Bool) (e : Ending) : Option String :=
  if failed then some errUnavailable else e.providerError

end OnPremGateway.InferenceEvents
