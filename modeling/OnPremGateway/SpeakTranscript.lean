import OnPremGateway.SpeakVerdicts

/-!
# What the scanner publishes and captures

The answer read as a whole, byte by byte, says what the clean text and the regions
are. Whatever deltas the answer arrives in, the scanner publishes and captures that:
a verdict on a possible tag never changes once it is given, and the runes counted with
an incomplete one kept back are those of the whole clean text.
-/

set_option autoImplicit false

namespace OnPremGateway.SpeakTranscript
open Utf8Runes SpeakTags SpeakVerdicts Nat

/-! ### The answer as a whole -/

structure Transcript extends Capture where
  clean : Bytes := []

def Transcript.put (t : Transcript) (text : Bytes) : Transcript :=
  { toCapture := t.toCapture.write text
    clean := t.clean ++ text }

def Transcript.tag (t : Transcript) (tag : SpeakTag) : Transcript :=
  { t with
    toCapture :=
      match tag.kind with
      | .speakTagOpen => t.toCapture.openTag tag.attrs (runeCount t.clean)
      | .speakTagSelfClosing => t.toCapture.selfClosingTag tag.attrs
      | _ => t.toCapture.finishRegion }

/-- Reads on after `skip` bytes, up to a tag that is not finished, which is left. -/
def readFrom : ℕ → Transcript → Bytes → Transcript × Bytes
  | _, t, [] => (t,[])
  | skip+1, t, _::rest => readFrom skip t rest
  | 0, t, c::rest =>
    if c ≠ 60 then readFrom 0 (t.put [c]) rest
    else if isTag (matchSpeakTag (c::rest)).kind then
      readFrom ((matchSpeakTag (c::rest)).n-1) (t.tag (matchSpeakTag (c::rest))) rest
    else if (matchSpeakTag (c::rest)).kind = .speakTagPartial then (t,c::rest)
    else readFrom 0 (t.put [c]) rest

/-- The end of the answer: an unfinished tag is text, but an unfinished close tag is
not captured. -/
def finish (read : Transcript × Bytes) : Transcript where
  toCapture :=
    if read.1.isOpen && isPartialSpeakClose read.2 then read.1.toCapture.finishRegion
    else (read.1.toCapture.write read.2).finishRegion
  clean := read.1.clean ++ read.2

theorem readFrom_drop (skip : ℕ) (t : Transcript) (s : Bytes) :
    readFrom skip t s = readFrom 0 t (s.drop skip) := by
  induction skip generalizing s with
  | zero => rfl
  | succ skip ih =>
    cases s with
    | nil => rfl
    | cons c s => exact ih s

/-- Reading can stop anywhere and go on with what was left. -/
theorem readFrom_append (x y : Bytes) (skip : ℕ) (t : Transcript) (hskip : skip ≤ x.length) :
    readFrom skip t (x ++ y) = readFrom 0 (readFrom skip t x).1 ((readFrom skip t x).2 ++ y) := by
  induction x generalizing skip t with
  | nil =>
    rw [le_zero.mp hskip]
    rfl
  | cons c x ih =>
    cases skip with
    | succ skip => exact ih skip t (le_of_succ_le_succ hskip)
    | zero =>
      rw [List.cons_append, readFrom, readFrom]
      by_cases hc : c = 60
      · simp only [hc, ne_eq, not_true_eq_false, if_false]
        by_cases hwaits : (matchSpeakTag (60::x)).kind = .speakTagPartial
        · have hnot : isTag (matchSpeakTag (60::x)).kind = false := by
            rw [hwaits]
            rfl
          rw [hnot, if_neg Bool.false_ne_true, if_pos hwaits]
          dsimp only
          rw [List.cons_append, readFrom]
          simp only [ne_eq, not_true_eq_false, if_false]
        have hsame : matchSpeakTag (60::(x ++ y)) = matchSpeakTag (60::x) := matchSpeakTag_append y hwaits
        rw [hsame]
        by_cases htag : isTag (matchSpeakTag (60::x)).kind
        · obtain ⟨mid,after,hx,hn⟩ := matchSpeakTag_ends htag
          rw [if_pos htag, if_pos htag]
          apply ih
          rw [hn, hx, List.length_append, List.length_cons]
          omega
        · rw [if_neg htag, if_neg htag, if_neg hwaits, if_neg hwaits]
          exact ih 0 _ (zero_le _)
      · simp only [hc, ne_eq, not_false_eq_true, if_true]
        exact ih 0 _ (zero_le _)

theorem put_append (t : Transcript) (a b : Bytes) : t.put (a ++ b) = (t.put a).put b := by
  simp only [Transcript.put, Capture.write]
  split
  · simp
  · simp

theorem put_nil (t : Transcript) : t.put [] = t := by
  simp only [Transcript.put, Capture.write]
  split
  · simp
  · simp

theorem readFrom_text {text : Bytes} (h : ∀ c ∈ text, c ≠ 60) (t : Transcript) (y : Bytes) :
    readFrom 0 t (text ++ y) = readFrom 0 (t.put text) y := by
  induction text generalizing t with
  | nil => rw [put_nil, List.nil_append]
  | cons c text ih =>
    rw [List.cons_append, readFrom, if_pos (h c List.mem_cons_self),
      ih (fun d hd => h d (List.mem_cons_of_mem c hd)), ← put_append]
    rfl

/-- What is left is an unfinished tag. -/
theorem readFrom_left (x : Bytes) (skip : ℕ) (t : Transcript) :
    (readFrom skip t x).2 = [] ∨ ∃ rest, (readFrom skip t x).2 = 60::rest ∧
      (matchSpeakTag (60::rest)).kind = .speakTagPartial := by
  induction x generalizing skip t with
  | nil =>
    cases skip with
    | zero => exact .inl rfl
    | succ skip => exact .inl rfl
  | cons c x ih =>
    cases skip with
    | succ skip => exact ih skip t
    | zero =>
      rw [readFrom]
      split
      · exact ih 0 _
      next hc =>
      rw [not_not] at hc
      subst hc
      split
      · exact ih _ _
      · split
        · next hwaits => exact .inr ⟨x,rfl,hwaits⟩
        · exact ih 0 _

/-! ### The scanner keeps to it -/

structure Tracks (s : SpeakScanner) (t : Transcript) : Prop where
  capture : s.toCapture = t.toCapture
  runes : ∀ x, runeCount (t.clean ++ x) = s.runes+runeCount (s.runeCarry ++ x)

variable {s : SpeakScanner} {t : Transcript} {w : Written} {before : Bytes}

theorem Tracks.emit (h : Tracks s t) (text : Bytes) : Tracks (s.emit text) (t.put text) := by
  rw [SpeakScanner.emit]
  split
  · next hnil =>
    rw [hnil, put_nil]
    exact h
  constructor
  · simp only [SpeakScanner.countRunes, Transcript.put, h.capture]
  · intro x
    simp only [SpeakScanner.countRunes, Transcript.put]
    rw [List.append_assoc, h.runes, ← List.append_assoc, runeCount_take_incompleteAt, add_assoc]

theorem emit_pending (s : SpeakScanner) (text : Bytes) : (s.emit text).pending = s.pending := by
  rw [SpeakScanner.emit]
  split
  · rfl
  · rfl

theorem Tracks.tag (h : Tracks w.scanner t) (tag : SpeakTag) :
    Tracks (w.tag tag).scanner (t.tag tag) := by
  have hoffset : w.scanner.runes+runeCount w.scanner.runeCarry = runeCount t.clean := by
    have hend := h.runes []
    rw [List.append_nil, List.append_nil] at hend
    exact hend.symm
  have hclose : Tracks (if w.scanner.isOpen then
      { w.scanner with toCapture := w.scanner.toCapture.finishRegion } else w.scanner)
      { t with toCapture := t.toCapture.finishRegion } := by
    split
    · exact ⟨congrArg Capture.finishRegion h.capture,h.runes⟩
    next hidle =>
    refine ⟨?_,h.runes⟩
    rw [h.capture] at hidle ⊢
    rw [Capture.finishRegion, if_neg hidle]
  obtain ⟨kind,n,attrs⟩ := tag
  cases kind with
  | speakTagOpen =>
    refine ⟨?_,h.runes⟩
    simp only [Written.tag, SpeakScanner.openTag, Transcript.tag, hoffset, h.capture]
  | speakTagSelfClosing => exact ⟨congrArg (Capture.selfClosingTag · attrs) h.capture,h.runes⟩
  | speakTagClose =>
    rw [Written.tag, Transcript.tag]
    dsimp only
    rw [apply_ite Written.scanner]
    exact hclose
  | speakTagNone =>
    rw [Written.tag, Transcript.tag]
    dsimp only
    rw [apply_ite Written.scanner]
    exact hclose
  | speakTagPartial =>
    rw [Written.tag, Transcript.tag]
    dsimp only
    rw [apply_ite Written.scanner]
    exact hclose

theorem tag_unchanged (w : Written) (tag : SpeakTag) :
    (w.tag tag).clean = w.clean ∧ (w.tag tag).scanner.pending = w.scanner.pending := by
  rw [Written.tag]
  split
  · exact ⟨rfl,rfl⟩
  · exact ⟨rfl,rfl⟩
  · split
    · exact ⟨rfl,rfl⟩
    · exact ⟨rfl,rfl⟩

structure Follows (before : Bytes) (w : Written) (t : Transcript) : Prop where
  tracks : Tracks w.scanner t
  clean : before ++ w.clean = t.clean

theorem Follows.emit (h : Follows before w t) (text : Bytes) :
    Follows before (w.emit text) (t.put text) := by
  refine ⟨h.tracks.emit text,?_⟩
  simp only [Written.emit, Transcript.put]
  rw [← h.clean, List.append_assoc]

theorem Follows.tag (h : Follows before w t) (tag : SpeakTag) :
    Follows before (w.tag tag) (t.tag tag) := by
  refine ⟨h.tracks.tag tag,?_⟩
  rw [(tag_unchanged w tag).1]
  exact h.clean

theorem writeLoop_follows (fuel : ℕ) {input : Bytes} (h : Follows before w t)
    (hpending : w.scanner.pending = []) (hfuel : input.length ≤ fuel) :
    Follows before (writeLoop fuel w input) (readFrom 0 t input).1 ∧
      (writeLoop fuel w input).scanner.pending = (readFrom 0 t input).2 := by
  induction fuel generalizing w t input with
  | zero =>
    rw [List.length_eq_zero_iff.mp (le_zero.mp hfuel)]
    exact ⟨h,hpending⟩
  | succ fuel ih =>
    have htext : ∀ c ∈ input.takeWhile (· ≠ 60), c ≠ 60 := by
      intro c hc
      simpa using List.mem_takeWhile_imp hc
    have hread : readFrom 0 t input =
        readFrom 0 (t.put (input.takeWhile (· ≠ 60))) (input.dropWhile (· ≠ 60)) := by
      rw [← readFrom_text htext, List.takeWhile_append_dropWhile]
    have hemit := h.emit (input.takeWhile (· ≠ 60))
    have hempty : (w.emit (input.takeWhile (· ≠ 60))).scanner.pending = [] :=
      (emit_pending _ _).trans hpending
    rw [writeLoop]
    split
    · next hnil =>
      rw [hnil]
      exact ⟨h,hpending⟩
    rw [hread]
    dsimp only
    cases hrest : input.dropWhile (· ≠ 60) with
    | nil => exact ⟨hemit,hempty⟩
    | cons lt rest =>
      have hlt : lt = 60 := by
        have hne : input.dropWhile (· ≠ 60) ≠ [] := by
          rw [hrest]
          exact List.cons_ne_nil lt rest
        have hhead := List.head_dropWhile_not (· ≠ (60 : UInt8)) hne
        simp only [hrest, List.head_cons] at hhead
        simpa using hhead
      subst hlt
      have hlength : rest.length ≤ fuel := by
        have hle := length_dropWhile_le (· ≠ 60) input
        rw [hrest, List.length_cons] at hle
        omega
      dsimp only
      rw [readFrom]
      simp only [ne_eq, not_true_eq_false, if_false]
      split
      · next hwaits =>
        rw [hwaits]
        exact ⟨⟨⟨hemit.tracks.capture,hemit.tracks.runes⟩,hemit.clean⟩,rfl⟩
      · next hnone =>
        rw [hnone]
        exact ih (hemit.emit [60]) ((emit_pending _ _).trans hempty) hlength
      · next hwaits hnone =>
        have htag : isTag (matchSpeakTag (60::rest)).kind = true := by
          cases hkind : (matchSpeakTag (60::rest)).kind with
          | speakTagNone => exact absurd hkind hnone
          | speakTagPartial => exact absurd hkind hwaits
          | speakTagOpen => rfl
          | speakTagClose => rfl
          | speakTagSelfClosing => rfl
        obtain ⟨mid,after,hmid,hn⟩ := matchSpeakTag_ends htag
        rw [if_pos htag, readFrom_drop, show (60::rest).drop (matchSpeakTag (60::rest)).n =
          rest.drop ((matchSpeakTag (60::rest)).n-1) by rw [hn]; rfl]
        refine ih (hemit.tag _) ((tag_unchanged _ _).2.trans hempty) ?_
        rw [List.length_drop]
        omega

theorem write_follows (h : Tracks s t) (delta : Bytes) :
    Follows t.clean (s.write delta) (readFrom 0 t (s.pending ++ delta)).1 ∧
      (s.write delta).scanner.pending = (readFrom 0 t (s.pending ++ delta)).2 := by
  rw [SpeakScanner.write]
  exact writeLoop_follows _ ⟨⟨h.capture,h.runes⟩,List.append_nil _⟩ rfl le_rfl

/-- What is left stays left until more comes. -/
theorem readFrom_again (x : Bytes) (t : Transcript) :
    readFrom 0 (readFrom 0 t x).1 (readFrom 0 t x).2 = readFrom 0 t x := by
  have happend := readFrom_append x [] 0 t (zero_le _)
  rwa [List.append_nil, List.append_nil, eq_comm] at happend

theorem close_eq (h : Tracks s t) :
    t.clean ++ s.close.2 = (finish (t,s.pending)).clean ∧
    s.close.1.toCapture = (finish (t,s.pending)).toCapture := by
  refine ⟨rfl,?_⟩
  have hemit : (SpeakScanner.emit { s with pending := [] } s.pending).toCapture =
    t.toCapture.write s.pending :=
    (Tracks.emit (s := { s with pending := [] }) ⟨h.capture,h.runes⟩ s.pending).capture
  rw [SpeakScanner.close, finish, ← h.capture]
  dsimp only
  split
  · rfl
  · rw [hemit, h.capture]

/-- Whatever the deltas, the stream comes out as the answer read as a whole. -/
theorem scanStream_eq (deltas : List Bytes) (h : Tracks s t)
    (hleft : readFrom 0 t s.pending = (t,s.pending)) :
    t.clean ++ (scanStream s deltas).1 = (finish (readFrom 0 t (s.pending ++ deltas.flatten))).clean ∧
      (scanStream s deltas).2.toCapture =
      (finish (readFrom 0 t (s.pending ++ deltas.flatten))).toCapture := by
  induction deltas generalizing s t with
  | nil =>
    rw [List.flatten_nil, List.append_nil, hleft]
    exact close_eq h
  | cons delta deltas ih =>
    obtain ⟨hfollows,hpending⟩ := write_follows h delta
    have hagain := readFrom_again (s.pending ++ delta) t
    rw [← hpending] at hagain
    have hrest := ih hfollows.tracks (by rw [hagain, hpending])
    have hwhole : readFrom 0 t (s.pending ++ (delta::deltas).flatten) =
        readFrom 0 (readFrom 0 t (s.pending ++ delta)).1
          ((s.write delta).scanner.pending ++ deltas.flatten) := by
      rw [List.flatten_cons, ← List.append_assoc, readFrom_append _ _ 0 t (zero_le _), hpending]
    rw [hwhole, scanStream, ← List.append_assoc, hfollows.clean]
    exact hrest

def answer (input : Bytes) : Transcript := finish (readFrom 0 {} input)

theorem scanStream_answer (deltas : List Bytes) :
    (scanStream {} deltas).1 = (answer deltas.flatten).clean ∧
      (scanStream {} deltas).2.toCapture = (answer deltas.flatten).toCapture :=
  scanStream_eq deltas (t := {}) ⟨rfl,fun _ => (zero_add _).symm⟩ rfl

/-! ### The clean text -/

/-- The input without its complete tags, each judged on at most 512 bytes from its
`<`. -/
def withoutTagsFrom : ℕ → Bytes → Bytes
  | _, [] => []
  | skip+1, _::rest => withoutTagsFrom skip rest
  | 0, c::rest =>
    if c = 60 ∧ isTag (matchSpeakTag (c::rest)).kind then withoutTagsFrom ((matchSpeakTag (c::rest)).n-1) rest
    else c::withoutTagsFrom 0 rest

def withoutTags (input : Bytes) : Bytes := withoutTagsFrom 0 input

/-- The bytes from the first `<` outside the complete tags that may start a tag which
the input does not finish. -/
def unfinishedFrom : ℕ → Bytes → Bytes
  | _, [] => []
  | skip+1, _::rest => unfinishedFrom skip rest
  | 0, c::rest =>
    if c = 60 ∧ isTag (matchSpeakTag (c::rest)).kind then unfinishedFrom ((matchSpeakTag (c::rest)).n-1) rest
    else if c = 60 ∧ (matchSpeakTag (c::rest)).kind = .speakTagPartial then c::rest
    else unfinishedFrom 0 rest

def unfinished (input : Bytes) : Bytes := unfinishedFrom 0 input

/-- All but what is left has its complete tags taken out. -/
theorem readFrom_clean (x : Bytes) (skip : ℕ) (t : Transcript) :
    ∃ front, (readFrom skip t x).1.clean = t.clean ++ front ∧ (readFrom skip t x).2 = unfinishedFrom skip x ∧
      withoutTagsFrom skip x = front ++ withoutTags (unfinishedFrom skip x) := by
  induction x generalizing skip t with
  | nil =>
    cases skip with
    | zero => exact ⟨[],(List.append_nil _).symm,rfl,rfl⟩
    | succ skip => exact ⟨[],(List.append_nil _).symm,rfl,rfl⟩
  | cons c x ih =>
    cases skip with
    | succ skip => exact ih skip t
    | zero =>
      have hput : ∃ front, (readFrom 0 (t.put [c]) x).1.clean = t.clean ++ front ∧
          (readFrom 0 (t.put [c]) x).2 = unfinishedFrom 0 x ∧
          c::withoutTagsFrom 0 x = front ++ withoutTags (unfinishedFrom 0 x) := by
        obtain ⟨front,hclean,hleft,hwithout⟩ := ih 0 (t.put [c])
        refine ⟨c::front,?_,hleft,by rw [hwithout]; rfl⟩
        rw [hclean, Transcript.put, List.append_assoc]
        rfl
      rw [readFrom, withoutTagsFrom, unfinishedFrom]
      by_cases hc : c = 60
      · by_cases htag : isTag (matchSpeakTag (c::x)).kind
        · rw [if_neg (not_not.mpr hc), if_pos htag, if_pos ⟨hc,htag⟩, if_pos ⟨hc,htag⟩]
          exact ih _ _
        · have hnot : ¬(c = 60 ∧ isTag (matchSpeakTag (c::x)).kind = true) := fun h => htag h.2
          simp only [if_neg hnot]
          rw [if_neg (not_not.mpr hc), if_neg htag]
          by_cases hwaits : (matchSpeakTag (c::x)).kind = .speakTagPartial
          · rw [if_pos hwaits, if_pos ⟨hc,hwaits⟩]
            refine ⟨[],(List.append_nil _).symm,rfl,?_⟩
            rw [List.nil_append, withoutTags, withoutTagsFrom, if_neg hnot]
          · rw [if_neg hwaits, if_neg fun h => hwaits h.2]
            exact hput
      · simp only [if_pos hc, hc, false_and, if_false]
        exact hput

end OnPremGateway.SpeakTranscript
