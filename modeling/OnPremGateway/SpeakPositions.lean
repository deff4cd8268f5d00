import OnPremGateway.SpeakTranscript

/-!
# Where the spoken sections stand

In valid UTF-8 a tag stands between two characters, so a region starts the recorded
number of code points into the clean text, and the regions follow one another.
-/

set_option autoImplicit false

namespace OnPremGateway.SpeakPositions
open Utf8Runes SpeakTags SpeakVerdicts List
open SpeakTranscript

structure PlacedAt (clean : Bytes) (r : SpeakRegion) (pre post : Bytes) : Prop where
  text : clean = pre ++ r.text ++ post
  start : Utf8 pre
  stop : Utf8 (pre ++ r.text)
  offset : r.runeOffset = runeCount pre

def Placed (clean : Bytes) (r : SpeakRegion) : Prop := ∃ pre post, PlacedAt clean r pre post

variable {clean : Bytes} {r : SpeakRegion} {c : Capture}

theorem Placed.append (h : Placed clean r) (more : Bytes) : Placed (clean ++ more) r := by
  obtain ⟨pre,post,h⟩ := h
  exact ⟨pre,post ++ more,by rw [h.text, append_assoc],h.start,h.stop,h.offset⟩

theorem Placed.stop_le (h : Placed clean r) : r.runeOffset+runeCount r.text ≤ runeCount clean := by
  obtain ⟨pre,post,h⟩ := h
  rw [h.text, h.stop.runeCount_append, h.start.runeCount_append, h.offset]
  exact Nat.le_add_right _ _

def Before (a b : SpeakRegion) : Prop := a.runeOffset+runeCount a.text ≤ b.runeOffset

structure Laid (c : Capture) (clean rest : Bytes) : Prop where
  whole : Utf8 (clean ++ rest)
  placed : ∀ r ∈ c.regionsDone, Placed clean r
  ordered : c.regions.Pairwise Before
  opened : c.isOpen = true → ∃ lang pre, c.regions = c.regionsDone ++ [⟨[],lang,runeCount pre⟩] ∧
    clean = pre ++ c.text ∧ Utf8 pre
  idle : c.isOpen = false → c.text = []

theorem Laid.write {rest : Bytes} (text : Bytes) (h : Laid c clean (text ++ rest)) :
    Laid (c.write text) (clean ++ text) rest := by
  have hwhole : Utf8 (clean ++ text ++ rest) := by
    rw [append_assoc]
    exact h.whole
  have hplaced : ∀ r ∈ c.regionsDone, Placed (clean ++ text) r := fun r hr => (h.placed r hr).append text
  by_cases hopen : c.isOpen = true
  · have hwrite : c.write text = { c with text := c.text ++ text } := if_pos hopen
    rw [hwrite]
    refine ⟨hwhole,hplaced,h.ordered,?_,fun hidle => absurd (hopen.symm.trans hidle) (by simp)⟩
    intro _
    obtain ⟨lang,pre,hregions,hclean,hpre⟩ := h.opened hopen
    exact ⟨lang,pre,hregions,by rw [hclean, append_assoc],hpre⟩
  · have hwrite : c.write text = c := if_neg hopen
    rw [hwrite]
    exact ⟨hwhole,hplaced,h.ordered,fun h' => absurd h' hopen,h.idle⟩

/-- Bytes that are not published do not move a region. -/
theorem Laid.rest {rest rest' : Bytes} (h : Laid c clean rest) (hwhole : Utf8 (clean ++ rest')) :
    Laid c clean rest' :=
  ⟨hwhole,h.placed,h.ordered,h.opened,h.idle⟩

theorem Laid.openTag {rest : Bytes} (h : Laid c clean rest) (hclean : Utf8 clean) (attrs : Bytes) :
    Laid (c.openTag attrs (runeCount clean)) clean rest := by
  rw [Capture.openTag]
  split
  · exact ⟨h.whole,h.placed,h.ordered,h.opened,h.idle⟩
  next hopen =>
  have hdone : c.regionsDone = c.regions := if_neg hopen
  have hnew : (c.regions ++ [(⟨[],parseSpeakLang attrs,runeCount clean⟩ : SpeakRegion)]).dropLast =
    c.regions :=
    dropLast_concat
  refine ⟨h.whole,?_,?_,?_,fun hidle => absurd hidle (by simp)⟩
  · intro r hr
    rw [Capture.regionsDone, if_pos rfl, hnew, ← hdone] at hr
    exact h.placed r hr
  · refine pairwise_append.mpr ⟨h.ordered,pairwise_singleton _ _,?_⟩
    intro a ha b hb
    rw [mem_singleton.mp hb]
    exact (h.placed a (hdone ▸ ha)).stop_le
  · intro _
    refine ⟨parseSpeakLang attrs,clean,?_,?_,hclean⟩
    · rw [Capture.regionsDone, if_pos rfl, hnew]
    · rw [h.idle (by simpa using hopen), append_nil]

theorem Laid.finishRegion {rest : Bytes} (h : Laid c clean rest)
    (hstop : c.isOpen = true → Utf8 clean) : Laid c.finishRegion clean rest := by
  rw [Capture.finishRegion]
  split
  · next hopen =>
    obtain ⟨lang,pre,hregions,hclean,hpre⟩ := h.opened hopen
    have hfinished : c.regions.dropLast ++
        (c.regions.getLast?.map fun r => { r with text := c.text }).toList =
          c.regionsDone ++ [⟨c.text,lang,runeCount pre⟩] := by
      rw [hregions, dropLast_concat, getLast?_concat]
      rfl
    rw [hfinished]
    refine ⟨h.whole,?_,?_,fun hopen => absurd hopen Bool.false_ne_true,fun _ => rfl⟩
    · intro r hr
      rw [Capture.regionsDone, if_neg Bool.false_ne_true] at hr
      rcases mem_append.mp hr with hr | hr
      · exact h.placed r hr
      rw [mem_singleton.mp hr]
      refine ⟨pre,[],?_,hpre,?_,rfl⟩
      · rw [hclean, append_nil]
      · rw [← hclean]
        exact hstop hopen
    · have hordered := h.ordered
      rw [hregions] at hordered
      obtain ⟨hdone,-,hlast⟩ := pairwise_append.mp hordered
      refine pairwise_append.mpr ⟨hdone,pairwise_singleton _ _,?_⟩
      intro a ha b hb
      rw [mem_singleton.mp hb]
      exact hlast a ha ⟨[],lang,runeCount pre⟩ mem_cons_self
  · exact h

theorem Laid.selfClosingTag {rest : Bytes} (h : Laid c clean rest) (attrs : Bytes) :
    Laid (c.selfClosingTag attrs) clean rest :=
  ⟨h.whole,h.placed,h.ordered,h.opened,h.idle⟩

theorem Laid.tag {t : Transcript} {rest : Bytes} (h : Laid t.toCapture t.clean rest) (hclean : Utf8 t.clean)
    (tag : SpeakTag) : Laid (t.tag tag).toCapture (t.tag tag).clean rest := by
  rw [Transcript.tag]
  dsimp only
  split
  · exact h.openTag hclean _
  · exact h.selfClosingTag _
  · exact h.finishRegion fun _ => hclean

theorem readFrom_laid (x : Bytes) (skip : ℕ) {t : Transcript} (h : Laid t.toCapture t.clean (x.drop skip)) :
    Laid (readFrom skip t x).1.toCapture (readFrom skip t x).1.clean (readFrom skip t x).2 := by
  induction x generalizing skip t with
  | nil =>
    rw [drop_nil] at h
    cases skip with
    | zero => exact h
    | succ skip => exact h
  | cons c x ih =>
    cases skip with
    | succ skip => exact ih skip h
    | zero =>
      have hput : Laid (t.put [c]).toCapture (t.put [c]).clean (x.drop 0) := Laid.write [c] h
      rw [readFrom]
      split
      · exact ih 0 hput
      next hc =>
      rw [not_not] at hc
      subst hc
      split
      · next htag =>
        -- the tag is from one ASCII byte to another, so what it leaves is valid
        obtain ⟨mid,after,rfl,hn⟩ := matchSpeakTag_ends htag
        obtain ⟨hclean,hrest⟩ := h.whole.split (a := t.clean) (y := mid ++ 62::after) (by decide)
        obtain ⟨-,hafter⟩ := hrest.split (by decide)
        have hdrop : (mid ++ 62::after).drop ((matchSpeakTag (60::(mid ++ 62::after))).n-1) = after := by
          rw [hn, append_cons mid 62 after]
          exact drop_left' (by simp)
        apply ih
        rw [hdrop]
        exact (h.rest (hclean.append hafter)).tag hclean _
      · split
        · exact h
        · exact ih 0 hput

theorem answer_laid {input : Bytes} (h : Utf8 input) :
    Laid (answer input).toCapture (answer input).clean [] := by
  have hstart : Laid ({} : Transcript).toCapture ({} : Transcript).clean (input.drop 0) :=
    ⟨h,fun r hr => absurd hr not_mem_nil,List.Pairwise.nil,nofun,fun _ => rfl⟩
  have hread := readFrom_laid input 0 hstart
  have hwritten : Laid ((readFrom 0 {} input).1.toCapture.write (readFrom 0 {} input).2)
      ((readFrom 0 {} input).1.clean ++ (readFrom 0 {} input).2) [] := by
    apply Laid.write
    rw [append_nil]
    exact hread
  have hend : Utf8 ((readFrom 0 {} input).1.clean ++ (readFrom 0 {} input).2) := hread.whole
  rw [answer, finish]
  dsimp only
  split
  · next hclosing =>
    -- an unfinished close tag is published, so the region stops in front of it
    have hclean : Utf8 (readFrom 0 {} input).1.clean := by
      rcases readFrom_left input 0 {} with hnil | ⟨rest,hrest,-⟩
      · rw [hnil, append_nil] at hend
        exact hend
      · rw [hrest] at hend
        exact (hend.split (by decide)).1
    have hfinished := hread.finishRegion fun _ => hclean
    refine ⟨by rw [append_nil]; exact hend,?_,hfinished.ordered,?_,hfinished.idle⟩
    · exact fun r hr => (hfinished.placed r hr).append _
    · intro hopen
      rw [Capture.finishRegion] at hopen
      split at hopen
      · cases hopen
      · next hidle => exact absurd hopen hidle
  · exact hwritten.finishRegion fun _ => hend

/-! ### Streams -/

/-- What a stream shows for: its clean text, the regions, whether a tag was seen, the
summary and its start. -/
def shown (deltas : List Bytes) : Bytes × List SpeakRegion × Bool × (Bytes × Bytes) × Option ℕ :=
  let stream := scanStream {} deltas
  (stream.1,stream.2.regionsDone,stream.2.found,stream.2.summary,stream.2.summaryStart)

/-- Each region's text is what stands its number of code points into the clean text,
and a region ends before the next starts. -/
structure Exact (clean : Bytes) (regions : List SpeakRegion) : Prop where
  text : ∀ r ∈ regions, ∃ before text after : List Char, clean = encode (before ++ text ++ after) ∧
    r.text = encode text ∧ r.runeOffset = before.length
  ordered : regions.Pairwise Before

theorem Placed.exact (hclean : Utf8 clean) (h : Placed clean r) :
    ∃ before text after : List Char, clean = encode (before ++ text ++ after) ∧
      r.text = encode text ∧ r.runeOffset = before.length := by
  obtain ⟨pre,post,htext,⟨before,rfl⟩,hstop,hoffset⟩ := h
  obtain ⟨text,htext'⟩ := Utf8.of_append ⟨before,rfl⟩ hstop
  obtain ⟨after,rfl⟩ := Utf8.of_append hstop (htext ▸ hclean)
  refine ⟨before,text,after,?_,htext',hoffset.trans (runeCount_encode before)⟩
  rw [htext, htext', encode_append, encode_append]

theorem finishRegion_isOpen (c : Capture) : c.finishRegion.isOpen = false := by
  rw [Capture.finishRegion]
  split
  · rfl
  · next h => simpa using h

theorem answer_isOpen (input : Bytes) : (answer input).isOpen = false := by
  rw [answer, finish]
  dsimp only
  split
  · exact finishRegion_isOpen _
  · exact finishRegion_isOpen _

theorem answer_exact {input : Bytes} (h : Utf8 input) :
    Exact (answer input).clean (answer input).toCapture.regionsDone := by
  have hlaid := answer_laid h
  have hdone : (answer input).toCapture.regionsDone = (answer input).regions :=
    if_neg (by rw [answer_isOpen]; exact Bool.false_ne_true)
  have hclean : Utf8 (answer input).clean := by
    have hwhole := hlaid.whole
    rwa [append_nil] at hwhole
  refine ⟨fun r hr => (hlaid.placed r hr).exact hclean,?_⟩
  rw [hdone]
  exact hlaid.ordered

/-- The stream shows the same however it is cut; its clean text is the input without
the complete tags, but for the bytes of a tag the input does not finish, which are all
kept; and in valid UTF-8 the regions are where they say. -/
theorem speak_stream (deltas deltas' : List Bytes) (hsame : deltas.flatten = deltas'.flatten) :
    shown deltas = shown deltas' ∧ (∃ front, (shown deltas).1 = front ++ unfinished deltas.flatten ∧
        withoutTags deltas.flatten = front ++ withoutTags (unfinished deltas.flatten)) ∧
      (Utf8 deltas.flatten → Exact (shown deltas).1 (shown deltas).2.1) := by
  have hshown : ∀ deltas, shown deltas =
      ((answer deltas.flatten).clean,(answer deltas.flatten).toCapture.regionsDone,
      (answer deltas.flatten).found,(answer deltas.flatten).toCapture.summary,
      (answer deltas.flatten).toCapture.summaryStart) := by
    intro deltas
    obtain ⟨hclean,hcapture⟩ := scanStream_answer deltas
    rw [shown, hclean, hcapture]
  refine ⟨by rw [hshown, hshown, hsame],?_,?_⟩
  · obtain ⟨front,hclean,hleft,hwithout⟩ := readFrom_clean deltas.flatten 0 {}
    refine ⟨front,?_,hwithout⟩
    rw [hshown]
    dsimp only
    rw [answer, finish]
    dsimp only
    rw [hclean, hleft]
    rfl
  · intro hvalid
    rw [hshown]
    exact answer_exact hvalid

/-- `<speak>hé</speak>`, cut inside the tag and inside the second character. -/
def greeting : List Bytes := [[60,115,112],[101,97,107,62,104,195],[169,60,47,115,112,101,97,107,62]]

theorem speak_stream_greeting :
    greeting.flatten = [greeting.flatten].flatten ∧ Utf8 greeting.flatten ∧
      shown greeting = shown [greeting.flatten] ∧ Exact (shown greeting).1 (shown greeting).2.1 := by
  have hsame : greeting.flatten = [greeting.flatten].flatten := rfl
  have hvalid : Utf8 greeting.flatten := ⟨"<speak>hé</speak>".toList,by decide +kernel⟩
  obtain ⟨hshown,-,hexact⟩ := speak_stream greeting [greeting.flatten] hsame
  exact ⟨hsame,hvalid,hshown,hexact hvalid⟩

/-- `<speak a="<speak>`, a tag whose quote is not closed around one that is complete. -/
def quoted : Bytes := [60,115,112,101,97,107,32,97,61,34,60,115,112,101,97,107,62]

theorem quoted_tag_kept : (shown [quoted]).1 = quoted ∧
    withoutTags quoted = [60,115,112,101,97,107,32,97,61,34] := by
  decide +kernel

end OnPremGateway.SpeakPositions
