import Mathlib

/-!
# Counting the runes of a byte string

A byte string is read as UTF-8 from the left: a well-formed sequence is one rune, and
a byte that starts none is one rune by itself. A reader that gets the string in
pieces can keep back an incomplete last sequence and count the same runes.
-/

set_option autoImplicit false

namespace OnPremGateway.Utf8Runes
open List Nat

abbrev Bytes := List UInt8

/-- The length a first byte announces; a byte that cannot be first stands alone. -/
def runeSize (b : UInt8) : ℕ :=
  if b.toNat < 0xC2 then 1
  else if b.toNat < 0xE0 then 2
  else if b.toNat < 0xF0 then 3
  else if b.toNat < 0xF5 then 4
  else 1

def isContinuation (c : UInt8) : Bool := 0x80 ≤ c.toNat ∧ c.toNat ≤ 0xBF

def runeStart (c : UInt8) : Bool := !isContinuation c

/-- Which second bytes a first byte takes: no overlong form, no surrogate, nothing
past the last code point. -/
def accepts (b c : UInt8) : Bool :=
  isContinuation c ∧ (b.toNat = 0xE0 → 0xA0 ≤ c.toNat) ∧ (b.toNat = 0xED → c.toNat ≤ 0x9F) ∧
    (b.toNat = 0xF0 → 0x90 ≤ c.toNat) ∧ (b.toNat = 0xF4 → c.toNat ≤ 0x8F)

def goodTail (b : UInt8) : Bytes → Bool
  | [] => true
  | c::rest => accepts b c && rest.all isContinuation

def runeWidth : Bytes → ℕ
  | [] => 0
  | b::rest => if runeSize b ≤ rest.length+1 ∧ goodTail b (rest.take (runeSize b-1)) then runeSize b else 1

def fullRune : Bytes → Bool
  | [] => false
  | b::rest => runeSize b ≤ rest.length+1 ∨ goodTail b rest = false

def runeCountFrom : ℕ → Bytes → ℕ
  | _, [] => 0
  | skip+1, _::rest => runeCountFrom skip rest
  | 0, b::rest => 1+runeCountFrom (runeWidth (b::rest)-1) rest

def runeCount (s : Bytes) : ℕ := runeCountFrom 0 s

def incompleteAt (s : Bytes) : ℕ :=
  match [1,2,3].find? fun i => decide (i ≤ s.length) && ((s[s.length-i]?).map runeStart).getD false with
  | some i => if fullRune (s.drop (s.length-i)) then s.length else s.length-i
  | none => s.length

/-! ### Widths -/

theorem runeSize_pos (b : UInt8) : 0 < runeSize b := by
  simp only [runeSize]
  split_ifs <;> omega

theorem runeSize_le (b : UInt8) : runeSize b ≤ 4 := by
  simp only [runeSize]
  split_ifs <;> omega

variable {b c : UInt8} {a r s : Bytes}

theorem isContinuation_of_accepts (h : accepts b c = true) : isContinuation c = true := by
  simp only [accepts, decide_eq_true_eq] at h
  exact h.1

theorem goodTail_append (h : goodTail b (r ++ s) = true) :
    goodTail b r = true ∧ ∀ c ∈ r ++ s, isContinuation c = true := by
  cases r with
  | nil =>
    refine ⟨rfl,?_⟩
    cases s with
    | nil => exact fun c hc => absurd hc not_mem_nil
    | cons c s =>
      simp only [nil_append, goodTail, Bool.and_eq_true, all_eq_true] at h
      simpa using ⟨isContinuation_of_accepts h.1,h.2⟩
  | cons c r =>
    simp only [cons_append, goodTail, Bool.and_eq_true, all_append, all_eq_true] at h ⊢
    refine ⟨⟨h.1,h.2.1⟩,?_⟩
    intro d hd
    rcases mem_cons.mp hd with rfl | hd
    · exact isContinuation_of_accepts h.1
    · exact (mem_append.mp hd).elim (h.2.1 d) (h.2.2 d)

theorem runeWidth_pos (b : UInt8) (rest : Bytes) : 0 < runeWidth (b::rest) := by
  rw [runeWidth]
  split
  · exact runeSize_pos b
  · exact one_pos

theorem runeWidth_le (b : UInt8) (rest : Bytes) : runeWidth (b::rest) ≤ (b::rest).length := by
  rw [runeWidth, length_cons]
  split
  · next h => exact h.1
  · omega

/-- The bytes that follow cannot change a width when they start a rune of their own
or when the first rune is full. -/
theorem runeWidth_append_of_long (h : runeSize b ≤ r.length+1) (x : Bytes) :
    runeWidth (b::(r ++ x)) = runeWidth (b::r) := by
  have hlong : runeSize b ≤ (r ++ x).length+1 := by
    rw [length_append]
    omega
  have htake : (r ++ x).take (runeSize b-1) = r.take (runeSize b-1) :=
    take_append_of_le_length (by omega)
  simp only [runeWidth, h, hlong, htake]

theorem runeWidth_append_of_bad {x : Bytes} (h : ¬runeSize b ≤ r.length+1)
    (hbad : ∀ k, r.length < k → k ≤ 3 → k ≤ (r ++ x).length → goodTail b ((r ++ x).take k) = false) :
    runeWidth (b::(r ++ x)) = runeWidth (b::r) := by
  have hsize := runeSize_le b
  have hone : ¬(runeSize b ≤ (r ++ x).length+1 ∧ goodTail b ((r ++ x).take (runeSize b-1)) = true) := by
    rintro ⟨hlong,hgood⟩
    rw [hbad (runeSize b-1) (by omega) (by omega) (by omega)] at hgood
    cases hgood
  rw [runeWidth, runeWidth, if_neg hone, if_neg fun hgood => h hgood.1]

theorem runeWidth_append_of_full (h : fullRune (b::r) = true) (x : Bytes) :
    runeWidth (b::(r ++ x)) = runeWidth (b::r) := by
  by_cases hlong : runeSize b ≤ r.length+1
  · exact runeWidth_append_of_long hlong x
  apply runeWidth_append_of_bad hlong
  intro k hk _ _
  simp only [fullRune, hlong, false_or, decide_eq_true_eq] at h
  by_contra hgood
  rw [Bool.not_eq_false, take_append, take_of_length_le hk.le] at hgood
  rw [(goodTail_append hgood).1] at h
  cases h

theorem runeWidth_append_of_start (b : UInt8) (r : Bytes) (hc : runeStart c = true) (x : Bytes) :
    runeWidth (b::(r ++ c::x)) = runeWidth (b::r) := by
  by_cases hlong : runeSize b ≤ r.length+1
  · exact runeWidth_append_of_long hlong _
  apply runeWidth_append_of_bad hlong
  intro k hk _ _
  by_contra hgood
  obtain ⟨j,rfl⟩ : ∃ j, k = r.length+1+j := ⟨k-(r.length+1),by omega⟩
  rw [Bool.not_eq_false, take_append, take_of_length_le (by omega),
    show r.length+1+j-r.length = j+1 by omega, take_succ_cons] at hgood
  have hcont := (goodTail_append hgood).2 c (by simp)
  rw [runeStart, hcont] at hc
  cases hc

/-! ### Counting in pieces -/

theorem runeCountFrom_eq (skip : ℕ) (s : Bytes) : runeCountFrom skip s = runeCount (s.drop skip) := by
  induction skip generalizing s with
  | zero => rfl
  | succ skip ih =>
    cases s with
    | nil => rfl
    | cons b s => exact ih s

theorem runeCount_cons (b : UInt8) (rest : Bytes) :
    runeCount (b::rest) = 1+runeCount ((b::rest).drop (runeWidth (b::rest))) := by
  obtain ⟨w,hw⟩ : ∃ w, runeWidth (b::rest) = w+1 := ⟨_,(succ_pred_eq_of_pos (runeWidth_pos b rest)).symm⟩
  rw [runeCount, runeCountFrom, runeCountFrom_eq, hw, drop_succ_cons, Nat.add_sub_cancel]

/-- A cut across no rune divides the count. -/
theorem runeCount_append {x : Bytes}
    (h : ∀ b r, b::r <:+ a → runeWidth (b::(r ++ x)) = runeWidth (b::r)) :
    runeCount (a ++ x) = runeCount a+runeCount x := by
  induction hn : a.length using Nat.strong_induction_on generalizing a with
  | _ n ih =>
    cases a with
    | nil => simp [runeCount, runeCountFrom]
    | cons b r =>
      have hwidth := h b r (suffix_refl _)
      have hle := runeWidth_le b r
      have hpos := runeWidth_pos b r
      rw [cons_append, runeCount_cons, hwidth, runeCount_cons b r, ← cons_append,
        drop_append_of_le_length hle, add_assoc]
      congr 1
      refine ih _ ?_ (fun c s hs => h c s (hs.trans (drop_suffix _ _))) rfl
      rw [← hn, length_drop]
      omega

theorem runeCount_append_of_full (h : ∀ s, s <:+ a → s ≠ [] → fullRune s = true) (x : Bytes) :
    runeCount (a ++ x) = runeCount a+runeCount x :=
  runeCount_append fun b r hs => runeWidth_append_of_full (h _ hs (cons_ne_nil b r)) x

/-! ### The incomplete end -/

/-- An incomplete sequence is a first byte and at most two more that continue it. -/
theorem incomplete_cases (h : fullRune (b::r) = false) :
    r.length+1 ≤ 3 ∧ runeStart b = true ∧ ∀ c ∈ r, isContinuation c = true := by
  simp only [fullRune, decide_eq_false_iff_not, not_or, Bool.not_eq_false] at h
  have hsize := runeSize_le b
  refine ⟨by omega,?_,?_⟩
  · have hlong : 1 < runeSize b := by omega
    simp only [runeSize] at hlong
    split_ifs at hlong with h1
    all_goals
      simp only [runeStart, isContinuation, Bool.not_eq_true', decide_eq_false_iff_not]
      omega
  · have hgood := h.2
    rw [← append_nil r] at hgood
    intro c hc
    exact (goodTail_append hgood).2 c (mem_append_left _ hc)

theorem incompleteAt_le (s : Bytes) : incompleteAt s ≤ s.length := by
  rw [incompleteAt]
  split
  · split
    · exact le_rfl
    · exact sub_le _ _
  · exact le_rfl

theorem drop_incompleteAt (s : Bytes) :
    s.drop (incompleteAt s) = [] ∨ ∃ c r, s.drop (incompleteAt s) = c::r ∧ runeStart c = true := by
  rw [incompleteAt]
  split
  · next i hi =>
    split
    · exact .inl (drop_length)
    have hfound := find?_some hi
    have hmem := mem_of_find?_eq_some hi
    simp only [Bool.and_eq_true, decide_eq_true_eq] at hfound
    have hpos : 0 < i := by
      simp only [mem_cons, not_mem_nil, or_false] at hmem
      omega
    have hlt : s.length-i < s.length := by omega
    rw [getElem?_eq_getElem hlt] at hfound
    exact .inr ⟨_,_,drop_eq_getElem_cons hlt,hfound.2⟩
  · exact .inl (drop_length)

/-- When nothing is kept back, no suffix is incomplete. -/
theorem full_of_incompleteAt (h : incompleteAt s = s.length) :
    ∀ t, t <:+ s → t ≠ [] → fullRune t = true := by
  rintro t ⟨front,rfl⟩ hne
  by_contra hfull
  rw [Bool.not_eq_true] at hfull
  cases t with
  | nil => exact hne rfl
  | cons b r =>
    obtain ⟨hshort,hstart,hcont⟩ := incomplete_cases hfull
    have hfind : ([1,2,3].find? fun i => decide (i ≤ (front ++ b::r).length) &&
        (((front ++ b::r)[(front ++ b::r).length-i]?).map runeStart).getD false) = some (r.length+1) := by
      rcases r with _ | ⟨c,_ | ⟨d,_ | ⟨e,r⟩⟩⟩
      · simp [hstart]
      · have hc : runeStart c = false := by simp [runeStart, hcont c]
        simp [hstart, hc]
      · have hc : runeStart c = false := by simp [runeStart, hcont c]
        have hd : runeStart d = false := by simp [runeStart, hcont d]
        simp [hstart, hc, hd]
      · simp only [length_cons] at hshort
        omega
    rw [incompleteAt, hfind] at h
    have hdrop : (front ++ b::r).drop ((front ++ b::r).length-(r.length+1)) = b::r := by
      rw [length_append, length_cons, Nat.add_sub_cancel, drop_left]
    dsimp only at h
    rw [hdrop, hfull, if_neg Bool.false_ne_true, length_append, length_cons] at h
    omega

/-- The runes up to what is kept back are settled, whatever follows. -/
theorem runeCount_take_incompleteAt (s x : Bytes) :
    runeCount (s ++ x) = runeCount (s.take (incompleteAt s))+runeCount (s.drop (incompleteAt s) ++ x) := by
  rcases drop_incompleteAt s with hdrop | ⟨c,r,hdrop,hc⟩
  · have hlength : incompleteAt s = s.length := le_antisymm (incompleteAt_le s) (drop_eq_nil_iff.mp hdrop)
    rw [hlength, take_length, drop_length, nil_append]
    exact runeCount_append_of_full (full_of_incompleteAt hlength) x
  · conv_lhs => rw [← take_append_drop (incompleteAt s) s]
    rw [append_assoc, hdrop, cons_append]
    exact runeCount_append fun b r _ => runeWidth_append_of_start b r hc _

/-! ### Encoded characters -/

def encode (chars : List Char) : Bytes := chars.flatMap String.utf8EncodeChar

/-- The byte string is valid UTF-8. -/
def Utf8 (s : Bytes) : Prop := ∃ chars, s = encode chars

theorem encode_cons (ch : Char) (chars : List Char) :
    encode (ch::chars) = String.utf8EncodeChar ch ++ encode chars := flatMap_cons

theorem encode_append (a b : List Char) : encode (a ++ b) = encode a ++ encode b := flatMap_append

/-- A character is encoded as one whole sequence. -/
theorem encodeChar_cases (ch : Char) : ∃ b r, String.utf8EncodeChar ch = b::r ∧
    runeSize b = r.length+1 ∧ goodTail b r = true ∧ (r = [] ∨ ∀ c ∈ b::r, 0x80 ≤ c.toNat) := by
  have hvalid : ch.val.toNat < 0xD800 ∨ 0xDFFF < ch.val.toNat ∧ ch.val.toNat < 0x110000 := ch.valid
  rw [String.utf8EncodeChar]
  split_ifs with h1 h2 h3
  · refine ⟨_,_,rfl,?_,rfl,.inl rfl⟩
    simp only [runeSize, UInt8.toNat_ofNat']
    split_ifs <;> simp <;> omega
  -- two, three or four bytes
  all_goals
    refine ⟨_,_,rfl,?_,?_,.inr ?_⟩
    · simp only [runeSize, UInt8.toNat_ofNat', length_cons, length_nil]
      split_ifs <;> omega
    · simp only [goodTail, accepts, isContinuation, UInt8.toNat_ofNat', all_cons, all_nil,
        Bool.and_true, Bool.and_eq_true, decide_eq_true_eq]
      omega
    · simp only [mem_cons, not_mem_nil, or_false, forall_eq_or_imp, forall_eq, UInt8.toNat_ofNat']
      omega

theorem runeWidth_encodeChar (ch : Char) (x : Bytes) :
    runeWidth (String.utf8EncodeChar ch ++ x) = (String.utf8EncodeChar ch).length := by
  obtain ⟨b,r,heq,hsize,hgood,-⟩ := encodeChar_cases ch
  rw [heq, cons_append, runeWidth_append_of_long hsize.le, runeWidth, if_pos, hsize, length_cons]
  refine ⟨hsize.le,?_⟩
  rw [hsize, Nat.add_sub_cancel, take_length]
  exact hgood

theorem runeCount_encode_append (chars : List Char) (x : Bytes) :
    runeCount (encode chars ++ x) = chars.length+runeCount x := by
  induction chars with
  | nil => simp [encode]
  | cons ch chars ih =>
    have hwidth := runeWidth_encodeChar ch (encode chars ++ x)
    obtain ⟨b,r,heq,-⟩ := encodeChar_cases ch
    rw [encode_cons, append_assoc]
    rw [heq, cons_append] at hwidth ⊢
    rw [runeCount_cons, hwidth, ← cons_append, drop_left, ih, length_cons]
    omega

theorem runeCount_encode (chars : List Char) : runeCount (encode chars) = chars.length := by
  have h := runeCount_encode_append chars []
  rwa [append_nil, show runeCount [] = 0 from rfl, add_zero] at h

theorem Utf8.runeCount_append (h : Utf8 s) (x : Bytes) :
    runeCount (s ++ x) = runeCount s+runeCount x := by
  obtain ⟨chars,rfl⟩ := h
  rw [runeCount_encode_append, runeCount_encode]

theorem utf8_nil : Utf8 [] := ⟨[],rfl⟩

theorem Utf8.append {b : Bytes} (ha : Utf8 a) (hb : Utf8 b) : Utf8 (a ++ b) := by
  obtain ⟨p,rfl⟩ := ha
  obtain ⟨q,rfl⟩ := hb
  exact ⟨p ++ q,(encode_append p q).symm⟩

/-- What follows a whole number of characters in valid text is valid. -/
theorem Utf8.of_append {b : Bytes} (ha : Utf8 a) (h : Utf8 (a ++ b)) : Utf8 b := by
  obtain ⟨p,rfl⟩ := ha
  obtain ⟨q,hq⟩ := h
  induction p generalizing q with
  | nil => exact ⟨q,hq⟩
  | cons ch p ih =>
    rw [encode_cons, append_assoc] at hq
    have hwidth := runeWidth_encodeChar ch (encode p ++ b)
    rw [hq] at hwidth
    cases q with
    | nil =>
      obtain ⟨c,r,heq,-⟩ := encodeChar_cases ch
      rw [heq] at hq
      cases hq
    | cons d q =>
      rw [encode_cons] at hq hwidth
      rw [runeWidth_encodeChar] at hwidth
      exact ih q (append_inj_right hq hwidth.symm)

theorem runeStart_encodeChar {ch : Char} {r : Bytes} (h : String.utf8EncodeChar ch = b::r) :
    runeStart b = true ∧ r.length ≤ 3 ∧ ∀ c ∈ r, runeStart c = false := by
  obtain ⟨b',r',heq,hsize,hgood,hbytes⟩ := encodeChar_cases ch
  rw [h, cons.injEq] at heq
  obtain ⟨rfl,rfl⟩ := heq
  have hle := runeSize_le b
  refine ⟨?_,by omega,?_⟩
  · rw [String.utf8EncodeChar] at h
    simp only [runeStart, isContinuation, Bool.not_eq_true', decide_eq_false_iff_not]
    split_ifs at h with h1 h2 h3 <;> rw [cons.injEq] at h <;> rw [← h.1, UInt8.toNat_ofNat'] <;> omega
  · intro c hc
    cases r with
    | nil => simp at hc
    | cons d r =>
      simp only [goodTail, Bool.and_eq_true, all_eq_true] at hgood
      rw [runeStart, Bool.not_eq_false']
      rcases mem_cons.mp hc with rfl | hc
      · exact isContinuation_of_accepts hgood.1
      · exact hgood.2 c hc

/-- Valid text divides where a character starts. -/
theorem Utf8.cut {y : Bytes} (h : Utf8 (a ++ c::y)) (hc : runeStart c = true) : Utf8 a ∧ Utf8 (c::y) := by
  obtain ⟨chars,hchars⟩ := h
  induction chars generalizing a with
  | nil => simp [encode] at hchars
  | cons ch chars ih =>
    rw [encode_cons] at hchars
    cases a with
    | nil => exact ⟨utf8_nil,⟨ch::chars,by rw [encode_cons]; exact hchars⟩⟩
    | cons d a =>
      obtain ⟨b,r,heq,-⟩ := encodeChar_cases ch
      have hr := (runeStart_encodeChar heq).2.2
      rw [heq, cons_append, cons_append, cons.injEq] at hchars
      rcases append_eq_append_iff.mp hchars.2 with ⟨z,hz,hrest⟩ | ⟨z,hz,hrest⟩
      · cases z with
        | nil =>
          rw [hchars.1, ← show r = a by simpa using hz, ← heq]
          exact ⟨⟨[ch],by simp [encode]⟩,⟨chars,hrest⟩⟩
        | cons e z =>
          rw [cons_append, cons.injEq] at hrest
          have he := hr e (by simp [hz])
          rw [← hrest.1, hc] at he
          cases he
      · obtain ⟨ha,hy⟩ := ih hrest.symm
        refine ⟨?_,hy⟩
        rw [hz, hchars.1, ← cons_append, ← heq]
        exact Utf8.append ⟨[ch],by simp [encode]⟩ ha

/-- An ASCII byte of valid text stands between characters. -/
theorem Utf8.split {y : Bytes} (h : Utf8 (a ++ c::y)) (hc : c.toNat < 0x80) : Utf8 a ∧ Utf8 y := by
  obtain ⟨ha,chars,hchars⟩ := h.cut (by simp only [runeStart, isContinuation]; simp; omega)
  refine ⟨ha,?_⟩
  cases chars with
  | nil => simp [encode] at hchars
  | cons ch chars =>
    obtain ⟨b,r,heq,-,-,hbytes⟩ := encodeChar_cases ch
    rw [encode_cons, heq, cons_append, cons.injEq] at hchars
    rcases hbytes with rfl | hlarge
    · exact ⟨chars,hchars.2⟩
    · have hb := hlarge b mem_cons_self
      rw [← hchars.1] at hb
      omega

end OnPremGateway.Utf8Runes
