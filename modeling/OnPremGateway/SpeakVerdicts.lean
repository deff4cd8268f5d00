import OnPremGateway.SpeakTags

/-!
# Verdicts on a possible tag

Once the bytes at hand decide whether a `<` starts a speak tag, more bytes do not
change the verdict. A complete tag ends with the `>` its length points past.
-/

set_option autoImplicit false

namespace OnPremGateway.SpeakVerdicts
open Utf8Runes SpeakTags List

def isTag : SpeakTagKind → Bool
  | .speakTagNone | .speakTagPartial => false
  | _ => true

theorem nameVerdict_settled (name b : Bytes) :
    (∀ u v x, nameVerdict u name (b ++ x) = nameVerdict v name b) ∨ ∀ u, nameVerdict u name b = some u := by
  induction name generalizing b with
  | nil => exact .inl fun _ _ _ => rfl
  | cons n name ih =>
    cases b with
    | nil => exact .inr fun _ => rfl
    | cons c b =>
      by_cases hc : asciiLower c = n
      · simp only [cons_append, nameVerdict, hc, ne_eq, not_true_eq_false, if_false]
        exact ih b
      · simp [nameVerdict, hc]

def Settled (f : SpeakTagKind → Bytes → SpeakTag) (b : Bytes) : Prop :=
  (∀ u v x, f u (b ++ x) = f v b) ∨ ∀ u, f u b = ⟨u,0,[]⟩

theorem scanSpeakClose_settled (pos : ℕ) (b : Bytes) : Settled (fun u => scanSpeakClose u pos) b := by
  induction b generalizing pos with
  | nil => exact .inr fun _ => rfl
  | cons c b ih =>
    by_cases hgt : c = 62
    · exact .inl fun u v x => by simp [scanSpeakClose, hgt]
    · by_cases hspace : isSpeakSpace c
      · simpa [Settled, scanSpeakClose, hgt, hspace] using ih (pos+1)
      · exact .inl fun u v x => by simp [scanSpeakClose, hgt, hspace]

theorem scanSpeakAttrs_settled (quote : Option UInt8) (seen : Bytes) (pos : ℕ) (b : Bytes) :
    Settled (fun u => scanSpeakAttrs u quote seen pos) b := by
  induction b generalizing quote seen pos with
  | nil => exact .inr fun u => by simp [scanSpeakAttrs]
  | cons c b ih =>
    cases quote with
    | some quote =>
      simpa [Settled, scanSpeakAttrs] using
        ih (if c = quote then none else some quote) (seen ++ [c]) (pos+1)
    | none =>
      by_cases hquote : c = 34 ∨ c = 39
      · simpa [Settled, scanSpeakAttrs, hquote] using ih (some c) (seen ++ [c]) (pos+1)
      · by_cases hgt : c = 62
        · exact .inl fun u v x => by simp [scanSpeakAttrs, hgt]
        · simpa [Settled, scanSpeakAttrs, hquote, hgt] using ih none (seen ++ [c]) (pos+1)

theorem scanSpeakOpen_settled (pos : ℕ) (b : Bytes) : Settled (fun u => scanSpeakOpen u pos) b := by
  cases b with
  | nil => exact .inr fun _ => rfl
  | cons c b =>
    by_cases hgt : c = 62
    · exact .inl fun u v x => by simp [scanSpeakOpen, hgt]
    by_cases hslash : c = 47
    · cases b with
      | nil => exact .inr fun u => by simp [scanSpeakOpen, hslash]
      | cons d b => exact .inl fun u v x => by simp [scanSpeakOpen, hslash]
    · by_cases hspace : isSpeakSpace c
      · simpa [Settled, scanSpeakOpen, hgt, hslash, hspace] using scanSpeakAttrs_settled none [] pos (c::b)
      · exact .inl fun u v x => by simp [scanSpeakOpen, hgt, hslash, hspace]

theorem scanSpeakName_ok {b : Bytes} {u : SpeakTagKind} {pos : ℕ} {closing : Bool}
    (h : scanSpeakName b u = .ok (pos,closing)) : pos < b.length ∧ 0 < pos := by
  rw [scanSpeakName] at h
  split at h
  · cases h
  split at h
  · cases h
  next hlong =>
  simp only [Except.ok.injEq, Prod.mk.injEq] at h
  rw [← h.1]
  have hpos : 0 < namePos b := by
    rw [namePos]
    split <;> omega
  exact ⟨not_le.mp hlong,by omega⟩

theorem scanSpeakName_settled (b : Bytes) :
    (∀ u v x, scanSpeakName (b ++ x) u = scanSpeakName b v) ∨ ∀ u, scanSpeakName b u = .error u := by
  rcases b with _ | ⟨a,_ | ⟨d,b⟩⟩
  · exact .inr fun _ => rfl
  · exact .inr fun _ => rfl
  · -- the byte after the `<` is there, so where the name starts is settled
    obtain ⟨pos,hpos,hle⟩ : ∃ pos, namePos (a::d::b) = pos ∧ pos ≤ 2 := by
      refine ⟨_,rfl,?_⟩
      rw [namePos]
      split <;> omega
    have hpos' : ∀ x, namePos ((a::d::b) ++ x) = pos := fun x => hpos
    have hclosing : ∀ x, isClosing ((a::d::b) ++ x) = isClosing (a::d::b) := fun x => rfl
    have hdrop : ∀ x, ((a::d::b) ++ x).drop pos = (a::d::b).drop pos ++ x := fun x =>
      drop_append_of_le_length (by simp only [length_cons]; omega)
    simp only [scanSpeakName, hclosing, hpos, hpos', hdrop]
    rcases nameVerdict_settled speakName ((a::d::b).drop pos) with hsettled | hwaits
    · by_cases hshort : (a::d::b).length ≤ pos+speakName.length ∧
          nameVerdict .speakTagNone speakName ((a::d::b).drop pos) = none
      · refine .inr fun u => ?_
        have hnone := hsettled u .speakTagNone []
        rw [append_nil, hshort.2] at hnone
        rw [hnone]
        dsimp only
        rw [if_pos hshort.1]
      · refine .inl fun u v x => ?_
        have hnone := hsettled v .speakTagNone []
        rw [append_nil] at hnone
        rw [hsettled u .speakTagNone x, hnone]
        cases hverdict : nameVerdict .speakTagNone speakName ((a::d::b).drop pos) with
        | some verdict => rfl
        | none =>
          have hlong : ¬(a::d::b).length ≤ pos+speakName.length := fun h => hshort ⟨h,hverdict⟩
          dsimp only
          rw [if_neg hlong, if_neg]
          rw [length_append]
          omega
    · exact .inr fun u => by rw [hwaits u]

theorem judge_settled (b : Bytes) : Settled judge b := by
  rcases scanSpeakName_settled b with hsettled | hwaits
  · cases hname : scanSpeakName b .speakTagNone with
    | error verdict =>
      refine .inl fun u v x => ?_
      have hv := hsettled v .speakTagNone []
      rw [append_nil] at hv
      rw [judge, judge, hsettled u .speakTagNone x, hv, hname]
    | ok found =>
      obtain ⟨pos,closing⟩ := found
      have hpos := (scanSpeakName_ok hname).1
      have hdrop : ∀ x, (b ++ x).drop pos = b.drop pos ++ x := fun x => drop_append_of_le_length hpos.le
      have hjudge : ∀ u x, judge u (b ++ x) =
          if closing then scanSpeakClose u pos (b.drop pos ++ x)
            else scanSpeakOpen u pos (b.drop pos ++ x) := by
        intro u x
        rw [judge, hsettled u .speakTagNone x, hname, ← hdrop]
      have hself : ∀ u, judge u b =
          if closing then scanSpeakClose u pos (b.drop pos) else scanSpeakOpen u pos (b.drop pos) := by
        intro u
        have h := hjudge u []
        rwa [append_nil, append_nil] at h
      simp only [Settled, hjudge, hself]
      cases closing with
      | true => exact scanSpeakClose_settled pos (b.drop pos)
      | false => exact scanSpeakOpen_settled pos (b.drop pos)
  · exact .inr fun u => by rw [judge, hwaits u]

/-- More bytes do not change a verdict that is given. -/
theorem matchSpeakTag_append {b : Bytes} (x : Bytes) (h : (matchSpeakTag b).kind ≠ .speakTagPartial) :
    matchSpeakTag (b ++ x) = matchSpeakTag b := by
  by_cases hlong : maxSpeakTagLen < b.length
  · have hlong' : maxSpeakTagLen < (b ++ x).length := by
      rw [length_append]
      omega
    rw [matchSpeakTag, matchSpeakTag, if_pos hlong, if_pos hlong', take_append_of_le_length hlong.le]
  rw [matchSpeakTag, if_neg hlong] at h
  rcases judge_settled b with hsettled | hwaits
  · rw [matchSpeakTag, matchSpeakTag, if_neg hlong]
    split
    · rw [take_append, take_of_length_le (not_lt.mp hlong)]
      exact hsettled _ _ _
    · exact hsettled _ _ _
  · rw [hwaits] at h
    exact absurd rfl h

/-! ### Where a tag ends -/

def EndsTag (tag : SpeakTag) (pos : ℕ) (b : Bytes) : Prop :=
  isTag tag.kind = true → ∃ mid after, b = mid ++ 62::after ∧ tag.n = pos+mid.length+1

theorem EndsTag.cons {tag : SpeakTag} {pos : ℕ} {b : Bytes} (h : EndsTag tag (pos+1) b) (c : UInt8) :
    EndsTag tag pos (c::b) := by
  intro htag
  obtain ⟨mid,after,rfl,hn⟩ := h htag
  refine ⟨c::mid,after,rfl,?_⟩
  rw [hn, length_cons]
  omega

theorem endsTag_of_not {tag : SpeakTag} {pos : ℕ} {b : Bytes} (h : isTag tag.kind = false) :
    EndsTag tag pos b :=
  fun htag => absurd (htag.symm.trans h) Bool.true_eq_false.mp

variable {u : SpeakTagKind} (hu : isTag u = false)
include hu

theorem scanSpeakClose_ends (pos : ℕ) (b : Bytes) : EndsTag (scanSpeakClose u pos b) pos b := by
  induction b generalizing pos with
  | nil => exact endsTag_of_not hu
  | cons c b ih =>
    rw [scanSpeakClose]
    split
    · next hgt => exact fun _ => ⟨[],b,by rw [hgt]; rfl,rfl⟩
    · split
      · exact endsTag_of_not rfl
      · exact (ih (pos+1)).cons c

theorem scanSpeakAttrs_ends (quote : Option UInt8) (seen : Bytes) (pos : ℕ) (b : Bytes) :
    EndsTag (scanSpeakAttrs u quote seen pos b) pos b := by
  induction b generalizing quote seen pos with
  | nil =>
    rw [scanSpeakAttrs]
    exact endsTag_of_not hu
  | cons c b ih =>
    cases quote with
    | some quote =>
      rw [scanSpeakAttrs]
      exact (ih _ _ (pos+1)).cons c
    | none =>
      rw [scanSpeakAttrs]
      split
      · exact (ih _ _ (pos+1)).cons c
      split
      · next hgt =>
        split
        · exact fun _ => ⟨[],b,by rw [hgt]; rfl,rfl⟩
        · exact fun _ => ⟨[],b,by rw [hgt]; rfl,rfl⟩
      · exact (ih _ _ (pos+1)).cons c

theorem scanSpeakOpen_ends (pos : ℕ) (b : Bytes) : EndsTag (scanSpeakOpen u pos b) pos b := by
  cases b with
  | nil => exact endsTag_of_not hu
  | cons c b =>
    by_cases hgt : c = 62
    · rw [hgt]
      exact fun _ => ⟨[],b,rfl,rfl⟩
    by_cases hslash : c = 47
    · cases b with
      | nil =>
        rw [hslash]
        exact endsTag_of_not hu
      | cons d b =>
        by_cases hd : d = 62
        · rw [hslash, hd]
          exact fun _ => ⟨[47],b,rfl,rfl⟩
        · simp only [scanSpeakOpen, hslash, hd, if_false, if_true]
          exact endsTag_of_not rfl
    · simp only [scanSpeakOpen, hgt, hslash, if_false]
      split
      · exact endsTag_of_not rfl
      · exact scanSpeakAttrs_ends hu _ _ _ _

theorem nameVerdict_not_tag {name b : Bytes} {verdict : SpeakTagKind}
    (h : nameVerdict u name b = some verdict) :
    isTag verdict = false := by
  induction name generalizing b with
  | nil => cases h
  | cons n name ih =>
    cases b with
    | nil =>
      cases h
      exact hu
    | cons c b =>
      rw [nameVerdict] at h
      split at h
      · cases h
        rfl
      · exact ih h

theorem judge_ends (b : Bytes) (htag : isTag (judge u b).kind = true) :
    ∃ mid after, b = mid ++ 62::after ∧ (judge u b).n = mid.length+1 ∧ mid ≠ [] := by
  rw [judge] at htag ⊢
  cases hname : scanSpeakName b u with
  | error verdict =>
    rw [hname] at htag
    have hnot : isTag verdict = false := by
      rw [scanSpeakName] at hname
      split at hname
      · next hverdict =>
        cases hname
        exact nameVerdict_not_tag hu hverdict
      split at hname
      · cases hname
        exact hu
      · cases hname
    exact absurd (htag.symm.trans hnot) Bool.true_eq_false.mp
  | ok found =>
    obtain ⟨pos,closing⟩ := found
    obtain ⟨hlt,hpos⟩ := scanSpeakName_ok hname
    rw [hname] at htag
    have hends : EndsTag (if closing then scanSpeakClose u pos (b.drop pos)
        else scanSpeakOpen u pos (b.drop pos)) pos
        (b.drop pos) := by
      split
      · exact scanSpeakClose_ends hu _ _
      · exact scanSpeakOpen_ends hu _ _
    obtain ⟨mid,after,hdrop,hn⟩ := hends htag
    refine ⟨b.take pos ++ mid,after,?_,?_,?_⟩
    · rw [append_assoc, ← hdrop, take_append_drop]
    · rw [length_append, length_take, min_eq_left hlt.le]
      exact hn
    · intro hnil
      have hlength := congrArg length hnil
      rw [length_append, length_take, min_eq_left hlt.le, length_nil] at hlength
      omega

omit hu

/-- A complete tag ends with a `>` and is as long as it says. -/
theorem matchSpeakTag_ends {c : UInt8} {rest : Bytes} (h : isTag (matchSpeakTag (c::rest)).kind = true) :
    ∃ mid after, rest = mid ++ 62::after ∧ (matchSpeakTag (c::rest)).n = mid.length+2 := by
  obtain ⟨mid,after,heq,hn,hne⟩ : ∃ mid after, c::rest = mid ++ 62::after ∧
      (matchSpeakTag (c::rest)).n = mid.length+1 ∧ mid ≠ [] := by
    rw [matchSpeakTag] at h ⊢
    split at h
    · next hlong =>
      rw [if_pos hlong]
      obtain ⟨mid,after,heq,hn,hne⟩ := judge_ends rfl _ h
      refine ⟨mid,after ++ (c::rest).drop maxSpeakTagLen,?_,hn,hne⟩
      rw [← cons_append, ← append_assoc, ← heq, take_append_drop]
    · next hshort =>
      rw [if_neg hshort]
      exact judge_ends rfl _ h
  cases mid with
  | nil => exact absurd rfl hne
  | cons d mid =>
    rw [cons_append, cons.injEq] at heq
    exact ⟨mid,after,heq.2,hn⟩

end OnPremGateway.SpeakVerdicts
