import OnPremGateway.JsonText

/-!
# Machine numbers in JSON texts

A decimal is read as the nearest machine number, and a machine number is
written as the shortest decimal that is read as it. The text of a machine
number denotes that decimal.
-/

set_option autoImplicit false

namespace OnPremGateway.Float64Text
open JsonValue JsonText List Nat Option

variable (n : ℕ) (f : ℚ) (rest : List Char) (neg : Bool) (ds : List Char) (p : ℤ)

/-! ### Rounding -/

def roundHalfEven (q : ℚ) : ℕ :=
  let n := ⌊q⌋₊
  if q - n < 1/2 then n
  else if 1/2 < q - n then n+1
  else if n % 2 = 0 then n
  else n+1

def highBit (q : ℚ) : ℤ :=
  let e : ℤ := (q.num.natAbs.log2 : ℤ) - (q.den.log2 : ℤ)
  if (2 : ℚ)^e ≤ q then e else e-1

/-- The nearest number with 53 bits above the smallest exponent, ties to even. -/
def roundBits (q : ℚ) : ℚ :=
  let e := max (highBit q - 52) (-1074)
  roundHalfEven (q/2^e) * 2^e

def toFloat64 (x : ℚ) : Option ℚ :=
  if x = 0 then some 0
  else
    let r := roundBits |x|
    if 2^1024 ≤ r then none else some (if x < 0 then -r else r)

/-! ### The shortest decimal -/

/-- The multiple of a power of ten that is read as the positive number and is
closest to it, among the two multiples next to it. -/
def shortestAt (f : ℚ) (p : ℤ) : Option ℕ :=
  let lo := ⌊f/10^p⌋₊
  let low := toFloat64 (lo*10^p) = some f
  let high := toFloat64 ((lo+1)*10^p) = some f
  if low ∧ high then some (roundHalfEven (f/10^p))
  else if low then some lo
  else if high then some (lo+1)
  else none

@[irreducible]
def powers : List ℤ := (List.range 660).map fun i => 309 - (i : ℤ)

def exactDecimal (f : ℚ) : ℕ × ℤ := (f.num.natAbs * 5^f.den.log2, -(f.den.log2 : ℤ))

/-- The digits and the power of ten of the shortest decimal of a positive
number: the multiple of the largest power of ten that is read as it. -/
def shortest (f : ℚ) : ℕ × ℤ :=
  (powers.findSome? fun p => (shortestAt f p).map fun m => (m, p)).getD (exactDecimal f)

def shortestDecimal (f : ℚ) : ℚ :=
  if f = 0 then 0
  else
    let neg : Bool := f < 0
    let d := shortest |f|
    (if neg then -1 else 1) * (d.1 : ℚ) * 10^d.2

example : shortestDecimal (1125899906842624 + 1/4) = 1125899906842624 + 1/5 := by decide +kernel

theorem shortestAt_pos (hf : 0 < f) (p : ℤ) (m : ℕ) (h : shortestAt f p = some m) : 0 < m := by
  rw [shortestAt] at h
  have hzero : toFloat64 ((0 : ℕ)*10^p) ≠ some f := by
    rw [cast_zero, zero_mul, toFloat64, if_pos rfl]
    rintro ⟨⟩
    exact lt_irrefl _ hf
  have hlo : toFloat64 (⌊f/10^p⌋₊*10^p) = some f → 0 < ⌊f/10^p⌋₊ := by
    intro hlow
    rw [pos_iff_ne_zero]
    intro heq
    rw [heq] at hlow
    exact hzero hlow
  split_ifs at h with hboth hlow hhigh
  · cases h
    have hpos := hlo hboth.1
    rw [roundHalfEven]
    split_ifs <;> omega
  · cases h
    exact hlo hlow
  · cases h
    exact succ_pos _

theorem shortest_pos (hf : 0 < f) : 0 < (shortest f).1 := by
  rw [shortest]
  cases hd : powers.findSome? fun p => (shortestAt f p).map fun m => (m, p) with
  | none =>
    have hnum : 0 < f.num.natAbs := Int.natAbs_pos.mpr (Rat.num_ne_zero.mpr hf.ne')
    exact Nat.mul_pos hnum (Nat.pow_pos (by decide))
  | some d =>
    obtain ⟨p,_,hp⟩ := exists_of_findSome?_eq_some hd
    obtain ⟨m,hm,rfl⟩ := map_eq_some_iff.mp hp
    exact shortestAt_pos f hf p m hm

/-! ### The text of a machine number -/

def plainParts (ds : List Char) (p : ℤ) : List Char × List Char :=
  if 0 ≤ p then (ds ++ List.replicate p.toNat '0', [])
  else
    let after := (-p).toNat
    if after < ds.length then (ds.take (ds.length-after), ds.drop (ds.length-after))
    else (['0'], List.replicate (after-ds.length) '0' ++ ds)

def fractionText (frac : List Char) : List Char := if frac = [] then [] else '.'::frac

def exponentText (e : ℤ) : List Char :=
  'e'::(if e < 0 then '-' else '+')::Nat.toDigits 10 e.natAbs

def plainText (ds : List Char) (p : ℤ) : List Char :=
  let parts := plainParts ds p
  parts.1 ++ fractionText parts.2

def scientificText (ds : List Char) (p : ℤ) : List Char :=
  ds.take 1 ++ fractionText (ds.drop 1) ++ exponentText (p + ds.length - 1)

/-- Numbers from one millionth to a sextillion are written without an
exponent. -/
def printFloat64 (f : ℚ) : List Char :=
  if f = 0 then ['0']
  else
    let neg : Bool := f < 0
    let d := shortest |f|
    let ds := Nat.toDigits 10 d.1
    (if neg then ['-'] else []) ++
      if |f| < 1/10^6 ∨ 10^21 ≤ |f| then scientificText ds d.2 else plainText ds d.2

example : printFloat64 (-1/4) = ['-', '0', '.', '2', '5'] := by decide +kernel
example : (toFloat64 (1/10^7)).map printFloat64 = some ['1', 'e', '-', '7'] := by decide +kernel

/-! ### Reading it back -/

def Digits (ds : List Char) : Prop := ∀ c ∈ ds, c.isDigit = true

def NoDigit (rest : List Char) : Prop := ∀ c ∈ rest.head?, c.isDigit = false

theorem takeDigits_append (ds rest : List Char) (hds : Digits ds) (hne : ds ≠ [])
    (hrest : NoDigit rest) : takeDigits (ds ++ rest) = some (ds, rest) := by
  have htake : (ds ++ rest).takeWhile Char.isDigit = ds := by
    rw [takeWhile_append_of_pos hds]
    cases rest with
    | nil => exact append_nil ds
    | cons c rest =>
      rw [takeWhile_cons_of_neg (by rw [hrest c rfl]; exact Bool.false_ne_true), append_nil]
  have hdrop : (ds ++ rest).dropWhile Char.isDigit = rest := by
    rw [dropWhile_append_of_pos hds]
    cases rest with
    | nil => rfl
    | cons c rest =>
      exact dropWhile_cons_of_neg (by rw [hrest c rfl]; exact Bool.false_ne_true)
  rw [takeDigits, htake, hdrop]
  cases ds with
  | nil => exact absurd rfl hne
  | cons d ds => rfl

theorem takeFraction_text (frac rest : List Char) (hfrac : Digits frac) (hrest : NoDigit rest)
    (hpoint : rest.head? ≠ some '.') :
    takeFraction (fractionText frac ++ rest) = some (frac, rest) := by
  rw [fractionText]
  by_cases hnil : frac = []
  · rw [if_pos hnil, hnil, nil_append, takeFraction]
    rintro cs rfl
    exact absurd rfl hpoint
  · rw [if_neg hnil, cons_append]
    exact takeDigits_append frac rest hfrac hnil hrest

theorem takeExponent_stops (hrest : Stops rest) : takeExponent rest = some (0, rest) := by
  cases rest with
  | nil => rfl
  | cons c rest =>
    obtain ⟨_,_,he,hE⟩ := hrest c rfl
    rw [takeExponent, if_neg]
    exact not_or.mpr ⟨he,hE⟩

theorem digits_toDigits : Digits (Nat.toDigits 10 n) := fun _ hc =>
  isDigit_of_mem_toDigits (by decide) (by decide) hc

theorem takeExponent_text (e : ℤ) (rest : List Char) (hrest : NoDigit rest) :
    takeExponent (exponentText e ++ rest) = some (e, rest) := by
  have hdigits := takeDigits_append (toDigits 10 e.natAbs) rest (digits_toDigits _)
    toDigits_ne_nil hrest
  rw [exponentText]
  by_cases he : e < 0
  · rw [if_pos he, cons_append, cons_append, takeExponent, if_pos (.inl rfl), takeExponentSign]
    dsimp only
    rw [hdigits, map_some, if_pos rfl, ofDigitChars_ten_toDigits]
    have hval : -(e.natAbs : ℤ) = e := by omega
    rw [hval]
  · rw [if_neg he, cons_append, cons_append, takeExponent, if_pos (.inl rfl), takeExponentSign]
    dsimp only
    rw [hdigits, map_some, if_neg Bool.false_ne_true, ofDigitChars_ten_toDigits]
    have hval : (e.natAbs : ℤ) = e := by omega
    rw [hval]

theorem takeSign_text (cs : List Char) (hcs : cs.head? ≠ some '-') :
    takeSign ((if neg then ['-'] else []) ++ cs) = (neg, cs) := by
  cases neg with
  | true => rfl
  | false =>
    rw [if_neg Bool.false_ne_true, nil_append, takeSign]
    rintro cs rfl
    exact absurd rfl hcs

theorem head_append_digits (ds cs : List Char) (hds : Digits ds) (hne : ds ≠ []) (c : Char)
    (hc : c.isDigit = false) : (ds ++ cs).head? ≠ some c := by
  cases ds with
  | nil => exact absurd rfl hne
  | cons d ds =>
    rintro ⟨⟩
    rw [hds c mem_cons_self] at hc
    cases hc

theorem noDigit_fractionText (frac tail : List Char) (htail : NoDigit tail) :
    NoDigit (fractionText frac ++ tail) := by
  rw [fractionText]
  split_ifs
  · exact htail
  · rintro c ⟨⟩
    decide

theorem parseNumber_parts (int frac tail rest : List Char) (e : ℤ)
    (hint : Digits int) (hne : int ≠ []) (hzero : int.head? = some '0' → int.length ≤ 1)
    (hfrac : Digits frac) (htail : NoDigit tail) (hpoint : tail.head? ≠ some '.')
    (hexp : takeExponent tail = some (e, rest)) :
    parseNumber ((if neg then ['-'] else []) ++ (int ++ (fractionText frac ++ tail))) =
      some (scaled neg (int ++ frac) (e - frac.length), rest) := by
  have hsign := takeSign_text neg (int ++ (fractionText frac ++ tail))
    (head_append_digits int _ hint hne '-' (by decide))
  have hlead : ¬ (int.head? = some '0' ∧ int.length > 1) := fun h => by
    have := hzero h.1
    omega
  rw [parseNumber, hsign]
  simp only [takeDigits_append int _ hint hne (noDigit_fractionText frac tail htail),
    bind_eq_bind, bind_some, if_neg hlead, takeFraction_text frac tail hfrac htail hpoint,
    hexp]

structure Leading (ds : List Char) : Prop where
  digits : Digits ds
  ne_nil : ds ≠ []
  head : ds.head? ≠ some '0'

theorem leading_toDigits (hn : 0 < n) : Leading (Nat.toDigits 10 n) := by
  refine ⟨digits_toDigits n,toDigits_ne_nil,?_⟩
  induction n using Nat.strong_induction_on with
  | _ n ih =>
    by_cases hlt : n < 10
    · rw [toDigits_of_lt_base hlt]
      interval_cases n <;> decide
    rw [toDigits_of_base_le (by decide) (not_lt.mp hlt)]
    have hdiv := ih (n/10) (by omega) (by omega)
    cases hd : toDigits 10 (n/10) with
    | nil => exact absurd hd toDigits_ne_nil
    | cons d ds =>
      rw [hd] at hdiv
      exact hdiv

theorem noDigit_of_stops {rest : List Char} (h : Stops rest) : NoDigit rest := fun c hc => (h c hc).1

theorem head_ne_point_of_stops {rest : List Char} (h : Stops rest) : rest.head? ≠ some '.' := fun heq =>
  (h '.' heq).2.1 rfl

theorem digits_zeros : Digits (List.replicate n '0') := by
  intro c hc
  rw [eq_of_mem_replicate hc]
  decide

theorem Digits.append {ds es : List Char} (hds : Digits ds) (hes : Digits es) : Digits (ds ++ es) :=
  forall_mem_append.mpr ⟨hds,hes⟩

structure Parts (ds : List Char) (p : ℤ) (int frac : List Char) (e : ℤ) : Prop where
  intDigits : Digits int
  ne_nil : int ≠ []
  zero : int.head? = some '0' → int.length ≤ 1
  fracDigits : Digits frac
  value : ∀ neg, scaled neg (int ++ frac) (e - frac.length) = scaled neg ds p

theorem parts_trailing (hds : Leading ds) (hp : 0 ≤ p) :
    Parts ds p (ds ++ List.replicate p.toNat '0') [] 0 := by
  constructor
  case intDigits => exact hds.digits.append (digits_zeros _)
  case ne_nil => exact fun h => hds.ne_nil (append_eq_nil_iff.mp h).1
  case zero =>
    intro h
    rw [head?_append_of_ne_nil _ hds.ne_nil] at h
    exact absurd h hds.head
  case fracDigits => exact nofun
  case value =>
    intro neg
    obtain ⟨n,rfl⟩ := Int.eq_ofNat_of_zero_le hp
    rw [scaled, scaled, append_nil, ofDigitChars_append, Int.toNat_natCast,
      ofDigitChars_replicate_zero]
    push_cast
    simp only [length_nil, cast_zero, sub_zero, zpow_zero, zpow_natCast]
    ring

theorem parts_inner (hds : Leading ds) (hp : ¬ 0 ≤ p)
    (hlen : (-p).toNat < ds.length) :
    Parts ds p (ds.take (ds.length-(-p).toNat)) (ds.drop (ds.length-(-p).toNat)) 0 := by
  constructor
  case intDigits => exact fun c hc => hds.digits c (mem_of_mem_take hc)
  case ne_nil =>
    intro h
    have hlength := congrArg length h
    rw [length_take, length_nil] at hlength
    omega
  case zero =>
    intro h
    rw [head?_take, if_neg (by omega)] at h
    exact absurd h hds.head
  case fracDigits => exact fun c hc => hds.digits c (mem_of_mem_drop hc)
  case value =>
    intro neg
    have hexp : (0 : ℤ) - (ds.drop (ds.length-(-p).toNat)).length = p := by
      rw [length_drop]
      omega
    rw [take_append_drop, hexp]

theorem parts_leading (hds : Leading ds) (hp : ¬ 0 ≤ p)
    (hlen : ¬ (-p).toNat < ds.length) :
    Parts ds p ['0'] (List.replicate ((-p).toNat-ds.length) '0' ++ ds) 0 := by
  constructor
  case intDigits => exact digits_zeros 1
  case ne_nil => exact nofun
  case zero => exact fun _ => le_refl 1
  case fracDigits => exact (digits_zeros _).append hds.digits
  case value =>
    intro neg
    have hexp : (0 : ℤ) - (replicate ((-p).toNat-ds.length) '0' ++ ds).length = p := by
      rw [length_append, length_replicate]
      omega
    rw [hexp, scaled, scaled, ofDigitChars_append, ofDigitChars_append,
      ofDigitChars_replicate_zero]
    rfl

theorem parts_plain (hds : Leading ds) : Parts ds p (plainParts ds p).1 (plainParts ds p).2 0 := by
  rw [plainParts]
  by_cases hp : 0 ≤ p
  · rw [if_pos hp]
    exact parts_trailing ds p hds hp
  rw [if_neg hp]
  by_cases hlen : (-p).toNat < ds.length
  · rw [if_pos hlen]
    exact parts_inner ds p hds hp hlen
  · rw [if_neg hlen]
    exact parts_leading ds p hds hp hlen

theorem parts_scientific (hds : Leading ds) :
    Parts ds p (ds.take 1) (ds.drop 1) (p + ds.length - 1) := by
  have hlength : 0 < ds.length := length_pos_iff.mpr hds.ne_nil
  constructor
  case intDigits => exact fun c hc => hds.digits c (mem_of_mem_take hc)
  case ne_nil =>
    intro h
    have hlen := congrArg length h
    rw [length_take, length_nil] at hlen
    omega
  case zero =>
    intro _
    rw [length_take]
    exact min_le_left 1 _
  case fracDigits => exact fun c hc => hds.digits c (mem_of_mem_drop hc)
  case value =>
    intro neg
    have hexp : p + ds.length - 1 - ((ds.drop 1).length : ℤ) = p := by
      rw [length_drop]
      omega
    rw [take_append_drop, hexp]

theorem parseNumber_plain (ds rest : List Char) (p : ℤ) (hds : Leading ds)
    (hrest : Stops rest) : parseNumber ((if neg then ['-'] else []) ++ (plainText ds p ++ rest)) =
      some (scaled neg ds p, rest) := by
  have h := parts_plain ds p hds
  rw [plainText, append_assoc, parseNumber_parts neg _ _ rest rest 0 h.intDigits h.ne_nil
    h.zero h.fracDigits (noDigit_of_stops hrest) (head_ne_point_of_stops hrest)
    (takeExponent_stops rest hrest),
    h.value]

theorem parseNumber_scientific (ds rest : List Char) (p : ℤ) (hds : Leading ds)
    (hrest : Stops rest) :
    parseNumber ((if neg then ['-'] else []) ++ (scientificText ds p ++ rest)) =
      some (scaled neg ds p, rest) := by
  have h := parts_scientific ds p hds
  have hexp := takeExponent_text (p + ds.length - 1) rest (noDigit_of_stops hrest)
  rw [scientificText, append_assoc, append_assoc, parseNumber_parts neg _ _ _ rest _
    h.intDigits h.ne_nil h.zero h.fracDigits _ _ hexp, h.value]
  · rintro c ⟨⟩
    decide
  · rintro ⟨⟩

theorem scaled_toDigits (m : ℕ) (p : ℤ) :
    scaled neg (Nat.toDigits 10 m) p = (if neg then -1 else 1) * (m : ℚ) * 10^p := by
  rw [scaled, ofDigitChars_ten_toDigits]

/-- A machine number is written as its shortest decimal. -/
theorem parseNumber_printFloat64 (hrest : Stops rest) :
    parseNumber (printFloat64 f ++ rest) = some (shortestDecimal f, rest) := by
  rw [printFloat64, shortestDecimal]
  by_cases hf : f = 0
  · rw [if_pos hf, if_pos hf]
    have hzero := parseNumber_parts false ['0'] [] rest rest 0 (digits_zeros 1) nofun
      (fun _ => le_refl 1) nofun (noDigit_of_stops hrest) (head_ne_point_of_stops hrest)
      (takeExponent_stops rest hrest)
    refine hzero.trans ?_
    rw [scaled, append_nil]
    norm_num [ofDigitChars_cons]
  rw [if_neg hf, if_neg hf]
  have hlead := leading_toDigits _ (shortest_pos |f| (abs_pos.mpr hf))
  rw [← scaled_toDigits, append_assoc]
  by_cases hlong : |f| < 1/10^6 ∨ 10^21 ≤ |f|
  · rw [if_pos hlong]
    exact parseNumber_scientific _ _ rest _ hlead hrest
  · rw [if_neg hlong]
    exact parseNumber_plain _ _ rest _ hlead hrest

theorem numberHead_parts {ds int frac : List Char} {p e : ℤ} (h : Parts ds p int frac e)
    (neg : Bool) (cs : List Char) :
    ∃ c cs', (if neg then ['-'] else []) ++ (int ++ cs) = c::cs' ∧ NumberHead c := by
  cases neg with
  | true => exact ⟨_,_,rfl,.inl rfl⟩
  | false =>
    cases int with
    | nil => exact absurd rfl h.ne_nil
    | cons c int => exact ⟨c,_,rfl,.inr (h.intDigits c mem_cons_self)⟩

theorem readable_printFloat64 : Readable printFloat64 shortestDecimal := by
  refine ⟨?_,parseNumber_printFloat64⟩
  intro f
  rw [printFloat64]
  by_cases hf : f = 0
  · rw [if_pos hf]
    exact ⟨_,_,rfl,.inr (by decide)⟩
  rw [if_neg hf]
  have hlead := leading_toDigits _ (shortest_pos |f| (abs_pos.mpr hf))
  dsimp only
  by_cases hlong : |f| < 1/10^6 ∨ 10^21 ≤ |f|
  · rw [if_pos hlong, scientificText, append_assoc]
    exact numberHead_parts (parts_scientific _ (shortest |f|).2 hlead) _ _
  · rw [if_neg hlong, plainText]
    exact numberHead_parts (parts_plain _ _ hlead) _ _

end OnPremGateway.Float64Text
