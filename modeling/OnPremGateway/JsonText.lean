import OnPremGateway.JsonValue

/-!
# JSON texts

A reader of JSON texts, which keeps numbers exact, and a writer. What the
writer writes the reader reads back, for every way of writing numbers that
the reader understands.
-/

set_option autoImplicit false

namespace OnPremGateway.JsonText
open JsonValue List Option

/-! ### Strings -/

def hexValue (c : Char) : Option ℕ :=
  if '0' ≤ c ∧ c ≤ '9' then some (c.toNat - 48)
  else if 'a' ≤ c ∧ c ≤ 'f' then some (c.toNat - 87)
  else if 'A' ≤ c ∧ c ≤ 'F' then some (c.toNat - 55)
  else none

def hex4 (a b c d : Char) : Option ℕ := do
  let a ← hexValue a
  let b ← hexValue b
  let c ← hexValue c
  let d ← hexValue d
  some (4096*a + 256*b + 16*c + d)

/-- A character of a string, or a code unit written with four hexadecimal
digits. -/
inductive Piece where
  | char (c : Char)
  | unit (n : ℕ)
  deriving DecidableEq, Repr

def unescape (c : Char) : Option Char :=
  if c = '"' then some '"'
  else if c = '\\' then some '\\'
  else if c = '/' then some '/'
  else if c = 'b' then some '\x08'
  else if c = 'f' then some '\x0c'
  else if c = 'n' then some '\n'
  else if c = 'r' then some '\r'
  else if c = 't' then some '\t'
  else none

def scanString : List Char → Option (List Piece × List Char)
  | [] => none
  | '\\' :: 'u'::a::b::c::d::cs =>
    match hex4 a b c d with
    | none => none
    | some n => (scanString cs).map fun r => (.unit n::r.1, r.2)
  | '\\'::c::cs =>
    match unescape c with
    | none => none
    | some c => (scanString cs).map fun r => (.char c::r.1, r.2)
  | c::cs =>
    if c = '"' then some ([], cs)
    else if c.toNat < 32 then none
    else (scanString cs).map fun r => (.char c::r.1, r.2)

def isHighSurrogate (n : ℕ) : Bool := 0xd800 ≤ n && n < 0xdc00
def isLowSurrogate (n : ℕ) : Bool := 0xdc00 ≤ n && n < 0xe000

def unitChar (n : ℕ) : Char :=
  if isHighSurrogate n || isLowSurrogate n then '\ufffd' else Char.ofNat n

def joinPieces : List Piece → List Char
  | [] => []
  | .char c::ps => c::joinPieces ps
  | .unit hi::.unit lo::ps =>
    if isHighSurrogate hi && isLowSurrogate lo then
      Char.ofNat (0x10000 + (hi - 0xd800)*0x400 + (lo - 0xdc00))::joinPieces ps
    else unitChar hi::joinPieces (.unit lo::ps)
  | .unit n::ps => unitChar n::joinPieces ps

def parseString (cs : List Char) : Option (String × List Char) :=
  (scanString cs).map fun r => (String.ofList (joinPieces r.1), r.2)

def hexDigit (n : ℕ) : Char := if n < 10 then Char.ofNat (48+n) else Char.ofNat (87+n)

/-- Characters that are written with four hexadecimal digits: those below the
space, and a few that could end a script or a line. -/
def isUnit (c : Char) : Bool :=
  c.toNat < 32 || c = '<' || c = '>' || c = '&' || c = '\u2028' || c = '\u2029'

def escapeChar (c : Char) : List Char :=
  if c = '"' then ['\\', '"']
  else if c = '\\' then ['\\', '\\']
  else if c = '\x08' then ['\\', 'b']
  else if c = '\x0c' then ['\\', 'f']
  else if c = '\n' then ['\\', 'n']
  else if c = '\r' then ['\\', 'r']
  else if c = '\t' then ['\\', 't']
  else if isUnit c then
    ['\\', 'u', hexDigit (c.toNat/4096%16), hexDigit (c.toNat/256%16), hexDigit (c.toNat/16%16),
      hexDigit (c.toNat%16)]
  else [c]

def printString (s : String) : List Char := '"'::(s.toList.flatMap escapeChar ++ ['"'])

theorem hexValue_hexDigit (n : ℕ) (h : n < 16) : hexValue (hexDigit n) = some n := by
  interval_cases n <;> decide

theorem hex4_digits (n : ℕ) (h : n < 65536) :
    hex4 (hexDigit (n/4096%16)) (hexDigit (n/256%16)) (hexDigit (n/16%16)) (hexDigit (n%16)) =
      some n := by
  have hlt : ∀ k, k % 16 < 16 := fun k => Nat.mod_lt k (by decide)
  rw [hex4, hexValue_hexDigit _ (hlt _), hexValue_hexDigit _ (hlt _), hexValue_hexDigit _ (hlt _),
    hexValue_hexDigit _ (hlt _)]
  simp only [bind_eq_bind, bind_some, some.injEq]
  omega

def pieceOf (c : Char) : Piece :=
  if c = '\x08' ∨ c = '\x0c' ∨ c = '\n' ∨ c = '\r' ∨ c = '\t' then .char c
  else if isUnit c then .unit c.toNat
  else .char c

variable (c : Char) (cs : List Char)

theorem isUnit_lt (h : isUnit c = true) : c.toNat < 0xd800 := by
  simp only [isUnit, Bool.or_eq_true, decide_eq_true_eq] at h
  rcases h with ((((h | rfl) | rfl) | rfl) | rfl) | rfl
  · omega
  all_goals decide

theorem scanString_plain (hq : c ≠ '"') (hb : c ≠ '\\')
    (hc : ¬ c.toNat < 32) :
    scanString (c::cs) = (scanString cs).map fun r => (.char c::r.1, r.2) := by
  rw [scanString]
  · rw [if_neg hq, if_neg hc]
  · rintro a b c d cs' rfl
    exact absurd rfl hb
  · rintro c' cs' rfl
    exact absurd rfl hb

theorem scanString_unit (h : isUnit c = true) :
    scanString ('\\' :: 'u'::hexDigit (c.toNat/4096%16)::hexDigit (c.toNat/256%16)::
      hexDigit (c.toNat/16%16)::hexDigit (c.toNat%16)::cs) =
      (scanString cs).map fun r => (.unit c.toNat::r.1, r.2) := by
  have hlt := isUnit_lt c h
  rw [scanString, hex4_digits c.toNat (by omega)]

theorem scanString_escapeChar :
    scanString (escapeChar c ++ cs) = (scanString cs).map fun r => (pieceOf c::r.1, r.2) := by
  rw [escapeChar]
  split_ifs with hq hb hbs hff hn hr ht hu
  · subst hq
    rfl
  · subst hb
    rfl
  · subst hbs
    rfl
  · subst hff
    rfl
  · subst hn
    rfl
  · subst hr
    rfl
  · subst ht
    rfl
  · rw [pieceOf, if_neg (by simp [hbs, hff, hn, hr, ht]), if_pos hu]
    exact scanString_unit c cs hu
  · rw [pieceOf, if_neg (by simp [hbs, hff, hn, hr, ht]), if_neg hu]
    apply scanString_plain c cs hq hb
    intro hlt
    exact hu (by simp [isUnit, hlt])

theorem scanString_escape (cs rest : List Char) :
    scanString (cs.flatMap escapeChar ++ '"'::rest) = some (cs.map pieceOf, rest) := by
  induction cs with
  | nil => rfl
  | cons c cs ih =>
    rw [flatMap_cons, append_assoc, scanString_escapeChar, ih]
    rfl

theorem unitChar_toNat (h : c.toNat < 0xd800) : unitChar c.toNat = c := by
  have hhigh : isHighSurrogate c.toNat = false := by simp [isHighSurrogate]; omega
  have hlow : isLowSurrogate c.toNat = false := by simp [isLowSurrogate]; omega
  rw [unitChar, hhigh, hlow]
  exact Char.ofNat_toNat c

theorem joinPieces_pieceOf : joinPieces (cs.map pieceOf) = cs := by
  induction cs with
  | nil => rfl
  | cons c cs ih =>
    rw [map_cons, pieceOf]
    split_ifs with hctl hu
    · rw [joinPieces, ih]
    · have hlt := isUnit_lt c hu
      have hhigh : isHighSurrogate c.toNat = false := by simp [isHighSurrogate]; omega
      -- a unit that is no surrogate stands for itself, whatever comes next
      have hhead : ∀ ps, joinPieces (.unit c.toNat::ps) = c::joinPieces ps := by
        intro ps
        rcases ps with _ | ⟨_ | lo,ps⟩
        · exact congrArg (·::[]) (unitChar_toNat c hlt)
        · exact congrArg (·::_) (unitChar_toNat c hlt)
        · rw [joinPieces, hhigh, Bool.false_and, if_neg Bool.false_ne_true, unitChar_toNat c hlt]
      rw [hhead, ih]
    · rw [joinPieces, ih]

theorem parseString_print (s : String) (rest : List Char) :
    parseString (s.toList.flatMap escapeChar ++ '"'::rest) = some (s, rest) := by
  rw [parseString, scanString_escape, map_some, joinPieces_pieceOf, String.ofList_toList]

/-! ### Numbers -/

def scaled (neg : Bool) (digits : List Char) (e : ℤ) : ℚ :=
  (if neg then -1 else 1) * (Nat.ofDigitChars 10 digits 0 : ℚ) * 10^e

def takeDigits (cs : List Char) : Option (List Char × List Char) :=
  match cs.takeWhile Char.isDigit with
  | [] => none
  | ds => some (ds, cs.dropWhile Char.isDigit)

def takeSign (cs : List Char) : Bool × List Char :=
  match cs with
  | '-'::cs => (true, cs)
  | cs => (false, cs)

def takeFraction (cs : List Char) : Option (List Char × List Char) :=
  match cs with
  | '.'::cs => takeDigits cs
  | cs => some ([], cs)

def takeExponentSign (cs : List Char) : Bool × List Char :=
  match cs with
  | '-'::cs => (true, cs)
  | '+'::cs => (false, cs)
  | cs => (false, cs)

def takeExponent (cs : List Char) : Option (ℤ × List Char) :=
  match cs with
  | [] => some (0, [])
  | c::cs =>
    if c = 'e' ∨ c = 'E' then
      let sign := takeExponentSign cs
      (takeDigits sign.2).map fun r =>
        (if sign.1 then -(Nat.ofDigitChars 10 r.1 0 : ℤ) else Nat.ofDigitChars 10 r.1 0, r.2)
    else some (0, c::cs)

def parseNumber (cs : List Char) : Option (ℚ × List Char) := do
  let (neg, cs) := takeSign cs
  let (int, cs) ← takeDigits cs
  -- no digit comes after a leading zero
  if int.head? = some '0' ∧ int.length > 1 then none
  else
    let (frac, cs) ← takeFraction cs
    let (e, cs) ← takeExponent cs
    some (scaled neg (int ++ frac) (e - frac.length), cs)

/-! ### Documents -/

def isSpaceChar (c : Char) : Bool := c = ' ' || c = '\t' || c = '\n' || c = '\r'

def skipSpace (cs : List Char) : List Char := cs.dropWhile isSpaceChar

def afterWord : List Char → List Char → Option (List Char)
  | [], cs => some cs
  | _::_, [] => none
  | w::ws, c::cs => if w = c then afterWord ws cs else none

def afterItem {β : Type} (close : Char) (more : List Char → Option (List β × List Char)) (x : β)
    (cs : List Char) : Option (List β × List Char) :=
  match skipSpace cs with
  | [] => none
  | c::cs =>
    if c = ',' then (more cs).map fun r => (x::r.1, r.2)
    else if c = close then some ([x], cs)
    else none

def parseName (cs : List Char) : Option (String × List Char) :=
  match skipSpace cs with
  | '"'::cs =>
    (parseString cs).bind fun r =>
      match skipSpace r.2 with
      | ':'::cs => some (r.1, cs)
      | _ => none
  | _ => none

mutual
/-- A document at the head of a text, and what follows it. The first argument
bounds the number of calls. -/
def parseValue : ℕ → List Char → Option (Json ℚ × List Char)
  | 0, _ => none
  | n+1, cs =>
    match skipSpace cs with
    | [] => none
    | c::cs =>
      if c = '"' then (parseString cs).map fun r => (.str r.1, r.2)
      else if c = '[' then
        if (skipSpace cs).head? = some ']' then some (.arr [], (skipSpace cs).tail)
        else (parseElems n cs).map fun r => (.arr r.1, r.2)
      else if c = '\x7b' then
        if (skipSpace cs).head? = some '\x7d' then some (.obj [], (skipSpace cs).tail)
        else (parseFields n cs).map fun r => (.obj r.1, r.2)
      else if c = 'n' then (afterWord ['u', 'l', 'l'] cs).map fun cs => (.null, cs)
      else if c = 't' then (afterWord ['r', 'u', 'e'] cs).map fun cs => (.bool true, cs)
      else if c = 'f' then (afterWord ['a', 'l', 's', 'e'] cs).map fun cs => (.bool false, cs)
      else (parseNumber (c::cs)).map fun r => (.num r.1, r.2)

def parseElems : ℕ → List Char → Option (List (Json ℚ) × List Char)
  | 0, _ => none
  | n+1, cs => (parseValue n cs).bind fun r => afterItem ']' (parseElems n) r.1 r.2

def parseFields : ℕ → List Char → Option (List (String × Json ℚ) × List Char)
  | 0, _ => none
  | n+1, cs =>
    (parseName cs).bind fun k =>
      (parseValue n k.2).bind fun r => afterItem '\x7d' (parseFields n) (k.1, r.1) r.2
end

theorem mem_of_parseValue_obj (n : ℕ) (cs rest : List Char) (fields : List (String × Json ℚ))
    (h : parseValue n cs = some (.obj fields, rest)) : '\x7b' ∈ cs := by
  cases n with
  | zero => cases h
  | succ n =>
    rw [parseValue] at h
    cases hcs : skipSpace cs with
    | nil =>
      rw [hcs] at h
      cases h
    | cons c cs' =>
      rw [hcs] at h
      dsimp only at h
      have hc : c = '\x7b' := by
        by_contra hne
        split_ifs at h <;> simp [map_eq_some_iff] at h
      apply (dropWhile_sublist isSpaceChar).subset
      rw [← skipSpace, hcs, hc]
      exact mem_cons_self

def parse (text : String) : Option (Json ℚ) :=
  match parseValue (text.toList.length+1) text.toList with
  | none => none
  | some (v, rest) => if skipSpace rest = [] then some v else none

theorem mem_of_parse_obj (text : String) (fields : List (String × Json ℚ))
    (h : parse text = some (.obj fields)) : '\x7b' ∈ text.toList := by
  rw [parse] at h
  cases hv : parseValue (text.toList.length+1) text.toList with
  | none =>
    rw [hv] at h
    cases h
  | some r =>
    obtain ⟨v,rest⟩ := r
    rw [hv] at h
    dsimp only at h
    split_ifs at h
    cases h
    exact mem_of_parseValue_obj _ _ _ _ hv

section Print
variable {α : Type} (printNum : α → List Char)

mutual
def print : Json α → List Char
  | .null => ['n', 'u', 'l', 'l']
  | .bool true => ['t', 'r', 'u', 'e']
  | .bool false => ['f', 'a', 'l', 's', 'e']
  | .num x => printNum x
  | .str s => printString s
  | .arr elems => '['::(printElems elems ++ [']'])
  | .obj fields => '\x7b'::(printFields fields ++ ['\x7d'])

def printElems : List (Json α) → List Char
  | [] => []
  | v::elems => print v ++ printMoreElems elems

def printMoreElems : List (Json α) → List Char
  | [] => []
  | v::elems => ','::(print v ++ printMoreElems elems)

def printFields : List (String × Json α) → List Char
  | [] => []
  | (k, v)::fields => printString k ++ ':'::(print v ++ printMoreFields fields)

def printMoreFields : List (String × Json α) → List Char
  | [] => []
  | (k, v)::fields => ','::(printString k ++ ':'::(print v ++ printMoreFields fields))
end

def Stops (rest : List Char) : Prop :=
  ∀ c ∈ rest.head?, c.isDigit = false ∧ c ≠ '.' ∧ c ≠ 'e' ∧ c ≠ 'E'

def NumberHead (c : Char) : Prop := c = '-' ∨ c.isDigit = true

instance (c : Char) : Decidable (NumberHead c) := inferInstanceAs (Decidable (_ ∨ _))

structure Readable (val : α → ℚ) : Prop where
  head : ∀ x, ∃ c cs, printNum x = c::cs ∧ NumberHead c
  reads : ∀ x rest, Stops rest → parseNumber (printNum x ++ rest) = some (val x, rest)

theorem NumberHead.ne {c d : Char} (h : NumberHead c) (hd : ¬ NumberHead d) : c ≠ d := by
  rintro rfl
  exact hd h

theorem NumberHead.not_space {c : Char} (h : NumberHead c) : isSpaceChar c = false := by
  have hne : ∀ d, ¬ NumberHead d → decide (c = d) = false := fun d hd => decide_eq_false (h.ne hd)
  rw [isSpaceChar, hne ' ' (by decide), hne '\t' (by decide), hne '\n' (by decide),
    hne '\r' (by decide)]
  rfl

theorem stops_cons (c : Char) (rest : List Char)
    (h : c.isDigit = false ∧ c ≠ '.' ∧ c ≠ 'e' ∧ c ≠ 'E') : Stops (c::rest) := by
  rintro c' ⟨⟩
  exact h

theorem skipSpace_cons (c : Char) (cs : List Char) (h : isSpaceChar c = false) :
    skipSpace (c::cs) = c::cs := by
  rw [skipSpace, dropWhile_cons_of_neg]
  rw [h]
  exact Bool.false_ne_true

variable {printNum} {val : α → ℚ}

theorem head_print (h : Readable printNum val) (v : Json α) :
    ∃ c cs, print printNum v = c::cs ∧ isSpaceChar c = false ∧ c ≠ ']' := by
  cases v with
  | null => exact ⟨_,_,rfl,by decide,by decide⟩
  | bool b => cases b <;> exact ⟨_,_,rfl,by decide,by decide⟩
  | num x =>
    obtain ⟨c,cs,hx,hc⟩ := h.head x
    exact ⟨c,cs,hx,hc.not_space,hc.ne (by decide)⟩
  | str s => exact ⟨_,_,rfl,by decide,by decide⟩
  | arr elems => exact ⟨_,_,rfl,by decide,by decide⟩
  | obj fields => exact ⟨_,_,rfl,by decide,by decide⟩

theorem length_print_pos (h : Readable printNum val) (v : Json α) :
    0 < (print printNum v).length := by
  obtain ⟨c,cs,hv,_⟩ := head_print h v
  rw [hv]
  exact Nat.succ_pos _

def ReadsBack (printNum : α → List Char) (val : α → ℚ) (v : Json α) : Prop :=
  ∀ n rest, Stops rest → (print printNum v).length ≤ n →
    parseValue n (print printNum v ++ rest) = some (v.map val, rest)

theorem afterItem_comma {β : Type} (close : Char)
    (more : List Char → Option (List β × List Char)) (x : β) (cs : List Char) :
    afterItem close more x (','::cs) = (more cs).map fun r => (x::r.1, r.2) := by
  rw [afterItem, skipSpace_cons _ _ (by decide)]
  exact if_pos rfl

theorem afterItem_close {β : Type} (close : Char)
    (more : List Char → Option (List β × List Char)) (x : β) (cs : List Char)
    (hspace : isSpaceChar close = false) (hcomma : close ≠ ',') :
    afterItem close more x (close::cs) = some ([x], cs) := by
  rw [afterItem, skipSpace_cons _ _ hspace]
  exact (if_neg hcomma).trans (if_pos rfl)

theorem parseName_print (k : String) (cs : List Char) :
    parseName (printString k ++ ':'::cs) = some (k, cs) := by
  have htext : printString k ++ ':'::cs = '"'::(k.toList.flatMap escapeChar ++ '"' :: ':'::cs) := by
    rw [printString, cons_append, append_assoc]
    rfl
  rw [htext, parseName, skipSpace_cons _ _ (by decide)]
  change (parseString _).bind _ = _
  rw [parseString_print, bind_some]
  rfl

theorem parseElems_print (h : Readable printNum val) (v : Json α) (elems : List (Json α))
    (hall : ∀ w ∈ v::elems, ReadsBack printNum val w) (n : ℕ) (rest : List Char)
    (hn : (printElems printNum (v::elems)).length < n) :
    parseElems n (printElems printNum (v::elems) ++ ']'::rest) =
      some (Json.mapElems val (v::elems), rest) := by
  induction elems generalizing v n with
  | nil =>
    obtain ⟨n,rfl⟩ : ∃ m, n = m+1 := ⟨n-1,by omega⟩
    rw [printElems, printMoreElems, append_nil] at hn ⊢
    have hv := hall v mem_cons_self n (']'::rest) (stops_cons _ _ (by decide)) (by omega)
    rw [parseElems, hv, bind_some, afterItem_close _ _ _ _ (by decide) (by decide)]
    rfl
  | cons w elems ih =>
    obtain ⟨n,rfl⟩ : ∃ m, n = m+1 := ⟨n-1,by omega⟩
    have hmore : printMoreElems printNum (w::elems) = ','::printElems printNum (w::elems) := rfl
    rw [printElems, hmore] at hn ⊢
    rw [length_append, length_cons] at hn
    rw [append_assoc, cons_append]
    have hv := hall v mem_cons_self n (','::(printElems printNum (w::elems) ++ ']'::rest))
      (stops_cons _ _ (by decide)) (by omega)
    have hpos := length_print_pos h v
    have hrest := ih w (fun w hw => hall w (mem_cons_of_mem _ hw)) n (by omega)
    rw [parseElems, hv, bind_some, afterItem_comma, hrest]
    rfl

theorem parseFields_print (f : String × Json α)
    (fields : List (String × Json α)) (hall : ∀ g ∈ f::fields, ReadsBack printNum val g.2) (n : ℕ)
    (rest : List Char) (hn : (printFields printNum (f::fields)).length < n) :
    parseFields n (printFields printNum (f::fields) ++ '\x7d'::rest) =
      some (Json.mapFields val (f::fields), rest) := by
  induction fields generalizing f n with
  | nil =>
    obtain ⟨n,rfl⟩ : ∃ m, n = m+1 := ⟨n-1,by omega⟩
    rw [printFields, printMoreFields, append_nil] at hn ⊢
    rw [length_append, length_cons] at hn
    rw [append_assoc, cons_append]
    have hv := hall f mem_cons_self n ('\x7d'::rest) (stops_cons _ _ (by decide)) (by omega)
    rw [parseFields, parseName_print, bind_some, hv, bind_some,
      afterItem_close _ _ _ _ (by decide) (by decide)]
    rfl
  | cons g fields ih =>
    obtain ⟨n,rfl⟩ : ∃ m, n = m+1 := ⟨n-1,by omega⟩
    have hmore : printMoreFields printNum (g::fields) = ','::printFields printNum (g::fields) := rfl
    rw [printFields, hmore] at hn ⊢
    rw [length_append, length_cons, length_append, length_cons] at hn
    rw [append_assoc, cons_append, append_assoc, cons_append]
    have hv := hall f mem_cons_self n (','::(printFields printNum (g::fields) ++ '\x7d'::rest))
      (stops_cons _ _ (by decide)) (by omega)
    have hrest := ih g (fun g hg => hall g (mem_cons_of_mem _ hg)) n (by omega)
    rw [parseFields, parseName_print, bind_some, hv, bind_some, afterItem_comma, hrest]
    rfl

theorem head_printElems (h : Readable printNum val) (v : Json α) (elems : List (Json α))
    (rest : List Char) : (skipSpace (printElems printNum (v::elems) ++ rest)).head? ≠ some ']' := by
  obtain ⟨c,cs,hv,hspace,hc⟩ := head_print h v
  rw [printElems, hv, cons_append, cons_append, skipSpace_cons _ _ hspace]
  intro heq
  exact hc (some.inj heq)

theorem readsBack_of (h : Readable printNum val) (v : Json α)
    (hv : ∀ n rest, Stops rest → (print printNum v).length ≤ n+1 →
      parseValue (n+1) (print printNum v ++ rest) = some (v.map val, rest)) :
    ReadsBack printNum val v := by
  rintro (_ | n) rest hrest hn
  · exact absurd hn (not_le.mpr (length_print_pos h _))
  · exact hv n rest hrest hn

theorem readsBack_num (h : Readable printNum val) (x : α) : ReadsBack printNum val (.num x) := by
  refine readsBack_of h _ fun n rest hrest hn => ?_
  obtain ⟨c,cs,hx,hc⟩ := h.head x
  have hread := h.reads x rest hrest
  rw [print, hx] at *
  rw [cons_append, parseValue, skipSpace_cons _ _ hc.not_space]
  simp only [hc.ne (show ¬ NumberHead '"' by decide), hc.ne (show ¬ NumberHead '[' by decide),
    hc.ne (show ¬ NumberHead '\x7b' by decide), hc.ne (show ¬ NumberHead 'n' by decide),
    hc.ne (show ¬ NumberHead 't' by decide), hc.ne (show ¬ NumberHead 'f' by decide), if_false]
  rw [← cons_append, hread]
  rfl

theorem readsBack_str (h : Readable printNum val) (s : String) :
    ReadsBack printNum val (.str s) := by
  refine readsBack_of h _ fun n rest hrest hn => ?_
  have htext : print printNum (.str s) ++ rest =
      '"'::(s.toList.flatMap escapeChar ++ '"'::rest) := by
    rw [print, printString, cons_append, append_assoc]
    rfl
  rw [htext, parseValue, skipSpace_cons _ _ (by decide)]
  change (parseString _).map _ = _
  rw [parseString_print]
  rfl

theorem readsBack_arr (h : Readable printNum val) (v : Json α) (elems : List (Json α))
    (hall : ∀ w ∈ v::elems, ReadsBack printNum val w) :
    ReadsBack printNum val (.arr (v::elems)) := by
  refine readsBack_of h _ fun n rest hrest hn => ?_
  rw [print, length_cons, length_append, length_singleton] at hn
  have htext : print printNum (.arr (v::elems)) ++ rest =
      '['::(printElems printNum (v::elems) ++ ']'::rest) := by
    rw [print, cons_append, append_assoc]
    rfl
  rw [htext, parseValue, skipSpace_cons _ _ (by decide)]
  dsimp only
  rw [if_neg (by decide), if_pos rfl, if_neg (head_printElems h v elems _),
    parseElems_print h v elems hall n rest (by omega)]
  rfl

theorem readsBack_obj (h : Readable printNum val) (f : String × Json α)
    (fields : List (String × Json α)) (hall : ∀ g ∈ f::fields, ReadsBack printNum val g.2) :
    ReadsBack printNum val (.obj (f::fields)) := by
  refine readsBack_of h _ fun n rest hrest hn => ?_
  rw [print, length_cons, length_append, length_singleton] at hn
  have htext : print printNum (.obj (f::fields)) ++ rest =
      '\x7b'::(printFields printNum (f::fields) ++ '\x7d'::rest) := by
    rw [print, cons_append, append_assoc]
    rfl
  have hhead : (skipSpace (printFields printNum (f::fields) ++ '\x7d'::rest)).head? ≠
      some '\x7d' := by
    rw [printFields, printString, cons_append, cons_append, skipSpace_cons _ _ (by decide)]
    rintro ⟨⟩
  rw [htext, parseValue, skipSpace_cons _ _ (by decide)]
  dsimp only
  rw [if_neg (by decide), if_neg (by decide), if_pos rfl, if_neg hhead,
    parseFields_print f fields hall n rest (by omega)]
  rfl

/-- What the writer writes the reader reads back. -/
theorem readsBack (h : Readable printNum val) (v : Json α) : ReadsBack printNum val v := by
  induction v using Json.induct with
  | null => exact readsBack_of h _ fun _ _ _ _ => rfl
  | bool b =>
    refine readsBack_of h _ fun _ _ _ _ => ?_
    cases b <;> rfl
  | num x => exact readsBack_num h x
  | str s => exact readsBack_str h s
  | arr elems ih =>
    cases elems with
    | nil => exact readsBack_of h _ fun _ _ _ _ => rfl
    | cons v elems => exact readsBack_arr h v elems ih
  | obj fields ih =>
    cases fields with
    | nil => exact readsBack_of h _ fun _ _ _ _ => rfl
    | cons f fields => exact readsBack_obj h f fields ih

theorem parse_print (h : Readable printNum val) (v : Json α) :
    parse (String.ofList (print printNum v)) = some (v.map val) := by
  have hread := readsBack h v ((print printNum v).length+1) [] nofun (Nat.le_succ _)
  rw [append_nil] at hread
  rw [parse, String.toList_ofList, hread]
  exact if_pos rfl

end Print

example : (parse "[1, true, \"a\\u0041\"]").isSome = true := by decide +kernel

end OnPremGateway.JsonText
