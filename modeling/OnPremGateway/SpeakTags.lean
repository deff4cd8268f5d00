import OnPremGateway.Utf8Runes

/-!
# The spoken sections of an answer

The scanner takes the speak tags out of a streamed answer and captures the text
between them. Of a delta that ends inside a possible tag it keeps back the bytes from
the `<` on; they are judged again with the next delta, on at most 512 bytes.
-/

set_option autoImplicit false

namespace OnPremGateway.SpeakTags
open Utf8Runes

def maxSpeakTagLen : ℕ := 512

inductive SpeakTagKind where
  | speakTagNone
  | speakTagPartial
  | speakTagOpen
  | speakTagClose
  | speakTagSelfClosing
  deriving DecidableEq, Repr

structure SpeakTag where
  kind : SpeakTagKind
  n : ℕ
  attrs : Bytes
  deriving DecidableEq, Repr

def asciiLower (c : UInt8) : UInt8 := if 65 ≤ c.toNat ∧ c.toNat ≤ 90 then c+32 else c

def isSpeakSpace (c : UInt8) : Bool := c = 32 ∨ c = 9 ∨ c = 10 ∨ c = 13

/-! ### Tags -/

def nameVerdict (undecided : SpeakTagKind) : Bytes → Bytes → Option SpeakTagKind
  | [], _ => none
  | _::_, [] => some undecided
  | n::name, c::rest => if asciiLower c ≠ n then some .speakTagNone else nameVerdict undecided name rest

def speakName : Bytes := [115,112,101,97,107]

def isClosing (b : Bytes) : Bool := b[1]? = some 47

def namePos (b : Bytes) : ℕ := if isClosing b then 2 else 1

def scanSpeakName (b : Bytes) (undecided : SpeakTagKind) : Except SpeakTagKind (ℕ × Bool) :=
  match nameVerdict undecided speakName (b.drop (namePos b)) with
  | some verdict => .error verdict
  | none =>
    if b.length ≤ namePos b+speakName.length then .error undecided
    else .ok (namePos b+speakName.length,isClosing b)

def scanSpeakClose (undecided : SpeakTagKind) : ℕ → Bytes → SpeakTag
  | _, [] => ⟨undecided,0,[]⟩
  | pos, c::rest =>
    if c = 62 then ⟨.speakTagClose,pos+1,[]⟩
    else if !isSpeakSpace c then ⟨.speakTagNone,0,[]⟩
    else scanSpeakClose undecided (pos+1) rest

def scanSpeakAttrs (undecided : SpeakTagKind) : Option UInt8 → Bytes → ℕ → Bytes → SpeakTag
  | _, _, _, [] => ⟨undecided,0,[]⟩
  | some quote, seen, pos, c::rest =>
    scanSpeakAttrs undecided (if c = quote then none else some quote) (seen ++ [c]) (pos+1) rest
  | none, seen, pos, c::rest =>
    if c = 34 ∨ c = 39 then scanSpeakAttrs undecided (some c) (seen ++ [c]) (pos+1) rest
    else if c = 62 then
      if seen.getLast? = some 47 then ⟨.speakTagSelfClosing,pos+1,seen.dropLast⟩
      else ⟨.speakTagOpen,pos+1,seen⟩
    else scanSpeakAttrs undecided none (seen ++ [c]) (pos+1) rest

def scanSpeakOpen (undecided : SpeakTagKind) (pos : ℕ) : Bytes → SpeakTag
  | [] => ⟨undecided,0,[]⟩
  | c::rest =>
    if c = 62 then ⟨.speakTagOpen,pos+1,[]⟩
    else if c = 47 then
      match rest with
      | [] => ⟨undecided,0,[]⟩
      | d::_ => if d = 62 then ⟨.speakTagSelfClosing,pos+2,[]⟩ else ⟨.speakTagNone,0,[]⟩
    else if !isSpeakSpace c then ⟨.speakTagNone,0,[]⟩
    else scanSpeakAttrs undecided none [] pos (c::rest)

def judge (undecided : SpeakTagKind) (b : Bytes) : SpeakTag :=
  match scanSpeakName b undecided with
  | .error verdict => ⟨verdict,0,[]⟩
  | .ok (pos,closing) =>
    if closing then scanSpeakClose undecided pos (b.drop pos) else scanSpeakOpen undecided pos (b.drop pos)

def matchSpeakTag (b : Bytes) : SpeakTag :=
  if maxSpeakTagLen < b.length then judge .speakTagNone (b.take maxSpeakTagLen) else judge .speakTagPartial b

def isPartialSpeakClose (b : Bytes) : Bool :=
  isClosing b && (matchSpeakTag b).kind = .speakTagPartial

/-! ### The language of a tag -/

def isNameByte (c : UInt8) : Bool := !isSpeakSpace c && c ≠ 61

def readSpeakAttrValue : Bytes → Bytes × Bytes
  | [] => ([],[])
  | c::rest =>
    if c = 34 ∨ c = 39 then (rest.takeWhile (· ≠ c),(rest.dropWhile (· ≠ c)).drop 1)
    else ((c::rest).takeWhile fun d => !isSpeakSpace d,(c::rest).dropWhile fun d => !isSpeakSpace d)

theorem length_dropWhile_le (p : UInt8 → Bool) (s : Bytes) : (s.dropWhile p).length ≤ s.length :=
  (List.dropWhile_suffix p).length_le

theorem length_readSpeakAttrValue (s : Bytes) : (readSpeakAttrValue s).2.length ≤ s.length := by
  cases s with
  | nil => exact le_rfl
  | cons c rest =>
    rw [readSpeakAttrValue]
    split
    · rw [List.length_drop, List.length_cons]
      have := length_dropWhile_le (· ≠ c) rest
      omega
    · exact length_dropWhile_le _ _

/-- An attribute without a value is skipped whole. -/
theorem length_next_lt {attrs rest : Bytes} {c : UInt8} (hc : c ≠ 61)
    (h : (((attrs.dropWhile isSpeakSpace).dropWhile isNameByte).dropWhile isSpeakSpace) = c::rest) :
    (c::rest).length < attrs.length := by
  rw [← h]
  have hspace := length_dropWhile_le isSpeakSpace attrs
  cases hstart : attrs.dropWhile isSpeakSpace with
  | nil =>
    rw [hstart] at h
    cases h
  | cons d start =>
    have hd : isSpeakSpace d = false := by
      have hne : attrs.dropWhile isSpeakSpace ≠ [] := by
        rw [hstart]
        exact List.cons_ne_nil d start
      have hhead := List.head_dropWhile_not isSpeakSpace hne
      simpa [hstart] using hhead
    by_cases heq : d = 61
    · have hname : isNameByte d = false := by simp [isNameByte, heq]
      rw [hstart, List.dropWhile_cons_of_neg (by simp [hname]), List.dropWhile_cons_of_neg (by simp [hd]),
        List.cons.injEq] at h
      exact absurd (h.1.symm.trans heq) hc
    have hname : isNameByte d = true := by simp [isNameByte, hd, heq]
    rw [List.dropWhile_cons_of_pos hname]
    have h1 := length_dropWhile_le isNameByte start
    have h2 := length_dropWhile_le isSpeakSpace (start.dropWhile isNameByte)
    rw [hstart, List.length_cons] at hspace
    omega

def langName : Bytes := [108,97,110,103]

def parseSpeakLang (attrs : Bytes) : Bytes :=
  let start := attrs.dropWhile isSpeakSpace
  match h : (start.dropWhile isNameByte).dropWhile isSpeakSpace with
  | [] => []
  | c::rest =>
    if hc : c = 61 then
      let value := readSpeakAttrValue (rest.dropWhile isSpeakSpace)
      if (start.takeWhile isNameByte).map asciiLower = langName then value.1 else parseSpeakLang value.2
    else parseSpeakLang (c::rest)
  termination_by attrs.length
  decreasing_by
    · have h1 := length_readSpeakAttrValue (rest.dropWhile isSpeakSpace)
      have h2 := length_dropWhile_le isSpeakSpace rest
      have h3 := length_dropWhile_le isSpeakSpace ((attrs.dropWhile isSpeakSpace).dropWhile isNameByte)
      have h4 := length_dropWhile_le isNameByte (attrs.dropWhile isSpeakSpace)
      have h5 := length_dropWhile_le isSpeakSpace attrs
      rw [h, List.length_cons] at h3
      omega
    · exact length_next_lt hc h

/-! ### The scanner -/

structure SpeakRegion where
  text : Bytes
  lang : Bytes
  runeOffset : ℕ
  deriving DecidableEq, Repr

/-- The tags seen and the regions captured, the last of them unfinished while it is
open. -/
structure Capture where
  found : Bool := false
  selfClosingLang : Bytes := []
  regions : List SpeakRegion := []
  isOpen : Bool := false
  text : Bytes := []

def Capture.openTag (c : Capture) (attrs : Bytes) (offset : ℕ) : Capture :=
  if c.isOpen then { c with found := true }
  else
    { c with
      found := true
      isOpen := true
      regions := c.regions ++ [⟨[],parseSpeakLang attrs,offset⟩] }

def Capture.selfClosingTag (c : Capture) (attrs : Bytes) : Capture :=
  { c with
    found := true
    selfClosingLang := if c.found then c.selfClosingLang else parseSpeakLang attrs }

def Capture.finishRegion (c : Capture) : Capture :=
  if c.isOpen then
    { c with
      regions := c.regions.dropLast ++ (c.regions.getLast?.map fun r => { r with text := c.text }).toList
      text := []
      isOpen := false }
  else c

def Capture.write (c : Capture) (text : Bytes) : Capture :=
  if c.isOpen then { c with text := c.text ++ text } else c

def Capture.regionsDone (c : Capture) : List SpeakRegion := if c.isOpen then c.regions.dropLast else c.regions

def Capture.summary (c : Capture) : Bytes × Bytes :=
  match c.regions with
  | [] => ([],c.selfClosingLang)
  | first::rest => if c.isOpen ∧ rest = [] then (c.text,first.lang) else (first.text,first.lang)

/-- None for the source's -1. -/
def Capture.summaryStart (c : Capture) : Option ℕ := c.regions.head?.map SpeakRegion.runeOffset

structure SpeakScanner extends Capture where
  pending : Bytes := []
  runes : ℕ := 0
  runeCarry : Bytes := []

def SpeakScanner.countRunes (s : SpeakScanner) (text : Bytes) : SpeakScanner :=
  let text := s.runeCarry ++ text
  let cut := incompleteAt text
  { s with
    runes := s.runes+runeCount (text.take cut)
    runeCarry := text.drop cut }

def SpeakScanner.emit (s : SpeakScanner) (text : Bytes) : SpeakScanner :=
  if text = [] then s
  else
    let s := s.countRunes text
    { s with toCapture := s.toCapture.write text }

def SpeakScanner.openTag (s : SpeakScanner) (attrs : Bytes) : SpeakScanner :=
  { s with toCapture := s.toCapture.openTag attrs (s.runes+runeCount s.runeCarry) }

structure Written where
  scanner : SpeakScanner
  clean : Bytes := []
  closedIdx : ℕ := 0
  closed : Bool := false

def Written.emit (w : Written) (text : Bytes) : Written :=
  { w with
    scanner := w.scanner.emit text
    clean := w.clean ++ text }

def Written.tag (w : Written) (tag : SpeakTag) : Written :=
  match tag.kind with
  | .speakTagOpen => { w with scanner := w.scanner.openTag tag.attrs }
  | .speakTagSelfClosing =>
    { w with scanner := { w.scanner with toCapture := w.scanner.toCapture.selfClosingTag tag.attrs } }
  | _ =>
    if w.scanner.isOpen then
      { w with
        scanner := { w.scanner with toCapture := w.scanner.toCapture.finishRegion }
        closedIdx := w.scanner.regions.length-1
        closed := true }
    else w

/-- The loop of a write: the text up to the next `<`, then the possible tag there.
Every round but the last takes at least one byte. -/
def writeLoop : ℕ → Written → Bytes → Written
  | 0, w, _ => w
  | fuel+1, w, input =>
    if input = [] then w
    else
      let w := w.emit (input.takeWhile (· ≠ 60))
      match input.dropWhile (· ≠ 60) with
      | [] => w
      | lt::rest =>
        let tag := matchSpeakTag (lt::rest)
        match tag.kind with
        | .speakTagPartial => { w with scanner := { w.scanner with pending := lt::rest } }
        | .speakTagNone => writeLoop fuel (w.emit [60]) rest
        | _ => writeLoop fuel (w.tag tag) ((lt::rest).drop tag.n)

def SpeakScanner.write (s : SpeakScanner) (delta : Bytes) : Written :=
  let input := s.pending ++ delta
  writeLoop input.length { scanner := { s with pending := [] } } input

def SpeakScanner.close (s : SpeakScanner) : SpeakScanner × Bytes :=
  let t := { s with pending := [] }
  let t := if s.isOpen && isPartialSpeakClose s.pending then t else t.emit s.pending
  ({ t with toCapture := t.toCapture.finishRegion },s.pending)

def scanStream : SpeakScanner → List Bytes → Bytes × SpeakScanner
  | s, [] => (s.close.2,s.close.1)
  | s, delta::deltas =>
    let w := s.write delta
    let rest := scanStream w.scanner deltas
    (w.clean ++ rest.1,rest.2)

end OnPremGateway.SpeakTags
