import Mathlib

/-!
# The duration of a WAV stream

The billed duration of an upload is read off its container: the chunks before the
audio are passed over, the last format chunk among them gives the byte rate, and
the declared size of the audio is believed as far as the bytes that really follow
bear it out. The sizes are written by the client that pays. A relay strips the
chunks with a walk of its own, which stops where the bill starts.
-/

set_option autoImplicit false

namespace OnPremGateway.WavDuration
open List Option Nat

abbrev Bytes := List UInt8

/-- A stream: what it holds, and whether it then fails instead of ending. -/
structure Reader where
  bytes : Bytes
  fails : Bool := false

def wavRIFFHeaderLen : ℕ := 12
def wavChunkHeaderLen : ℕ := 8
def wavFmtMinLen : ℕ := 16
def wavTrailingSlackBytes : ℕ := 16384

def riffID : Bytes := [0x52,0x49,0x46,0x46]
def waveID : Bytes := [0x57,0x41,0x56,0x45]
def fmtID : Bytes := [0x66,0x6d,0x74,0x20]
def dataID : Bytes := [0x64,0x61,0x74,0x61]

def leNat : Bytes → ℕ
  | [] => 0
  | b::bs => b.toNat + 256*leNat bs

def uint16At (f : Bytes) (offset : ℕ) : ℕ := leNat ((f.drop offset).take 2)
def uint32At (f : Bytes) (offset : ℕ) : ℕ := leNat ((f.drop offset).take 4)

def Reader.readFull (r : Reader) (n : ℕ) : Option (Bytes × Reader) :=
  if n ≤ r.bytes.length then some (r.bytes.take n,{ r with bytes := r.bytes.drop n }) else none

def wavReadRIFFHeader (r : Reader) : Option Reader :=
  match r.readFull wavRIFFHeaderLen with
  | none => none
  | some (riff,r) => if riff.take 4 = riffID ∧ (riff.drop 8).take 4 = waveID then some r else none

def wavReadChunkHeader (r : Reader) : Option (Bytes × ℕ × Reader) :=
  match r.readFull wavChunkHeaderLen with
  | none => none
  | some (header,r) => some (header.take 4,uint32At header 4,r)

def wavConsistentByteRate (f : Bytes) : Option ℕ :=
  let channels := uint16At f 2
  let sampleRate := uint32At f 4
  let byteRate := uint32At f 8
  let blockAlign := uint16At f 12
  let bits := uint16At f 14
  if channels = 0 ∨ sampleRate = 0 ∨ byteRate = 0 ∨ bits = 0 then none
  else if blockAlign ≠ channels*((bits+7)/8) ∨ byteRate ≠ sampleRate*blockAlign then none
  else some byteRate

def wavReadFmtByteRate (r : Reader) (size : ℕ) : Option (ℕ × Reader) :=
  if size < wavFmtMinLen then none
  else match r.readFull wavFmtMinLen with
    | none => none
    | some (fields,r) => (wavConsistentByteRate fields).map fun rate => (rate,r)

def wavSkipChunkRest (r : Reader) (size consumed : ℕ) : Option Reader :=
  (r.readFull (size - consumed + size % 2)).map Prod.snd

def wavDataDurationMillis (r : Reader) (size byteRate : ℕ) : Option ℕ :=
  let held := r.bytes.length
  let unexplained := if size % 2 = 1 ∧ 0 < held - size then held - size - 1 else held - size
  if byteRate = 0 then none
  else if r.fails ∨ held < size then none
  else if wavTrailingSlackBytes < unexplained then none
  else some (size*1000/byteRate)

/-- The chunks up to the audio; every turn reads a chunk header, so that no more
turns are needed than there are bytes. -/
def wavChunks : ℕ → Reader → ℕ → Option ℕ
  | 0, _, _ => none
  | n+1, r, byteRate =>
    match wavReadChunkHeader r with
    | none => none
    | some (id,size,r) =>
      if id = fmtID then
        match wavReadFmtByteRate r size with
        | none => none
        | some (rate,r) => (wavSkipChunkRest r size wavFmtMinLen).bind fun r => wavChunks n r rate
      else if id = dataID then wavDataDurationMillis r size byteRate
      else (wavSkipChunkRest r size 0).bind fun r => wavChunks n r byteRate

def wavDurationFromReader (r : Reader) : Option ℕ :=
  (wavReadRIFFHeader r).bind fun body => wavChunks body.bytes.length body 0

/-! ### Numbers -/

def leBytes : ℕ → ℕ → Bytes
  | 0, _ => []
  | k+1, n => UInt8.ofNat n::leBytes k (n/256)

theorem leBytes_length (k n : ℕ) : (leBytes k n).length = k := by
  induction k generalizing n with
  | zero => rfl
  | succ k ih => simp [leBytes, ih]

theorem leNat_leBytes (k n : ℕ) (h : n < 256^k) : leNat (leBytes k n) = n := by
  induction k generalizing n with
  | zero =>
    rw [pow_zero, lt_one_iff] at h
    rw [h]
    rfl
  | succ k ih =>
    have hdiv : n/256 < 256^k := by
      rw [pow_succ] at h
      exact Nat.div_lt_of_lt_mul (by rwa [mul_comm])
    rw [leBytes, leNat, ih _ hdiv, UInt8.toNat_ofNat']
    omega

theorem leBytes_leNat (bs : Bytes) : leBytes bs.length (leNat bs) = bs := by
  induction bs with
  | nil => rfl
  | cons b bs ih =>
    have hb := b.toNat_lt
    have hdiv : (b.toNat + 256*leNat bs)/256 = leNat bs := by omega
    have hmod : UInt8.ofNat (b.toNat + 256*leNat bs) = b := by
      apply UInt8.toNat_inj.mp
      rw [UInt8.toNat_ofNat']
      omega
    rw [length_cons, leNat, leBytes, hdiv, ih, hmod]

theorem leNat_lt (bs : Bytes) : leNat bs < 256^bs.length := by
  induction bs with
  | nil => exact one_pos
  | cons b bs ih =>
    have hb := b.toNat_lt
    rw [leNat, length_cons, pow_succ]
    omega

/-! ### Chunks -/

/-- A chunk as it stands in a file; the pad byte counts if the body is of odd length. -/
structure Chunk where
  id : Bytes
  body : Bytes
  pad : UInt8
  id_length : id.length = 4
  body_length : body.length < 256^4

def header (id : Bytes) (size : ℕ) : Bytes := id ++ leBytes 4 size

def padding (size : ℕ) (pad : UInt8) : Bytes := if size % 2 = 1 then [pad] else []

def Chunk.bytes (c : Chunk) : Bytes := header c.id c.body.length ++ c.body ++ padding c.body.length c.pad

theorem padding_length (size : ℕ) (pad : UInt8) : (padding size pad).length = size % 2 := by
  rw [padding]
  split
  · next h => simp [h]
  · simp; omega

theorem readFull_append (a b : Bytes) (fails : Bool) :
    Reader.readFull ⟨a ++ b,fails⟩ a.length = some (a,⟨b,fails⟩) := by
  simp [Reader.readFull]

variable {r r' : Reader} {n rate size : ℕ}

theorem readFull_some {a : Bytes} (h : r.readFull n = some (a,r')) :
    r.bytes = a ++ r'.bytes ∧ a.length = n ∧ r'.fails = r.fails := by
  rw [Reader.readFull] at h
  split at h
  · next hle =>
    cases h
    exact ⟨(take_append_drop n r.bytes).symm,length_take_of_le hle,rfl⟩
  · cases h

theorem readChunkHeader_header {id : Bytes} (hid : id.length = 4) (hsize : size < 256^4)
    (rest : Bytes) (fails : Bool) :
    wavReadChunkHeader ⟨header id size ++ rest,fails⟩ = some (id,size,⟨rest,fails⟩) := by
  have hlen : (header id size).length = wavChunkHeaderLen := by
    simp [header, hid, leBytes_length, wavChunkHeaderLen]
  have hdrop : (header id size).drop 4 = leBytes 4 size := by
    rw [header, ← hid, drop_left]
  have htake : (header id size).take 4 = id := by
    rw [header, ← hid, take_left]
  have hle : (leBytes 4 size).take 4 = leBytes 4 size :=
    take_of_length_le (leBytes_length 4 size).le
  rw [wavReadChunkHeader, ← hlen, readFull_append]
  dsimp only
  rw [htake, uint32At, hdrop, hle, leNat_leBytes 4 size hsize]

theorem readChunkHeader_some {id : Bytes} (h : wavReadChunkHeader r = some (id,size,r')) :
    r.bytes = header id size ++ r'.bytes ∧ id.length = 4 ∧ size < 256^4 ∧ r'.fails = r.fails := by
  rw [wavReadChunkHeader] at h
  cases hread : r.readFull wavChunkHeaderLen with
  | none => rw [hread] at h; cases h
  | some p =>
    obtain ⟨a,r1⟩ := p
    rw [hread] at h
    cases h
    obtain ⟨hbytes,hlen,hfails⟩ := readFull_some hread
    have hid : (a.take 4).length = 4 := by simp [hlen, wavChunkHeaderLen]
    have hsize : (a.drop 4).length = 4 := by simp [hlen, wavChunkHeaderLen]
    have htake : (a.drop 4).take 4 = a.drop 4 := take_of_length_le hsize.le
    have hback : leBytes 4 (leNat (a.drop 4)) = a.drop 4 := by
      have hle := leBytes_leNat (a.drop 4)
      rwa [hsize] at hle
    refine ⟨?_,hid,?_,hfails⟩
    · rw [hbytes, header, uint32At, htake, hback, take_append_drop]
    · have hlt := leNat_lt (a.drop 4)
      rw [hsize] at hlt
      rwa [uint32At, htake]

def chunkRate (c : Chunk) (rate : ℕ) : Option ℕ :=
  if c.id = fmtID then
    if c.body.length < wavFmtMinLen then none else wavConsistentByteRate (c.body.take wavFmtMinLen)
  else some rate

theorem wavChunks_chunk (n : ℕ) (c : Chunk) (hc : c.id ≠ dataID) (rest : Bytes) (fails : Bool) (rate : ℕ) :
    wavChunks (n+1) ⟨c.bytes ++ rest,fails⟩ rate =
      (chunkRate c rate).bind fun rate => wavChunks n ⟨rest,fails⟩ rate := by
  have hbytes : c.bytes ++ rest = header c.id c.body.length ++
      (c.body ++ padding c.body.length c.pad ++ rest) := by
    simp [Chunk.bytes]
  rw [wavChunks, hbytes, readChunkHeader_header c.id_length c.body_length, chunkRate]
  dsimp only
  by_cases hfmt : c.id = fmtID
  · rw [if_pos hfmt, if_pos hfmt, wavReadFmtByteRate]
    by_cases hshort : c.body.length < wavFmtMinLen
    · rw [if_pos hshort, if_pos hshort]
      rfl
    rw [if_neg hshort, if_neg hshort]
    -- the fields, then the rest of the body with its pad byte
    have hsplit : c.body ++ padding c.body.length c.pad ++ rest = c.body.take wavFmtMinLen ++
        (c.body.drop wavFmtMinLen ++ padding c.body.length c.pad ++ rest) := by
      rw [← append_assoc, ← append_assoc, take_append_drop]
    have hfields : (c.body.take wavFmtMinLen).length = wavFmtMinLen :=
      length_take_of_le (not_lt.mp hshort)
    have hskip : (c.body.drop wavFmtMinLen ++ padding c.body.length c.pad).length =
        c.body.length - wavFmtMinLen + c.body.length % 2 := by
      rw [length_append, length_drop, padding_length]
    have hread := readFull_append (c.body.take wavFmtMinLen)
      (c.body.drop wavFmtMinLen ++ padding c.body.length c.pad ++ rest) fails
    rw [hfields, ← hsplit] at hread
    rw [hread]
    dsimp only
    cases hrate : wavConsistentByteRate (c.body.take wavFmtMinLen) with
    | none => rfl
    | some b =>
      rw [map_some, bind_some]
      dsimp only
      rw [wavSkipChunkRest, ← hskip, readFull_append]
      rfl
  · rw [if_neg hfmt, if_neg hc, if_neg hfmt, wavSkipChunkRest]
    have hskip : (c.body ++ padding c.body.length c.pad).length = c.body.length - 0 + c.body.length % 2 := by
      rw [length_append, padding_length, Nat.sub_zero]
    rw [← hskip, readFull_append]
    rfl

theorem wavChunks_data (n size : ℕ) (hsize : size < 256^4) (rest : Bytes) (fails : Bool) (rate : ℕ) :
    wavChunks (n+1) ⟨header dataID size ++ rest,fails⟩ rate =
      wavDataDurationMillis ⟨rest,fails⟩ size rate := by
  rw [wavChunks, readChunkHeader_header rfl hsize]
  dsimp only
  rw [if_neg (by decide), if_pos rfl]

theorem body_of_length {a : Bytes} (h : a.length = size + size % 2) :
    ∃ body pad, body.length = size ∧ a = body ++ padding size pad := by
  refine ⟨a.take size,(a.drop size).headD 0,?_,?_⟩
  · simp [h]
  · have hlen : (a.drop size).length = size % 2 := by simp [h]
    have hdrop : a.drop size = padding size ((a.drop size).headD 0) := by
      rw [padding]
      split
      · next hodd =>
        rw [hodd] at hlen
        obtain ⟨x,hx⟩ := length_eq_one_iff.mp hlen
        rw [hx]
        rfl
      · next heven =>
        exact eq_nil_of_length_eq_zero (by omega)
    rw [← hdrop, take_append_drop]

/-- A turn that succeeds has read a chunk, or the audio. -/
theorem wavChunks_some {ms : ℕ} (h : wavChunks (n+1) r rate = some ms) :
    (∃ c : Chunk, c.id ≠ dataID ∧ ∃ rest rate', r.bytes = c.bytes ++ rest ∧ chunkRate c rate = some rate' ∧
      wavChunks n ⟨rest,r.fails⟩ rate' = some ms) ∨
    ∃ size rest, size < 256^4 ∧ r.bytes = header dataID size ++ rest ∧
      wavDataDurationMillis ⟨rest,r.fails⟩ size rate = some ms := by
  have hstep := h
  rw [wavChunks] at h
  cases hhead : wavReadChunkHeader r with
  | none => rw [hhead] at h; cases h
  | some p =>
    obtain ⟨id,size,⟨rest,fails⟩⟩ := p
    obtain ⟨hbytes,hid,hsize,hfails⟩ := readChunkHeader_some hhead
    dsimp only at hbytes hfails
    subst hfails
    rw [hhead] at h
    dsimp only at h
    by_cases hdata : id = dataID
    · subst hdata
      rw [if_neg (by decide), if_pos rfl] at h
      exact .inr ⟨size,rest,hsize,hbytes,h⟩
    -- whichever way the chunk is passed over, its body and pad byte are there
    have hbody : ∃ a rest', rest = a ++ rest' ∧ a.length = size + size % 2 := by
      by_cases hfmt : id = fmtID
      · rw [if_pos hfmt, wavReadFmtByteRate] at h
        by_cases hshort : size < wavFmtMinLen
        · rw [if_pos hshort] at h
          cases h
        rw [if_neg hshort] at h
        cases hfields : Reader.readFull ⟨rest,r.fails⟩ wavFmtMinLen with
        | none => rw [hfields] at h; cases h
        | some q =>
          obtain ⟨fields,r1⟩ := q
          rw [hfields] at h
          cases hrate : wavConsistentByteRate fields with
          | none => simp [hrate] at h
          | some b =>
            simp only [hrate, map_some, wavSkipChunkRest] at h
            cases hrest : r1.readFull (size - wavFmtMinLen + size % 2) with
            | none => simp [hrest] at h
            | some q =>
              obtain ⟨hb1,hl1,-⟩ := readFull_some hfields
              obtain ⟨hb2,hl2,-⟩ := readFull_some hrest
              refine ⟨fields ++ q.1,q.2.bytes,?_,?_⟩
              · rw [append_assoc, ← hb2, ← hb1]
              · rw [length_append, hl1, hl2]
                omega
      · rw [if_neg hfmt, if_neg hdata, wavSkipChunkRest] at h
        cases hrest : Reader.readFull ⟨rest,r.fails⟩ (size - 0 + size % 2) with
        | none => rw [hrest] at h; cases h
        | some q =>
          obtain ⟨hb,hl,-⟩ := readFull_some hrest
          exact ⟨q.1,q.2.bytes,hb,by rw [hl, Nat.sub_zero]⟩
    obtain ⟨a,rest',rfl,ha⟩ := hbody
    obtain ⟨body,pad,rfl,rfl⟩ := body_of_length ha
    let c : Chunk := ⟨id,body,pad,hid,hsize⟩
    have hfile : r.bytes = c.bytes ++ rest' := by
      rw [hbytes]
      simp [c, Chunk.bytes]
    have hr : r = ⟨c.bytes ++ rest',r.fails⟩ := by rw [← hfile]
    rw [hr, wavChunks_chunk n c hdata, bind_eq_some_iff] at hstep
    obtain ⟨rate',hrate,hstep⟩ := hstep
    exact .inl ⟨c,hdata,rest',rate',hfile,hrate,hstep⟩

/-! ### Files -/

def rateAfter : ℕ → List Chunk → Option ℕ
  | rate, [] => some rate
  | rate, c::chunks => (chunkRate c rate).bind fun rate => rateAfter rate chunks

def chunksBytes (chunks : List Chunk) : Bytes := chunks.flatMap Chunk.bytes

theorem wavChunks_chunks (chunks : List Chunk) (hchunks : ∀ c ∈ chunks, c.id ≠ dataID) (n : ℕ)
    (hn : chunks.length < n) (size : ℕ) (hsize : size < 256^4) (rest : Bytes) (fails : Bool) (rate : ℕ) :
    wavChunks n ⟨chunksBytes chunks ++ (header dataID size ++ rest),fails⟩ rate =
      (rateAfter rate chunks).bind fun rate => wavDataDurationMillis ⟨rest,fails⟩ size rate := by
  induction chunks generalizing n rate with
  | nil =>
    obtain ⟨n,rfl⟩ := exists_eq_succ_of_ne_zero (ne_of_gt hn)
    exact wavChunks_data n size hsize rest fails rate
  | cons c chunks ih =>
    obtain ⟨n,rfl⟩ := exists_eq_succ_of_ne_zero (ne_of_gt (zero_lt_of_lt hn))
    have hbytes : chunksBytes (c::chunks) ++ (header dataID size ++ rest) =
        c.bytes ++ (chunksBytes chunks ++ (header dataID size ++ rest)) := by
      simp [chunksBytes]
    rw [hbytes, succ_eq_add_one, wavChunks_chunk n c (hchunks c mem_cons_self), rateAfter, bind_assoc]
    congr 1
    ext1 rate'
    exact ih (fun x hx => hchunks x (mem_cons_of_mem c hx)) n (lt_of_succ_lt_succ hn) rate'

theorem chunks_of_wavChunks {ms : ℕ} (h : wavChunks n r rate = some ms) :
    ∃ chunks : List Chunk, (∀ c ∈ chunks, c.id ≠ dataID) ∧ ∃ size rest b, size < 256^4 ∧
      r.bytes = chunksBytes chunks ++ (header dataID size ++ rest) ∧ rateAfter rate chunks = some b ∧
      wavDataDurationMillis ⟨rest,r.fails⟩ size b = some ms := by
  induction n generalizing r rate with
  | zero => cases h
  | succ n ih =>
    rcases wavChunks_some h with ⟨c,hc,rest,rate',hbytes,hrate,h'⟩ | ⟨size,rest,hsize,hbytes,h'⟩
    · obtain ⟨chunks,hchunks,size,rest',b,hsize,hrest,hb,hms⟩ := ih h'
      refine ⟨c::chunks,?_,size,rest',b,hsize,?_,?_,hms⟩
      · intro x hx
        rcases mem_cons.mp hx with rfl | hx
        · exact hc
        · exact hchunks x hx
      · dsimp only at hrest
        rw [hbytes, hrest]
        simp [chunksBytes]
      · rw [rateAfter, hrate]
        exact hb
    · exact ⟨[],nofun,size,rest,rate,hsize,hbytes,rfl,h'⟩

/-- The fields of a format chunk agree: the block holds one sample of every channel,
and the byte rate is that of the blocks. -/
structure Consistent (f : Bytes) (b : ℕ) : Prop where
  channels : 0 < uint16At f 2
  bits : 0 < uint16At f 14
  blockAlign : uint16At f 12 = uint16At f 2*((uint16At f 14+7)/8)
  byteRate : uint32At f 8 = b
  product : b = uint32At f 4*uint16At f 12
  positive : 0 < b

theorem wavConsistentByteRate_iff (f : Bytes) (b : ℕ) :
    wavConsistentByteRate f = some b ↔ Consistent f b := by
  rw [wavConsistentByteRate]
  constructor
  · intro h
    split at h
    · cases h
    next hzero =>
    split at h
    · cases h
    next hagree =>
    cases h
    rw [not_or, not_not, not_not] at hagree
    exact ⟨by omega,by omega,hagree.1,rfl,hagree.2,by omega⟩
  · intro h
    have hrate : uint32At f 4 ≠ 0 := by
      intro hzero
      have hpos := h.positive
      rw [h.product, hzero, zero_mul] at hpos
      exact lt_irrefl 0 hpos
    have hpos := h.positive
    have hchannels := h.channels
    have hbits := h.bits
    rw [h.byteRate, if_neg (by omega), if_neg]
    rw [not_or, not_not, not_not]
    exact ⟨h.blockAlign,h.product⟩

/-- The byte rate is that of the last format chunk. -/
theorem rateAfter_some {b : ℕ} {chunks : List Chunk} (h : rateAfter rate chunks = some b) :
    (b = rate ∧ ∀ c ∈ chunks, c.id ≠ fmtID) ∨ ∃ before fmt after,
      chunks = before ++ fmt::after ∧ fmt.id = fmtID ∧
      wavFmtMinLen ≤ fmt.body.length ∧ Consistent (fmt.body.take wavFmtMinLen) b ∧
      ∀ c ∈ after, c.id ≠ fmtID := by
  induction chunks generalizing rate with
  | nil =>
    cases h
    exact .inl ⟨rfl,nofun⟩
  | cons c chunks ih =>
    rw [rateAfter, bind_eq_some_iff] at h
    obtain ⟨rate',hrate,h⟩ := h
    rcases ih h with ⟨rfl,hnone⟩ | ⟨before,fmt,after,rfl,hrest⟩
    · rw [chunkRate] at hrate
      split at hrate
      · next hfmt =>
        split at hrate
        · cases hrate
        · next hlong =>
          exact .inr ⟨[],c,chunks,rfl,hfmt,not_lt.mp hlong,(wavConsistentByteRate_iff _ _).mp hrate,hnone⟩
      next hother =>
      cases hrate
      refine .inl ⟨rfl,?_⟩
      intro x hx
      rcases mem_cons.mp hx with rfl | hx
      · exact hother
      · exact hnone x hx
    · exact .inr ⟨c::before,fmt,after,rfl,hrest⟩

theorem rateAfter_foreign (chunks : List Chunk) (hchunks : ∀ c ∈ chunks, c.id ≠ fmtID) (rate : ℕ)
    (rest : List Chunk) : rateAfter rate (chunks ++ rest) = rateAfter rate rest := by
  induction chunks with
  | nil => rfl
  | cons c chunks ih =>
    rw [cons_append, rateAfter, chunkRate, if_neg (hchunks c mem_cons_self)]
    exact ih fun x hx => hchunks x (mem_cons_of_mem c hx)

/-- When the audio is measured, and what it measures. -/
theorem wavDataDurationMillis_iff (rest : Bytes) (fails : Bool) (size b ms : ℕ) :
    wavDataDurationMillis ⟨rest,fails⟩ size b = some ms ↔
      0 < b ∧ fails = false ∧ size ≤ rest.length ∧ rest.length ≤ size + size % 2 + wavTrailingSlackBytes ∧
        ms = 1000*size/b := by
  rw [wavDataDurationMillis]
  simp only [wavTrailingSlackBytes, mul_comm 1000 size]
  constructor
  · intro h
    split_ifs at h with hb hheld hodd hslack hslack
    all_goals
      cases h
      rw [not_or, Bool.not_eq_true] at hheld
      exact ⟨pos_of_ne_zero hb,hheld.1,not_lt.mp hheld.2,by omega,rfl⟩
  · rintro ⟨hb,rfl,hheld,hslack,rfl⟩
    rw [if_neg (ne_of_gt hb), if_neg (by simp; omega), if_neg]
    split
    · omega
    · omega

def riffHeader (size : Bytes) : Bytes := riffID ++ size ++ waveID

theorem readRIFFHeader_header {size : Bytes} (hsize : size.length = 4) (rest : Bytes) (fails : Bool) :
    wavReadRIFFHeader ⟨riffHeader size ++ rest,fails⟩ = some ⟨rest,fails⟩ := by
  have hlen : (riffHeader size).length = wavRIFFHeaderLen := by
    simp [riffHeader, riffID, waveID, hsize, wavRIFFHeaderLen]
  obtain ⟨a,b,c,d,rfl⟩ : ∃ a b c d, size = [a,b,c,d] := by
    match size, hsize with
    | [a,b,c,d], _ => exact ⟨a,b,c,d,rfl⟩
  rw [wavReadRIFFHeader, ← hlen, readFull_append]
  dsimp only
  rw [if_pos ⟨rfl,rfl⟩]

theorem readRIFFHeader_some (h : wavReadRIFFHeader r = some r') :
    ∃ size : Bytes, size.length = 4 ∧ r.bytes = riffHeader size ++ r'.bytes ∧ r'.fails = r.fails := by
  rw [wavReadRIFFHeader] at h
  cases hread : r.readFull wavRIFFHeaderLen with
  | none => rw [hread] at h; cases h
  | some p =>
    obtain ⟨a,r1⟩ := p
    rw [hread] at h
    dsimp only at h
    split at h
    · next hids =>
      cases h
      obtain ⟨hbytes,hlen,hfails⟩ := readFull_some hread
      refine ⟨(a.drop 4).take 4,by simp [hlen, wavRIFFHeaderLen],?_,hfails⟩
      have hlast : (a.drop 8).take 4 = a.drop 8 :=
        take_of_length_le (by simp [hlen, wavRIFFHeaderLen])
      have hall : riffHeader ((a.drop 4).take 4) = a := by
        rw [riffHeader, ← hids.1, ← hids.2, hlast, append_assoc]
        conv_rhs => rw [← take_append_drop 4 a, ← take_append_drop 4 (a.drop 4), drop_drop]
      rw [hbytes, hall]
    · cases h

theorem chunks_length_le (chunks : List Chunk) : chunks.length ≤ (chunksBytes chunks).length := by
  induction chunks with
  | nil => exact le_rfl
  | cons c chunks ih =>
    have hc : 1 ≤ c.bytes.length := by
      simp [Chunk.bytes, header, c.id_length]
      omega
    simp only [chunksBytes, flatMap_cons, length_append, length_cons] at ih ⊢
    omega

/-- A duration that is billed is that of the declared audio under a consistent format
chunk, and hides at most the slack and a pad byte; and every file whose trailing
chunks stay within the slack is measured. -/
theorem billed_duration : (∀ (r : Reader) (ms : ℕ), wavDurationFromReader r = some ms →
      ∃ size before fmt after D rest b, size.length = 4 ∧
        r.bytes = riffHeader size ++ (chunksBytes (before ++ fmt::after) ++ (header dataID D ++ rest)) ∧
        (∀ c ∈ before ++ fmt::after, c.id ≠ dataID) ∧ fmt.id = fmtID ∧ wavFmtMinLen ≤ fmt.body.length ∧
        Consistent (fmt.body.take wavFmtMinLen) b ∧ (∀ c ∈ after, c.id ≠ fmtID) ∧ 0 < b ∧
        D ≤ rest.length ∧ rest.length ≤ D + 16384 + 1 ∧ ms = 1000*D/b ∧
        1000*rest.length < ms*b + b + 1000*16385) ∧
    ∀ (size : Bytes) (before after : List Chunk) (fmt data : Chunk) (trailing : Bytes) (b : ℕ),
    size.length = 4 →
      (∀ c ∈ before ++ after, c.id ≠ fmtID ∧ c.id ≠ dataID) → fmt.id = fmtID →
      wavFmtMinLen ≤ fmt.body.length → Consistent (fmt.body.take wavFmtMinLen) b → data.id = dataID →
      trailing.length ≤ 16384 →
      wavDurationFromReader
        ⟨riffHeader size ++ (chunksBytes (before ++ fmt::(after ++ [data])) ++ trailing),false⟩ =
        some (1000*data.body.length/b) := by
  constructor
  · intro r ms h
    rw [wavDurationFromReader, bind_eq_some_iff] at h
    obtain ⟨body,hriff,h⟩ := h
    obtain ⟨size,hsize,hbytes,-⟩ := readRIFFHeader_some hriff
    obtain ⟨chunks,hchunks,D,rest,b,-,hbody,hrate,hdata⟩ := chunks_of_wavChunks h
    obtain ⟨hb,-,hheld,hslack,hms⟩ := (wavDataDurationMillis_iff _ _ _ _ _).mp hdata
    rcases rateAfter_some hrate with ⟨rfl,-⟩ | ⟨before,fmt,after,rfl,hfmt,hlong,hconsistent,hlast⟩
    · exact absurd hb (lt_irrefl 0)
    have hslack' : rest.length ≤ D + 16384 + 1 := by
      have hodd := mod_lt D two_pos
      rw [wavTrailingSlackBytes] at hslack
      omega
    refine ⟨size,before,fmt,after,D,rest,b,hsize,hbody ▸ hbytes,hchunks,hfmt,hlong,hconsistent,hlast,hb,hheld,
      hslack',hms,?_⟩
    have hfloor : 1000*D < b*(1000*D/b + 1) := lt_mul_div_succ _ hb
    rw [← hms, mul_add, mul_one, mul_comm b] at hfloor
    omega
  · intro size before after fmt data trailing b hsize hforeign hfmt hlong hconsistent hdata htrailing
    have hfile : chunksBytes (before ++ fmt::(after ++ [data])) ++ trailing =
        chunksBytes (before ++ fmt::after) ++ (header dataID data.body.length ++
          (data.body ++ padding data.body.length data.pad ++ trailing)) := by
      simp [chunksBytes, Chunk.bytes, hdata]
    have hids : ∀ c ∈ before ++ fmt::after, c.id ≠ dataID := by
      intro c hc
      rcases mem_append.mp hc with hc | hc
      · exact (hforeign c (mem_append_left _ hc)).2
      rcases mem_cons.mp hc with rfl | hc
      · rw [hfmt]
        decide
      · exact (hforeign c (mem_append_right _ hc)).2
    have hrate : rateAfter 0 (before ++ fmt::after) = some b := by
      rw [rateAfter_foreign before fun c hc => (hforeign c (mem_append_left _ hc)).1, rateAfter, chunkRate,
        if_pos hfmt, if_neg (not_lt.mpr hlong), (wavConsistentByteRate_iff _ _).mpr hconsistent, bind_some,
        ← append_nil after, rateAfter_foreign after fun c hc => (hforeign c (mem_append_right _ hc)).1]
      rfl
    rw [wavDurationFromReader, readRIFFHeader_header hsize, bind_some, hfile,
      wavChunks_chunks _ hids _ ?_ _ data.body_length, hrate, bind_some, wavDataDurationMillis_iff]
    · refine ⟨hconsistent.positive,rfl,?_,?_,rfl⟩
      · simp only [length_append]
        omega
      · simp only [length_append, padding_length, wavTrailingSlackBytes]
        omega
    · have hle := chunks_length_le (before ++ fmt::after)
      have hheader : (header dataID data.body.length).length = 8 := by
        simp [header, dataID, leBytes_length]
      have hlen : ∀ a x : Bytes, (a ++ (header dataID data.body.length ++ x)).length =
          a.length + (8 + x.length) := by
        intro a x
        rw [length_append, length_append, hheader]
      rw [hlen]
      omega

/-- Eight-bit mono at 1000 samples a second. -/
def telephoneFmt : Chunk where
  id := fmtID
  body := [1,0, 1,0, 0xe8,3,0,0, 0xe8,3,0,0, 1,0, 8,0]
  pad := 0
  id_length := rfl
  body_length := by decide

/-- Audio of an odd length, which a pad byte follows. -/
def paddedData : Chunk where
  id := dataID
  body := [128,129,130]
  pad := 0
  id_length := rfl
  body_length := by decide

theorem billed_duration_padded :
    wavDurationFromReader ⟨riffHeader [0,0,0,0] ++ (chunksBytes [telephoneFmt, paddedData] ++ [7,7]),false⟩ =
      some 3 :=
  billed_duration.2 [0,0,0,0] [] [] telephoneFmt paddedData [7,7] 1000 rfl
    (fun c hc => absurd hc not_mem_nil) rfl (by decide)
    ⟨by decide,by decide,by decide,by decide,by decide,by decide⟩ rfl (by decide)

/-! ### The audio itself -/

end OnPremGateway.WavDuration
