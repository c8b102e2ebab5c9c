import Carroll.Mem
import Carroll.ByteFields

/-! # Reading the header of a WAVE file

`test_wavefile` of `libap.c` takes the bytes that `read_header` has already loaded and reads on
from the file as it needs more.  It works in a buffer of its own that grows with the chunks:
`check_wavefile_space` makes room, `test_wavefile_read` fills up, and what has been looked at is
moved out in front.  `WaveBuf` is this buffer with its capacity, the unread part of the file and
the accesses so far.

The function leaves the program (`prg_exit`) where the header cannot be played; a `WaveError` says
at which place and with which values. -/

namespace Carroll

/-- The sample formats of `hwparams.format` that the file formats know. -/
inductive PcmFormat
  | u8 | s16Le | s16Be | s24Le | s24Be | s24Le3 | s24Be3 | s32Le | s32Be | floatLe | floatBe | muLaw
deriving DecidableEq

/-- `hwparams`. -/
structure HwParams where
  format : PcmFormat
  channels : ℕ
  rate : ℕ
deriving DecidableEq

/-- The messages before `prg_exit` in `test_wavefile`. -/
inductive WaveError
  /-- `read error (called from line %i)` -/
  | read
  /-- `unknown length of 'fmt ' chunk (read %u, should be %u at least)` -/
  | fmtLength (len : ℕ)
  /-- `unknown length of extensible 'fmt ' chunk (read %u, should be %u at least)` -/
  | extensibleLength (len : ℕ)
  /-- `wrong format tag in extensible 'fmt ' chunk` -/
  | guidTag
  /-- `can't play WAVE-file format 0x%04x which is not PCM or FLOAT encoded` -/
  | encoding (format : ℕ)
  /-- `can't play WAVE-files with %d tracks` -/
  | tracks (channels : ℕ)
  /-- `valid bps greater than bps: %d > %d` -/
  | validBits (valid bits : ℕ)
  /-- `can't play WAVE-files with sample %d bits in %d bytes wide (%d channels)` -/
  | sampleWidth (bits bytes channels : ℕ)
  /-- `can't play WAVE-files with sample %d bits wide` -/
  | sampleBits (bits : ℕ)
deriving DecidableEq

/-- `COMPOSE_ID`, on a machine with the lowest byte first. -/
def composeId (a b c d : ℕ) : ℕ := a + 256 * b + 256 ^ 2 * c + 256 ^ 3 * d

def wavRiff : ℕ := composeId 0x52 0x49 0x46 0x46
def wavRifx : ℕ := composeId 0x52 0x49 0x46 0x58
def wavWave : ℕ := composeId 0x57 0x41 0x56 0x45
def wavFmt : ℕ := composeId 0x66 0x6d 0x74 0x20
def wavData : ℕ := composeId 0x64 0x61 0x74 0x61

def wavFmtPcm : ℕ := 0x0001
def wavFmtIeeeFloat : ℕ := 0x0003
def wavFmtExtensible : ℕ := 0xfffe

/-- `WAV_GUID_TAG`. -/
def wavGuidTag : List UInt8 :=
  [0x00, 0x00, 0x00, 0x00, 0x10, 0x00, 0x80, 0x00, 0x00, 0xAA, 0x00, 0x38, 0x9B, 0x71]

/-! ### The buffer -/

/-- The first `size` bytes of `buffer`, `blimit`, and what the file still has. -/
structure WaveBuf where
  data : List UInt8
  blimit : ℕ
  file : List UInt8
  accesses : List Access

namespace WaveBuf

/-- `check_wavefile_space(buffer, len, blimit)`. -/
def space (b : WaveBuf) (len : ℕ) : WaveBuf := if b.blimit < len then { b with blimit := len } else b

/-- `test_wavefile_read(fd, buffer, &size, reqsize)`; `false` is the read error. -/
def read (b : WaveBuf) (reqsize : ℕ) : WaveBuf × Bool :=
  let size := b.data.length
  if reqsize ≤ size then (b, true)
  else
    let b' : WaveBuf :=
      { b with
        data := b.data ++ b.file.take (reqsize - size)
        file := b.file.drop (reqsize - size)
        accesses := b.accesses ++ [⟨b.blimit, size, reqsize - size⟩] }
    (b', decide (reqsize - size ≤ b.file.length))

/-- Room for `n` bytes, and so many of them in the buffer. -/
def fetch (b : WaveBuf) (n : ℕ) : WaveBuf × Bool := (b.space n).read n

/-- The program looks at the first `n` bytes. -/
def look (b : WaveBuf) (n : ℕ) : WaveBuf := { b with accesses := b.accesses ++ [⟨b.blimit, 0, n⟩] }

/-- `if (size > n) memmove(buffer, buffer + n, size - n); size -= n;`. -/
def discard (b : WaveBuf) (n : ℕ) : WaveBuf :=
  let size := b.data.length
  { b with
    data := b.data.drop n
    accesses := if n < size then b.accesses ++ [⟨b.blimit, n, size - n⟩, ⟨b.blimit, 0, size - n⟩]
      else b.accesses }

/-- The bytes that are still to come, in the buffer and in the file. -/
def unread (b : WaveBuf) : List UInt8 := b.data ++ b.file

@[simp] theorem space_data (b : WaveBuf) (n : ℕ) : (b.space n).data = b.data := by
  unfold space
  split <;> rfl

@[simp] theorem space_file (b : WaveBuf) (n : ℕ) : (b.space n).file = b.file := by
  unfold space
  split <;> rfl

theorem unread_fetch (b : WaveBuf) (n : ℕ) : (b.fetch n).1.unread = b.unread := by
  simp only [fetch, read, space_data, space_file]
  split
  · simp only [unread, space_data, space_file]
  · simp only [unread, List.append_assoc, List.take_append_drop]

/-- The call succeeds if there are so many bytes. -/
theorem fetch_iff (b : WaveBuf) (n : ℕ) : (b.fetch n).2 = true ↔ n ≤ b.unread.length := by
  simp only [fetch, read, space_data, space_file, unread, List.length_append]
  split <;> simp <;> omega

/-- Then they are in the buffer. -/
theorem length_fetch {b : WaveBuf} {n : ℕ} (h : (b.fetch n).2 = true) :
    n ≤ (b.fetch n).1.data.length := by
  have hlen := (fetch_iff b n).mp h
  simp only [unread, List.length_append] at hlen
  simp only [fetch, read, space_data, space_file]
  split
  · simpa only [space_data]
  · simp
    omega

theorem unread_discard {b : WaveBuf} {n : ℕ} (h : n ≤ b.data.length) :
    (b.discard n).unread = b.unread.drop n := by
  simp only [discard, unread]
  exact (List.drop_append_of_le_length h).symm

/-- What is in the buffer is the front of what is still to come. -/
theorem take_unread {b : WaveBuf} {n : ℕ} (h : n ≤ b.data.length) :
    b.unread.take n = b.data.take n := List.take_append_of_le_length h

theorem unread_discard_fetch {b : WaveBuf} {n : ℕ} (h : (b.fetch n).2 = true) :
    ((b.fetch n).1.discard n).unread = b.unread.drop n := by
  rw [unread_discard (length_fetch h), unread_fetch]

theorem unread_discard_look {b : WaveBuf} {n : ℕ} (h : (b.fetch n).2 = true) :
    (((b.fetch n).1.look n).discard n).unread = b.unread.drop n := unread_discard_fetch h

end WaveBuf

/-! ### The chunks -/

/-- `len += len % 2`. -/
def evenLen (len : ℕ) : ℕ := u32 (len + len % 2)

/-- The loop over the chunks up to one of the type `stop`, whose length is returned; `none` is the
read error. -/
def findChunk (big : Bool) (stop : ℕ) (b : WaveBuf) : WaveBuf × Option ℕ :=
  if (b.fetch 8).2 = true then
    let c := (b.fetch 8).1.look 8
    let type := readLe (bytesAt c.data 0 4)
    let len := readUint big (bytesAt c.data 4 4)
    let d := c.discard 8
    if type = stop then (d, some len)
    else if (d.fetch (evenLen len)).2 = true then
      findChunk big stop ((d.fetch (evenLen len)).1.discard (evenLen len))
    else ((d.fetch (evenLen len)).1, none)
  else ((b.fetch 8).1, none)
termination_by b.unread.length
decreasing_by
  have h : (b.fetch 8).2 = true := ‹_›
  have hlen : (d.fetch (evenLen len)).2 = true := ‹_›
  have h8 := (WaveBuf.fetch_iff b 8).mp h
  rw [WaveBuf.unread_discard_fetch hlen, WaveBuf.unread_discard_look h]
  simp only [List.length_drop]
  omega

/-- The format of the samples, from the fields of the `fmt ` chunk. -/
def waveFormat (big : Bool) (format valid bits bytes channels : ℕ) : Except WaveError PcmFormat :=
  match bits with
  | 8 => .ok .u8
  | 16 => .ok (if big then .s16Be else .s16Le)
  | 24 =>
      match bytes / channels with
      | 3 => .ok (if big then .s24Be3 else .s24Le3)
      | 4 => .ok (if big then .s24Be else .s24Le)
      | _ => .error (.sampleWidth bits bytes channels)
  | 32 =>
      if format = wavFmtPcm then
        if valid = 24 then .ok (if big then .s24Be else .s24Le)
        else .ok (if big then .s32Be else .s32Le)
      else .ok (if big then .floatBe else .floatLe)
  | _ => .error (.sampleBits bits)

/-- What the `fmt ` chunk says; `body` begins with its `len` bytes. -/
def fmtBody (big : Bool) (len : ℕ) (body : List UInt8) : Except WaveError HwParams := do
  let short (off : ℕ) : ℕ := readUint big (bytesAt body off 2)
  let (format, valid) ←
    if short 0 = wavFmtExtensible then
      if len < 40 then throw (.extensibleLength len)
      else if bytesAt body 26 14 ≠ wavGuidTag then throw .guidTag
      else pure (short 24, short 18 % 256)
    else pure (short 0, 0)
  if format ≠ wavFmtPcm ∧ format ≠ wavFmtIeeeFloat then throw (.encoding format)
  let channels := short 2
  if channels < 1 then throw (.tracks channels)
  let bits := short 14
  if bits < valid then throw (.validBits valid bits)
  let native ← waveFormat big format valid bits (short 12) channels
  return ⟨native, channels, readUint big (bytesAt body 4 4)⟩

/-- What comes of `test_wavefile`: `-1`, the end of the program, or parameters to play with, the
limit `pbrec_count`, the bytes that are back in `_buffer` (their number is returned) and the rest
of the file. -/
inductive WaveOutcome
  | no
  | exits (e : WaveError)
  | plays (hw : HwParams) (count : ℕ) (data file : List UInt8)

/-- `if (len < pbrec_count && len < 0x7ffffffe) pbrec_count = len;`. -/
def playCount (pbrec len : ℕ) : ℕ := if len < pbrec ∧ len < 0x7ffffffe then len else pbrec

/-- The accesses to the fields of the `fmt ` chunk. -/
def WaveBuf.lookFmt (b : WaveBuf) (big : Bool) (len : ℕ) : WaveBuf :=
  if readUint big (bytesAt b.data 0 2) = wavFmtExtensible ∧ 40 ≤ len then (b.look 16).look 40
  else b.look 16

/-- The accesses at the end: `if (size > 0) memcpy(_buffer, buffer, size);`. -/
def WaveBuf.giveBack (b : WaveBuf) (cap : ℕ) : List Access :=
  let size := b.data.length
  if 0 < size then b.accesses ++ [⟨b.blimit, 0, size⟩, ⟨cap, 0, size⟩] else b.accesses

/-- From the `fmt ` chunk on, whose length field is `len`. -/
def testFmt (cap pbrec : ℕ) (big : Bool) (b : WaveBuf) (len : ℕ) : List Access × WaveOutcome :=
  let len := evenLen len
  if len < 16 then (b.accesses, .exits (.fmtLength len))
  else if (b.fetch len).2 = true then
    let c := (b.fetch len).1.lookFmt big len
    match fmtBody big len c.data with
    | .error e => (c.accesses, .exits e)
    | .ok hw =>
        let d := findChunk big wavData (c.discard len)
        match d.2 with
        | none => (d.1.accesses, .exits .read)
        | some n => (d.1.giveBack cap, .plays hw (playCount pbrec n) d.1.data d.1.file)
  else ((b.fetch len).1.accesses, .exits .read)

/-- The buffer after the header: what had been loaded behind it is copied. -/
def waveStart (cap : ℕ) (loaded file : List UInt8) : WaveBuf :=
  let size := loaded.length - 12
  ⟨loaded.drop 12, size, file, [⟨cap, 0, 12⟩, ⟨cap, 12, size⟩, ⟨size, 0, size⟩]⟩

/-- `test_wavefile(fd, _buffer, size)`, with the `size` bytes `loaded` in a `_buffer` of `cap`
bytes: the accesses and the outcome. -/
def testWavefile (cap pbrec : ℕ) (loaded file : List UInt8) : List Access × WaveOutcome :=
  if loaded.length < 12 then ([], .no)
  else if (readLe (bytesAt loaded 0 4) ≠ wavRiff ∧ readLe (bytesAt loaded 0 4) ≠ wavRifx) ∨
      readLe (bytesAt loaded 8 4) ≠ wavWave then
    ([⟨cap, 0, 12⟩], .no)
  else
    let big := decide (readLe (bytesAt loaded 0 4) = wavRifx)
    let b := findChunk big wavFmt (waveStart cap loaded file)
    match b.2 with
    | none => (b.1.accesses, .exits .read)
    | some len => testFmt cap pbrec big b.1 len

/-! ### What the buffer computes -/

/-- The same loop on the bytes of the file: the length of the first chunk of the type `stop`, and
what comes after its header. -/
def skipTo (big : Bool) (stop : ℕ) (s : List UInt8) : Option (ℕ × List UInt8) :=
  if 8 ≤ s.length then
    let type := readLe (bytesAt s 0 4)
    let len := readUint big (bytesAt s 4 4)
    if type = stop then some (len, s.drop 8)
    else if evenLen len ≤ (s.drop 8).length then skipTo big stop ((s.drop 8).drop (evenLen len))
    else none
  else none
termination_by s.length
decreasing_by
  simp only [List.length_drop]
  omega

/-- From the length field of the `fmt ` chunk on: the parameters, the limit and the samples. -/
def parseFmt (pbrec : ℕ) (big : Bool) (len : ℕ) (s : List UInt8) :
    Except WaveError (HwParams × ℕ × List UInt8) :=
  if evenLen len < 16 then .error (.fmtLength (evenLen len))
  else if evenLen len ≤ s.length then do
    let hw ← fmtBody big (evenLen len) s
    match skipTo big wavData (s.drop (evenLen len)) with
    | none => throw .read
    | some (n, s) => return (hw, playCount pbrec n, s)
  else .error .read

/-- A WAVE file as a list of bytes; `none` is a file of another kind. -/
def parseWave (pbrec : ℕ) (s : List UInt8) : Option (Except WaveError (HwParams × ℕ × List UInt8)) :=
  if (readLe (bytesAt s 0 4) ≠ wavRiff ∧ readLe (bytesAt s 0 4) ≠ wavRifx) ∨
      readLe (bytesAt s 8 4) ≠ wavWave then
    none
  else
    let big := decide (readLe (bytesAt s 0 4) = wavRifx)
    match skipTo big wavFmt (s.drop 12) with
    | none => some (.error .read)
    | some (len, s) => some (parseFmt pbrec big len s)

/-- An outcome without the place of the bytes that are still to come. -/
def WaveOutcome.parsed : WaveOutcome → Option (Except WaveError (HwParams × ℕ × List UInt8))
  | .no => none
  | .exits e => some (.error e)
  | .plays hw count data file => some (.ok (hw, count, data ++ file))

theorem bytesAt_fetch {b : WaveBuf} {off n k : ℕ} (h : (b.fetch k).2 = true) (hk : off + n ≤ k) :
    bytesAt (b.fetch k).1.data off n = bytesAt b.unread off n := by
  rw [← bytesAt_take hk, ← WaveBuf.take_unread (WaveBuf.length_fetch h), WaveBuf.unread_fetch,
    bytesAt_take hk]

theorem header_fetch (big : Bool) {b : WaveBuf} (h : (b.fetch 8).2 = true) :
    readLe (bytesAt ((b.fetch 8).1.look 8).data 0 4) = readLe (bytesAt b.unread 0 4) ∧
      readUint big (bytesAt ((b.fetch 8).1.look 8).data 4 4) =
        readUint big (bytesAt b.unread 4 4) :=
  ⟨congrArg readLe (bytesAt_fetch h (by norm_num)),
    congrArg (readUint big) (bytesAt_fetch h (by norm_num))⟩

/-- The loop finds what it would find in the bytes of the file, whatever is in the buffer when it
starts. -/
theorem findChunk_eq (big : Bool) (stop : ℕ) (b : WaveBuf) :
    (findChunk big stop b).2.map (fun len => (len, (findChunk big stop b).1.unread)) =
      skipTo big stop b.unread := by
  fun_induction findChunk big stop b with
  | case1 b h c type len d hstop =>
      obtain ⟨htype, hlen⟩ := header_fetch big h
      have hd : d.unread = b.unread.drop 8 := WaveBuf.unread_discard_look h
      rw [skipTo, if_pos ((WaveBuf.fetch_iff b 8).mp h)]
      simp only [← htype, ← hlen, ← hd]
      exact (if_pos hstop).symm
  | case2 b h c type len d hstop hfetch ih =>
      obtain ⟨htype, hlen⟩ := header_fetch big h
      have hd : d.unread = b.unread.drop 8 := WaveBuf.unread_discard_look h
      have hle := (WaveBuf.fetch_iff d (evenLen len)).mp hfetch
      rw [WaveBuf.unread_discard_fetch hfetch] at ih
      rw [skipTo, if_pos ((WaveBuf.fetch_iff b 8).mp h)]
      simp only [← htype, ← hlen, ← hd]
      exact ih.trans ((if_neg hstop).trans (if_pos hle)).symm
  | case3 b h c type len d hstop hfetch =>
      obtain ⟨htype, hlen⟩ := header_fetch big h
      have hd : d.unread = b.unread.drop 8 := WaveBuf.unread_discard_look h
      have hle : ¬ evenLen len ≤ d.unread.length := fun hle =>
        hfetch ((WaveBuf.fetch_iff d (evenLen len)).mpr hle)
      rw [skipTo, if_pos ((WaveBuf.fetch_iff b 8).mp h)]
      simp only [← htype, ← hlen, ← hd]
      exact ((if_neg hstop).trans (if_neg hle)).symm
  | case4 b h =>
      rw [skipTo, if_neg fun hle => h ((WaveBuf.fetch_iff b 8).mpr hle)]
      rfl

theorem findChunk_none {big : Bool} {stop : ℕ} {b : WaveBuf}
    (h : (findChunk big stop b).2 = none) : skipTo big stop b.unread = none := by
  rw [← findChunk_eq, h]
  rfl

theorem findChunk_some {big : Bool} {stop len : ℕ} {b : WaveBuf}
    (h : (findChunk big stop b).2 = some len) :
    skipTo big stop b.unread = some (len, (findChunk big stop b).1.unread) := by
  rw [← findChunk_eq, h]
  rfl

/-- The fields of the chunk lie in its first `len` bytes. -/
theorem fmtBody_congr (big : Bool) {len : ℕ} {x y : List UInt8} (hlen : 16 ≤ len)
    (h : x.take len = y.take len) : fmtBody big len x = fmtBody big len y := by
  have hat {off n : ℕ} (hle : off + n ≤ len) : bytesAt x off n = bytesAt y off n := by
    rw [← bytesAt_take hle, h, bytesAt_take hle]
  have h0 : bytesAt x 0 2 = bytesAt y 0 2 := hat (by omega)
  have h2 : bytesAt x 2 2 = bytesAt y 2 2 := hat (by omega)
  have h4 : bytesAt x 4 4 = bytesAt y 4 4 := hat (by omega)
  have h12 : bytesAt x 12 2 = bytesAt y 12 2 := hat (by omega)
  have h14 : bytesAt x 14 2 = bytesAt y 14 2 := hat (by omega)
  by_cases h40 : len < 40
  · simp only [fmtBody, h0, h2, h4, h12, h14, if_pos h40]
  · have h18 : bytesAt x 18 2 = bytesAt y 18 2 := hat (by omega)
    have h24 : bytesAt x 24 2 = bytesAt y 24 2 := hat (by omega)
    have h26 : bytesAt x 26 14 = bytesAt y 26 14 := hat (by omega)
    simp only [fmtBody, h0, h2, h4, h12, h14, h18, h24, h26]

@[simp] theorem lookFmt_data (b : WaveBuf) (big : Bool) (len : ℕ) :
    (b.lookFmt big len).data = b.data := by
  unfold WaveBuf.lookFmt
  split <;> rfl

theorem unread_discard_lookFmt {b : WaveBuf} {n : ℕ} (h : (b.fetch n).2 = true) (big : Bool) :
    (((b.fetch n).1.lookFmt big n).discard n).unread = b.unread.drop n := by
  rw [← WaveBuf.unread_discard_fetch h]
  unfold WaveBuf.lookFmt
  split <;> rfl

theorem testFmt_parsed (cap pbrec : ℕ) (big : Bool) (b : WaveBuf) (len : ℕ) :
    (testFmt cap pbrec big b len).2.parsed = some (parseFmt pbrec big len b.unread) := by
  rw [testFmt, parseFmt]
  by_cases h16 : evenLen len < 16
  · simp only [if_pos h16, WaveOutcome.parsed]
  simp only [if_neg h16]
  by_cases hfetch : (b.fetch (evenLen len)).2 = true
  · have htake : (b.fetch (evenLen len)).1.data.take (evenLen len) =
        b.unread.take (evenLen len) := by
      rw [← WaveBuf.take_unread (WaveBuf.length_fetch hfetch), WaveBuf.unread_fetch]
    have hbody := fmtBody_congr big (not_lt.mp h16) htake
    have hunread := unread_discard_lookFmt hfetch big
    rw [if_pos hfetch, if_pos ((WaveBuf.fetch_iff b _).mp hfetch), lookFmt_data, hbody]
    cases hfmt : fmtBody big (evenLen len) b.unread with
    | error e => rfl
    | ok hw =>
        cases hdata : (findChunk big wavData
            (((b.fetch (evenLen len)).1.lookFmt big (evenLen len)).discard (evenLen len))).2 with
        | none =>
            have hskip := findChunk_none hdata
            rw [hunread] at hskip
            simp only [hskip]
            rfl
        | some n =>
            have hskip := findChunk_some hdata
            rw [hunread] at hskip
            simp only [hskip]
            rfl
  · rw [if_neg hfetch, if_neg fun hle => hfetch ((WaveBuf.fetch_iff b _).mpr hle)]
    rfl

/-- The buffer does not show: what `test_wavefile` makes of a file depends on the bytes of the file
only, and not on how many of them had been loaded before. -/
theorem testWavefile_parsed (cap pbrec : ℕ) {loaded : List UInt8} (hl : 12 ≤ loaded.length)
    (file : List UInt8) :
    (testWavefile cap pbrec loaded file).2.parsed = parseWave pbrec (loaded ++ file) := by
  have hmagic : bytesAt (loaded ++ file) 0 4 = bytesAt loaded 0 4 :=
    bytesAt_append_left (by omega)
  have htype : bytesAt (loaded ++ file) 8 4 = bytesAt loaded 8 4 := bytesAt_append_left (by omega)
  rw [testWavefile, if_neg hl.not_gt, parseWave, hmagic, htype]
  by_cases hno : (readLe (bytesAt loaded 0 4) ≠ wavRiff ∧ readLe (bytesAt loaded 0 4) ≠ wavRifx) ∨
      readLe (bytesAt loaded 8 4) ≠ wavWave
  · simp only [if_pos hno, WaveOutcome.parsed]
  have hunread : (waveStart cap loaded file).unread = (loaded ++ file).drop 12 :=
    (List.drop_append_of_le_length hl).symm
  simp only [if_neg hno, ← hunread]
  cases hfmt : (findChunk (decide (readLe (bytesAt loaded 0 4) = wavRifx)) wavFmt
      (waveStart cap loaded file)).2 with
  | none =>
      have hskip := findChunk_none hfmt
      simp only [hskip, WaveOutcome.parsed]
  | some len =>
      have hskip := findChunk_some hfmt
      simp only [hskip]
      exact testFmt_parsed _ _ _ _ _

/-- Loading more of a file beforehand, for the tests of the other formats, changes nothing. -/
theorem testWavefile_loaded (cap cap' pbrec : ℕ) {loaded file loaded' file' : List UInt8}
    (h : loaded ++ file = loaded' ++ file') (hl : 12 ≤ loaded.length) (hl' : 12 ≤ loaded'.length) :
    (testWavefile cap pbrec loaded file).2.parsed =
      (testWavefile cap' pbrec loaded' file').2.parsed := by
  rw [testWavefile_parsed cap pbrec hl, testWavefile_parsed cap' pbrec hl', h]

/-- A file of two samples behind its header and the `fmt ` chunk of mono bytes. -/
def monoWave : List UInt8 :=
  [0x52, 0x49, 0x46, 0x46, 38, 0, 0, 0, 0x57, 0x41, 0x56, 0x45, 0x66, 0x6d, 0x74, 0x20, 16, 0, 0, 0,
    1, 0, 1, 0, 0x40, 0x1f, 0, 0, 0x40, 0x1f, 0, 0, 1, 0, 8, 0, 0x64, 0x61, 0x74, 0x61, 2, 0, 0, 0,
    7, 9]

theorem testWavefile_loaded_monoWave :
    (testWavefile 1024 100 (monoWave.take 12) (monoWave.drop 12)).2.parsed =
        (testWavefile 46 100 monoWave []).2.parsed ∧
      (testWavefile 46 100 monoWave []).2.parsed = some (.ok (⟨.u8, 1, 8000⟩, 2, [7, 9])) :=
  ⟨testWavefile_loaded 1024 46 100 ((List.take_append_drop 12 monoWave).trans
    (List.append_nil _).symm) (by decide) (by decide), by decide +kernel⟩

/-! ### What the buffer holds -/

namespace WaveBuf

/-- The bytes fit into the buffer, and all accesses so far were in bounds. -/
structure Safe (b : WaveBuf) : Prop where
  fits : b.data.length ≤ b.blimit
  inBounds : InBounds b.accesses

variable {b : WaveBuf}

theorem Safe.fetch (h : b.Safe) (n : ℕ) : (b.fetch n).1.Safe := by
  have hfits : b.data.length ≤ (b.space n).blimit ∧ n ≤ (b.space n).blimit ∧
      (b.space n).accesses = b.accesses := by
    have := h.fits
    unfold space
    split
    · exact ⟨by simp only; omega, le_rfl, rfl⟩
    · exact ⟨this, by omega, rfl⟩
  obtain ⟨hdata, hn, haccesses⟩ := hfits
  simp only [WaveBuf.fetch, read, space_data, space_file]
  split
  · exact ⟨by rwa [space_data], by rw [haccesses]; exact h.inBounds⟩
  · refine ⟨by simp; omega, ?_⟩
    rw [haccesses, inBounds_append]
    refine ⟨h.inBounds, ?_⟩
    simp
    omega

theorem Safe.look (h : b.Safe) {n : ℕ} (hn : n ≤ b.data.length) : (b.look n).Safe := by
  have := h.fits
  refine ⟨h.fits, ?_⟩
  rw [WaveBuf.look, inBounds_append]
  exact ⟨h.inBounds, by simp; omega⟩

theorem Safe.discard (h : b.Safe) (n : ℕ) : (b.discard n).Safe := by
  have := h.fits
  refine ⟨by simp [WaveBuf.discard]; omega, ?_⟩
  simp only [WaveBuf.discard]
  split
  · rw [inBounds_append]
    refine ⟨h.inBounds, ?_⟩
    simp
    omega
  · exact h.inBounds

/-- Fetching and discarding leaves in the buffer what there was behind. -/
theorem length_discard_fetch (b : WaveBuf) (n : ℕ) :
    ((b.fetch n).1.discard n).data.length = b.data.length - n := by
  simp only [WaveBuf.fetch, read, WaveBuf.discard, space_data, space_file, List.length_drop]
  split
  · rw [space_data]
  · rw [List.length_append, List.length_take]
    omega

end WaveBuf

/-- The header of the chunk that is found is no longer in the buffer. -/
theorem safe_findChunk (big : Bool) (stop : ℕ) {b : WaveBuf} (hb : b.Safe) :
    (findChunk big stop b).1.Safe ∧
      ((findChunk big stop b).2.isSome →
        (findChunk big stop b).1.data.length ≤ b.data.length - 8) := by
  fun_induction findChunk big stop b with
  | case1 b h c type len d hstop =>
      exact ⟨((hb.fetch 8).look (WaveBuf.length_fetch h)).discard 8,
        fun _ => (WaveBuf.length_discard_fetch b 8).le⟩
  | case2 b h c type len d hstop hfetch ih =>
      have hd : d.Safe := ((hb.fetch 8).look (WaveBuf.length_fetch h)).discard 8
      have hd8 : d.data.length = b.data.length - 8 := WaveBuf.length_discard_fetch b 8
      obtain ⟨hsafe, hlen⟩ := ih ((hd.fetch (evenLen len)).discard (evenLen len))
      refine ⟨hsafe, fun hsome => ?_⟩
      have hrest := hlen hsome
      rw [WaveBuf.length_discard_fetch, hd8] at hrest
      omega
  | case3 b h c type len d hstop hfetch =>
      have hd : d.Safe := ((hb.fetch 8).look (WaveBuf.length_fetch h)).discard 8
      exact ⟨hd.fetch (evenLen len), fun hsome => by simp at hsome⟩
  | case4 b h => exact ⟨hb.fetch 8, fun hsome => by simp at hsome⟩

theorem WaveBuf.Safe.lookFmt {b : WaveBuf} (h : b.Safe) {len : ℕ} (h16 : 16 ≤ len)
    (hlen : len ≤ b.data.length) (big : Bool) : (b.lookFmt big len).Safe := by
  unfold WaveBuf.lookFmt
  split
  · rename_i hext
    exact (h.look (by omega)).look (hext.2.trans hlen)
  · exact h.look (by omega)

theorem WaveBuf.Safe.giveBack {b : WaveBuf} (h : b.Safe) {cap : ℕ} (hcap : b.data.length ≤ cap) :
    InBounds (b.giveBack cap) := by
  have hfits := h.fits
  have := h.inBounds
  unfold WaveBuf.giveBack
  simp only
  split
  · rw [inBounds_append]
    refine ⟨h.inBounds, ?_⟩
    simp
    omega
  · exact h.inBounds

/-- A run that stays in its buffers and gives at most `n` of the loaded bytes back. -/
structure KeepsIn (r : List Access × WaveOutcome) (n : ℕ) : Prop where
  inBounds : InBounds r.1
  back {hw : HwParams} {count : ℕ} {data file : List UInt8} :
    r.2 = .plays hw count data file → data.length ≤ n

theorem testFmt_keepsIn {cap : ℕ} (pbrec : ℕ) (big : Bool) {b : WaveBuf} (hb : b.Safe)
    (hcap : b.data.length ≤ cap) (len : ℕ) :
    KeepsIn (testFmt cap pbrec big b len) (b.data.length - 24) := by
  rw [testFmt]
  by_cases h16 : evenLen len < 16
  · simp only [if_pos h16]
    exact ⟨hb.inBounds, nofun⟩
  simp only [if_neg h16]
  by_cases hfetch : (b.fetch (evenLen len)).2 = true
  · have hlook := (hb.fetch (evenLen len)).lookFmt (not_lt.mp h16)
      (WaveBuf.length_fetch hfetch) big
    obtain ⟨hsafe, hlen⟩ := safe_findChunk big wavData (hlook.discard (evenLen len))
    rw [if_pos hfetch]
    cases fmtBody big (evenLen len) ((b.fetch (evenLen len)).1.lookFmt big (evenLen len)).data with
    | error e => exact ⟨hlook.inBounds, nofun⟩
    | ok hw =>
        cases hdata : (findChunk big wavData
            (((b.fetch (evenLen len)).1.lookFmt big (evenLen len)).discard (evenLen len))).2 with
        | none => exact ⟨hsafe.inBounds, nofun⟩
        | some n =>
            have hrest := hlen (by rw [hdata]; rfl)
            have hskip := WaveBuf.length_discard_fetch b (evenLen len)
            simp only [WaveBuf.discard, lookFmt_data] at hrest hskip
            refine ⟨hsafe.giveBack ?_, fun h => ?_⟩
            · simp only [WaveBuf.discard, lookFmt_data]
              omega
            · obtain ⟨-, -, rfl, -⟩ := WaveOutcome.plays.inj h
              simp only [WaveBuf.discard, lookFmt_data]
              omega
  · rw [if_neg hfetch]
    exact ⟨(hb.fetch (evenLen len)).inBounds, nofun⟩

theorem testWavefile_keepsIn (cap pbrec : ℕ) {loaded : List UInt8} (hcap : loaded.length ≤ cap)
    (file : List UInt8) : KeepsIn (testWavefile cap pbrec loaded file) (loaded.length - 44) := by
  rw [testWavefile]
  split
  · exact ⟨inBounds_nil, nofun⟩
  split
  · refine ⟨?_, nofun⟩
    simp
    omega
  have hstart : (waveStart cap loaded file).Safe := ⟨by simp [waveStart], by simp [waveStart]; omega⟩
  obtain ⟨hsafe, hlen⟩ :=
    safe_findChunk (decide (readLe (bytesAt loaded 0 4) = wavRifx)) wavFmt hstart
  cases hfmt : (findChunk (decide (readLe (bytesAt loaded 0 4) = wavRifx)) wavFmt
      (waveStart cap loaded file)).2 with
  | none =>
      simp only [hfmt]
      exact ⟨hsafe.inBounds, nofun⟩
  | some len =>
      have hrest := hlen (by rw [hfmt]; rfl)
      simp only [waveStart, List.length_drop] at hrest
      simp only [hfmt]
      have hkeeps := testFmt_keepsIn pbrec (decide (readLe (bytesAt loaded 0 4) = wavRifx)) hsafe
        (show _ ≤ cap by simp only [waveStart]; omega) len
      refine ⟨hkeeps.inBounds, fun h => (hkeeps.back h).trans ?_⟩
      simp only [waveStart]
      omega

/-- Whatever the file holds and however the function is left, every access stays in its own buffer
or in the caller's. -/
theorem testWavefile_inBounds (cap pbrec : ℕ) {loaded : List UInt8} (hcap : loaded.length ≤ cap)
    (file : List UInt8) : InBounds (testWavefile cap pbrec loaded file).1 :=
  (testWavefile_keepsIn cap pbrec hcap file).inBounds

/-- All of it is loaded, and its samples are copied back. -/
theorem testWavefile_inBounds_monoWave :
    InBounds (testWavefile 1024 100 monoWave []).1 ∧
      (testWavefile 1024 100 monoWave []).1.getLast? = some ⟨1024, 0, 2⟩ :=
  ⟨testWavefile_inBounds 1024 100 (by decide) [], by decide +kernel⟩

end Carroll
