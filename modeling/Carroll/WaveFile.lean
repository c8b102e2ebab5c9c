import Carroll.File
import Carroll.Wave

/-! # WAVE files

A WAVE file as a header and chunks: a chunk has a type, its length and, when the length is odd, a
byte of padding.  `parseWave_waveFile` says what `test_wavefile` makes of such a file, with any
chunks in front of the `fmt ` chunk and between it and the samples.

`begin_wave` writes the header before the first sample, with lengths that `end_wave` corrects when
the number of bytes is known.  `recorded_parsed` is the way back: what was recorded is played with
the parameters it was recorded with, and from its first sample to its last. -/

namespace Carroll

/-! ### Files of chunks -/

/-- A chunk that is passed over. -/
structure WaveChunk where
  type : ℕ
  content : List UInt8
  pad : UInt8

/-- What is skipped: the content and its padding. -/
def WaveChunk.body (c : WaveChunk) : List UInt8 :=
  c.content ++ if c.content.length % 2 = 1 then [c.pad] else []

def WaveChunk.bytes (big : Bool) (c : WaveChunk) : List UInt8 :=
  writeLe 4 c.type ++ writeUint big 4 c.content.length ++ c.body

/-- The type and the length fit into their fields, the length also with the padding. -/
structure WaveChunk.Fits (c : WaveChunk) : Prop where
  type_lt : c.type < 2 ^ 32
  body_lt : c.body.length < 2 ^ 32

theorem WaveChunk.length_body (c : WaveChunk) :
    c.body.length = c.content.length + c.content.length % 2 := by
  rw [body, List.length_append]
  split
  · simp
    omega
  · simp
    omega

theorem WaveChunk.Fits.evenLen {c : WaveChunk} (h : c.Fits) :
    evenLen c.content.length = c.body.length := by
  have := h.body_lt
  rw [Carroll.evenLen, ← c.length_body, u32_of_lt this]

variable {big : Bool} {stop : ℕ}

/-- A header of a chunk, read back. -/
theorem chunkHeader_read (big : Bool) {type len : ℕ} (htype : type < 2 ^ 32) (hlen : len < 2 ^ 32)
    (s : List UInt8) :
    readLe (bytesAt (writeLe 4 type ++ writeUint big 4 len ++ s) 0 4) = type ∧
      readUint big (bytesAt (writeLe 4 type ++ writeUint big 4 len ++ s) 4 4) = len ∧
      (writeLe 4 type ++ writeUint big 4 len ++ s).drop 8 = s := by
  rw [List.append_assoc]
  refine ⟨?_, ?_, ?_⟩
  · rw [bytesAt_head (length_writeLe 4 type), readLe_writeLe]
    exact Nat.mod_eq_of_lt htype
  · have h4 := bytesAt_append_right 0 4 (writeLe 4 type) (writeUint big 4 len ++ s)
    rw [length_writeLe, add_zero] at h4
    rw [h4, bytesAt_head (length_writeUint big 4 len), readUint_writeUint]
    exact Nat.mod_eq_of_lt hlen
  · rw [← List.append_assoc]
    exact List.drop_left' (by simp)

theorem skipTo_stop {len : ℕ} (hstop : stop < 2 ^ 32) (hlen : len < 2 ^ 32) (s : List UInt8) :
    skipTo big stop (writeLe 4 stop ++ writeUint big 4 len ++ s) = some (len, s) := by
  obtain ⟨htype, hfield, hdrop⟩ := chunkHeader_read big hstop hlen s
  rw [skipTo, if_pos (by simp; omega)]
  simp only [htype, hfield, hdrop, if_true]

theorem skipTo_chunk {c : WaveChunk} (hc : c.Fits) (hne : c.type ≠ stop) (s : List UInt8) :
    skipTo big stop (c.bytes big ++ s) = skipTo big stop s := by
  have hlen : c.content.length < 2 ^ 32 := by
    have := c.length_body
    have := hc.body_lt
    omega
  obtain ⟨htype, hfield, hdrop⟩ := chunkHeader_read big hc.type_lt hlen (c.body ++ s)
  rw [WaveChunk.bytes, List.append_assoc, skipTo, if_pos (by simp; omega)]
  simp only [htype, hfield, hdrop, if_neg hne, hc.evenLen]
  rw [if_pos (by simp), List.drop_left]

/-- Chunks of other types are passed over. -/
theorem skipTo_chunks (big : Bool) {cs : List WaveChunk} (hcs : ∀ c ∈ cs, c.Fits ∧ c.type ≠ stop)
    (s : List UInt8) : skipTo big stop (cs.flatMap (·.bytes big) ++ s) = skipTo big stop s := by
  induction cs with
  | nil => rfl
  | cons c cs ih =>
      obtain ⟨hfits, hne⟩ := hcs c List.mem_cons_self
      rw [List.flatMap_cons, List.append_assoc, skipTo_chunk hfits hne]
      exact ih fun c hc => hcs c (List.mem_cons_of_mem _ hc)

/-- A WAVE file: `len` and `samplesLen` are its two length fields. -/
def waveFile (big : Bool) (len : ℕ) (before : List WaveChunk) (fmt : WaveChunk)
    (between : List WaveChunk) (samplesLen : ℕ) (samples : List UInt8) : List UInt8 :=
  writeLe 4 (if big then wavRifx else wavRiff) ++ writeUint big 4 len ++ writeLe 4 wavWave ++
    (before.flatMap (·.bytes big) ++ (fmt.bytes big ++ (between.flatMap (·.bytes big) ++
      (writeLe 4 wavData ++ writeUint big 4 samplesLen ++ samples))))

theorem waveHeader_read (big : Bool) (len : ℕ) (s : List UInt8) :
    let file := writeLe 4 (if big then wavRifx else wavRiff) ++ writeUint big 4 len ++
      writeLe 4 wavWave ++ s
    readLe (bytesAt file 0 4) = (if big then wavRifx else wavRiff) ∧
      readLe (bytesAt file 8 4) = wavWave ∧ file.drop 12 = s := by
  refine ⟨?_, ?_, ?_⟩
  · rw [List.append_assoc, List.append_assoc, bytesAt_head (length_writeLe 4 _), readLe_writeLe]
    cases big <;> rfl
  · have h8 := bytesAt_append_right 0 4
      (writeLe 4 (if big then wavRifx else wavRiff) ++ writeUint big 4 len) (writeLe 4 wavWave ++ s)
    rw [List.length_append, length_writeLe, length_writeUint] at h8
    rw [List.append_assoc _ _ s, h8, bytesAt_head (length_writeLe 4 _), readLe_writeLe]
    rfl
  · exact List.drop_left' (by simp)

/-- What the function makes of a file of chunks: the first `fmt ` chunk decides, and the samples
are what follows the header of the first `data` chunk behind it. -/
theorem parseWave_waveFile (big : Bool) (pbrec len : ℕ) {before between : List WaveChunk}
    {fmt : WaveChunk}
    (hbefore : ∀ c ∈ before, c.Fits ∧ c.type ≠ wavFmt)
    (hbetween : ∀ c ∈ between, c.Fits ∧ c.type ≠ wavData)
    (hfmt : fmt.Fits) (htype : fmt.type = wavFmt) (h16 : 16 ≤ fmt.body.length)
    {samplesLen : ℕ} (hlen : samplesLen < 2 ^ 32) (samples : List UInt8) :
    parseWave pbrec (waveFile big len before fmt between samplesLen samples) =
      some ((fmtBody big fmt.body.length fmt.body).map fun hw =>
        (hw, playCount pbrec samplesLen, samples)) := by
  obtain ⟨hmagic, hwave, hdrop⟩ := waveHeader_read big len
    (before.flatMap (·.bytes big) ++ (fmt.bytes big ++ (between.flatMap (·.bytes big) ++
      (writeLe 4 wavData ++ writeUint big 4 samplesLen ++ samples))))
  have hkind : ¬ (((if big then wavRifx else wavRiff) ≠ wavRiff ∧
      (if big then wavRifx else wavRiff) ≠ wavRifx) ∨ wavWave ≠ wavWave) := by
    cases big <;> simp
  have hbig : decide ((if big then wavRifx else wavRiff) = wavRifx) = big := by
    cases big <;> decide
  have hcontent : fmt.content.length < 2 ^ 32 := by
    have := fmt.length_body
    have := hfmt.body_lt
    omega
  have hdata := skipTo_chunks big hbetween
    (writeLe 4 wavData ++ writeUint big 4 samplesLen ++ samples)
  rw [skipTo_stop (by decide) hlen] at hdata
  rw [parseWave, waveFile, hmagic, hwave, if_neg hkind, hbig, hdrop]
  simp only
  rw [skipTo_chunks big hbefore, WaveChunk.bytes, htype, List.append_assoc _ fmt.body,
    skipTo_stop (by decide) hcontent]
  simp only [parseFmt, hfmt.evenLen, if_neg h16.not_gt]
  rw [if_pos (by simp), List.drop_left, hdata]
  have hbody : fmtBody big fmt.body.length (fmt.body ++ (between.flatMap (·.bytes big) ++
      (writeLe 4 wavData ++ writeUint big 4 samplesLen ++ samples))) =
      fmtBody big fmt.body.length fmt.body :=
    fmtBody_congr big h16 (by rw [List.take_left, List.take_length])
  rw [hbody]
  cases fmtBody big fmt.body.length fmt.body <;> rfl

/-- The file as `test_wavefile` gets it, in whatever parts it is loaded. -/
theorem testWavefile_waveFile (big : Bool) (cap pbrec len : ℕ) {before between : List WaveChunk}
    {fmt : WaveChunk}
    (hbefore : ∀ c ∈ before, c.Fits ∧ c.type ≠ wavFmt)
    (hbetween : ∀ c ∈ between, c.Fits ∧ c.type ≠ wavData)
    (hfmt : fmt.Fits) (htype : fmt.type = wavFmt) (h16 : 16 ≤ fmt.body.length)
    {samplesLen : ℕ} (hlen : samplesLen < 2 ^ 32) {samples loaded file : List UInt8}
    (hfile : loaded ++ file = waveFile big len before fmt between samplesLen samples)
    (hloaded : 12 ≤ loaded.length) :
    (testWavefile cap pbrec loaded file).2.parsed =
      some ((fmtBody big fmt.body.length fmt.body).map fun hw =>
        (hw, playCount pbrec samplesLen, samples)) := by
  rw [testWavefile_parsed cap pbrec hloaded, hfile]
  exact parseWave_waveFile big pbrec len hbefore hbetween hfmt htype h16 hlen samples

/-- A `LIST` chunk of three bytes. -/
def listChunk : WaveChunk := ⟨composeId 0x4c 0x49 0x53 0x54, [0x61, 0x62, 0x63], 0⟩

/-- The `fmt ` chunk of a mono file of bytes. -/
def monoFmt : WaveChunk :=
  ⟨wavFmt, [1, 0, 1, 0, 0x40, 0x1f, 0, 0, 0x40, 0x1f, 0, 0, 1, 0, 8, 0], 0⟩

theorem testWavefile_waveFile_mono :
    (testWavefile 1024 100 ((waveFile false 0 [listChunk] monoFmt [listChunk] 2 [7, 9]).take 26)
      ((waveFile false 0 [listChunk] monoFmt [listChunk] 2 [7, 9]).drop 26)).2.parsed =
      some (.ok (⟨.u8, 1, 8000⟩, 2, [7, 9])) := by
  have hlist : listChunk.Fits := ⟨by decide, by decide⟩
  refine (testWavefile_waveFile false 1024 100 0 ?_ ?_ ⟨by decide, by decide⟩ rfl
    (by decide) (by norm_num) (List.take_append_drop 26 _) (by decide)).trans (by decide)
  · simpa using ⟨hlist, by decide⟩
  · simpa using ⟨hlist, by decide⟩

/-! ### Recording -/

/-- The bits of a sample in the header; other formats end the program (`Wave doesn't support %s
format...`). -/
def waveBits : PcmFormat → Option ℕ
  | .u8 => some 8
  | .s16Le => some 16
  | .s32Le => some 32
  | .floatLe => some 32
  | .s24Le => some 24
  | .s24Le3 => some 24
  | _ => none

/-- `snd_pcm_format_physical_width`. -/
def physicalWidth : PcmFormat → ℕ
  | .u8 => 8
  | .s16Le => 16
  | .s16Be => 16
  | .s24Le => 32
  | .s24Be => 32
  | .s24Le3 => 24
  | .s24Be3 => 24
  | .s32Le => 32
  | .s32Be => 32
  | .floatLe => 32
  | .floatBe => 32
  | .muLaw => 8

/-- `byte_p_spl`, an `u_short`. -/
def bytesPerFrame (hw : HwParams) : ℕ := u32 (hw.channels * physicalWidth hw.format) / 8 % 2 ^ 16

/-- The `WaveFmtBody` of `begin_wave`. -/
def waveFmtBody (hw : HwParams) (bits : ℕ) : List UInt8 :=
  writeLe 2 (if hw.format = .floatLe then wavFmtIeeeFloat else wavFmtPcm) ++
    writeLe 2 hw.channels ++ writeLe 4 hw.rate ++ writeLe 4 (bytesPerFrame hw * hw.rate) ++
    writeLe 2 (bytesPerFrame hw) ++ writeLe 2 bits

/-- `if (cnt == (size_t)-2) cnt = 0x7fffff00;`. -/
def headerCount (cnt : ℕ) : ℕ := if cnt = 2 ^ 64 - 2 then 0x7fffff00 else cnt

/-- `begin_wave(fd, cnt)`: the header, or the end of the program. -/
def beginWave (hw : HwParams) (cnt : ℕ) : Option (List UInt8) :=
  (waveBits hw.format).map fun bits =>
    writeLe 4 wavRiff ++ writeLe 4 (headerCount cnt + 12 + 8 + 16 + 8 - 8) ++ writeLe 4 wavWave ++
      (writeLe 4 wavFmt ++ writeLe 4 16 ++ waveFmtBody hw bits) ++
      (writeLe 4 wavData ++ writeLe 4 (headerCount cnt))

/-- `end_wave(fd)`, after `fdcount` bytes of samples. -/
def endWave (file : List UInt8) (fdcount : ℕ) : List UInt8 :=
  let filelen := fdcount + 2 * 8 + 16 + 4
  let file := writeAt file 4 (writeLe 4 (min filelen 0x7fffffff))
  writeAt file (12 + 8 + 16) (writeLe 4 wavData ++ writeLe 4 (min fdcount 0x7fffffff))

/-- Overwriting a part in the middle of a file. -/
theorem writeAt_middle {a b d : List UInt8} {off : ℕ} (ha : a.length = off)
    (hb : b.length = d.length) (hd : 0 < d.length) (c : List UInt8) :
    writeAt (a ++ (b ++ c)) off d = a ++ (d ++ c) := by
  have hgap : a.length - (a ++ (b ++ c)).length = 0 := Nat.sub_eq_zero_of_le (by simp)
  have hrest : (a ++ (b ++ c)).drop (a.length + d.length) = c := by
    rw [← hb, ← List.append_assoc, ← List.length_append, List.drop_left]
  rw [writeAt, if_neg (List.length_pos_iff.mp hd), ← ha, List.take_left, hgap, List.replicate_zero,
    List.append_nil, hrest, List.append_assoc]

variable {hw : HwParams} {bits cnt : ℕ}

theorem length_waveFmtBody (hw : HwParams) (bits : ℕ) : (waveFmtBody hw bits).length = 16 := by
  simp [waveFmtBody]

/-- The `fmt ` chunk of a recording. -/
def recordedFmt (hw : HwParams) (bits : ℕ) : WaveChunk := ⟨wavFmt, waveFmtBody hw bits, 0⟩

theorem recordedFmt_body (hw : HwParams) (bits : ℕ) :
    (recordedFmt hw bits).body = waveFmtBody hw bits := by
  rw [WaveChunk.body, recordedFmt, length_waveFmtBody]
  simp

theorem recordedFmt_content (hw : HwParams) (bits : ℕ) :
    (recordedFmt hw bits).content.length = 16 := by
  rw [recordedFmt, length_waveFmtBody]

/-- A file of the two chunks of a recording. -/
theorem waveFile_recordedFmt (hw : HwParams) (bits len samplesLen : ℕ) (samples : List UInt8) :
    waveFile false len [] (recordedFmt hw bits) [] samplesLen samples =
      writeLe 4 wavRiff ++ (writeLe 4 len ++ (writeLe 4 wavWave ++ (writeLe 4 wavFmt ++
        (writeLe 4 16 ++ (waveFmtBody hw bits ++ (writeLe 4 wavData ++
          (writeLe 4 samplesLen ++ samples))))))) := by
  have htype : (recordedFmt hw bits).type = wavFmt := rfl
  rw [waveFile, List.flatMap_nil, List.nil_append, List.nil_append, WaveChunk.bytes,
    recordedFmt_body, recordedFmt_content, htype]
  simp only [writeUint, List.append_assoc, Bool.false_eq_true, if_false]

/-- The header is that of such a file, with the number of bytes that is expected. -/
theorem beginWave_eq (hbits : waveBits hw.format = some bits) (cnt : ℕ) (samples : List UInt8) :
    (beginWave hw cnt).map (· ++ samples) =
      some (waveFile false (headerCount cnt + 36) [] (recordedFmt hw bits) [] (headerCount cnt)
        samples) := by
  have hlen : headerCount cnt + 12 + 8 + 16 + 8 - 8 = headerCount cnt + 36 := by omega
  rw [beginWave, hbits, waveFile_recordedFmt, hlen]
  simp only [Option.map_some, List.append_assoc]

/-- The finished file has the right lengths. -/
theorem endWave_waveFile (len samplesLen fdcount : ℕ) (samples : List UInt8) :
    endWave (waveFile false len [] (recordedFmt hw bits) [] samplesLen samples) fdcount =
      waveFile false (min (fdcount + 36) 0x7fffffff) [] (recordedFmt hw bits) []
        (min fdcount 0x7fffffff) samples := by
  have hlen : fdcount + 2 * 8 + 16 + 4 = fdcount + 36 := by omega
  generalize hriffLen : min (fdcount + 36) 0x7fffffff = riffLen
  generalize hdataLen : min fdcount 0x7fffffff = dataLen
  have hriff (rest : List UInt8) : writeAt (writeLe 4 wavRiff ++ (writeLe 4 len ++ rest)) 4
      (writeLe 4 riffLen) = writeLe 4 wavRiff ++ (writeLe 4 riffLen ++ rest) :=
    writeAt_middle (length_writeLe 4 wavRiff) (by rw [length_writeLe, length_writeLe])
      (by rw [length_writeLe]; decide) rest
  have hfront : (writeLe 4 wavRiff ++ (writeLe 4 riffLen ++ (writeLe 4 wavWave ++
      (writeLe 4 wavFmt ++ (writeLe 4 16 ++ waveFmtBody hw bits))))).length = 12 + 8 + 16 := by
    simp only [List.length_append, length_writeLe, length_waveFmtBody]
  have hdata := writeAt_middle (b := writeLe 4 wavData ++ writeLe 4 samplesLen)
    (d := writeLe 4 wavData ++ writeLe 4 dataLen) hfront
    (by simp only [List.length_append, length_writeLe]) (by simp) samples
  simp only [List.append_assoc] at hdata
  rw [endWave, hlen, hriffLen, hdataLen, waveFile_recordedFmt, waveFile_recordedFmt, hriff, hdata]

theorem readUint_writeLe (w n : ℕ) : readUint false (writeLe w n) = n % 256 ^ w :=
  readUint_writeUint false w n

/-- The fields of `WaveFmtBody` as `test_wavefile` reads them. -/
theorem waveFmtBody_read (hw : HwParams) (bits : ℕ) :
    readUint false (bytesAt (waveFmtBody hw bits) 0 2) =
        (if hw.format = .floatLe then wavFmtIeeeFloat else wavFmtPcm) ∧
      readUint false (bytesAt (waveFmtBody hw bits) 2 2) = hw.channels % 256 ^ 2 ∧
      readUint false (bytesAt (waveFmtBody hw bits) 4 4) = hw.rate % 256 ^ 4 ∧
      readUint false (bytesAt (waveFmtBody hw bits) 12 2) = bytesPerFrame hw % 256 ^ 2 ∧
      readUint false (bytesAt (waveFmtBody hw bits) 14 2) = bits % 256 ^ 2 := by
  simp only [waveFmtBody, List.append_assoc]
  refine ⟨?_, ?_, ?_, ?_, ?_⟩
  · rw [bytesAt_head (length_writeLe 2 _), readUint_writeLe]
    split <;> rfl
  · rw [bytesAt_mid (length_writeLe 2 _) (length_writeLe 2 _), readUint_writeLe]
  · rw [← List.append_assoc, bytesAt_mid (by simp) (length_writeLe 4 _), readUint_writeLe]
  · rw [← List.append_assoc, ← List.append_assoc, ← List.append_assoc,
      bytesAt_mid (by simp) (length_writeLe 2 _), readUint_writeLe]
  · rw [← List.append_assoc, ← List.append_assoc, ← List.append_assoc, ← List.append_assoc,
      ← List.append_nil (writeLe 2 bits), bytesAt_mid (by simp) (length_writeLe 2 _),
      readUint_writeLe]

/-- Parameters whose frames have a length that fits into `byte_p_spl`. -/
structure HwParams.Recordable (hw : HwParams) : Prop where
  channels_pos : 1 ≤ hw.channels
  frame_lt : hw.channels * physicalWidth hw.format < 2 ^ 19
  rate_lt : hw.rate < 2 ^ 32

theorem bytesPerFrame_eq (h : hw.Recordable) :
    bytesPerFrame hw = hw.channels * (physicalWidth hw.format / 8) ∧ bytesPerFrame hw < 256 ^ 2 := by
  have hframe := h.frame_lt
  have hdvd : 8 ∣ physicalWidth hw.format := by cases hw.format <;> decide
  have hdiv := Nat.mul_div_assoc hw.channels hdvd
  rw [bytesPerFrame, u32_of_lt (by omega), ← hdiv]
  omega

/-- The format and the width of a frame give the format back. -/
theorem waveFormat_waveBits (h : hw.Recordable) (hbits : waveBits hw.format = some bits) :
    waveFormat false (if hw.format = .floatLe then wavFmtIeeeFloat else wavFmtPcm) 0 bits
      (bytesPerFrame hw) hw.channels = .ok hw.format := by
  have hwidth : bytesPerFrame hw / hw.channels = physicalWidth hw.format / 8 := by
    rw [(bytesPerFrame_eq h).1]
    exact Nat.mul_div_cancel_left _ h.channels_pos
  cases hformat : hw.format <;> rw [hformat] at hbits hwidth <;> simp only [waveBits] at hbits
  all_goals first
    | (obtain rfl := Option.some_inj.mp hbits
       simp [waveFormat, hwidth, physicalWidth, wavFmtPcm, wavFmtIeeeFloat])
    | cases hbits

/-- The parameters come back from the chunk that was written for them. -/
theorem fmtBody_waveFmtBody (h : hw.Recordable) (hbits : waveBits hw.format = some bits) :
    fmtBody false 16 (waveFmtBody hw bits) = .ok hw := by
  obtain ⟨htag, hchannels, hrate, hframe, hbps⟩ := waveFmtBody_read hw bits
  have hchan : hw.channels < 256 ^ 2 := by
    have hwidth : 8 ≤ physicalWidth hw.format := by cases hw.format <;> decide
    have := h.frame_lt
    have := Nat.mul_le_mul_left hw.channels hwidth
    omega
  have hb : bits < 256 ^ 2 := by
    cases hformat : hw.format <;> rw [hformat] at hbits <;> simp only [waveBits] at hbits <;> grind
  rw [Nat.mod_eq_of_lt hchan] at hchannels
  have hrate_lt : hw.rate < 256 ^ 4 := h.rate_lt
  rw [Nat.mod_eq_of_lt hrate_lt] at hrate
  rw [Nat.mod_eq_of_lt (bytesPerFrame_eq h).2] at hframe
  rw [Nat.mod_eq_of_lt hb] at hbps
  have htag' : (if hw.format = .floatLe then wavFmtIeeeFloat else wavFmtPcm) ≠ wavFmtExtensible := by
    split <;> decide
  have hkind : ¬ ((if hw.format = .floatLe then wavFmtIeeeFloat else wavFmtPcm) ≠ wavFmtPcm ∧
      (if hw.format = .floatLe then wavFmtIeeeFloat else wavFmtPcm) ≠ wavFmtIeeeFloat) := by
    split <;> decide
  have hpos := h.channels_pos
  have hformat := waveFormat_waveBits h hbits
  simp only [fmtBody, htag, hchannels, hrate, hframe, hbps, if_neg htag']
  simp only [pure_bind, if_neg hkind, if_neg hpos.not_gt, if_neg (Nat.not_lt_zero bits), hformat]
  rfl

/-- A finished recording as a file of chunks. -/
theorem recorded_eq {header : List UInt8} (hheader : beginWave hw cnt = some header)
    (samples : List UInt8) :
    ∃ bits, waveBits hw.format = some bits ∧
      endWave (header ++ samples) samples.length =
        waveFile false (min (samples.length + 36) 0x7fffffff) [] (recordedFmt hw bits) []
          (min samples.length 0x7fffffff) samples := by
  obtain ⟨bits, hbits⟩ : ∃ bits, waveBits hw.format = some bits := by
    rw [beginWave, Option.map_eq_some_iff] at hheader
    exact hheader.imp fun _ hb => hb.1
  have hfile := beginWave_eq hbits cnt samples
  rw [hheader, Option.map_some, Option.some_inj] at hfile
  exact ⟨bits, hbits, by rw [hfile, endWave_waveFile]⟩

/-- What the bytes of a recording say. -/
theorem parseWave_recorded {header : List UInt8} (hheader : beginWave hw cnt = some header)
    (h : hw.Recordable) (pbrec : ℕ) (samples : List UInt8) :
    parseWave pbrec (endWave (header ++ samples) samples.length) =
      some (.ok (hw, playCount pbrec (min samples.length 0x7fffffff), samples)) := by
  obtain ⟨bits, hbits, hfile⟩ := recorded_eq hheader samples
  have hlen : (waveFmtBody hw bits).length = 16 := length_waveFmtBody hw bits
  have hbody : (recordedFmt hw bits).body.length = 16 := by rw [recordedFmt_body, hlen]
  have htype : wavFmt < 2 ^ 32 := by decide
  have hfits : (recordedFmt hw bits).Fits := ⟨htype, by rw [hbody]; norm_num⟩
  have hdata : min samples.length 0x7fffffff < 2 ^ 32 :=
    lt_of_le_of_lt (min_le_right _ _) (by norm_num)
  have hnone (stop : ℕ) : ∀ c ∈ ([] : List WaveChunk), c.Fits ∧ c.type ≠ stop := by simp
  have hparse := parseWave_waveFile false pbrec (min (samples.length + 36) 0x7fffffff)
    (hnone wavFmt) (hnone wavData) hfits rfl hbody.ge hdata samples
  rw [hfile, hparse, hbody, recordedFmt_body, fmtBody_waveFmtBody h hbits]
  rfl

/-- What was recorded is played: from its first sample to its last, with the parameters it was
recorded with, however much of the file had been loaded for the other formats. -/
theorem recorded_parsed {header : List UInt8} (hheader : beginWave hw cnt = some header)
    (h : hw.Recordable) (samples : List UInt8) {loaded file : List UInt8}
    (hfile : loaded ++ file = endWave (header ++ samples) samples.length)
    (hloaded : 12 ≤ loaded.length) (cap pbrec : ℕ) :
    (testWavefile cap pbrec loaded file).2.parsed =
      some (.ok (hw, playCount pbrec (min samples.length 0x7fffffff), samples)) := by
  rw [testWavefile_parsed cap pbrec hloaded, hfile]
  exact parseWave_recorded hheader h pbrec samples

/-- A recording of one frame. -/
def oneFrame : List UInt8 := endWave ((beginWave ⟨.s16Le, 1, 8000⟩ 0).get (by decide) ++ [7, 9]) 2

theorem recorded_parsed_oneFrame :
    (testWavefile 1024 100 (oneFrame.take 26) (oneFrame.drop 26)).2.parsed =
      some (.ok (⟨.s16Le, 1, 8000⟩, 2, [7, 9])) :=
  recorded_parsed (Option.some_get _).symm ⟨by decide, by decide, by decide⟩ [7, 9]
    (List.take_append_drop 26 _) (by decide) 1024 100

end Carroll
