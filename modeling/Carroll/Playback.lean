import Carroll.PcmTransfer
import Carroll.WaveFile

/-! # From a recording to the device

`playback` of `libap.c` finds out what a file is by loading a header of growing length and asking
`test_au`, `test_vocfile` and `test_wavefile` in turn, and then plays it with `playback_go`.  Here
is also the other file format with a round trip, Sparc Audio: `begin_au` and `end_au` write what
`test_au` reads.

`recorded_wave_plays` and `recorded_au_plays` go the whole way: whatever the device answers, what it
takes of a recorded file are the recorded frames. -/

namespace Carroll

/-! ### The tests of the formats -/

/-- What `playback` knows of its file: whether it is a regular one, what of it is in `audiobuf`,
what comes behind, and the globals `hwparams` and `pbrec_count`. -/
structure Opened where
  regular : Bool
  loaded : List UInt8
  file : List UInt8
  hw : HwParams
  pbrec : ℕ

/-- The ends of the program before anything is played. -/
inductive PlayError
  /-- `read error` of `read_header` and of `test_au`. -/
  | read
  | wave (e : WaveError)

/-- `read_header(loaded, header_size)`; `none` is `-1`.  Nothing of the file has been passed over, so
`st_size` is what is loaded and what comes behind. -/
def readHeader (s : Opened) (headerSize : ℕ) : Except PlayError (Option Opened) :=
  if s.regular ∧ s.loaded.length + s.file.length < headerSize then .ok none
  else if s.loaded.length < headerSize then
    if s.file.length < headerSize - s.loaded.length then .error .read
    else .ok (some { s with
      loaded := s.loaded ++ s.file.take (headerSize - s.loaded.length)
      file := s.file.drop (headerSize - s.loaded.length) })
  else .ok (some s)

/-- `AU_MAGIC`. -/
def auMagic : ℕ := composeId 0x2e 0x73 0x6e 0x64

/-- A field of `AuHeader`, `BE_INT`. -/
def auField (header : List UInt8) (off : ℕ) : ℕ := readUint true (bytesAt header off 4)

/-- `ap->encoding`. -/
def auFormat : ℕ → Option PcmFormat
  | 1 => some .muLaw
  | 2 => some .u8
  | 3 => some .s16Be
  | _ => none

/-- `test_au(fd, buffer)`: whether it is such a file.  The globals keep what had been found before
the test failed; what is left of the header is read behind its 24 bytes. -/
def testAu (s : Opened) : Except PlayError (Bool × Opened) :=
  if readLe (bytesAt s.loaded 0 4) ≠ auMagic then .ok (false, s)
  else if 128 < auField s.loaded 4 ∨ auField s.loaded 4 < 24 then .ok (false, s)
  else
    match auFormat (auField s.loaded 12) with
    | none => .ok (false, { s with pbrec := auField s.loaded 8 })
    | some format =>
        if auField s.loaded 16 < 2000 ∨ 256000 < auField s.loaded 16 then
          .ok (false, { s with
            pbrec := auField s.loaded 8, hw := ⟨format, s.hw.channels, auField s.loaded 16⟩ })
        else if auField s.loaded 20 < 1 ∨ 256 < auField s.loaded 20 then
          .ok (false, { s with
            pbrec := auField s.loaded 8
            hw := ⟨format, auField s.loaded 20, auField s.loaded 16⟩ })
        else if s.file.length < auField s.loaded 4 - 24 then .error .read
        else
          .ok (true, { s with
            pbrec := auField s.loaded 8
            hw := ⟨format, auField s.loaded 20, auField s.loaded 16⟩
            file := s.file.drop (auField s.loaded 4 - 24) })

/-- `VOC_MAGIC_STRING`. -/
def vocMagic : List UInt8 :=
  [0x43, 0x72, 0x65, 0x61, 0x74, 0x69, 0x76, 0x65, 0x20, 0x56, 0x6f, 0x69, 0x63, 0x65, 0x20,
    0x46, 0x69, 0x6c, 0x65, 0x1a]

/-- `test_vocfile(buffer)`; `none` is a negative result, also of a header that is too short. -/
def testVocfile (header : List UInt8) : Option ℕ :=
  if bytesAt header 0 20 ≠ vocMagic then none
  else if readLe (bytesAt header 22 2) + readLe (bytesAt header 24 2) ≠ 0x1233 then none
  else if readLe (bytesAt header 20 2) < 26 then none
  else some (readLe (bytesAt header 20 2) - 26)

/-! ### Playing a file -/

/-- `file_type`; `none` is `FORMAT_DEFAULT`. -/
inductive FileType
  | au | voc | wave | raw
deriving DecidableEq

/-- The options: `timelimit`, `sampleslimit` and `rhwparams`. -/
structure PlayOptions where
  timelimit : ℕ
  sampleslimit : ℕ
  rhw : HwParams

/-- `snd_pcm_format_size`. -/
def formatSize (format : PcmFormat) (samples : ℕ) : ℕ := samples * physicalWidth format / 8

/-- `calc_count()`. -/
def calcCount (o : PlayOptions) (hw : HwParams) (pbrec : ℕ) : ℕ :=
  let count :=
    if o.timelimit = 0 then
      if o.sampleslimit = 0 then pbrec
      else formatSize hw.format (u32 (o.sampleslimit * hw.channels))
    else formatSize hw.format (u32 (hw.rate * hw.channels)) * o.timelimit
  if count < pbrec then count else pbrec

/-- What is going to be played: `playback_go(fd, loaded, count, rtype, name)` with these parameters,
or a `VOC` file, whose blocks `voc_play` reads from offset `ofs` on. -/
inductive Playing
  | go (rtype : FileType) (hw : HwParams) (count : ℕ) (loaded file : List UInt8)
  | voc (ofs count : ℕ) (s : Opened)

/-- What one of the functions `playback_au`, `playback_voc` and `playback_wave` does: `-1`, with
what has been loaded for it, or play. -/
inductive Tried
  | no (s : Opened)
  | plays (p : Playing)

def playbackAu (o : PlayOptions) (s : Opened) : Except PlayError Tried := do
  match ← readHeader s 24 with
  | none => return .no s
  | some s =>
      match ← testAu s with
      | (false, s) => return .no s
      | (true, s) =>
          return .plays (.go .au s.hw (calcCount o s.hw s.pbrec)
            (s.loaded.take (s.loaded.length - 24)) s.file)

def playbackVoc (o : PlayOptions) (s : Opened) : Except PlayError Tried := do
  match ← readHeader s 26 with
  | none => return .no s
  | some s =>
      match testVocfile s.loaded with
      | none => return .no s
      | some ofs => return .plays (.voc ofs (calcCount o s.hw s.pbrec) s)

/-- The `malloc(1024)` of `audiobuf`. -/
def audiobufSize : ℕ := 1024

def playbackWave (o : PlayOptions) (s : Opened) : Except PlayError Tried := do
  match ← readHeader s 12 with
  | none => return .no s
  | some s =>
      match (testWavefile audiobufSize s.pbrec s.loaded s.file).2 with
      | .no => return .no s
      | .exits e => throw (.wave e)
      | .plays hw pbrec data file => return .plays (.go .wave hw (calcCount o hw pbrec) data file)

def playbackRaw (o : PlayOptions) (s : Opened) : Playing :=
  .go .raw o.rhw (calcCount o o.rhw s.pbrec) s.loaded s.file

/-- The outcome of a format that was asked for. -/
def Tried.played : Tried → Option Playing
  | .no _ => none
  | .plays p => some p

/-- `playback(name)` up to the playing; `none` is a file of another kind than was asked for. -/
def playback (o : PlayOptions) (type : Option FileType) (s : Opened) :
    Except PlayError (Option Playing) := do
  match type with
  | some .au => return (← playbackAu o s).played
  | some .voc => return (← playbackVoc o s).played
  | some .wave => return (← playbackWave o s).played
  | some .raw => return some (playbackRaw o s)
  | none =>
      match ← playbackAu o s with
      | .plays p => return some p
      | .no s =>
          match ← playbackVoc o s with
          | .plays p => return some p
          | .no s =>
              match ← playbackWave o s with
              | .plays p => return some p
              | .no s => return some (playbackRaw o s)

/-! ### The headers are loaded -/

/-- `LLONG_MAX`. -/
def llongMax : ℕ := 0x7fffffffffffffff

/-- A file that has just been opened. -/
def Opened.start (regular : Bool) (file : List UInt8) (hw : HwParams) : Opened :=
  ⟨regular, [], file, hw, llongMax⟩

theorem readHeader_of_lt {s : Opened} {n : ℕ} (hlt : s.loaded.length < n)
    (hle : n ≤ (s.loaded ++ s.file).length) :
    readHeader s n = .ok (some { s with
      loaded := (s.loaded ++ s.file).take n, file := (s.loaded ++ s.file).drop n }) := by
  rw [List.length_append] at hle
  rw [readHeader, if_neg (by omega), if_pos hlt, if_neg (by omega), List.take_append,
    List.drop_append, List.take_of_length_le hlt.le, List.drop_eq_nil_of_le hlt.le, List.nil_append]

theorem readHeader_of_le {s : Opened} {n : ℕ} (hle : n ≤ s.loaded.length) :
    readHeader s n = .ok (some s) := by
  rw [readHeader, if_neg (by omega), if_neg (by omega)]

theorem except_ok_bind {α β : Type} (a : α) (f : α → Except PlayError β) :
    ((Except.ok a : Except PlayError α) >>= f) = f a := rfl

/-- Without options there is no other limit than that of the file. -/
theorem calcCount_of_zero {o : PlayOptions} (htime : o.timelimit = 0)
    (hsamples : o.sampleslimit = 0) (hw : HwParams) (pbrec : ℕ) : calcCount o hw pbrec = pbrec := by
  simp [calcCount, htime, hsamples]

/-! ### WAVE -/

theorem magic_of_parseWave {pbrec : ℕ} {file : List UInt8}
    {r : Except WaveError (HwParams × ℕ × List UInt8)} (h : parseWave pbrec file = some r) :
    readLe (bytesAt file 0 4) = wavRiff ∨ readLe (bytesAt file 0 4) = wavRifx := by
  by_contra hno
  rw [parseWave, if_pos (.inl (not_or.mp hno))] at h
  cases h

theorem bytesAt_front {file : List UInt8} {n : ℕ} (hn : 4 ≤ n) :
    bytesAt (file.take n) 0 4 = bytesAt file 0 4 := bytesAt_take (by omega)

/-- The front of the file tells it from the other formats. -/
theorem testAu_of_wave {file : List UInt8}
    (h : readLe (bytesAt file 0 4) = wavRiff ∨ readLe (bytesAt file 0 4) = wavRifx) {s : Opened}
    {n : ℕ} (hn : 4 ≤ n) (hs : s.loaded = file.take n) : testAu s = .ok (false, s) := by
  have hne : readLe (bytesAt s.loaded 0 4) ≠ auMagic := by
    rw [hs, bytesAt_front hn]
    rcases h with h | h <;> rw [h] <;> decide
  rw [testAu, if_pos hne]

theorem testVocfile_of_wave {file : List UInt8}
    (h : readLe (bytesAt file 0 4) = wavRiff ∨ readLe (bytesAt file 0 4) = wavRifx) {n : ℕ}
    (hn : 4 ≤ n) : testVocfile (file.take n) = none := by
  have hne : bytesAt (file.take n) 0 20 ≠ vocMagic := fun heq => by
    have hfront : bytesAt file 0 4 = vocMagic.take 4 := by
      rw [← bytesAt_front hn, ← heq, bytesAt, bytesAt, List.take_take]
      rfl
    rw [hfront] at h
    rcases h with h | h <;> exact absurd h (by decide)
  rw [testVocfile, if_pos hne]

/-- A file whose parameters are found is played as WAVE: the tests before fail, and what they have
loaded is taken over.  It is no more than headers, so that all of the samples are still to be
read. -/
theorem playback_wave {file samples : List UInt8} {hw : HwParams} {count : ℕ}
    (hparse : parseWave llongMax file = some (.ok (hw, count, samples))) (hlen : 26 ≤ file.length)
    {o : PlayOptions} (htime : o.timelimit = 0) (hsamples : o.sampleslimit = 0) (regular : Bool)
    (hw₀ : HwParams) :
    playback o none (.start regular file hw₀) = .ok (some (.go .wave hw count [] samples)) := by
  have hmagic := magic_of_parseWave hparse
  have hzero : ([] : List UInt8).length < 24 := by decide
  have hread24 : readHeader (.start regular file hw₀) 24 =
      .ok (some ⟨regular, file.take 24, file.drop 24, hw₀, llongMax⟩) :=
    readHeader_of_lt hzero (by change 24 ≤ file.length; omega)
  have hau : playbackAu o (.start regular file hw₀) =
      .ok (.no ⟨regular, file.take 24, file.drop 24, hw₀, llongMax⟩) := by
    have htest := testAu_of_wave hmagic (s := ⟨regular, file.take 24, file.drop 24, hw₀, llongMax⟩)
      (n := 24) (by norm_num) rfl
    simp only [playbackAu, hread24, htest, except_ok_bind]
    rfl
  have hread26 : readHeader ⟨regular, file.take 24, file.drop 24, hw₀, llongMax⟩ 26 =
      .ok (some ⟨regular, file.take 26, file.drop 26, hw₀, llongMax⟩) := by
    have hlt : (file.take 24).length < 26 := by
      rw [List.length_take]
      omega
    have := readHeader_of_lt (s := ⟨regular, file.take 24, file.drop 24, hw₀, llongMax⟩) hlt
      (by rwa [List.take_append_drop])
    rwa [List.take_append_drop] at this
  have hvoc : playbackVoc o ⟨regular, file.take 24, file.drop 24, hw₀, llongMax⟩ =
      .ok (.no ⟨regular, file.take 26, file.drop 26, hw₀, llongMax⟩) := by
    simp only [playbackVoc, hread26, except_ok_bind,
      testVocfile_of_wave hmagic (by norm_num : 4 ≤ 26)]
    rfl
  have hloaded : 12 ≤ (file.take 26).length := by
    rw [List.length_take]
    omega
  have hread12 : readHeader ⟨regular, file.take 26, file.drop 26, hw₀, llongMax⟩ 12 =
      .ok (some ⟨regular, file.take 26, file.drop 26, hw₀, llongMax⟩) := readHeader_of_le hloaded
  have hcap : (file.take 26).length ≤ audiobufSize :=
    (List.length_take_le 26 file).trans (by decide)
  have hkeeps := testWavefile_keepsIn audiobufSize llongMax hcap (file.drop 26)
  have hparsed := testWavefile_parsed audiobufSize llongMax hloaded (file.drop 26)
  rw [List.take_append_drop, hparse] at hparsed
  cases htest : (testWavefile audiobufSize llongMax (file.take 26) (file.drop 26)).2 with
  | no => rw [htest] at hparsed; cases hparsed
  | exits e => rw [htest] at hparsed; cases hparsed
  | plays hw' count' data rest =>
      rw [htest] at hparsed
      obtain ⟨rfl, rfl, hsamples'⟩ : hw' = hw ∧ count' = count ∧ data ++ rest = samples := by
        simpa [WaveOutcome.parsed] using hparsed
      have hdata : data = [] := by
        have hle := hkeeps.back htest
        rw [List.length_take] at hle
        exact List.eq_nil_of_length_eq_zero (by omega)
      rw [hdata, List.nil_append] at hsamples'
      have hwave : playbackWave o ⟨regular, file.take 26, file.drop 26, hw₀, llongMax⟩ =
          .ok (.plays (.go .wave hw' count' [] samples)) := by
        rw [← hsamples', ← hdata]
        simp only [playbackWave, hread12, except_ok_bind, htest,
          calcCount_of_zero htime hsamples]
        rfl
      simp only [playback, hau, hvoc, hwave, except_ok_bind]
      rfl

theorem length_waveFile_recordedFmt (hw : HwParams) (bits len samplesLen : ℕ)
    (samples : List UInt8) :
    (waveFile false len [] (recordedFmt hw bits) [] samplesLen samples).length =
      44 + samples.length := by
  rw [waveFile_recordedFmt]
  simp only [List.length_append, length_writeLe, length_waveFmtBody]
  omega

/-- A recording is longer than the headers that are loaded. -/
theorem length_recorded {header : List UInt8} {hw : HwParams} {cnt : ℕ}
    (hheader : beginWave hw cnt = some header) (samples : List UInt8) :
    (endWave (header ++ samples) samples.length).length = 44 + samples.length := by
  obtain ⟨bits, -, hfile⟩ := recorded_eq hheader samples
  rw [hfile, length_waveFile_recordedFmt]

/-- The limit of a recording is behind its last sample. -/
theorem le_playCount {n : ℕ} (h : n ≤ llongMax) : n ≤ playCount llongMax (min n 0x7fffffff) := by
  unfold playCount
  split <;> omega

theorem wholeFrames_of_le {p : PcmParams} {count : ℕ} {s : List UInt8} (h : s.length ≤ count) :
    wholeFrames p count s = wholeFrames p s.length s := by
  rw [wholeFrames, wholeFrames, min_eq_right h, min_self]

/-- A recording is found to be one, and all of it is played. -/
theorem playback_recorded {header : List UInt8} {hw : HwParams} {cnt : ℕ}
    (hheader : beginWave hw cnt = some header) (h : hw.Recordable) {samples : List UInt8}
    (hlen : samples.length ≤ llongMax) {o : PlayOptions} (htime : o.timelimit = 0)
    (hsamples : o.sampleslimit = 0) (regular : Bool) (hw₀ : HwParams) :
    ∃ count,
      playback o none (.start regular (endWave (header ++ samples) samples.length) hw₀) =
        .ok (some (.go .wave hw count [] samples)) ∧
      ∀ (p : PcmParams) (answers : List PcmAnswer),
        (playbackGo p answers count [] samples).TakesFrames p samples.length samples ∧
        (p.chunkBytes < 2 ^ 28 → Patient answers (samples.length / p.frame + p.chunkSize) →
          (playbackGo p answers count [] samples).stop = .done) := by
  have hfile : 26 ≤ (endWave (header ++ samples) samples.length).length := by
    rw [length_recorded hheader]
    omega
  have hcount := le_playCount hlen
  refine ⟨_, playback_wave (parseWave_recorded hheader h llongMax samples) hfile htime hsamples
    regular hw₀, fun p answers => ⟨?_, fun hint hpatient =>
    playbackGo_stop (Nat.zero_le _) hint (hpatient.mono (playedFrames_le p _ samples))⟩⟩
  have hframes : (playbackGo p answers (playCount llongMax (min samples.length 0x7fffffff)) []
      samples).TakesFrames p _ ([] ++ samples) :=
    takesFrames_playbackGo p answers (Nat.zero_le _) samples
  rwa [PcmRun.TakesFrames, List.nil_append, wholeFrames_of_le hcount] at hframes

/-- From the recording to the device: the file that `begin_wave`, the samples and `end_wave` leave is
found to be a WAVE file with the parameters of the recording, and whatever the device answers, it
takes the recorded frames in order, each once, and then silence; all of them if it keeps taking. -/
theorem recorded_wave_plays {header : List UInt8} {hw : HwParams} {cnt : ℕ}
    (hheader : beginWave hw cnt = some header) (h : hw.Recordable) {samples : List UInt8}
    (hlen : samples.length ≤ llongMax) {o : PlayOptions} (htime : o.timelimit = 0)
    (hsamples : o.sampleslimit = 0) (regular : Bool) (hw₀ : HwParams) (p : PcmParams)
    (answers : List PcmAnswer) :
    ∃ count,
      playback o none (.start regular (endWave (header ++ samples) samples.length) hw₀) =
        .ok (some (.go .wave hw count [] samples)) ∧
      (playbackGo p answers count [] samples).TakesFrames p samples.length samples ∧
      (p.chunkBytes < 2 ^ 28 → Patient answers (samples.length / p.frame + p.chunkSize) →
        (playbackGo p answers count [] samples).stop = .done) := by
  obtain ⟨count, hplay, hframes⟩ :=
    playback_recorded hheader h hlen htime hsamples regular hw₀
  exact ⟨count, hplay, hframes p answers⟩

/-- No limits. -/
def noLimits : PlayOptions := ⟨0, 0, ⟨.u8, 1, 8000⟩⟩

theorem recorded_wave_plays_oneFrame :
    ∃ count,
      playback noLimits none (.start true oneFrame ⟨.u8, 1, 8000⟩) =
        .ok (some (.go .wave ⟨.s16Le, 1, 8000⟩ count [] [7, 9])) ∧
      (playbackGo twoFrames oneByOne count [] [7, 9]).TakesFrames twoFrames 2 [7, 9] ∧
      (twoFrames.chunkBytes < 2 ^ 28 → Patient oneByOne (2 / 2 + 2) →
        (playbackGo twoFrames oneByOne count [] [7, 9]).stop = .done) :=
  recorded_wave_plays (Option.some_get (x := beginWave ⟨.s16Le, 1, 8000⟩ 0) (by decide)).symm
    ⟨by decide, by decide, by decide⟩ (by decide : ([7, 9] : List UInt8).length ≤ llongMax) rfl rfl
    true ⟨.u8, 1, 8000⟩ twoFrames oneByOne

/-! ### Sparc Audio -/

/-- `ah.encoding`; other formats end the program (`Sparc Audio doesn't support %s format...`). -/
def auEncoding : PcmFormat → Option ℕ
  | .muLaw => some 1
  | .u8 => some 2
  | .s16Be => some 3
  | _ => none

/-- An `AuHeader` with these fields, and the samples. -/
def auFile (encoding : ℕ) (hw : HwParams) (size : ℕ) (samples : List UInt8) : List UInt8 :=
  writeLe 4 auMagic ++ (writeUint true 4 24 ++ (writeUint true 4 size ++
    (writeUint true 4 encoding ++ (writeUint true 4 hw.rate ++
      (writeUint true 4 hw.channels ++ samples)))))

/-- `begin_au(fd, cnt)`: the header, or the end of the program. -/
def beginAu (hw : HwParams) (cnt : ℕ) : Option (List UInt8) :=
  (auEncoding hw.format).map fun encoding => auFile encoding hw cnt []

/-- `end_au(fd)`, after `fdcount` bytes of samples. -/
def endAu (file : List UInt8) (fdcount : ℕ) : List UInt8 :=
  writeAt file 8 (writeUint true 4 (min fdcount 0xffffffff))

/-- The parameters that `test_au` plays. -/
structure HwParams.AuPlayable (hw : HwParams) : Prop where
  rate : 2000 ≤ hw.rate ∧ hw.rate ≤ 256000
  channels : 1 ≤ hw.channels ∧ hw.channels ≤ 256

theorem endAu_auFile (encoding : ℕ) (hw : HwParams) (size fdcount : ℕ) (samples : List UInt8) :
    endAu (auFile encoding hw size [] ++ samples) fdcount =
      auFile encoding hw (min fdcount 0xffffffff) samples := by
  generalize hlen : min fdcount 0xffffffff = len
  have hfront : (writeLe 4 auMagic ++ writeUint true 4 24).length = 8 := by
    rw [List.length_append, length_writeLe, length_writeUint]
  have hmid := writeAt_middle (b := writeUint true 4 size) (d := writeUint true 4 len) hfront
    (by rw [length_writeUint, length_writeUint]) (by rw [length_writeUint]; norm_num)
    (writeUint true 4 encoding ++ (writeUint true 4 hw.rate ++
      (writeUint true 4 hw.channels ++ samples)))
  rw [endAu, hlen, auFile, auFile]
  simpa only [List.append_assoc, List.append_nil] using hmid

theorem length_auFile (encoding : ℕ) (hw : HwParams) (size : ℕ) (samples : List UInt8) :
    (auFile encoding hw size samples).length = 24 + samples.length := by
  simp only [auFile, List.length_append, length_writeLe, length_writeUint]
  omega

/-- The fields of the header as `test_au` reads them. -/
theorem auFile_read (encoding : ℕ) (hw : HwParams) (size : ℕ) (samples : List UInt8) :
    readLe (bytesAt (auFile encoding hw size samples) 0 4) = auMagic ∧
      auField (auFile encoding hw size samples) 4 = 24 ∧
      auField (auFile encoding hw size samples) 8 = size % 256 ^ 4 ∧
      auField (auFile encoding hw size samples) 12 = encoding % 256 ^ 4 ∧
      auField (auFile encoding hw size samples) 16 = hw.rate % 256 ^ 4 ∧
      auField (auFile encoding hw size samples) 20 = hw.channels % 256 ^ 4 := by
  simp only [auFile, auField]
  refine ⟨?_, ?_, ?_, ?_, ?_, ?_⟩
  · rw [bytesAt_head (length_writeLe 4 _), readLe_writeLe]
    rfl
  · rw [bytesAt_mid (length_writeLe 4 _) (length_writeUint _ 4 _), readUint_writeUint]
    rfl
  · rw [← List.append_assoc, bytesAt_mid (by simp) (length_writeUint _ 4 _), readUint_writeUint]
  · rw [← List.append_assoc, ← List.append_assoc, bytesAt_mid (by simp) (length_writeUint _ 4 _),
      readUint_writeUint]
  · rw [← List.append_assoc, ← List.append_assoc, ← List.append_assoc,
      bytesAt_mid (by simp) (length_writeUint _ 4 _), readUint_writeUint]
  · rw [← List.append_assoc, ← List.append_assoc, ← List.append_assoc, ← List.append_assoc,
      bytesAt_mid (by simp) (length_writeUint _ 4 _), readUint_writeUint]

theorem auFormat_auEncoding {format : PcmFormat} {encoding : ℕ}
    (h : auEncoding format = some encoding) :
    auFormat encoding = some format ∧ encoding < 256 ^ 4 := by
  cases format <;> simp only [auEncoding, Option.some_inj, reduceCtorEq] at h
  all_goals subst h; exact ⟨rfl, by norm_num⟩

/-- The header is followed by its samples. -/
theorem testAu_auFile {hw : HwParams} {encoding size : ℕ}
    (hencoding : auEncoding hw.format = some encoding) (h : hw.AuPlayable) (hsize : size < 256 ^ 4)
    (regular : Bool) (samples : List UInt8) (hw₀ : HwParams) (pbrec : ℕ) :
    testAu ⟨regular, (auFile encoding hw size samples).take 24, samples, hw₀, pbrec⟩ =
      .ok (true, ⟨regular, (auFile encoding hw size samples).take 24, samples, hw, size⟩) := by
  obtain ⟨hmagic, hheader, hdata, henc, hrate, hchannels⟩ := auFile_read encoding hw size samples
  obtain ⟨hformat, hlt⟩ := auFormat_auEncoding hencoding
  obtain ⟨hr, hr'⟩ := h.rate
  obtain ⟨hc, hc'⟩ := h.channels
  have hfield (off : ℕ) (hoff : off + 4 ≤ 24) :
      auField ((auFile encoding hw size samples).take 24) off =
        auField (auFile encoding hw size samples) off := by
    rw [auField, bytesAt_take hoff, auField]
  rw [Nat.mod_eq_of_lt (by omega)] at hdata henc hrate hchannels
  rw [testAu]
  simp only [hfield 4 (by norm_num), hfield 8 (by norm_num), hfield 12 (by norm_num),
    hfield 16 (by norm_num), hfield 20 (by norm_num), hheader, hdata, henc, hrate, hchannels,
    hformat, bytesAt_front (by norm_num : 4 ≤ 24), hmagic]
  rw [if_neg (by simp), if_neg (by norm_num), if_neg (by omega), if_neg (by omega),
    if_neg (by omega)]
  rfl

/-- The same way for Sparc Audio, whose header limits what is played to `0xffffffff` bytes. -/
theorem recorded_au_plays {header : List UInt8} {hw : HwParams} {cnt : ℕ}
    (hheader : beginAu hw cnt = some header) (h : hw.AuPlayable) (samples : List UInt8)
    {o : PlayOptions} (htime : o.timelimit = 0) (hsamples : o.sampleslimit = 0) (regular : Bool)
    (hw₀ : HwParams) (p : PcmParams) (answers : List PcmAnswer) :
    ∃ count,
      playback o none (.start regular (endAu (header ++ samples) samples.length) hw₀) =
        .ok (some (.go .au hw count [] samples)) ∧
      (playbackGo p answers count [] samples).TakesFrames p (min samples.length 0xffffffff)
        samples ∧
      (p.chunkBytes < 2 ^ 28 → Patient answers (samples.length / p.frame + p.chunkSize) →
        (playbackGo p answers count [] samples).stop = .done) := by
  obtain ⟨encoding, hencoding, rfl⟩ := Option.map_eq_some_iff.mp hheader
  have hsize : min samples.length 0xffffffff < 256 ^ 4 :=
    lt_of_le_of_lt (min_le_right _ _) (by norm_num)
  rw [endAu_auFile]
  generalize min samples.length 0xffffffff = size at hsize ⊢
  have hdrop : (auFile encoding hw size samples).drop 24 = samples := by
    have hfront : auFile encoding hw size samples = auFile encoding hw size [] ++ samples := by
      simp only [auFile, List.append_assoc, List.append_nil]
    rw [hfront]
    exact List.drop_left' (length_auFile encoding hw size [])
  have hzero : ([] : List UInt8).length < 24 := by decide
  have hread : readHeader (.start regular (auFile encoding hw size samples) hw₀) 24 =
      .ok (some ⟨regular, (auFile encoding hw size samples).take 24, samples, hw₀, llongMax⟩) := by
    have := readHeader_of_lt (s := .start regular (auFile encoding hw size samples) hw₀) hzero
      (by change 24 ≤ (auFile encoding hw size samples).length; rw [length_auFile]; omega)
    simpa only [Opened.start, List.nil_append, hdrop] using this
  have htest := testAu_auFile hencoding h hsize regular samples hw₀ llongMax
  have htake : ((auFile encoding hw size samples).take 24).length - 24 = 0 :=
    Nat.sub_eq_zero_of_le (by simp)
  refine ⟨size, ?_, takesFrames_playbackGo p answers (Nat.zero_le _) samples,
    fun hint hpatient =>
      playbackGo_stop (Nat.zero_le _) hint (hpatient.mono (playedFrames_le p size samples))⟩
  simp only [playback, playbackAu, hread, htest, except_ok_bind, htake, List.take_zero,
    calcCount_of_zero htime hsamples]
  rfl

/-- A Sparc Audio recording of one frame. -/
def oneAuFrame : List UInt8 := endAu ((beginAu ⟨.s16Be, 1, 8000⟩ 0).get (by decide) ++ [7, 9]) 2

theorem recorded_au_plays_oneAuFrame :
    ∃ count,
      playback noLimits none (.start true oneAuFrame ⟨.u8, 1, 8000⟩) =
        .ok (some (.go .au ⟨.s16Be, 1, 8000⟩ count [] [7, 9])) ∧
      (playbackGo twoFrames oneByOne count [] [7, 9]).TakesFrames twoFrames 2 [7, 9] ∧
      (twoFrames.chunkBytes < 2 ^ 28 → Patient oneByOne (2 / 2 + 2) →
        (playbackGo twoFrames oneByOne count [] [7, 9]).stop = .done) :=
  recorded_au_plays (Option.some_get (x := beginAu ⟨.s16Be, 1, 8000⟩ 0) (by decide)).symm
    ⟨by decide, by decide⟩ [7, 9] rfl rfl true ⟨.u8, 1, 8000⟩ twoFrames oneByOne

end Carroll
