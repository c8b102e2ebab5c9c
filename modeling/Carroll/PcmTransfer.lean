import Mathlib.Tactic

/-! # Playing samples on a device that answers as it likes

`pcm_write` of `libap.c` hands a chunk to the device and goes on while the device takes less than
the rest of it, is not ready or has to be woken up.  `playback_go` reads the file a chunk at a time,
starting with what is already in `audiobuf`.  What the device answers to the calls is a list of
`PcmAnswer`; in it stands also where a signal sets `in_aborting`.  No channel map has been set:
`hw_map` is `NULL`, and `remap_data` gives the frames back as they are.

`set_params` has cut `audiobuf` to one chunk before the first frame is played, and the bytes of a
chunk are counted in an `int`: with more than a chunk loaded, or a chunk of `2 ^ 28` bytes, the
function does what the language leaves open.

`takesFrames_playbackGo` is about all answers: what the device has taken is always the beginning of
the whole frames of the file and of the silence that fills the last chunk, and all of it when the
function comes to its end.  `playbackGo_done` says when it does. -/

namespace Carroll

/-- What `writei_func` returns: a number of frames, at most as many as are left, or an error.
`signal` is no answer: here `in_aborting` is set. -/
inductive PcmAnswer
  | frames (r : ℕ)
  /-- `-EAGAIN` -/
  | again
  /-- `-EPIPE`, after which `xrun` starts the device again. -/
  | xrun
  /-- `-ESTRPIPE`, after which `suspend` does. -/
  | suspended
  /-- Another error, or a device that cannot be started again: `prg_exit`. -/
  | fails
  | signal
deriving DecidableEq

/-- Why a function that plays has come to its end; `waiting` is no end, but for want of answers. -/
inductive PcmStop
  | done | aborted | failed | waiting
  /-- It reads behind `audiobuf`, or an `int` overflows. -/
  | undefined
deriving DecidableEq

/-- What the device has taken, and the answers that are left. -/
structure PcmRun where
  taken : List UInt8
  stop : PcmStop
  answers : List PcmAnswer

/-- A run after the device has taken `data`. -/
def PcmRun.after (data : List UInt8) (r : PcmRun) : PcmRun := { r with taken := data ++ r.taken }

@[simp] theorem PcmRun.after_taken (data : List UInt8) (r : PcmRun) :
    (r.after data).taken = data ++ r.taken := rfl

/-- The size of a chunk in frames, the bytes of a frame and a frame of silence. -/
structure PcmParams where
  chunkSize : ℕ
  frame : ℕ
  silent : List UInt8
  chunk_pos : 0 < chunkSize
  frame_pos : 0 < frame
  length_silent : silent.length = frame

namespace PcmParams

/-- `chunk_bytes`. -/
def chunkBytes (p : PcmParams) : ℕ := p.chunkSize * p.frame

theorem chunkBytes_pos (p : PcmParams) : 0 < p.chunkBytes := Nat.mul_pos p.chunk_pos p.frame_pos

/-- `snd_pcm_format_set_silence` for `n` frames. -/
def silence (p : PcmParams) (n : ℕ) : List UInt8 := (List.replicate n p.silent).flatten

@[simp] theorem length_silence (p : PcmParams) (n : ℕ) : (p.silence n).length = n * p.frame := by
  simp [silence, p.length_silent]

end PcmParams

/-! ### One chunk -/

/-- The loop of `pcm_write`. -/
def pcmWriteLoop (frame : ℕ) : List PcmAnswer → List UInt8 → PcmRun
  | [], data => ⟨[], if data = [] then .done else .waiting, []⟩
  | a :: answers, data =>
      if data = [] then ⟨[], .done, a :: answers⟩
      else
        match a with
        | .frames r =>
            (pcmWriteLoop frame answers (data.drop (r * frame))).after (data.take (r * frame))
        | .again => pcmWriteLoop frame answers data
        | .xrun => pcmWriteLoop frame answers data
        | .suspended => pcmWriteLoop frame answers data
        | .fails => ⟨[], .failed, answers⟩
        | .signal => ⟨[], .aborted, a :: answers⟩

/-- What `pcm_write(data, count)` gives to the device: less than a chunk is filled up. -/
def pcmBlock (p : PcmParams) (data : List UInt8) (count : ℕ) : List UInt8 :=
  data.take (count * p.frame) ++ p.silence (p.chunkSize - count)

/-- `pcm_write(data, count)`, without a channel map. -/
def pcmWrite (p : PcmParams) (answers : List PcmAnswer) (data : List UInt8) (count : ℕ) : PcmRun :=
  pcmWriteLoop p.frame answers (pcmBlock p data count)

/-- `r` is a run that plays `data`: at every moment the device has taken the first bytes of it, and
all of it when the run is done. -/
def PcmRun.Plays (r : PcmRun) (data : List UInt8) : Prop :=
  r.taken <+: data ∧ (r.stop = .done → r.taken = data)

theorem PcmRun.Plays.after {r : PcmRun} {data : List UInt8} (h : r.Plays data)
    (front : List UInt8) : (r.after front).Plays (front ++ data) :=
  ⟨(List.prefix_append_right_inj front).mpr h.1, fun hdone => by
    rw [after_taken, h.2 hdone]⟩

/-- A run that has not come to its end plays also what would have come behind. -/
theorem PcmRun.Plays.append {r : PcmRun} {data : List UInt8} (h : r.Plays data)
    (hstop : r.stop ≠ .done) (rest : List UInt8) : r.Plays (data ++ rest) :=
  ⟨h.1.trans (List.prefix_append data rest), fun hdone => absurd hdone hstop⟩

theorem PcmRun.plays_nil (answers : List PcmAnswer) : PcmRun.Plays ⟨[], .done, answers⟩ [] :=
  ⟨List.prefix_rfl, fun _ => rfl⟩

/-- A run that ends before anything is taken. -/
theorem PcmRun.plays_of_stop {stop : PcmStop} (hstop : stop ≠ .done) (answers : List PcmAnswer)
    (data : List UInt8) : PcmRun.Plays ⟨[], stop, answers⟩ data :=
  ⟨List.nil_prefix, fun hdone => absurd hdone hstop⟩

theorem pcmWriteLoop_nil (frame : ℕ) (answers : List PcmAnswer) :
    pcmWriteLoop frame answers [] = ⟨[], .done, answers⟩ := by
  cases answers with
  | nil => rfl
  | cons a answers => cases a <;> rfl

theorem plays_pcmWriteLoop (frame : ℕ) (answers : List PcmAnswer) (data : List UInt8) :
    (pcmWriteLoop frame answers data).Plays data := by
  induction answers generalizing data with
  | nil =>
      by_cases h : data = []
      · rw [h, pcmWriteLoop_nil]
        exact PcmRun.plays_nil _
      · rw [pcmWriteLoop, if_neg h]
        exact PcmRun.plays_of_stop (by decide) _ _
  | cons a answers ih =>
      by_cases h : data = []
      · rw [h, pcmWriteLoop_nil]
        exact PcmRun.plays_nil _
      cases a with
      | frames r =>
          have := (ih (data.drop (r * frame))).after (data.take (r * frame))
          rw [List.take_append_drop] at this
          simpa only [pcmWriteLoop, if_neg h] using this
      | again => simpa only [pcmWriteLoop, if_neg h] using ih data
      | xrun => simpa only [pcmWriteLoop, if_neg h] using ih data
      | suspended => simpa only [pcmWriteLoop, if_neg h] using ih data
      | fails =>
          simp only [pcmWriteLoop, if_neg h]
          exact PcmRun.plays_of_stop (by decide) _ _
      | signal =>
          simp only [pcmWriteLoop, if_neg h]
          exact PcmRun.plays_of_stop (by decide) _ _

theorem plays_pcmWrite (p : PcmParams) (answers : List PcmAnswer) (data : List UInt8) (count : ℕ) :
    (pcmWrite p answers data count).Plays (pcmBlock p data count) := plays_pcmWriteLoop _ _ _

variable {p : PcmParams} {data : List UInt8} {count : ℕ}

theorem length_pcmBlock (h : count * p.frame ≤ data.length) :
    (pcmBlock p data count).length = max count p.chunkSize * p.frame := by
  rw [pcmBlock, List.length_append, PcmParams.length_silence, List.length_take, min_eq_left h,
    ← Nat.add_mul]
  congr 1
  omega

/-- The frames of a chunk are all that is asked for exactly if it was a whole one. -/
theorem pcmWrite_result {answers : List PcmAnswer} (h : count * p.frame ≤ data.length)
    (hdone : (pcmWrite p answers data count).stop = .done) :
    (pcmWrite p answers data count).taken.length / p.frame = max count p.chunkSize := by
  rw [(plays_pcmWrite p answers data count).2 hdone, length_pcmBlock h]
  exact Nat.mul_div_cancel _ p.frame_pos

/-! ### A file -/

/-- The inner loop of `playback_go`: what is in `audiobuf` and what is left of the file, after the
call of `safe_read` for each round. -/
def fillChunk (chunkBytes left : ℕ) (l file : List UInt8) : List UInt8 × List UInt8 :=
  let c := min left chunkBytes
  let l := l.take c
  if c - l.length = 0 ∨ file = [] then (l, file)
  else
    let r := c - l.length
    if l.length + r < chunkBytes then fillChunk chunkBytes left (l ++ file.take r) (file.drop r)
    else (l ++ file.take r, file.drop r)
termination_by file.length
decreasing_by
  obtain ⟨hr, hnil⟩ := not_or.mp ‹¬ (c - l.length = 0 ∨ file = [])›
  have hfile : 0 < file.length := List.length_pos_iff.mpr hnil
  rw [List.length_drop]
  exact Nat.sub_lt hfile (Nat.pos_of_ne_zero hr)

/-- Whatever had been loaded, a round has the next bytes of the file. -/
theorem fillChunk_eq (chunkBytes left : ℕ) (l file : List UInt8) :
    (fillChunk chunkBytes left l file).1 = (l ++ file).take (min left chunkBytes) ∧
      (l.length ≤ min left chunkBytes →
        (fillChunk chunkBytes left l file).2 = (l ++ file).drop (min left chunkBytes)) := by
  have htake {l : List UInt8} {c : ℕ} (hc : c - (l.take c).length ≠ 0) : l.take c = l := by
    rw [List.length_take] at hc
    exact List.take_of_length_le (by omega)
  fun_induction fillChunk chunkBytes left l file with
  | case1 l file c l' h =>
      rcases h with hc | rfl
      · have hlen : c ≤ l.length := by
          simp only [l', List.length_take] at hc
          omega
        exact ⟨(List.take_append_of_le_length hlen).symm, fun hle =>
          (List.drop_left' (le_antisymm hle hlen)).symm⟩
      · rw [List.append_nil]
        exact ⟨rfl, fun hle => (List.drop_eq_nil_of_le hle).symm⟩
  | case2 l file c l' h r hlt ih =>
      have hl : l' = l := htake fun hc => h (.inl hc)
      have happend : l' ++ file = l ++ file := by rw [hl]
      rw [List.append_assoc, List.take_append_drop, happend] at ih
      refine ⟨ih.1, fun _ => ih.2 ?_⟩
      have hr : r ≠ 0 := fun hc => h (.inl hc)
      calc (l' ++ file.take r).length ≤ l'.length + r := by simp
        _ = c := Nat.add_sub_cancel' (Nat.le_of_lt (Nat.lt_of_sub_ne_zero hr))
  | case3 l file c l' h r hlt =>
      have hl : l' = l := htake fun hc => h (.inl hc)
      have hlen : r = c - l.length := by rw [← hl]
      exact ⟨by rw [List.take_append, hlen], fun hle => by
        rw [List.drop_append, List.drop_eq_nil_of_le hle, List.nil_append, hlen]⟩

/-- `l = loaded` does not fit an `int`, or `l * 8` does not when the chunk is filled. -/
def IntOverflow (l chunk : List UInt8) : Prop := 2 ^ 31 ≤ l.length ∨ 2 ^ 31 ≤ chunk.length * 8

instance (l chunk : List UInt8) : Decidable (IntOverflow l chunk) :=
  inferInstanceAs (Decidable (_ ∨ _))

/-- `playback_go`, the second loop, with `left` for `count - written`.  A `pcm_write` that does not
come to its end has met `in_aborting` or ends the program. -/
def playLoop (p : PcmParams) (answers : List PcmAnswer) (left : ℕ) (l file : List UInt8) : PcmRun :=
  if left = 0 then ⟨[], .done, answers⟩
  else if answers.head? = some .signal then ⟨[], .aborted, answers⟩
  else
    let f := fillChunk p.chunkBytes left l file
    if IntOverflow l f.1 then ⟨[], .undefined, answers⟩
    else
      let count := f.1.length / p.frame
      let w := pcmWrite p answers f.1 count
      if w.stop = .done ∧ w.taken.length / p.frame = count then
        (playLoop p w.answers (left - count * p.frame) [] f.2).after w.taken
      else w
termination_by left
decreasing_by
  have hw : w.stop = .done ∧ w.taken.length / p.frame = count := ‹_›
  have hcount : max count p.chunkSize = count :=
    (pcmWrite_result (Nat.div_mul_le_self _ _) hw.1).symm.trans hw.2
  have hpos : 0 < count * p.frame :=
    Nat.mul_pos (lt_of_lt_of_le p.chunk_pos (max_eq_left_iff.mp hcount)) p.frame_pos
  exact Nat.sub_lt (Nat.pos_of_ne_zero ‹_›) hpos

/-- `playback_go(fd, loaded, count)` behind `set_params`, whose `realloc` has left one chunk of
`audiobuf`: the first loop comes no further than that chunk, and what is loaded behind it is gone. -/
def playbackGo (p : PcmParams) (answers : List PcmAnswer) (count : ℕ) (loaded file : List UInt8) :
    PcmRun :=
  if p.chunkBytes < loaded.length ∧ 0 < count ∧ answers.head? ≠ some .signal then
    let w := pcmWrite p answers (loaded.take p.chunkBytes) p.chunkSize
    -- frames have been taken: the next round, or `memmove`, reads from `audiobuf + written`
    if 0 < w.taken.length / p.frame ∧ (w.stop = .done ∨ w.stop = .aborted) then
      { w with stop := .undefined }
    else w
  else playLoop p answers count loaded file

/-! ### What is played -/

/-- The frames of silence behind the last bytes: none if the last chunk was whole and no more was
asked for. -/
def padding (p : PcmParams) (count len : ℕ) : ℕ :=
  if p.chunkBytes ∣ count ∧ count ≤ len then 0
  else p.chunkSize - min count len / p.frame % p.chunkSize

/-- What `playback_go` has to play of the bytes `s`: the whole frames among the first `count` of
them, and silence. -/
def played (p : PcmParams) (count : ℕ) (s : List UInt8) : List UInt8 :=
  s.take (min count s.length / p.frame * p.frame) ++ p.silence (padding p count s.length)

theorem played_zero (p : PcmParams) (s : List UInt8) : played p 0 s = [] := by
  simp [played, padding, PcmParams.silence]

/-- A whole chunk first. -/
theorem played_chunk {s : List UInt8} (hcount : p.chunkBytes ≤ count)
    (hlen : p.chunkBytes ≤ s.length) :
    played p count s =
      s.take p.chunkBytes ++ played p (count - p.chunkBytes) (s.drop p.chunkBytes) := by
  obtain ⟨c, rfl⟩ := Nat.exists_eq_add_of_le hcount
  obtain ⟨n, hn⟩ := Nat.exists_eq_add_of_le hlen
  have hmin : min (p.chunkBytes + c) s.length = min c n + p.frame * p.chunkSize := by
    rw [hn, Nat.add_min_add_left, PcmParams.chunkBytes, Nat.mul_comm, Nat.add_comm]
  have hdiv : min (p.chunkBytes + c) s.length / p.frame = min c n / p.frame + p.chunkSize := by
    rw [hmin, Nat.add_mul_div_left _ _ p.frame_pos]
  have hwhole : (p.chunkBytes ∣ p.chunkBytes + c ∧ p.chunkBytes + c ≤ s.length) ↔
      (p.chunkBytes ∣ c ∧ c ≤ n) := by
    rw [Nat.dvd_add_right (dvd_refl _), hn, Nat.add_le_add_iff_left]
  have hpad : padding p (p.chunkBytes + c) s.length = padding p c n := by
    simp only [padding, hdiv, Nat.add_mod_right, hwhole]
  have hframes : (min c n / p.frame + p.chunkSize) * p.frame =
      p.chunkBytes + min c n / p.frame * p.frame := by
    rw [Nat.add_mul, PcmParams.chunkBytes, Nat.add_comm]
  rw [played, played, hpad, hdiv, hframes, List.take_add, List.length_drop, hn,
    Nat.add_sub_cancel_left, Nat.add_sub_cancel_left, List.append_assoc]

theorem frames_lt_chunkSize {n : ℕ} (h : n < p.chunkBytes) : n / p.frame < p.chunkSize :=
  Nat.div_lt_of_lt_mul (by rwa [Nat.mul_comm])

/-- The whole frames of a part that is not a chunk lie in what is read of it. -/
theorem frames_le_take {s : List UInt8} (hlt : min count s.length < p.chunkBytes) :
    min count s.length / p.frame * p.frame ≤ (s.take (min count p.chunkBytes)).length := by
  have := Nat.div_mul_le_self (min count s.length) p.frame
  rw [List.length_take]
  omega

theorem chunk_le_take {s : List UInt8} (hlen : p.chunkBytes ≤ s.length) :
    p.chunkSize * p.frame ≤ (s.take p.chunkBytes).length := by
  rw [List.length_take, min_eq_left hlen, PcmParams.chunkBytes]

/-- Less than a chunk is the end. -/
theorem played_last {s : List UInt8} (hcount : count ≠ 0)
    (hlt : min count s.length < p.chunkBytes) :
    played p count s =
      pcmBlock p (s.take (min count p.chunkBytes)) (min count s.length / p.frame) := by
  have hnot : ¬ (p.chunkBytes ∣ count ∧ count ≤ s.length) := fun ⟨hdvd, hle⟩ => by
    have := Nat.le_of_dvd (Nat.pos_of_ne_zero hcount) hdvd
    omega
  have hframes := frames_lt_chunkSize hlt
  have hle : min count s.length / p.frame * p.frame ≤ min count p.chunkBytes := by
    have := Nat.div_mul_le_self (min count s.length) p.frame
    omega
  rw [played, pcmBlock, padding, if_neg hnot, Nat.mod_eq_of_lt hframes, List.take_take,
    min_eq_left hle]

theorem pcmBlock_chunk {s : List UInt8} (hlen : p.chunkBytes ≤ s.length) :
    pcmBlock p (s.take p.chunkBytes) p.chunkSize = s.take p.chunkBytes ∧
      (s.take p.chunkBytes).length / p.frame = p.chunkSize := by
  constructor
  · rw [pcmBlock, Nat.sub_self, ← PcmParams.chunkBytes, List.take_take, min_self]
    simp [PcmParams.silence]
  · rw [List.length_take, min_eq_left hlen, PcmParams.chunkBytes]
    exact Nat.mul_div_cancel _ p.frame_pos

/-- A round with a whole chunk. -/
theorem playLoop_chunk {answers : List PcmAnswer} {left : ℕ} {l file : List UInt8}
    (hl : l.length ≤ p.chunkBytes) (hleft : p.chunkBytes ≤ left)
    (hlen : p.chunkBytes ≤ (l ++ file).length) (hsignal : answers.head? ≠ some .signal)
    (hint : ¬ IntOverflow l (fillChunk p.chunkBytes left l file).1) :
    playLoop p answers left l file =
      if (pcmWrite p answers ((l ++ file).take p.chunkBytes) p.chunkSize).stop = .done then
        (playLoop p (pcmWrite p answers ((l ++ file).take p.chunkBytes) p.chunkSize).answers
          (left - p.chunkBytes) [] ((l ++ file).drop p.chunkBytes)).after
            ((l ++ file).take p.chunkBytes)
      else pcmWrite p answers ((l ++ file).take p.chunkBytes) p.chunkSize := by
  obtain ⟨hpiece, hrest⟩ := fillChunk_eq p.chunkBytes left l file
  obtain ⟨hblock, hframes⟩ := pcmBlock_chunk hlen
  have hw := plays_pcmWrite p answers ((l ++ file).take p.chunkBytes) p.chunkSize
  have hpos := p.chunkBytes_pos
  rw [hblock] at hw
  rw [min_eq_right hleft] at hpiece hrest
  rw [playLoop, if_neg (by omega), if_neg hsignal]
  simp only [if_neg hint]
  simp only [hpiece, hrest hl, hframes]
  by_cases hdone : (pcmWrite p answers ((l ++ file).take p.chunkBytes) p.chunkSize).stop = .done
  · have hresult : (pcmWrite p answers ((l ++ file).take p.chunkBytes) p.chunkSize).taken.length /
        p.frame = p.chunkSize := by rw [hw.2 hdone, hframes]
    rw [if_pos ⟨hdone, hresult⟩, if_pos hdone, hw.2 hdone, PcmParams.chunkBytes]
  · rw [if_neg fun h => hdone h.1, if_neg hdone]

/-- The last round, whose `pcm_write` returns more frames than it was given. -/
theorem playLoop_last {answers : List PcmAnswer} {left : ℕ} {l file : List UInt8} (hleft : left ≠ 0)
    (hshort : min left (l ++ file).length < p.chunkBytes) (hsignal : answers.head? ≠ some .signal)
    (hint : ¬ IntOverflow l (fillChunk p.chunkBytes left l file).1) :
    playLoop p answers left l file =
      pcmWrite p answers ((l ++ file).take (min left p.chunkBytes))
        (min left (l ++ file).length / p.frame) := by
  obtain ⟨hpiece, -⟩ := fillChunk_eq p.chunkBytes left l file
  have hlen : ((l ++ file).take (min left p.chunkBytes)).length = min left (l ++ file).length := by
    rw [List.length_take]
    omega
  have hcount := frames_lt_chunkSize hshort
  rw [playLoop, if_neg hleft, if_neg hsignal]
  simp only [if_neg hint]
  simp only [hpiece, hlen]
  rw [if_neg]
  rintro ⟨hdone, hresult⟩
  have hmax := pcmWrite_result (by rw [hlen]; exact Nat.div_mul_le_self _ _) hdone
  omega

theorem plays_playLoop (p : PcmParams) (answers : List PcmAnswer) (left : ℕ) {l : List UInt8}
    (hl : l.length ≤ p.chunkBytes) (file : List UInt8) :
    (playLoop p answers left l file).Plays (played p left (l ++ file)) := by
  induction left using Nat.strong_induction_on generalizing answers l file with
  | _ left ih =>
      by_cases hleft : left = 0
      · rw [playLoop, if_pos hleft, hleft, played_zero]
        exact PcmRun.plays_nil _
      by_cases hsignal : answers.head? = some .signal
      · rw [playLoop, if_neg hleft, if_pos hsignal]
        exact PcmRun.plays_of_stop (by decide) _ _
      by_cases hint : IntOverflow l (fillChunk p.chunkBytes left l file).1
      · rw [playLoop, if_neg hleft, if_neg hsignal]
        simp only [if_pos hint]
        exact PcmRun.plays_of_stop (by decide) _ _
      by_cases hfull : p.chunkBytes ≤ min left (l ++ file).length
      · obtain ⟨hcount, hlen⟩ := le_min_iff.mp hfull
        rw [playLoop_chunk hl hcount hlen hsignal hint, played_chunk hcount hlen]
        by_cases hdone :
            (pcmWrite p answers ((l ++ file).take p.chunkBytes) p.chunkSize).stop = .done
        · have hlt : left - p.chunkBytes < left := Nat.sub_lt (by omega) p.chunkBytes_pos
          rw [if_pos hdone]
          exact (ih _ hlt _ (Nat.zero_le _) _).after _
        · have hw := plays_pcmWrite p answers ((l ++ file).take p.chunkBytes) p.chunkSize
          rw [(pcmBlock_chunk hlen).1] at hw
          rw [if_neg hdone]
          exact hw.append hdone _
      · rw [playLoop_last hleft (not_le.mp hfull) hsignal hint, played_last hleft (not_le.mp hfull)]
        exact plays_pcmWrite _ _ _ _

/-- The loaded bytes go first; they may be more than a chunk, if no fewer are to be played. -/
theorem plays_playbackGo (p : PcmParams) (answers : List PcmAnswer) (count : ℕ)
    {loaded : List UInt8} (hloaded : loaded.length ≤ max count p.chunkBytes) (file : List UInt8) :
    (playbackGo p answers count loaded file).Plays (played p count (loaded ++ file)) := by
  by_cases hl : loaded.length ≤ p.chunkBytes
  · rw [playbackGo, if_neg fun h => hl.not_gt h.1]
    exact plays_playLoop p answers count hl file
  have hlen : p.chunkBytes ≤ loaded.length := (not_le.mp hl).le
  have hcount : p.chunkBytes ≤ count := by omega
  by_cases hsignal : answers.head? = some .signal
  · have hpos := p.chunkBytes_pos
    rw [playbackGo, if_neg fun h => h.2.2 hsignal, playLoop, if_neg (by omega), if_pos hsignal]
    exact PcmRun.plays_of_stop (by decide) _ _
  have hw := plays_pcmWrite p answers (loaded.take p.chunkBytes) p.chunkSize
  rw [(pcmBlock_chunk hlen).1] at hw
  have hpos := p.chunkBytes_pos
  have hchunk : p.chunkBytes < loaded.length ∧ 0 < count ∧ answers.head? ≠ some .signal :=
    ⟨not_le.mp hl, by omega, hsignal⟩
  rw [played_chunk hcount (by rw [List.length_append]; omega),
    List.take_append_of_le_length hlen]
  rw [playbackGo, if_pos hchunk]
  simp only
  split
  · exact ⟨hw.1.trans (List.prefix_append _ _), fun hdone => by cases hdone⟩
  · rename_i hgoes
    refine hw.append (fun hdone => hgoes ⟨?_, .inl hdone⟩) _
    rw [pcmWrite_result (chunk_le_take hlen) hdone, max_self]
    exact p.chunk_pos

/-- The bytes of `s` that belong to whole frames among its first `count`. -/
def wholeFrames (p : PcmParams) (count : ℕ) (s : List UInt8) : List UInt8 :=
  s.take (min count s.length / p.frame * p.frame)

theorem padding_le (p : PcmParams) (count len : ℕ) : padding p count len ≤ p.chunkSize := by
  unfold padding
  split <;> omega

theorem length_played (p : PcmParams) (count : ℕ) (s : List UInt8) :
    (played p count s).length =
      (min count s.length / p.frame + padding p count s.length) * p.frame := by
  have hle := Nat.div_mul_le_self (min count s.length) p.frame
  rw [played, List.length_append, List.length_take, min_eq_left (hle.trans (min_le_right _ _)),
    PcmParams.length_silence, Nat.add_mul]

/-- With the silence the frames fill their chunks. -/
theorem chunkBytes_dvd_played (p : PcmParams) (count : ℕ) (s : List UInt8) :
    p.chunkBytes ∣ (played p count s).length := by
  rw [length_played]
  apply Nat.mul_dvd_mul_right
  unfold padding
  split
  · rename_i hwhole
    obtain ⟨k, hk⟩ := hwhole.1
    rw [min_eq_left hwhole.2, hk, PcmParams.chunkBytes, Nat.mul_right_comm,
      Nat.mul_div_cancel _ p.frame_pos, add_zero]
    exact dvd_mul_right _ _
  · have hdiv := Nat.div_add_mod (min count s.length / p.frame) p.chunkSize
    have hmod := Nat.mod_lt (min count s.length / p.frame) p.chunk_pos
    have hsum : min count s.length / p.frame +
        (p.chunkSize - min count s.length / p.frame % p.chunkSize) =
        p.chunkSize * (min count s.length / p.frame / p.chunkSize) + p.chunkSize := by omega
    rw [hsum]
    exact Nat.dvd_add (dvd_mul_right _ _) (dvd_refl _)

theorem silence_mono (p : PcmParams) {m n : ℕ} (h : m ≤ n) : p.silence m <+: p.silence n := by
  obtain ⟨k, rfl⟩ := Nat.exists_eq_add_of_le h
  rw [PcmParams.silence, PcmParams.silence, List.replicate_add, List.flatten_append]
  exact List.prefix_append _ _

/-- A run that plays the first `count` bytes of `s`: what the device has taken are the first whole
frames, each once and in order, and then silence; at the end it has all of them, and no more silence
than fills the last chunk. -/
def PcmRun.TakesFrames (r : PcmRun) (p : PcmParams) (count : ℕ) (s : List UInt8) : Prop :=
  r.taken <+: wholeFrames p count s ++ p.silence p.chunkSize ∧
    (r.stop = .done → ∃ n ≤ p.chunkSize,
      r.taken = wholeFrames p count s ++ p.silence n ∧ p.chunkBytes ∣ r.taken.length)

theorem takesFrames_playbackGo (p : PcmParams) (answers : List PcmAnswer) {count : ℕ}
    {loaded : List UInt8} (hloaded : loaded.length ≤ max count p.chunkBytes) (file : List UInt8) :
    (playbackGo p answers count loaded file).TakesFrames p count (loaded ++ file) := by
  have hplays := plays_playbackGo p answers count hloaded file
  have hpad := padding_le p count (loaded ++ file).length
  refine ⟨hplays.1.trans ?_, fun hdone => ⟨_, hpad, hplays.2 hdone, ?_⟩⟩
  · exact (List.prefix_append_right_inj _).mpr (silence_mono p hpad)
  · rw [hplays.2 hdone]
    exact chunkBytes_dvd_played p count _

/-! ### A device that keeps playing -/

/-- An answer with which frames have been taken. -/
def PcmAnswer.takes : PcmAnswer → Bool
  | .frames r => decide (0 < r)
  | _ => false

/-- No error, no signal, and frames are taken at least `k` times, however few. -/
structure Patient (answers : List PcmAnswer) (k : ℕ) : Prop where
  goesOn : .fails ∉ answers ∧ .signal ∉ answers
  takes : k ≤ answers.countP PcmAnswer.takes

theorem Patient.mono {answers : List PcmAnswer} {j k : ℕ} (h : Patient answers k) (hjk : j ≤ k) :
    Patient answers j := ⟨h.goesOn, hjk.trans h.takes⟩

theorem Patient.tail {a : PcmAnswer} {answers : List PcmAnswer} {k : ℕ}
    (h : Patient (a :: answers) k) :
    Patient answers (if a.takes then k - 1 else k) := by
  obtain ⟨⟨hfails, hsignal⟩, htakes⟩ := h
  rw [List.countP_cons] at htakes
  refine ⟨⟨fun hmem => hfails (List.mem_cons_of_mem _ hmem),
    fun hmem => hsignal (List.mem_cons_of_mem _ hmem)⟩, ?_⟩
  split at htakes <;> simp_all

/-- Every frame costs at most one of the answers that take. -/
theorem pcmWriteLoop_done {frame : ℕ} {answers : List PcmAnswer}
    {data : List UInt8} {k m : ℕ} (hlen : data.length = k * frame) (h : Patient answers (k + m)) :
    (pcmWriteLoop frame answers data).stop = .done ∧
      Patient (pcmWriteLoop frame answers data).answers m := by
  induction answers generalizing data k with
  | nil =>
      have hk : k = 0 := by
        have := h.takes
        simp at this
        omega
      rw [hk, Nat.zero_mul, List.length_eq_zero_iff] at hlen
      rw [hlen, pcmWriteLoop_nil]
      exact ⟨rfl, h.mono (by omega)⟩
  | cons a answers ih =>
      by_cases hdata : data = []
      · rw [hdata, pcmWriteLoop_nil]
        exact ⟨rfl, h.mono (by omega)⟩
      have hk : 0 < k := by
        have hpos := List.length_pos_iff.mpr hdata
        rw [hlen] at hpos
        exact Nat.pos_of_mul_pos_right hpos
      have htail := h.tail
      cases a with
      | frames r =>
          have hrest : (data.drop (r * frame)).length = (k - r) * frame := by
            rw [List.length_drop, hlen, Nat.sub_mul]
          simp only [pcmWriteLoop, if_neg hdata]
          refine ih hrest (htail.mono ?_)
          simp only [PcmAnswer.takes, decide_eq_true_eq]
          split <;> omega
      | again => simpa only [pcmWriteLoop, if_neg hdata] using ih hlen htail
      | xrun => simpa only [pcmWriteLoop, if_neg hdata] using ih hlen htail
      | suspended => simpa only [pcmWriteLoop, if_neg hdata] using ih hlen htail
      | fails => exact absurd List.mem_cons_self h.goesOn.1
      | signal => exact absurd List.mem_cons_self h.goesOn.2

theorem pcmWrite_done {answers : List PcmAnswer} {data : List UInt8} {count m : ℕ}
    (hcount : count * p.frame ≤ data.length) (h : Patient answers (max count p.chunkSize + m)) :
    (pcmWrite p answers data count).stop = .done ∧
      Patient (pcmWrite p answers data count).answers m :=
  pcmWriteLoop_done (length_pcmBlock hcount) h

/-- The frames that `playback_go` has to play, with the silence. -/
def playedFrames (p : PcmParams) (count : ℕ) (s : List UInt8) : ℕ :=
  (played p count s).length / p.frame

theorem playedFrames_chunk {s : List UInt8} (hcount : p.chunkBytes ≤ count)
    (hlen : p.chunkBytes ≤ s.length) :
    playedFrames p count s =
      p.chunkSize + playedFrames p (count - p.chunkBytes) (s.drop p.chunkBytes) := by
  rw [playedFrames, played_chunk hcount hlen, List.length_append, List.length_take,
    min_eq_left hlen, PcmParams.chunkBytes, Nat.mul_comm, Nat.mul_add_div p.frame_pos, playedFrames,
    Nat.mul_comm]

theorem playedFrames_le (p : PcmParams) (count : ℕ) (s : List UInt8) :
    playedFrames p count s ≤ s.length / p.frame + p.chunkSize := by
  have hpad := padding_le p count s.length
  have hdiv : min count s.length / p.frame ≤ s.length / p.frame :=
    Nat.div_le_div_right (min_le_right _ _)
  rw [playedFrames, length_played, Nat.mul_div_cancel _ p.frame_pos]
  exact Nat.add_le_add hdiv hpad

theorem playedFrames_last {s : List UInt8} (hcount : count ≠ 0)
    (hlt : min count s.length < p.chunkBytes) : playedFrames p count s = p.chunkSize := by
  rw [playedFrames, played_last hcount hlt, length_pcmBlock (frames_le_take hlt),
    max_eq_right (frames_lt_chunkSize hlt).le,
    Nat.mul_div_cancel _ p.frame_pos]

theorem Patient.head_ne {answers : List PcmAnswer} {k : ℕ} (h : Patient answers k) :
    answers.head? ≠ some .signal := fun hhead => h.goesOn.2 (List.mem_of_mem_head? hhead)

/-- A chunk of less than `2 ^ 28` bytes can be counted. -/
theorem not_intOverflow {l : List UInt8} (hl : l.length ≤ p.chunkBytes)
    (hint : p.chunkBytes < 2 ^ 28) (left : ℕ) (file : List UInt8) :
    ¬ IntOverflow l (fillChunk p.chunkBytes left l file).1 := by
  have hfill : (fillChunk p.chunkBytes left l file).1.length ≤ p.chunkBytes := by
    rw [(fillChunk_eq p.chunkBytes left l file).1, List.length_take]
    omega
  rintro (hlong | hlong) <;> omega

theorem playLoop_done {answers : List PcmAnswer} {left : ℕ} {l : List UInt8}
    (hl : l.length ≤ p.chunkBytes) (hint : p.chunkBytes < 2 ^ 28) {file : List UInt8}
    (h : Patient answers (playedFrames p left (l ++ file))) :
    (playLoop p answers left l file).stop = .done := by
  induction left using Nat.strong_induction_on generalizing answers l file with
  | _ left ih =>
      by_cases hleft : left = 0
      · rw [playLoop, if_pos hleft]
      have hfits := not_intOverflow hl hint left file
      by_cases hfull : p.chunkBytes ≤ min left (l ++ file).length
      · obtain ⟨hcount, hlen⟩ := le_min_iff.mp hfull
        have hlt : left - p.chunkBytes < left := Nat.sub_lt (by omega) p.chunkBytes_pos
        rw [playedFrames_chunk hcount hlen] at h
        obtain ⟨hdone, hrest⟩ := pcmWrite_done (chunk_le_take hlen) (by rwa [max_self])
        rw [playLoop_chunk hl hcount hlen h.head_ne hfits, if_pos hdone]
        exact ih _ hlt (Nat.zero_le _) hrest
      · have hshort := not_le.mp hfull
        have hframes := frames_lt_chunkSize hshort
        rw [playedFrames_last hleft hshort] at h
        rw [playLoop_last hleft hshort h.head_ne hfits]
        exact (pcmWrite_done (frames_le_take hshort) (m := 0)
          (by rwa [max_eq_right hframes.le])).1

theorem playbackGo_stop {answers : List PcmAnswer} {count : ℕ} {loaded file : List UInt8}
    (hloaded : loaded.length ≤ p.chunkBytes) (hint : p.chunkBytes < 2 ^ 28)
    (h : Patient answers (playedFrames p count (loaded ++ file))) :
    (playbackGo p answers count loaded file).stop = .done := by
  rw [playbackGo, if_neg fun hlarge => hloaded.not_gt hlarge.1]
  exact playLoop_done hloaded hint h

/-- A device that keeps taking frames, however few at a time and with whatever in between, is given
all of the file: `playback_go` comes to its end. -/
theorem playbackGo_done {answers : List PcmAnswer} {count : ℕ} {loaded file : List UInt8}
    (hloaded : loaded.length ≤ p.chunkBytes) (hint : p.chunkBytes < 2 ^ 28)
    (h : Patient answers (playedFrames p count (loaded ++ file))) :
    (playbackGo p answers count loaded file).stop = .done ∧
      ∃ n ≤ p.chunkSize, (playbackGo p answers count loaded file).taken =
        wholeFrames p count (loaded ++ file) ++ p.silence n := by
  have hdone := playbackGo_stop hloaded hint h
  obtain ⟨n, hn, htaken, -⟩ :=
    (takesFrames_playbackGo p answers (hloaded.trans (le_max_right _ _)) file).2 hdone
  exact ⟨hdone, n, hn, htaken⟩

/-- With more than a chunk loaded it does not: the same device takes one chunk, and then the
function reads behind `audiobuf`. -/
theorem playbackGo_undefined {answers : List PcmAnswer} {count : ℕ} {loaded : List UInt8}
    (hloaded : p.chunkBytes < loaded.length) (hcount : 0 < count)
    (h : Patient answers p.chunkSize) (file : List UInt8) :
    (playbackGo p answers count loaded file).stop = .undefined := by
  have hframes := chunk_le_take hloaded.le
  obtain ⟨hdone, -⟩ := pcmWrite_done hframes (m := 0) (by rwa [max_self])
  have hresult := pcmWrite_result hframes hdone
  rw [max_self] at hresult
  have hchunk : p.chunkBytes < loaded.length ∧ 0 < count ∧ answers.head? ≠ some .signal :=
    ⟨hloaded, hcount, h.head_ne⟩
  rw [playbackGo, if_pos hchunk]
  simp only [hresult, if_pos (And.intro p.chunk_pos (Or.inl hdone))]

/-- Chunks of two frames of two bytes. -/
def twoFrames : PcmParams := ⟨2, 2, [0, 0], by decide, by decide, rfl⟩

/-- A device that takes a frame at a time, with an underrun in between. -/
def oneByOne : List PcmAnswer := [.frames 1, .xrun, .frames 1, .again, .frames 1, .frames 1]

theorem playbackGo_done_oneByOne :
    (playbackGo twoFrames oneByOne 6 [1, 2] [3, 4, 5, 6, 7]).stop = .done ∧
      ∃ n ≤ 2, (playbackGo twoFrames oneByOne 6 [1, 2] [3, 4, 5, 6, 7]).taken =
        [1, 2, 3, 4, 5, 6] ++ twoFrames.silence n :=
  playbackGo_done (p := twoFrames) (by decide) (by decide) ⟨by decide, by decide⟩

end Carroll
