import Carroll.Mem
import Carroll.Playback

/-! # From the device to a file and back

`capture` of `libap.c` fills a file chunk by chunk: `pcm_read` always reads a whole chunk, of which
only what the file may still hold is saved.  A signal ends the recording between two frames, and the
file, which takes every write, is finished with what it has.

`captured_plays` closes the circle: a recording that was made from a device, however it answered, and
is played on another, however that one answers, gives the first frames of the sound again. -/

namespace Carroll

/-- The loop of `pcm_read`, that of `pcm_write` in the other direction: the frames of `sound` from
`pos` on come into `audiobuf`, a chunk of them whatever is asked for. -/
def pcmRead (p : PcmParams) (sound : Mem) (answers : List PcmAnswer) (pos : ℕ) : PcmRun :=
  pcmWriteLoop p.frame answers (sound.peek (pos * p.frame) p.chunkBytes)

/-- `save` bytes of what has been read, for `c` that are wanted: `pcm_read` returns no more frames
than it was asked for. -/
def savedBytes (p : PcmParams) (r : PcmRun) (c : ℕ) : List UInt8 :=
  r.taken.take (min (r.taken.length / p.frame) (c / p.frame) * p.frame)

/-- The loop of `capture` over one file, `rest` bytes of it: what is written behind the header. -/
def captureFile (p : PcmParams) (sound : Mem) (answers : List PcmAnswer) (pos rest : ℕ) : PcmRun :=
  if rest = 0 then ⟨[], .done, answers⟩
  else if answers.head? = some .signal then ⟨[], .aborted, answers⟩
  else
    let c := min rest p.chunkBytes
    let r := pcmRead p sound answers pos
    match r.stop with
    | .done =>
        (captureFile p sound r.answers (pos + p.chunkSize) (rest - c)).after (savedBytes p r c)
    | .aborted => { r with taken := savedBytes p r c }
    -- inside pcm_read: the program ends, or waits; nothing there is undefined
    | .failed => { r with taken := [] }
    | .waiting => { r with taken := [] }
    | .undefined => { r with taken := [] }
termination_by rest
decreasing_by
  have := p.chunkBytes_pos
  omega

theorem plays_pcmRead (p : PcmParams) (sound : Mem) (answers : List PcmAnswer) (pos : ℕ) :
    (pcmRead p sound answers pos).Plays (sound.peek (pos * p.frame) p.chunkBytes) :=
  plays_pcmWriteLoop _ _ _

variable {p : PcmParams}

/-- What is saved are whole frames, the first of those that came. -/
theorem savedBytes_take (r : PcmRun) (c : ℕ) :
    (savedBytes p r c) <+: r.taken.take (c / p.frame * p.frame) ∧
      p.frame ∣ (savedBytes p r c).length := by
  have hle : min (r.taken.length / p.frame) (c / p.frame) * p.frame ≤ r.taken.length := by
    calc min (r.taken.length / p.frame) (c / p.frame) * p.frame
        ≤ r.taken.length / p.frame * p.frame := Nat.mul_le_mul_right _ (min_le_left _ _)
      _ ≤ r.taken.length := Nat.div_mul_le_self _ _
  constructor
  · apply List.take_prefix_take_left
    exact Nat.mul_le_mul_right _ (min_le_right _ _)
  · rw [savedBytes, List.length_take, min_eq_left hle]
    exact dvd_mul_left _ _

/-- Of a whole chunk all that is wanted is saved. -/
theorem savedBytes_of_done {sound : Mem} {answers : List PcmAnswer} {pos c : ℕ}
    (hc : c ≤ p.chunkBytes) (hdone : (pcmRead p sound answers pos).stop = .done) :
    savedBytes p (pcmRead p sound answers pos) c =
      sound.peek (pos * p.frame) (c / p.frame * p.frame) := by
  have hchunk : p.chunkBytes / p.frame = p.chunkSize := Nat.mul_div_cancel _ p.frame_pos
  have hframes : c / p.frame ≤ p.chunkSize := by
    rw [← hchunk]
    exact Nat.div_le_div_right hc
  rw [savedBytes, (plays_pcmRead p sound answers pos).2 hdone, Mem.length_peek, hchunk,
    min_eq_right hframes, Mem.take_peek]
  exact Nat.mul_le_mul_right _ hframes

/-- The frames of a file are those of its first round and of the rounds behind. -/
theorem peek_round (p : PcmParams) (sound : Mem) (pos rest : ℕ) :
    sound.peek (pos * p.frame) (rest / p.frame * p.frame) =
      sound.peek (pos * p.frame) (min rest p.chunkBytes / p.frame * p.frame) ++
        sound.peek ((pos + p.chunkSize) * p.frame)
          ((rest - min rest p.chunkBytes) / p.frame * p.frame) := by
  rcases le_total p.chunkBytes rest with hle | hle
  · obtain ⟨k, rfl⟩ := Nat.exists_eq_add_of_le hle
    have hdvd : p.frame ∣ p.chunkBytes := dvd_mul_left _ _
    have hchunk : p.chunkBytes / p.frame * p.frame = p.chunkBytes := Nat.div_mul_cancel hdvd
    have hdiv : (p.chunkBytes + k) / p.frame * p.frame = p.chunkBytes + k / p.frame * p.frame := by
      rw [Nat.add_div_of_dvd_right hdvd, Nat.add_mul, hchunk]
    rw [min_eq_right hle, hchunk, hdiv, Mem.peek_add, Nat.add_sub_cancel_left, Nat.add_mul,
      PcmParams.chunkBytes]
  · rw [min_eq_left hle, Nat.sub_self, Nat.zero_div, Nat.zero_mul, Mem.peek_zero, List.append_nil]

theorem plays_captureFile (p : PcmParams) (sound : Mem) (answers : List PcmAnswer) (pos rest : ℕ) :
    (captureFile p sound answers pos rest).Plays
        (sound.peek (pos * p.frame) (rest / p.frame * p.frame)) ∧
      p.frame ∣ (captureFile p sound answers pos rest).taken.length := by
  induction rest using Nat.strong_induction_on generalizing answers pos with
  | _ rest ih =>
      by_cases hrest : rest = 0
      · rw [captureFile, if_pos hrest, hrest, Nat.zero_div, Nat.zero_mul, Mem.peek_zero]
        exact ⟨PcmRun.plays_nil _, dvd_zero _⟩
      by_cases hsignal : answers.head? = some .signal
      · rw [captureFile, if_neg hrest, if_pos hsignal]
        exact ⟨PcmRun.plays_of_stop (by decide) _ _, dvd_zero _⟩
      rw [captureFile, if_neg hrest, if_neg hsignal]
      obtain ⟨hfront, hdvd⟩ := savedBytes_take (p := p) (pcmRead p sound answers pos)
        (min rest p.chunkBytes)
      cases hstop : (pcmRead p sound answers pos).stop with
      | done =>
          have hlt : rest - min rest p.chunkBytes < rest := by
            have := p.chunkBytes_pos
            omega
          obtain ⟨hplays, hrestdvd⟩ := ih _ hlt (pcmRead p sound answers pos).answers
            (pos + p.chunkSize)
          simp only [hstop]
          rw [peek_round p sound pos rest, savedBytes_of_done (min_le_right _ _) hstop]
          refine ⟨hplays.after _, ?_⟩
          rw [PcmRun.after_taken, List.length_append, Mem.length_peek]
          exact (dvd_mul_left _ _).add hrestdvd
      | aborted =>
          simp only [hstop]
          refine ⟨⟨?_, fun hdone => by cases hdone⟩, hdvd⟩
          have hread := (plays_pcmRead p sound answers pos).1
          have hle : min rest p.chunkBytes / p.frame * p.frame ≤ p.chunkBytes :=
            (Nat.div_mul_le_self _ _).trans (min_le_right _ _)
          have htake := hread.take (min rest p.chunkBytes / p.frame * p.frame)
          rw [Mem.take_peek _ _ hle] at htake
          rw [peek_round]
          exact (hfront.trans htake).trans (List.prefix_append _ _)
      | failed =>
          simp only [hstop]
          exact ⟨PcmRun.plays_of_stop (by decide) _ _, dvd_zero _⟩
      | waiting =>
          simp only [hstop]
          exact ⟨PcmRun.plays_of_stop (by decide) _ _, dvd_zero _⟩
      | undefined =>
          simp only [hstop]
          exact ⟨PcmRun.plays_of_stop (by decide) _ _, dvd_zero _⟩

/-- From one device to another by way of a WAVE file: whatever the first answers, the file holds the
first whole frames of the sound, all that were asked for if no signal came, and whatever the second
answers, it takes the frames of the file in order, each once, and then silence. -/
theorem captured_plays {header : List UInt8} {hw : HwParams} {rest : ℕ}
    (hheader : beginWave hw rest = some header) (h : hw.Recordable) (hrest : rest ≤ 2 ^ 31)
    {o : PlayOptions} (htime : o.timelimit = 0) (hsamples : o.sampleslimit = 0) (regular : Bool)
    (hw₀ : HwParams) {p q : PcmParams} (hframe : q.frame = p.frame) (sound : Mem)
    (answers answers' : List PcmAnswer) :
    let captured := captureFile p sound answers 0 rest
    captured.taken <+: sound.peek 0 (rest / p.frame * p.frame) ∧
      (captured.stop = .done → captured.taken = sound.peek 0 (rest / p.frame * p.frame)) ∧
      ∃ count,
        playback o none
            (.start regular (endWave (header ++ captured.taken) captured.taken.length) hw₀) =
          .ok (some (.go .wave hw count [] captured.taken)) ∧
        (playbackGo q answers' count [] captured.taken).taken <+:
          captured.taken ++ q.silence q.chunkSize ∧
        ((playbackGo q answers' count [] captured.taken).stop = .done →
          ∃ n ≤ q.chunkSize,
            (playbackGo q answers' count [] captured.taken).taken =
              captured.taken ++ q.silence n) := by
  intro captured
  obtain ⟨hplays, hdvd⟩ := plays_captureFile p sound answers 0 rest
  rw [Nat.zero_mul] at hplays
  have hlen : captured.taken.length ≤ llongMax := by
    have hle := hplays.1.length_le
    rw [Mem.length_peek] at hle
    calc captured.taken.length ≤ rest / p.frame * p.frame := hle
      _ ≤ rest := Nat.div_mul_le_self _ _
      _ ≤ llongMax := hrest.trans (by norm_num [llongMax])
  have hwhole : wholeFrames q captured.taken.length captured.taken = captured.taken := by
    rw [wholeFrames, min_self, hframe, Nat.div_mul_cancel hdvd, List.take_length]
  obtain ⟨count, hplay, hframes⟩ :=
    playback_recorded hheader h hlen htime hsamples regular hw₀
  refine ⟨hplays.1, hplays.2, count, hplay, ?_⟩
  obtain ⟨⟨hfront, hdone⟩, -⟩ := hframes q answers'
  rw [hwhole] at hfront hdone
  refine ⟨hfront, fun hstop => ?_⟩
  obtain ⟨n, hn, htaken, -⟩ := hdone hstop
  exact ⟨n, hn, htaken⟩

/-- A device whose samples count up. -/
def countingSound : Mem := fun i => UInt8.ofNat i

/-- Three frames are wanted, but a signal comes after the second of the four that two chunks have. -/
theorem captured_plays_signal :
    let captured := captureFile twoFrames countingSound [.frames 2, .again, .signal] 0 6
    captured.taken <+: countingSound.peek 0 (6 / 2 * 2) ∧
      (captured.stop = .done → captured.taken = countingSound.peek 0 (6 / 2 * 2)) ∧
      ∃ count,
        playback noLimits none
            (.start true (endWave ((beginWave ⟨.s16Le, 1, 8000⟩ 6).get (by decide) ++ captured.taken)
              captured.taken.length) ⟨.u8, 1, 8000⟩) =
          .ok (some (.go .wave ⟨.s16Le, 1, 8000⟩ count [] captured.taken)) ∧
        (playbackGo twoFrames oneByOne count [] captured.taken).taken <+:
            captured.taken ++ twoFrames.silence 2 ∧
        ((playbackGo twoFrames oneByOne count [] captured.taken).stop = .done →
          ∃ n ≤ 2, (playbackGo twoFrames oneByOne count [] captured.taken).taken =
            captured.taken ++ twoFrames.silence n) :=
  captured_plays (Option.some_get (x := beginWave ⟨.s16Le, 1, 8000⟩ 6) (by decide)).symm
    ⟨by decide, by decide, by decide⟩ (by norm_num) rfl rfl true ⟨.u8, 1, 8000⟩ rfl countingSound
    [.frames 2, .again, .signal] oneByOne

end Carroll
