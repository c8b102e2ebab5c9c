import Carroll.Alloc
import Carroll.Detection

/-! # Recording over several files

`capture` of `libmic.c` writes file after file: one ends when it has reached the size limit of its
format, and also when the inner loop is left early while there is still something to record.  Its
variables `ptr` and `fvalue` are set once, before the first file.

* The `sound_struct_t` and its buffer are blocks of `Alloc.lean`, with the contents of
  `Detection.lean`; to follow a pointer that is `NULL`, or to a block that was freed, is undefined.
* `libmic_free` frees them at the end of every file.  `sound_detection` allocates them when `fvalue` is
  `SOUND_BEGIN`, which it never is again after the first chunk (`captureLives_iff`).
* What the sound device and the switches `capture_stop` and `libmic_run` give to a round of the inner
  loop comes with the round.  The callbacks are set, and `file_type` is `FORMAT_WAVE`. -/

namespace Carroll
open Alloc

namespace Rollover

/-- `struct sound_struct_t`. -/
structure Sound where
  buffer : CPtr ℕ
  length : ℕ
  block : ℕ
  check : ℕ
  flags : ℕ

/-- A block of memory. -/
inductive Block where
  | sound (c : Sound)
  | bytes (m : Mem)

/-- The blocks that are a `struct sound_struct_t`. -/
def soundKind : Kind Block Sound where
  get | .sound c => some c | _ => none
  put := .sound
  get_put _ := rfl

/-- The blocks that are a buffer. -/
def bytesKind : Kind Block Mem where
  get | .bytes m => some m | _ => none
  put := .bytes
  get_put _ := rfl

namespace Sound

/-- `ptr->buffer`. -/
def bufferField : PtrField Sound := ⟨buffer, fun q c => { c with buffer := q }, fun _ => rfl⟩

/-- A `struct sound_struct_t` as `malloc` returns it. -/
def ofWords (w : ℕ → ℕ) : Sound := ⟨.ofWord (w 0), u32 (w 1), u32 (w 2), u32 (w 3), u32 (w 4)⟩

/-- The struct and its buffer, as in `Detection.lean`. -/
def content (c : Sound) (m : Mem) : SoundStruct := ⟨m, c.length, c.block, c.check, c.flags⟩

/-- The struct with the numbers of `x`. -/
def update (c : Sound) (x : SoundStruct) : Sound := ⟨c.buffer, x.length, x.block, x.check, x.flags⟩

end Sound

/-! ### The functions of `detection.c` -/

/-- `libmic_free(ptr)`, which returns `NULL`. -/
def libmicFree (ptr : CPtr ℕ) (h : Store Block) : Option (Store Block) := do
  if ptr = .null then return h
  let h ← h.release soundKind ptr Sound.bufferField
  let h ← h.modify soundKind ptr fun _ => ⟨.null, 0, 0, 0, 0⟩
  h.free ptr

/-- `libmic_alloc()`. -/
def libmicAlloc (a : Allocator) (h : Store Block) : Option (CPtr ℕ × Store Block) := do
  let (ptr, h) := h.malloc a fun w => .sound (.ofWords w)
  if ptr = .null then return (.null, h)
  let h ← h.modify soundKind ptr fun c => { c with check := 0, block := 0, length := micSize }
  let (buffer, h) := h.malloc a fun w => .bytes fun i => UInt8.ofNat (w i)
  let h ← h.modify soundKind ptr (Sound.bufferField.set buffer)
  if buffer = .null then
    let h ← libmicFree ptr h
    return (.null, h)
  let h ← h.modify bytesKind buffer fun m i => if i < micSize then 0x4e else m i
  let h ← h.modify soundKind ptr fun c => { c with length := 0 }
  return (ptr, h)

/-- `libmic_empty(ptr)`. -/
def libmicEmpty (ptr : CPtr ℕ) (h : Store Block) : Option (Store Block) := do
  if ptr = .null then return h
  let c ← h.get soundKind ptr
  let m ← h.get bytesKind c.buffer
  let x := Carroll.libmicEmpty (c.content m)
  let h ← h.modify bytesKind c.buffer fun _ => x.buffer
  h.modify soundKind ptr (Sound.update · x)

/-- `libmic_surw(ptr, buffer, length)`, and `libmic_create` that it calls. -/
def libmicSurw (ptr : CPtr ℕ) (chunk : AudioChunk) (h : Store Block) : Option (ℕ × Store Block) := do
  if ptr = .null then return (0, h)
  let c ← h.get soundKind ptr
  if c.buffer = .null then return (0, h)
  let m ← h.get bytesKind c.buffer
  let (nstate, x) := libmicCreate chunk.1 (c.content m) chunk.2
  let h ← h.modify bytesKind c.buffer fun _ => x.buffer
  let h ← h.modify soundKind ptr (Sound.update · x)
  return (nstate, h)

/-- What `sound_detection` does to `ptr` first. -/
def currentSegment (a : Allocator) (ptr : CPtr ℕ) (flags : SoundFlag) (h : Store Block) :
    Option (CPtr ℕ × Store Block) :=
  match flags with
  | .begin => libmicAlloc a h
  | .final => (libmicEmpty ptr h).map fun h => (ptr, h)
  | .wait => some (ptr, h)

/-- `sound_detection(pstr, ctx, buf, len, f)`: the result and `*pstr`; `*f` is `SOUND_WAIT` then. -/
def soundDetection (a : Allocator) (ptr : CPtr ℕ) (chunk : AudioChunk) (flags : SoundFlag)
    (h : Store Block) : Option (Bool × CPtr ℕ × Store Block) := do
  let (ptr, h) ← currentSegment a ptr flags h
  let (state, h) ← libmicSurw ptr chunk h
  let h ← h.modify soundKind ptr fun c => { c with flags := 4 }
  let c ← h.get soundKind ptr
  return (decide (state = 2 ∧ 0 < c.block), ptr, h)

/-! ### The loops of `capture` -/

/-- `chunk_bytes`, and `max_filesize` of the format. -/
structure Setup where
  chunkBytes : ℕ
  maxFilesize : ℕ

/-- What one round of the inner loop finds: `capture_stop` at its test, whether `libmic_run()` is
positive, whether `pcm_read` gives all it was asked for, whether the chunk is voiced, what `audiobuf`
holds, and `capture_stop` at the test of the outer loop. -/
structure Round where
  stopped : Bool
  running : Bool
  read : Bool
  voiced : Bool
  audiobuf : Mem
  ended : Bool

/-- The variables that the loops count with. -/
structure Control where
  count : ℕ
  rest : ℕ
  filecount : ℕ
  finished : Bool

/-- A new file with `count` bytes to record. -/
def Control.newFile (p : Setup) (count filecount : ℕ) : Control :=
  ⟨count, min count p.maxFilesize, filecount, false⟩

/-- The round gets to `sound_detection`. -/
def Control.detects (k : Control) (r : Round) : Bool :=
  !k.finished && decide (0 < k.rest) && !r.stopped && r.running && r.read

/-- The counters after a round: the file goes on, the next one begins, or `capture` returns. -/
def Control.step (p : Setup) (k : Control) (r : Round) : Control :=
  if k.finished then k
  else if k.detects r then
    let c := min k.rest p.chunkBytes
    { k with count := k.count - c, rest := k.rest - c }
  else if 0 < k.count ∧ !r.ended then .newFile p k.count (k.filecount + 1)
  else { k with finished := true }

/-- The state of `capture`. -/
structure State where
  control : Control
  heap : Store Block
  ptr : CPtr ℕ
  fvalue : SoundFlag

/-- The start of `capture`, with `count` bytes to record. -/
def State.start (p : Setup) (count : ℕ) : State := ⟨.newFile p count 1, .empty, .null, .begin⟩

/-- The chunk of a round. -/
def Round.chunk (p : Setup) (k : Control) (r : Round) : AudioChunk :=
  (r.voiced, r.audiobuf.peek 0 (min k.rest p.chunkBytes))

/-- One round: a chunk, or the end of a file. -/
def captureStep (a : Allocator) (p : Setup) (s : State) (r : Round) : Option State := do
  if s.control.finished then return s
  if s.control.detects r then
    let (found, ptr, h) ← soundDetection a s.ptr (r.chunk p s.control) s.fvalue s.heap
    if found then
      -- the callback reads `ptr->length` bytes of `ptr->buffer`
      let c ← h.get soundKind ptr
      let _ ← h.get bytesKind c.buffer
      let h ← libmicEmpty ptr h
      return ⟨s.control.step p r, h, ptr, .final⟩
    else return ⟨s.control.step p r, h, ptr, .wait⟩
  else
    let h ← libmicFree s.ptr s.heap
    return ⟨s.control.step p r, h, .null, s.fvalue⟩

/-- `ptr` points to a segment buffer. -/
def LiveSegment (ptr : CPtr ℕ) (h : Store Block) : Prop :=
  ∃ c m, h.get soundKind ptr = some c ∧ h.get bytesKind c.buffer = some m

/-- Every round is defined, and every call of `sound_detection` leaves a live segment buffer. -/
def CaptureLives (a : Allocator) (p : Setup) : State → List Round → Prop
  | _, [] => True
  | s, r :: rounds => ∃ s', captureStep a p s r = some s' ∧
      (s.control.detects r = true → LiveSegment s'.ptr s'.heap) ∧ CaptureLives a p s' rounds

/-- The files of the calls of `sound_detection`. -/
def detections (p : Setup) : Control → List Round → List ℕ
  | _, [] => []
  | k, r :: rounds => (if k.detects r then [k.filecount] else []) ++ detections p (k.step p r) rounds

/-! ### A segment in its blocks -/

/-- `ptr` points to a struct and its buffer that hold `x`, and nothing else is allocated. -/
def Holds (ptr : CPtr ℕ) (h : Store Block) (x : SoundStruct) : Prop :=
  ∃ n m, ptr = .ref n ∧
    Owns .empty h [(n, .sound ⟨.ref m, x.length, x.block, x.check, x.flags⟩), (m, .bytes x.buffer)]

section
variable {a : Allocator} {ptr : CPtr ℕ} {h : Store Block} {x : SoundStruct}

/-- A struct that is held can be read and written, and so can its buffer. -/
theorem Holds.write (hx : Holds ptr h x) (y : SoundStruct) : ∃ c h₁ h₂,
    h.get soundKind ptr = some c ∧ c.buffer ≠ .null ∧ h.get bytesKind c.buffer = some x.buffer ∧
    c.content x.buffer = x ∧ h.modify bytesKind c.buffer (fun _ => y.buffer) = some h₁ ∧
    h₁.modify soundKind ptr (Sound.update · y) = some h₂ ∧ Holds ptr h₂ y := by
  obtain ⟨n, m, rfl, ho⟩ := hx
  have hget := Owns.get (K := soundKind) ho List.mem_cons_self
  have hbytes := Owns.get (K := bytesKind) ho (List.mem_cons_of_mem _ List.mem_cons_self)
  obtain ⟨h₁, hmod₁, -, ho₁⟩ := (ho.perm (List.Perm.swap _ _ _)).modify (K := bytesKind) fun _ => y.buffer
  obtain ⟨h₂, hmod₂, -, ho₂⟩ :=
    (ho₁.perm (List.Perm.swap _ _ _)).modify (K := soundKind) (Sound.update · y)
  exact ⟨_, h₁, h₂, hget, nofun, hbytes, rfl, hmod₁, hmod₂, n, m, rfl, ho₂⟩

theorem Holds.ne_null (hx : Holds ptr h x) : ptr ≠ .null := by
  obtain ⟨n, m, rfl, -⟩ := hx
  exact nofun

theorem Holds.live (hx : Holds ptr h x) : LiveSegment ptr h := by
  obtain ⟨c, -, -, hget, -, hbytes, -⟩ := hx.write x
  exact ⟨c, x.buffer, hget, hbytes⟩

theorem libmicEmpty_holds (hx : Holds ptr h x) :
    ∃ h', libmicEmpty ptr h = some h' ∧ Holds ptr h' (Carroll.libmicEmpty x) := by
  obtain ⟨c, h₁, h₂, hget, -, hbytes, hc, hmod₁, hmod₂, hy⟩ := hx.write (Carroll.libmicEmpty x)
  exact ⟨h₂, by simp [libmicEmpty, hx.ne_null, hget, hbytes, hc, hmod₁, hmod₂], hy⟩

theorem libmicSurw_holds (hx : Holds ptr h x) (chunk : AudioChunk) :
    ∃ h', libmicSurw ptr chunk h = some ((libmicCreate chunk.1 x chunk.2).1, h') ∧
      Holds ptr h' (libmicCreate chunk.1 x chunk.2).2 := by
  obtain ⟨c, h₁, h₂, hget, hne, hbytes, hc, hmod₁, hmod₂, hy⟩ :=
    hx.write (libmicCreate chunk.1 x chunk.2).2
  exact ⟨h₂, by simp [libmicSurw, hx.ne_null, hget, hne, hbytes, hc, hmod₁, hmod₂], hy⟩

/-- `libmic_free` frees the struct and what its `buffer` points to. -/
theorem libmicFree_owns {n : ℕ} {c : Sound} {m : Mem}
    (ho : Owns .empty h ((n, .sound c) :: (c.buffer.cell (.bytes m) ++ []))) (hjunk : c.buffer ≠ .junk) :
    ∃ h', libmicFree (.ref n) h = some h' ∧ Owns .empty h' [] := by
  obtain ⟨h₁, hrel, ho⟩ := Owns.release (K := soundKind) Sound.bufferField ho rfl hjunk
  obtain ⟨h₂, hmod, -, ho⟩ := ho.modify (K := soundKind) fun _ => ⟨.null, 0, 0, 0, 0⟩
  obtain ⟨h₃, hfree, ho⟩ := ho.free
  exact ⟨h₃, by simp [libmicFree, hrel, hmod, hfree], ho⟩

theorem libmicFree_holds (hx : Holds ptr h x) :
    ∃ h', libmicFree ptr h = some h' ∧ Owns .empty h' [] := by
  obtain ⟨n, m, rfl, ho⟩ := hx
  exact libmicFree_owns ho nofun

/-- `ptr->flags = flags`. -/
theorem Holds.setFlags (hx : Holds ptr h x) (flags : ℕ) :
    ∃ h', h.modify soundKind ptr (fun c => { c with flags := flags }) = some h' ∧
      Holds ptr h' { x with flags := flags } := by
  obtain ⟨n, m, rfl, ho⟩ := hx
  obtain ⟨h', hmod, -, ho⟩ := ho.modify (K := soundKind) fun c => { c with flags := flags }
  exact ⟨h', hmod, n, m, rfl, ho⟩

/-- `libmic_alloc`: a segment, or `NULL` when one of its allocations fails. -/
theorem libmicAlloc_cases (a : Allocator) (ho : Owns .empty h []) :
    (a.fails h.calls = false ∧ a.fails (h.calls + 1) = false ∧ ∃ q h' block flags,
      libmicAlloc a h = some (q, h') ∧
      Holds q h' { Carroll.libmicAlloc block with flags := flags }) ∨
    ((a.fails h.calls = true ∨ a.fails (h.calls + 1) = true) ∧
      ∃ h', libmicAlloc a h = some (.null, h')) := by
  cases hfirst : a.fails h.calls with
  | true =>
      have hmalloc := h.malloc_fails (fun w => Block.sound (.ofWords w)) hfirst
      exact .inr ⟨.inl rfl, _, by simp [libmicAlloc, hmalloc]; rfl⟩
  | false =>
      have hmalloc := h.malloc_ok (fun w => Block.sound (.ofWords w)) hfirst
      obtain ⟨h₁, hmod₁, hcalls, ho₁⟩ := (ho.push (.sound (.ofWords (a.words h.calls)))).modify
        (K := soundKind) fun c => { c with check := 0, block := 0, length := micSize }
      rw [Store.calls_push] at hcalls
      obtain ⟨buffer, h₂, h₃, hmalloc₂, hmod₂, -, hjunk, hnull, ho₂⟩ :=
        Owns.mallocField Sound.bufferField ho₁ a fun w => .bytes fun i => UInt8.ofNat (w i)
      rw [hcalls] at hnull
      cases buffer with
      | junk => exact absurd rfl hjunk
      | null =>
          obtain ⟨h₄, hfree, -⟩ := libmicFree_owns (m := Mem.zero) ho₂ nofun
          refine .inr ⟨.inr (hnull.mp rfl), h₄, ?_⟩
          simp [libmicAlloc, hmalloc, hmod₁, hmalloc₂, hmod₂, hfree]
      | ref m =>
          have hsecond : a.fails (h.calls + 1) = false := by
            rw [← Bool.not_eq_true, ← hnull]
            exact nofun
          obtain ⟨h₄, hmod₃, -, ho₃⟩ := (ho₂.perm (List.Perm.swap _ _ _)).modify (K := bytesKind)
            fun m i => if i < micSize then 0x4e else m i
          obtain ⟨h₅, hmod₄, -, ho₄⟩ := (ho₃.perm (List.Perm.swap _ _ _)).modify (K := soundKind)
            fun c => { c with length := 0 }
          refine .inl ⟨rfl, hsecond, .ref h.calls, h₅, fun i => UInt8.ofNat (a.words h₁.calls i), _,
            ?_, _, m, rfl, ho₄⟩
          simp [libmicAlloc, hmalloc, hmod₁, hmalloc₂, hmod₂, hmod₃, hmod₄]

theorem soundDetection_null {flags : SoundFlag} {h₁ : Store Block} (chunk : AudioChunk)
    (hcur : currentSegment a ptr flags h = some (.null, h₁)) :
    soundDetection a ptr chunk flags h = none := by
  simp [soundDetection, hcur, libmicSurw, Store.modify]

/-- `sound_detection` on a segment is `libmic_create` on its content. -/
theorem soundDetection_holds {q : CPtr ℕ} {flags : SoundFlag} {h₁ : Store Block} (chunk : AudioChunk)
    (hcur : currentSegment a ptr flags h = some (q, h₁)) (hx : Holds q h₁ x) :
    ∃ h₂, soundDetection a ptr chunk flags h =
        some (decide ((libmicCreate chunk.1 x chunk.2).1 = 2 ∧
          0 < (libmicCreate chunk.1 x chunk.2).2.block), q, h₂) ∧
      Holds q h₂ { (libmicCreate chunk.1 x chunk.2).2 with flags := 4 } := by
  obtain ⟨h₂, hsurw, hy⟩ := libmicSurw_holds hx chunk
  obtain ⟨h₃, hmod, hz⟩ := hy.setFlags 4
  obtain ⟨c, -, -, hget, -, -, hc, -⟩ := hz.write x
  have hblock : c.block = (libmicCreate chunk.1 x chunk.2).2.block := congrArg SoundStruct.block hc
  exact ⟨h₃, by simp [soundDetection, hcur, hsurw, hmod, hget, hblock], hz⟩

end

section
variable {a : Allocator} {p : Setup} {s : State} {r : Round}

/-- A chunk given to a segment: `capture` does with its content what `captureRound` does. -/
theorem captureStep_holds {q : CPtr ℕ} {h₁ : Store Block} {x : SoundStruct}
    (hopen : s.control.finished = false) (hk : s.control.detects r = true)
    (hcur : currentSegment a s.ptr s.fvalue s.heap = some (q, h₁)) (hx : Holds q h₁ x) :
    ∃ s' y, captureStep a p s r = some s' ∧ s'.control = s.control.step p r ∧
      s'.fvalue ≠ .begin ∧ Holds s'.ptr s'.heap y ∧
      ∀ block t, Capture.current block t = some x →
        ∃ heard, captureRound block t (r.chunk p s.control) = some (⟨some y, s'.fvalue⟩, heard) := by
  obtain ⟨h₂, hdet, hy⟩ := soundDetection_holds (r.chunk p s.control) hcur hx
  by_cases hfound : (libmicCreate (r.chunk p s.control).1 x (r.chunk p s.control).2).1 = 2 ∧
      0 < (libmicCreate (r.chunk p s.control).1 x (r.chunk p s.control).2).2.block
  · obtain ⟨c, -, -, hget, -, hbytes, -, -⟩ := hy.write x
    obtain ⟨h₃, hempty, hz⟩ := libmicEmpty_holds hy
    refine ⟨⟨s.control.step p r, h₃, q, .final⟩, _, ?_, rfl, nofun, hz, fun block t ht => ?_⟩
    · simp [captureStep, hopen, hk, hdet, hfound, hget, hbytes, hempty]
    · unfold captureRound
      rw [ht]
      simp [hfound]
  · refine ⟨⟨s.control.step p r, h₂, q, .wait⟩, _, ?_, rfl, nofun, hy, fun block t ht => ?_⟩
    · simp [captureStep, hopen, hk, hdet, hfound]
    · unfold captureRound
      rw [ht]
      simp [hfound]

end

/-! ### Runs -/

section
variable {a : Allocator} {p : Setup}

theorem Control.not_detects_of_finished {k : Control} (hk : k.finished = true) (r : Round) :
    k.detects r = false := by
  simp [Control.detects, hk]

theorem Control.not_finished_of_detects {k : Control} {r : Round} (hk : k.detects r = true) :
    k.finished = false := by
  cases hf : k.finished with
  | false => rfl
  | true => exact absurd (hk.symm.trans (Control.not_detects_of_finished hf r)) Bool.true_eq_false_eq_False

/-- A round that gets to `sound_detection` stays in its file. -/
theorem Control.step_of_detects {k : Control} {r : Round} (hk : k.detects r = true) :
    (k.step p r).filecount = k.filecount ∧ (k.step p r).finished = false := by
  have hopen := Control.not_finished_of_detects hk
  simp [Control.step, hk, hopen]

/-- Any other ends it. -/
theorem Control.step_of_not_detects {k : Control} {r : Round} (hk : k.detects r = false) :
    (k.step p r).finished = true ∨ k.filecount < (k.step p r).filecount := by
  unfold Control.step
  rw [hk, if_neg Bool.false_ne_true]
  split_ifs with hf hnext
  · exact .inl hf
  · exact .inr (Nat.lt_succ_self _)
  · exact .inl rfl

theorem detections_cons (k : Control) (r : Round) (rounds : List Round) :
    detections p k (r :: rounds) =
      (if k.detects r then [k.filecount] else []) ++ detections p (k.step p r) rounds := rfl

theorem detections_finished {k : Control} (hk : k.finished = true) (rounds : List Round) :
    detections p k rounds = [] := by
  induction rounds with
  | nil => rfl
  | cons r rounds ih =>
      rw [detections_cons, Control.not_detects_of_finished hk, Control.step, if_pos hk, ih]
      rfl

/-- The files are numbered in order. -/
theorem filecount_le_of_mem {k : Control} {rounds : List Round} {i : ℕ}
    (hi : i ∈ detections p k rounds) : k.filecount ≤ i := by
  induction rounds generalizing k with
  | nil => exact absurd hi List.not_mem_nil
  | cons r rounds ih =>
      rw [detections_cons] at hi
      cases hk : k.detects r with
      | true =>
          rw [hk, if_pos rfl, List.singleton_append, List.mem_cons] at hi
          rcases hi with rfl | hi
          · exact le_rfl
          · exact (Control.step_of_detects hk).1 ▸ ih hi
      | false =>
          rw [hk, if_neg Bool.false_ne_true, List.nil_append] at hi
          rcases Control.step_of_not_detects (p := p) hk with hf | hlt
          · rw [detections_finished hf] at hi
            exact absurd hi List.not_mem_nil
          · exact hlt.le.trans (ih hi)

theorem captureStep_finished {s : State} (hs : s.control.finished = true) (r : Round) :
    captureStep a p s r = some s := by
  simp [captureStep, hs]

/-- The end of a file. -/
theorem captureStep_free {s : State} {r : Round} (hopen : s.control.finished = false)
    (hk : s.control.detects r = false) : captureStep a p s r =
      (libmicFree s.ptr s.heap).map fun h => ⟨s.control.step p r, h, .null, s.fvalue⟩ := by
  cases hfree : libmicFree s.ptr s.heap <;> simp [captureStep, hopen, hk, hfree]

/-- A chunk without a segment. -/
theorem captureStep_null {s : State} {r : Round} {h : Store Block} (hk : s.control.detects r = true)
    (hcur : currentSegment a s.ptr s.fvalue s.heap = some (.null, h)) : captureStep a p s r = none := by
  have hdet := soundDetection_null (r.chunk p s.control) hcur
  simp [captureStep, Control.not_finished_of_detects hk, hk, hdet]

/-- After the segment was freed no chunk may come. -/
theorem captureLives_freed {s : State} (hptr : s.ptr = .null) (hf : s.fvalue ≠ .begin)
    (rounds : List Round) : CaptureLives a p s rounds ↔ detections p s.control rounds = [] := by
  induction rounds generalizing s with
  | nil => simp [CaptureLives, detections]
  | cons r rounds ih =>
      rw [CaptureLives, detections_cons]
      cases hk : s.control.detects r with
      | true =>
          have hcur : currentSegment a s.ptr s.fvalue s.heap = some (.null, s.heap) := by
            rw [hptr]
            cases hv : s.fvalue with
            | begin => exact absurd hv hf
            | final => rfl
            | wait => rfl
          simp [captureStep_null hk hcur]
      | false =>
          cases hopen : s.control.finished with
          | true =>
              have hstep : s.control.step p r = s.control := if_pos hopen
              simp [captureStep_finished hopen, hstep, ih hptr hf]
          | false =>
              have hstep : captureStep a p s r =
                  some ⟨s.control.step p r, s.heap, .null, s.fvalue⟩ := by
                rw [captureStep_free hopen hk, hptr]
                rfl
              simp [hstep, ih (s := ⟨s.control.step p r, s.heap, .null, s.fvalue⟩) rfl hf]

/-- While a segment is held, every chunk has to come in the same file. -/
theorem captureLives_holds {s : State} {x : SoundStruct} (hx : Holds s.ptr s.heap x)
    (hf : s.fvalue ≠ .begin) (hopen : s.control.finished = false) (rounds : List Round) :
    CaptureLives a p s rounds ↔ ∀ i ∈ detections p s.control rounds, i = s.control.filecount := by
  induction rounds generalizing s x with
  | nil => simp [CaptureLives, detections]
  | cons r rounds ih =>
      rw [CaptureLives, detections_cons]
      cases hk : s.control.detects r with
      | true =>
          obtain ⟨h₁, y, hcur, hy⟩ : ∃ h₁ y,
              currentSegment a s.ptr s.fvalue s.heap = some (s.ptr, h₁) ∧ Holds s.ptr h₁ y := by
            cases hv : s.fvalue with
            | begin => exact absurd hv hf
            | final =>
                obtain ⟨h₁, hempty, hy⟩ := libmicEmpty_holds hx
                exact ⟨h₁, _, by simp [currentSegment, hempty], hy⟩
            | wait => exact ⟨s.heap, x, rfl, hx⟩
          obtain ⟨s', z, hstep, hcontrol, hf', hz, -⟩ := captureStep_holds (p := p) hopen hk hcur hy
          obtain ⟨hfile, hopen'⟩ := Control.step_of_detects (p := p) hk
          have hrest := ih hz hf' (hcontrol ▸ hopen')
          rw [hcontrol, hfile] at hrest
          simp [hstep, hz.live, hrest]
      | false =>
          obtain ⟨h₁, hfree, -⟩ := libmicFree_holds hx
          have hstep : captureStep a p s r = some ⟨s.control.step p r, h₁, .null, s.fvalue⟩ := by
            rw [captureStep_free hopen hk, hfree]
            rfl
          have hrest := captureLives_freed (a := a) (p := p)
            (s := ⟨s.control.step p r, h₁, .null, s.fvalue⟩) rfl hf rounds
          -- what comes later comes in later files
          have hlater : detections p (s.control.step p r) rounds = [] ↔
              ∀ i ∈ detections p (s.control.step p r) rounds, i = s.control.filecount := by
            refine ⟨fun hnil => by simp [hnil], fun hall => List.eq_nil_iff_forall_not_mem.mpr ?_⟩
            intro i hi
            rcases Control.step_of_not_detects (p := p) hk with hdone | hlt
            · rw [detections_finished hdone] at hi
              exact absurd hi List.not_mem_nil
            · exact absurd (hall i hi) (hlt.trans_le (filecount_le_of_mem hi)).ne'
          simp [hstep, hrest, hlater]

/-- The calls of `sound_detection` are all in one file, and `libmic_alloc` gets its two blocks. -/
def OneFile (a : Allocator) (p : Setup) (k : Control) (rounds : List Round) : Prop :=
  detections p k rounds = [] ∨
    (a.fails 0 = false ∧ a.fails 1 = false ∧ ∃ f, ∀ i ∈ detections p k rounds, i = f)

theorem captureLives_begin {k : Control} (rounds : List Round) :
    CaptureLives a p ⟨k, .empty, .null, .begin⟩ rounds ↔ OneFile a p k rounds := by
  induction rounds generalizing k with
  | nil => simp [CaptureLives, OneFile, detections]
  | cons r rounds ih =>
      unfold OneFile
      rw [CaptureLives, detections_cons]
      cases hk : k.detects r with
      | true =>
          rw [if_pos rfl]
          have hopen := Control.not_finished_of_detects hk
          obtain ⟨hfirst, hsecond, q, h₁, block, flags, hcur, hx⟩ | ⟨hfails, h₁, hcur⟩ :=
            libmicAlloc_cases a (Owns.refl (.empty : Store Block))
          · obtain ⟨s', y, hstep, hcontrol, hf', hy, -⟩ := captureStep_holds (p := p)
              (s := ⟨k, .empty, .null, .begin⟩) hopen hk hcur hx
            obtain ⟨hfile, hopen'⟩ := Control.step_of_detects (p := p) hk
            have hrest := captureLives_holds (a := a) (p := p) hy hf' (hcontrol ▸ hopen') rounds
            rw [hcontrol, hfile] at hrest
            have hfirst : a.fails 0 = false := hfirst
            have hsecond : a.fails 1 = false := hsecond
            simp [hstep, hy.live, hrest, hfirst, hsecond]
          · have hstep := captureStep_null (p := p) (s := ⟨k, .empty, .null, .begin⟩) hk hcur
            have hfails : a.fails 0 = true ∨ a.fails 1 = true := hfails
            rcases hfails with hfails | hfails <;> simp [hstep, hfails]
      | false =>
          rw [if_neg Bool.false_ne_true, List.nil_append]
          have hstep : captureStep a p ⟨k, .empty, .null, .begin⟩ r =
              some ⟨k.step p r, .empty, .null, .begin⟩ := by
            cases hopen : k.finished with
            | true => rw [captureStep_finished hopen, Control.step, if_pos hopen]
            | false =>
                rw [captureStep_free hopen hk]
                rfl
          simpa [hstep, OneFile] using ih (k := k.step p r)

/-- A run of `capture` has a live segment buffer in every call of `sound_detection` exactly when
these calls are all in one file and the two allocations of `libmic_alloc` succeed. -/
theorem captureLives_iff (a : Allocator) (p : Setup) (count : ℕ) (rounds : List Round) :
    CaptureLives a p (.start p count) rounds ↔ OneFile a p (.newFile p count 1) rounds :=
  captureLives_begin rounds

/-- A round that records a chunk without voice. -/
def Round.quiet : Round := ⟨false, true, true, false, Mem.zero, false⟩

/-- Two files of one chunk each. -/
theorem not_captureLives_second :
    ¬ CaptureLives ⟨fun _ => false, fun _ _ => 0⟩ ⟨2, 2⟩ (.start ⟨2, 2⟩ 4) [.quiet, .quiet, .quiet] := by
  intro h
  have h := (captureLives_begin _).mp h
  have hfiles : detections ⟨2, 2⟩ (.newFile ⟨2, 2⟩ 4 1) [.quiet, .quiet, .quiet] = [1, 2] := by decide
  rw [OneFile, hfiles] at h
  obtain hnil | ⟨-, -, f, hf⟩ := h
  · exact List.cons_ne_nil _ _ hnil
  · have h12 : (1 : ℕ) = 2 := (hf 1 (by decide)).trans (hf 2 (by decide)).symm
    exact absurd h12 (by decide)

end

end Rollover

end Carroll
