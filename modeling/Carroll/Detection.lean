import Carroll.Mem
import Carroll.Segments

/-! # Speech segments

`libmic_create` of `detection.c` collects the voiced chunks of a recording in one buffer of
`MGC_SEEK1 * SSC_STREAM_BLOCK` bytes; `capture` of `libmic.c` feeds it the chunks one by one
through `sound_detection` and hands every complete segment to its callback.

* Whether a chunk is voiced is decided by `libmic_create` with floating point arithmetic on its
  bytes; here it comes with the chunk.
* `check` is 0 when no segment is open, 1 or 2 while one is, and 3 between the `goto NEWLINE` of
  a full segment and its end.
* The outcome of a round of `capture` is the segment it emits, if any, and its accesses to the
  buffer; `none` is a run through a NULL pointer.  The callback and the allocation succeed.

The segments are those of `Segments.lean` (`capture_segments`).  The size of a chunk comes from the
sound device, and nothing bounds it: the copies stay in the buffer while the segments fit it
(`captureBounded_iff`). -/

namespace Carroll

/-- `MGC_SEEK1`. -/
def mgcSeek1 : ℕ := 22048

/-- `SSC_STREAM_BLOCK`. -/
def sscStreamBlock : ℕ := 24

/-- The bytes of the buffer of a `sound_struct_t`. -/
def micSize : ℕ := mgcSeek1 * sscStreamBlock

/-- `struct sound_struct_t`. -/
structure SoundStruct where
  buffer : Mem
  length : ℕ
  block : ℕ
  check : ℕ
  flags : ℕ

/-- `SOUND_BEGIN`, `SOUND_FINAL` and `SOUND_WAIT`. -/
inductive SoundFlag where
  | begin
  | final
  | wait
deriving DecidableEq, Repr

/-- `memcpy(ptr->buffer+ptr->length, buf, len); ptr->length += len;` -/
def SoundStruct.append (ptr : SoundStruct) (buf : List UInt8) : SoundStruct :=
  { ptr with buffer := ptr.buffer.poke ptr.length buf, length := u32 (ptr.length + buf.length) }

/-- A length of 0, or one beyond the buffer, becomes `MGC_SEEK1 * block`. -/
def SoundStruct.clamp (ptr : SoundStruct) : SoundStruct :=
  if ptr.length = 0 ∨ micSize < ptr.length then { ptr with length := u32 (mgcSeek1 * ptr.block) }
  else ptr

/-- `libmic_create` from the label `NEWLINE` on, with the value `ret` has there. -/
def libmicNewline (ret : ℕ) (ptr : SoundStruct) (buf : List UInt8) : ℕ × SoundStruct :=
  if ptr.check = 1 ∨ ptr.check = 2 ∨ ptr.check = 3 then
    let ptr := if 0 < ptr.check ∧ ptr.check < 3 then ptr.append buf else ptr
    let ptr : SoundStruct := { ptr.clamp with check := 0 }
    (if 1 ≤ ptr.block then 2 else ret, ptr)
  else (0, { ptr with check := 0, block := 0 })

/-- `libmic_create(ptr, buf, len)` on a chunk that was found voiced or not. -/
def libmicCreate (voiced : Bool) (ptr : SoundStruct) (buf : List UInt8) : ℕ × SoundStruct :=
  if voiced then
    if ptr.check = 0 then
      let buffer := (ptr.buffer.poke 0 (List.replicate buf.length 0)).poke 0 buf
      (1, { ptr with buffer := buffer, length := buf.length, check := 1, block := 1 })
    else
      let ptr := ptr.append buf
      let ptr := { ptr with block := u32 (ptr.block + 1) }
      if sscStreamBlock - 1 ≤ ptr.block then libmicNewline 1 { ptr with check := 3 } buf
      else (1, { ptr with check := 2 })
  else libmicNewline 0 ptr buf

/-- The accesses of `libmic_create` to `ptr->buffer`. -/
def libmicCreateAccesses (voiced : Bool) (ptr : SoundStruct) (buf : List UInt8) : List Access :=
  if voiced then
    if ptr.check = 0 then [⟨micSize, 0, buf.length⟩] else [⟨micSize, ptr.length, buf.length⟩]
  else if ptr.check = 1 ∨ ptr.check = 2 then [⟨micSize, ptr.length, buf.length⟩]
  else []

/-- `libmic_empty(ptr)`. -/
def libmicEmpty (ptr : SoundStruct) : SoundStruct :=
  { ptr with
    buffer := fun i => if i < ptr.length then 0x70 else ptr.buffer i
    length := 0, block := 0, check := 0 }

/-- `libmic_alloc()`: a buffer filled with `\x4e`, from a block that held `block`. -/
def libmicAlloc (block : Mem) : SoundStruct :=
  { buffer := fun i => if i < micSize then 0x4e else block i
    length := 0, block := 0, check := 0, flags := 0 }

/-- A chunk of audio: whether it is voiced, and its bytes. -/
abbrev AudioChunk := Bool × List UInt8

/-- The variables `ptr` and `fvalue` of `capture`. -/
structure Capture where
  ptr : Option SoundStruct
  fvalue : SoundFlag

/-- The start of `capture`. -/
def Capture.start : Capture := ⟨none, .begin⟩

/-- What a round of `capture` does outside its variables: the length and the bytes handed to the
callback, and the accesses to the buffer. -/
structure Heard where
  emitted : Option (ℕ × List UInt8)
  accesses : List Access

/-- `ptr` after the flags were looked at in `sound_detection`. -/
def Capture.current (block : Mem) (s : Capture) : Option SoundStruct :=
  match s.fvalue with
  | .begin => some (libmicAlloc block)
  | .final => s.ptr.map libmicEmpty
  | .wait => s.ptr

/-- One round of `capture` with a chunk: `sound_detection`, and, when it returns 1, the callback and
`libmic_empty`. -/
def captureRound (block : Mem) (s : Capture) (c : AudioChunk) : Option (Capture × Heard) :=
  match s.current block with
  | none => none
  | some ptr =>
      let accesses := libmicCreateAccesses c.1 ptr c.2
      let (state, ptr) := libmicCreate c.1 ptr c.2
      let ptr := { ptr with flags := 4 }
      if state = 2 ∧ 0 < ptr.block then
        some (⟨some (libmicEmpty ptr), .final⟩,
          ⟨some (ptr.length, ptr.buffer.peek 0 ptr.length), accesses ++ [⟨micSize, 0, ptr.length⟩]⟩)
      else some (⟨some ptr, .wait⟩, ⟨none, accesses⟩)

/-- The rounds of `capture` for a list of chunks. -/
def captureLoop (block : Mem) : Capture → List AudioChunk →
    Option (Capture × List (ℕ × List UInt8) × List Access)
  | s, [] => some (s, [], [])
  | s, c :: cs =>
      match captureRound block s c with
      | none => none
      | some (s, heard) =>
          (captureLoop block s cs).map fun r =>
            (r.1, heard.emitted.toList ++ r.2.1, heard.accesses ++ r.2.2)

/-! ### The segment in the buffer -/

/-- The bytes of the chunks of a segment. -/
def audioBytes (seg : List AudioChunk) : List UInt8 := seg.flatMap (·.2)

/-- The segments of a list of chunks. -/
abbrev audioSegments (opened cs : List AudioChunk) : List (List AudioChunk) × List AudioChunk :=
  Segments.segments (·.1) (sscStreamBlock - 1) opened cs

/-- `ptr` holds the open segment. -/
def Follows (opened : List AudioChunk) (ptr : SoundStruct) : Prop :=
  if opened = [] then ptr.check = 0
  else (ptr.check = 1 ∨ ptr.check = 2) ∧ ptr.block = opened.length ∧
    ptr.length = (audioBytes opened).length ∧
    ptr.buffer.peek 0 ptr.length = audioBytes opened

/-- What is handed to the callback for a segment: its bytes, or a length of `MGC_SEEK1` for each
voiced chunk when there is no byte. -/
def Emits (seg : List AudioChunk) (e : ℕ × List UInt8) : Prop :=
  if audioBytes seg = [] then e.1 = mgcSeek1 * (seg.filter (·.1)).length
  else e = ((audioBytes seg).length, audioBytes seg)

/-- The chunk fits behind the open segment, if it goes there. -/
def ChunkFits (opened : List AudioChunk) (c : AudioChunk) : Prop :=
  c.1 = true ∨ opened ≠ [] → (audioBytes (opened ++ [c])).length ≤ micSize

/-- The segments fit the buffer, the open one included. -/
def SegmentsFit (opened cs : List AudioChunk) : Prop :=
  ∀ seg ∈ (audioSegments opened cs).1 ++ [(audioSegments opened cs).2],
    (audioBytes seg).length ≤ micSize

/-- The open segment as `libmic_create` may leave it: fewer than 23 chunks, all voiced. -/
abbrev OpenShape (opened : List AudioChunk) : Prop :=
  Segments.Opened (fun c : AudioChunk => c.1) (sscStreamBlock - 1) opened

theorem OpenShape.nil : OpenShape [] := Segments.Opened.nil (by norm_num [sscStreamBlock])

theorem length_audioBytes_le {m : ℕ} {seg : List AudioChunk} (h : ∀ c ∈ seg, c.2.length ≤ m) :
    (audioBytes seg).length ≤ m * seg.length := by
  induction seg with
  | nil => simp [audioBytes]
  | cons c seg ih =>
      have hc := h c List.mem_cons_self
      have hseg := ih fun d hd => h d (List.mem_cons_of_mem _ hd)
      simp only [audioBytes, List.flatMap_cons, List.length_append, List.length_cons] at hseg ⊢
      rw [Nat.mul_succ]
      omega

theorem audioBytes_append (seg seg' : List AudioChunk) :
    audioBytes (seg ++ seg') = audioBytes seg ++ audioBytes seg' := List.flatMap_append

theorem length_audioBytes_concat (seg : List AudioChunk) (c : AudioChunk) :
    (audioBytes (seg ++ [c])).length = (audioBytes seg).length + c.2.length := by
  simp [audioBytes]

theorem segmentsFit_cons {opened cs : List AudioChunk} {c : AudioChunk} :
    SegmentsFit opened (c :: cs) ↔ ChunkFits opened c ∧
      SegmentsFit (Segments.arrive (·.1) (sscStreamBlock - 1) opened c).1 cs := by
  unfold SegmentsFit audioSegments
  rw [Segments.segments]
  obtain ⟨hv, hnil, h⟩ | ⟨hgoes, h | h⟩ :=
    @Segments.arrive_cases _ (fun c : AudioChunk => c.1) (sscStreamBlock - 1) opened c
  · rw [h]
    have hfits : ChunkFits opened c := fun hgoes => by simp [hv, hnil] at hgoes
    simp [hfits]
  · rw [h]
    refine ⟨fun hall => ⟨fun _ => ?_, hall⟩, And.right⟩
    obtain ⟨seg, hseg, rest, rfl⟩ :=
      @Segments.exists_prefix _ (fun c : AudioChunk => c.1) (sscStreamBlock - 1) (opened ++ [c]) cs
    have hle := hall _ hseg
    rw [audioBytes_append, List.length_append] at hle
    exact (Nat.le_add_right _ _).trans hle
  · rw [h]
    simp [ChunkFits, hgoes]

theorem Follows.of_ne_nil {opened : List AudioChunk} {ptr : SoundStruct} (h : Follows opened ptr)
    (hne : opened ≠ []) : (ptr.check = 1 ∨ ptr.check = 2) ∧ ptr.block = opened.length ∧
      ptr.length = (audioBytes opened).length ∧ ptr.buffer.peek 0 ptr.length = audioBytes opened := by
  rwa [Follows, if_neg hne] at h

theorem Follows.nil_iff {ptr : SoundStruct} : Follows [] ptr ↔ ptr.check = 0 := by
  rw [Follows, if_pos rfl]

/-- Appending a chunk to the buffer. -/
theorem Follows.append {opened : List AudioChunk} {ptr : SoundStruct} (h : Follows opened ptr)
    (hne : opened ≠ []) {c : AudioChunk} (hfits : ChunkFits opened c) :
    (ptr.append c.2).length = (audioBytes (opened ++ [c])).length ∧
    (ptr.append c.2).buffer.peek 0 (ptr.append c.2).length = audioBytes (opened ++ [c]) ∧
    (ptr.append c.2).length ≤ micSize := by
  obtain ⟨-, -, hlength, hbuffer⟩ := h.of_ne_nil hne
  have hle := hfits (.inr hne)
  have hsmall : micSize < 2 ^ 32 := by norm_num [micSize, mgcSeek1, sscStreamBlock]
  rw [length_audioBytes_concat] at hle ⊢
  have hsum : (ptr.append c.2).length = (audioBytes opened).length + c.2.length := by
    rw [SoundStruct.append, hlength, u32_of_lt (by omega)]
  refine ⟨hsum, ?_, hsum.trans_le hle⟩
  rw [hsum, audioBytes_append, Mem.peek_add, Nat.zero_add, SoundStruct.append]
  dsimp only
  rw [show audioBytes [c] = c.2 from List.append_nil c.2]
  rw [← hlength, Mem.peek_poke_disjoint _ _ (.inl (by omega)), hbuffer, Mem.peek_poke_self]

/-! ### One chunk -/

/-- What `libmic_create` leaves when a segment is complete. -/
structure Complete (seg : List AudioChunk) (ptr : SoundStruct) : Prop where
  block_pos : 0 < ptr.block
  emits : Emits seg (ptr.length, ptr.buffer.peek 0 ptr.length)
  length_le : ptr.length ≤ micSize

theorem Complete.of_check {seg : List AudioChunk} {ptr : SoundStruct} (h : Complete seg ptr)
    (check flags : ℕ) : Complete seg { ptr with check := check, flags := flags } :=
  ⟨h.block_pos, h.emits, h.length_le⟩

/-- The clamp changes the length of an empty segment only. -/
theorem complete_clamp {seg : List AudioChunk} {ptr : SoundStruct}
    (hlength : ptr.length = (audioBytes seg).length)
    (hbuffer : ptr.buffer.peek 0 ptr.length = audioBytes seg) (hle : ptr.length ≤ micSize)
    (hblock : ptr.block = (seg.filter (·.1)).length) (hpos : 0 < ptr.block)
    (hlt : ptr.block < sscStreamBlock) : Complete seg ptr.clamp := by
  unfold SoundStruct.clamp
  by_cases h0 : ptr.length = 0
  · have hnil : audioBytes seg = [] := List.length_eq_zero_iff.mp (hlength.symm.trans h0)
    have hmul : mgcSeek1 * ptr.block ≤ micSize := Nat.mul_le_mul_left _ hlt.le
    have hsmall : micSize < 2 ^ 32 := by norm_num [micSize, mgcSeek1, sscStreamBlock]
    rw [if_pos (.inl h0), u32_of_lt (by omega)]
    refine ⟨hpos, ?_, hmul⟩
    rw [Emits, if_pos hnil, ← hblock]
  · have hne : audioBytes seg ≠ [] := fun hnil => h0 (by rw [hlength, hnil, List.length_nil])
    rw [if_neg (by omega)]
    refine ⟨hpos, ?_, hle⟩
    rw [Emits, if_neg hne, hbuffer, hlength]

/-- All chunks of an open segment are voiced. -/
theorem OpenShape.filter_eq {opened : List AudioChunk} (h : OpenShape opened) :
    opened.filter (·.1) = opened :=
  List.filter_eq_self.mpr h.active

@[simp] theorem clamp_block (ptr : SoundStruct) : ptr.clamp.block = ptr.block := by
  unfold SoundStruct.clamp
  split_ifs <;> rfl

/-- The end of a full segment. -/
theorem newline_full {ptr : SoundStruct} (h : ptr.check = 3) (hpos : 0 < ptr.block) (ret : ℕ)
    (buf : List UInt8) : libmicNewline ret ptr buf = (2, { ptr.clamp with check := 0 }) := by
  have hone : 1 ≤ ptr.block := hpos
  simp [libmicNewline, h, hone]

/-- The end of a segment at an unvoiced chunk. -/
theorem newline_open {ptr : SoundStruct} (h : ptr.check = 1 ∨ ptr.check = 2) (hpos : 0 < ptr.block)
    (ret : ℕ) (buf : List UInt8) :
    libmicNewline ret ptr buf = (2, { (ptr.append buf).clamp with check := 0 }) := by
  have hone : 1 ≤ (ptr.append buf).block := hpos
  rcases h with h | h <;> simp [libmicNewline, h, hone]

section chunk
variable {opened : List AudioChunk} {ptr : SoundStruct} {c : AudioChunk}

/-- The first voiced chunk opens a segment. -/
theorem create_open (h : Follows [] ptr) (hv : c.1 = true) :
    ∃ ptr', libmicCreate c.1 ptr c.2 = (1, ptr') ∧ Follows [c] ptr' := by
  unfold libmicCreate
  rw [if_pos hv, if_pos (Follows.nil_iff.mp h)]
  refine ⟨_, rfl, ?_⟩
  rw [Follows, if_neg (List.cons_ne_nil c [])]
  refine ⟨.inl rfl, rfl, by simp [audioBytes], ?_⟩
  simpa [audioBytes] using Mem.peek_poke_self _ 0 c.2

/-- A voiced chunk is appended to an open segment that is not full yet. -/
theorem create_update (h : Follows opened ptr) (hne : opened ≠ []) (hfits : ChunkFits opened c)
    (hv : c.1 = true) (hfree : opened.length + 1 < sscStreamBlock - 1) :
    ∃ ptr', libmicCreate c.1 ptr c.2 = (1, ptr') ∧ Follows (opened ++ [c]) ptr' := by
  obtain ⟨hcheck, hblock, -, -⟩ := h.of_ne_nil hne
  obtain ⟨hlength, hbuffer, -⟩ := h.append hne hfits
  have hcount : u32 (ptr.block + 1) = opened.length + 1 := by
    rw [hblock, u32_of_lt (by unfold sscStreamBlock at hfree; omega)]
  unfold libmicCreate
  rw [if_pos hv, if_neg (by omega)]
  dsimp only
  rw [show (ptr.append c.2).block = ptr.block from rfl, hcount, if_neg (by omega)]
  refine ⟨_, rfl, ?_⟩
  rw [Follows, if_neg (by simp)]
  exact ⟨.inr rfl, by simp, hlength, hbuffer⟩

/-- The voiced chunk that fills a segment completes it. -/
theorem create_full (h : Follows opened ptr) (hne : opened ≠ []) (hopen : OpenShape opened)
    (hfits : ChunkFits opened c) (hv : c.1 = true) (hfull : sscStreamBlock - 1 ≤ opened.length + 1) :
    ∃ ptr', libmicCreate c.1 ptr c.2 = (2, ptr') ∧ Complete (opened ++ [c]) ptr' := by
  obtain ⟨hcheck, hblock, -, -⟩ := h.of_ne_nil hne
  obtain ⟨hlength, hbuffer, hle⟩ := h.append hne hfits
  have hlt := hopen.length_lt
  have hcount : u32 (ptr.block + 1) = opened.length + 1 := by
    rw [hblock, u32_of_lt (by unfold sscStreamBlock at hlt; omega)]
  unfold libmicCreate
  rw [if_pos hv, if_neg (by omega)]
  dsimp only
  rw [show (ptr.append c.2).block = ptr.block from rfl, hcount, if_pos hfull]
  have hdone : Complete (opened ++ [c])
      { ptr.append c.2 with block := opened.length + 1, check := 3 }.clamp :=
    complete_clamp hlength hbuffer hle (by simp [hopen.filter_eq, hv]) (Nat.succ_pos _) (by
      show opened.length + 1 < sscStreamBlock
      omega)
  exact ⟨_, newline_full rfl (Nat.succ_pos _) 1 c.2, hdone.of_check 0 _⟩

/-- An unvoiced chunk completes an open segment. -/
theorem create_close (h : Follows opened ptr) (hne : opened ≠ []) (hopen : OpenShape opened)
    (hfits : ChunkFits opened c) (hv : c.1 = false) :
    ∃ ptr', libmicCreate c.1 ptr c.2 = (2, ptr') ∧ Complete (opened ++ [c]) ptr' := by
  obtain ⟨hcheck, hblock, -, -⟩ := h.of_ne_nil hne
  obtain ⟨hlength, hbuffer, hle⟩ := h.append hne hfits
  have hlt := hopen.length_lt
  have hpos : 0 < ptr.block := by
    rw [hblock]
    exact List.length_pos_iff.mpr hne
  have hdone : Complete (opened ++ [c]) (ptr.append c.2).clamp :=
    complete_clamp hlength hbuffer hle
      (hblock.trans (by simp [hopen.filter_eq, hv])) hpos (by
        show ptr.block < sscStreamBlock
        omega)
  unfold libmicCreate
  rw [hv, if_neg Bool.false_ne_true]
  exact ⟨_, newline_open hcheck hpos 0 c.2, hdone.of_check 0 _⟩

/-- An unvoiced chunk is dropped when no segment is open. -/
theorem create_drop (h : Follows [] ptr) (hv : c.1 = false) :
    ∃ ptr', libmicCreate c.1 ptr c.2 = (0, ptr') ∧ Follows [] ptr' := by
  have hcheck := Follows.nil_iff.mp h
  unfold libmicCreate libmicNewline
  rw [hv, if_neg Bool.false_ne_true, if_neg (by omega)]
  exact ⟨_, rfl, Follows.nil_iff.mpr rfl⟩

/-- The copies of `libmic_create` stay inside the buffer exactly when the chunk fits. -/
theorem create_inBounds_iff (h : Follows opened ptr) :
    InBounds (libmicCreateAccesses c.1 ptr c.2) ↔ ChunkFits opened c := by
  unfold libmicCreateAccesses ChunkFits
  rw [length_audioBytes_concat]
  by_cases hnil : opened = []
  · rw [hnil] at h ⊢
    by_cases hv : c.1 = true <;> simp [hv, Follows.nil_iff.mp h, audioBytes]
  · obtain ⟨hcheck, -, hlength, -⟩ := h.of_ne_nil hnil
    have hne : ptr.check ≠ 0 := by omega
    simp [hnil, hcheck, hne, hlength]

/-- **One chunk.**  `libmic_create` returns 2 exactly when the chunk closes a segment, which is then in
the buffer; otherwise it keeps the open one there. -/
theorem create_arrive (h : Follows opened ptr) (hopen : OpenShape opened)
    (hfits : ChunkFits opened c) :
    ∃ ret ptr', libmicCreate c.1 ptr c.2 = (ret, ptr') ∧
      ((ret ≠ 2 ∧ (Segments.arrive (·.1) (sscStreamBlock - 1) opened c).2 = none ∧
          Follows (Segments.arrive (·.1) (sscStreamBlock - 1) opened c).1 ptr') ∨
        (ret = 2 ∧ Segments.arrive (·.1) (sscStreamBlock - 1) opened c = ([], some (opened ++ [c])) ∧
          Complete (opened ++ [c]) ptr')) := by
  unfold Segments.arrive
  by_cases hv : c.1 = true
  · by_cases hnil : opened = []
    · subst hnil
      obtain ⟨ptr', hrun, hf⟩ := create_open h hv
      exact ⟨1, ptr', hrun, .inl (by simp [hv, hf])⟩
    · by_cases hfull : sscStreamBlock - 1 ≤ opened.length + 1
      · obtain ⟨ptr', hrun, hdone⟩ := create_full h hnil hopen hfits hv hfull
        exact ⟨2, ptr', hrun, .inr (by simp [hv, hnil, hfull, hdone])⟩
      · obtain ⟨ptr', hrun, hf⟩ := create_update h hnil hfits hv (not_le.mp hfull)
        exact ⟨1, ptr', hrun, .inl (by simp [hv, hnil, hfull, hf])⟩
  · rw [Bool.not_eq_true] at hv
    by_cases hnil : opened = []
    · subst hnil
      obtain ⟨ptr', hrun, hf⟩ := create_drop h hv
      exact ⟨0, ptr', hrun, .inl (by simp [hv, hf])⟩
    · obtain ⟨ptr', hrun, hdone⟩ := create_close h hnil hopen hfits hv
      exact ⟨2, ptr', hrun, .inr (by simp [hv, hnil, hdone])⟩

end chunk

/-! ### The loop -/

/-- The struct that the next chunk is given to holds the open segment. -/
def Hears (block : Mem) (opened : List AudioChunk) (s : Capture) : Prop :=
  ∃ ptr, s.current block = some ptr ∧ Follows opened ptr

theorem hears_start (block : Mem) : Hears block [] Capture.start :=
  ⟨libmicAlloc block, rfl, Follows.nil_iff.mpr rfl⟩

theorem arrive_open {opened : List AudioChunk} (h : OpenShape opened) (c : AudioChunk) :
    OpenShape (Segments.arrive (·.1) (sscStreamBlock - 1) opened c).1 :=
  Segments.arrive_opened (by norm_num [sscStreamBlock]) h c

/-- **One round of `capture`.** -/
theorem captureRound_arrive {block : Mem} {opened : List AudioChunk} {s : Capture}
    (h : Hears block opened s) (hopen : OpenShape opened) {c : AudioChunk}
    (hfits : ChunkFits opened c) :
    ∃ s' heard, captureRound block s c = some (s', heard) ∧
      Hears block (Segments.arrive (·.1) (sscStreamBlock - 1) opened c).1 s' ∧
      List.Forall₂ Emits (Segments.arrive (·.1) (sscStreamBlock - 1) opened c).2.toList
        heard.emitted.toList ∧
      InBounds heard.accesses := by
  obtain ⟨ptr, hcur, hf⟩ := h
  have hbounds := (create_inBounds_iff hf).mpr hfits
  unfold captureRound
  rw [hcur]
  dsimp only
  obtain ⟨ret, ptr', hrun, ⟨hret, hout, hf'⟩ | ⟨rfl, harr, hdone⟩⟩ := create_arrive hf hopen hfits
  · rw [hrun, if_neg (fun hr => hret hr.1), hout]
    refine ⟨_, _, rfl, ⟨_, rfl, ?_⟩, .nil, hbounds⟩
    unfold Follows at hf' ⊢
    exact hf'
  · rw [hrun, if_pos ⟨rfl, hdone.block_pos⟩, harr]
    refine ⟨_, _, rfl, ⟨_, rfl, Follows.nil_iff.mpr rfl⟩, .cons hdone.emits .nil, ?_⟩
    rw [inBounds_append, inBounds_cons]
    exact ⟨hbounds, by simpa using hdone.length_le, inBounds_nil⟩

/-- **A run of `capture`.** -/
theorem captureLoop_segments {block : Mem} {opened : List AudioChunk} {s : Capture}
    (h : Hears block opened s) (hopen : OpenShape opened) {cs : List AudioChunk}
    (hcs : SegmentsFit opened cs) :
    ∃ s' emitted accesses, captureLoop block s cs = some (s', emitted, accesses) ∧
      List.Forall₂ Emits (audioSegments opened cs).1 emitted ∧
      Hears block (audioSegments opened cs).2 s' ∧ InBounds accesses := by
  induction cs generalizing opened s with
  | nil => exact ⟨s, [], [], rfl, .nil, h, inBounds_nil⟩
  | cons c cs ih =>
      obtain ⟨hfits, hcs⟩ := segmentsFit_cons.mp hcs
      obtain ⟨s', heard, hround, hs', hemit, hbounds⟩ := captureRound_arrive h hopen hfits
      obtain ⟨s'', emitted, accesses, hloop, hseg, hrest, hb⟩ := ih hs' (arrive_open hopen c) hcs
      refine ⟨s'', heard.emitted.toList ++ emitted, heard.accesses ++ accesses, ?_,
        List.rel_append hemit hseg, hrest, inBounds_append.mpr ⟨hbounds, hb⟩⟩
      rw [captureLoop, hround]
      dsimp only
      rw [hloop]
      rfl

/-- A segment of speech has at most `SSC_STREAM_BLOCK - 1` chunks. -/
theorem audioSegments_length_le (cs : List AudioChunk) :
    ∀ seg ∈ (audioSegments [] cs).1, seg.length ≤ sscStreamBlock - 1 := by
  intro seg hseg
  obtain ⟨-, hclosed⟩ := Segments.segments_shape (by decide) OpenShape.nil cs
  exact (hclosed seg hseg).length_le

theorem mem_of_mem_audioSegments {cs seg : List AudioChunk} {c : AudioChunk}
    (hseg : seg ∈ (audioSegments [] cs).1 ++ [(audioSegments [] cs).2]) (hc : c ∈ seg) : c ∈ cs := by
  have hflat : c ∈ (audioSegments [] cs).1.flatten ++ (audioSegments [] cs).2 := by
    rcases List.mem_append.mp hseg with hseg | hseg
    · exact List.mem_append_left _ (List.mem_flatten_of_mem hseg hc)
    · exact List.mem_append_right _ (List.mem_singleton.mp hseg ▸ hc)
  rw [Segments.segments_flatten, List.nil_append] at hflat
  exact (Segments.kept_sublist [] cs).subset hflat

/-- Chunks of which 23 fit the buffer give segments that fit. -/
theorem segmentsFit_of_le {m : ℕ} {cs : List AudioChunk} (hcs : ∀ c ∈ cs, c.2.length ≤ m)
    (hm : m * (sscStreamBlock - 1) ≤ micSize) : SegmentsFit [] cs := by
  intro seg hseg
  have hlen : seg.length ≤ sscStreamBlock - 1 := by
    rcases List.mem_append.mp hseg with hseg | hseg
    · exact audioSegments_length_le cs seg hseg
    · obtain ⟨hopen, -⟩ := Segments.segments_shape (by decide) OpenShape.nil cs
      rw [List.mem_singleton.mp hseg]
      exact hopen.length_lt.le
  exact (length_audioBytes_le fun c hc => hcs c (mem_of_mem_audioSegments hseg hc)).trans
    ((Nat.mul_le_mul_left m hlen).trans hm)

/-- A closed segment has a voiced chunk. -/
theorem audioSegments_voiced (cs : List AudioChunk) :
    ∀ seg ∈ (audioSegments [] cs).1, seg.filter (·.1) ≠ [] := by
  intro seg hseg
  obtain ⟨-, hclosed⟩ := Segments.segments_shape (by decide) OpenShape.nil cs
  obtain ⟨opened, c, rfl, hne, hopen⟩ := hclosed seg hseg
  rw [List.filter_append, OpenShape.filter_eq hopen]
  exact List.append_ne_nil_of_left_ne_nil hne _

/-- A closed segment of chunks that have a byte when they are voiced has a byte. -/
theorem audioBytes_ne_nil {cs : List AudioChunk} (hcs : ∀ c ∈ cs, c.1 = true → c.2 ≠ [])
    {seg : List AudioChunk} (hseg : seg ∈ (audioSegments [] cs).1) : audioBytes seg ≠ [] := by
  obtain ⟨c, hc⟩ := List.exists_mem_of_ne_nil _ (audioSegments_voiced cs seg hseg)
  obtain ⟨hmem, hv⟩ := List.mem_filter.mp hc
  intro hnil
  exact hcs c (mem_of_mem_audioSegments (List.mem_append_left _ hseg) hmem) hv
    (List.flatMap_eq_nil_iff.mp hnil c hmem)

theorem emitted_eq_map {segs : List (List AudioChunk)} {emitted : List (ℕ × List UInt8)}
    (h : List.Forall₂ Emits segs emitted) (hne : ∀ seg ∈ segs, audioBytes seg ≠ []) :
    emitted = segs.map fun seg => ((audioBytes seg).length, audioBytes seg) := by
  induction h with
  | nil => rfl
  | @cons seg e segs emitted he _ ih =>
      rw [List.forall_mem_cons] at hne
      rw [Emits, if_neg hne.1] at he
      rw [List.map_cons, he, ih hne.2]

/-- **Segmentation of speech.**  For every list of chunks of at most `MGC_SEEK1` bytes, voiced or not,
`capture` emits the segments of `Segments.lean`, one by one, with their bytes and their length; the
open segment is in the buffer; what the segments hold, in order, is every chunk that arrived voiced
or while one was open, hence every voiced chunk; and no access leaves the buffer.  `capture` feeds
at least one byte, and the `percent(0, x)` of a chunk without bytes would not be voiced. -/
theorem capture_segments (block : Mem) (cs : List AudioChunk) (hcs : ∀ c ∈ cs, c.2.length ≤ mgcSeek1)
    (hvoiced : ∀ c ∈ cs, c.1 = true → c.2 ≠ []) :
    ∃ s emitted accesses, captureLoop block Capture.start cs = some (s, emitted, accesses) ∧
      emitted = (audioSegments [] cs).1.map (fun seg => ((audioBytes seg).length, audioBytes seg)) ∧
      Hears block (audioSegments [] cs).2 s ∧
      (audioSegments [] cs).1.flatten ++ (audioSegments [] cs).2 =
        Segments.kept (·.1) (sscStreamBlock - 1) [] cs ∧
      ((audioSegments [] cs).1.flatten ++ (audioSegments [] cs).2).filter (·.1) = cs.filter (·.1) ∧
      InBounds accesses := by
  obtain ⟨s, emitted, accesses, hloop, hseg, hrest, hb⟩ :=
    captureLoop_segments (hears_start block) .nil
      (segmentsFit_of_le hcs (Nat.mul_le_mul_left mgcSeek1 (by norm_num [sscStreamBlock])))
  have hemitted := emitted_eq_map hseg fun seg hmem => audioBytes_ne_nil hvoiced hmem
  exact ⟨s, emitted, accesses, hloop, hemitted, hrest, Segments.segments_flatten [] cs,
    Segments.filter_segments cs, hb⟩

/-- `capture_segments` on a voiced chunk, a second one and an unvoiced one, of one byte each. -/
theorem capture_segments_three : ∃ s emitted accesses,
    captureLoop Mem.zero Capture.start [(true, [1]), (true, [2]), (false, [3])] =
      some (s, emitted, accesses) ∧ emitted = [(3, [1, 2, 3])] ∧ InBounds accesses := by
  obtain ⟨s, emitted, accesses, hloop, hemitted, -, -, -, hb⟩ :=
    capture_segments Mem.zero [(true, [1]), (true, [2]), (false, [3])] (by decide) (by decide)
  refine ⟨s, emitted, accesses, hloop, hemitted.trans ?_, hb⟩
  have hsegs : (audioSegments [] [(true, [1]), (true, [2]), (false, [3])]).1 =
      [[(true, [1]), (true, [2]), (false, [3])]] := by decide
  rw [hsegs]
  rfl

/-! ### Chunks of any size -/

/-- Every copy of a run of `capture` stays inside the buffer, and the length handed to the callback is
the number of bytes copied since the segment began. -/
def CaptureBounded (block : Mem) (cs : List AudioChunk) : Prop :=
  ∃ s emitted accesses, captureLoop block Capture.start cs = some (s, emitted, accesses) ∧
    InBounds accesses ∧
    emitted.map Prod.fst = (audioSegments [] cs).1.map fun seg => (audioBytes seg).length

/-- A round makes the copies of `libmic_create` first. -/
theorem captureRound_accesses {block : Mem} {s : Capture} {ptr : SoundStruct}
    (hcur : s.current block = some ptr) (c : AudioChunk) : ∃ s' heard rest,
      captureRound block s c = some (s', heard) ∧
      heard.accesses = libmicCreateAccesses c.1 ptr c.2 ++ rest := by
  unfold captureRound
  rw [hcur]
  dsimp only
  split_ifs
  · exact ⟨_, _, _, rfl, rfl⟩
  · exact ⟨_, _, [], rfl, (List.append_nil _).symm⟩

/-- The first chunk that does not fit is copied past the end. -/
theorem captureLoop_overrun {block : Mem} {opened : List AudioChunk} {s : Capture}
    (h : Hears block opened s) (hopen : OpenShape opened)
    (hle : (audioBytes opened).length ≤ micSize) {cs : List AudioChunk}
    (hcs : ¬ SegmentsFit opened cs) {s' : Capture} {emitted : List (ℕ × List UInt8)}
    {accesses : List Access} (hrun : captureLoop block s cs = some (s', emitted, accesses)) :
    ¬ InBounds accesses := by
  induction cs generalizing opened s emitted accesses with
  | nil => exact absurd (by simpa [SegmentsFit, Segments.segments] using hle) hcs
  | cons c cs ih =>
      rw [captureLoop] at hrun
      by_cases hfits : ChunkFits opened c
      · obtain ⟨s₁, heard, hround, hs₁, -, -⟩ := captureRound_arrive h hopen hfits
        rw [hround, Option.map_eq_some_iff] at hrun
        obtain ⟨⟨s₂, emitted', accesses'⟩, hloop, heq⟩ := hrun
        obtain ⟨rfl, rfl, rfl⟩ : s₂ = s' ∧ _ = emitted ∧ _ = accesses := by simpa using heq
        have hrest : ¬ SegmentsFit (Segments.arrive (·.1) (sscStreamBlock - 1) opened c).1 cs :=
          fun hrest => hcs (segmentsFit_cons.mpr ⟨hfits, hrest⟩)
        have hle' : (audioBytes (Segments.arrive (·.1) (sscStreamBlock - 1) opened c).1).length ≤
            micSize := by
          obtain ⟨-, -, harr⟩ | ⟨hgoes, harr | harr⟩ :=
            @Segments.arrive_cases _ (fun c : AudioChunk => c.1) (sscStreamBlock - 1) opened c
          · rw [harr]
            exact Nat.zero_le _
          · rw [harr]
            exact hfits hgoes
          · rw [harr]
            exact Nat.zero_le _
        rw [inBounds_append]
        exact fun hb => ih hs₁ (arrive_open hopen c) hle' hrest hloop hb.2
      · obtain ⟨ptr, hcur, hf⟩ := h
        obtain ⟨s₁, heard, rest, hround, haccesses⟩ := captureRound_accesses hcur c
        rw [hround, Option.map_eq_some_iff] at hrun
        obtain ⟨⟨s₂, emitted', accesses'⟩, -, heq⟩ := hrun
        obtain ⟨-, -, rfl⟩ : s₂ = s' ∧ _ = emitted ∧ _ = accesses := by simpa using heq
        rw [haccesses, inBounds_append, inBounds_append]
        exact fun hb => hfits ((create_inBounds_iff hf).mp hb.1.1)

/-- The length is right when there is a byte. -/
theorem Emits.fst_eq_iff {seg : List AudioChunk} {e : ℕ × List UInt8} (h : Emits seg e)
    (hv : seg.filter (·.1) ≠ []) : e.1 = (audioBytes seg).length ↔ audioBytes seg ≠ [] := by
  unfold Emits at h
  by_cases hnil : audioBytes seg = []
  · rw [if_pos hnil] at h
    have hpos : 0 < mgcSeek1 * (seg.filter (·.1)).length :=
      Nat.mul_pos (by norm_num [mgcSeek1]) (List.length_pos_iff.mpr hv)
    rw [h, hnil, List.length_nil]
    exact ⟨fun h0 => absurd h0 hpos.ne', fun hne => absurd rfl hne⟩
  · rw [if_neg hnil] at h
    exact ⟨fun _ => hnil, fun _ => congrArg Prod.fst h⟩

theorem emitted_lengths_iff {segs : List (List AudioChunk)} {emitted : List (ℕ × List UInt8)}
    (h : List.Forall₂ Emits segs emitted) (hv : ∀ seg ∈ segs, seg.filter (·.1) ≠ []) :
    emitted.map Prod.fst = segs.map (fun seg => (audioBytes seg).length) ↔
      ∀ seg ∈ segs, audioBytes seg ≠ [] := by
  induction h with
  | nil => simp
  | cons he hrest ih =>
      rw [List.forall_mem_cons] at hv ⊢
      rw [List.map_cons, List.map_cons, List.cons.injEq, he.fst_eq_iff hv.1, ih hv.2]

/-- `capture` is bounded exactly when the segments fit the buffer and have bytes. -/
theorem captureBounded_iff_fit (block : Mem) (cs : List AudioChunk) :
    CaptureBounded block cs ↔
      SegmentsFit [] cs ∧ ∀ seg ∈ (audioSegments [] cs).1, audioBytes seg ≠ [] := by
  constructor
  · rintro ⟨s, emitted, accesses, hloop, hb, hlengths⟩
    have hfit : SegmentsFit [] cs := by
      by_contra hfit
      exact captureLoop_overrun (hears_start block) .nil (Nat.zero_le _) hfit hloop hb
    obtain ⟨s', emitted', accesses', hloop', hseg, -, -⟩ :=
      captureLoop_segments (hears_start block) .nil hfit
    obtain ⟨-, rfl, -⟩ : s = s' ∧ emitted = emitted' ∧ accesses = accesses' := by
      simpa [hloop] using hloop'
    exact ⟨hfit, (emitted_lengths_iff hseg (audioSegments_voiced cs)).mp hlengths⟩
  · rintro ⟨hfit, hbytes⟩
    obtain ⟨s, emitted, accesses, hloop, hseg, -, hb⟩ :=
      captureLoop_segments (hears_start block) .nil hfit
    exact ⟨s, emitted, accesses, hloop, hb,
      (emitted_lengths_iff hseg (audioSegments_voiced cs)).mpr hbytes⟩

/-- As many voiced chunks of `n` bytes as one segment may have. -/
def fullSegment (n : ℕ) : List AudioChunk :=
  List.replicate (sscStreamBlock - 1) (true, List.replicate n 0x64)

theorem length_audioBytes_fullSegment (n : ℕ) :
    (audioBytes (fullSegment n)).length = (sscStreamBlock - 1) * n := by
  simp [audioBytes, fullSegment]

theorem audioSegments_fullSegment (n : ℕ) :
    audioSegments [] (fullSegment n) = ([fullSegment n], []) :=
  @Segments.segments_limit _ (fun c : AudioChunk => c.1) (sscStreamBlock - 1)
    (true, List.replicate n 0x64) rfl (by decide)

theorem fullSegment_fits_iff {n : ℕ} :
    SegmentsFit [] (fullSegment n) ↔ (sscStreamBlock - 1) * n ≤ micSize := by
  unfold SegmentsFit
  rw [audioSegments_fullSegment, ← length_audioBytes_fullSegment]
  simp [audioBytes]

/-- `capture` is bounded exactly when no segment, the open one included, has more bytes than the
buffer, and every closed one has a byte.  Chunks of one size `n` are safe, whichever of them are
voiced, exactly when 23 of them fit. -/
theorem captureBounded_iff (block : Mem) :
    (∀ cs, CaptureBounded block cs ↔
      SegmentsFit [] cs ∧ ∀ seg ∈ (audioSegments [] cs).1, audioBytes seg ≠ []) ∧
    ∀ n, 0 < n → ((∀ cs : List AudioChunk, (∀ c ∈ cs, c.2.length = n) → CaptureBounded block cs) ↔
      (sscStreamBlock - 1) * n ≤ micSize) := by
  refine ⟨captureBounded_iff_fit block, fun n hn => ⟨fun hall => ?_, fun hle cs hcs => ?_⟩⟩
  · have hmem : ∀ c ∈ fullSegment n, c.2.length = n := fun c hc => by
      rw [List.eq_of_mem_replicate hc, List.length_replicate]
    obtain ⟨hfit, -⟩ := (captureBounded_iff_fit block _).mp (hall _ hmem)
    exact fullSegment_fits_iff.mp hfit
  · refine (captureBounded_iff_fit block cs).mpr ⟨segmentsFit_of_le (fun c hc => (hcs c hc).le)
      (by rwa [Nat.mul_comm]), fun seg hseg => ?_⟩
    refine audioBytes_ne_nil (fun c hc _ hnil => ?_) hseg
    rw [← hcs c hc, hnil] at hn
    exact absurd hn (lt_irrefl 0)

/-- Chunks of `MGC_SEEK1` bytes are safe. -/
theorem captureBounded_mgcSeek1 : CaptureBounded Mem.zero (fullSegment mgcSeek1) := by
  refine ((captureBounded_iff Mem.zero).2 mgcSeek1 (by norm_num [mgcSeek1])).mpr
    (by norm_num [micSize, mgcSeek1, sscStreamBlock]) _ fun c hc => ?_
  rw [List.eq_of_mem_replicate hc, List.length_replicate]

/-- `chunk_bytes`, for a period of `chunkSize` frames. -/
def chunkBytes (chunkSize bitsPerFrame : ℕ) : ℕ := chunkSize * bitsPerFrame / 8

/-- Periods of 8192 frames, of two channels with 16 bits. -/
theorem not_captureBounded_8192 :
    ¬ CaptureBounded Mem.zero (fullSegment (chunkBytes 8192 (16 * 2))) := by
  intro h
  have hle := fullSegment_fits_iff.mp ((captureBounded_iff_fit Mem.zero _).mp h).1
  norm_num [micSize, mgcSeek1, sscStreamBlock, chunkBytes] at hle

end Carroll
