import Carroll.MsxFile

/-! # The header of a container

What `libmsx_encode` stores in the `libc0_t` it makes, and what it leaves there.

* Each of the arrays `mhash.hash`, `skey.key` and `ckey.key` is filled to its end and then
  terminated: the NUL goes behind the array.  Given no bytes `libc0_encrypt` fills none of them, and
  frees two pointers that it has not set (`encodeBounded_iff`).
* The block of the header comes from `malloc` and is not cleared, and `libmsx_encode_file` writes it
  as it is.  Its padding and the fields that nothing sets hold what was in memory before
  (`heapIndependent_iff`). -/

namespace Carroll

/-! ### Stores into the fields -/

/-- A store into a field of `libc0_t`: where the field is, its size, and what is stored from which
index on. -/
structure FieldStore where
  base : ℕ
  size : ℕ
  index : ℕ
  bytes : List UInt8

namespace FieldStore

/-- The store as it is made: it may hit the next field. -/
def apply (img : Mem) (s : FieldStore) : Mem := img.poke (s.base + s.index) s.bytes

/-- The store as an access to its field. -/
def access (s : FieldStore) : Access := ⟨s.size, s.index, s.bytes.length⟩

end FieldStore

/-- The stores of `libmsx_encode` into `private_key` and `public_key`. -/
def digestStores (P : Prims) (keys : Mem) : List FieldStore :=
  [⟨12, 32, 0, P.sha256 lexneCertPrivateKey⟩, ⟨52, 32, 0, P.sha256 (keyWindow keys)⟩]

/-- The stores of `libc0_encrypt` up to `ckey`. -/
def keyStores (P : Prims) (inp : List UInt8) : List FieldStore :=
  [⟨240, 4, 0, Mem.bytes32 0⟩,
    ⟨92, 68, 0, List.replicate 68 0⟩,
    ⟨160, 36, 0, List.replicate 36 0⟩,
    ⟨92, 64, 0, (bin2hex Mem.zero (P.sha256 inp)).peek 0 64⟩,
    ⟨156, 4, 0, Mem.bytes32 64⟩,
    ⟨92, 64, 64, [0]⟩,
    ⟨160, 32, 0, (bin2hex Mem.zero (P.md5 inp)).peek 0 32⟩,
    ⟨192, 4, 0, Mem.bytes32 32⟩,
    ⟨160, 32, 32, [0]⟩,
    ⟨196, 32, 0, cstream⟩,
    ⟨228, 4, 0, Mem.bytes32 32⟩,
    ⟨196, 32, 32, [0]⟩]

/-- They are what `setKeys` does. -/
theorem setKeys_img (P : Prims) (c : Libc0) (inp : List UInt8) :
    (c.setKeys P inp).img = (keyStores P inp).foldl FieldStore.apply c.img := by
  simp only [Libc0.setKeys, Libc0.store_img, Libc0.store32_img, Mem.put32, keyStores, List.foldl_cons,
    List.foldl_nil, FieldStore.apply, Nat.add_zero, Nat.reduceAdd]

/-- The stores of `libmsx_encode` into the digests and keys of the header. -/
def encodeStores (P : Prims) (env : EncodeEnv) (inp : List UInt8) (keys : Mem) : List FieldStore :=
  if env.ctx.isNone then []
  else digestStores P keys ++ if env.buffer.isNone ∨ inp = [] then [] else keyStores P inp

/-- `libmsx_encode` stays inside its blocks and inside the arrays of the header. -/
def EncodeBounded (P : Prims) (env : EncodeEnv) (inp : List UInt8) (keys : Mem) : Prop :=
  EncodeInBounds P env inp keys ∧ InBounds ((encodeStores P env inp keys).map FieldStore.access)

theorem inBounds_digestStores {P : Prims} (hP : P.Lawful) (keys : Mem) :
    InBounds ((digestStores P keys).map FieldStore.access) := by
  simp [digestStores, FieldStore.access, hP.length_sha256]

/-- The NUL behind `mhash.hash`. -/
theorem not_inBounds_keyStores (P : Prims) (inp : List UInt8) :
    ¬ InBounds ((keyStores P inp).map FieldStore.access) := by
  intro h
  have hmem : (⟨92, 64, 64, [0]⟩ : FieldStore) ∈ keyStores P inp := by simp [keyStores]
  exact absurd (h _ (List.mem_map_of_mem hmem)) (by decide)

/-- `libmsx_encode` gets to `libc0_encrypt`. -/
def CallsEncrypt (env : EncodeEnv) : Prop := env.ctx.isSome ∧ env.buffer.isSome

theorem libmsxEncode_isSome_iff (P : Prims) (env : EncodeEnv) (inp : List UInt8) (keys : Mem) :
    (libmsxEncode P env inp keys 0).1.isSome ↔ CallsEncrypt env := by
  unfold libmsxEncode CallsEncrypt
  cases env.ctx with
  | none => simp
  | some ctx => cases env.buffer <;> simp

theorem encodeInBounds_of_not_calls (P : Prims) {env : EncodeEnv} (inp : List UInt8) (keys : Mem)
    (h : ¬ CallsEncrypt env) : EncodeInBounds P env inp keys :=
  fun _ hc => absurd ((libmsxEncode_isSome_iff P env inp keys).mp (by simp [hc])) h

/-- Without content `libc0_encrypt` only frees the two pointers that it has not set. -/
theorem encodeInBounds_nil_iff (P : Prims) {env : EncodeEnv} (keys : Mem) (h : CallsEncrypt env) :
    EncodeInBounds P env [] keys ↔ env.encrypt.unset = (0, 0) := by
  obtain ⟨c, hc⟩ := Option.isSome_iff_exists.mp ((libmsxEncode_isSome_iff P env [] keys).mpr h)
  rw [EncodeInBounds, hc]
  simp only [Option.some.injEq, forall_eq']
  rw [libmsxEncodeAccesses, libc0EncryptAccesses, if_pos rfl, inBounds_cons, inBounds_append,
    inBounds_cleanUnset, inBounds_cleanUnset, Prod.ext_iff]
  exact and_iff_right (Nat.zero_le _)

theorem inBounds_encodeStores_iff {P : Prims} (hP : P.Lawful) (env : EncodeEnv) (inp : List UInt8)
    (keys : Mem) :
    InBounds ((encodeStores P env inp keys).map FieldStore.access) ↔ (CallsEncrypt env → inp = []) := by
  unfold encodeStores CallsEncrypt
  cases env.ctx with
  | none => simp
  | some ctx =>
  cases env.buffer with
  | none => simpa using inBounds_digestStores hP keys
  | some buffer =>
  by_cases hinp : inp = []
  · simpa [hinp] using inBounds_digestStores hP keys
  · simpa [hinp] using fun _ => not_inBounds_keyStores P inp

/-- `libmsx_encode` stays inside its blocks and the arrays of the header exactly when `libc0_encrypt`
is not called, or is given no content and its unset pointers happen to be NULL: with content the NUL
behind `mhash.hash`, at least, leaves its array.  The blocks alone suffice when the compressed content
is not too long and the content is not near 2^32 bytes.  The stores that count are those that change
the header. -/
theorem encodeBounded_iff {P : Prims} (hP : P.Lawful) (keys : Mem) :
    (∀ env inp, EncodeBounded P env inp keys ↔
      (CallsEncrypt env → inp = [] ∧ env.encrypt.unset = (0, 0))) ∧
    (∀ env inp, env.Succeeds → inp ≠ [] → inp.length < 2 ^ 32 →
      (EncodeInBounds P env inp keys ↔ FitsBlocks P inp)) ∧
    ∀ c inp, (Libc0.setKeys P c inp).img = (keyStores P inp).foldl FieldStore.apply c.img := by
  refine ⟨fun env inp => ?_, fun env inp henv hne hlen => encodeInBounds_iff hP henv keys hne hlen,
    setKeys_img P⟩
  rw [EncodeBounded, inBounds_encodeStores_iff hP]
  by_cases hcalls : CallsEncrypt env
  · constructor
    · rintro ⟨hblocks, hstores⟩ -
      obtain rfl := hstores hcalls
      exact ⟨rfl, (encodeInBounds_nil_iff P keys hcalls).mp hblocks⟩
    · intro h
      obtain ⟨rfl, hunset⟩ := h hcalls
      exact ⟨(encodeInBounds_nil_iff P keys hcalls).mpr hunset, fun _ => rfl⟩
  · exact ⟨fun _ hc => absurd hc hcalls,
      fun _ => ⟨encodeInBounds_of_not_calls P inp keys hcalls, fun hc => absurd hc hcalls⟩⟩

/-- `encodeBounded_iff` for a text whose buffer could not be allocated, and for one whose blocks are
respected. -/
theorem encodeBounded_unallocated :
    EncodeBounded samplePrims { EncodeEnv.zero with buffer := none } sampleText Mem.zero ∧
    EncodeInBounds samplePrims EncodeEnv.zero sampleText Mem.zero := by
  obtain ⟨hboth, hblocks, -⟩ := encodeBounded_iff samplePrims_lawful Mem.zero
  refine ⟨(hboth _ _).mpr fun h => absurd h.2 Bool.false_ne_true, ?_⟩
  have henv : EncodeEnv.zero.Succeeds := ⟨_, _, _, _, _, _, rfl⟩
  exact (hblocks _ _ henv (by decide) (by decide)).mpr ⟨by decide, by decide⟩

/-- A short text: the NUL goes behind `mhash.hash`. -/
theorem not_encodeBounded_sampleText :
    ¬ EncodeBounded samplePrims EncodeEnv.zero sampleText Mem.zero := by
  rintro ⟨-, hstores⟩
  have hne : ¬ (EncodeEnv.zero.buffer.isNone = true ∨ sampleText = []) := by
    simp [EncodeEnv.zero, sampleText]
  rw [encodeStores, if_neg (by simp [EncodeEnv.zero]), if_neg hne, List.map_append,
    inBounds_append] at hstores
  exact not_inBounds_keyStores samplePrims sampleText hstores.2

/-! ### What was in memory before -/

/-- What the blocks that `malloc` returns to `libmsx_encode` hold. -/
structure EncodeHeap where
  ctx : Mem
  buffer : Mem
  zctwo : Mem
  rbuf : Mem

/-- The blocks of all zero bytes. -/
def EncodeHeap.zero : EncodeHeap := ⟨Mem.zero, Mem.zero, Mem.zero, Mem.zero⟩

/-- The same outcomes, with other bytes in the blocks. -/
def EncodeEnv.withHeap (env : EncodeEnv) (h : EncodeHeap) : EncodeEnv where
  ctx := env.ctx.map fun _ => h.ctx
  buffer := env.buffer.map fun b => (b.1, h.buffer)
  encrypt := ⟨env.encrypt.zctwo.map fun _ => h.zctwo, env.encrypt.zlib,
    env.encrypt.rbuf.map fun _ => h.rbuf, env.encrypt.unset⟩

/-- `libmsx_encode_file` with these bytes in its blocks: the file afterwards. -/
def encodedFile (P : Prims) (env : EncodeFileEnv) (file inp : List UInt8) (keys : Mem) (seek : ℕ)
    (h : EncodeHeap) : List UInt8 :=
  (libmsxEncodeFile P { env with encode := env.encode.withHeap h } file inp keys seek).1

/-- The file does not depend on what was in memory before. -/
def HeapIndependent (P : Prims) (env : EncodeFileEnv) (file inp : List UInt8) (keys : Mem)
    (seek : ℕ) : Prop :=
  ∀ h h', encodedFile P env file inp keys seek h = encodedFile P env file inp keys seek h'

/-- `number` is set by `libc0_encrypt`: there is content, and the block for its compressed form. -/
def SetsNumber (env : EncryptEnv) (inp : List UInt8) : Prop := inp ≠ [] ∧ env.zctwo ≠ none

/-- `libmsx_encode_file` gets to its writes, unless `*length` is 0. -/
structure ReachesStore (env : EncodeFileEnv) : Prop where
  opened : env.opened = true
  ctx : env.encode.ctx ≠ none
  buffer : env.encode.buffer ≠ none
  fchmod : env.fchmod = true
  fstat : env.fstat = true
  ftruncate : env.store.ftruncate = true

theorem destLen_zcompress2_le (P : Prims) (zlib : Bool) (inp : List UInt8) :
    (zcompress2 P zlib (zctwoLength inp.length) inp).destLen ≤ 42950056 := by
  have hle := zctwoLength_le inp.length
  unfold zcompress2
  split_ifs with hinit hfits
  · exact hle
  · exact hfits.trans hle
  · exact hle

/-- `number` as `libc0_encrypt` leaves it. -/
theorem libc0Encrypt_number (P : Prims) (env : EncryptEnv) (c : Libc0) (inp : List UInt8) :
    (SetsNumber env inp → (libc0Encrypt P env c inp).number =
      cipherLength (zcompress2 P env.zlib (zctwoLength inp.length) inp).destLen) ∧
    (¬ SetsNumber env inp → (libc0Encrypt P env c inp).number = c.number) := by
  have hle := destLen_zcompress2_le P env.zlib inp
  have hkeys : (c.setKeys P inp).number = c.number :=
    Mem.get32_congr (Libc0.setKeys_tail P c inp (.inl ⟨le_rfl, by norm_num⟩))
  have hsettle : ∀ d : Libc0, d.settle.number = d.number :=
    fun d => Mem.get32_congr (Libc0.settle_peek d (.inl (by norm_num)))
  have hfinal : ∀ d : Libc0, d.setLengths.settle.number = d.number :=
    fun d => Mem.get32_congr (Libc0.final_peek d 232 4 (.inl (by norm_num)))
  have hset := fun d : Libc0 => d.setSizes_number_of_le inp.length hle
  unfold libc0Encrypt SetsNumber
  obtain ⟨zctwo, zlib, rbuf, unset⟩ := env
  by_cases hne : inp = []
  · simp [hne, hsettle]
  · cases zctwo with
    | none => simp [hne, hsettle, hkeys]
    | some zctwo =>
        cases rbuf with
        | none => simp [hne, hsettle, hset]
        | some rbuf =>
            simp only [hne, ↓reduceIte, hfinal]
            exact ⟨fun _ => hset _, fun h => absurd ⟨hne, Option.some_ne_none _⟩ h⟩

/-- The container that `libmsx_encode` makes from blocks that held `h`. -/
theorem libmsxEncode_withHeap {P : Prims} (hP : P.Lawful) {env : EncodeEnv} (hctx : env.ctx ≠ none)
    (hbuffer : env.buffer ≠ none) (inp : List UInt8) (keys : Mem) (h : EncodeHeap) :
    ∃ c : Libc0, libmsxEncode P (env.withHeap h) inp keys 0 = (some c, u32 (c.number + Libc0.size)) ∧
      c.img.peek 0 4 = msxMagic ++ [h.ctx 3] ∧
      (SetsNumber env.encrypt inp → c.number =
        cipherLength (zcompress2 P env.encrypt.zlib (zctwoLength inp.length) inp).destLen) ∧
      (¬ SetsNumber env.encrypt inp → c.number = h.ctx.get32 232) := by
  obtain ⟨ctx, hctx⟩ := Option.ne_none_iff_exists'.mp hctx
  obtain ⟨⟨addr, buffer⟩, hbuffer⟩ := Option.ne_none_iff_exists'.mp hbuffer
  have hsets : SetsNumber (env.withHeap h).encrypt inp ↔ SetsNumber env.encrypt inp := by
    simp [SetsNumber, EncodeEnv.withHeap]
  obtain ⟨c, hc⟩ : ∃ c, libmsxEncode P (env.withHeap h) inp keys 0 =
      (some c, u32 (c.number + Libc0.size)) := by
    simp [libmsxEncode, EncodeEnv.withHeap, hctx, hbuffer]
  have hcfst := congrArg Prod.fst hc
  have hmagic := (libmsxEncode_header hP hcfst).1
  have hblock : (env.withHeap h).ctx = some h.ctx := by simp [EncodeEnv.withHeap, hctx]
  have huninit := libmsxEncode_uninit hcfst hblock
  obtain ⟨c₀, img, himg, hencrypt, -, hpeek⟩ := libmsxEncode_some hcfst
  obtain rfl : h.ctx = img := by simpa [EncodeEnv.withHeap, hctx] using himg
  have hnumber : c₀.number = h.ctx.get32 232 := by
    refine Mem.get32_congr ((Mem.peek_mono hpeek (by norm_num) (by norm_num)).trans ?_)
    rw [Mem.peek_poke_disjoint _ _ (.inr (by rw [hP.length_sha256]; norm_num)),
      Mem.peek_poke_disjoint _ _ (.inr (by rw [hP.length_sha256]; norm_num))]
  obtain ⟨hset, hkeep⟩ := libc0Encrypt_number P (env.withHeap h).encrypt c₀ inp
  rw [← hencrypt] at hset hkeep
  refine ⟨c, hc, ?_, fun hs => hset (hsets.mpr hs), fun hs => (hkeep (mt hsets.mp hs)).trans hnumber⟩
  rw [show 4 = 3 + 1 from rfl, Mem.peek_add, ← Libc0.magic, hmagic]
  exact congrArg _ (Mem.peek_mono huninit le_rfl (by norm_num))

/-- What `storeContainer` writes first when the write of the header is not cut within `MSX`. -/
theorem storeContainer_padding {env : StoreEnv} (hcut : env.ftruncate = true) {k : ℕ}
    (hheader : env.header = some k) (hk : 3 < k) (file : List UInt8) (c : Libc0) (seek : ℕ) :
    (storeContainer env file c seek).1.take (seek + 4) = List.replicate seek 0 ++ c.img.peek 0 4 := by
  have hdata : (c.img.peek 0 Libc0.size).take k = c.img.peek 0 4 ++ (c.img.peek 4 268).take (k - 4) := by
    rw [show Libc0.size = 4 + 268 from rfl, Mem.peek_add, List.take_append, Mem.length_peek,
      List.take_of_length_le (by simpa using Nat.succ_le_of_lt hk)]
  have hne : (c.img.peek 0 Libc0.size).take k ≠ [] := by
    rw [hdata]
    exact List.append_ne_nil_of_left_ne_nil (c.img.peek_ne_nil 0 (by norm_num)) _
  have hfirst : fwrite [] seek (c.img.peek 0 Libc0.size) env.header =
      (List.replicate seek 0 ++ (c.img.peek 0 Libc0.size).take k, true) := by
    rw [hheader, fwrite, writeAt_nil seek hne, decide_eq_true hne]
  have htake : (List.replicate seek 0 ++ (c.img.peek 0 Libc0.size).take k).take (seek + 4) =
      List.replicate seek 0 ++ c.img.peek 0 4 := by
    rw [hdata, ← List.append_assoc, List.take_left' (by simp)]
  have hlen : seek + 4 ≤ (List.replicate seek 0 ++ (c.img.peek 0 Libc0.size).take k).length := by
    rw [hdata]
    simp
  rw [storeContainer, hcut, hfirst]
  simp only [Bool.not_true, Bool.false_eq_true, ↓reduceIte]
  cases env.body with
  | none => exact htake
  | some j =>
      rw [fwrite, writeAt_take (by unfold Libc0.size; omega) hlen]
      exact htake

theorem storeContainer_of_header {env : StoreEnv} (hcut : env.ftruncate = true)
    (hheader : env.header = none ∨ env.header = some 0) (file : List UInt8) (c : Libc0) (seek : ℕ) :
    (storeContainer env file c seek).1 = [] := by
  rw [storeContainer, hcut]
  rcases hheader with h | h <;> simp [h, fwrite, writeAt]

/-- The header is not written: the run ends before its writes, or the first of them fails, and
`*length` does not decide whether it gets there. -/
def HeaderUnwritten (env : EncodeFileEnv) (file inp : List UInt8) : Prop :=
  ¬ ReachesStore env ∨ (env.store.header = none ∨ env.store.header = some 0) ∧
    (file = [] ∨ SetsNumber env.encode.encrypt inp)

section file
variable {P : Prims} {env : EncodeFileEnv} (file inp : List UInt8) (keys : Mem) (seek : ℕ)

theorem encodedFile_of_not_reaches (hr : ¬ ReachesStore env) (h : EncodeHeap) :
    encodedFile P env file inp keys seek h = file := by
  unfold encodedFile libmsxEncodeFile
  split
  · rfl
  · rename_i hopened
    split
    · rfl
    · rename_i c length hencode
      have hctx : env.encode.ctx ≠ none := fun h0 => by
        simp [libmsxEncode, EncodeEnv.withHeap, h0] at hencode
      have hbuffer : env.encode.buffer ≠ none := fun h0 => by
        cases hc : env.encode.ctx <;> simp [libmsxEncode, EncodeEnv.withHeap, h0, hc] at hencode
      split_ifs with hlen hfchmod hfstat
      · rfl
      · rfl
      · rfl
      · unfold storeContainer
        split_ifs with hcut
        · rfl
        · exact absurd ⟨by simpa using hopened, hctx, hbuffer, by simpa using hfchmod,
            by simpa using hfstat, by simpa using hcut⟩ hr

/-- A run that gets to the writes, if `*length` is not 0. -/
theorem encodedFile_of_reaches (hP : P.Lawful) (hr : ReachesStore env) (h : EncodeHeap) :
    ∃ c : Libc0, c.img.peek 0 4 = msxMagic ++ [h.ctx 3] ∧
      (SetsNumber env.encode.encrypt inp → u32 (c.number + Libc0.size) ≠ 0) ∧
      (¬ SetsNumber env.encode.encrypt inp → c.number = h.ctx.get32 232) ∧
      encodedFile P env file inp keys seek h =
        if u32 (c.number + Libc0.size) = 0 then file else (storeContainer env.store file c seek).1 := by
  obtain ⟨c, hc, hhead, hset, hkeep⟩ := libmsxEncode_withHeap hP hr.ctx hr.buffer inp keys h
  refine ⟨c, hhead, fun hs => ?_, hkeep, ?_⟩
  · have hle := cipherLength_le (zcompress2 P env.encode.encrypt.zlib (zctwoLength inp.length) inp).destLen
    have hdest := destLen_zcompress2_le P env.encode.encrypt.zlib inp
    rw [hset hs, u32_of_lt (by unfold Libc0.size; omega)]
    exact Nat.succ_ne_zero _
  · unfold encodedFile libmsxEncodeFile
    rw [hc]
    simp only [hr.opened, hr.fchmod, hr.fstat, Bool.not_true, Bool.false_eq_true, ↓reduceIte]
    split_ifs <;> rfl

/-- The byte behind `MSX` is what was in memory. -/
theorem encodedFile_take (hP : P.Lawful) (hr : ReachesStore env) {k : ℕ}
    (hheader : env.store.header = some k) (hk : 3 < k) {h : EncodeHeap}
    (hzero : h.ctx.get32 232 = 0) :
    (encodedFile P env file inp keys seek h).take (seek + 4) =
      List.replicate seek 0 ++ (msxMagic ++ [h.ctx 3]) := by
  obtain ⟨c, hhead, hset, hkeep, hfile⟩ := encodedFile_of_reaches file inp keys seek hP hr h
  have hlength : u32 (c.number + Libc0.size) ≠ 0 := by
    by_cases hs : SetsNumber env.encode.encrypt inp
    · exact hset hs
    · rw [hkeep hs, hzero]
      decide
  rw [hfile, if_neg hlength, storeContainer_padding hr.ftruncate hheader hk, hhead]

end file

section independent
variable {P : Prims} {env : EncodeFileEnv} {file inp : List UInt8} {keys : Mem} {seek : ℕ}

theorem heapIndependent_of_unwritten (hP : P.Lawful) (h : HeaderUnwritten env file inp) :
    HeapIndependent P env file inp keys seek := by
  intro h₁ h₂
  by_cases hr : ReachesStore env
  · obtain ⟨hheader, hfile⟩ := h.resolve_left (not_not_intro hr)
    have hrun : ∀ h', encodedFile P env file inp keys seek h' = [] := by
      intro h'
      obtain ⟨c, -, hset, -, heq⟩ := encodedFile_of_reaches file inp keys seek hP hr h'
      rw [heq, storeContainer_of_header hr.ftruncate hheader]
      rcases hfile with rfl | hs
      · exact ite_self _
      · exact if_neg (hset hs)
    rw [hrun h₁, hrun h₂]
  · rw [encodedFile_of_not_reaches file inp keys seek hr, encodedFile_of_not_reaches file inp keys seek hr]

/-- When `number` is not set, the old content of its block decides whether the file is emptied. -/
theorem not_heapIndependent_of_number (hP : P.Lawful) (hr : ReachesStore env)
    (hheader : env.store.header = none ∨ env.store.header = some 0) (hne : file ≠ [])
    (hset : ¬ SetsNumber env.encode.encrypt inp) : ¬ HeapIndependent P env file inp keys seek := by
  intro hind
  have hmax : (Mem.zero.put32 232 (2 ^ 32 - 272)).get32 232 = 2 ^ 32 - 272 := Mem.get32_put32 _ _ _
  have h := hind EncodeHeap.zero { EncodeHeap.zero with ctx := Mem.zero.put32 232 (2 ^ 32 - 272) }
  obtain ⟨c, -, -, hnumber, hfile⟩ := encodedFile_of_reaches file inp keys seek hP hr EncodeHeap.zero
  obtain ⟨c', -, -, hnumber', hfile'⟩ := encodedFile_of_reaches file inp keys seek hP hr
    { EncodeHeap.zero with ctx := Mem.zero.put32 232 (2 ^ 32 - 272) }
  have hlength : u32 (c.number + Libc0.size) ≠ 0 := by
    rw [hnumber hset]
    decide
  have hlength' : u32 (c'.number + Libc0.size) = 0 := by
    rw [hnumber' hset, hmax]
    rfl
  rw [hfile, hfile', if_neg hlength, if_pos hlength', storeContainer_of_header hr.ftruncate hheader] at h
  exact hne h.symm

/-- The padding behind `MSX` is written as it is. -/
theorem not_heapIndependent_of_padding (hP : P.Lawful) (hr : ReachesStore env) {k : ℕ}
    (hheader : env.store.header = some k) (hk : 3 < k) :
    ¬ HeapIndependent P env file inp keys seek := by
  intro hind
  have hzero : (Mem.zero.poke 3 [1]).get32 232 = 0 := rfl
  have h := congrArg (List.take (seek + 4))
    (hind EncodeHeap.zero { EncodeHeap.zero with ctx := Mem.zero.poke 3 [1] })
  rw [encodedFile_take file inp keys seek hP hr hheader hk rfl,
    encodedFile_take file inp keys seek hP hr hheader hk hzero] at h
  exact absurd (List.append_cancel_left h) (by decide)

/-- `libmsx_encode_file`, its first write not cut within `MSX`, leaves the same file whatever was in
memory exactly when it does not write the header. -/
theorem heapIndependent_iff (hP : P.Lawful)
    (hcut : ∀ k, env.store.header = some k → k = 0 ∨ 3 < k) :
    HeapIndependent P env file inp keys seek ↔ HeaderUnwritten env file inp := by
  refine ⟨fun hind => ?_, heapIndependent_of_unwritten hP⟩
  by_contra hno
  rw [HeaderUnwritten, not_or, not_not] at hno
  obtain ⟨hr, hno⟩ := hno
  by_cases hheader : env.store.header = none ∨ env.store.header = some 0
  · rw [not_and, not_or] at hno
    obtain ⟨hne, hset⟩ := hno hheader
    exact not_heapIndependent_of_number hP hr hheader hne hset hind
  · rw [not_or] at hheader
    obtain ⟨k, hk⟩ := Option.ne_none_iff_exists'.mp hheader.1
    have hne : k ≠ 0 := fun h0 => hheader.2 (h0 ▸ hk)
    exact not_heapIndependent_of_padding hP hr hk ((hcut k hk).resolve_left hne) hind

end independent

/-- All steps succeed up to the first write, which fails. -/
def EncodeFileEnv.headerFails : EncodeFileEnv :=
  { EncodeFileEnv.full with store := ⟨true, none, some maxTransfer⟩ }

/-- `heapIndependent_iff` for such a run on an empty file. -/
theorem heapIndependent_headerFails :
    ReachesStore EncodeFileEnv.headerFails ∧
    SetsNumber EncodeFileEnv.headerFails.encode.encrypt sampleText ∧
    HeapIndependent samplePrims EncodeFileEnv.headerFails [] sampleText Mem.zero 0 :=
  ⟨⟨rfl, nofun, nofun, rfl, rfl, rfl⟩, ⟨by decide, nofun⟩,
    (heapIndependent_iff samplePrims_lawful (by rintro k ⟨⟩)).mpr (.inr ⟨.inl rfl, .inl rfl⟩)⟩

/-- A run in which all steps succeed: the file holds bytes of the memory. -/
theorem not_heapIndependent_full :
    ¬ HeapIndependent samplePrims EncodeFileEnv.full [] sampleText Mem.zero 0 := by
  have hr : ReachesStore EncodeFileEnv.full := ⟨rfl, nofun, nofun, rfl, rfl, rfl⟩
  exact not_heapIndependent_of_padding samplePrims_lawful hr rfl (by decide)

end Carroll
