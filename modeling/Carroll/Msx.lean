import Carroll.Libc0

/-! # `libmsx_encode` and `libmsx_decode`

The functions of `libmsx.c`: a container is a `libc0_t` that also holds the SHA-256 digests of a
fixed key and of the passphrase, and decoding compares them before it decrypts.

* The passphrase is given by the memory at its pointer.  `SHA256_Update(&ctx, keys, sizeof(keys))`
  passes the size of the pointer, so what is hashed is the eight bytes at that address
  (`keyWindow`): a longer passphrase is cut off, and after a shorter one come its NUL and
  whatever follows it in memory.
* The digests are compared with `strncmp`, which stops at a common NUL byte.
* `libmsx_decode` does not look at the result of `libc0_decrypt`.
* The two calls of `bin2hex` in `libmsx_decode` fill (and overrun) local arrays that nothing reads
  afterwards, and are left out here; `Hostile.lean` has their accesses. -/

namespace Carroll

/-- `LEXNE_CERT_PRIVATE_KEY`. -/
def lexneCertPrivateKey : List UInt8 :=
  [0x6c, 0x65, 0x78, 0x6e, 0x65, 0x20, 0x32, 0x30, 0x30, 0x38, 0x20, 0x69, 0x6e, 0x63, 0x2c, 0x2e]

/-- `MSX`. -/
def msxMagic : List UInt8 := [0x4d, 0x53, 0x58]

/-- The bytes hashed for a passphrase: `sizeof(keys)` bytes at `keys`. -/
def keyWindow (keys : Mem) : List UInt8 := keys.peek 0 8

/-- Memory at the pointer to a NUL-terminated passphrase, with `around` behind it. -/
def passphrase (pass : List UInt8) (around : Mem) : Mem := around.poke 0 (pass ++ [0])

/-- Outcome of the allocations of `libmsx_encode`; a block for `ctx->buffer` comes with the eight
bytes of its address. -/
structure EncodeEnv where
  ctx : Option Mem
  buffer : Option (Vector UInt8 8 × Mem)
  encrypt : EncryptEnv

/-- `libmsx_encode(buffer, len, keys, length)`: the container and `*length`. -/
def libmsxEncode (P : Prims) (env : EncodeEnv) (inp : List UInt8) (keys : Mem) (length : ℕ) :
    Option Libc0 × ℕ :=
  match env.ctx with
  | none => (none, length)
  | some img =>
      let img := (img.poke 12 (P.sha256 lexneCertPrivateKey)).poke 52 (P.sha256 (keyWindow keys))
      match env.buffer with
      | none => (none, length)
      | some (addr, buffer) =>
          let c : Libc0 :=
            ⟨img.poke 264 addr.toList, buffer.poke 0 (List.replicate inp.length 0)⟩
          let c := c.store 0 msxMagic
          let c := libc0Encrypt P env.encrypt c inp
          (some c, u32 (c.number + Libc0.size))

/-- The accesses of a `libmsx_encode` that made the container `c` to its blocks. -/
def libmsxEncodeAccesses (P : Prims) (env : EncodeEnv) (inp : List UInt8) (c : Libc0) : List Access :=
  let buffer := emallocSize (inp.length + 128)
  ⟨buffer, 0, inp.length⟩ :: libc0EncryptAccesses P env.encrypt inp buffer c.number

/-- `libmsx_encode` stays inside its blocks. -/
def EncodeInBounds (P : Prims) (env : EncodeEnv) (inp : List UInt8) (keys : Mem) : Prop :=
  ∀ c, (libmsxEncode P env inp keys 0).1 = some c → InBounds (libmsxEncodeAccesses P env inp c)

/-- Outcome of the allocations of `libmsx_decode`. -/
structure MsxDecodeEnv where
  ptr : Option Mem
  decrypt : DecryptEnv

/-- `libmsx_decode(buffer, len, keys, length)` on the container `c`: the returned block and
`*length`.  `len` is not used. -/
def libmsxDecode (P : Prims) (env : MsxDecodeEnv) (c : Libc0) (keys : Mem) (length : ℕ) :
    Option Mem × ℕ :=
  if !strnEq (P.sha256 (keyWindow keys)) c.publicKey then (none, length)
  else if !strnEq (P.sha256 lexneCertPrivateKey) c.privateKey then (none, length)
  else if c.magic ≠ msxMagic then (none, length)
  else
    match env.ptr with
    | none => (none, length)
    | some ptr => ((libc0Decrypt P env.decrypt c (some ptr) c.maxinum).buffer, c.maxinum)

/-- The two key checks of `libmsx_decode`. -/
def KeyChecks (P : Prims) (c : Libc0) (keys : Mem) : Prop :=
  strnEq (P.sha256 (keyWindow keys)) c.publicKey = true ∧
    strnEq (P.sha256 lexneCertPrivateKey) c.privateKey = true

/-- What lets `libmsx_decode` get to `libc0_decrypt`. -/
def Admitted (P : Prims) (env : MsxDecodeEnv) (c : Libc0) (keys : Mem) : Prop :=
  KeyChecks P c keys ∧ c.magic = msxMagic ∧ env.ptr.isSome

theorem libmsxDecode_cases (P : Prims) (env : MsxDecodeEnv) (c : Libc0) (keys : Mem)
    (length : ℕ) :
    ¬ Admitted P env c keys ∧ libmsxDecode P env c keys length = (none, length) ∨
    Admitted P env c keys ∧ ∃ ptr, env.ptr = some ptr ∧ libmsxDecode P env c keys length =
      ((libc0Decrypt P env.decrypt c (some ptr) c.maxinum).buffer, c.maxinum) := by
  unfold libmsxDecode Admitted KeyChecks
  by_cases hpub : strnEq (P.sha256 (keyWindow keys)) c.publicKey = true
  · by_cases hpriv : strnEq (P.sha256 lexneCertPrivateKey) c.privateKey = true
    · by_cases hmagic : c.magic = msxMagic
      · cases hptr : env.ptr with
        | none => exact .inl ⟨by simp, by simp [hpub, hpriv, hmagic]⟩
        | some ptr =>
            exact .inr ⟨⟨⟨hpub, hpriv⟩, hmagic, rfl⟩, ptr, rfl, by simp [hpub, hpriv, hmagic]⟩
      · exact .inl ⟨fun h => hmagic h.2.1, by simp [hpub, hpriv, hmagic]⟩
    · exact .inl ⟨fun h => hpriv h.1.2, by simp [hpub, hpriv]⟩
  · exact .inl ⟨fun h => hpub h.1.1, by simp [hpub]⟩

/-- `libc0_decrypt` returns a block when it is given one. -/
theorem libc0Decrypt_isSome (P : Prims) (env : DecryptEnv) (c : Libc0) (b : Mem) (length : ℕ) :
    (libc0Decrypt P env c (some b) length).buffer.isSome := by
  obtain ⟨ptr, zcone, zlib, unset⟩ := env
  cases ptr with
  | none => rfl
  | some ptr =>
      cases zcone with
      | none => rfl
      | some zcone =>
          rcases libc0Decrypt_some P c ptr zcone zlib unset (some b) length with
            ⟨_, _, _, _, _, h⟩ | ⟨_, h⟩ <;> rw [h] <;> rfl

/-- `libmsx_decode` returns a block exactly when it gets to `libc0_decrypt`. -/
theorem libmsxDecode_isSome_iff (P : Prims) (env : MsxDecodeEnv) (c : Libc0) (keys : Mem)
    (length : ℕ) : (libmsxDecode P env c keys length).1.isSome ↔ Admitted P env c keys := by
  rcases libmsxDecode_cases P env c keys length with ⟨hno, h⟩ | ⟨hyes, ptr, _, h⟩
  · rw [h]
    simp [hno]
  · rw [h]
    simp [hyes, libc0Decrypt_isSome]

/-! ### The header of an encoded container -/

theorem libmsxEncode_some {P : Prims} {env : EncodeEnv} {inp : List UInt8} {keys : Mem}
    {length : ℕ} {c : Libc0} (h : (libmsxEncode P env inp keys length).1 = some c) :
    ∃ (c₀ : Libc0) (img : Mem), env.ctx = some img ∧ c = libc0Encrypt P env.encrypt c₀ inp ∧
      c₀.magic = msxMagic ∧ c₀.img.peek 3 261 =
        ((img.poke 12 (P.sha256 lexneCertPrivateKey)).poke 52 (P.sha256 (keyWindow keys))).peek 3 261 := by
  unfold libmsxEncode at h
  cases hctx : env.ctx with
  | none => simp [hctx] at h
  | some img =>
      rw [hctx] at h
      cases hbuf : env.buffer with
      | none => simp [hbuf] at h
      | some b =>
          obtain ⟨addr, buffer⟩ := b
          rw [hbuf] at h
          refine ⟨_, img, rfl, (Option.some.inj h).symm, ?_, ?_⟩
          · exact Mem.peek_poke_self _ 0 msxMagic
          · rw [Libc0.store_img, Mem.peek_poke_disjoint _ _ (.inr (by simp [msxMagic])),
              Mem.peek_poke_disjoint _ _ (.inl (by norm_num))]

/-- A container holds the digests of the fixed key and of the passphrase's window. -/
theorem libmsxEncode_header {P : Prims} (hP : P.Lawful) {env : EncodeEnv} {inp : List UInt8}
    {keys : Mem} {length : ℕ} {c : Libc0} (h : (libmsxEncode P env inp keys length).1 = some c) :
    c.magic = msxMagic ∧ c.privateKey = P.sha256 lexneCertPrivateKey ∧
      c.publicKey = P.sha256 (keyWindow keys) := by
  obtain ⟨c₀, img, -, rfl, hmagic, himg⟩ := libmsxEncode_some h
  have hhead := libc0Encrypt_head P env.encrypt c₀ inp
  refine ⟨(Mem.peek_mono hhead le_rfl (by norm_num)).trans hmagic, ?_, ?_⟩
  · refine (Mem.peek_mono hhead (by norm_num) (by norm_num)).trans
      ((Mem.peek_mono himg (by norm_num) (by norm_num)).trans ?_)
    rw [Mem.peek_poke_disjoint _ _ (.inl (by norm_num))]
    exact Mem.peek_poke_of_length _ _ (hP.length_sha256 _)
  · refine (Mem.peek_mono hhead (by norm_num) (by norm_num)).trans
      ((Mem.peek_mono himg (by norm_num) (by norm_num)).trans ?_)
    exact Mem.peek_poke_of_length _ _ (hP.length_sha256 _)

/-- Between `MSX` and the digests the header holds what its block held. -/
theorem libmsxEncode_uninit {P : Prims} {env : EncodeEnv} {inp : List UInt8} {keys : Mem}
    {length : ℕ} {c : Libc0} (h : (libmsxEncode P env inp keys length).1 = some c) {img : Mem}
    (himg : env.ctx = some img) : c.img.peek 3 9 = img.peek 3 9 := by
  obtain ⟨c₀, img', himg', rfl, -, hpeek⟩ := libmsxEncode_some h
  obtain rfl := Option.some.inj (himg.symm.trans himg')
  refine (Mem.peek_mono (libc0Encrypt_head P env.encrypt c₀ inp) (by norm_num) (by norm_num)).trans
    ((Mem.peek_mono hpeek le_rfl (by norm_num)).trans ?_)
  rw [Mem.peek_poke_disjoint _ _ (.inl (by norm_num)), Mem.peek_poke_disjoint _ _ (.inl (by norm_num))]

/-- A container that `libmsx_encode` made for `inp` under `keys`. -/
structure Made (P : Prims) (inp : List UInt8) (keys : Mem) (c : Libc0) : Prop where
  encrypted : ∃ c₀, Encrypted P inp c₀ c
  magic : c.magic = msxMagic
  privateKey : c.privateKey = P.sha256 lexneCertPrivateKey
  publicKey : c.publicKey = P.sha256 (keyWindow keys)

/-- With its allocations successful, `libmsx_encode` makes a container. -/
theorem libmsxEncode_ok {P : Prims} (hP : P.Lawful) (ctx : Mem) (addr : Vector UInt8 8)
    (buffer zctwo rbuf : Mem) (unset : ℕ × ℕ) {inp : List UInt8} (keys : Mem) (length : ℕ) (hne : inp ≠ [])
    (hlen : inp.length < 2 ^ 32) :
    ∃ c, Made P inp keys c ∧
      libmsxEncode P ⟨some ctx, some (addr, buffer), ⟨some zctwo, true, some rbuf, unset⟩⟩ inp keys
        length =
        (some c, u32 (c.number + Libc0.size)) := by
  obtain ⟨c, hc⟩ : ∃ c,
      libmsxEncode P ⟨some ctx, some (addr, buffer), ⟨some zctwo, true, some rbuf, unset⟩⟩ inp keys
        length =
        (some c, u32 (c.number + Libc0.size)) := ⟨_, rfl⟩
  obtain ⟨hmagic, hpriv, hpub⟩ := libmsxEncode_header hP (congrArg Prod.fst hc)
  obtain ⟨c₀, -, -, hc₀, -⟩ := libmsxEncode_some (congrArg Prod.fst hc)
  refine ⟨c, ⟨⟨c₀, ?_⟩, hmagic, hpriv, hpub⟩, hc⟩
  rw [hc₀]
  exact libc0Encrypt_ok hP rfl c₀ hne hlen

theorem Made.number_bounds {P : Prims} {inp : List UInt8} {keys : Mem} {c : Libc0}
    (h : Made P inp keys c) : 16 ≤ c.number ∧ c.number ≤ 42950088 := by
  obtain ⟨c₀, henc⟩ := h.encrypted
  have hle := length_storedStream_le P inp
  rw [henc.number, cipherLength]
  omega

theorem Made.number_pos {P : Prims} {inp : List UInt8} {keys : Mem} {c : Libc0}
    (h : Made P inp keys c) : 0 < c.number :=
  lt_of_lt_of_le (by norm_num) h.number_bounds.1

/-- `*length` of `libmsx_encode` is not zero. -/
theorem Made.length_ne_zero {P : Prims} {inp : List UInt8} {keys : Mem} {c : Libc0}
    (h : Made P inp keys c) : u32 (c.number + Libc0.size) ≠ 0 := by
  have hle := h.number_bounds.2
  rw [u32_of_lt (by unfold Libc0.size; omega)]
  exact Nat.succ_ne_zero _

/-- The compressed content goes into a block of `insize + 1` bytes, which `emalloc` makes three bytes
longer, and the sizes of the blocks do not wrap around. -/
def FitsBlocks (P : Prims) (inp : List UInt8) : Prop :=
  (storedStream P inp).length ≤ inp.length + 4 ∧ inp.length + 131 < 2 ^ 32

theorem FitsBlocks.length_lt {P : Prims} {inp : List UInt8} (h : FitsBlocks P inp) :
    inp.length < 2 ^ 32 := lt_of_le_of_lt (Nat.le_add_right _ 131) h.2

theorem Made.encode_inBounds_iff {P : Prims} {inp : List UInt8} {keys : Mem} {c : Libc0}
    (h : Made P inp keys c) {env : EncodeEnv} {zctwo rbuf : Mem} {unset : ℕ × ℕ}
    (henv : env.encrypt = ⟨some zctwo, true, some rbuf, unset⟩) (hne : inp ≠ [])
    (hlen : inp.length < 2 ^ 32) :
    InBounds (libmsxEncodeAccesses P env inp c) ↔ FitsBlocks P inp := by
  obtain ⟨c₀, henc⟩ := h.encrypted
  have hle := cipherLength_le (storedStream P inp).length
  rw [libmsxEncodeAccesses, inBounds_cons, henc.number, libc0Encrypt_inBounds_iff henv hne, FitsBlocks,
    Nat.zero_add]
  dsimp only
  unfold emallocSize u32
  omega

/-- All allocations of `libmsx_encode` succeed. -/
def EncodeEnv.Succeeds (env : EncodeEnv) : Prop :=
  ∃ (ctx : Mem) (addr : Vector UInt8 8) (buffer zctwo rbuf : Mem) (unset : ℕ × ℕ),
    env = ⟨some ctx, some (addr, buffer), ⟨some zctwo, true, some rbuf, unset⟩⟩

/-- When `libmsx_encode`, its allocations successful, stays inside its blocks. -/
theorem encodeInBounds_iff {P : Prims} (hP : P.Lawful) {env : EncodeEnv} (henv : env.Succeeds)
    {inp : List UInt8} (keys : Mem) (hne : inp ≠ []) (hlen : inp.length < 2 ^ 32) :
    EncodeInBounds P env inp keys ↔ FitsBlocks P inp := by
  obtain ⟨ctx, addr, buffer, zctwo, rbuf, unset, rfl⟩ := henv
  obtain ⟨c, hc, henc⟩ := libmsxEncode_ok hP ctx addr buffer zctwo rbuf unset keys 0 hne hlen
  rw [EncodeInBounds, henc]
  dsimp only
  simp only [Option.some.injEq, forall_eq']
  exact hc.encode_inBounds_iff rfl hne hlen

/-- `libc0_decrypt` stays inside its blocks on a made container. -/
theorem Made.decrypt_inBounds {P : Prims} (hP : P.Lawful) {inp : List UInt8} {keys : Mem} {c c' : Libc0}
    (h : Made P inp keys c) (hc : SameContainer c c') (hlen : inp.length + 4 < 2 ^ 32)
    (work zcone : Mem) (unset size : ℕ) (hsize : c.number ≤ size) :
    InBounds (libc0DecryptAccesses P ⟨some work, some zcone, true, unset⟩ c' size) := by
  obtain ⟨c₀, henc⟩ := h.encrypted
  have hle := h.number_bounds
  have hstored := henc.stored_le_number
  have htrailer := henc.hasTrailer hP hc work
  rw [libc0Decrypt_inBounds_iff, hc.number, hc.length, henc.length, hc.maxinum, henc.maxinum, hc.mininum,
    henc.mininum]
  exact ⟨by omega, by omega, by omega, hsize, hlen, fun _ => by omega, fun hno => absurd htrailer hno⟩

/-- `libc0_decrypt` sees the length of the content in `*destLen`. -/
def Accepted (P : Prims) (inp : List UInt8) : Prop :=
  (P.inflate inp.length (storedStream P inp)).streamEnd = true →
    (P.inflate inp.length (storedStream P inp)).out.length = inp.length

/-- The bytes that `inflate` leaves in a zeroed block as long as the content. -/
def recovered (P : Prims) (inp : List UInt8) : List UInt8 :=
  (Mem.zero.poke 0 (P.inflate inp.length (storedStream P inp)).out).peek 0 inp.length

/-- The content comes back from as much of its compressed form as fits in the capacity that
`libc0_encrypt` computes in 32 bits. -/
def Recovers (P : Prims) (inp : List UInt8) : Prop := Accepted P inp ∧ recovered P inp = inp

/-- The content comes back when its whole compressed form fits. -/
theorem recovers_of_fits {P : Prims} (hP : P.Lawful) {inp : List UInt8}
    (h : (P.deflate inp).length ≤ zctwoLength inp.length) : Recovers P inp := by
  have hstored : storedStream P inp = P.deflate inp := List.take_of_length_le h
  rw [Recovers, Accepted, recovered, hstored, hP.inflate_deflate]
  exact ⟨fun _ => rfl, Mem.peek_poke_self _ 0 inp⟩

section decode
variable {P : Prims} {inp : List UInt8} {keys keys' : Mem} {c c' : Libc0}

theorem Made.decode_refused (h : Made P inp keys c) (hc : SameContainer c c')
    (hkeys : strnEq (P.sha256 (keyWindow keys')) (P.sha256 (keyWindow keys)) = false)
    (env : MsxDecodeEnv) (length : ℕ) : libmsxDecode P env c' keys' length = (none, length) := by
  unfold libmsxDecode
  rw [hc.publicKey, h.publicKey, hkeys]
  rfl

/-- Decrypting a made container: the content that comes back, or the block as it was. -/
theorem Made.libc0Decrypt_eq (hP : P.Lawful) (h : Made P inp keys c) (hc : SameContainer c c')
    (ptr work zcone : Mem) (unset : ℕ) :
    (Accepted P inp → libc0Decrypt P ⟨some work, some zcone, true, unset⟩ c' (some ptr) c'.maxinum =
      ⟨true, some (ptr.poke 0 (recovered P inp))⟩) ∧
    (¬ Accepted P inp → libc0Decrypt P ⟨some work, some zcone, true, unset⟩ c' (some ptr) c'.maxinum =
      ⟨false, some ptr⟩) := by
  obtain ⟨c₀, henc⟩ := h.encrypted
  have hbody := henc.bodyInflated_eq hP hc work
  have hmax : c'.maxinum = inp.length := hc.maxinum.trans henc.maxinum
  have hlooks : LooksInflated P true c' work ↔ Accepted P inp := by
    rw [LooksInflated, hbody, hmax, Accepted]
    exact ⟨fun h => h rfl, fun h _ => h⟩
  have hbuf : (inflatedBuffer P true c' work zcone).peek 0 c'.maxinum = recovered P inp := by
    rw [inflatedBuffer, hbody, hmax, recovered]
    apply Mem.peek_poke_congr
    rw [Mem.peek_poke_of_length _ _ List.length_replicate, Mem.peek_zeros]
  rcases libc0Decrypt_some P c' work zcone true unset (some ptr) c'.maxinum with
    ⟨-, hacc, -, b, hb, heq⟩ | ⟨hno, heq⟩
  · obtain rfl := Option.some.inj hb
    refine ⟨fun _ => ?_, fun hnot => absurd (hlooks.mp hacc) hnot⟩
    rw [heq, hbuf]
  · refine ⟨fun hacc => absurd ⟨henc.hasTrailer hP hc work, hlooks.mpr hacc, rfl, rfl⟩ hno, fun _ => heq⟩

theorem Made.decode_opened (hP : P.Lawful) (h : Made P inp keys c) (hc : SameContainer c c')
    (hkeys : strnEq (P.sha256 (keyWindow keys')) (P.sha256 (keyWindow keys)) = true)
    (ptr work zcone : Mem) (unset length : ℕ) :
    ∃ b, libmsxDecode P ⟨some ptr, ⟨some work, some zcone, true, unset⟩⟩ c' keys' length =
        (some b, inp.length) ∧
      (Accepted P inp → b.peek 0 inp.length = recovered P inp) ∧ (¬ Accepted P inp → b = ptr) := by
  obtain ⟨c₀, henc⟩ := h.encrypted
  have hmax : c'.maxinum = inp.length := hc.maxinum.trans henc.maxinum
  have hdec := h.libc0Decrypt_eq hP hc ptr work zcone unset
  have hrun : libmsxDecode P ⟨some ptr, ⟨some work, some zcone, true, unset⟩⟩ c' keys' length =
      ((libc0Decrypt P ⟨some work, some zcone, true, unset⟩ c' (some ptr) c'.maxinum).buffer,
        inp.length) := by
    unfold libmsxDecode
    rw [hc.publicKey, h.publicKey, hkeys, hc.privateKey, h.privateKey, strnEq_self, hc.magic,
      h.magic, hmax]
    simp
  rw [hrun]
  by_cases hacc : Accepted P inp
  · rw [hdec.1 hacc]
    exact ⟨_, rfl, fun _ => Mem.peek_poke_of_length _ _ (Mem.length_peek _ _ _),
      fun hnot => absurd hacc hnot⟩
  · rw [hdec.2 hacc]
    exact ⟨_, rfl, fun h => absurd h hacc, fun _ => rfl⟩

end decode

/-! ### Passphrases -/

/-- Two digests agree up to and including a NUL byte, and differ after it. -/
def DifferAfterNul (a b : List UInt8) : Prop :=
  a ≠ b ∧ ∃ k, a.take (k + 1) = b.take (k + 1) ∧ a[k]? = some 0

/-- `strncmp` accepts two digests that are equal, or differ after a NUL byte only. -/
theorem strnEq_iff_differAfterNul {a b : List UInt8} (h : a.length = b.length) :
    strnEq a b = true ↔ a = b ∨ DifferAfterNul a b := by
  rw [strnEq_iff h, DifferAfterNul]
  by_cases hab : a = b <;> simp [hab]

theorem keyChecks_iff {P : Prims} (hP : P.Lawful) (c : Libc0) (keys : Mem) :
    KeyChecks P c keys ↔
      (P.sha256 (keyWindow keys) = c.publicKey ∨ DifferAfterNul (P.sha256 (keyWindow keys)) c.publicKey) ∧
      (P.sha256 lexneCertPrivateKey = c.privateKey ∨
        DifferAfterNul (P.sha256 lexneCertPrivateKey) c.privateKey) := by
  have hpub : ∀ x, (P.sha256 x).length = c.publicKey.length := fun x => by
    rw [hP.length_sha256, Libc0.publicKey, Mem.length_peek]
  have hpriv : ∀ x, (P.sha256 x).length = c.privateKey.length := fun x => by
    rw [hP.length_sha256, Libc0.privateKey, Mem.length_peek]
  rw [KeyChecks, strnEq_iff_differAfterNul (hpub _), strnEq_iff_differAfterNul (hpriv _)]

/-- A container made under one passphrase is refused under another exactly when the allocation
fails or `strncmp` tells the digests of their windows apart. -/
theorem decode_none_iff {P : Prims} (hP : P.Lawful) {env : EncodeEnv} {inp : List UInt8}
    {keys keys' : Mem} {length length' : ℕ} {c : Libc0}
    (h : (libmsxEncode P env inp keys length).1 = some c) (denv : MsxDecodeEnv) :
    (libmsxDecode P denv c keys' length').1 = none ↔
      denv.ptr = none ∨ strnEq (P.sha256 (keyWindow keys')) (P.sha256 (keyWindow keys)) = false := by
  obtain ⟨hmagic, hpriv, hpub⟩ := libmsxEncode_header hP h
  rw [← Option.not_isSome_iff_eq_none, libmsxDecode_isSome_iff, Admitted, KeyChecks, hpub, hpriv,
    hmagic]
  cases denv.ptr <;> simp [strnEq_self]

/-- Of a passphrase of eight bytes or more only the first eight are hashed. -/
theorem keyWindow_passphrase {pass : List UInt8} (h : 8 ≤ pass.length) (around : Mem) :
    keyWindow (passphrase pass around) = pass.take 8 := by
  rw [keyWindow, passphrase, Mem.peek_poke_take _ _ (by simp; omega), List.take_append_of_le_length h]

/-- **What the key checks tell apart.**  A container made under `p` is refused under `q` exactly
when the allocation fails, or the digests of the eight bytes at the two pointers differ, and not
only after a NUL byte; and the two checks of a header amount to equality of all digest bytes
exactly when no digest differs after a NUL byte while the other one is equal or does so too. -/
theorem passphrase_checks (P : Prims) (hP : P.Lawful) :
    (∀ (env : EncodeEnv) (inp p q : List UInt8) (around around' : Mem) (length length' : ℕ)
      (c : Libc0) (denv : MsxDecodeEnv),
      (libmsxEncode P env inp (passphrase p around) length).1 = some c →
      ((libmsxDecode P denv c (passphrase q around') length').1 = none ↔ denv.ptr = none ∨
        ¬ (P.sha256 (keyWindow (passphrase q around')) = P.sha256 (keyWindow (passphrase p around)) ∨
          DifferAfterNul (P.sha256 (keyWindow (passphrase q around')))
            (P.sha256 (keyWindow (passphrase p around)))))) ∧
    ∀ (c : Libc0) (keys : Mem),
      let pub := P.sha256 (keyWindow keys)
      let priv := P.sha256 lexneCertPrivateKey
      ((KeyChecks P c keys ↔ pub = c.publicKey ∧ priv = c.privateKey) ↔
        ¬ (DifferAfterNul pub c.publicKey ∧ (priv = c.privateKey ∨ DifferAfterNul priv c.privateKey)) ∧
        ¬ (DifferAfterNul priv c.privateKey ∧
          (pub = c.publicKey ∨ DifferAfterNul pub c.publicKey))) := by
  refine ⟨fun env inp p q around around' length length' c denv h => ?_, fun c keys => ?_⟩
  · rw [decode_none_iff hP h, ← Bool.not_eq_true, strnEq_iff_differAfterNul]
    rw [hP.length_sha256, hP.length_sha256]
  · have hpub : DifferAfterNul (P.sha256 (keyWindow keys)) c.publicKey →
        P.sha256 (keyWindow keys) ≠ c.publicKey := And.left
    have hpriv : DifferAfterNul (P.sha256 lexneCertPrivateKey) c.privateKey →
        P.sha256 lexneCertPrivateKey ≠ c.privateKey := And.left
    dsimp only
    rw [keyChecks_iff hP]
    tauto

/-- All allocations of `libmsx_encode` succeed, with zeroed blocks and a zeroed stack. -/
def EncodeEnv.zero : EncodeEnv :=
  ⟨some Mem.zero, some (Vector.replicate 8 0, Mem.zero), ⟨some Mem.zero, true, some Mem.zero, 0, 0⟩⟩

/-- All allocations of `libmsx_decode` succeed, with zeroed blocks and a zeroed stack. -/
def MsxDecodeEnv.zero : MsxDecodeEnv := ⟨some Mem.zero, ⟨some Mem.zero, some Mem.zero, true, 0⟩⟩

/-- The passphrases `password`, `password1`, `password2` and `passport`. -/
def samplePassword : List UInt8 := [0x70, 0x61, 0x73, 0x73, 0x77, 0x6f, 0x72, 0x64]
def samplePassword1 : List UInt8 := samplePassword ++ [0x31]
def samplePassword2 : List UInt8 := samplePassword ++ [0x32]
def samplePassport : List UInt8 := [0x70, 0x61, 0x73, 0x73, 0x70, 0x6f, 0x72, 0x74]

theorem libmsxEncode_zero (P : Prims) (inp : List UInt8) (keys : Mem) :
    ∃ c, (libmsxEncode P EncodeEnv.zero inp keys 0).1 = some c := ⟨_, rfl⟩

/-- `passphrase_checks` for `password` and `passport`: the container is refused. -/
theorem passphrase_checks_passport : ∃ c,
    (libmsxEncode samplePrims EncodeEnv.zero sampleText (passphrase samplePassword Mem.zero) 0).1 =
      some c ∧
    (libmsxDecode samplePrims MsxDecodeEnv.zero c (passphrase samplePassport Mem.zero) 0).1 = none := by
  obtain ⟨c, hc⟩ := libmsxEncode_zero samplePrims sampleText (passphrase samplePassword Mem.zero)
  have hiff := (passphrase_checks samplePrims samplePrims_lawful).1 EncodeEnv.zero sampleText
    samplePassword samplePassport Mem.zero Mem.zero 0 0 c MsxDecodeEnv.zero hc
  refine ⟨c, hc, hiff.mpr (.inr ?_)⟩
  -- the digests differ in their first byte
  have hfirst : (sha256Digest (keyWindow (passphrase samplePassport Mem.zero))).take 1 ≠
      (sha256Digest (keyWindow (passphrase samplePassword Mem.zero))).take 1 := by decide +kernel
  rintro (heq | ⟨_, k, hk, _⟩)
  · exact hfirst (congrArg (List.take 1) heq)
  · have := congrArg (List.take 1) hk
    rw [List.take_take, List.take_take, Nat.min_eq_left (by omega)] at this
    exact hfirst this

/-- A container made under `password1` is decoded under `password2`. -/
theorem decode_other_passphrase : samplePassword1 ≠ samplePassword2 ∧ ∃ c b,
    (libmsxEncode samplePrims EncodeEnv.zero sampleText (passphrase samplePassword1 Mem.zero) 0).1 =
      some c ∧
    (libmsxDecode samplePrims MsxDecodeEnv.zero c (passphrase samplePassword2 Mem.zero) 0).1 = some b := by
  refine ⟨by decide, ?_⟩
  obtain ⟨c, hc⟩ := libmsxEncode_zero samplePrims sampleText (passphrase samplePassword1 Mem.zero)
  have hwindow : keyWindow (passphrase samplePassword2 Mem.zero) =
      keyWindow (passphrase samplePassword1 Mem.zero) := by
    rw [keyWindow_passphrase (by decide), keyWindow_passphrase (by decide)]
    rfl
  have hne : (libmsxDecode samplePrims MsxDecodeEnv.zero c
      (passphrase samplePassword2 Mem.zero) 0).1 ≠ none := by
    rw [Ne, decode_none_iff samplePrims_lawful hc, hwindow, strnEq_self]
    simp [MsxDecodeEnv.zero]
  obtain ⟨b, hb⟩ := Option.ne_none_iff_exists'.mp hne
  exact ⟨c, b, hc, hb⟩

end Carroll
