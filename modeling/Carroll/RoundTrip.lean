import Carroll.MsxFile

/-! # Round trips of containers in files

What comes back from `libmsx_decode_file` after `libmsx_encode_file` returned `1`.  The round trip
is lost when

* a passphrase is shorter than eight bytes and the memory behind its two copies differs,
* the length of the file, in 32 bits, is below three,
* the compressed content does not fit in the capacity that `libc0_encrypt` computes in 32 bits,
* an allocation inside `libc0_encrypt` fails, which nobody hears of.

And the capacity is not the size of the block: when the compressed content is longer than the
content by more than four bytes, as that of a short or an incompressible one is, it is stored past
the end of its block (`FitsBlocks`).

Main result: `container_roundtrip`. -/

namespace Carroll

/-- Every step that `libmsx_encode_file` takes outside the program succeeds, and no write is
short. -/
def EncodeFileEnv.Succeeds (env : EncodeFileEnv) : Prop :=
  ∃ (ctx : Mem) (addr : Vector UInt8 8) (buffer zctwo rbuf : Mem) (unset : ℕ × ℕ)
      (header body : Transfer),
    env = ⟨true, ⟨some ctx, some (addr, buffer), ⟨some zctwo, true, some rbuf, unset⟩⟩, true, true,
      ⟨true, header, body⟩⟩ ∧ header.Full ∧ body.Full

theorem EncodeFileEnv.Succeeds.encode {env : EncodeFileEnv} (h : env.Succeeds) : env.encode.Succeeds := by
  obtain ⟨ctx, addr, buffer, zctwo, rbuf, unset, header, body, rfl, -⟩ := h
  exact ⟨ctx, addr, buffer, zctwo, rbuf, unset, rfl⟩

/-- Every step that `libmsx_decode_file` takes outside the program succeeds, and no read is
short. -/
def DecodeFileEnv.Succeeds (env : DecodeFileEnv) : Prop :=
  ∃ (buffer ctx body ptr work zcone : Mem) (unset : ℕ) (read header content : Transfer),
    env = ⟨true, true, some buffer, read, ⟨some ctx, header, some body, content⟩,
      ⟨some ptr, ⟨some work, some zcone, true, unset⟩⟩, true⟩ ∧ read.Full ∧ header.Full ∧ content.Full

/-- What a successful `libmsx_encode_file` leaves in the file. -/
theorem libmsxEncodeFile_ok {P : Prims} (hP : P.Lawful) {env : EncodeFileEnv} (henv : env.Succeeds)
    (file : List UInt8) {inp : List UInt8} (keys : Mem) (seek : ℕ) (hne : inp ≠ [])
    (hlen : inp.length < 2 ^ 32) :
    ∃ c, Made P inp keys c ∧ (libmsxEncode P env.encode inp keys 0).1 = some c ∧
      libmsxEncodeFile P env file inp keys seek = (List.replicate seek 0 ++ c.bytes, true) := by
  obtain ⟨ctx, addr, buffer, zctwo, rbuf, unset, header, body, rfl, hh, hb⟩ := henv
  obtain ⟨c, hmade, hc⟩ := libmsxEncode_ok hP ctx addr buffer zctwo rbuf unset keys 0 hne hlen
  refine ⟨c, hmade, congrArg Prod.fst hc, ?_⟩
  unfold libmsxEncodeFile
  rw [hc]
  simpa [hmade.length_ne_zero] using hmade.storeContainer hh hb file seek

section decodeFile
variable {P : Prims} {inp : List UInt8} {keys keys' : Mem} {c : Libc0} {seek : ℕ}

theorem Made.length_file (hc : Made P inp keys c) (seek : ℕ) :
    (List.replicate seek 0 ++ c.bytes).length =
      seek + Libc0.size + cipherLength (storedStream P inp).length := by
  obtain ⟨c₀, henc⟩ := hc.encrypted
  rw [List.length_append, List.length_replicate, length_bytes, henc.number, Nat.add_assoc]

/-- The first read of a stored container of which at least three bytes are read finds the magic, and
the container is loaded. -/
theorem decodeFile_search (hc : Made P inp keys c) {env : DecodeFileEnv} (henv : env.Succeeds) (seek : ℕ)
    {n : ℕ} (hsize : 3 ≤ n) :
    ∃ buffer k c', env.buffer = some buffer ∧ min n maxTransfer ≤ k ∧ k ≤ n ∧
      fread (List.replicate seek 0 ++ c.bytes) seek n env.read = some (c.bytes.take k) ∧
      strstr ((buffer.poke 0 (c.bytes.take k)).peek 0 (n + 3)) msxMagic = true ∧
      loadContainer env.load (List.replicate seek 0 ++ c.bytes) seek = some c' ∧ SameContainer c c' := by
  obtain ⟨buffer, ctx, body, ptr, work, zcone, unset, read, header, content, rfl, hr, hh, hcont⟩ := henv
  obtain ⟨c', hload, hsame⟩ := loadContainer_full ctx body hh.header (hc.covers hcont) seek hc.number_pos
  obtain ⟨k, hk, hkn, hread⟩ := fread_take (List.replicate seek 0) (n := n) hr (bytes_ne_nil c) (by omega)
  rw [List.length_replicate] at hread
  have hk3 : 3 ≤ k := le_trans (le_min hsize (by norm_num [maxTransfer])) hk
  -- the block read first starts with the magic
  have hmagic : (buffer.poke 0 (c.bytes.take k)).peek 0 3 = msxMagic := by
    have htake : (c.bytes.take k).take 3 = c.magic := by
      rw [List.take_take, Nat.min_eq_left hk3, Libc0.bytes,
        List.take_append_of_le_length (by simp [Libc0.size]), Mem.take_peek _ _ (by norm_num [Libc0.size])]
      rfl
    rw [Mem.peek_poke_take, htake, hc.magic]
    rw [List.length_take, length_bytes, Libc0.size]
    omega
  refine ⟨buffer, k, c', rfl, hk, hkn, hread, ?_, hload, hsame⟩
  rw [Nat.add_comm n 3, Mem.peek_add, hmagic]
  exact strstr_append (by decide) _

/-- A stored container that is found is decoded. -/
theorem libmsxDecodeFile_found (hc : Made P inp keys c) (keys' : Mem) {env : DecodeFileEnv}
    (henv : env.Succeeds) (hsize : 3 ≤ u32 (List.replicate seek 0 ++ c.bytes).length) (n₀ : ℕ) :
    ∃ c', SameContainer c c' ∧ ∀ b length,
      libmsxDecode P env.decode c' keys' (u32 (List.replicate seek 0 ++ c.bytes).length) = (b, length) →
      libmsxDecodeFile P env (List.replicate seek 0 ++ c.bytes) n₀ keys' seek =
        (b, if b.isNone ∨ length = 0 then n₀ else c'.maxinum) := by
  obtain ⟨buffer, k, c', hbuf, -, -, hread, hstr, hload, hsame⟩ := decodeFile_search hc henv seek hsize
  obtain ⟨buffer', ctx, body, ptr, work, zcone, unset, read, header, content, rfl, -⟩ := henv
  obtain rfl := Option.some.inj hbuf
  refine ⟨c', hsame, fun b length hdec => ?_⟩
  unfold libmsxDecodeFile getFilesize
  simp only [Bool.not_true, Bool.false_eq_true, ↓reduceIte, hread, hstr, hload, hdec]
  cases b with
  | none => simp
  | some b => by_cases hzero : length = 0 <;> simp [hzero]

/-- `libmsx_decode_file` stays inside its blocks on a stored container unless the size of the first
one wraps around. -/
theorem decodeFile_inBounds_iff (hP : P.Lawful) (hc : Made P inp keys c)
    (hlen : inp.length + 4 < 2 ^ 32) (keys' : Mem) {env : DecodeFileEnv} (henv : env.Succeeds)
    (hsize : 3 ≤ u32 (List.replicate seek 0 ++ c.bytes).length) :
    InBounds (libmsxDecodeFileAccesses P env (List.replicate seek 0 ++ c.bytes) keys' seek) ↔
      u32 (List.replicate seek 0 ++ c.bytes).length + 3 < 2 ^ 32 := by
  obtain ⟨buffer, k, c', hbuf, hk, hkn, hread, hstr, hload, hsame⟩ := decodeFile_search hc henv seek hsize
  obtain ⟨buffer', ctx, body, ptr, work, zcone, unset, read, header, content, rfl, -⟩ := henv
  obtain rfl := Option.some.inj hbuf
  have hnumber := hc.number_bounds
  have hbody : emallocSize (c.number + 4) = c.number + 7 := emallocSize_eq (by omega)
  have hdec := hc.decrypt_inBounds hP hsame hlen work zcone unset (c.number + 7) (by omega)
  have hdata : (c.bytes.take k).length ≤ emallocSize (u32 (List.replicate seek 0 ++ c.bytes).length) ↔
      u32 (List.replicate seek 0 ++ c.bytes).length + 3 < 2 ^ 32 := by
    have hlt := u32_lt (List.replicate seek 0 ++ c.bytes).length
    have hbytes : Libc0.size ≤ c.bytes.length := length_bytes c ▸ Nat.le_add_right _ _
    generalize u32 (List.replicate seek 0 ++ c.bytes).length = n at hk hkn hlt
    rw [List.length_take]
    unfold emallocSize u32
    unfold maxTransfer at hk
    unfold Libc0.size at hbytes
    omega
  unfold libmsxDecodeFileAccesses getFilesize
  simp only [hread, hstr, hload, decodeAccesses, hsame.number, hbody, ↓reduceIte, Bool.not_true,
    Bool.false_eq_true, inBounds_cons, Nat.zero_add, hdata]
  refine and_iff_left ⟨Nat.le_add_right _ _, ?_⟩
  split_ifs
  · exact inBounds_nil
  · exact hdec

/-- All steps of `libmsx_decode_file` succeed, with zeroed blocks, and `ptr` as the block that is
returned. -/
def DecodeFileEnv.full (ptr : Mem) : DecodeFileEnv :=
  ⟨true, true, some Mem.zero, some maxTransfer,
    ⟨some Mem.zero, some maxTransfer, some Mem.zero, some maxTransfer⟩,
    ⟨some ptr, ⟨some Mem.zero, some Mem.zero, true, 0⟩⟩, true⟩

theorem DecodeFileEnv.full_succeeds (ptr : Mem) : (DecodeFileEnv.full ptr).Succeeds :=
  ⟨_, _, _, _, _, _, _, _, _, _, rfl, ⟨_, rfl, le_rfl⟩, ⟨_, rfl, le_rfl⟩, ⟨_, rfl, le_rfl⟩⟩

/-- When the file length in 32 bits is below three, the magic is not found, and `libmsx_decode_file`
returns the block it looked in. -/
theorem libmsxDecodeFile_small (P : Prims) (ptr : Mem) {file : List UInt8}
    (hsize : u32 file.length < 3) (n₀ : ℕ) (keys : Mem) (seek : ℕ) :
    ∃ b, libmsxDecodeFile P (DecodeFileEnv.full ptr) file n₀ keys seek = (some b, n₀) := by
  unfold libmsxDecodeFile DecodeFileEnv.full getFilesize
  generalize hn : u32 file.length = n at hsize
  cases hread : fread file seek n (some maxTransfer) with
  | none => exact ⟨Mem.zero, by simp [hread]⟩
  | some data =>
      have hdata : data.length ≤ n := length_fread_le hread
      have hpeek : (Mem.zero.poke 0 data).peek 0 (n + 3) =
          data ++ 0 :: List.replicate (n + 2 - data.length) 0 := by
        rw [Mem.peek_poke_zeros (by omega), ← List.replicate_succ]
        congr 2
        omega
      have hstr : strstr ((Mem.zero.poke 0 data).peek 0 (n + 3)) msxMagic = false := by
        rw [hpeek, strstr, cstr_nul, decide_eq_false_iff_not]
        intro hinfix
        have h3 : msxMagic.length ≤ data.length := hinfix.length_le.trans (length_cstr_le data)
        simp only [msxMagic, List.length_cons, List.length_nil] at h3
        omega
      exact ⟨Mem.zero.poke 0 data, by simp [hread, hstr]⟩

theorem libmsxDecodeFile_refused (hc : Made P inp keys c) {env : DecodeFileEnv}
    (henv : env.Succeeds) (hsize : 3 ≤ u32 (List.replicate seek 0 ++ c.bytes).length)
    (hkeys : strnEq (P.sha256 (keyWindow keys')) (P.sha256 (keyWindow keys)) = false) (n₀ : ℕ) :
    libmsxDecodeFile P env (List.replicate seek 0 ++ c.bytes) n₀ keys' seek = (none, n₀) := by
  obtain ⟨c', hsame, hrun⟩ := libmsxDecodeFile_found hc keys' henv hsize n₀
  rw [hrun _ _ (hc.decode_refused hsame hkeys _ _)]
  rfl

theorem libmsxDecodeFile_opened (hP : P.Lawful) (hc : Made P inp keys c) (hne : inp ≠ [])
    {env : DecodeFileEnv} (henv : env.Succeeds)
    (hsize : 3 ≤ u32 (List.replicate seek 0 ++ c.bytes).length)
    (hkeys : strnEq (P.sha256 (keyWindow keys')) (P.sha256 (keyWindow keys)) = true) (n₀ : ℕ) :
    ∃ b, libmsxDecodeFile P env (List.replicate seek 0 ++ c.bytes) n₀ keys' seek =
        (some b, inp.length) ∧
      (Accepted P inp → b.peek 0 inp.length = recovered P inp) ∧
      (¬ Accepted P inp → env.decode.ptr = some b) := by
  obtain ⟨c', hsame, hrun⟩ := libmsxDecodeFile_found hc keys' henv hsize n₀
  obtain ⟨buffer, ctx, body, ptr, work, zcone, unset, read, header, content, rfl, -⟩ := henv
  obtain ⟨c₀, henc⟩ := hc.encrypted
  obtain ⟨b, hdec, hacc, hnot⟩ := hc.decode_opened hP hsame hkeys ptr work zcone unset
    (u32 (List.replicate seek 0 ++ c.bytes).length)
  have hpos : inp.length ≠ 0 := fun h => hne (List.length_eq_zero_iff.mp h)
  have hmax : c'.maxinum = inp.length := hsame.maxinum.trans henc.maxinum
  refine ⟨b, ?_, hacc, fun h => congrArg some (hnot h).symm⟩
  rw [hrun _ _ hdec]
  simp [hpos, hmax]

end decodeFile

/-- The encode stays inside its blocks and, after it returned `1`, so does every decode whose steps
succeed. -/
def StaysInBounds (P : Prims) (env : EncodeFileEnv) (file inp : List UInt8) (keys keys' : Mem)
    (seek : ℕ) : Prop :=
  EncodeInBounds P env.encode inp keys ∧
  ((libmsxEncodeFile P env file inp keys seek).2 = true → ∀ denv : DecodeFileEnv, denv.Succeeds →
    InBounds (libmsxDecodeFileAccesses P denv (libmsxEncodeFile P env file inp keys seek).1 keys' seek))

/-- After an encode that returned `1`, every decode whose steps succeed returns the content and its
length. -/
def GivesBack (P : Prims) (env : EncodeFileEnv) (file inp : List UInt8) (keys keys' : Mem)
    (seek : ℕ) : Prop :=
  (libmsxEncodeFile P env file inp keys seek).2 = true →
    ∀ denv : DecodeFileEnv, denv.Succeeds → ∀ n₀ : ℕ, ∃ b,
      libmsxDecodeFile P denv (libmsxEncodeFile P env file inp keys seek).1 n₀ keys' seek =
        (some b, inp.length) ∧ b.peek 0 inp.length = inp

/-- The content comes back, and no access leaves its block. -/
def RoundTrips (P : Prims) (env : EncodeFileEnv) (file inp : List UInt8) (keys keys' : Mem)
    (seek : ℕ) : Prop :=
  StaysInBounds P env file inp keys keys' seek ∧ GivesBack P env file inp keys keys' seek

/-- What it takes to give the content back. -/
theorem givesBack_iff {P : Prims} (hP : P.Lawful) {env : EncodeFileEnv} (henv : env.Succeeds)
    (file : List UInt8) {inp : List UInt8} (keys keys' : Mem) (seek : ℕ) (hne : inp ≠ [])
    (hlen : inp.length < 2 ^ 32) :
    GivesBack P env file inp keys keys' seek ↔
      strnEq (P.sha256 (keyWindow keys')) (P.sha256 (keyWindow keys)) = true ∧
      3 ≤ u32 (seek + Libc0.size + cipherLength (storedStream P inp).length) ∧ Recovers P inp := by
  obtain ⟨c, hc, -, hfile⟩ := libmsxEncodeFile_ok hP henv file keys seek hne hlen
  rw [GivesBack, hfile, ← hc.length_file]
  constructor
  · intro hrt
    replace hrt := hrt rfl
    have hsize : 3 ≤ u32 (List.replicate seek 0 ++ c.bytes).length := by
      by_contra hlt
      obtain ⟨b, hb⟩ := libmsxDecodeFile_small P Mem.zero (not_le.mp hlt) (inp.length + 1) keys' seek
      obtain ⟨b', hb', -⟩ := hrt _ (DecodeFileEnv.full_succeeds Mem.zero) (inp.length + 1)
      rw [hb] at hb'
      exact absurd (congrArg Prod.snd hb') (Nat.succ_ne_self _)
    have hkeys : strnEq (P.sha256 (keyWindow keys')) (P.sha256 (keyWindow keys)) = true := by
      by_contra hdiff
      obtain ⟨b', hb', -⟩ := hrt _ (DecodeFileEnv.full_succeeds Mem.zero) 0
      rw [libmsxDecodeFile_refused hc (DecodeFileEnv.full_succeeds Mem.zero) hsize
        (Bool.not_eq_true _ ▸ hdiff)] at hb'
      exact absurd (congrArg Prod.fst hb') (by simp)
    refine ⟨hkeys, hsize, ?_⟩
    -- a block that differs from the content in its first byte is not taken for it
    obtain ⟨x, xs, rfl⟩ := List.exists_cons_of_ne_nil hne
    obtain ⟨b', hb', hpeek⟩ := hrt _ (DecodeFileEnv.full_succeeds fun _ => x + 1) 0
    obtain ⟨b, hb, hacc, hnot⟩ := libmsxDecodeFile_opened hP hc hne
      (DecodeFileEnv.full_succeeds fun _ => x + 1) hsize hkeys 0
    rw [hb] at hb'
    obtain rfl := Option.some.inj (congrArg Prod.fst hb')
    have haccepted : Accepted P (x :: xs) := by
      by_contra h
      have hbx : (fun _ => x + 1) = b := Option.some.inj (hnot h)
      have hhead := congrArg List.head? hpeek
      rw [← hbx] at hhead
      simp [Mem.peek, List.range_succ_eq_map] at hhead
    exact ⟨haccepted, (hacc haccepted).symm.trans hpeek⟩
  · rintro ⟨hkeys, hsize, hacc, hrec⟩ - denv hdenv n₀
    obtain ⟨b, hb, hpeek, -⟩ := libmsxDecodeFile_opened hP hc hne hdenv hsize hkeys n₀
    exact ⟨b, hb, (hpeek hacc).trans hrec⟩

/-- What it takes to stay inside the blocks, when the magic is found. -/
theorem staysInBounds_iff {P : Prims} (hP : P.Lawful) {env : EncodeFileEnv} (henv : env.Succeeds)
    (file : List UInt8) {inp : List UInt8} (keys keys' : Mem) (seek : ℕ) (hne : inp ≠ [])
    (hlen : inp.length < 2 ^ 32)
    (hsize : 3 ≤ u32 (seek + Libc0.size + cipherLength (storedStream P inp).length)) :
    StaysInBounds P env file inp keys keys' seek ↔ FitsBlocks P inp ∧
      u32 (seek + Libc0.size + cipherLength (storedStream P inp).length) + 3 < 2 ^ 32 := by
  obtain ⟨c, hc, -, hfile⟩ := libmsxEncodeFile_ok hP henv file keys seek hne hlen
  rw [StaysInBounds, encodeInBounds_iff hP henv.encode keys hne hlen, hfile]
  rw [← hc.length_file] at hsize ⊢
  refine and_congr_right fun hfits => ?_
  have hlen4 : inp.length + 4 < 2 ^ 32 := lt_of_le_of_lt (by omega) hfits.2
  have hiff := fun denv (hdenv : DecodeFileEnv.Succeeds denv) =>
    decodeFile_inBounds_iff hP hc hlen4 keys' hdenv hsize
  exact ⟨fun h => (hiff _ (DecodeFileEnv.full_succeeds Mem.zero)).mp
    (h rfl _ (DecodeFileEnv.full_succeeds Mem.zero)), fun h _ denv hdenv => (hiff denv hdenv).mpr h⟩

/-! ### Failures that are not reported -/

/-- The allocation of `zctwo` fails, and the header holds `1` in `number`. -/
def EncodeFileEnv.noZctwo : EncodeFileEnv :=
  ⟨true, ⟨some (Mem.zero.put32 232 1), some (Vector.replicate 8 0, Mem.zero),
    ⟨none, true, some Mem.zero, 0, 0⟩⟩, true, true, ⟨true, some maxTransfer, some maxTransfer⟩⟩

/-- What `libmsx_encode` returns then. -/
theorem libmsxEncode_noZctwo {P : Prims} (hP : P.Lawful) (inp : List UInt8) (keys : Mem) :
    ∃ c, libmsxEncode P EncodeFileEnv.noZctwo.encode inp keys 0 = (some c, 273) ∧
      c.number = 1 ∧ c.maxinum = 0 := by
  obtain ⟨c, hc⟩ : ∃ c, libmsxEncode P EncodeFileEnv.noZctwo.encode inp keys 0 =
      (some c, u32 (c.number + Libc0.size)) := ⟨_, rfl⟩
  have himg : ∀ off n, 232 ≤ off ∧ off + n ≤ 240 ∨ 244 ≤ off ∧ off + n ≤ 264 →
      c.img.peek off n = (Mem.zero.put32 232 1).peek off n := by
    intro off n hoff
    have hsome := Option.some.inj (congrArg Prod.fst hc)
    rw [← hsome]
    have h32 := hP.length_sha256
    have hmagic : msxMagic.length = 3 := rfl
    have hkeys : ∀ c₀ : Libc0, (if inp = [] then c₀ else c₀.setKeys P inp).img.peek off n =
        c₀.img.peek off n := fun c₀ => by
      split_ifs
      · rfl
      · exact Libc0.setKeys_tail P _ _ (by omega)
    unfold EncodeFileEnv.noZctwo libc0Encrypt
    rw [Libc0.settle_peek _ (by omega), hkeys, Libc0.store_img,
      Mem.peek_poke_disjoint _ _ (by omega), Mem.peek_poke_disjoint _ _ (by omega),
      Mem.peek_poke_disjoint _ _ (by rw [h32]; omega), Mem.peek_poke_disjoint _ _ (by rw [h32]; omega)]
  have hnum : c.number = 1 := (Mem.get32_congr (himg 232 4 (by omega))).trans (Mem.get32_put32 _ _ _)
  have hmax : c.maxinum = 0 := by
    refine (Mem.get32_congr (himg 248 4 (by omega))).trans ?_
    rw [Mem.get32_put32_disjoint _ _ (by omega)]
    rfl
  refine ⟨c, ?_, hnum, hmax⟩
  rw [hc, hnum]
  rfl

/-- For every content there are outcomes of the allocations inside `libc0_encrypt` with which
`libmsx_encode_file` returns `1` and the content is lost. -/
theorem not_givesBack_noZctwo {P : Prims} (hP : P.Lawful) (file : List UInt8) {inp : List UInt8}
    (hne : inp ≠ []) (keys keys' : Mem) (seek : ℕ) :
    (libmsxEncodeFile P EncodeFileEnv.noZctwo file inp keys seek).2 = true ∧
      ¬ GivesBack P EncodeFileEnv.noZctwo file inp keys keys' seek := by
  obtain ⟨c, hc, hnum, hmax⟩ := libmsxEncode_noZctwo hP inp keys
  have hfull : Transfer.Full (some maxTransfer) := ⟨_, rfl, le_rfl⟩
  have hone : Transfer.Covers (some maxTransfer) c.number :=
    hfull.mono (by norm_num [hnum, maxTransfer])
  have hfile : libmsxEncodeFile P EncodeFileEnv.noZctwo file inp keys seek =
      (List.replicate seek 0 ++ c.bytes, true) := by
    have hstore : storeContainer EncodeFileEnv.noZctwo.store file c seek =
        (List.replicate seek 0 ++ c.bytes, true) :=
      storeContainer_full rfl hfull.header hone file seek (by omega)
    unfold libmsxEncodeFile
    rw [hc]
    simpa [EncodeFileEnv.noZctwo] using hstore
  rw [GivesBack, hfile]
  refine ⟨rfl, fun hrt => ?_⟩
  obtain ⟨b, hb, -⟩ := hrt rfl _ (DecodeFileEnv.full_succeeds Mem.zero) (inp.length + 1)
  have hlen := congrArg Prod.snd hb
  have hpos : inp.length ≠ 0 := fun h => hne (List.length_eq_zero_iff.mp h)
  obtain ⟨c', hload, hsame⟩ := loadContainer_full Mem.zero Mem.zero hfull.header hone seek (by omega)
  rcases libmsxDecodeFile_cases P (DecodeFileEnv.full Mem.zero) (List.replicate seek 0 ++ c.bytes)
    (inp.length + 1) keys' seek with ⟨-, h⟩ | ⟨-, -, -, b', h⟩ | ⟨-, -, -, h⟩ | ⟨-, -, c'', hload', -, h⟩
  · rw [h] at hlen
    exact absurd hlen (Nat.succ_ne_self _)
  · rw [h] at hlen
    exact absurd hlen (Nat.succ_ne_self _)
  · rw [h] at hlen
    exact absurd hlen (Nat.succ_ne_self _)
  · obtain rfl := Option.some.inj (hload.symm.trans hload')
    rcases h with h | h
    · exact absurd (h.symm.trans hlen) (Nat.succ_ne_self _)
    · exact hpos (hlen.symm.trans (h.trans (hsame.maxinum.trans hmax)))

/-! ### The theorem -/

/-- **Container round trip.**  When all steps outside the program succeed, a content comes back with
every access inside its block exactly when its compressed form fits in the block made for it, the
digests of the eight bytes at the two copies of the passphrase are equal (or differ after a NUL
byte only), the length of the file, in 32 bits, is neither below three nor so large that the size
of the first block of the decoder wraps around, and the content comes back from as much of its
compressed form as is kept.  The steps inside `libc0_encrypt` matter: for every content there are
outcomes of them with which the encoder returns `1` and the content is lost. -/
theorem container_roundtrip (P : Prims) (hP : P.Lawful) :
    (∀ (env : EncodeFileEnv) (file inp pass : List UInt8) (around around' : Mem) (seek : ℕ),
      env.Succeeds → inp ≠ [] → inp.length < 2 ^ 32 →
      let size := u32 (seek + Libc0.size + cipherLength (storedStream P inp).length)
      (RoundTrips P env file inp (passphrase pass around) (passphrase pass around') seek ↔
        FitsBlocks P inp ∧
        (P.sha256 (keyWindow (passphrase pass around')) = P.sha256 (keyWindow (passphrase pass around)) ∨
          DifferAfterNul (P.sha256 (keyWindow (passphrase pass around')))
            (P.sha256 (keyWindow (passphrase pass around)))) ∧
        3 ≤ size ∧ size + 3 < 2 ^ 32 ∧ Recovers P inp)) ∧
    ∀ (file inp : List UInt8) (keys keys' : Mem) (seek : ℕ), inp ≠ [] →
      ∃ env, (libmsxEncodeFile P env file inp keys seek).2 = true ∧
        ¬ GivesBack P env file inp keys keys' seek := by
  refine ⟨fun env file inp pass around around' seek henv hne hlen => ?_,
    fun file inp keys keys' seek hne => ⟨_, not_givesBack_noZctwo hP file hne keys keys' seek⟩⟩
  have hgives := givesBack_iff hP henv file (passphrase pass around) (passphrase pass around') seek hne hlen
  have hstays := staysInBounds_iff hP henv file (passphrase pass around) (passphrase pass around') seek
    hne hlen
  rw [strnEq_iff_differAfterNul (by rw [hP.length_sha256, hP.length_sha256])] at hgives
  constructor
  · rintro ⟨hstay, hgive⟩
    obtain ⟨hkeys, hsize, hrec⟩ := hgives.mp hgive
    obtain ⟨hfits, hwrap⟩ := (hstays hsize).mp hstay
    exact ⟨hfits, hkeys, hsize, hwrap, hrec⟩
  · rintro ⟨hfits, hkeys, hsize, hwrap, hrec⟩
    exact ⟨(hstays hsize).mpr ⟨hfits, hwrap⟩, hgives.mpr ⟨hkeys, hsize, hrec⟩⟩

theorem EncodeFileEnv.full_succeeds : EncodeFileEnv.full.Succeeds :=
  ⟨_, _, _, _, _, _, _, _, rfl, ⟨_, rfl, le_rfl⟩, ⟨_, rfl, le_rfl⟩⟩

/-- The compressed form of `sampleText` fits. -/
theorem sampleText_fitsBlocks : FitsBlocks samplePrims sampleText := ⟨by decide, by decide⟩

/-- `container_roundtrip` for `sampleText` under `password1`. -/
theorem container_roundtrip_sampleText : RoundTrips samplePrims EncodeFileEnv.full [] sampleText
    (passphrase samplePassword1 Mem.zero) (passphrase samplePassword1 fun _ => 1) 0 := by
  refine ((container_roundtrip samplePrims samplePrims_lawful).1 EncodeFileEnv.full [] sampleText
    samplePassword1 Mem.zero (fun _ => 1) 0 EncodeFileEnv.full_succeeds (by decide)
    (by decide)).mpr ⟨sampleText_fitsBlocks, .inl ?_, ?_, ?_, ?_⟩
  · rw [keyWindow_passphrase (by decide), keyWindow_passphrase (by decide)]
  · decide +kernel
  · decide +kernel
  · exact recovers_of_fits samplePrims_lawful (by decide)

/-- Under the passphrase `pass`, of four bytes, the content does not come back when the memory
behind the second copy is different. -/
theorem container_short_passphrase :
    (libmsxEncodeFile samplePrims EncodeFileEnv.full [] sampleText
      (passphrase (samplePassword.take 4) Mem.zero) 0).2 = true ∧
    StaysInBounds samplePrims EncodeFileEnv.full [] sampleText
      (passphrase (samplePassword.take 4) Mem.zero) (passphrase (samplePassword.take 4) fun _ => 1) 0 ∧
    ¬ GivesBack samplePrims EncodeFileEnv.full [] sampleText
      (passphrase (samplePassword.take 4) Mem.zero) (passphrase (samplePassword.take 4) fun _ => 1) 0 := by
  have hsize : 3 ≤ u32 (0 + Libc0.size + cipherLength (storedStream samplePrims sampleText).length) := by
    decide +kernel
  have hwrap : u32 (0 + Libc0.size + cipherLength (storedStream samplePrims sampleText).length) + 3 <
      2 ^ 32 := by decide +kernel
  obtain ⟨c, -, -, hfile⟩ := libmsxEncodeFile_ok samplePrims_lawful EncodeFileEnv.full_succeeds []
    (passphrase (samplePassword.take 4) Mem.zero) 0 (show sampleText ≠ [] by decide) (by decide)
  refine ⟨congrArg Prod.snd hfile, ?_, fun hrt => ?_⟩
  · exact (staysInBounds_iff samplePrims_lawful EncodeFileEnv.full_succeeds [] _ _ 0 (by decide)
      (by decide) hsize).mpr ⟨sampleText_fitsBlocks, hwrap⟩
  · have hkeys := ((givesBack_iff samplePrims_lawful EncodeFileEnv.full_succeeds [] _ _ 0 (by decide)
      (by decide)).mp hrt).1
    have hdiff : strnEq (sha256Digest (keyWindow (passphrase (samplePassword.take 4) fun _ => 1)))
        (sha256Digest (keyWindow (passphrase (samplePassword.take 4) Mem.zero))) = false := by
      decide +kernel
    exact absurd (hkeys.symm.trans hdiff) Bool.noConfusion

end Carroll
