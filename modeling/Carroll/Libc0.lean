import Carroll.Stream

/-! # `libc0_encrypt` and `libc0_decrypt`

The header `libc0_t` with its fields at their offsets, the two functions of `stream.c` on it, and
what they do (`libc0Encrypt_ok`, `libc0Decrypt_ret`, `libc0Decrypt_buffer`).

`libc0_decrypt` calls `zuncompress` without looking at its result.  When `inflate` does not reach
the end of the stream `*destLen` still holds the expected length, so the comparison with
`maxinum` that follows finds nothing wrong. -/

namespace Carroll

/-- `libc0_t`: the image of the structure and the memory that `buffer` points to. -/
structure Libc0 where
  img : Mem
  buffer : Mem

namespace Libc0

/-- `sizeof(libc0_t)`. -/
def size : ℕ := 272

/-- `s0`, `s1`, `s2`. -/
def magic (c : Libc0) : List UInt8 := c.img.peek 0 3

def privateKey (c : Libc0) : List UInt8 := c.img.peek 12 32
def publicKey (c : Libc0) : List UInt8 := c.img.peek 52 32

/-- `mhash.hash`. -/
def hash (c : Libc0) : List UInt8 := c.img.peek 92 64

/-- `skey.key`. -/
def key (c : Libc0) : List UInt8 := c.img.peek 160 32

/-- The address in `buffer`. -/
def bufferAddr (img : Mem) : ℕ := img.get32 264 + 2 ^ 32 * img.get32 268

def number (c : Libc0) : ℕ := c.img.get32 232
def vstate (c : Libc0) : ℕ := c.img.get32 236
def ustatus (c : Libc0) : ℕ := c.img.get32 240
def length (c : Libc0) : ℕ := c.img.get32 244
def maxinum (c : Libc0) : ℕ := c.img.get32 248
def mininum (c : Libc0) : ℕ := c.img.get32 252

/-- Store `bs` at offset `off` of the structure. -/
def store (c : Libc0) (off : ℕ) (bs : List UInt8) : Libc0 := { c with img := c.img.poke off bs }

/-- Store a number in the field at offset `off`. -/
def store32 (c : Libc0) (off n : ℕ) : Libc0 := { c with img := c.img.put32 off n }

end Libc0

/-- `LIBC`, the trailer. -/
def libcTrailer : List UInt8 := [0x4c, 0x49, 0x42, 0x43]

/-- `cstream`, without its NUL. -/
def cstream : List UInt8 :=
  [0x41, 0x45, 0x30, 0x31, 0x32, 0x35, 0x41, 0x30, 0x30, 0x45, 0x46, 0x31, 0x30, 0x32, 0x43, 0x45,
   0x41, 0x30, 0x39, 0x39, 0x30, 0x31, 0x41, 0x34, 0x35, 0x34, 0x38, 0x33, 0x45, 0x30, 0x31, 0x30]

/-- Outcome of the allocations of `libc0_encrypt` and of `deflateInit`, and the addresses that
`zcomp.zctwo.buffer` and `zcomp.zcmac.buffer` hold before they are set. -/
structure EncryptEnv where
  zctwo : Option Mem
  zlib : Bool
  rbuf : Option Mem
  unset : ℕ × ℕ

/-- The digests part of `libc0_encrypt`: `mhash`, `skey` and `ckey`.  Each terminating NUL is stored
one past the array, in the low byte of the length just set. -/
def Libc0.setKeys (P : Prims) (c : Libc0) (inp : List UInt8) : Libc0 :=
  let c := c.store32 240 0
  let c := c.store 92 (List.replicate 68 0)
  let c := c.store 160 (List.replicate 36 0)
  let c := c.store 92 ((bin2hex Mem.zero (P.sha256 inp)).peek 0 64)
  let c := (c.store32 156 64).store 156 [0]
  let c := c.store 160 ((bin2hex Mem.zero (P.md5 inp)).peek 0 32)
  let c := (c.store32 192 32).store 192 [0]
  let c := c.store 196 cstream
  (c.store32 228 32).store 228 [0]

/-- The capacity `(insize*104+50)/100 + 384`, in 32 bits. -/
def zctwoLength (insize : ℕ) : ℕ := u32 (u32 (u32 (insize * 104) + 50) / 100 + 384)

/-- The sizes that `libc0_encrypt` sets: `maxinum`, `mininum`, `vstate` and `number`. -/
def Libc0.setSizes (c : Libc0) (insize outsize : ℕ) : Libc0 :=
  let c := (c.store32 248 insize).store32 252 outsize
  let c := c.store32 236 (secheckSize c.mininum)
  c.store32 232 (u32 (c.vstate + 16))

/-- The block that is encrypted: the compressed bytes, whatever `rbuf` held before, and the
trailer in the last four bytes. -/
def plainBlock (rbuf : Mem) (z : List UInt8) (number : ℕ) : Mem :=
  (rbuf.poke 0 z).poke (u32 (number + 2 ^ 32 - 4)) libcTrailer

/-- `c->length = c->rbits = c->number`. -/
def Libc0.setLengths (c : Libc0) : Libc0 := (c.store32 256 c.number).store32 244 c.number

/-- The last step of `libc0_encrypt`: a status of `0` becomes `1`. -/
def Libc0.settle (c : Libc0) : Libc0 := if c.ustatus = 0 then c.store32 240 1 else c

/-- `libc0_encrypt(c, in, insize)` for a non-NULL `c` and `in`; the source returns nothing. -/
def libc0Encrypt (P : Prims) (env : EncryptEnv) (c : Libc0) (inp : List UInt8) : Libc0 :=
  let c :=
    if inp = [] then c
    else
      let c := c.setKeys P inp
      match env.zctwo with
      | none => c
      | some zctwo =>
          let z := zcompress2 P env.zlib (zctwoLength inp.length) inp
          let zbuf := zctwo.poke 0 z.out
          let c := c.setSizes inp.length z.destLen
          match env.rbuf with
          | none => c
          | some rbuf =>
              let plain := plainBlock rbuf (zbuf.peek 0 z.destLen) c.number
              let buffer := c.buffer.poke 0 (List.replicate 8 0)
              let c := { c with
                buffer := rijndaelCbcEncrypt P (P.sha256 inp) (P.md5 inp) buffer plain c.number }
              c.setLengths
  c.settle

/-- The accesses of `libc0_encrypt` to its blocks and to `c->buffer`, which has `size` bytes; `number`
is what it sets in the header.  Given no bytes it frees two pointers that it has not set. -/
def libc0EncryptAccesses (P : Prims) (env : EncryptEnv) (inp : List UInt8) (size number : ℕ) :
    List Access :=
  if inp = [] then Access.cleanUnset env.unset.1 ++ Access.cleanUnset env.unset.2
  else if env.zctwo.isNone then []
  else
    let zctwo := emallocSize (inp.length + 1)
    let z := zcompress2 P env.zlib (zctwoLength inp.length) inp
    let rbuf := emallocSize (number + 1)
    ⟨zctwo, 0, z.out.length⟩ ::
      if env.rbuf.isNone then []
      else
        [⟨size, 0, 8⟩, ⟨rbuf, 0, z.destLen⟩, ⟨zctwo, 0, z.destLen⟩,
          ⟨rbuf, u32 (number + 2 ^ 32 - 4), 4⟩, ⟨size, 0, number⟩, ⟨rbuf, 0, number⟩]

/-- Outcome of the allocations of `libc0_decrypt` and of `inflateInit`, and the address that
`zcomp.zcone.buffer` holds before it is set. -/
structure DecryptEnv where
  ptr : Option Mem
  zcone : Option Mem
  zlib : Bool
  unset : ℕ

/-- What `libc0_decrypt` leaves behind: its return value and `buffer`. -/
structure Decrypted where
  ret : Bool
  buffer : Option Mem

/-- The decrypted body: `ptr` of `libc0_decrypt`, from a block that held `ptr` before. -/
def libc0Body (P : Prims) (c : Libc0) (ptr : Mem) : Mem :=
  rijndaelCbcDecrypt P (hex2bin c.hash) (hex2bin c.key) (ptr.poke 0 (List.replicate c.length 0))
    c.buffer c.number

/-- `libc0_decrypt(c, buffer, length)` for a non-NULL `c`. -/
def libc0Decrypt (P : Prims) (env : DecryptEnv) (c : Libc0) (buffer : Option Mem) (length : ℕ) :
    Decrypted :=
  match env.ptr with
  | none => ⟨false, buffer⟩
  | some ptr =>
      let ptr := libc0Body P c ptr
      match env.zcone with
      | none => ⟨false, buffer⟩
      | some zcone =>
          let zcone := zcone.poke 0 (List.replicate c.maxinum 0)
          if !strnEq (ptr.peek (u32 (c.number + 2 ^ 32 - 4)) 4) libcTrailer then ⟨false, buffer⟩
          else
            let z := zuncompress P env.zlib c.maxinum (ptr.peek 0 c.mininum)
            let zcone := zcone.poke 0 z.2
            if z.1 ≠ c.maxinum then ⟨false, buffer⟩
            else if length ≠ z.1 then ⟨false, buffer⟩
            else match buffer with
              | none => ⟨false, buffer⟩
              | some b => ⟨true, some (b.poke 0 (zcone.peek 0 z.1))⟩

/-- The accesses of `libc0_decrypt` to its blocks, to `key1` and `key2`, and to `c->buffer`, which has
`size` bytes.  What it copies to `buffer` in the end are the `length` bytes that the caller said are
there.  Without the block for the body it frees `zcomp.zcone.buffer`, which is not set then. -/
def libc0DecryptAccesses (P : Prims) (env : DecryptEnv) (c : Libc0) (size : ℕ) : List Access :=
  match env.ptr with
  | none => Access.cleanUnset env.unset
  | some ptr =>
      let ptr := libc0Body P c ptr
      let block := emallocSize (c.number + 1)
      let str := u32 (c.number + 2 ^ 32 - 4)
      [⟨block, 0, c.length⟩, ⟨size, 0, c.number⟩, ⟨block, 0, c.number⟩] ++
        -- `key1` of 32 bytes from `mhash.hash`, `key2` of 16 bytes from `skey.key`
        (hex2binAccesses 32 64 (32 * 2) ++ hex2binAccesses 16 32 (16 * 2)) ++
        -- `ssh_rijndael_cbc` first copies the last block of its input
        (if c.number = 0 then [] else Access.upTo size c.number 16) ++
        if env.zcone.isNone then []
        else
          [⟨emallocSize (c.maxinum + 1), 0, c.maxinum⟩, ⟨block, str, 4⟩,
            if strnEq (ptr.peek str 4) libcTrailer then ⟨block, 0, c.mininum⟩
            -- `hexdump(ptr, strlen(ptr), 0)`
            else Access.string block ptr]

/-! ### Fields after stores -/

namespace Libc0

section store
variable (c : Libc0) (off : ℕ) (bs : List UInt8) (n : ℕ)

@[simp] theorem store_buffer : (c.store off bs).buffer = c.buffer := rfl
@[simp] theorem store32_buffer : (c.store32 off n).buffer = c.buffer := rfl
@[simp] theorem store_img : (c.store off bs).img = c.img.poke off bs := rfl
@[simp] theorem store32_img : (c.store32 off n).img = c.img.put32 off n := rfl

end store

@[simp] theorem setKeys_buffer (P : Prims) (c : Libc0) (inp : List UInt8) :
    (c.setKeys P inp).buffer = c.buffer := rfl

@[simp] theorem setSizes_buffer (c : Libc0) (m n : ℕ) : (c.setSizes m n).buffer = c.buffer := rfl

/-- The digests part writes nothing below `mhash`. -/
theorem setKeys_head (P : Prims) (c : Libc0) (inp : List UInt8) {off n : ℕ}
    (hoff : off + n ≤ 92) : (c.setKeys P inp).img.peek off n = c.img.peek off n := by
  simp only [setKeys, store_img, store32_img]
  simp (disch := omega) only [Mem.peek_poke_disjoint, Mem.peek_put32_disjoint]

/-- Between `ckey` and `ustatus`, and behind `ustatus`, it writes nothing. -/
theorem setKeys_tail (P : Prims) (c : Libc0) (inp : List UInt8) {off n : ℕ}
    (hoff : 232 ≤ off ∧ off + n ≤ 240 ∨ 244 ≤ off) :
    (c.setKeys P inp).img.peek off n = c.img.peek off n := by
  have h64 : ((bin2hex Mem.zero (P.sha256 inp)).peek 0 64).length = 64 := Mem.length_peek _ _ _
  have h32 : ((bin2hex Mem.zero (P.md5 inp)).peek 0 32).length = 32 := Mem.length_peek _ _ _
  simp only [setKeys, store_img, store32_img]
  simp (disch := simp [cstream]; omega) only [Mem.peek_poke_disjoint, Mem.peek_put32_disjoint]

theorem setKeys_hash {P : Prims} (hP : P.Lawful) (c : Libc0) (inp : List UInt8) :
    (c.setKeys P inp).hash = hexes (P.sha256 inp) := by
  have hlen : (bin2hex Mem.zero (P.sha256 inp)).peek 0 64 = hexes (P.sha256 inp) := by
    have := peek_bin2hex Mem.zero (P.sha256 inp)
    rwa [hP.length_sha256] at this
  have h64 : (hexes (P.sha256 inp)).length = 64 := by rw [length_hexes, hP.length_sha256]
  simp only [hash, setKeys, store_img, store32_img, hlen]
  simp (disch := simp [cstream]) only [Mem.peek_poke_disjoint, Mem.peek_put32_disjoint]
  exact Mem.peek_poke_of_length _ _ h64

theorem setKeys_key {P : Prims} (hP : P.Lawful) (c : Libc0) (inp : List UInt8) :
    (c.setKeys P inp).key = hexes (P.md5 inp) := by
  have hlen : (bin2hex Mem.zero (P.md5 inp)).peek 0 32 = hexes (P.md5 inp) := by
    have := peek_bin2hex Mem.zero (P.md5 inp)
    rwa [hP.length_md5] at this
  have h32 : (hexes (P.md5 inp)).length = 32 := by rw [length_hexes, hP.length_md5]
  simp only [key, setKeys, store_img, store32_img, hlen]
  simp (disch := simp [cstream]) only [Mem.peek_poke_disjoint, Mem.peek_put32_disjoint]
  exact Mem.peek_poke_of_length _ _ h32

section sizes
variable (c : Libc0) (m n : ℕ)

theorem setSizes_peek {off k : ℕ} (h : off + k ≤ 232) :
    (c.setSizes m n).img.peek off k = c.img.peek off k := by
  simp only [setSizes, store32_img]
  simp (disch := omega) only [Mem.peek_put32_disjoint]

theorem setSizes_maxinum : (c.setSizes m n).maxinum = u32 m := by
  simp only [maxinum, setSizes, store32_img]
  simp (disch := omega) only [Mem.get32_put32_disjoint]
  exact Mem.get32_put32 _ 248 m

theorem setSizes_mininum : (c.setSizes m n).mininum = u32 n := by
  simp only [mininum, setSizes, store32_img]
  simp (disch := omega) only [Mem.get32_put32_disjoint]
  exact Mem.get32_put32 _ 252 n

theorem setSizes_vstate : (c.setSizes m n).vstate = u32 (secheckSize (u32 n)) := by
  have hmin : ((c.store32 248 m).store32 252 n).mininum = u32 n := Mem.get32_put32 _ 252 n
  simp only [vstate, setSizes, store32_img, hmin]
  rw [Mem.get32_put32_disjoint _ _ (by omega)]
  exact Mem.get32_put32 _ 236 _

theorem setSizes_number : (c.setSizes m n).number = u32 (u32 (secheckSize (u32 n)) + 16) := by
  have hmin : ((c.store32 248 m).store32 252 n).mininum = u32 n := Mem.get32_put32 _ 252 n
  simp only [number, setSizes, store32_img, vstate, hmin]
  rw [Mem.get32_put32, Mem.get32_put32]
  exact Nat.mod_mod _ _

end sizes

@[simp] theorem settle_buffer (c : Libc0) : c.settle.buffer = c.buffer := by
  unfold settle
  split_ifs <;> rfl

@[simp] theorem setLengths_buffer (c : Libc0) : c.setLengths.buffer = c.buffer := rfl

theorem settle_peek (c : Libc0) {off n : ℕ} (h : off + n ≤ 240 ∨ 244 ≤ off) :
    c.settle.img.peek off n = c.img.peek off n := by
  unfold settle
  split_ifs
  · exact Mem.peek_put32_disjoint _ 1 h
  · rfl

/-- The last stores leave everything but `ustatus`, `length` and `rbits`. -/
theorem final_peek (c : Libc0) (off n : ℕ) (h : off + n ≤ 240 ∨ 248 ≤ off ∧ off + n ≤ 256) :
    c.setLengths.settle.img.peek off n = c.img.peek off n := by
  rw [settle_peek _ (by omega), setLengths, store32_img, store32_img,
    Mem.peek_put32_disjoint _ _ (by omega), Mem.peek_put32_disjoint _ _ (by omega)]

theorem final_length (c : Libc0) : c.setLengths.settle.length = c.number := by
  have hsettle : c.setLengths.settle.img.get32 244 = c.setLengths.img.get32 244 :=
    Mem.get32_congr (settle_peek _ (.inr le_rfl))
  rw [length, hsettle, setLengths, store32_img, Mem.get32_put32]
  exact u32_of_lt (Mem.get32_lt _ _)

end Libc0

/-! ### What `libc0_encrypt` leaves -/

/-- Whatever its allocations do, `libc0_encrypt` leaves the bytes below `mhash`. -/
theorem libc0Encrypt_head (P : Prims) (env : EncryptEnv) (c : Libc0) (inp : List UInt8) :
    (libc0Encrypt P env c inp).img.peek 0 92 = c.img.peek 0 92 := by
  have hkeys : (c.setKeys P inp).img.peek 0 92 = c.img.peek 0 92 := Libc0.setKeys_head P c inp le_rfl
  unfold libc0Encrypt
  dsimp only
  by_cases hne : inp = []
  · rw [if_pos hne, Libc0.settle_peek _ (.inl (by norm_num))]
  · rw [if_neg hne]
    cases env.zctwo with
    | none => rw [Libc0.settle_peek _ (.inl (by norm_num)), hkeys]
    | some zctwo =>
        cases env.rbuf with
        | none =>
            rw [Libc0.settle_peek _ (.inl (by norm_num)), Libc0.setSizes_peek _ _ _ (by norm_num), hkeys]
        | some rbuf =>
            dsimp only
            rw [Libc0.final_peek _ _ _ (.inl (by norm_num)), Libc0.setSizes_peek _ _ _ (by norm_num),
              hkeys]

/-- The part of the deflated input that fits in the capacity given to `zcompress2`. -/
def storedStream (P : Prims) (inp : List UInt8) : List UInt8 :=
  (P.deflate inp).take (zctwoLength inp.length)

theorem zcompress2_stream (P : Prims) (inp : List UInt8) :
    (zcompress2 P true (zctwoLength inp.length) inp).out = storedStream P inp ∧
    (zcompress2 P true (zctwoLength inp.length) inp).destLen = (storedStream P inp).length := by
  unfold zcompress2 storedStream
  rw [List.length_take]
  by_cases h : (P.deflate inp).length ≤ zctwoLength inp.length
  · simp [h, List.take_of_length_le h]
  · simp [h, Nat.min_eq_left (Nat.le_of_not_le h)]

theorem zctwoLength_le (n : ℕ) : zctwoLength n ≤ 42950056 := by
  have := u32_lt (u32 (n * 104) + 50)
  unfold zctwoLength
  exact (Nat.mod_le _ _).trans (by omega)

theorem length_storedStream_le (P : Prims) (inp : List UInt8) :
    (storedStream P inp).length ≤ 42950056 :=
  (List.length_take_le _ _).trans (zctwoLength_le _)

/-- `number` for `n` compressed bytes. -/
def cipherLength (n : ℕ) : ℕ := (n + 15) / 16 * 16 + 16

theorem Libc0.setSizes_number_of_le (c : Libc0) (m : ℕ) {n : ℕ} (h : n ≤ 42950056) :
    (c.setSizes m n).number = cipherLength n := by
  have hround : (n + 15) / 16 * 16 + 16 < 2 ^ 32 := by omega
  rw [Libc0.setSizes_number, u32_of_lt (show n < 2 ^ 32 by omega), secheckSize_eq (by omega),
    u32_of_lt (Nat.lt_of_le_of_lt (Nat.le_add_right _ 16) hround), cipherLength, u32_of_lt hround]

/-- The header and body of a container for `inp`, made from a header `c₀`. -/
structure Encrypted (P : Prims) (inp : List UInt8) (c₀ c : Libc0) : Prop where
  head : c.img.peek 0 92 = c₀.img.peek 0 92
  hash : c.hash = hexes (P.sha256 inp)
  key : c.key = hexes (P.md5 inp)
  number : c.number = cipherLength (storedStream P inp).length
  length : c.length = c.number
  maxinum : c.maxinum = inp.length
  mininum : c.mininum = (storedStream P inp).length
  body : ∃ dest rbuf : Mem, c.buffer =
    rijndaelCbcEncrypt P (P.sha256 inp) (P.md5 inp) dest
      (plainBlock rbuf (storedStream P inp) c.number) c.number

/-- With its allocations successful, `libc0_encrypt` makes a container. -/
theorem libc0Encrypt_ok {P : Prims} (hP : P.Lawful) {env : EncryptEnv} {zctwo rbuf : Mem}
    {unset : ℕ × ℕ} (henv : env = ⟨some zctwo, true, some rbuf, unset⟩) (c₀ : Libc0)
    {inp : List UInt8} (hne : inp ≠ []) (hlen : inp.length < 2 ^ 32) : Encrypted P inp c₀ (libc0Encrypt P env c₀ inp) := by
  subst henv
  obtain ⟨hout, hdest⟩ := zcompress2_stream P inp
  have hz := length_storedStream_le P inp
  have hzbuf : (zctwo.poke 0 (storedStream P inp)).peek 0 (storedStream P inp).length =
      storedStream P inp := Mem.peek_poke_self zctwo 0 _
  unfold libc0Encrypt
  dsimp only
  rw [if_neg hne, hout, hdest, hzbuf]
  generalize hc₁ : (c₀.setKeys P inp).setSizes inp.length (storedStream P inp).length = c₁
  have hnum : c₁.number = cipherLength (storedStream P inp).length := by
    rw [← hc₁, Libc0.setSizes_number_of_le _ _ hz]
  have hmax : c₁.maxinum = inp.length := by
    rw [← hc₁, Libc0.setSizes_maxinum, u32_of_lt hlen]
  have hmin : c₁.mininum = (storedStream P inp).length := by
    rw [← hc₁, Libc0.setSizes_mininum, u32_of_lt (by omega)]
  have hbelow : ∀ off n, off + n ≤ 232 →
      c₁.img.peek off n = (c₀.setKeys P inp).img.peek off n :=
    fun off n h => by rw [← hc₁, Libc0.setSizes_peek _ _ _ h]
  generalize hc₂ : (⟨c₁.img, _⟩ : Libc0) = c₂
  have himg : c₂.img = c₁.img := by rw [← hc₂]
  have hpeek : ∀ off n, off + n ≤ 240 ∨ 248 ≤ off ∧ off + n ≤ 256 →
      c₂.setLengths.settle.img.peek off n = c₁.img.peek off n :=
    fun off n h => by rw [Libc0.final_peek c₂ off n h, himg]
  have hnum₂ : c₂.setLengths.settle.number = c₁.number :=
    Mem.get32_congr (hpeek 232 4 (.inl (by norm_num)))
  constructor
  · rw [hpeek 0 92 (.inl (by norm_num)), hbelow 0 92 (by norm_num), Libc0.setKeys_head P c₀ inp le_rfl]
  · rw [← Libc0.setKeys_hash hP c₀ inp]
    exact (hpeek 92 64 (.inl (by norm_num))).trans (hbelow 92 64 (by norm_num))
  · rw [← Libc0.setKeys_key hP c₀ inp]
    exact (hpeek 160 32 (.inl (by norm_num))).trans (hbelow 160 32 (by norm_num))
  · rw [hnum₂, hnum]
  · rw [Libc0.final_length, hnum₂, Libc0.number, himg]
    rfl
  · rw [← hmax]
    exact Mem.get32_congr (hpeek 248 4 (.inr ⟨le_rfl, by norm_num⟩))
  · rw [← hmin]
    exact Mem.get32_congr (hpeek 252 4 (.inr ⟨by norm_num, by norm_num⟩))
  · refine ⟨c₁.buffer.poke 0 (List.replicate 8 0), rbuf, ?_⟩
    rw [Libc0.settle_buffer, Libc0.setLengths_buffer, hnum₂, ← hc₂]

theorem cipherLength_eq (n : ℕ) : cipherLength n = 16 * ((n + 15) / 16 + 1) := by
  unfold cipherLength
  ring

theorem add_sixteen_le_cipherLength (n : ℕ) : n + 16 ≤ cipherLength n := by
  unfold cipherLength
  omega

theorem cipherLength_le (n : ℕ) : cipherLength n ≤ n + 31 := by
  unfold cipherLength
  omega

/-- When `libc0_encrypt`, its allocations successful, stays inside its blocks. -/
theorem libc0Encrypt_inBounds_iff {P : Prims} {env : EncryptEnv} {zctwo rbuf : Mem} {unset : ℕ × ℕ}
    (henv : env = ⟨some zctwo, true, some rbuf, unset⟩) {inp : List UInt8} (hne : inp ≠ []) (size : ℕ) :
    InBounds (libc0EncryptAccesses P env inp size (cipherLength (storedStream P inp).length)) ↔
      (storedStream P inp).length ≤ emallocSize (inp.length + 1) ∧
      cipherLength (storedStream P inp).length ≤ size := by
  subst henv
  obtain ⟨hout, hdest⟩ := zcompress2_stream P inp
  have hz := length_storedStream_le P inp
  have hle := cipherLength_le (storedStream P inp).length
  have hge : 16 ≤ cipherLength (storedStream P inp).length := Nat.le_add_left _ _
  have hrbuf : emallocSize (cipherLength (storedStream P inp).length + 1) =
      cipherLength (storedStream P inp).length + 4 := emallocSize_eq (by omega)
  have hfits := add_sixteen_le_cipherLength (storedStream P inp).length
  have hstr : u32 (cipherLength (storedStream P inp).length + 2 ^ 32 - 4) =
      cipherLength (storedStream P inp).length - 4 := by
    unfold u32
    omega
  simp only [libc0EncryptAccesses, hne, hout, hdest, hrbuf, hstr, Option.isNone_some, Bool.false_eq_true,
    ↓reduceIte, inBounds_cons, inBounds_nil, and_true, Nat.zero_add]
  omega

/-! ### What `libc0_decrypt` accepts -/

theorem strnEq_libcTrailer {a : List UInt8} (h : a.length = 4) :
    strnEq a libcTrailer = true ↔ a = libcTrailer := by
  rw [strnEq_iff (b := libcTrailer) h]
  refine ⟨fun hor => hor.elim id ?_, .inl⟩
  rintro ⟨k, hk, h0⟩
  -- the trailer has no NUL byte
  have hk0 : libcTrailer[k]? = some 0 := by
    have := congrArg (fun l : List UInt8 => l[k]?) hk
    simpa [List.getElem?_take, h0] using this.symm
  have hlt : k < 4 := (List.getElem?_eq_some_iff.mp hk0).1
  interval_cases k <;> simp [libcTrailer] at hk0

/-- The decrypted body ends in the trailer. -/
def HasTrailer (P : Prims) (c : Libc0) (ptr : Mem) : Prop :=
  (libc0Body P c ptr).peek (u32 (c.number + 2 ^ 32 - 4)) 4 = libcTrailer

/-- What `inflate` makes of the first `mininum` bytes of the decrypted body. -/
def bodyInflated (P : Prims) (c : Libc0) (ptr : Mem) : Inflated :=
  P.inflate c.maxinum ((libc0Body P c ptr).peek 0 c.mininum)

/-- Inflating the body succeeds and gives exactly `maxinum` bytes. -/
def InflatesFully (P : Prims) (zlib : Bool) (c : Libc0) (ptr : Mem) : Prop :=
  zlib = true ∧ (bodyInflated P c ptr).streamEnd = true ∧
    (bodyInflated P c ptr).out.length = c.maxinum

/-- `libc0_decrypt` sees `maxinum` in `*destLen`: because it was stored there, or because nothing
was. -/
def LooksInflated (P : Prims) (zlib : Bool) (c : Libc0) (ptr : Mem) : Prop :=
  zlib = true → (bodyInflated P c ptr).streamEnd = true →
    (bodyInflated P c ptr).out.length = c.maxinum

theorem InflatesFully.looksInflated {P : Prims} {zlib : Bool} {c : Libc0} {ptr : Mem}
    (h : InflatesFully P zlib c ptr) : LooksInflated P zlib c ptr :=
  fun _ _ => h.2.2

/-- The bytes that `zcone` holds in the end: zeros, overwritten by the output of `inflate`. -/
def inflatedBuffer (P : Prims) (zlib : Bool) (c : Libc0) (ptr zcone : Mem) : Mem :=
  (zcone.poke 0 (List.replicate c.maxinum 0)).poke 0
    (if zlib then (bodyInflated P c ptr).out else [])

theorem zuncompress_fst_eq_iff (P : Prims) (zlib : Bool) (c : Libc0) (ptr : Mem) :
    (zuncompress P zlib c.maxinum ((libc0Body P c ptr).peek 0 c.mininum)).1 = c.maxinum ↔
      LooksInflated P zlib c ptr := by
  cases zlib with
  | false => simp [zuncompress, LooksInflated]
  | true => simp [zuncompress, LooksInflated, bodyInflated]

theorem zuncompress_snd (P : Prims) (zlib : Bool) (c : Libc0) (ptr : Mem) :
    (zuncompress P zlib c.maxinum ((libc0Body P c ptr).peek 0 c.mininum)).2 =
      if zlib then (bodyInflated P c ptr).out else [] := by
  cases zlib <;> rfl

/-- What `libc0_decrypt` does once its two blocks are allocated. -/
theorem libc0Decrypt_some (P : Prims) (c : Libc0) (ptr zcone : Mem) (zlib : Bool) (unset : ℕ)
    (buffer : Option Mem) (length : ℕ) :
    (HasTrailer P c ptr ∧ LooksInflated P zlib c ptr ∧ length = c.maxinum ∧
      ∃ b, buffer = some b ∧ libc0Decrypt P ⟨some ptr, some zcone, zlib, unset⟩ c buffer length =
        ⟨true, some (b.poke 0 ((inflatedBuffer P zlib c ptr zcone).peek 0 c.maxinum))⟩) ∨
    ¬ (HasTrailer P c ptr ∧ LooksInflated P zlib c ptr ∧ length = c.maxinum ∧ buffer.isSome) ∧
      libc0Decrypt P ⟨some ptr, some zcone, zlib, unset⟩ c buffer length = ⟨false, buffer⟩ := by
  unfold libc0Decrypt
  dsimp only
  by_cases ht : HasTrailer P c ptr
  · rw [(strnEq_libcTrailer (Mem.length_peek _ _ _)).mpr ht]
    by_cases hz : LooksInflated P zlib c ptr
    · rw [(zuncompress_fst_eq_iff P zlib c ptr).mpr hz]
      by_cases hl : length = c.maxinum
      · cases buffer with
        | none => exact .inr ⟨by simp, by simp [hl]⟩
        | some b =>
            refine .inl ⟨ht, hz, hl, b, rfl, ?_⟩
            rw [zuncompress_snd]
            simp [hl, inflatedBuffer]
      · exact .inr ⟨fun h => hl h.2.2.1, by simp [hl]⟩
    · have hne := mt (zuncompress_fst_eq_iff P zlib c ptr).mp hz
      exact .inr ⟨fun h => hz h.2.1, by simp [hne]⟩
  · have hne : strnEq ((libc0Body P c ptr).peek (u32 (c.number + 2 ^ 32 - 4)) 4) libcTrailer =
        false := by
      rw [← Bool.not_eq_true, strnEq_libcTrailer (Mem.length_peek _ _ _)]
      exact ht
    rw [hne]
    exact .inr ⟨fun h => ht h.1, rfl⟩

/-- The keys fit their arrays. -/
theorem inBounds_keys : InBounds (hex2binAccesses 32 64 (32 * 2) ++ hex2binAccesses 16 32 (16 * 2)) := by
  rw [inBounds_append]
  simp [hex2binAccesses]

/-- When `libc0_decrypt`, its two blocks allocated, stays inside them. -/
theorem libc0Decrypt_inBounds_iff (P : Prims) (c : Libc0) (work zcone : Mem) (zlib : Bool)
    (unset size : ℕ) :
    InBounds (libc0DecryptAccesses P ⟨some work, some zcone, zlib, unset⟩ c size) ↔
      16 ≤ c.number ∧ c.number + 4 < 2 ^ 32 ∧ c.length ≤ c.number + 4 ∧ c.number ≤ size ∧
      c.maxinum + 4 < 2 ^ 32 ∧ (HasTrailer P c work → c.mininum ≤ c.number + 4) ∧
      (¬ HasTrailer P c work → 0 ∈ (libc0Body P c work).peek 0 (c.number + 4)) := by
  have hnumber : c.number < 2 ^ 32 := Mem.get32_lt _ _
  have hmaxinum : c.maxinum < 2 ^ 32 := Mem.get32_lt _ _
  have hblock : c.number ≤ emallocSize (c.number + 1) ↔ c.number + 4 < 2 ^ 32 := by
    unfold emallocSize u32
    omega
  have hzcone : c.maxinum ≤ emallocSize (c.maxinum + 1) ↔ c.maxinum + 4 < 2 ^ 32 := by
    unfold emallocSize u32
    omega
  simp only [libc0DecryptAccesses, Option.isNone_some, Bool.false_eq_true, ↓reduceIte]
  rw [inBounds_append, inBounds_append, inBounds_append, and_iff_left inBounds_keys, inBounds_cons,
    inBounds_cons, inBounds_cons, inBounds_cons, inBounds_cons]
  simp only [inBounds_nil, and_true, Nat.zero_add, hblock, hzcone]
  have hcbc : InBounds (if c.number = 0 then [] else Access.upTo size c.number 16) ↔
      (c.number ≠ 0 → 16 ≤ c.number ∧ c.number ≤ size) := by
    split_ifs with h0 <;> simp [h0]
  rw [hcbc]
  by_cases hfit : c.number + 4 < 2 ^ 32
  · have hstr : u32 (c.number + 2 ^ 32 - 4) + 4 ≤ c.number + 4 ↔ 4 ≤ c.number := by
      unfold u32
      omega
    -- what is read behind the comparison with the trailer
    have hlast : InBounds
        [if strnEq ((libc0Body P c work).peek (u32 (c.number + 2 ^ 32 - 4)) 4) libcTrailer then
          ⟨c.number + 4, 0, c.mininum⟩ else Access.string (c.number + 4) (libc0Body P c work)] ↔
        (HasTrailer P c work → c.mininum ≤ c.number + 4) ∧
        (¬ HasTrailer P c work → 0 ∈ (libc0Body P c work).peek 0 (c.number + 4)) := by
      by_cases ht : HasTrailer P c work
      · rw [if_pos ((strnEq_libcTrailer (Mem.length_peek _ _ _)).mpr ht), inBounds_cons]
        simp [ht]
      · rw [if_neg (mt (strnEq_libcTrailer (Mem.length_peek _ _ _)).mp ht), inBounds_string]
        simp [ht]
    rw [emallocSize_eq hfit, hstr, hlast]
    constructor
    · rintro ⟨⟨⟨hl, hs, hn⟩, hlast⟩, hm, h4, h⟩
      exact ⟨(hlast (by omega)).1, hn, hl, hs, hm, h⟩
    · rintro ⟨h16, hn, hl, hs, hm, h⟩
      exact ⟨⟨⟨hl, hs, hn⟩, fun _ => ⟨h16, hs⟩⟩, hm, by omega, h⟩
  · exact ⟨fun h => absurd h.1.1.2.2 hfit, fun h => absurd h.2.1 hfit⟩

/-- A buffer read back after full inflation is the output of `inflate`. -/
theorem peek_inflatedBuffer {P : Prims} {zlib : Bool} {c : Libc0} {ptr zcone : Mem}
    (h : InflatesFully P zlib c ptr) :
    (inflatedBuffer P zlib c ptr zcone).peek 0 c.maxinum = (bodyInflated P c ptr).out := by
  obtain ⟨hz, _, hlen⟩ := h
  rw [inflatedBuffer, hz, if_pos rfl]
  exact Mem.peek_poke_of_length _ _ hlen

/-! ### Decrypting what was encrypted -/

/-- `c'` has the header and the body of `c`. -/
structure SameContainer (c c' : Libc0) : Prop where
  img : c'.img.peek 0 272 = c.img.peek 0 272
  body : c'.buffer.peek 0 c.number = c.buffer.peek 0 c.number

namespace SameContainer

variable {c c' : Libc0}

theorem refl (c : Libc0) : SameContainer c c := ⟨rfl, rfl⟩

/-- Header and body copied into other blocks. -/
theorem poke (c : Libc0) (ctx body : Mem) :
    SameContainer c ⟨ctx.poke 0 (c.img.peek 0 Libc0.size), body.poke 0 (c.buffer.peek 0 c.number)⟩ :=
  ⟨Mem.peek_poke_of_length ctx 0 (Mem.length_peek c.img 0 Libc0.size),
    Mem.peek_poke_of_length body 0 (Mem.length_peek c.buffer 0 c.number)⟩

theorem peek (h : SameContainer c c') {off n : ℕ} (hn : off + n ≤ 272) :
    c'.img.peek off n = c.img.peek off n :=
  Mem.peek_mono h.img (Nat.zero_le _) (by omega)

theorem get32 (h : SameContainer c c') {off : ℕ} (hn : off + 4 ≤ 272) :
    c'.img.get32 off = c.img.get32 off :=
  Mem.get32_congr (h.peek hn)

theorem number (h : SameContainer c c') : c'.number = c.number := h.get32 (by norm_num)
theorem maxinum (h : SameContainer c c') : c'.maxinum = c.maxinum := h.get32 (by norm_num)
theorem mininum (h : SameContainer c c') : c'.mininum = c.mininum := h.get32 (by norm_num)
theorem length (h : SameContainer c c') : c'.length = c.length := h.get32 (by norm_num)
theorem hash (h : SameContainer c c') : c'.hash = c.hash := h.peek (by norm_num)
theorem key (h : SameContainer c c') : c'.key = c.key := h.peek (by norm_num)
theorem magic (h : SameContainer c c') : c'.magic = c.magic := h.peek (by norm_num)
theorem privateKey (h : SameContainer c c') : c'.privateKey = c.privateKey := h.peek (by norm_num)
theorem publicKey (h : SameContainer c c') : c'.publicKey = c.publicKey := h.peek (by norm_num)

end SameContainer

section roundtrip
variable {P : Prims} {inp : List UInt8} {c₀ c c' : Libc0}

/-- The decrypted body is the block that was encrypted. -/
theorem Encrypted.body_eq (hP : P.Lawful) (h : Encrypted P inp c₀ c) (hc : SameContainer c c')
    (ptr : Mem) : ∃ rbuf, (libc0Body P c' ptr).peek 0 c.number =
      (plainBlock rbuf (storedStream P inp) c.number).peek 0 c.number := by
  obtain ⟨dest, rbuf, hbuf⟩ := h.body
  refine ⟨rbuf, ?_⟩
  have hn : c.number = 16 * (((storedStream P inp).length + 15) / 16 + 1) :=
    h.number.trans (cipherLength_eq _)
  rw [libc0Body, hc.hash, hc.key, h.hash, h.key, hex2bin_hexes, hex2bin_hexes, hc.number]
  have hmid := hc.body
  rw [hbuf] at hmid
  rw [hn] at hmid ⊢
  exact rijndaelCbc_roundtrip hP _ _ dest _ _ _ _ hmid

theorem Encrypted.stored_le_number (h : Encrypted P inp c₀ c) :
    (storedStream P inp).length + 16 ≤ c.number := by
  rw [h.number]
  exact add_sixteen_le_cipherLength _

/-- The trailer is stored in the last four bytes. -/
theorem Encrypted.str_eq (h : Encrypted P inp c₀ c) : u32 (c.number + 2 ^ 32 - 4) = c.number - 4 := by
  have hle := h.stored_le_number
  have hlt := Mem.get32_lt c.img 232
  unfold u32 Libc0.number at *
  omega

theorem Encrypted.hasTrailer (hP : P.Lawful) (h : Encrypted P inp c₀ c) (hc : SameContainer c c')
    (ptr : Mem) : HasTrailer P c' ptr := by
  obtain ⟨rbuf, hbody⟩ := h.body_eq hP hc ptr
  have hle := h.stored_le_number
  have hoff := h.str_eq
  rw [HasTrailer, hc.number, hoff, Mem.peek_mono hbody (Nat.zero_le _) (by omega), plainBlock, hoff]
  exact Mem.peek_poke_self _ _ libcTrailer

theorem Encrypted.bodyInflated_eq (hP : P.Lawful) (h : Encrypted P inp c₀ c)
    (hc : SameContainer c c') (ptr : Mem) :
    bodyInflated P c' ptr = P.inflate inp.length (storedStream P inp) := by
  obtain ⟨rbuf, hbody⟩ := h.body_eq hP hc ptr
  have hle := h.stored_le_number
  have hoff := h.str_eq
  have hsrc : (libc0Body P c' ptr).peek 0 (storedStream P inp).length = storedStream P inp := by
    rw [Mem.peek_mono hbody (k := 0) le_rfl (by omega), plainBlock, hoff,
      Mem.peek_poke_disjoint _ _ (.inl (by omega))]
    exact Mem.peek_poke_self _ 0 _
  rw [bodyInflated, hc.maxinum, hc.mininum, h.maxinum, h.mininum, hsrc]

end roundtrip

end Carroll
