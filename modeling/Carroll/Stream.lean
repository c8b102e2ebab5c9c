import Carroll.Cbc
import Carroll.Digest
import Carroll.Md5
import Carroll.Sha256

/-! # The container of `libcrypto`

`libc0_encrypt` (`stream.c`) compresses its input, appends the trailer `LIBC`, encrypts the
result with AES in CBC mode under the SHA-256 and MD5 digests of the input, and leaves the
digests in hexadecimal in the header `libc0_t`; `libc0_decrypt` goes back.

* `libc0_t` is the image of its 272 bytes, which is what the file functions write and read, and
  the memory that its `buffer` points to.  A field is read and written at its offset, and a
  store past the end of a field hits the next one, as `hash[64] = '\0'` does.
* Hashes, the block cipher and zlib are the fields of `Prims`; `Prims.Lawful` is what the round
  trip relies on.
* An allocation returns NULL (`none`) or a block with arbitrary content.  A store past the end of
  a block meets no other data; the accesses that a function makes to its blocks are listed beside
  it, and a run in which one of them leaves its block (`InBounds`) means nothing in C.  Freeing is
  left out.
* Only the digests of a key or an input enter the results, so `SHA256_Init`, `SHA256_Update`,
  `SHA256_Final` are one call of `sha256`, and likewise for MD5. -/

namespace Carroll

/-- The outcome of `inflate` with `Z_FINISH`: whether it was `Z_STREAM_END`, and the output. -/
structure Inflated where
  streamEnd : Bool
  out : List UInt8

/-- The primitives under the container. -/
structure Prims where
  sha256 : List UInt8 → List UInt8
  md5 : List UInt8 → List UInt8
  rijndaelEncrypt : List UInt8 → Block → Block
  rijndaelDecrypt : List UInt8 → Block → Block
  deflate : List UInt8 → List UInt8
  inflate : ℕ → List UInt8 → Inflated

/-- What is assumed of the primitives. -/
structure Prims.Lawful (P : Prims) : Prop where
  length_sha256 : ∀ x, (P.sha256 x).length = 32
  length_md5 : ∀ x, (P.md5 x).length = 16
  decrypt_encrypt : ∀ key b, P.rijndaelDecrypt key (P.rijndaelEncrypt key b) = b
  inflate_deflate : ∀ x, P.inflate x.length (P.deflate x) = ⟨true, x⟩

/-- The size of a block from `emalloc(n)`: `malloc(length + 3)`, in 32 bits. -/
def emallocSize (n : ℕ) : ℕ := u32 (u32 n + 3)

theorem emallocSize_eq {n : ℕ} (h : n + 3 < 2 ^ 32) : emallocSize n = n + 3 := by
  rw [emallocSize, u32_of_lt (n := n) (by omega), u32_of_lt h]

/-! ### Hexadecimal digits -/

/-- The tests `'0' … '9'`, `'a' … 'f'`, `'A' … 'F'`. -/
def isHexDigit (b : UInt8) : Bool :=
  decide (0x30 ≤ b ∧ b ≤ 0x39 ∨ 0x61 ≤ b ∧ b ≤ 0x66 ∨ 0x41 ≤ b ∧ b ≤ 0x46)

/-- The second loop of `bin2hex`: downwards from offset `i`, clear what is no digit. -/
def bin2hexTail (md : Mem) : ℕ → Mem
  | 0 => md
  | i + 1 => if isHexDigit (md (i + 1)) then md else bin2hexTail (md.poke (i + 1) [0]) i

/-- `bin2hex(md, digest, len)`. -/
def bin2hex (md : Mem) (digest : List UInt8) : Mem :=
  bin2hexTail (md.poke 0 (hexes digest)) (2 * digest.length)

/-- The value given to one digit; other bytes stand for themselves. -/
def hexValue (m : UInt8) : UInt8 :=
  if 0x30 ≤ m ∧ m ≤ 0x39 then m - 0x30
  else if 0x61 ≤ m ∧ m ≤ 0x66 then m - 0x61 + 10
  else if 0x41 ≤ m ∧ m ≤ 0x46 then m - 0x41 + 10
  else m

/-- `hex2bin(digest, md, len)`: a byte for every two digits.  What `digest` held before is
shifted out. -/
def hex2bin : List UInt8 → List UInt8
  | a :: b :: md => ((hexValue a <<< 4) ||| hexValue b) :: hex2bin md
  | _ => []

/-- The accesses of `hex2bin(digest, md, len)` to an array `digest` of `size` bytes and an array `md` of
`msize` bytes. -/
def hex2binAccesses (size msize len : ℕ) : List Access :=
  [⟨msize, 0, 2 * (len / 2)⟩, ⟨size, 0, len / 2⟩]

theorem length_hexes (d : List UInt8) : (hexes d).length = 2 * d.length := by
  induction d with
  | nil => rfl
  | cons b d ih =>
      have hcons : hexes (b :: d) = hexByte b ++ hexes d := rfl
      rw [hcons, List.length_append, ih, hexByte, List.length_cons, List.length_cons,
        List.length_cons, List.length_nil]
      ring

theorem isHexDigit_hexDigit (n : ℕ) : isHexDigit (hexDigit n) = true := by
  have h : ∀ k < 16, isHexDigit (hexTable.getD k 0) = true := by decide
  exact h (n % 16) (Nat.mod_lt n (by norm_num))

theorem hexPair (b : UInt8) :
    (hexValue (hexDigit (b.toNat / 16)) <<< 4) ||| hexValue (hexDigit b.toNat) = b := by
  have h : ∀ n < 256, (hexValue (hexDigit (n / 16)) <<< 4) ||| hexValue (hexDigit n) =
      UInt8.ofNat n := by decide +kernel
  have := h b.toNat b.toNat_lt
  rwa [UInt8.ofNat_toNat] at this

/-- `hex2bin` undoes the digits of `bin2hex`. -/
theorem hex2bin_hexes (d : List UInt8) : hex2bin (hexes d) = d := by
  induction d with
  | nil => rfl
  | cons b d ih =>
      have hcons : hexes (b :: d) = hexDigit (b.toNat / 16) :: hexDigit b.toNat :: hexes d := rfl
      rw [hcons, hex2bin, hexPair, ih]

theorem isHexDigit_of_mem_hexes {d : List UInt8} {x : UInt8} (h : x ∈ hexes d) :
    isHexDigit x = true := by
  obtain ⟨b, _, hx⟩ := List.mem_flatMap.mp h
  simp only [hexByte, List.mem_cons, List.not_mem_nil, or_false] at hx
  rcases hx with rfl | rfl <;> exact isHexDigit_hexDigit _

/-- The digits are what `bin2hex` leaves in the first `2 * len` bytes. -/
theorem peek_bin2hex (md : Mem) (digest : List UInt8) :
    (bin2hex md digest).peek 0 (2 * digest.length) = hexes digest := by
  have hpeek : (md.poke 0 (hexes digest)).peek 0 (2 * digest.length) = hexes digest :=
    Mem.peek_poke_of_length md 0 (length_hexes digest)
  rw [bin2hex]
  generalize md.poke 0 (hexes digest) = m at hpeek ⊢
  cases hn : 2 * digest.length with
  | zero => rw [hn] at hpeek; exact hpeek
  | succ k =>
      rw [hn] at hpeek
      rw [bin2hexTail]
      split_ifs
      · exact hpeek
      · -- the byte after the digits was cleared; the last digit ends the loop
        have hkeep : (m.poke (k + 1) [0]).peek 0 (k + 1) = hexes digest := by
          rw [Mem.peek_poke_disjoint _ _ (.inl (by omega)), hpeek]
        cases k with
        | zero => exact hkeep
        | succ j =>
            have hdigit : isHexDigit (m.poke (j + 1 + 1) [0] (j + 1)) = true := by
              apply isHexDigit_of_mem_hexes (d := digest)
              rw [← hkeep, Mem.peek, List.mem_map]
              exact ⟨j + 1, by simp, by simp⟩
            rw [bin2hexTail, if_pos hdigit]
            exact hkeep

/-! ### Padding -/

/-- `AES_BLOCK_SIZE`. -/
def aesBlockSize : ℕ := 16

/-- The loop `while(l++)` of `_secheck_size`, which leaves within 16 rounds. -/
def secheckLoop : ℕ → ℕ → ℕ
  | 0, l => l
  | n + 1, l =>
      if l = 0 then u32 (l + 1)
      else if u32 (l + 1) % aesBlockSize = 0 then u32 (l + 1)
      else secheckLoop n (u32 (l + 1))

/-- `_secheck_size(s)`. -/
def secheckSize (s : ℕ) : ℕ := if s % aesBlockSize ≠ 0 then secheckLoop 16 s else s

/-- The loop climbs to the next multiple of 16, which is `0` behind the last one of 32 bits. -/
theorem secheckLoop_eq {n l : ℕ} (hl : l % 16 ≠ 0) (hn : 16 ≤ n + l % 16) (hlt : l < 2 ^ 32) :
    secheckLoop n l = u32 ((l / 16 + 1) * 16) := by
  induction n generalizing l with
  | zero => omega
  | succ n ih =>
      rw [secheckLoop, if_neg (by omega), aesBlockSize]
      by_cases h : (l + 1) % 16 = 0
      · have hnext : (l / 16 + 1) * 16 = l + 1 := by omega
        rw [hnext, if_pos (by unfold u32; omega)]
      · have hnext : (l + 1) / 16 = l / 16 := by omega
        rw [u32_of_lt (by omega), if_neg h, ih h (by omega) (by omega), hnext]

theorem secheckSize_eq_u32 {s : ℕ} (h : s < 2 ^ 32) : secheckSize s = u32 ((s + 15) / 16 * 16) := by
  unfold secheckSize aesBlockSize
  split_ifs with hs
  · rw [secheckLoop_eq hs (by omega) h]
    congr 2
    omega
  · rw [u32_of_lt (by omega)]
    omega

theorem secheckSize_eq {s : ℕ} (h : s ≤ 2 ^ 32 - 16) : secheckSize s = (s + 15) / 16 * 16 := by
  rw [secheckSize_eq_u32 (by omega), u32_of_lt (by omega)]

/-! ### `zlib` -/

/-- What `zcompress2` leaves behind: `err == Z_OK`, `*destLen` and the bytes stored in `dest`. -/
structure Compressed where
  ok : Bool
  destLen : ℕ
  out : List UInt8

/-- `zcompress2` into a buffer said to hold `destLen` bytes; `init` is the outcome of
`deflateInit`.  `*destLen` is written only when the whole stream fits. -/
def zcompress2 (P : Prims) (init : Bool) (destLen : ℕ) (source : List UInt8) : Compressed :=
  if !init then ⟨false, destLen, []⟩
  else if (P.deflate source).length ≤ destLen then
    ⟨true, (P.deflate source).length, P.deflate source⟩
  else ⟨false, destLen, (P.deflate source).take destLen⟩

/-- `zuncompress` into `destLen` bytes: `*destLen` afterwards and the bytes stored in `dest`.
`*destLen` is written only when `inflate` reaches the end of the stream. -/
def zuncompress (P : Prims) (init : Bool) (destLen : ℕ) (source : List UInt8) : ℕ × List UInt8 :=
  if !init then (destLen, [])
  else
    let r := P.inflate destLen source
    (if r.streamEnd then r.out.length else destLen, r.out)

/-! ### Cipher block chaining in memory -/

/-- An initialisation vector from its bytes. -/
def toBlock (bs : List UInt8) : Block := Vector.ofFn fun i => bs.getD i 0

/-- `ssh_rijndael_cbc` after `ssh_rijndael_init(&rkey, key, iv, 1)`: `dest` afterwards. -/
def rijndaelCbcEncrypt (P : Prims) (key iv : List UInt8) (dest src : Mem) (len : ℕ) : Mem :=
  dest.poke 0 (unblocks (cbcEnc (P.rijndaelEncrypt key) (toBlock iv) (src.blocks 0 (len / 16))))

/-- `ssh_rijndael_cbc` after `ssh_rijndael_init(&rkey, key, iv, 0)`: it goes backwards from the end,
so when `len` is no multiple of 16 the first bytes are left out. -/
def rijndaelCbcDecrypt (P : Prims) (key iv : List UInt8) (dest src : Mem) (len : ℕ) : Mem :=
  dest.poke (len % 16) (unblocks
    (cbcDec (P.rijndaelDecrypt key) (toBlock iv) (src.blocks (len % 16) (len / 16))))

/-- In memory, too, decryption undoes encryption. -/
theorem rijndaelCbc_roundtrip {P : Prims} (hP : P.Lawful) (key iv : List UInt8)
    (dest src mid out : Mem) (n : ℕ)
    (hmid : mid.peek 0 (16 * n) = (rijndaelCbcEncrypt P key iv dest src (16 * n)).peek 0 (16 * n)) :
    (rijndaelCbcDecrypt P key iv out mid (16 * n)).peek 0 (16 * n) = src.peek 0 (16 * n) := by
  have hdiv : 16 * n / 16 = n := by omega
  have hmod : 16 * n % 16 = 0 := by omega
  have henc : mid.blocks 0 n = cbcEnc (P.rijndaelEncrypt key) (toBlock iv) (src.blocks 0 n) := by
    rw [Mem.blocks_congr hmid, rijndaelCbcEncrypt, hdiv]
    have := Mem.blocks_poke_unblocks dest 0
      (cbcEnc (P.rijndaelEncrypt key) (toBlock iv) (src.blocks 0 n))
    rwa [length_cbcEnc, Mem.length_blocks] at this
  rw [rijndaelCbcDecrypt, hmod, hdiv, henc, cbcDec_cbcEnc (hP.decrypt_encrypt key),
    Mem.unblocks_blocks]
  exact Mem.peek_poke_of_length _ _ (Mem.length_peek _ _ _)

/-! ### Primitives for two texts

`samplePrims` computes the digests of `sha2.c` and `md5.c`.  Its cipher and its compression agree
with AES-256 and zlib on what a container of `sampleText`, with or without its last newline, needs,
and are simple invertible functions elsewhere. -/

/-- The configuration `[settings]`, `temp=/var/log`, `logs=/var/log`. -/
def sampleText : List UInt8 :=
  [0x5b, 0x73, 0x65, 0x74, 0x74, 0x69, 0x6e, 0x67, 0x73, 0x5d, 0x0a, 0x74, 0x65, 0x6d, 0x70, 0x3d,
   0x2f, 0x76, 0x61, 0x72, 0x2f, 0x6c, 0x6f, 0x67, 0x0a, 0x6c, 0x6f, 0x67, 0x73, 0x3d, 0x2f, 0x76,
   0x61, 0x72, 0x2f, 0x6c, 0x6f, 0x67, 0x0a]

/-- The zlib stream of `sampleText`. -/
def sampleStream : List UInt8 :=
  [0x78, 0xda, 0x8b, 0x2e, 0x4e, 0x2d, 0x29, 0xc9, 0xcc, 0x4b, 0x2f, 0x8e, 0xe5, 0x2a, 0x49, 0xcd,
   0x2d, 0xb0, 0xd5, 0x2f, 0x4b, 0x2c, 0xd2, 0xcf, 0xc9, 0x4f, 0xe7, 0x02, 0xe2, 0x62, 0x04, 0x0f,
   0x00, 0x23, 0xc0, 0x0d, 0xff]

/-- The zlib stream of `sampleText.dropLast`. -/
def sampleStreamDropLast : List UInt8 :=
  [0x78, 0xda, 0x8b, 0x2e, 0x4e, 0x2d, 0x29, 0xc9, 0xcc, 0x4b, 0x2f, 0x8e, 0xe5, 0x2a, 0x49, 0xcd,
   0x2d, 0xb0, 0xd5, 0x2f, 0x4b, 0x2c, 0xd2, 0xcf, 0xc9, 0x4f, 0xe7, 0x02, 0xe2, 0x62, 0x38, 0x0f,
   0x00, 0x15, 0xc1, 0x0d, 0xf5]

/-- The blocks that AES-256 is given and returns when `sampleText` is encrypted from a zeroed work
block. -/
def sampleBlocks : List (Block × Block) :=
  [(#v[0x15, 0xbd, 0xf5, 0xbd, 0x44, 0x97, 0xd6, 0x45, 0x22, 0x84, 0x62, 0x77, 0x3a, 0x59, 0x22, 0x71],
    #v[0x46, 0xb8, 0xae, 0x93, 0xc2, 0x88, 0x39, 0xa0, 0x24, 0x61, 0x78, 0x39, 0x0b, 0x99, 0xab, 0x87]),
   (#v[0x6b, 0x08, 0x7b, 0xbc, 0x89, 0xa4, 0xeb, 0x6f, 0xed, 0x2e, 0x9f, 0x3b, 0xe9, 0xfb, 0xaf, 0x88],
    #v[0xcc, 0x89, 0x15, 0x5a, 0x58, 0xed, 0xf1, 0x8f, 0x3c, 0x76, 0x50, 0xd6, 0xda, 0x8c, 0x3f, 0xaf]),
   (#v[0xcc, 0xaa, 0xd5, 0x57, 0xa7, 0xed, 0xf1, 0x8f, 0x3c, 0x76, 0x50, 0xd6, 0xda, 0x8c, 0x3f, 0xaf],
    #v[0x83, 0xad, 0xc0, 0x6b, 0xcb, 0x59, 0xb1, 0xf7, 0x6f, 0xcc, 0xfd, 0x37, 0x51, 0x22, 0x9e, 0xf5]),
   (#v[0x83, 0xad, 0xc0, 0x6b, 0xcb, 0x59, 0xb1, 0xf7, 0x6f, 0xcc, 0xfd, 0x37, 0x1d, 0x6b, 0xdc, 0xb6],
    #v[0x7e, 0xb3, 0x47, 0xdd, 0x2e, 0xdd, 0xf4, 0x64, 0xdf, 0xcf, 0x9f, 0xe7, 0x7b, 0xf7, 0x17, 0xee])]

/-- The blocks for `sampleText.dropLast`. -/
def sampleBlocksDropLast : List (Block × Block) :=
  [(#v[0xd9, 0x5c, 0x67, 0x0a, 0x59, 0x38, 0x4d, 0xd7, 0x42, 0x49, 0xdb, 0xe5, 0x47, 0x98, 0x82, 0xa1],
    #v[0xf9, 0xa5, 0xcc, 0x7e, 0xf5, 0x65, 0x68, 0x72, 0x2e, 0xc9, 0x4f, 0xe3, 0xd5, 0x6f, 0xbe, 0xb6]),
   (#v[0xd4, 0x15, 0x19, 0x51, 0xbe, 0x49, 0xba, 0xbd, 0xe7, 0x86, 0xa8, 0xe1, 0x37, 0x0d, 0x86, 0xb9],
    #v[0x1c, 0x41, 0x57, 0x69, 0x8d, 0x8b, 0xcf, 0xf0, 0xb9, 0xe0, 0xaf, 0xa7, 0x72, 0xb3, 0x01, 0x5d]),
   (#v[0x1c, 0x54, 0x96, 0x64, 0x78, 0x8b, 0xcf, 0xf0, 0xb9, 0xe0, 0xaf, 0xa7, 0x72, 0xb3, 0x01, 0x5d],
    #v[0x56, 0xe5, 0x6b, 0x3e, 0xc4, 0x58, 0xaa, 0xce, 0x3a, 0x8d, 0x8d, 0xf5, 0x9e, 0xfe, 0xda, 0x6d]),
   (#v[0x56, 0xe5, 0x6b, 0x3e, 0xc4, 0x58, 0xaa, 0xce, 0x3a, 0x8d, 0x8d, 0xf5, 0xd2, 0xb7, 0x98, 0x2e],
    #v[0x3c, 0xda, 0xce, 0xfb, 0x03, 0xb3, 0xce, 0xff, 0xbe, 0xd1, 0x8e, 0x62, 0x1e, 0x63, 0x06, 0x6f])]

/-- The permutation that exchanges the two blocks of every pair. -/
def swapAll (pairs : List (Block × Block)) : Equiv.Perm Block :=
  pairs.foldr (fun p e => Equiv.swap p.1 p.2 * e) 1

/-- The block cipher under a key. -/
def sampleCipher (key : List UInt8) : Equiv.Perm Block :=
  if key = sha256Digest sampleText then swapAll sampleBlocks
  else if key = sha256Digest sampleText.dropLast then swapAll sampleBlocksDropLast
  else 1

def sampleDeflate (x : List UInt8) : List UInt8 :=
  if x = sampleText then sampleStream
  else if x = sampleText.dropLast then sampleStreamDropLast
  else 0 :: x

def sampleInflate (cap : ℕ) (src : List UInt8) : Inflated :=
  if src = sampleStream then ⟨true, sampleText⟩
  else if src = sampleStreamDropLast then ⟨true, sampleText.dropLast⟩
  else match src with
    | 0 :: x => if x.length ≤ cap then ⟨true, x⟩ else ⟨false, x.take cap⟩
    | _ => ⟨false, []⟩

def samplePrims : Prims where
  sha256 := sha256Digest
  md5 := md5Digest
  rijndaelEncrypt key := sampleCipher key
  rijndaelDecrypt key := (sampleCipher key).symm
  deflate := sampleDeflate
  inflate := sampleInflate

theorem sampleInflate_sampleDeflate (x : List UInt8) :
    sampleInflate x.length (sampleDeflate x) = ⟨true, x⟩ := by
  unfold sampleDeflate sampleInflate
  by_cases hx : x = sampleText
  · simp [hx]
  · have hstreams : sampleStreamDropLast ≠ sampleStream := by decide
    by_cases hx' : x = sampleText.dropLast
    · simp [hx', hstreams, sampleText]
    · have hne : (0 :: x : List UInt8) ≠ sampleStream := by simp [sampleStream]
      have hne' : (0 :: x : List UInt8) ≠ sampleStreamDropLast := by simp [sampleStreamDropLast]
      simp [hx, hx', hne, hne']

theorem samplePrims_lawful : samplePrims.Lawful where
  length_sha256 _ := rfl
  length_md5 _ := rfl
  decrypt_encrypt key b := (sampleCipher key).symm_apply_apply b
  inflate_deflate := sampleInflate_sampleDeflate

end Carroll
