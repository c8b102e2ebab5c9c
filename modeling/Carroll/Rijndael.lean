import Carroll.Cbc
import Carroll.RijndaelTables

/-! # The cipher of `rijndael.c`

Key schedules and the two block functions, with the rounds written out as under `FULL_UNROLL`.

* A schedule `rk` is an array of words, `Function.update` a store to it; the pointer `rk` that a
  loop advances is an offset.  The arrays of `rijndael_ctx` have `4 * (MAXNR + 1)` words.
* A block function reads its whole input before it stores, so it is a function of the block. -/

namespace Carroll

/-- An array of words. -/
abbrev Schedule := ℕ → UInt32

/-- `MAXNR`. -/
def maxNr : ℕ := 14

/-! ### Key schedules -/

/-- `rijndael_ctx`. -/
structure RijndaelCtx where
  decrypt : Bool
  nr : ℕ
  ek : Schedule
  dk : Schedule

/-- `GETU32(cipherKey + off)`. -/
def keyU32 (cipherKey : Mem) (off : ℕ) : UInt32 :=
  getU32 (cipherKey off) (cipherKey (off + 1)) (cipherKey (off + 2)) (cipherKey (off + 3))

/-- The word that starts a round of the expansion: the bytes of `temp` rotated and substituted, and
the constant of the round. -/
def rotatedWord (temp : UInt32) (i : ℕ) : UInt32 :=
  (look te4 ((temp >>> 16) &&& 0xff) &&& (0xff000000 : UInt32)) ^^^
    (look te4 ((temp >>> 8) &&& 0xff) &&& (0x00ff0000 : UInt32)) ^^^
    (look te4 (temp &&& 0xff) &&& (0x0000ff00 : UInt32)) ^^^
    (look te4 (temp >>> 24) &&& (0x000000ff : UInt32)) ^^^ rcon.getD i 0

/-- The bytes of `temp` substituted in place. -/
def substitutedWord (temp : UInt32) : UInt32 :=
  (look te4 (temp >>> 24) &&& (0xff000000 : UInt32)) ^^^
    (look te4 ((temp >>> 16) &&& 0xff) &&& (0x00ff0000 : UInt32)) ^^^
    (look te4 ((temp >>> 8) &&& 0xff) &&& (0x0000ff00 : UInt32)) ^^^
    (look te4 (temp &&& 0xff) &&& (0x000000ff : UInt32))

/-- `rk[q] = rk[p] ^ v`. -/
def Schedule.put (rk : Schedule) (q p : ℕ) (v : UInt32) : Schedule :=
  Function.update rk q (rk p ^^^ v)

/-- `rk[q] = rk[p] ^ rk[q - 1]` for `n` words from `q` on. -/
def Schedule.chain (rk : Schedule) (q p : ℕ) : ℕ → Schedule
  | 0 => rk
  | n + 1 => Schedule.chain (rk.put q p (rk (q - 1))) (q + 1) (p + 1) n

/-- The loop for 128 bits, with `rk` at offset `p`; it returns within ten rounds. -/
def expand128 : ℕ → ℕ → ℕ → Schedule → Schedule
  | 0, _, _, rk => rk
  | n + 1, p, i, rk =>
      let rk := (rk.put (p + 4) p (rotatedWord (rk (p + 3)) i)).chain (p + 5) (p + 1) 3
      if i + 1 = 10 then rk else expand128 n (p + 4) (i + 1) rk

/-- The loop for 192 bits. -/
def expand192 : ℕ → ℕ → ℕ → Schedule → Schedule
  | 0, _, _, rk => rk
  | n + 1, p, i, rk =>
      let rk := (rk.put (p + 6) p (rotatedWord (rk (p + 5)) i)).chain (p + 7) (p + 1) 3
      if i + 1 = 8 then rk else expand192 n (p + 6) (i + 1) (rk.chain (p + 10) (p + 4) 2)

/-- The loop for 256 bits. -/
def expand256 : ℕ → ℕ → ℕ → Schedule → Schedule
  | 0, _, _, rk => rk
  | n + 1, p, i, rk =>
      let rk := (rk.put (p + 8) p (rotatedWord (rk (p + 7)) i)).chain (p + 9) (p + 1) 3
      if i + 1 = 7 then rk
      else expand256 n (p + 8) (i + 1)
        ((rk.put (p + 12) (p + 4) (substitutedWord (rk (p + 11)))).chain (p + 13) (p + 5) 3)

/-- `rk[i] = GETU32(cipherKey + 4 * i)` for the `n` words from `i` on. -/
def loadKey (cipherKey : Mem) (rk : Schedule) (i : ℕ) : ℕ → Schedule
  | 0 => rk
  | n + 1 => loadKey cipherKey (Function.update rk i (keyU32 cipherKey (4 * i))) (i + 1) n

/-- `rijndaelKeySetupEnc(rk, cipherKey, keyBits)`: the schedule and the number of rounds. -/
def rijndaelKeySetupEnc (rk : Schedule) (cipherKey : Mem) (keyBits : ℕ) : Schedule × ℕ :=
  let rk := loadKey cipherKey rk 0 4
  if keyBits = 128 then (expand128 10 0 0 rk, 10)
  else
    let rk := loadKey cipherKey rk 4 2
    if keyBits = 192 then (expand192 8 0 0 rk, 12)
    else
      let rk := loadKey cipherKey rk 6 2
      if keyBits = 256 then (expand256 7 0 0 rk, 14)
      else (rk, 0)

/-- Exchange the four words at `i` with the four at `j`. -/
def Schedule.swap4 (rk : Schedule) (i j : ℕ) : Schedule :=
  (List.range 4).foldl
    (fun rk k => Function.update (Function.update rk (i + k) (rk (j + k))) (j + k) (rk (i + k))) rk

/-- The loop that inverts the order of the round keys. -/
def invertOrder : ℕ → ℕ → ℕ → Schedule → Schedule
  | 0, _, _, rk => rk
  | n + 1, i, j, rk => if i < j then invertOrder n (i + 4) (j - 4) (rk.swap4 i j) else rk

/-- The inverse `MixColumn` of a word. -/
def unmixWord (w : UInt32) : UInt32 :=
  look td0 (look te4 (w >>> 24) &&& 0xff) ^^^
    look td1 (look te4 ((w >>> 16) &&& 0xff) &&& 0xff) ^^^
    look td2 (look te4 ((w >>> 8) &&& 0xff) &&& 0xff) ^^^
    look td3 (look te4 (w &&& 0xff) &&& 0xff)

/-- Apply it to the four words at `p`. -/
def Schedule.unmix4 (rk : Schedule) (p : ℕ) : Schedule :=
  (List.range 4).foldl (fun rk k => Function.update rk (p + k) (unmixWord (rk (p + k)))) rk

/-- `rijndaelKeySetupDec(rk, cipherKey, keyBits, have_encrypt)`. -/
def rijndaelKeySetupDec (rk : Schedule) (cipherKey : Mem) (keyBits haveEncrypt : ℕ) :
    Schedule × ℕ :=
  let (rk, nr) := if haveEncrypt ≠ 0 then (rk, haveEncrypt)
    else rijndaelKeySetupEnc rk cipherKey keyBits
  let rk := invertOrder nr 0 (4 * nr) rk
  ((List.range (nr - 1)).foldl (fun rk i => rk.unmix4 (4 * (i + 1))) rk, nr)

/-- `rijndael_set_key(ctx, key, bits, do_encrypt)`. -/
def rijndaelSetKey (ctx : RijndaelCtx) (key : Mem) (bits : ℕ) (doEncrypt : Bool) : RijndaelCtx :=
  let (ek, nr) := rijndaelKeySetupEnc ctx.ek key bits
  let size := 4 * (maxNr + 1)
  if doEncrypt then ⟨false, nr, ek, fun i => if i < size then 0 else ctx.dk i⟩
  else ⟨true, nr, ek, (rijndaelKeySetupDec (fun i => if i < size then ek i else ctx.dk i) key bits nr).1⟩

/-! ### Blocks -/

/-- The variables `s0 … s3` or `t0 … t3`. -/
structure Quad where
  s0 : UInt32
  s1 : UInt32
  s2 : UInt32
  s3 : UInt32

/-- A word of the state after a full round of the encryption. -/
def teWord (a b c d k : UInt32) : UInt32 :=
  look te0 (a >>> 24) ^^^ look te1 ((b >>> 16) &&& 0xff) ^^^ look te2 ((c >>> 8) &&& 0xff) ^^^
    look te3 (d &&& 0xff) ^^^ k

/-- The full round with the key at `rk[p]`. -/
def teRound (rk : Schedule) (p : ℕ) (s : Quad) : Quad :=
  ⟨teWord s.s0 s.s1 s.s2 s.s3 (rk p), teWord s.s1 s.s2 s.s3 s.s0 (rk (p + 1)),
    teWord s.s2 s.s3 s.s0 s.s1 (rk (p + 2)), teWord s.s3 s.s0 s.s1 s.s2 (rk (p + 3))⟩

/-- A word of the state after a full round of the decryption. -/
def tdWord (a b c d k : UInt32) : UInt32 :=
  look td0 (a >>> 24) ^^^ look td1 ((b >>> 16) &&& 0xff) ^^^ look td2 ((c >>> 8) &&& 0xff) ^^^
    look td3 (d &&& 0xff) ^^^ k

def tdRound (rk : Schedule) (p : ℕ) (s : Quad) : Quad :=
  ⟨tdWord s.s0 s.s3 s.s2 s.s1 (rk p), tdWord s.s1 s.s0 s.s3 s.s2 (rk (p + 1)),
    tdWord s.s2 s.s1 s.s0 s.s3 (rk (p + 2)), tdWord s.s3 s.s2 s.s1 s.s0 (rk (p + 3))⟩

/-- A word of the last round, from the table `t`. -/
def lastWord (t : List UInt32) (a b c d k : UInt32) : UInt32 :=
  (look t (a >>> 24) &&& (0xff000000 : UInt32)) ^^^
    (look t ((b >>> 16) &&& 0xff) &&& (0x00ff0000 : UInt32)) ^^^
    (look t ((c >>> 8) &&& 0xff) &&& (0x0000ff00 : UInt32)) ^^^
    (look t (d &&& 0xff) &&& (0x000000ff : UInt32)) ^^^ k

def teLast (rk : Schedule) (p : ℕ) (t : Quad) : Quad :=
  ⟨lastWord te4 t.s0 t.s1 t.s2 t.s3 (rk p), lastWord te4 t.s1 t.s2 t.s3 t.s0 (rk (p + 1)),
    lastWord te4 t.s2 t.s3 t.s0 t.s1 (rk (p + 2)), lastWord te4 t.s3 t.s0 t.s1 t.s2 (rk (p + 3))⟩

def tdLast (rk : Schedule) (p : ℕ) (t : Quad) : Quad :=
  ⟨lastWord td4 t.s0 t.s3 t.s2 t.s1 (rk p), lastWord td4 t.s1 t.s0 t.s3 t.s2 (rk (p + 1)),
    lastWord td4 t.s2 t.s1 t.s0 t.s3 (rk (p + 2)), lastWord td4 t.s3 t.s2 t.s1 t.s0 (rk (p + 3))⟩

/-- The rounds `r`, `r + 1`, … written out one after the other, `n` of them. -/
def unrolled (round : Schedule → ℕ → Quad → Quad) (rk : Schedule) (r n : ℕ) (s : Quad) : Quad :=
  (List.range' r n).foldl (fun s r => round rk (4 * r) s) s

/-- Map a byte array block to the cipher state and add the initial round key. -/
def loadBlock (rk : Schedule) (pt : Block) : Quad :=
  ⟨getU32 pt[0] pt[1] pt[2] pt[3] ^^^ rk 0, getU32 pt[4] pt[5] pt[6] pt[7] ^^^ rk 1,
    getU32 pt[8] pt[9] pt[10] pt[11] ^^^ rk 2, getU32 pt[12] pt[13] pt[14] pt[15] ^^^ rk 3⟩

/-- `PUTU32(ct, s0)` … `PUTU32(ct + 12, s3)`. -/
def storeBlock (s : Quad) : Block :=
  ⟨(putU32 s.s0 ++ putU32 s.s1 ++ putU32 s.s2 ++ putU32 s.s3).toArray, rfl⟩

/-- The body that `rijndaelEncrypt` and `rijndaelDecrypt` share: nine rounds, two more when there
are more than ten, another two when there are more than twelve, and the last one. -/
def rijndaelRounds (round last : Schedule → ℕ → Quad → Quad) (rk : Schedule) (nr : ℕ) (s : Quad) :
    Quad :=
  let t := unrolled round rk 1 9 s
  let t := if nr > 10 then
      let t := unrolled round rk 10 2 t
      if nr > 12 then unrolled round rk 12 2 t else t
    else t
  last rk (4 * nr) t

/-- `rijndaelEncrypt(rk, Nr, pt, ct)`. -/
def rijndaelEncrypt (rk : Schedule) (nr : ℕ) (pt : Block) : Block :=
  storeBlock (rijndaelRounds teRound teLast rk nr (loadBlock rk pt))

/-- `rijndaelDecrypt(rk, Nr, ct, pt)`. -/
def rijndaelDecrypt (rk : Schedule) (nr : ℕ) (ct : Block) : Block :=
  storeBlock (rijndaelRounds tdRound tdLast rk nr (loadBlock rk ct))

end Carroll
