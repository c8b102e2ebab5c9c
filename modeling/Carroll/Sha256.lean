import Mathlib.Tactic

/-! # The SHA-256 of `sha2.c`

`SHA256_Transform` in its loop form and the padding of `SHA256_Pad`.  `W256[16]` is a list, and the
second loop uses it modulo 16.  Together with `Md5.lean` this makes the digests of concrete inputs
computable. -/

namespace Carroll

/-- The registers `a … h`, also the intermediate state. -/
structure ShaState where
  a : UInt32
  b : UInt32
  c : UInt32
  d : UInt32
  e : UInt32
  f : UInt32
  g : UInt32
  h : UInt32

/-- `sha256_initial_hash_value`. -/
def ShaState.init : ShaState :=
  ⟨0x6a09e667, 0xbb67ae85, 0x3c6ef372, 0xa54ff53a, 0x510e527f, 0x9b05688c, 0x1f83d9ab, 0x5be0cd19⟩

/-- `K256`. -/
def sha256Table : List UInt32 :=
  [0x428a2f98, 0x71374491, 0xb5c0fbcf, 0xe9b5dba5, 0x3956c25b, 0x59f111f1, 0x923f82a4, 0xab1c5ed5,
   0xd807aa98, 0x12835b01, 0x243185be, 0x550c7dc3, 0x72be5d74, 0x80deb1fe, 0x9bdc06a7, 0xc19bf174,
   0xe49b69c1, 0xefbe4786, 0x0fc19dc6, 0x240ca1cc, 0x2de92c6f, 0x4a7484aa, 0x5cb0a9dc, 0x76f988da,
   0x983e5152, 0xa831c66d, 0xb00327c8, 0xbf597fc7, 0xc6e00bf3, 0xd5a79147, 0x06ca6351, 0x14292967,
   0x27b70a85, 0x2e1b2138, 0x4d2c6dfc, 0x53380d13, 0x650a7354, 0x766a0abb, 0x81c2c92e, 0x92722c85,
   0xa2bfe8a1, 0xa81a664b, 0xc24b8b70, 0xc76c51a3, 0xd192e819, 0xd6990624, 0xf40e3585, 0x106aa070,
   0x19a4c116, 0x1e376c08, 0x2748774c, 0x34b0bcb5, 0x391c0cb3, 0x4ed8aa4a, 0x5b9cca4f, 0x682e6ff3,
   0x748f82ee, 0x78a5636f, 0x84c87814, 0x8cc70208, 0x90befffa, 0xa4506ceb, 0xbef9a3f7, 0xc67178f2]

/-- `S32(b, x)`. -/
def shaRotate (b x : UInt32) : UInt32 := (x >>> b) ||| (x <<< (32 - b))

/-- `Sigma0_256`, `Sigma1_256`. -/
def bigSigma0 (x : UInt32) : UInt32 := shaRotate 2 x ^^^ shaRotate 13 x ^^^ shaRotate 22 x
def bigSigma1 (x : UInt32) : UInt32 := shaRotate 6 x ^^^ shaRotate 11 x ^^^ shaRotate 25 x

/-- `sigma0_256`, `sigma1_256`. -/
def smallSigma0 (x : UInt32) : UInt32 := shaRotate 7 x ^^^ shaRotate 18 x ^^^ (x >>> 3)
def smallSigma1 (x : UInt32) : UInt32 := shaRotate 17 x ^^^ shaRotate 19 x ^^^ (x >>> 10)

/-- The variables after round `j` with the word `w`. -/
def shaRound (w : UInt32) (r : ShaState) (j : ℕ) : ShaState :=
  let t1 := r.h + bigSigma1 r.e + ((r.e &&& r.f) ^^^ (~~~r.e &&& r.g)) + sha256Table.getD j 0 + w
  let t2 := bigSigma0 r.a + ((r.a &&& r.b) ^^^ (r.a &&& r.c) ^^^ (r.b &&& r.c))
  ⟨t1 + t2, r.a, r.b, r.c, r.d + t1, r.e, r.f, r.g⟩

/-- A round of the first loop. -/
def shaLoad (words : List UInt32) (s : ShaState × List UInt32) (j : ℕ) : ShaState × List UInt32 :=
  let w := words.getD j 0
  (shaRound w s.1 j, s.2.set j w)

/-- A round of the second loop: `W256[j&0x0f] += s1 + W256[(j+9)&0x0f] + s0`. -/
def shaExpand (s : ShaState × List UInt32) (j : ℕ) : ShaState × List UInt32 :=
  let s0 := smallSigma0 (s.2.getD ((j + 1) % 16) 0)
  let s1 := smallSigma1 (s.2.getD ((j + 14) % 16) 0)
  let w := s.2.getD (j % 16) 0 + (s1 + s.2.getD ((j + 9) % 16) 0 + s0)
  (shaRound w s.1 j, s.2.set (j % 16) w)

/-- The sixteen big-endian words of a block. -/
def shaWords (block : List UInt8) : List UInt32 :=
  (List.range 16).map fun i =>
    let byte (j : ℕ) : UInt32 := (block.getD (4 * i + j) 0).toUInt32
    (byte 0 <<< 24) ||| (byte 1 <<< 16) ||| (byte 2 <<< 8) ||| byte 3

/-- `SHA256_Transform(state, data)`; `W256`, which is not set at the start, has zeros here. -/
def shaTransform (s : ShaState) (block : List UInt8) : ShaState :=
  let l := (List.range 16).foldl (shaLoad (shaWords block)) (s, List.replicate 16 0)
  let r := ((List.range' 16 48).foldl shaExpand l).1
  ⟨s.a + r.a, s.b + r.b, s.c + r.c, s.d + r.d, s.e + r.e, s.f + r.f, s.g + r.g, s.h + r.h⟩

/-- One byte of `SHA256_Update`: the state and the bytes waiting in `context->buffer`. -/
def shaByte (s : ShaState × List UInt8) (b : UInt8) : ShaState × List UInt8 :=
  let buffer := s.2 ++ [b]
  if buffer.length = 64 then (shaTransform s.1 buffer, []) else (s.1, buffer)

/-- The bytes added by `SHA256_Pad`: a one bit, zeros and the length in bits, big-endian. -/
def shaPadding (len : ℕ) : List UInt8 :=
  let used := len % 64 + 1
  0x80 :: List.replicate (if used ≤ 56 then 56 - used else 120 - used) 0 ++
    (List.range 8).map fun i => UInt8.ofNat (8 * len / 256 ^ (7 - i))

/-- The bytes of a word, highest first. -/
def shaBytes (w : UInt32) : List UInt8 :=
  [(w >>> 24).toUInt8, (w >>> 16).toUInt8, (w >>> 8).toUInt8, w.toUInt8]

/-- `SHA256_Init`, `SHA256_Update` with `msg`, and `SHA256_Final`. -/
def sha256Digest (msg : List UInt8) : List UInt8 :=
  let s := ((msg ++ shaPadding msg.length).foldl shaByte (ShaState.init, [])).1
  shaBytes s.a ++ shaBytes s.b ++ shaBytes s.c ++ shaBytes s.d ++
    shaBytes s.e ++ shaBytes s.f ++ shaBytes s.g ++ shaBytes s.h

/-- The digest of the empty message begins and ends as published. -/
example : (sha256Digest []).take 4 = [0xe3, 0xb0, 0xc4, 0x42] ∧
    (sha256Digest []).drop 28 = [0x78, 0x52, 0xb8, 0x55] := by decide +kernel

end Carroll
