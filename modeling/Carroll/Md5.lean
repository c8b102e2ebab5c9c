import Mathlib.Tactic

/-! # The MD5 of `md5.c`

`libcrt.h` defines `UINT4` as `unsigned long int`, so on a 64-bit target the rounds of
`MD5Transform` compute modulo `2^64` and `ROTATE_LEFT` keeps the high halves: the digest is
not that of RFC 1321.  The constants, the order of the words and the shifts are as in the
file.

`MD5Update` also has a loop that reads whole blocks straight from a word-aligned caller's
buffer.  It makes no round for fewer than 64 bytes, which is all that the code strings need,
and is left out. -/

namespace Carroll

/-- `mdContext->buf`. -/
structure Md5Buf where
  a : UInt64
  b : UInt64
  c : UInt64
  d : UInt64

/-- The state loaded by `MD5Init`. -/
def Md5Buf.init : Md5Buf := ⟨0x67452301, 0xefcdab89, 0x98badcfe, 0x10325476⟩

/-- `ROTATE_LEFT(x, n)`. -/
def rotateLeft (x n : UInt64) : UInt64 := (x <<< n) ||| (x >>> (32 - n))

/-- The functions `F`, `G`, `H` and `I` of the four rounds. -/
def md5Mix (round : ℕ) (x y z : UInt64) : UInt64 :=
  match round with
  | 0 => (x &&& y) ||| (~~~x &&& z)
  | 1 => (x &&& z) ||| (y &&& ~~~z)
  | 2 => x ^^^ y ^^^ z
  | _ => y ^^^ (x ||| ~~~z)

/-- The word of `in` used by step `i`. -/
def md5Word (i : ℕ) : ℕ :=
  match i / 16 with
  | 0 => i % 16
  | 1 => (5 * i + 1) % 16
  | 2 => (3 * i + 5) % 16
  | _ => 7 * i % 16

/-- The shift `S11 … S44` of step `i`. -/
def md5Shift (i : ℕ) : UInt64 :=
  let row : List UInt64 := match i / 16 with
    | 0 => [7, 12, 17, 22]
    | 1 => [5, 9, 14, 20]
    | 2 => [4, 11, 16, 23]
    | _ => [6, 10, 15, 21]
  row.getD (i % 4) 0

/-- The constants of the 64 steps. -/
def md5Table : List UInt64 :=
  [3614090360, 3905402710, 606105819, 3250441966, 4118548399, 1200080426, 2821735955, 4249261313,
   1770035416, 2336552879, 4294925233, 2304563134, 1804603682, 4254626195, 2792965006, 1236535329,
   4129170786, 3225465664, 643717713, 3921069994, 3593408605, 38016083, 3634488961, 3889429448,
   568446438, 3275163606, 4107603335, 1163531501, 2850285829, 4243563512, 1735328473, 2368359562,
   4294588738, 2272392833, 1839030562, 4259657740, 2763975236, 1272893353, 4139469664, 3200236656,
   681279174, 3936430074, 3572445317, 76029189, 3654602809, 3873151461, 530742520, 3299628645,
   4096336452, 1126891415, 2878612391, 4237533241, 1700485571, 2399980690, 4293915773, 2240044497,
   1873313359, 4264355552, 2734768916, 1309151649, 4149444226, 3174756917, 718787259, 3951481745]

/-- One of `FF`, `GG`, `HH`, `II`; the four variables then change places, as the argument lists
of the next line do. -/
def md5Step (inw : List UInt64) (s : Md5Buf) (i : ℕ) : Md5Buf :=
  let x := s.a + md5Mix (i / 16) s.b s.c s.d + inw.getD (md5Word i) 0 + md5Table.getD i 0
  ⟨s.d, rotateLeft x (md5Shift i) + s.b, s.b, s.c⟩

/-- `MD5Transform(buf, in)`. -/
def md5Transform (buf : Md5Buf) (inw : List UInt64) : Md5Buf :=
  let s := (List.range 64).foldl (md5Step inw) buf
  ⟨buf.a + s.a, buf.b + s.b, buf.c + s.c, buf.d + s.d⟩

/-- The first `n` words of `in`, four bytes each, lowest first. -/
def md5Words (pending : List UInt8) (n : ℕ) : List UInt64 :=
  (List.range n).map fun i =>
    let byte (j : ℕ) : UInt64 := (pending.getD (4 * i + j) 0).toUInt64
    (byte 3 <<< 24) ||| (byte 2 <<< 16) ||| (byte 1 <<< 8) ||| byte 0

/-- One byte of `MD5Update`: the state and the bytes waiting in `mdContext->in`. -/
def md5Byte (s : Md5Buf × List UInt8) (b : UInt8) : Md5Buf × List UInt8 :=
  let pending := s.2 ++ [b]
  if pending.length = 64 then (md5Transform s.1 (md5Words pending 16), []) else (s.1, pending)

/-- `PADDING`. -/
def md5Padding : List UInt8 := 0x80 :: List.replicate 63 0

/-- The four bytes of a word of the digest. -/
def md5Bytes (w : UInt64) : List UInt8 :=
  [w.toUInt8, (w >>> 8).toUInt8, (w >>> 16).toUInt8, (w >>> 24).toUInt8]

/-- `MD5Init`, one `MD5Update` with `msg`, and `MD5Final`. -/
def md5Digest (msg : List UInt8) : List UInt8 :=
  let s := msg.foldl md5Byte (Md5Buf.init, [])
  let mdi := s.2.length
  let padLen := if mdi < 56 then 56 - mdi else 120 - mdi
  let s := (md5Padding.take padLen).foldl md5Byte s
  let bits : UInt64 := UInt64.ofNat (8 * msg.length)
  let buf := md5Transform s.1 (md5Words s.2 14 ++ [bits, UInt64.ofNat (msg.length / 2 ^ 29)])
  md5Bytes buf.a ++ md5Bytes buf.b ++ md5Bytes buf.c ++ md5Bytes buf.d

end Carroll
