import Carroll.BlockStream
import Carroll.Mem
import Carroll.Md5

/-! # The contexts of `md5.c`

`MD5Update` with all its ways.  A call takes the bytes one by one through `mdContext->in`; under
`LITTLE_ENDIAN`, when nothing waits there and the caller's buffer is aligned, it first takes whole
blocks where they stand (`md5Rounds` of them).  A block there is `UINT4 in[16]`, which is
`unsigned long`: 128 bytes are read for every 64 that the call steps on, so the last round reads
behind the buffer.  `md5Reads` lists what a call reads.

The length is counted twice: `i[0]` has all the bits, in a word of 64, and `i[1]` gets the upper
bits of every `inLen`, which `MD5Final` stores as well.  So the digest of the same bytes depends
on how they were cut into calls (`highBits`). -/

namespace Carroll

/-- `MD5_CTX`: `i[0]`, `i[1]`, `buf` and `in`. -/
structure Md5Ctx where
  low : UInt64
  high : UInt64
  buf : Md5Buf
  pending : List UInt8

/-- `MD5Init`.  What `in` holds stays. -/
def md5Init (c : Md5Ctx) : Md5Ctx := { c with low := 0, high := 0, buf := Md5Buf.init }

/-- `mdi` at the start of a call. -/
def Md5Ctx.mdi (c : Md5Ctx) : ℕ := ((c.low >>> 3) &&& 0x3F).toNat

/-- The number of bits after a call. -/
def Md5Ctx.count (c : Md5Ctx) (inLen : UInt32) : Md5Ctx :=
  let bits := inLen.toUInt64 <<< 3
  let high := if c.low + bits < c.low then c.high + 1 else c.high
  { c with
    low := c.low + bits
    high := high + (inLen.toUInt64 >>> 29) }

/-- The words of `(UINT4 *) inBuf`. -/
def md5Wide (m : Mem) (inBuf : ℕ) : List UInt64 :=
  (List.range 16).map fun i =>
    (List.range 8).foldr (fun j w => (w <<< 8) ||| (m (inBuf + 8 * i + j)).toUInt64) 0

/-- The loop over whole blocks of the caller's buffer, `n` times. -/
def md5Blocks (m : Mem) : ℕ → Md5Buf → ℕ → Md5Buf
  | 0, buf, _ => buf
  | n + 1, buf, inBuf => md5Blocks m n (md5Transform buf (md5Wide m inBuf)) (inBuf + 64)

/-- One round of `while (inLen--)`, with `buf`, `in` and `mdi`. -/
def md5Char (s : Md5Buf × List UInt8 × ℕ) (b : UInt8) : Md5Buf × List UInt8 × ℕ :=
  let pending := copyAt s.2.1 s.2.2 [b]
  let mdi := s.2.2 + 1
  if mdi = 0x40 then (md5Transform s.1 (md5Words pending 16), pending, 0)
  else (s.1, pending, mdi)

/-- How many blocks a call takes where they stand. -/
def md5Rounds (littleEndian : Bool) (c : Md5Ctx) (inBuf : ℕ) (inLen : UInt32) : ℕ :=
  if littleEndian ∧ c.mdi = 0 ∧ inBuf % 4 = 0 then inLen.toNat / 64 else 0

/-- `MD5Update`. -/
def md5Update (littleEndian : Bool) (m : Mem) (c : Md5Ctx) (inBuf : ℕ) (inLen : UInt32) : Md5Ctx :=
  let rounds := md5Rounds littleEndian c inBuf inLen
  let buf := md5Blocks m rounds c.buf inBuf
  let rest := m.peek (inBuf + 64 * rounds) (inLen.toNat - 64 * rounds)
  let s := rest.foldl md5Char (buf, c.pending, c.mdi)
  { c.count inLen with
    buf := s.1
    pending := s.2.1 }

/-- What `MD5Update` reads of the caller's buffer. -/
def md5Reads (littleEndian : Bool) (c : Md5Ctx) (inBuf : ℕ) (inLen : UInt32) : List Access :=
  let rounds := md5Rounds littleEndian c inBuf inLen
  (List.range rounds).map (fun i => ⟨inLen.toNat, 64 * i, 128⟩) ++
    (List.range (inLen.toNat - 64 * rounds)).map fun i => ⟨inLen.toNat, 64 * rounds + i, 1⟩

/-- The memory with `PADDING` at `place`. -/
def md5PaddingMem (place : ℕ) : Mem := Mem.zero.poke place md5Padding

/-- `padLen`: the bytes of `PADDING` that bring `mdi` to 56. -/
def md5PadLen (mdi : ℕ) : ℕ := if mdi < 56 then 56 - mdi else 120 - mdi

/-- `MD5Final`; `place` is where the linker has put `PADDING`. -/
def md5Final (littleEndian : Bool) (place : ℕ) (c : Md5Ctx) : List UInt8 :=
  let padLen := md5PadLen c.mdi
  let d := md5Update littleEndian (md5PaddingMem place) c place (UInt32.ofNat padLen)
  let buf := md5Transform d.buf (md5Words d.pending 14 ++ [c.low, c.high])
  md5Bytes buf.a ++ md5Bytes buf.b ++ md5Bytes buf.c ++ md5Bytes buf.d

/-! ### A run of calls -/

/-- One call: the memory at its time, the address and the length. -/
structure Md5Call where
  mem : Mem
  inBuf : ℕ
  inLen : UInt32

/-- The bytes of a call. -/
def Md5Call.bytes (call : Md5Call) : List UInt8 := call.mem.peek call.inBuf call.inLen.toNat

/-- The bytes of all calls. -/
def md5Msg (calls : List Md5Call) : List UInt8 := calls.flatMap Md5Call.bytes

def md5Calls (littleEndian : Bool) (c : Md5Ctx) (calls : List Md5Call) : Md5Ctx :=
  calls.foldl (fun c call => md5Update littleEndian call.mem c call.inBuf call.inLen) c

/-- What a run of calls reads. -/
def md5CallsReads (littleEndian : Bool) : Md5Ctx → List Md5Call → List Access
  | _, [] => []
  | c, call :: calls =>
      md5Reads littleEndian c call.inBuf call.inLen ++
        md5CallsReads littleEndian (md5Update littleEndian call.mem c call.inBuf call.inLen) calls

/-- What `i[1]` is after the calls: the upper bits of every length, and the carries of `i[0]`. -/
def highBits (calls : List Md5Call) : ℕ :=
  (calls.map fun call => call.inLen.toNat / 2 ^ 29).sum + 8 * (md5Msg calls).length / 2 ^ 64

/-- `md5Digest` with another word in the place of `i[1]`. -/
def md5DigestWith (high : UInt64) (msg : List UInt8) : List UInt8 :=
  let s := msg.foldl md5Byte (Md5Buf.init, [])
  let s := (md5Padding.take (md5PadLen s.2.length)).foldl md5Byte s
  let buf := md5Transform s.1 (md5Words s.2 14 ++ [UInt64.ofNat (8 * msg.length), high])
  md5Bytes buf.a ++ md5Bytes buf.b ++ md5Bytes buf.c ++ md5Bytes buf.d

theorem md5DigestWith_eq (msg : List UInt8) :
    md5DigestWith (UInt64.ofNat (msg.length / 2 ^ 29)) msg = md5Digest msg := rfl

/-! ### The bytes of one call -/

/-- A full `in` goes to `MD5Transform`. -/
def md5Block (buf : Md5Buf) (pending : List UInt8) : Md5Buf :=
  md5Transform buf (md5Words pending 16)

theorem foldl_md5Byte (s : Md5Buf × List UInt8) (x : List UInt8) :
    x.foldl md5Byte s = absorbAll md5Block 64 s x := rfl

/-- `buf`, `in` and `mdi` after the bytes `x`, from `buf` and `pending`: `s` holds `p` in front. -/
structure Pends (s : Md5Buf × List UInt8 × ℕ) (p : Md5Buf × List UInt8) : Prop where
  size : s.2.1.length = 64
  lt : s.2.2 < 64
  eq : p = (s.1, s.2.1.take s.2.2)

variable {s : Md5Buf × List UInt8 × ℕ} {p : Md5Buf × List UInt8}

theorem Pends.length_eq (h : Pends s p) : p.2.length = s.2.2 := by
  have := h.size
  have := h.lt
  rw [h.eq, List.length_take]
  omega

theorem pends_char (h : Pends s p) (b : UInt8) :
    Pends (md5Char s b) (absorb md5Block 64 p b) := by
  obtain ⟨hsize, hlt, rfl⟩ := h
  have htake : (copyAt s.2.1 s.2.2 [b]).take (s.2.2 + 1) = s.2.1.take s.2.2 ++ [b] :=
    take_copyAt _ _ [b] (by simp; omega)
  have hlen : (copyAt s.2.1 s.2.2 [b]).length = 64 := by
    rw [length_copyAt (by simp; omega), hsize]
  have hfull : (s.2.1.take s.2.2 ++ [b]).length = 64 ↔ s.2.2 + 1 = 0x40 := by
    simp
    omega
  simp only [absorb, md5Char, hfull]
  by_cases h64 : s.2.2 + 1 = 0x40
  · -- `in` is full: all of it is the block
    simp only [if_pos h64]
    refine ⟨hlen, by norm_num, ?_⟩
    rw [← htake, h64, List.take_of_length_le hlen.le]
    rfl
  · simp only [if_neg h64]
    exact ⟨hlen, by simp; omega, by rw [htake]⟩

theorem pends_chars (h : Pends s p) (x : List UInt8) :
    Pends (x.foldl md5Char s) (absorbAll md5Block 64 p x) := by
  induction x generalizing s p with
  | nil => exact h
  | cons b x ih => exact ih (pends_char h b)

/-! ### The counters -/

-- `e`: whether the file is built with `LITTLE_ENDIAN`
variable {e : Bool} {c : Md5Ctx} {n k : ℕ}

theorem toUInt64_eq_ofNat (inLen : UInt32) : inLen.toUInt64 = UInt64.ofNat inLen.toNat := by
  apply UInt64.toNat_inj.mp
  have := inLen.toNat_lt
  rw [UInt32.toNat_toUInt64, UInt64.toNat_ofNat_of_lt']
  exact this.trans (by norm_num [UInt64.size])

theorem mdi_eq (h : c.low = bits64 n) : c.mdi = n % 64 := by
  have hlow := bits64_low n (b := 64) ⟨2 ^ 55, by norm_num⟩
  rw [Md5Ctx.mdi, h, UInt64.toNat_and, ← hlow]
  exact Nat.and_two_pow_sub_one_eq_mod _ 6

/-- `c` has counted `n` bytes, and its array has its length. -/
structure Counted5 (c : Md5Ctx) (n : ℕ) : Prop where
  low : c.low = bits64 n
  size : c.pending.length = 64

theorem counted5_init (c : Md5Ctx) (hc : c.pending.length = 64) : Counted5 (md5Init c) 0 :=
  ⟨rfl, hc⟩

theorem count_low (h : c.low = bits64 n) (inLen : UInt32) :
    (c.count inLen).low = bits64 (n + inLen.toNat) := by
  rw [← bits64_add, ← h, ← shift3_ofNat, ← toUInt64_eq_ofNat]
  rfl

/-- `i[1]`: the upper bits of the length, and a carry when `i[0]` runs over. -/
theorem count_high (h : c.low = bits64 n) (hk : c.high = UInt64.ofNat (k + 8 * n / 2 ^ 64))
    (inLen : UInt32) : (c.count inLen).high =
      UInt64.ofNat (k + inLen.toNat / 2 ^ 29 + 8 * (n + inLen.toNat) / 2 ^ 64) := by
  have hlen := inLen.toNat_lt
  have hupper : inLen.toUInt64 >>> 29 = UInt64.ofNat (inLen.toNat / 2 ^ 29) := by
    apply UInt64.toNat_inj.mp
    rw [UInt64.toNat_shiftRight, UInt32.toNat_toUInt64, UInt64.toNat_ofNat_of_lt']
    · simp [Nat.shiftRight_eq_div_pow]
    · norm_num [UInt64.size]
      omega
  have hcarry : bits64 n + inLen.toUInt64 <<< 3 < bits64 n ↔
      2 ^ 64 ≤ 8 * n % 2 ^ 64 + 8 * inLen.toNat := by
    rw [toUInt64_eq_ofNat, shift3_ofNat, bits64_add, UInt64.lt_iff_toNat_lt, bits64, bits64,
      UInt64.toNat_ofNat', UInt64.toNat_ofNat']
    omega
  have hsum : (c.count inLen).high =
      (if 2 ^ 64 ≤ 8 * n % 2 ^ 64 + 8 * inLen.toNat then c.high + 1 else c.high) +
        UInt64.ofNat (inLen.toNat / 2 ^ 29) := by
    simp only [Md5Ctx.count, h, hcarry, hupper]
  rw [hsum, hk]
  by_cases h64 : 2 ^ 64 ≤ 8 * n % 2 ^ 64 + 8 * inLen.toNat
  · rw [if_pos h64, show (1 : UInt64) = UInt64.ofNat 1 from rfl, ← UInt64.ofNat_add,
      ← UInt64.ofNat_add]
    congr 1
    omega
  · rw [if_neg h64, ← UInt64.ofNat_add]
    congr 1
    omega

/-- A call leaves the count right and `in` at its length, whichever way its bytes go. -/
theorem counted5_update (h : Counted5 c n) (m : Mem) (inBuf : ℕ) (inLen : UInt32) :
    Counted5 (md5Update e m c inBuf inLen) (n + inLen.toNat) where
  low := count_low h.low inLen
  size := by
    have hmdi : c.mdi < 64 := mdi_eq h.low ▸ Nat.mod_lt n (by norm_num)
    exact (pends_chars ⟨h.size, hmdi, rfl⟩ _).size

/-! ### What a run reads -/

theorem md5Rounds_eq_zero_iff (h : c.low = bits64 n) (inBuf : ℕ) (inLen : UInt32) :
    md5Rounds e c inBuf inLen = 0 ↔
      ¬ (e = true ∧ n % 64 = 0 ∧ inBuf % 4 = 0 ∧ 64 ≤ inLen.toNat) := by
  rw [md5Rounds, mdi_eq h]
  by_cases hwide : e = true ∧ n % 64 = 0 ∧ inBuf % 4 = 0
  · rw [if_pos hwide]
    obtain ⟨hle, hn, ha⟩ := hwide
    simp only [hle, hn, ha, true_and]
    omega
  · rw [if_neg hwide]
    simp only [true_iff]
    rintro ⟨hle, hn, ha, -⟩
    exact hwide ⟨hle, hn, ha⟩

/-- The last whole block of a call is read beyond its end. -/
theorem md5Reads_inBounds_iff (inBuf : ℕ) (inLen : UInt32) :
    InBounds (md5Reads e c inBuf inLen) ↔ md5Rounds e c inBuf inLen = 0 := by
  rw [md5Reads, inBounds_append]
  constructor
  · rintro ⟨hwide, -⟩
    by_contra hne
    have hrounds : md5Rounds e c inBuf inLen = inLen.toNat / 64 := by
      rw [md5Rounds] at hne ⊢
      by_contra h
      exact hne (if_neg fun hc => h (if_pos hc))
    have hlast := hwide ⟨inLen.toNat, 64 * (md5Rounds e c inBuf inLen - 1), 128⟩
      (List.mem_map.mpr ⟨_, List.mem_range.mpr (by omega), rfl⟩)
    simp only at hlast
    omega
  · intro hzero
    rw [hzero]
    refine ⟨by simp, ?_⟩
    intro a ha
    obtain ⟨i, hi, rfl⟩ := List.mem_map.mp ha
    rw [List.mem_range] at hi
    simp only
    omega

/-- A run of calls stays in the callers' buffers if and only if no call of 64 bytes or more starts
at an aligned address while a whole number of blocks has been taken. -/
theorem md5CallsReads_inBounds_iff (h : c.low = bits64 n) (calls : List Md5Call) :
    InBounds (md5CallsReads e c calls) ↔
      ∀ before call after, calls = before ++ call :: after →
        ¬ (e = true ∧ (n + (md5Msg before).length) % 64 = 0 ∧ call.inBuf % 4 = 0 ∧
          64 ≤ call.inLen.toNat) := by
  induction calls generalizing c n with
  | nil => simp [md5CallsReads]
  | cons first calls ih =>
      have hfirst := md5Rounds_eq_zero_iff (e := e) h first.inBuf first.inLen
      have hrest := ih (c := md5Update e first.mem c first.inBuf first.inLen)
        (count_low h first.inLen)
      have hlen (before : List Md5Call) :
          n + (md5Msg (first :: before)).length =
            n + first.inLen.toNat + (md5Msg before).length := by
        simp [md5Msg, Md5Call.bytes, add_assoc]
      rw [md5CallsReads, inBounds_append, md5Reads_inBounds_iff, hfirst, hrest]
      constructor
      · rintro ⟨hnow, hlater⟩ before call after hsplit
        cases before with
        | nil =>
            obtain ⟨rfl, rfl⟩ := List.cons.inj hsplit
            simpa [md5Msg] using hnow
        | cons b before =>
            obtain ⟨rfl, hcalls⟩ := List.cons.inj hsplit
            rw [hlen]
            exact hlater before call after hcalls
      · intro hall
        refine ⟨by simpa [md5Msg] using hall [] first calls rfl, ?_⟩
        intro before call after hcalls
        have := hall (first :: before) call after (by rw [hcalls, List.cons_append])
        rwa [hlen] at this

/-- The same after `MD5Init`: what matters is the number of bytes of the calls before. -/
theorem md5_reads (c : Md5Ctx) (calls : List Md5Call) :
    InBounds (md5CallsReads e (md5Init c) calls) ↔
      ∀ before call after, calls = before ++ call :: after →
        ¬ (e = true ∧ (md5Msg before).length % 64 = 0 ∧ call.inBuf % 4 = 0 ∧
          64 ≤ call.inLen.toNat) := by
  have h := md5CallsReads_inBounds_iff (e := e) (c := md5Init c) (n := 0) rfl calls
  simpa only [zero_add] using h

/-! ### What a run computes -/

/-- `c` has taken `msg` byte by byte. -/
structure Took (c : Md5Ctx) (msg : List UInt8) : Prop extends Counted5 c msg.length where
  absorbed : absorbAll md5Block 64 (Md5Buf.init, []) msg =
    (c.buf, c.pending.take (msg.length % 64))

variable {msg : List UInt8}

theorem Took.pends (h : Took c msg) :
    Pends (c.buf, c.pending, c.mdi) (absorbAll md5Block 64 (Md5Buf.init, []) msg) where
  size := h.size
  lt := mdi_eq h.low ▸ Nat.mod_lt _ (by norm_num)
  eq := by rw [mdi_eq h.low, h.absorbed]

/-- A call that reads inside its buffer takes its bytes one by one. -/
theorem took_update (h : Took c msg) {m : Mem} {inBuf : ℕ} {inLen : UInt32}
    (hzero : md5Rounds e c inBuf inLen = 0) :
    Took (md5Update e m c inBuf inLen) (msg ++ m.peek inBuf inLen.toNat) := by
  have hcount := counted5_update (e := e) h.toCounted5 m inBuf inLen
  have hpends := pends_chars h.pends (m.peek inBuf inLen.toNat)
  rw [← absorbAll_append] at hpends
  have hlen := hpends.length_eq
  rw [length_absorbAll (by norm_num), List.length_nil, zero_add] at hlen
  refine ⟨?_, ?_⟩
  · rwa [List.length_append, Mem.length_peek]
  · rw [hlen]
    have hupdate : md5Update e m c inBuf inLen =
        { c.count inLen with
          buf := ((m.peek inBuf inLen.toNat).foldl md5Char (c.buf, c.pending, c.mdi)).1
          pending :=
            ((m.peek inBuf inLen.toNat).foldl md5Char (c.buf, c.pending, c.mdi)).2.1 } := by
      rw [md5Update, hzero]
      rfl
    rw [hupdate]
    exact hpends.eq

theorem took_calls (h : Took c msg) (calls : List Md5Call)
    (hreads : InBounds (md5CallsReads e c calls)) :
    Took (md5Calls e c calls) (msg ++ md5Msg calls) := by
  induction calls generalizing c msg with
  | nil => simpa [md5Msg, md5Calls] using h
  | cons call calls ih =>
      rw [md5CallsReads, inBounds_append, md5Reads_inBounds_iff] at hreads
      have hnext := ih (took_update (m := call.mem) h hreads.1) hreads.2
      rwa [List.append_assoc] at hnext

/-- `i[1]` after a run, whichever way the bytes go. -/
theorem high_calls (hlow : c.low = bits64 n) (hk : c.high = UInt64.ofNat (k + 8 * n / 2 ^ 64))
    (calls : List Md5Call) : (md5Calls e c calls).high =
      UInt64.ofNat (k + (calls.map fun call => call.inLen.toNat / 2 ^ 29).sum +
        8 * (n + (md5Msg calls).length) / 2 ^ 64) := by
  induction calls generalizing c n k with
  | nil => simpa [md5Msg, md5Calls] using hk
  | cons call calls ih =>
      have hnext := ih (c := md5Update e call.mem c call.inBuf call.inLen)
        (count_low hlow call.inLen) (count_high hlow hk call.inLen)
      have hlen : (md5Msg (call :: calls)).length =
          call.inLen.toNat + (md5Msg calls).length := by
        simp [md5Msg, Md5Call.bytes]
      rw [hlen, List.map_cons, List.sum_cons, ← add_assoc, ← add_assoc]
      exact hnext

theorem md5Words_congr {p q : List UInt8} {n : ℕ} (h : p.take (4 * n) = q.take (4 * n)) :
    md5Words p n = md5Words q n := by
  have hget (i : ℕ) (hi : i < 4 * n) : p.getD i 0 = q.getD i 0 := by
    have := congrArg (fun l => l.getD i 0) h
    simpa [List.getD_eq_getElem?_getD, List.getElem?_take, hi] using this
  apply List.map_congr_left
  intro i hi
  rw [List.mem_range] at hi
  simp only [hget (4 * i + 3) (by omega), hget (4 * i + 2) (by omega),
    hget (4 * i + 1) (by omega), hget (4 * i + 0) (by omega)]

theorem took_padding (h : Took c msg) (place : ℕ) :
    Took (md5Update e (md5PaddingMem place) c place (UInt32.ofNat (md5PadLen (msg.length % 64))))
      (msg ++ md5Padding.take (md5PadLen (msg.length % 64))) := by
  have hmod := Nat.mod_lt msg.length (show 0 < 64 by norm_num)
  have hle : md5PadLen (msg.length % 64) ≤ 64 ∧
      (msg.length % 64 = 0 → md5PadLen (msg.length % 64) < 64) := by
    unfold md5PadLen
    split <;> omega
  have hnat : (UInt32.ofNat (md5PadLen (msg.length % 64))).toNat = md5PadLen (msg.length % 64) :=
    UInt32.toNat_ofNat_of_lt' (lt_of_le_of_lt hle.1 (by norm_num [UInt32.size]))
  -- with nothing waiting, `PADDING` gives fewer than 64 bytes
  have hzero : md5Rounds e c place (UInt32.ofNat (md5PadLen (msg.length % 64))) = 0 := by
    rw [md5Rounds_eq_zero_iff h.low, hnat]
    rintro ⟨-, hn, -, h64⟩
    exact absurd (hle.2 hn) (by omega)
  have htook := took_update (m := md5PaddingMem place) h hzero
  have hpeek : (md5PaddingMem place).peek place (md5PadLen (msg.length % 64)) =
      md5Padding.take (md5PadLen (msg.length % 64)) := by
    rw [← Mem.take_peek _ _ hle.1]
    exact congrArg _ (Mem.peek_poke_self _ _ md5Padding)
  rwa [hnat, hpeek] at htook

/-- `MD5Final` never takes the bytes of `PADDING` in blocks, and stores `i[1]` as it is. -/
theorem md5Final_eq (h : Took c msg) (place : ℕ) :
    md5Final e place c = md5DigestWith c.high msg := by
  have hpad := took_padding (e := e) h place
  have hmod := Nat.mod_lt msg.length (show 0 < 64 by norm_num)
  have hlen : (msg ++ md5Padding.take (md5PadLen (msg.length % 64))).length % 64 = 56 := by
    rw [List.length_append, List.length_take, show md5Padding.length = 64 from rfl, md5PadLen]
    split <;> omega
  have habsorbed := hpad.absorbed
  rw [absorbAll_append, hlen] at habsorbed
  have hwait : (absorbAll md5Block 64 (Md5Buf.init, []) msg).2.length = msg.length % 64 := by
    have := length_absorbAll (f := md5Block) (s := (Md5Buf.init, [])) (n := 64) (by norm_num) msg
    rwa [List.length_nil, zero_add] at this
  have hwords (pending : List UInt8) : md5Words (pending.take 56) 14 = md5Words pending 14 :=
    md5Words_congr (by rw [List.take_take]; rfl)
  simp only [md5DigestWith, foldl_md5Byte, md5Final, mdi_eq h.low, hwait, habsorbed, hwords, h.low]
  rfl

/-- Short messages leave no upper bits, however they are cut. -/
theorem highBits_of_lt {calls : List Md5Call} (h : (md5Msg calls).length < 2 ^ 29) :
    highBits calls = (md5Msg calls).length / 2 ^ 29 := by
  have hzero : (calls.map fun call => call.inLen.toNat / 2 ^ 29).sum = 0 := by
    apply List.sum_eq_zero
    intro x hx
    obtain ⟨call, hcall, rfl⟩ := List.mem_map.mp hx
    have hle : call.inLen.toNat ≤ (md5Msg calls).length := by
      have hmem := List.mem_map_of_mem (f := fun call => (Md5Call.bytes call).length) hcall
      rw [md5Msg, List.length_flatMap]
      simpa [Md5Call.bytes] using List.le_sum_of_mem hmem
    exact Nat.div_eq_of_lt (lt_of_le_of_lt hle h)
  rw [highBits, hzero, Nat.div_eq_of_lt h]
  omega

/-- After `MD5Init`, calls that read inside their buffers, and `MD5Final`: the digest of all bytes
together, with the upper word that the lengths of the calls have left. -/
theorem md5_stream (c : Md5Ctx) (hc : c.pending.length = 64) (calls : List Md5Call)
    (hreads : InBounds (md5CallsReads e (md5Init c) calls)) (place : ℕ) :
    md5Final e place (md5Calls e (md5Init c) calls) =
        md5DigestWith (UInt64.ofNat (highBits calls)) (md5Msg calls) ∧
      ((md5Msg calls).length < 2 ^ 29 →
        md5Final e place (md5Calls e (md5Init c) calls) = md5Digest (md5Msg calls)) := by
  have hinit : Took (md5Init c) [] :=
    { counted5_init c hc with absorbed := rfl }
  have htook := took_calls hinit calls hreads
  have hhigh := high_calls (e := e) (c := md5Init c) (n := 0) (k := 0) rfl rfl calls
  have hfinal : md5Final e place (md5Calls e (md5Init c) calls) =
      md5DigestWith (UInt64.ofNat (highBits calls)) (md5Msg calls) := by
    rw [md5Final_eq htook, hhigh, List.nil_append, zero_add, zero_add, highBits]
  refine ⟨hfinal, ?_⟩
  intro hlt
  rw [hfinal, highBits_of_lt hlt, md5DigestWith_eq]

/-- Two calls of one and two bytes, at aligned places. -/
theorem md5_stream_abc :
    let calls : List Md5Call := [⟨Mem.zero.poke 16 [97], 16, 1⟩, ⟨Mem.zero.poke 32 [98, 99], 32, 2⟩]
    let c := md5Init ⟨7, 7, ⟨1, 2, 3, 4⟩, List.replicate 64 9⟩
    md5Final true 0 (md5Calls true c calls) =
        md5DigestWith (UInt64.ofNat (highBits calls)) (md5Msg calls) ∧
      ((md5Msg calls).length < 2 ^ 29 →
        md5Final true 0 (md5Calls true c calls) = md5Digest (md5Msg calls)) :=
  md5_stream ⟨7, 7, ⟨1, 2, 3, 4⟩, List.replicate 64 9⟩ rfl
    [⟨Mem.zero.poke 16 [97], 16, 1⟩, ⟨Mem.zero.poke 32 [98, 99], 32, 2⟩]
    (by unfold InBounds; decide) 0

end Carroll
