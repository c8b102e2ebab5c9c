import Carroll.Mem

/-! # The checksum of a zlib stream

`adler32` of the bundled zlib keeps two sums of the bytes modulo `BASE`, but takes the remainders
only after `NMAX` bytes, and adds sixteen bytes in a round.  `adler32_eq` says that neither can be
seen: with words of 32 bits or more no sum overflows, and the result is that of a remainder after
every byte.  A checksum that is continued (`adler32_append`) is that of all the bytes. -/

namespace Carroll

/-- `BASE`. -/
def adlerBase : ℕ := 65521

/-- `NMAX`. -/
def adlerNmax : ℕ := 5552

/-- `s1` and `s2`. -/
@[ext]
structure AdlerSums where
  s1 : ℕ
  s2 : ℕ

/-! ### The code, with `unsigned long` of `w` bits -/

/-- `DO1`. -/
def do1 (w : ℕ) (s : AdlerSums) (b : UInt8) : AdlerSums :=
  ⟨(s.s1 + b.toNat) % 2 ^ w, (s.s2 + (s.s1 + b.toNat) % 2 ^ w) % 2 ^ w⟩

def do2 (w : ℕ) (buf : Mem) (i : ℕ) (s : AdlerSums) : AdlerSums :=
  do1 w (do1 w s (buf i)) (buf (i + 1))

def do4 (w : ℕ) (buf : Mem) (i : ℕ) (s : AdlerSums) : AdlerSums :=
  do2 w buf (i + 2) (do2 w buf i s)

def do8 (w : ℕ) (buf : Mem) (i : ℕ) (s : AdlerSums) : AdlerSums :=
  do4 w buf (i + 4) (do4 w buf i s)

def do16 (w : ℕ) (buf : Mem) (i : ℕ) (s : AdlerSums) : AdlerSums :=
  do8 w buf (i + 8) (do8 w buf i s)

/-- The `do` loop over the last bytes of a block. -/
def adlerTail (w : ℕ) (buf : Mem) : ℕ → ℕ → AdlerSums → AdlerSums
  | 0, _, s => s
  | k + 1, off, s => adlerTail w buf k (off + 1) (do1 w s (buf off))

/-- A block of `k` bytes from offset `off` on. -/
def adlerBlock (w : ℕ) (buf : Mem) (k off : ℕ) (s : AdlerSums) : AdlerSums :=
  if 16 ≤ k then adlerBlock w buf (k - 16) (off + 16) (do16 w buf off s)
  else adlerTail w buf k off s

/-- `s1 %= BASE; s2 %= BASE;`. -/
def AdlerSums.reduce (s : AdlerSums) : AdlerSums := ⟨s.s1 % adlerBase, s.s2 % adlerBase⟩

/-- The loop over the blocks. -/
def adlerLoop (w : ℕ) (buf : Mem) (len off : ℕ) (s : AdlerSums) : AdlerSums :=
  if 0 < len then
    let k := if len < adlerNmax then len else adlerNmax
    adlerLoop w buf (len - k) (off + k) (adlerBlock w buf k off s).reduce
  else s
termination_by len
decreasing_by
  have hmax : 0 < adlerNmax := by decide
  split
  · omega
  · omega

/-- `adler32(adler, buf, len)`; `none` is `Z_NULL`. -/
def adler32 (w adler : ℕ) (buf : Option Mem) (len : ℕ) : ℕ :=
  match buf with
  | none => 1
  | some buf =>
      let s := adlerLoop w buf len 0 ⟨adler &&& 0xffff, (adler >>> 16) &&& 0xffff⟩
      (s.s2 <<< 16) % 2 ^ w ||| s.s1

/-! ### One byte at a time -/

variable {w : ℕ} {buf : Mem}

theorem do16_eq (w : ℕ) (buf : Mem) (i : ℕ) (s : AdlerSums) :
    do16 w buf i s = (buf.peek i 16).foldl (do1 w) s := rfl

theorem adlerTail_eq (k off : ℕ) (s : AdlerSums) :
    adlerTail w buf k off s = (buf.peek off k).foldl (do1 w) s := by
  induction k generalizing off s with
  | zero => rfl
  | succ k ih =>
      have hone : buf.peek off 1 = [buf off] := rfl
      rw [adlerTail, ih, Nat.add_comm k 1, Mem.peek_add, hone]
      rfl

theorem adlerBlock_eq (k off : ℕ) (s : AdlerSums) :
    adlerBlock w buf k off s = (buf.peek off k).foldl (do1 w) s := by
  fun_induction adlerBlock w buf k off s with
  | case1 k off s h ih =>
      obtain ⟨j, rfl⟩ := Nat.exists_eq_add_of_le h
      rw [ih, do16_eq, Nat.add_sub_cancel_left, Mem.peek_add, List.foldl_append]
  | case2 k off s h => exact adlerTail_eq k off s

/-! ### No overflow -/

/-- The sums as numbers. -/
def plainStep (s : AdlerSums) (b : UInt8) : AdlerSums := ⟨s.s1 + b.toNat, s.s2 + (s.s1 + b.toNat)⟩

/-- What the sums are at most, `n` bytes after they fitted into 16 bits. -/
structure AdlerSums.Within (s : AdlerSums) (n : ℕ) : Prop where
  s1_le : s.s1 ≤ 65535 + 255 * n
  s2_le : 2 * s.s2 ≤ 131070 * (n + 1) + 255 * (n * (n + 1))

theorem AdlerSums.Within.plainStep {s : AdlerSums} {n : ℕ} (h : s.Within n) (b : UInt8) :
    (plainStep s b).Within (n + 1) := by
  obtain ⟨h1, h2⟩ := h
  have hb := b.toNat_lt
  refine ⟨?_, ?_⟩
  · simp only [Carroll.plainStep]
    omega
  · simp only [Carroll.plainStep]
    nlinarith

/-- Up to `NMAX` bytes the sums fit into 32 bits: the comment at `NMAX`. -/
theorem AdlerSums.Within.lt {s : AdlerSums} {n : ℕ} (h : s.Within n) (hn : n ≤ adlerNmax) :
    s.s1 < 2 ^ 32 ∧ s.s2 < 2 ^ 32 := by
  obtain ⟨h1, h2⟩ := h
  have hn' : n ≤ 5552 := hn
  have hmul : n * (n + 1) ≤ 5552 * 5553 := Nat.mul_le_mul hn' (by omega)
  omega

theorem do1_eq (hw : 32 ≤ w) {s : AdlerSums} {n : ℕ} (h : s.Within n) (hn : n < adlerNmax)
    (b : UInt8) : do1 w s b = plainStep s b := by
  obtain ⟨h1, h2⟩ := (h.plainStep b).lt hn
  have hpow : 2 ^ 32 ≤ 2 ^ w := Nat.pow_le_pow_right (by norm_num) hw
  simp only [plainStep] at h1 h2
  rw [do1, plainStep, Nat.mod_eq_of_lt (h1.trans_le hpow), Nat.mod_eq_of_lt (h2.trans_le hpow)]

theorem foldl_do1 (hw : 32 ≤ w) {bytes : List UInt8} {s : AdlerSums} {n : ℕ} (h : s.Within n)
    (hn : n + bytes.length ≤ adlerNmax) :
    bytes.foldl (do1 w) s = bytes.foldl plainStep s := by
  induction bytes generalizing s n with
  | nil => rfl
  | cons b bytes ih =>
      rw [List.length_cons] at hn
      rw [List.foldl_cons, List.foldl_cons, do1_eq hw h (by omega)]
      exact ih (h.plainStep b) (by omega)

/-! ### The remainders -/

/-- A byte of the checksum as it is defined. -/
def adlerStep (s : AdlerSums) (b : UInt8) : AdlerSums :=
  ⟨(s.s1 + b.toNat) % adlerBase, (s.s2 + (s.s1 + b.toNat) % adlerBase) % adlerBase⟩

theorem reduce_plainStep (s : AdlerSums) (b : UInt8) : (plainStep s b).reduce = adlerStep s b := by
  simp only [plainStep, AdlerSums.reduce, adlerStep, Nat.add_mod_mod]

theorem adlerStep_reduce (s : AdlerSums) (b : UInt8) : adlerStep s.reduce b = adlerStep s b := by
  simp only [adlerStep, AdlerSums.reduce, Nat.mod_add_mod]

/-- The remainders may wait until the end. -/
theorem reduce_foldl (b : UInt8) (bytes : List UInt8) (s : AdlerSums) :
    ((b :: bytes).foldl plainStep s).reduce = (b :: bytes).foldl adlerStep s := by
  induction bytes generalizing b s with
  | nil => exact reduce_plainStep s b
  | cons c bytes ih =>
      rw [List.foldl_cons, ih, List.foldl_cons, List.foldl_cons, List.foldl_cons,
        ← adlerStep_reduce (plainStep s b), reduce_plainStep]

/-- Both sums fit into their half of the result. -/
def AdlerSums.Small (s : AdlerSums) : Prop := s.s1 < 2 ^ 16 ∧ s.s2 < 2 ^ 16

theorem small_adlerStep (s : AdlerSums) (b : UInt8) : (adlerStep s b).Small := by
  have hbase : 0 < adlerBase := by decide
  exact ⟨(Nat.mod_lt _ hbase).trans (by decide), (Nat.mod_lt _ hbase).trans (by decide)⟩

theorem small_foldl {s : AdlerSums} (h : s.Small) (bytes : List UInt8) :
    (bytes.foldl adlerStep s).Small := by
  induction bytes generalizing s with
  | nil => exact h
  | cons b bytes ih => exact ih (small_adlerStep s b)

theorem AdlerSums.Small.within {s : AdlerSums} (h : s.Small) : s.Within 0 := by
  obtain ⟨h1, h2⟩ := h
  exact ⟨by omega, by omega⟩

/-- A block, with its remainders. -/
theorem reduce_adlerBlock (hw : 32 ≤ w) {k off : ℕ} (hpos : 0 < k) (hk : k ≤ adlerNmax)
    {s : AdlerSums} (hs : s.Small) :
    (adlerBlock w buf k off s).reduce = (buf.peek off k).foldl adlerStep s := by
  obtain ⟨b, bytes, hbytes⟩ := List.exists_cons_of_ne_nil (buf.peek_ne_nil off hpos)
  have hlen : 0 + (buf.peek off k).length ≤ adlerNmax := by
    rwa [zero_add, Mem.length_peek]
  rw [adlerBlock_eq, foldl_do1 hw hs.within hlen, hbytes, reduce_foldl]

theorem adlerLoop_eq (hw : 32 ≤ w) (len off : ℕ) {s : AdlerSums} (hs : s.Small) :
    adlerLoop w buf len off s = (buf.peek off len).foldl adlerStep s := by
  induction len using Nat.strong_induction_on generalizing off s with
  | _ len ih =>
      rw [adlerLoop]
      by_cases hlen : 0 < len
      · obtain ⟨k, hk⟩ : ∃ k, (if len < adlerNmax then len else adlerNmax) = k := ⟨_, rfl⟩
        have hmax : 0 < adlerNmax := by decide
        have hround : 0 < k ∧ k ≤ len ∧ k ≤ adlerNmax := by
          rw [← hk]
          split
          · omega
          · omega
        obtain ⟨hpos, hle, hnmax⟩ := hround
        obtain ⟨j, rfl⟩ := Nat.exists_eq_add_of_le hle
        rw [if_pos hlen]
        simp only [hk]
        rw [reduce_adlerBlock hw hpos hnmax hs, Nat.add_sub_cancel_left,
          ih j (by omega) _ (small_foldl hs _), Mem.peek_add, List.foldl_append]
      · rw [if_neg hlen, Nat.eq_zero_of_not_pos hlen]
        rfl

/-! ### The checksum -/

/-- The two halves of a checksum. -/
def adlerSums (adler : ℕ) : AdlerSums := ⟨adler % 2 ^ 16, adler / 2 ^ 16 % 2 ^ 16⟩

/-- The checksum of two sums. -/
def AdlerSums.pack (s : AdlerSums) : ℕ := s.s2 * 2 ^ 16 + s.s1

theorem small_adlerSums (adler : ℕ) : (adlerSums adler).Small :=
  ⟨Nat.mod_lt _ (by norm_num), Nat.mod_lt _ (by norm_num)⟩

theorem adlerSums_pack {s : AdlerSums} (h : s.Small) : adlerSums s.pack = s := by
  obtain ⟨h1, h2⟩ := h
  ext
  · simp only [adlerSums, AdlerSums.pack]
    omega
  · simp only [adlerSums, AdlerSums.pack]
    omega

theorem adler32_some (hw : 32 ≤ w) (adler : ℕ) (buf : Mem) (len : ℕ) :
    adler32 w adler (some buf) len = ((buf.peek 0 len).foldl adlerStep (adlerSums adler)).pack := by
  have hsums : (⟨adler &&& 0xffff, (adler >>> 16) &&& 0xffff⟩ : AdlerSums) = adlerSums adler := by
    have hand (n : ℕ) : n &&& 0xffff = n % 2 ^ 16 := Nat.and_two_pow_sub_one_eq_mod n 16
    rw [hand, hand, Nat.shiftRight_eq_div_pow, adlerSums]
  obtain ⟨h1, h2⟩ := small_foldl (small_adlerSums adler) (buf.peek 0 len)
  have hpow : 2 ^ 32 ≤ 2 ^ w := Nat.pow_le_pow_right (by norm_num) hw
  simp only [adler32, hsums, adlerLoop_eq hw len 0 (small_adlerSums adler)]
  rw [Nat.shiftLeft_eq, Nat.mod_eq_of_lt (by omega), ← Nat.shiftLeft_eq,
    ← Nat.shiftLeft_add_eq_or_of_lt h1, Nat.shiftLeft_eq, AdlerSums.pack]

theorem sum_weights (b : ℕ → ℕ) (len : ℕ) :
    ∑ i ∈ Finset.range (len + 1), (len + 1 - i) * b i =
      ∑ i ∈ Finset.range len, (len - i) * b i + ∑ i ∈ Finset.range (len + 1), b i := by
  have hshift : ∑ i ∈ Finset.range len, (len + 1 - i) * b i =
      ∑ i ∈ Finset.range len, ((len - i) * b i + b i) := by
    refine Finset.sum_congr rfl fun i hi => ?_
    have hlt := Finset.mem_range.mp hi
    rw [Nat.succ_sub hlt.le, Nat.succ_mul]
  rw [Finset.sum_range_succ, Finset.sum_range_succ, hshift, Finset.sum_add_distrib,
    Nat.add_sub_cancel_left, Nat.one_mul, Nat.add_assoc]

/-- The two sums in terms of the bytes. -/
theorem foldl_adlerStep (buf : Mem) (len : ℕ) :
    (buf.peek 0 len).foldl adlerStep ⟨1, 0⟩ =
      ⟨(1 + ∑ i ∈ Finset.range len, (buf i).toNat) % adlerBase,
        (len + ∑ i ∈ Finset.range len, (len - i) * (buf i).toNat) % adlerBase⟩ := by
  induction len with
  | zero => rfl
  | succ len ih =>
      have hone : buf.peek (0 + len) 1 = [buf len] := by
        rw [Nat.zero_add]
        rfl
      rw [Mem.peek_add, List.foldl_append, ih, hone, List.foldl_cons, List.foldl_nil, adlerStep,
        sum_weights, Finset.sum_range_succ]
      ext
      · simp only [Nat.mod_add_mod, Nat.add_assoc]
      · simp only [Nat.mod_add_mod, Nat.add_mod_mod]
        congr 1
        ring

theorem adlerSums_one : adlerSums 1 = ⟨1, 0⟩ := rfl

/-- Neither the late remainders nor the unrolled loop can be seen, and a word of 32 bits is enough:
`s1` is the sum of the bytes and `s2` the sum of all its values on the way. -/
theorem adler32_eq {w : ℕ} (hw : 32 ≤ w) (buf : Mem) (len : ℕ) :
    adler32 w 1 (some buf) len =
      (len + ∑ i ∈ Finset.range len, (len - i) * (buf i).toNat) % adlerBase * 2 ^ 16 +
        (1 + ∑ i ∈ Finset.range len, (buf i).toNat) % adlerBase := by
  rw [adler32_some hw, adlerSums_one, foldl_adlerStep, AdlerSums.pack]

/-- The letters from `a` on, and what follows them. -/
def letters : Mem := fun i => UInt8.ofNat (0x61 + i)

theorem adler32_eq_abc : adler32 64 1 (some letters) 3 = 0x024d0127 :=
  (adler32_eq (by norm_num) letters 3).trans (by decide)

/-- A checksum may be continued: in parts of any lengths it is that of the whole. -/
theorem adler32_append {w : ℕ} (hw : 32 ≤ w) (adler : ℕ) {front rest whole : Mem} {m n : ℕ}
    (hfront : whole.peek 0 m = front.peek 0 m) (hrest : whole.peek m n = rest.peek 0 n) :
    adler32 w (adler32 w adler (some front) m) (some rest) n =
      adler32 w adler (some whole) (m + n) := by
  rw [adler32_some hw, adler32_some hw, adler32_some hw,
    adlerSums_pack (small_foldl (small_adlerSums adler) _), Mem.peek_add, Nat.zero_add, hfront,
    hrest, List.foldl_append]

theorem adler32_append_letters :
    adler32 32 (adler32 32 1 (some letters) 5552) (some fun i => letters (5552 + i)) 17 =
      adler32 32 1 (some letters) (5552 + 17) :=
  adler32_append le_rfl 1 rfl (Mem.peek_eq_iff.mpr fun i _ => by rw [Nat.zero_add])

/-- One wrong byte is found. -/
theorem adler32_change {w : ℕ} (hw : 32 ≤ w) {buf buf' : Mem} {len i : ℕ} (hi : i < len)
    (hother : ∀ j < len, j ≠ i → buf' j = buf j) (hne : buf' i ≠ buf i) :
    adler32 w 1 (some buf') len ≠ adler32 w 1 (some buf) len := by
  intro heq
  rw [adler32_some hw, adler32_some hw, adlerSums_one] at heq
  have hsmall : AdlerSums.Small ⟨1, 0⟩ := ⟨by norm_num, by norm_num⟩
  have hsums := congrArg adlerSums heq
  rw [adlerSums_pack (small_foldl hsmall _), adlerSums_pack (small_foldl hsmall _), foldl_adlerStep,
    foldl_adlerStep] at hsums
  have hmod := congrArg AdlerSums.s1 hsums
  -- the sums differ by the difference of the two bytes, which is less than the modulus
  have hmem : i ∈ Finset.range len := Finset.mem_range.mpr hi
  have hrest : ∑ j ∈ (Finset.range len).erase i, (buf' j).toNat =
      ∑ j ∈ (Finset.range len).erase i, (buf j).toNat := by
    refine Finset.sum_congr rfl fun j hj => ?_
    obtain ⟨hji, hlt⟩ := Finset.mem_erase.mp hj
    rw [hother j (Finset.mem_range.mp hlt) hji]
  have hsum := Finset.add_sum_erase _ (fun j => (buf j).toNat) hmem
  have hsum' := Finset.add_sum_erase _ (fun j => (buf' j).toNat) hmem
  have hb := (buf i).toNat_lt
  have hb' := (buf' i).toNat_lt
  have hval : (buf' i).toNat ≠ (buf i).toNat := fun h => hne (UInt8.toNat_inj.mp h)
  simp only [hrest] at hsum'
  simp only [← hsum, ← hsum', adlerBase] at hmod
  omega

theorem adler32_change_one :
    adler32 64 1 (some (Function.update Mem.zero 2 1)) 3 ≠ adler32 64 1 (some Mem.zero) 3 :=
  adler32_change (i := 2) (by norm_num) (by norm_num)
    (fun _ _ hne => Function.update_of_ne hne _ _) (by decide)

end Carroll
