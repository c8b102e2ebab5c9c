import Carroll.Libc0
import Carroll.Runs

/-! # The loops of the container

`_secheck_size`, `bin2hex` and `hex2bin`, run as their loops stand, in `unsigned int`.  `Stream` has
them as functions with the rounds already counted; here every loop is shown to end, and to leave
what the function says (`secheckSize_iff`, `bin2hex_iff`, `hex2bin_iff`).

* `_secheck_size` is right up to the last multiple of 16 of 32 bits; behind it the next multiple is
  `2 ^ 32`, for which `0` is returned.
* The lengths of `bin2hex` and `hex2bin` are of type `int`.  A `len * 2` that is no `int` is
  undefined. -/

namespace Carroll

/-! ### Padding -/

/-- A round of `while(l++)`. -/
def secheckBody (l : ℕ) : ℕ ⊕ ℕ :=
  let l' := u32 (l + 1)
  if l = 0 then .inr l' else if l' % aesBlockSize = 0 then .inr l' else .inl l'

/-- `_secheck_size(s)` returns `r`. -/
def SecheckSize (s r : ℕ) : Prop :=
  if s % aesBlockSize ≠ 0 then LoopEnds secheckBody s r else r = s

theorem ends_secheckBody {l : ℕ} (hl : l % 16 ≠ 0) (hlt : l < 2 ^ 32) :
    LoopEnds secheckBody l (u32 ((l / 16 + 1) * 16)) := by
  -- before round `k` the counter is `l + k`, and round `15 - l % 16` finds the multiple
  apply LoopEnds.of_rounds (f := fun k => l + k) (n := 15 - l % 16)
  · intro k hk
    rw [secheckBody, aesBlockSize, u32_of_lt (by omega), if_neg (by omega), if_neg (by omega)]
    rfl
  · have hnext : l + (15 - l % 16) + 1 = (l / 16 + 1) * 16 := by omega
    rw [secheckBody, aesBlockSize, hnext, if_neg (by omega), if_pos (by unfold u32; omega)]

theorem secheckSize_iff {s r : ℕ} (hs : s < 2 ^ 32) : SecheckSize s r ↔ r = secheckSize s := by
  rw [SecheckSize, secheckSize]
  split_ifs with h
  · rw [aesBlockSize] at h
    rw [(ends_secheckBody h hs).iff_eq, secheckLoop_eq h (by omega) hs]
  · rfl

/-- What the size `r` is computed for: it is the next multiple of the block size, the number of the
header is 16 more, and `s` bytes end below the trailer. -/
structure Pads (s r : ℕ) : Prop where
  isLeast : IsLeast {m | aesBlockSize ∣ m ∧ s ≤ m} r
  number : u32 (r + 16) = r + 16
  trailer : s ≤ u32 (u32 (r + 16) + 2 ^ 32 - 4)

theorem isLeast_secheckSize_iff {s : ℕ} (hs : s < 2 ^ 32) :
    IsLeast {m | aesBlockSize ∣ m ∧ s ≤ m} (secheckSize s) ↔ s ≤ 2 ^ 32 - 16 := by
  constructor
  · -- behind the last multiple the result is `0`
    intro h
    have hle : s ≤ secheckSize s := h.1.2
    rw [secheckSize_eq_u32 hs, u32] at hle
    omega
  · intro h
    rw [secheckSize_eq h]
    refine ⟨⟨Dvd.intro_left _ rfl, by omega⟩, ?_⟩
    rintro m ⟨hdvd, hm⟩
    rw [aesBlockSize] at hdvd
    omega

theorem secheckSize_of_gt {s : ℕ} (hs : s < 2 ^ 32) (hgt : 2 ^ 32 - 16 < s) : secheckSize s = 0 := by
  have hnext : (s + 15) / 16 * 16 = 2 ^ 32 := by omega
  rw [secheckSize_eq_u32 hs, hnext]
  rfl

theorem pads_secheckSize_iff {s : ℕ} (hs : s < 2 ^ 32) :
    Pads s (secheckSize s) ↔ s ≤ 2 ^ 32 - 32 := by
  constructor
  · intro h
    have hsize := secheckSize_eq ((isLeast_secheckSize_iff hs).mp h.isLeast)
    have hnumber := h.number
    have hlt := u32_lt (secheckSize s + 16)
    omega
  · intro h
    have hsize := secheckSize_eq (s := s) (by omega)
    have hnumber : u32 (secheckSize s + 16) = secheckSize s + 16 := u32_of_lt (by omega)
    refine ⟨(isLeast_secheckSize_iff hs).mpr (by omega), hnumber, ?_⟩
    rw [hnumber, u32]
    omega

theorem zcompress2_destLen_le (P : Prims) (init : Bool) (n : ℕ) (source : List UInt8) :
    (zcompress2 P init n source).destLen ≤ n := by
  unfold zcompress2
  split_ifs with _ h
  · exact le_rfl
  · exact h
  · exact le_rfl

/-- The padding of the compressed bytes that `libc0_encrypt` has, and the block it encrypts. -/
theorem padding_spec :
    (∀ s : UInt32, ∃ r, (∀ r', SecheckSize s.toNat r' ↔ r' = r) ∧
      (IsLeast {m | aesBlockSize ∣ m ∧ s.toNat ≤ m} r ↔ s.toNat ≤ 2 ^ 32 - 16) ∧
      (2 ^ 32 - 16 < s.toNat → r = 0) ∧
      (Pads s.toNat r ↔ s.toNat ≤ 2 ^ 32 - 32)) ∧
    ∀ (P : Prims) (zlib : Bool) (inp : List UInt8) (c : Libc0) (zbuf rbuf : Mem),
      let n := (zcompress2 P zlib (zctwoLength inp.length) inp).destLen
      let c := c.setSizes inp.length n
      let plain := plainBlock rbuf (zbuf.peek 0 n) c.number
      SecheckSize n c.vstate ∧ Pads n c.vstate ∧ c.number = c.vstate + 16 ∧
        plain.peek 0 n = zbuf.peek 0 n ∧ plain.peek (c.number - 4) 4 = libcTrailer := by
  constructor
  · intro s
    exact ⟨secheckSize s.toNat, fun _ => secheckSize_iff s.toNat_lt,
      isLeast_secheckSize_iff s.toNat_lt, secheckSize_of_gt s.toNat_lt,
      pads_secheckSize_iff s.toNat_lt⟩
  · intro P zlib inp c zbuf rbuf
    dsimp only
    generalize hz : (zcompress2 P zlib (zctwoLength inp.length) inp).destLen = n
    have hn : n ≤ 42950056 := by
      rw [← hz]
      exact (zcompress2_destLen_le P zlib _ inp).trans (zctwoLength_le _)
    have hsize : secheckSize n = (n + 15) / 16 * 16 := secheckSize_eq (by omega)
    have hvstate : (c.setSizes inp.length n).vstate = secheckSize n := by
      rw [Libc0.setSizes_vstate, u32_of_lt (n := n) (by omega), u32_of_lt (by omega)]
    have hnumber : (c.setSizes inp.length n).number = secheckSize n + 16 := by
      rw [c.setSizes_number_of_le inp.length hn, cipherLength, hsize]
    have htrailer : u32 (secheckSize n + 16 + 2 ^ 32 - 4) = secheckSize n + 12 := by
      unfold u32
      omega
    rw [hvstate, hnumber, plainBlock, htrailer]
    refine ⟨(secheckSize_iff (by omega)).mpr rfl, (pads_secheckSize_iff (by omega)).mpr (by omega),
      rfl, ?_, ?_⟩
    · rw [Mem.peek_poke_disjoint _ _ (.inl (by omega))]
      exact Mem.peek_poke_of_length rbuf 0 (Mem.length_peek _ _ _)
    · rw [Nat.add_sub_assoc (by norm_num)]
      exact Mem.peek_poke_self _ _ libcTrailer

/-- The next multiple of 16 behind `4294967295` is no `unsigned int`. -/
theorem not_pads_max : ¬∃ r, SecheckSize 4294967295 r ∧ Pads 4294967295 r := by
  rintro ⟨r, hr, h⟩
  have hstop : secheckBody 4294967295 = .inr 0 := rfl
  obtain rfl : r = 0 := (LoopEnds.stop hstop).iff_eq.mp hr
  exact absurd h.isLeast.1.2 (by norm_num)

/-! ### Hexadecimal digits -/

/-- A round of the first loop of `bin2hex`.  Its condition `i<len, j>=0` is `j>=0`, which always
holds; the loop is left by `i==len`. -/
def digitsBody (digest : List UInt8) : ℕ × ℕ × Mem → (ℕ × ℕ × Mem) ⊕ Mem
  | (i, j, md) =>
    if i = digest.length then .inr md
    else
      let b := digest.getD i 0
      let md := md.poke j [hexDigit (b.toNat / 16)]
      .inl (u32 (i + 1), u32 (j + 2), md.poke (u32 (j + 1)) [hexDigit b.toNat])

/-- A round of its second loop. -/
def clearBody : ℕ × Mem → (ℕ × Mem) ⊕ Mem
  | (i, md) =>
    if i = 0 then .inr md
    else if isHexDigit (md i) then .inr md else .inl (i - 1, md.poke i [0])

/-- `bin2hex(md, digest, len)` for the `len` bytes `digest` leaves `md'`. -/
def Bin2hex (md : Mem) (digest : List UInt8) (md' : Mem) : Prop :=
  2 * digest.length < 2 ^ 31 ∧ ∃ m, LoopEnds (digitsBody digest) (0, 0, md) m ∧
    LoopEnds clearBody (2 * digest.length, m) md'

/-- A round of the inner loop of `hex2bin`; of a value above 255 the low byte goes in. -/
def nibbleRound (md : Mem) (j k : ℕ) (digest : Mem) (n : ℕ) : Mem :=
  let digest := digest.poke j [digest j <<< 4]
  digest.poke j [digest j ||| hexValue (md (u32 (k + n)))]

/-- A round of the outer loop of `hex2bin`, for `i` bytes. -/
def hex2binBody (md : Mem) (i : ℕ) : ℕ × ℕ × Mem → (ℕ × ℕ × Mem) ⊕ Mem
  | (j, k, digest) =>
    if j < i then .inl (u32 (j + 1), u32 (k + 2), (List.range 2).foldl (nibbleRound md j k) digest)
    else .inr digest

/-- `hex2bin(digest, md, len)` leaves `digest'`. -/
def Hex2bin (digest md : Mem) (len : ℕ) (digest' : Mem) : Prop :=
  len < 2 ^ 31 ∧ LoopEnds (hex2binBody md (len / 2)) (0, 0, digest) digest'

theorem hexes_take_succ {d : List UInt8} {k : ℕ} (h : k < d.length) :
    hexes (d.take (k + 1)) = hexes (d.take k) ++ hexByte (d.getD k 0) := by
  rw [List.take_succ_eq_append_getElem h, hexes, List.flatMap_append, List.flatMap_singleton,
    List.getD_eq_getElem?_getD, List.getElem?_eq_getElem h]
  rfl

theorem ends_digitsBody (md : Mem) {digest : List UInt8} (h : 2 * digest.length < 2 ^ 31) :
    LoopEnds (digitsBody digest) (0, 0, md) (md.poke 0 (hexes digest)) := by
  -- before round `k` the digits of the first `k` bytes are written
  apply LoopEnds.of_rounds (f := fun k => (k, 2 * k, md.poke 0 (hexes (digest.take k))))
    (n := digest.length)
  · intro k hk
    have hlen : (hexes (digest.take k)).length = 2 * k := by
      rw [length_hexes, List.length_take_of_le hk.le]
    have hpair : hexByte (digest.getD k 0) =
        [hexDigit ((digest.getD k 0).toNat / 16)] ++ [hexDigit (digest.getD k 0).toNat] := rfl
    rw [digitsBody, if_neg (by omega), u32_of_lt (by omega), u32_of_lt (by omega),
      u32_of_lt (by omega), hexes_take_succ hk, Mem.poke_append, hpair, Mem.poke_append, hlen]
    simp only [Nat.zero_add, List.length_singleton]
    rfl
  · simp [digitsBody]

theorem ends_clearBody (md : Mem) (i : ℕ) : LoopEnds clearBody (i, md) (bin2hexTail md i) := by
  induction i generalizing md with
  | zero => exact .stop rfl
  | succ i ih =>
      rw [bin2hexTail]
      split_ifs with h
      · exact .stop (by simp [clearBody, h])
      · exact .next (by simp [clearBody, h]) (ih _)

theorem bin2hex_iff {md : Mem} {digest : List UInt8} {md' : Mem} :
    Bin2hex md digest md' ↔ 2 * digest.length < 2 ^ 31 ∧ md' = bin2hex md digest := by
  refine and_congr_right fun h => ?_
  simp only [(ends_digitsBody md h).iff_eq, exists_eq_left, (ends_clearBody _ _).iff_eq]
  rfl

/-- Behind the place of the NUL nothing is written. -/
theorem bin2hexTail_apply_of_lt {md : Mem} {i j : ℕ} (h : i < j) : bin2hexTail md i j = md j := by
  induction i generalizing md with
  | zero => rfl
  | succ i ih =>
      rw [bin2hexTail]
      split_ifs
      · rfl
      · rw [ih (by omega), Mem.poke_apply_of_ge (by simpa using h)]

/-- What a byte held before is shifted out by two digits. -/
theorem shift_nibbles (x a b : UInt8) : (((x <<< 4) ||| a) <<< 4) ||| b = (a <<< 4) ||| b := by
  have hx : ∀ n < 256, UInt8.ofNat n <<< 4 <<< 4 = 0 := by decide +kernel
  have hout := hx x.toNat x.toNat_lt
  rw [UInt8.ofNat_toNat] at hout
  rw [UInt8.shiftLeft_or, hout, UInt8.zero_or]

theorem foldl_nibbleRound (md : Mem) (j k : ℕ) (digest : Mem) :
    (List.range 2).foldl (nibbleRound md j k) digest =
      digest.poke j [(hexValue (md (u32 k)) <<< 4) ||| hexValue (md (u32 (k + 1)))] := by
  have hself (m : Mem) (a : UInt8) : m.poke j [a] j = a := by simp [Mem.poke]
  have hcover (m : Mem) (a b : UInt8) : (m.poke j [a]).poke j [b] = m.poke j [b] :=
    m.poke_poke j le_rfl
  have hrange : List.range 2 = [0, 1] := rfl
  simp only [hrange, List.foldl_cons, List.foldl_nil, nibbleRound, hcover, hself, Nat.add_zero,
    shift_nibbles]

theorem length_hex2bin (l : List UInt8) : (hex2bin l).length = l.length / 2 := by
  induction l using hex2bin.induct with
  | case1 a b l ih =>
      rw [hex2bin, List.length_cons, ih, List.length_cons, List.length_cons]
      omega
  | case2 l hl =>
      rcases l with _ | ⟨a, _ | ⟨b, l⟩⟩
      · rfl
      · simp [hex2bin]
      · exact absurd rfl (hl a b l)

theorem hex2bin_append {l : List UInt8} (r : List UInt8) (h : 2 ∣ l.length) :
    hex2bin (l ++ r) = hex2bin l ++ hex2bin r := by
  induction l using hex2bin.induct with
  | case1 a b l ih =>
      rw [List.length_cons, List.length_cons] at h
      rw [List.cons_append, List.cons_append, hex2bin, hex2bin, ih (by omega), List.cons_append]
  | case2 l hl =>
      rcases l with _ | ⟨a, _ | ⟨b, l⟩⟩
      · rfl
      · exact absurd h (by simp)
      · exact absurd rfl (hl a b l)

theorem hex2bin_peek_succ (md : Mem) (k : ℕ) : hex2bin (md.peek 0 (2 * (k + 1))) =
    hex2bin (md.peek 0 (2 * k)) ++ [(hexValue (md (2 * k)) <<< 4) ||| hexValue (md (2 * k + 1))] := by
  have hpair : md.peek (0 + 2 * k) 2 = [md (2 * k), md (2 * k + 1)] := by
    simp [Mem.peek, List.range_succ]
  have heven : 2 ∣ (md.peek 0 (2 * k)).length := by
    rw [Mem.length_peek]
    exact Nat.dvd_mul_right 2 k
  rw [Nat.mul_succ, Mem.peek_add, hex2bin_append _ heven, hpair]
  rfl

theorem ends_hex2binBody (digest md : Mem) {i : ℕ} (h : 2 * i < 2 ^ 31) :
    LoopEnds (hex2binBody md i) (0, 0, digest) (digest.poke 0 (hex2bin (md.peek 0 (2 * i)))) := by
  -- before round `k` the first `k` bytes are written
  apply LoopEnds.of_rounds (f := fun k => (k, 2 * k, digest.poke 0 (hex2bin (md.peek 0 (2 * k)))))
    (n := i)
  · intro k hk
    have hlen : (hex2bin (md.peek 0 (2 * k))).length = k := by
      rw [length_hex2bin, Mem.length_peek, Nat.mul_div_cancel_left k (by norm_num)]
    rw [hex2binBody, if_pos hk, foldl_nibbleRound, hex2bin_peek_succ, Mem.poke_append, hlen,
      Nat.zero_add, u32_of_lt (by omega), u32_of_lt (by omega), u32_of_lt (by omega),
      u32_of_lt (by omega)]
    rfl
  · rw [hex2binBody, if_neg (lt_irrefl i)]

theorem hex2bin_iff {digest md : Mem} {len : ℕ} {digest' : Mem} : Hex2bin digest md len digest' ↔
    len < 2 ^ 31 ∧ digest' = digest.poke 0 (hex2bin (md.peek 0 (2 * (len / 2)))) :=
  and_congr_right fun h => (ends_hex2binBody digest md (by omega)).iff_eq

/-- Whatever the arrays held, `bin2hex` writes the digits of `d` in front and nothing behind the place
of a NUL, and `hex2bin` of the digits writes `d`. -/
def HexRoundTrips (d : List UInt8) : Prop :=
  ∀ md, ∃ md', Bin2hex md d md' ∧ md'.peek 0 (2 * d.length) = hexes d ∧
    (∀ i, 2 * d.length < i → md' i = md i) ∧
    ∀ digest, Hex2bin digest md' (2 * d.length) (digest.poke 0 d)

/-- The round trip is that of every byte string whose digits an `int` can count. -/
theorem hexRoundTrips_iff (d : List UInt8) : HexRoundTrips d ↔ d.length < 2 ^ 30 := by
  constructor
  · intro h
    obtain ⟨_, hbin, _⟩ := h Mem.zero
    have := hbin.1
    omega
  · intro hd md
    have hpeek := peek_bin2hex md d
    refine ⟨bin2hex md d, bin2hex_iff.mpr ⟨by omega, rfl⟩, hpeek, fun i hi => ?_, fun digest => ?_⟩
    · rw [bin2hex, bin2hexTail_apply_of_lt hi]
      exact Mem.poke_apply_of_ge (by rw [length_hexes]; omega)
    · have hhalf : 2 * (2 * d.length / 2) = 2 * d.length := by omega
      rw [hex2bin_iff, hhalf, hpeek, hex2bin_hexes]
      exact ⟨by omega, rfl⟩

/-- For `2 ^ 30` bytes `len * 2` is no `int`. -/
theorem not_hexRoundTrips : ¬HexRoundTrips (List.replicate (2 ^ 30) 0) := by
  intro h
  obtain ⟨_, hbin, _⟩ := h Mem.zero
  have hint := hbin.1
  rw [List.length_replicate] at hint
  omega

end Carroll
