import Mathlib.Tactic
import Carroll.KeyAlternating

/-! # The Rijndael round over byte matrices

A state is a matrix of bytes, by column and row.  A round substitutes every byte, rotates row `r` by
`r` columns and multiplies every column by a circulant matrix over the field of 256 elements with
the polynomial `x^8 + x^4 + x^3 + x + 1`; `rijndaelMaps` collects this as the maps of a
key-alternating cipher, for any permutation of the bytes in the place of the substitution box.
`IsInverseAffine` is what the standard asks of that permutation. -/

namespace Carroll

/-! ### The field -/

/-- Multiplication by `x`. -/
def xtime (b : UInt8) : UInt8 := (b <<< 1) ^^^ (if b &&& 0x80 = 0 then 0 else 0x1b)

/-- The sum of `x^i * b` over the lowest `n` bits `i` that are set in `c`. -/
def gmulBits : ℕ → UInt8 → UInt8 → UInt8
  | 0, _, _ => 0
  | n + 1, c, b => (if c &&& 1 = 0 then 0 else b) ^^^ gmulBits n (c >>> 1) (xtime b)

/-- Multiplication. -/
def gmul (c b : UInt8) : UInt8 := gmulBits 8 c b

theorem forall_byte {p : UInt8 → Prop} (h : ∀ n < 256, p (UInt8.ofNat n)) (b : UInt8) : p b := by
  have := h b.toNat b.toNat_lt
  rwa [UInt8.ofNat_toNat] at this

/-- The reduction, one shift for every term of the polynomial. -/
theorem xtime_eq (b : UInt8) : xtime b =
    (b <<< 1) ^^^ (b >>> 7) ^^^ (b >>> 7 <<< 1) ^^^ (b >>> 7 <<< 3) ^^^ (b >>> 7 <<< 4) := by
  apply forall_byte (p := fun b => xtime b =
    (b <<< 1) ^^^ (b >>> 7) ^^^ (b >>> 7 <<< 1) ^^^ (b >>> 7 <<< 3) ^^^ (b >>> 7 <<< 4))
  decide +kernel

theorem xtime_xor (a b : UInt8) : xtime (a ^^^ b) = xtime a ^^^ xtime b := by
  simp only [xtime_eq, UInt8.shiftLeft_xor, UInt8.shiftRight_xor]
  ac_rfl

/-! ### Computing with numbers

The kernel computes with numbers much faster than with machine words; the checks of whole tables are
done on the numbers that the bytes stand for. -/

def xtimeNat (n : ℕ) : ℕ := if n < 128 then 2 * n else (2 * n) ^^^ 0x11b

def gmulNat : ℕ → ℕ → ℕ → ℕ
  | 0, _, _ => 0
  | n + 1, c, b => (c % 2 * b) ^^^ gmulNat n (c / 2) (xtimeNat b)

theorem toNat_xtime (b : UInt8) : (xtime b).toNat = xtimeNat b.toNat := by
  apply forall_byte (p := fun b => (xtime b).toNat = xtimeNat b.toNat)
  decide +kernel

theorem toNat_gmulBits (n : ℕ) (c b : UInt8) :
    (gmulBits n c b).toNat = gmulNat n c.toNat b.toNat := by
  induction n generalizing c b with
  | zero => rfl
  | succ n ih =>
      have hshift : (c >>> 1).toNat = c.toNat / 2 := by simp [Nat.shiftRight_eq_div_pow]
      have hbit : (c &&& 1).toNat = c.toNat % 2 := by simp [Nat.and_one_is_mod]
      have hterm : (if c &&& 1 = 0 then 0 else b : UInt8).toNat = c.toNat % 2 * b.toNat := by
        rw [← hbit]
        have hlt : (c &&& 1).toNat < 2 := by omega
        split_ifs with h
        · rw [h]
          simp
        · have : (c &&& 1).toNat ≠ 0 := fun h' => h (UInt8.toNat_inj.mp h')
          rw [show (c &&& 1).toNat = 1 by omega, Nat.one_mul]
      rw [gmulBits, gmulNat, UInt8.toNat_xor, hterm, ih, hshift, toNat_xtime]

/-! ### The columns -/

/-- The row of the matrix of the mixing: `2`, `3`, `1`, `1`. -/
def mixCoef : Fin 4 → UInt8 → UInt8
  | 0 => xtime
  | 1 => fun b => xtime b ^^^ b
  | 2 => id
  | 3 => id

/-- The row of the inverse matrix: `14`, `11`, `13`, `9`. -/
def unmixCoef : Fin 4 → UInt8 → UInt8
  | 0 => fun b => xtime (xtime (xtime b)) ^^^ xtime (xtime b) ^^^ xtime b
  | 1 => fun b => xtime (xtime (xtime b)) ^^^ xtime b ^^^ b
  | 2 => fun b => xtime (xtime (xtime b)) ^^^ xtime (xtime b) ^^^ b
  | 3 => fun b => xtime (xtime (xtime b)) ^^^ b

def mixCoefNat : Fin 4 → ℕ → ℕ
  | 0 => xtimeNat
  | 1 => fun n => xtimeNat n ^^^ n
  | 2 => id
  | 3 => id

def unmixCoefNat : Fin 4 → ℕ → ℕ
  | 0 => fun n => xtimeNat (xtimeNat (xtimeNat n)) ^^^ xtimeNat (xtimeNat n) ^^^ xtimeNat n
  | 1 => fun n => xtimeNat (xtimeNat (xtimeNat n)) ^^^ xtimeNat n ^^^ n
  | 2 => fun n => xtimeNat (xtimeNat (xtimeNat n)) ^^^ xtimeNat (xtimeNat n) ^^^ n
  | 3 => fun n => xtimeNat (xtimeNat (xtimeNat n)) ^^^ n

theorem toNat_mixCoef (k : Fin 4) (b : UInt8) : (mixCoef k b).toNat = mixCoefNat k b.toNat := by
  fin_cases k <;> simp only [mixCoef, mixCoefNat, UInt8.toNat_xor, toNat_xtime, id]

theorem toNat_unmixCoef (k : Fin 4) (b : UInt8) :
    (unmixCoef k b).toNat = unmixCoefNat k b.toNat := by
  fin_cases k <;> simp only [unmixCoef, unmixCoefNat, UInt8.toNat_xor, toNat_xtime]

theorem mixCoef_xor (k : Fin 4) (a b : UInt8) :
    mixCoef k (a ^^^ b) = mixCoef k a ^^^ mixCoef k b := by
  fin_cases k <;> simp only [mixCoef, xtime_xor, id]
  ac_rfl

theorem unmixCoef_xor (k : Fin 4) (a b : UInt8) :
    unmixCoef k (a ^^^ b) = unmixCoef k a ^^^ unmixCoef k b := by
  fin_cases k <;> simp only [unmixCoef, xtime_xor] <;> ac_rfl

/-- A column times the circulant matrix with the coefficients `coef`. -/
def circulant (coef : Fin 4 → UInt8 → UInt8) (c : Fin 4 → UInt8) (r : Fin 4) : UInt8 :=
  coef 0 (c r) ^^^ coef 1 (c (r + 1)) ^^^ coef 2 (c (r + 2)) ^^^ coef 3 (c (r + 3))

/-- Column `k` of the matrix times `x`, by row. -/
def circulantColumn {α : Type*} (coef : Fin 4 → α → α) (k : Fin 4) (x : α) : α × α × α × α :=
  (coef k x, coef (k + 3) x, coef (k + 2) x, coef (k + 1) x)

/-- The same sum in the order of the places. -/
theorem circulant_eq (coef : Fin 4 → UInt8 → UInt8) (c : Fin 4 → UInt8) (r : Fin 4) :
    circulant coef c r =
      coef (0 - r) (c 0) ^^^ coef (1 - r) (c 1) ^^^ coef (2 - r) (c 2) ^^^ coef (3 - r) (c 3) := by
  have h1 : (-1 : Fin 4) = 3 := rfl
  have h2 : (-2 : Fin 4) = 2 := rfl
  have h3 : (-3 : Fin 4) = 1 := rfl
  fin_cases r <;> simp [circulant, h1, h2, h3] <;> ac_rfl

theorem circulant_xor {coef : Fin 4 → UInt8 → UInt8}
    (h : ∀ k a b, coef k (a ^^^ b) = coef k a ^^^ coef k b) (c d : Fin 4 → UInt8) (r : Fin 4) :
    circulant coef (fun i => c i ^^^ d i) r = circulant coef c r ^^^ circulant coef d r := by
  simp only [circulant, h]
  ac_rfl

theorem xor_left_comm (a b c : UInt8) : a ^^^ (b ^^^ c) = b ^^^ (a ^^^ c) := by ac_rfl

/-- The coefficients of the product of the two matrices. -/
theorem unmixCoef_mixCoef (b : UInt8) :
    unmixCoef 0 (mixCoef 0 b) ^^^ unmixCoef 1 (mixCoef 3 b) ^^^
        unmixCoef 2 (mixCoef 2 b) ^^^ unmixCoef 3 (mixCoef 1 b) = b ∧
      unmixCoef 0 (mixCoef 1 b) ^^^ unmixCoef 1 (mixCoef 0 b) ^^^
        unmixCoef 2 (mixCoef 3 b) ^^^ unmixCoef 3 (mixCoef 2 b) = 0 ∧
      unmixCoef 0 (mixCoef 2 b) ^^^ unmixCoef 1 (mixCoef 1 b) ^^^
        unmixCoef 2 (mixCoef 0 b) ^^^ unmixCoef 3 (mixCoef 3 b) = 0 ∧
      unmixCoef 0 (mixCoef 3 b) ^^^ unmixCoef 1 (mixCoef 2 b) ^^^
        unmixCoef 2 (mixCoef 1 b) ^^^ unmixCoef 3 (mixCoef 0 b) = 0 := by
  simp only [mixCoef, unmixCoef, xtime_xor, id]
  refine ⟨?_, ?_, ?_, ?_⟩ <;> simp [UInt8.xor_comm, xor_left_comm]

/-- The coefficients are polynomials in `xtime`, which commute. -/
theorem mixCoef_unmixCoef (k j : Fin 4) (b : UInt8) :
    mixCoef k (unmixCoef j b) = unmixCoef j (mixCoef k b) := by
  fin_cases k <;> fin_cases j <;> simp only [mixCoef, unmixCoef, xtime_xor, id] <;> ac_rfl

/-- A product of two circulant matrices, by the places of the column. -/
theorem circulant_circulant {coef coef' : Fin 4 → UInt8 → UInt8}
    (h : ∀ k a b, coef k (a ^^^ b) = coef k a ^^^ coef k b) (c : Fin 4 → UInt8) (r : Fin 4) :
    circulant coef (circulant coef' c) r =
      (coef 0 (coef' 0 (c r)) ^^^ coef 1 (coef' 3 (c r)) ^^^
        coef 2 (coef' 2 (c r)) ^^^ coef 3 (coef' 1 (c r))) ^^^
      (coef 0 (coef' 1 (c (r + 1))) ^^^ coef 1 (coef' 0 (c (r + 1))) ^^^
        coef 2 (coef' 3 (c (r + 1))) ^^^ coef 3 (coef' 2 (c (r + 1)))) ^^^
      (coef 0 (coef' 2 (c (r + 2))) ^^^ coef 1 (coef' 1 (c (r + 2))) ^^^
        coef 2 (coef' 0 (c (r + 2))) ^^^ coef 3 (coef' 3 (c (r + 2)))) ^^^
      (coef 0 (coef' 3 (c (r + 3))) ^^^ coef 1 (coef' 2 (c (r + 3))) ^^^
        coef 2 (coef' 1 (c (r + 3))) ^^^ coef 3 (coef' 0 (c (r + 3)))) := by
  have hadd : ∀ r : Fin 4, r + 1 + 1 = r + 2 ∧ r + 1 + 2 = r + 3 ∧ r + 1 + 3 = r ∧
      r + 2 + 1 = r + 3 ∧ r + 2 + 2 = r ∧ r + 2 + 3 = r + 1 ∧
      r + 3 + 1 = r ∧ r + 3 + 2 = r + 1 ∧ r + 3 + 3 = r + 2 := by decide
  obtain ⟨h11, h12, h13, h21, h22, h23, h31, h32, h33⟩ := hadd r
  simp only [circulant, h, h11, h12, h13, h21, h22, h23, h31, h32, h33]
  ac_rfl

theorem unmix_mix (c : Fin 4 → UInt8) (r : Fin 4) :
    circulant unmixCoef (circulant mixCoef c) r = c r := by
  rw [circulant_circulant unmixCoef_xor, (unmixCoef_mixCoef (c r)).1,
    (unmixCoef_mixCoef (c (r + 1))).2.1, (unmixCoef_mixCoef (c (r + 2))).2.2.1,
    (unmixCoef_mixCoef (c (r + 3))).2.2.2]
  simp

theorem mix_unmix (c : Fin 4 → UInt8) (r : Fin 4) :
    circulant mixCoef (circulant unmixCoef c) r = c r := by
  have hcomm : circulant mixCoef (circulant unmixCoef c) r =
      circulant unmixCoef (circulant mixCoef c) r := by
    rw [circulant_circulant mixCoef_xor, circulant_circulant unmixCoef_xor]
    simp only [mixCoef_unmixCoef]
    ac_rfl
  rw [hcomm, unmix_mix]

/-! ### The states -/

/-- A state: the byte of every column and row. -/
abbrev ByteMatrix := Fin 4 → Fin 4 → UInt8

/-- Substitute every byte by the box `σ`. -/
def subBytes (σ : Equiv.Perm UInt8) : Equiv.Perm ByteMatrix where
  toFun s c r := σ (s c r)
  invFun s c r := σ.symm (s c r)
  left_inv s := by simp
  right_inv s := by simp

/-- Rotate row `r` by `r` columns. -/
def shiftRows : Equiv.Perm ByteMatrix where
  toFun s c r := s (c + r) r
  invFun s c r := s (c - r) r
  left_inv s := by simp
  right_inv s := by simp

/-- Multiply every column by the matrix of the mixing. -/
def mixColumns : Equiv.Perm ByteMatrix where
  toFun s c := circulant mixCoef (s c)
  invFun s c := circulant unmixCoef (s c)
  left_inv s := by
    funext c r
    exact unmix_mix (s c) r
  right_inv s := by
    funext c r
    exact mix_unmix (s c) r

/-- Add a key to a state. -/
def addRoundKey (s k : ByteMatrix) : ByteMatrix := fun c r => s c r ^^^ k c r

/-- The round with the box `σ`. -/
def rijndaelMaps (σ : Equiv.Perm UInt8) : RoundMaps ByteMatrix where
  addKey := addRoundKey
  sub := (subBytes σ).trans shiftRows
  mix := mixColumns
  addKey_addKey x k := by
    funext c r
    simp only [addRoundKey, UInt8.xor_assoc, UInt8.xor_self, UInt8.xor_zero]
  mix_addKey x k := by
    funext c r
    exact circulant_xor mixCoef_xor (x c) (k c) r

/-- Byte `r` of word `j` of the expanded key, from the key of `nk` words and the words before. -/
def expansionByte (σ : UInt8 → UInt8) (nk : ℕ) (key : ℕ → UInt8) (W : ℕ → Fin 4 → UInt8) (j : ℕ)
    (r : Fin 4) : UInt8 :=
  if j < nk then key (4 * j + r)
  else W (j - nk) r ^^^
    (if j % nk = 0 then σ (W (j - 1) (r + 1)) ^^^ (if r = 0 then xtime^[j / nk - 1] 1 else 0)
    else if 6 < nk ∧ j % nk = 4 then σ (W (j - 1) r)
    else W (j - 1) r)

/-! ### The substitution box -/

/-- Rotation by `n` bits. -/
def rotateByte (b n : UInt8) : UInt8 := (b <<< n) ||| (b >>> (8 - n))

/-- The affine map behind the inversion. -/
def affine (b : UInt8) : UInt8 :=
  b ^^^ rotateByte b 1 ^^^ rotateByte b 2 ^^^ rotateByte b 3 ^^^ rotateByte b 4 ^^^ 0x63

/-- The inverse of the affine map. -/
def unaffine (b : UInt8) : UInt8 :=
  rotateByte b 1 ^^^ rotateByte b 3 ^^^ rotateByte b 6 ^^^ 0x05

def unaffineNat (n : ℕ) : ℕ :=
  (2 * n % 256 + n / 128) ^^^ (8 * n % 256 + n / 32) ^^^ (64 * n % 256 + n / 4) ^^^ 5

theorem affine_unaffine (b : UInt8) :
    affine (unaffine b) = b ∧ (unaffine b).toNat = unaffineNat b.toNat := by
  apply forall_byte (p := fun b => affine (unaffine b) = b ∧ (unaffine b).toNat = unaffineNat b.toNat)
  decide +kernel

/-- `i` is the inverse of `b`, or both are zero. -/
def IsInverse (b i : UInt8) : Prop := b = 0 ∧ i = 0 ∨ gmul b i = 1

/-- The box inverts in the field and applies the affine map. -/
def IsInverseAffine (σ : UInt8 → UInt8) : Prop := ∀ b, ∃ i, IsInverse b i ∧ σ b = affine i

theorem isInverse_of_toNat {b i : UInt8}
    (h : b.toNat = 0 ∧ i.toNat = 0 ∨ gmulNat 8 b.toNat i.toNat = 1) : IsInverse b i := by
  rcases h with ⟨hb, hi⟩ | h
  · exact .inl ⟨UInt8.toNat_inj.mp hb, UInt8.toNat_inj.mp hi⟩
  · exact .inr (UInt8.toNat_inj.mp ((toNat_gmulBits 8 b i).trans h))

end Carroll
