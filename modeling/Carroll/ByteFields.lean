import Mathlib.Tactic

/-! # Numbers in bytes

Fields of file formats and packets: a number of `w` bytes, the lowest or the highest first, at an
offset of a list of bytes.  `readUint_writeUint` reads back what was written; `bytesAt_append_left`
and `bytesAt_append_right` find a field in the part that holds it. -/

namespace Carroll

/-- The value of bytes, the lowest first. -/
def readLe : List UInt8 → ℕ
  | [] => 0
  | b :: bs => b.toNat + 256 * readLe bs

/-- `w` bytes of `n`, the lowest first. -/
def writeLe : ℕ → ℕ → List UInt8
  | 0, _ => []
  | w + 1, n => UInt8.ofNat n :: writeLe w (n / 256)

@[simp] theorem length_writeLe (w n : ℕ) : (writeLe w n).length = w := by
  induction w generalizing n with
  | zero => rfl
  | succ w ih => rw [writeLe, List.length_cons, ih]

theorem readLe_writeLe (w n : ℕ) : readLe (writeLe w n) = n % 256 ^ w := by
  induction w generalizing n with
  | zero => simp [writeLe, readLe, Nat.mod_one]
  | succ w ih =>
      have hb : (UInt8.ofNat n).toNat = n % 256 := UInt8.toNat_ofNat'
      rw [writeLe, readLe, ih, hb, pow_succ', Nat.mod_mul]

/-- The value of bytes in the byte order of a file. -/
def readUint (big : Bool) (bs : List UInt8) : ℕ := readLe (if big then bs.reverse else bs)

/-- `w` bytes of `n` in the byte order of a file. -/
def writeUint (big : Bool) (w n : ℕ) : List UInt8 :=
  if big then (writeLe w n).reverse else writeLe w n

@[simp] theorem length_writeUint (big : Bool) (w n : ℕ) : (writeUint big w n).length = w := by
  cases big <;> simp [writeUint]

@[simp] theorem readUint_writeUint (big : Bool) (w n : ℕ) :
    readUint big (writeUint big w n) = n % 256 ^ w := by
  cases big <;> simp [readUint, writeUint, readLe_writeLe]

/-- The `n` bytes from offset `off` on. -/
def bytesAt (bs : List UInt8) (off n : ℕ) : List UInt8 := (bs.drop off).take n

variable {bs cs : List UInt8} {off n : ℕ}

theorem bytesAt_append_left (h : off + n ≤ bs.length) : bytesAt (bs ++ cs) off n = bytesAt bs off n := by
  rw [bytesAt, List.drop_append_of_le_length (by omega),
    List.take_append_of_le_length (by simp; omega), bytesAt]

theorem bytesAt_append_right (off n : ℕ) (bs cs : List UInt8) :
    bytesAt (bs ++ cs) (bs.length + off) n = bytesAt cs off n := by
  rw [bytesAt, List.drop_append, List.drop_eq_nil_of_le (by omega), List.nil_append,
    Nat.add_sub_cancel_left, bytesAt]

/-- A field in front. -/
theorem bytesAt_head (h : bs.length = n) (cs : List UInt8) : bytesAt (bs ++ cs) 0 n = bs := by
  rw [bytesAt, List.drop_zero, ← h, List.take_left]

/-- A field behind others. -/
theorem bytesAt_mid {as : List UInt8} (ha : as.length = off) (hb : bs.length = n)
    (cs : List UInt8) : bytesAt (as ++ (bs ++ cs)) off n = bs := by
  have h := bytesAt_append_right 0 n as (bs ++ cs)
  rwa [add_zero, ha, bytesAt_head hb] at h

/-- A field of a longer prefix. -/
theorem bytesAt_take {k : ℕ} (h : off + n ≤ k) : bytesAt (bs.take k) off n = bytesAt bs off n := by
  rw [bytesAt, bytesAt, List.drop_take, List.take_take, min_eq_left (by omega)]

end Carroll
