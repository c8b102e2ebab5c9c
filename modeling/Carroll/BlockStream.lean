import Mathlib.Tactic

/-! # Streams taken in blocks

What a hash does with its input, before anything is said about the hash: symbols collect in a
buffer, and a buffer with `n` symbols is handed to `f` and starts again empty.  `absorb` is one
symbol, `absorbAll` a run of them, so that two runs are the run of their concatenation
(`absorbAll_append`).

Programs do not go symbol by symbol: they copy what still fits behind the buffer
(`absorbAll_short`), fill it up (`absorbAll_fill`), and hand whole blocks over where they stand
(`absorbAll_block`).  `copyAt` is the copy into an array.  It makes the array longer when it
runs past the end, so an array that keeps its length was written inside its bounds.  `bits64` is a
counter of bits that may run over; what waits in a buffer is read off it all the same
(`bits64_low`). -/

namespace Carroll

variable {σ α : Type*} {f : σ → List α → σ} {n : ℕ} {s : σ} {p x : List α}

/-- One symbol more; a full buffer is processed. -/
def absorb (f : σ → List α → σ) (n : ℕ) (s : σ × List α) (a : α) : σ × List α :=
  let buffer := s.2 ++ [a]
  if buffer.length = n then (f s.1 buffer, []) else (s.1, buffer)

/-- All symbols of `x`. -/
def absorbAll (f : σ → List α → σ) (n : ℕ) (s : σ × List α) (x : List α) : σ × List α :=
  x.foldl (absorb f n) s

@[simp] theorem absorbAll_nil (s : σ × List α) : absorbAll f n s [] = s := rfl

theorem absorbAll_cons (s : σ × List α) (a : α) (x : List α) :
    absorbAll f n s (a :: x) = absorbAll f n (absorb f n s a) x := rfl

theorem absorbAll_append (s : σ × List α) (x y : List α) :
    absorbAll f n s (x ++ y) = absorbAll f n (absorbAll f n s x) y := List.foldl_append

theorem absorbAll_short (h : p.length + x.length < n) :
    absorbAll f n (s, p) x = (s, p ++ x) := by
  induction x generalizing p with
  | nil => simp
  | cons a x ih =>
      have hp : (p ++ [a]).length + x.length < n := by simp at h ⊢; omega
      have ha : absorb f n (s, p) a = (s, p ++ [a]) := if_neg (by simp at hp ⊢; omega)
      rw [absorbAll_cons, ha, ih hp, List.append_assoc, List.singleton_append]

theorem absorbAll_fill (hx : x ≠ []) (h : p.length + x.length = n) :
    absorbAll f n (s, p) x = (f s (p ++ x), []) := by
  obtain ⟨y, a, rfl⟩ := List.eq_nil_or_concat x |>.resolve_left hx
  rw [List.concat_eq_append] at h ⊢
  have hy : p.length + y.length < n := by simp at h; omega
  rw [absorbAll_append, absorbAll_short hy, ← List.append_assoc]
  exact if_pos (by simpa [add_assoc] using h)

theorem absorbAll_block (hn : 0 < n) (h : x.length = n) :
    absorbAll f n (s, []) x = (f s x, []) := by
  apply absorbAll_fill
  · rintro rfl
    simp at h
    omega
  · simpa using h

theorem length_absorb {s : σ × List α} (h : s.2.length < n) (a : α) :
    (absorb f n s a).2.length = (s.2.length + 1) % n := by
  rw [absorb]
  by_cases hn : (s.2 ++ [a]).length = n
  · rw [if_pos hn]
    simp at hn
    simp [hn]
  · rw [if_neg hn]
    simp at hn ⊢
    rw [Nat.mod_eq_of_lt]
    omega

/-- What waits in the buffer is what is over after whole blocks. -/
theorem length_absorbAll {s : σ × List α} (h : s.2.length < n) (x : List α) :
    (absorbAll f n s x).2.length = (s.2.length + x.length) % n := by
  induction x generalizing s with
  | nil => simp [Nat.mod_eq_of_lt h]
  | cons a x ih =>
      have ha := length_absorb (f := f) h a
      have hlt : (absorb f n s a).2.length < n := ha ▸ Nat.mod_lt _ (by omega)
      rw [absorbAll_cons, ih hlt, ha, Nat.mod_add_mod, List.length_cons]
      congr 1
      omega

/-! ### Arrays -/

variable {b : List α} {off k : ℕ}

/-- `memcpy(&b[off], data, |data|)`. -/
def copyAt (b : List α) (off : ℕ) (data : List α) : List α :=
  b.take off ++ data ++ b.drop (off + data.length)

@[simp] theorem copyAt_nil (b : List α) (off : ℕ) : copyAt b off [] = b := by simp [copyAt]

theorem length_copyAt (h : off + x.length ≤ b.length) :
    (copyAt b off x).length = b.length := by
  simp only [copyAt, List.length_append, List.length_take, List.length_drop]
  omega

theorem take_copyAt (b : List α) (off : ℕ) (x : List α) (h : off + x.length ≤ b.length) :
    (copyAt b off x).take (off + x.length) = b.take off ++ x := by
  apply List.take_left'
  simp only [List.length_append, List.length_take]
  omega

/-- A copy up to the end. -/
theorem copyAt_eq_append (h : off + x.length = b.length) :
    copyAt b off x = b.take off ++ x := by
  rw [copyAt, List.drop_eq_nil_of_le h.ge, List.append_nil]

/-- Two copies, one behind the other. -/
theorem take_copyAt_copyAt (b : List α) (off : ℕ) (x y : List α)
    (h : off + x.length + y.length ≤ b.length) :
    (copyAt (copyAt b off x) (off + x.length) y).take (off + x.length + y.length) =
      b.take off ++ (x ++ y) := by
  rw [take_copyAt _ _ _ (by rw [length_copyAt (by omega)]; exact h), take_copyAt _ _ _ (by omega),
    List.append_assoc]

/-! ### Counters -/

/-- The bits of `n` bytes, in a counter of one word. -/
def bits64 (n : ℕ) : UInt64 := UInt64.ofNat (8 * n)

theorem shift3_ofNat (n : ℕ) : UInt64.ofNat n <<< 3 = bits64 n := by
  apply UInt64.toNat_inj.mp
  rw [bits64, UInt64.toNat_shiftLeft]
  simp [Nat.shiftLeft_eq]
  omega

theorem bits64_add (n m : ℕ) : bits64 n + bits64 m = bits64 (n + m) := by
  rw [bits64, bits64, bits64, ← UInt64.ofNat_add, Nat.mul_add]

/-- The filled part of the buffer, also after the counter has run over. -/
theorem bits64_low (n : ℕ) {b : ℕ} (hb : b ∣ 2 ^ 61) : (bits64 n >>> 3).toNat % b = n % b := by
  have h : (bits64 n >>> 3).toNat = n % 2 ^ 61 := by
    rw [bits64, UInt64.toNat_shiftRight]
    simp [Nat.shiftRight_eq_div_pow]
    omega
  rw [h, Nat.mod_mod_of_dvd _ hb]

end Carroll
