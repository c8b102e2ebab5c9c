import Mathlib.Tactic

/-! # Blocks of memory

A block of memory is a function from offsets to bytes: what an allocation returns holds
arbitrary bytes, and a program reads (`peek`) and writes (`poke`) runs of bytes in it.  Reads
after writes are settled by `peek_poke_self`, `peek_poke_within` and `peek_poke_disjoint`.
`get32` and `put32` are the little-endian accesses to a 32-bit field.

A block has no end here.  What a program reads and writes in a block of a given size is listed
as `Access`es, and `InBounds` says that all of them stay inside.

`cstr`, `strnEq` and `strstr` are the C string functions on the bytes of a block: a string ends
at its first NUL byte, or where the bytes end.  `decimal` and `decimalInt` are what `%d` prints. -/

namespace Carroll

/-- Arithmetic of `uint32_t`. -/
def u32 (n : ℕ) : ℕ := n % 2 ^ 32

theorem u32_of_lt {n : ℕ} (h : n < 2 ^ 32) : u32 n = n := Nat.mod_eq_of_lt h

theorem u32_lt (n : ℕ) : u32 n < 2 ^ 32 := Nat.mod_lt n (by norm_num)

/-- The content of a block of memory. -/
abbrev Mem := ℕ → UInt8

namespace Mem

/-- The `n` bytes from offset `off` on. -/
def peek (m : Mem) (off n : ℕ) : List UInt8 := (List.range n).map fun i => m (off + i)

/-- Store `bs` from offset `off` on. -/
def poke (m : Mem) (off : ℕ) (bs : List UInt8) : Mem :=
  fun i => if off ≤ i then bs.getD (i - off) (m i) else m i

/-- A block of zero bytes. -/
def zero : Mem := fun _ => 0

@[simp] theorem length_peek (m : Mem) (off n : ℕ) : (m.peek off n).length = n := by simp [peek]

theorem peek_ne_nil (m : Mem) (off : ℕ) {n : ℕ} (h : 0 < n) : m.peek off n ≠ [] := by
  rw [← List.length_pos_iff, length_peek]
  exact h

@[simp] theorem peek_zero (m : Mem) (off : ℕ) : m.peek off 0 = [] := rfl

@[simp] theorem poke_nil (m : Mem) (off : ℕ) : m.poke off [] = m := by
  funext i
  simp [poke]

theorem getElem?_peek (m : Mem) (off n i : ℕ) :
    (m.peek off n)[i]? = if i < n then some (m (off + i)) else none := by
  rw [peek, List.getElem?_map]
  by_cases h : i < n <;> simp [h]

theorem peek_eq_iff {m m' : Mem} {off off' n : ℕ} :
    m.peek off n = m'.peek off' n ↔ ∀ i < n, m (off + i) = m' (off' + i) := by
  simp only [peek, List.map_inj_left, List.mem_range]

theorem peek_add (m : Mem) (off a b : ℕ) :
    m.peek off (a + b) = m.peek off a ++ m.peek (off + a) b := by
  simp only [peek, List.range_add, List.map_append, List.map_map]
  congr 1
  exact List.map_congr_left fun i _ => by simp [Nat.add_assoc]

theorem take_peek (m : Mem) (off : ℕ) {k n : ℕ} (h : k ≤ n) :
    (m.peek off n).take k = m.peek off k := by
  obtain ⟨l, rfl⟩ := Nat.exists_eq_add_of_le h
  rw [peek_add, List.take_left' (length_peek m off k)]

/-- Equal runs have equal parts. -/
theorem peek_mono {m m' : Mem} {off n k l : ℕ} (h : m.peek off n = m'.peek off n)
    (hk : off ≤ k) (hl : k + l ≤ off + n) : m.peek k l = m'.peek k l := by
  rw [peek_eq_iff] at h ⊢
  intro i hi
  have := h (k + i - off) (by omega)
  rwa [show off + (k + i - off) = k + i by omega] at this

theorem poke_apply_of_lt {m : Mem} {off i : ℕ} (bs : List UInt8) (h : i < off) :
    m.poke off bs i = m i := by
  simp [poke, Nat.not_le.mpr h]

theorem poke_apply_of_ge {m : Mem} {off i : ℕ} {bs : List UInt8} (h : off + bs.length ≤ i) :
    m.poke off bs i = m i := by
  rw [poke, if_pos (by omega), List.getD_eq_getElem?_getD, List.getElem?_eq_none (by omega),
    Option.getD_none]

theorem poke_apply {m : Mem} {off i : ℕ} {bs : List UInt8} (h : i < bs.length) :
    m.poke off bs (off + i) = bs[i] := by
  rw [poke, if_pos (Nat.le_add_right off i), Nat.add_sub_cancel_left, List.getD_eq_getElem?_getD,
    List.getElem?_eq_getElem h, Option.getD_some]

theorem poke_append (m : Mem) (off : ℕ) (bs bs' : List UInt8) :
    m.poke off (bs ++ bs') = (m.poke off bs).poke (off + bs.length) bs' := by
  funext i
  rcases Nat.lt_or_ge i off with h | h
  · rw [poke_apply_of_lt _ h, poke_apply_of_lt _ (by omega), poke_apply_of_lt _ h]
  · obtain ⟨k, rfl⟩ := Nat.exists_eq_add_of_le h
    rcases Nat.lt_or_ge k bs.length with hk | hk
    · rw [poke_apply_of_lt bs' (by omega), poke_apply hk, poke_apply (by simp; omega),
        List.getElem_append_left hk]
    · obtain ⟨j, rfl⟩ := Nat.exists_eq_add_of_le hk
      rcases Nat.lt_or_ge j bs'.length with hj | hj
      · rw [← Nat.add_assoc, poke_apply hj, Nat.add_assoc, poke_apply (by simp; omega),
          List.getElem_append_right (by omega)]
        simp
      · rw [poke_apply_of_ge (by simp; omega), poke_apply_of_ge (by omega), poke_apply_of_ge (by omega)]

/-- A store hides an earlier one that it covers. -/
theorem poke_poke (m : Mem) (off : ℕ) {bs bs' : List UInt8} (h : bs.length ≤ bs'.length) :
    (m.poke off bs).poke off bs' = m.poke off bs' := by
  funext i
  rcases Nat.lt_or_ge i off with hi | hi
  · simp only [poke_apply_of_lt _ hi]
  · obtain ⟨k, rfl⟩ := Nat.exists_eq_add_of_le hi
    rcases Nat.lt_or_ge k bs'.length with hk | hk
    · rw [poke_apply hk, poke_apply hk]
    · rw [poke_apply_of_ge (by omega), poke_apply_of_ge (by omega), poke_apply_of_ge (by omega)]

theorem peek_poke_disjoint (m : Mem) {off off' n : ℕ} (bs : List UInt8)
    (h : off + n ≤ off' ∨ off' + bs.length ≤ off) : (m.poke off' bs).peek off n = m.peek off n := by
  rw [peek_eq_iff]
  intro i hi
  rcases h with h | h
  · exact poke_apply_of_lt bs (by omega)
  · exact poke_apply_of_ge (by omega)

/-- Reading inside what was just stored. -/
theorem peek_poke_within (m : Mem) (off : ℕ) {bs : List UInt8} {k n : ℕ}
    (h : k + n ≤ bs.length) : (m.poke off bs).peek (off + k) n = (bs.drop k).take n := by
  apply List.ext_getElem?
  intro i
  rw [getElem?_peek, List.getElem?_take, List.getElem?_drop]
  split_ifs with hi
  · rw [Nat.add_assoc, poke_apply (by omega), List.getElem?_eq_getElem (by omega)]
  · rfl

theorem peek_poke_self (m : Mem) (off : ℕ) (bs : List UInt8) :
    (m.poke off bs).peek off bs.length = bs := by
  have hlen : 0 + bs.length ≤ bs.length := by omega
  simpa using peek_poke_within m off hlen

theorem peek_poke_of_length (m : Mem) (off : ℕ) {bs : List UInt8} {n : ℕ} (h : bs.length = n) :
    (m.poke off bs).peek off n = bs := by
  rw [← h]
  exact peek_poke_self m off bs

theorem peek_poke_take (m : Mem) (off : ℕ) {bs : List UInt8} {n : ℕ} (h : n ≤ bs.length) :
    (m.poke off bs).peek off n = bs.take n := by
  have hn : 0 + n ≤ bs.length := by omega
  simpa using peek_poke_within m off hn

theorem peek_zeros (off n : ℕ) : zero.peek off n = List.replicate n 0 := by
  simp [peek, zero]

/-- A write at the start of a zeroed block. -/
theorem peek_poke_zeros {bs : List UInt8} {n : ℕ} (h : bs.length ≤ n) :
    (zero.poke 0 bs).peek 0 n = bs ++ List.replicate (n - bs.length) 0 := by
  obtain ⟨k, rfl⟩ := Nat.exists_eq_add_of_le h
  rw [peek_add, peek_poke_self, peek_poke_disjoint _ _ (.inr (by omega)), peek_zeros,
    Nat.add_sub_cancel_left]

/-- What a block holds after a write depends on the bytes it held before. -/
theorem peek_poke_congr {m m' : Mem} {off n : ℕ} (bs : List UInt8) (h : m.peek 0 n = m'.peek 0 n) :
    (m.poke off bs).peek 0 n = (m'.poke off bs).peek 0 n := by
  rw [peek_eq_iff] at h ⊢
  intro i hi
  have := h i hi
  rw [Nat.zero_add] at this ⊢
  rw [poke, poke, this]

/-- A NUL byte stored behind a string. -/
theorem peek_nul {m : Mem} {bs : List UInt8} (h : m.peek 0 bs.length = bs) (n : ℕ) :
    ∃ r, (m.poke bs.length [0]).peek 0 (bs.length + (n + 1)) = bs ++ 0 :: r := by
  refine ⟨(m.poke bs.length [0]).peek (bs.length + 1) n, ?_⟩
  have hnul : (m.poke bs.length [0]).peek bs.length 1 = [0] := peek_poke_self _ _ [0]
  rw [peek_add, peek_poke_disjoint _ _ (.inl (by omega)), h, Nat.add_comm n 1, peek_add, Nat.zero_add,
    hnul]
  rfl

/-- The bytes of a 32-bit number. -/
def bytes32 (n : ℕ) : List UInt8 :=
  [UInt8.ofNat n, UInt8.ofNat (n / 256), UInt8.ofNat (n / 65536), UInt8.ofNat (n / 16777216)]

/-- The 32-bit number at offset `off`. -/
def get32 (m : Mem) (off : ℕ) : ℕ :=
  (m off).toNat + 256 * (m (off + 1)).toNat + 65536 * (m (off + 2)).toNat +
    16777216 * (m (off + 3)).toNat

/-- Store a 32-bit number at offset `off`. -/
def put32 (m : Mem) (off n : ℕ) : Mem := m.poke off (bytes32 n)

@[simp] theorem length_bytes32 (n : ℕ) : (bytes32 n).length = 4 := rfl

theorem get32_lt (m : Mem) (off : ℕ) : m.get32 off < 2 ^ 32 := by
  have h0 := (m off).toNat_lt
  have h1 := (m (off + 1)).toNat_lt
  have h2 := (m (off + 2)).toNat_lt
  have h3 := (m (off + 3)).toNat_lt
  unfold get32
  omega

theorem get32_congr {m m' : Mem} {off off' : ℕ} (h : m.peek off 4 = m'.peek off' 4) :
    m.get32 off = m'.get32 off' := by
  have h' := peek_eq_iff.mp h
  have h0 := h' 0 (by norm_num)
  have h1 := h' 1 (by norm_num)
  have h2 := h' 2 (by norm_num)
  have h3 := h' 3 (by norm_num)
  simp only [Nat.add_zero] at h0
  rw [get32, get32, h0, h1, h2, h3]

theorem get32_put32 (m : Mem) (off n : ℕ) : (m.put32 off n).get32 off = n % 2 ^ 32 := by
  have hb : ∀ i (hi : i < 4), m.put32 off n (off + i) = (bytes32 n)[i] :=
    fun i hi => poke_apply hi
  have h0 := hb 0 (by norm_num)
  rw [Nat.add_zero] at h0
  rw [get32, h0, hb 1 (by norm_num), hb 2 (by norm_num), hb 3 (by norm_num)]
  simp only [bytes32, List.getElem_cons_zero, List.getElem_cons_succ, UInt8.toNat_ofNat']
  omega

theorem get32_poke_disjoint (m : Mem) {off off' : ℕ} (bs : List UInt8)
    (h : off + 4 ≤ off' ∨ off' + bs.length ≤ off) : (m.poke off' bs).get32 off = m.get32 off :=
  get32_congr (peek_poke_disjoint m bs h)

theorem get32_put32_disjoint (m : Mem) {off off' : ℕ} (n : ℕ)
    (h : off + 4 ≤ off' ∨ off' + 4 ≤ off) : (m.put32 off' n).get32 off = m.get32 off :=
  get32_poke_disjoint m (bytes32 n) h

theorem peek_put32_disjoint (m : Mem) {off off' n : ℕ} (v : ℕ)
    (h : off + n ≤ off' ∨ off' + 4 ≤ off) : (m.put32 off' v).peek off n = m.peek off n :=
  peek_poke_disjoint m (bytes32 v) h

end Mem

/-! ### Bounds -/

/-- An access to the `len` bytes from offset `off` on of a block of `size` bytes. -/
structure Access where
  size : ℕ
  off : ℕ
  len : ℕ
deriving DecidableEq

/-- Every access stays inside its block. -/
def InBounds (as : List Access) : Prop := ∀ a ∈ as, a.off + a.len ≤ a.size

@[simp] theorem inBounds_nil : InBounds [] := fun _ h => absurd h List.not_mem_nil

@[simp] theorem inBounds_cons {a : Access} {as : List Access} :
    InBounds (a :: as) ↔ a.off + a.len ≤ a.size ∧ InBounds as := List.forall_mem_cons

@[simp] theorem inBounds_append {as bs : List Access} :
    InBounds (as ++ bs) ↔ InBounds as ∧ InBounds bs := List.forall_mem_append

/-- The accesses to the `n` bytes that end at offset `e` of a block of `size` bytes: those in front of
the block belong to none. -/
def Access.upTo (size e n : ℕ) : List Access :=
  if e < n then [⟨0, 0, n - e⟩, ⟨size, 0, e⟩] else [⟨size, e - n, n⟩]

@[simp] theorem inBounds_upTo {size e n : ℕ} :
    InBounds (Access.upTo size e n) ↔ n ≤ e ∧ e ≤ size := by
  unfold Access.upTo
  split_ifs with h
  · rw [inBounds_cons, inBounds_cons]
    exact ⟨fun hin => by have := hin.1; dsimp only at this; omega, fun hle => absurd hle.1 (by omega)⟩
  · rw [inBounds_cons, and_iff_left inBounds_nil]
    show e - n + n ≤ size ↔ n ≤ e ∧ e ≤ size
    omega

/-- `CLEAN(x)` where `x` was never set and holds some address: unless it is NULL, `free` gets what no
allocation returned. -/
def Access.cleanUnset (x : ℕ) : List Access := if x = 0 then [] else [⟨0, 0, 1⟩]

@[simp] theorem inBounds_cleanUnset {x : ℕ} : InBounds (Access.cleanUnset x) ↔ x = 0 := by
  unfold Access.cleanUnset
  split_ifs with h <;> simp [h]

/-! ### C strings -/

/-- The C string that starts with these bytes. -/
def cstr (bs : List UInt8) : List UInt8 := bs.takeWhile (fun b => b ≠ 0)

/-- `strncmp(a, b, n) == 0` for two arrays of `n` bytes. -/
def strnEq : List UInt8 → List UInt8 → Bool
  | a :: as, b :: bs => if a ≠ b then false else if a = 0 then true else strnEq as bs
  | _, _ => true

/-- `strstr(s, t) != NULL` for a C string `s` and a text `t` without NUL. -/
def strstr (s t : List UInt8) : Bool := decide (t <:+: cstr s)

/-- Decimal digits, as printed by `%d`. -/
def decimal (n : ℕ) : List UInt8 := (Nat.toDigits 10 n).map (fun c => UInt8.ofNat c.toNat)

/-- The `int` with the bits of `n`, as printed by `%d`. -/
def decimalInt (n : ℕ) : List UInt8 :=
  if u32 n < 2 ^ 31 then decimal (u32 n) else 0x2d :: decimal (2 ^ 32 - u32 n)

theorem length_decimal_le_iff {n k : ℕ} (hk : 0 < k) : (decimal n).length ≤ k ↔ n < 10 ^ k := by
  rw [decimal, List.length_map]
  exact Nat.length_toDigits_le_iff (by decide) hk

/-- Nine digits, or eight after a minus sign. -/
theorem length_decimalInt_lt_iff (n : ℕ) :
    (decimalInt n).length < 10 ↔ u32 n < 10 ^ 9 ∨ 2 ^ 32 - 10 ^ 8 < u32 n := by
  have hlt := u32_lt n
  unfold decimalInt
  split_ifs with h
  · rw [Nat.lt_succ_iff, length_decimal_le_iff (by decide)]
    omega
  · rw [List.length_cons, Nat.lt_succ_iff, Nat.succ_le_iff, Nat.lt_succ_iff,
      length_decimal_le_iff (by decide)]
    omega

theorem cstr_append {s : List UInt8} (h : 0 ∉ s) (r : List UInt8) : cstr (s ++ r) = s ++ cstr r :=
  List.takeWhile_append_of_pos fun b hb => by
    have : b ≠ 0 := fun h0 => h (h0 ▸ hb)
    simpa using this

theorem cstr_of_not_mem {s : List UInt8} (h : 0 ∉ s) : cstr s = s := by
  rw [← List.append_nil s, cstr_append h]
  rfl

theorem length_cstr_le (s : List UInt8) : (cstr s).length ≤ s.length :=
  (List.takeWhile_prefix _).length_le

/-- A string ends at a NUL byte. -/
theorem cstr_nul (s r : List UInt8) : cstr (s ++ 0 :: r) = cstr s := by
  unfold cstr
  rw [List.takeWhile_append]
  split_ifs with h
  · rw [List.takeWhile_cons_of_neg (by simp), List.append_nil]
    exact ((List.takeWhile_prefix _).eq_of_length h).symm
  · rfl

/-- A string that ends at a NUL byte is shorter than the bytes it was taken from. -/
theorem length_cstr_lt_iff {s : List UInt8} : (cstr s).length < s.length ↔ 0 ∈ s := by
  constructor
  · intro h
    by_contra h0
    rw [cstr_of_not_mem h0] at h
    exact lt_irrefl _ h
  · intro h
    obtain ⟨a, b, rfl, -⟩ := List.eq_append_cons_of_mem h
    have hle := length_cstr_le a
    rw [cstr_nul, List.length_append, List.length_cons]
    omega

/-- The access of a function that reads the string in a block, with its NUL byte. -/
def Access.string (size : ℕ) (m : Mem) : Access := ⟨size, 0, (cstr (m.peek 0 size)).length + 1⟩

/-- The string has to end in the block. -/
@[simp] theorem inBounds_string {size : ℕ} {m : Mem} {as : List Access} :
    InBounds (Access.string size m :: as) ↔ 0 ∈ m.peek 0 size ∧ InBounds as := by
  rw [inBounds_cons, ← length_cstr_lt_iff, Mem.length_peek, Access.string, Nat.zero_add,
    Nat.succ_le_iff]

theorem strstr_append {t : List UInt8} (h : 0 ∉ t) (r : List UInt8) : strstr (t ++ r) t = true := by
  rw [strstr, cstr_append h]
  exact decide_eq_true (List.prefix_append t _).isInfix

theorem strnEq_self (a : List UInt8) : strnEq a a = true := by
  induction a with
  | nil => rfl
  | cons x a ih => simp [strnEq, ih]

/-- `strncmp` finds two arrays equal exactly when they agree up to and including a common NUL, or
everywhere. -/
theorem strnEq_iff {a b : List UInt8} (h : a.length = b.length) :
    strnEq a b = true ↔ a = b ∨ ∃ k, a.take (k + 1) = b.take (k + 1) ∧ a[k]? = some 0 := by
  induction a generalizing b with
  | nil =>
      obtain rfl : b = [] := List.length_eq_zero_iff.mp h.symm
      simp [strnEq]
  | cons x a ih =>
      cases b with
      | nil => simp at h
      | cons y b =>
          simp only [List.length_cons, Nat.add_right_cancel_iff] at h
          by_cases hxy : x = y
          · subst hxy
            by_cases hx : x = 0
            · subst hx
              simp only [strnEq, ne_eq, not_true_eq_false, ↓reduceIte, true_iff]
              exact .inr ⟨0, by simp⟩
            · simp only [strnEq, ne_eq, not_true_eq_false, ↓reduceIte, hx, ih h, List.cons.injEq,
                true_and]
              constructor
              · rintro (hab | ⟨k, hk, h0⟩)
                · exact .inl hab
                · exact .inr ⟨k + 1, by simp [hk], by simpa using h0⟩
              · rintro (hab | ⟨k, hk, h0⟩)
                · exact .inl hab
                · cases k with
                  | zero => simp [hx] at h0
                  | succ k => exact .inr ⟨k, by simpa using hk, by simpa using h0⟩
          · simp only [strnEq, ne_eq, hxy, not_false_eq_true, ↓reduceIte, Bool.false_eq_true,
              List.cons.injEq, false_and, false_or, false_iff]
            rintro ⟨k, hk, _⟩
            simp [hxy] at hk

end Carroll
