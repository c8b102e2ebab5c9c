import Carroll.BlockStream
import Carroll.Sha2Rounds

/-! # The contexts of `sha2.c`

`SHA256_Update`, `SHA256_Pad` and `SHA256_Final` and their `SHA512` forms are one program over
two sets of types and lengths: a `Sha2` holds what they differ in, and `sha256`, `sha512` are the
two.  The context keeps the state, the number of bits so far and a buffer of one block.  How much
of the buffer is filled is not kept: it is read off the number of bits.

`Sha2.Counts` says what the counter must do, and `Sha2.Holds` what a context that has taken `msg`
looks like; the rest of the buffer may hold anything.  `Sha2.holds_update` is one call, whatever
its length, and `Sha2.pad_state` the end. -/

namespace Carroll

/-- What the functions of one width use: lengths, the compression function, the counter. -/
structure Sha2 (σ κ : Type) where
  blockLength : ℕ
  shortLength : ℕ
  /-- The bytes cleared for a last block of its own. -/
  clearLength : ℕ
  blockLength_pos : 0 < blockLength
  initial : σ
  blank : σ
  transform : σ → List UInt8 → σ
  noBits : κ
  /-- Adds the bits of so many bytes. -/
  addBits : κ → ℕ → κ
  /-- The low word of the counter. -/
  lowBits : κ → UInt64
  storeBits : κ → List UInt8
  digest : σ → List UInt8

/-- `SHA256_CTX`, `SHA512_CTX`. -/
structure Sha2Ctx (σ κ : Type) where
  state : σ
  bitcount : κ
  buffer : List UInt8

namespace Sha2

variable {σ κ : Type} (H : Sha2 σ κ)

/-- `SHA256_Init`. -/
def init (_ : Sha2Ctx σ κ) : Sha2Ctx σ κ :=
  ⟨H.initial, H.noBits, List.replicate H.blockLength 0⟩

/-- `usedspace`. -/
def usedspace (c : Sha2Ctx σ κ) : ℕ := (H.lowBits c.bitcount >>> 3).toNat % H.blockLength

/-- The loop over the whole blocks of the caller's data, and the left-overs. -/
def blocks (c : Sha2Ctx σ κ) (data : List UInt8) : Sha2Ctx σ κ :=
  if H.blockLength ≤ data.length then
    blocks { c with
      state := H.transform c.state (data.take H.blockLength)
      bitcount := H.addBits c.bitcount H.blockLength } (data.drop H.blockLength)
  else if 0 < data.length then
    { c with
      bitcount := H.addBits c.bitcount data.length
      buffer := copyAt c.buffer 0 data }
  else c
termination_by data.length
decreasing_by
  have := H.blockLength_pos
  simp only [List.length_drop]
  omega

/-- `SHA256_Update`. -/
def update (c : Sha2Ctx σ κ) (data : List UInt8) : Sha2Ctx σ κ :=
  if data.length = 0 then c
  else
    let usedspace := H.usedspace c
    if 0 < usedspace then
      let freespace := H.blockLength - usedspace
      if freespace ≤ data.length then
        let buffer := copyAt c.buffer usedspace (data.take freespace)
        H.blocks ⟨H.transform c.state buffer, H.addBits c.bitcount freespace, buffer⟩
          (data.drop freespace)
      else
        ⟨c.state, H.addBits c.bitcount data.length, copyAt c.buffer usedspace data⟩
    else H.blocks c data

/-- The buffer and the state before the length is stored in `SHA256_Pad`. -/
def padded (c : Sha2Ctx σ κ) : Sha2Ctx σ κ :=
  let usedspace := H.usedspace c
  if 0 < usedspace then
    let buffer := copyAt c.buffer usedspace [0x80]
    let usedspace := usedspace + 1
    if usedspace ≤ H.shortLength then
      { c with
        buffer := copyAt buffer usedspace (List.replicate (H.shortLength - usedspace) 0) }
    else
      let buffer := if usedspace < H.blockLength then
          copyAt buffer usedspace (List.replicate (H.blockLength - usedspace) 0)
        else buffer
      { c with
        state := H.transform c.state buffer
        buffer := copyAt buffer 0 (List.replicate H.clearLength 0) }
  else
    { c with
      buffer := copyAt (copyAt c.buffer 0 (List.replicate H.shortLength 0)) 0 [0x80] }

/-- `SHA256_Pad`. -/
def pad (c : Sha2Ctx σ κ) : Sha2Ctx σ κ :=
  let c := H.padded c
  let buffer := copyAt c.buffer H.shortLength (H.storeBits c.bitcount)
  { c with
    state := H.transform c.state buffer
    buffer := buffer }

/-- `SHA256_Final`, with (`wanted`) or without a buffer for the digest. -/
def final (c : Sha2Ctx σ κ) (wanted : Bool) : Option (List UInt8) × Sha2Ctx σ κ :=
  let c := H.pad c
  if wanted then
    (some (H.digest c.state), ⟨H.blank, H.noBits, List.replicate H.blockLength 0⟩)
  else (none, c)

/-! ### What a context stands for -/

/-- The zeros between the one bit and the length. -/
def zeros (used : ℕ) : ℕ :=
  if used ≤ H.shortLength then H.shortLength - used else H.blockLength + H.shortLength - used

/-- The bits added after a message of `len` bytes. -/
def padding (counted : ℕ → κ) (len : ℕ) : List UInt8 :=
  0x80 :: List.replicate (H.zeros (len % H.blockLength + 1)) 0 ++ H.storeBits (counted len)

/-- The digest of a message that is there as a whole. -/
def hash (counted : ℕ → κ) (msg : List UInt8) : List UInt8 :=
  H.digest
    (absorbAll H.transform H.blockLength (H.initial, []) (msg ++ H.padding counted msg.length)).1

/-- The counter after `n` bytes is `counted n`, its low word gives the bytes over after whole
blocks, and its stored form takes the place after `shortLength`. -/
structure Counts (counted : ℕ → κ) : Prop where
  zero : counted 0 = H.noBits
  add : ∀ n m, m ≤ H.blockLength → H.addBits (counted n) m = counted (n + m)
  low : ∀ n, (H.lowBits (counted n) >>> 3).toNat % H.blockLength = n % H.blockLength
  length_store : ∀ k, H.shortLength + (H.storeBits k).length = H.blockLength
  short_pos : 0 < H.shortLength
  short_lt : H.shortLength < H.blockLength
  short_le : H.shortLength ≤ H.clearLength
  clear_le : H.clearLength ≤ H.blockLength

/-- The context `c` has taken `msg`. -/
structure Holds (counted : ℕ → κ) (c : Sha2Ctx σ κ) (msg : List UInt8) : Prop where
  absorbed : absorbAll H.transform H.blockLength (H.initial, []) msg =
    (c.state, c.buffer.take (msg.length % H.blockLength))
  bits : c.bitcount = counted msg.length
  size : c.buffer.length = H.blockLength

variable {H} {counted : ℕ → κ} {c : Sha2Ctx σ κ} {msg data : List UInt8}

theorem holds_init (hH : H.Counts counted) (c : Sha2Ctx σ κ) :
    H.Holds counted (H.init c) [] where
  absorbed := by simp [init]
  bits := hH.zero.symm
  size := List.length_replicate

theorem Holds.usedspace_eq (hH : H.Counts counted) (h : H.Holds counted c msg) :
    H.usedspace c = msg.length % H.blockLength := by
  rw [usedspace, h.bits]
  exact hH.low msg.length

theorem Holds.absorbed_append (h : H.Holds counted c msg) (data : List UInt8) :
    absorbAll H.transform H.blockLength (H.initial, []) (msg ++ data) =
      absorbAll H.transform H.blockLength
        (c.state, c.buffer.take (msg.length % H.blockLength)) data := by
  rw [absorbAll_append, h.absorbed]

/-- Less than what is free: the bytes are copied behind those that wait. -/
theorem holds_copy (hH : H.Counts counted) (h : H.Holds counted c msg) (data : List UInt8)
    (hd : msg.length % H.blockLength + data.length < H.blockLength) :
    H.Holds counted ⟨c.state, H.addBits c.bitcount data.length,
      copyAt c.buffer (msg.length % H.blockLength) data⟩ (msg ++ data) where
  absorbed := by
    have hsize := h.size
    have hmod : (msg ++ data).length % H.blockLength =
        msg.length % H.blockLength + data.length := by
      rw [List.length_append, ← Nat.mod_add_mod, Nat.mod_eq_of_lt hd]
    rw [h.absorbed_append, absorbAll_short (by simp; omega), hmod,
      take_copyAt _ _ _ (by omega)]
  bits := by
    rw [h.bits, hH.add _ _ (by omega), List.length_append]
  size := by
    rw [length_copyAt (by rw [h.size]; omega)]
    exact h.size

/-- Exactly what is free: the full buffer is processed. -/
theorem holds_fill (hH : H.Counts counted) (h : H.Holds counted c msg) (data : List UInt8)
    (hd : msg.length % H.blockLength + data.length = H.blockLength) :
    H.Holds counted ⟨H.transform c.state (copyAt c.buffer (msg.length % H.blockLength) data),
      H.addBits c.bitcount data.length,
      copyAt c.buffer (msg.length % H.blockLength) data⟩ (msg ++ data) where
  absorbed := by
    have hsize := h.size
    have hlt := Nat.mod_lt msg.length H.blockLength_pos
    have hne : data ≠ [] := by
      rintro rfl
      simp at hd
      omega
    have hmod : (msg ++ data).length % H.blockLength = 0 := by
      rw [List.length_append, ← Nat.mod_add_mod, hd, Nat.mod_self]
    rw [h.absorbed_append, absorbAll_fill hne (by simp; omega), hmod,
      copyAt_eq_append (by omega), List.take_zero]
  bits := by
    rw [h.bits, hH.add _ _ (by omega), List.length_append]
  size := by
    rw [length_copyAt (by rw [h.size]; omega)]
    exact h.size

/-- A whole block while nothing waits: the buffer is not used. -/
theorem holds_block (hH : H.Counts counted) (h : H.Holds counted c msg)
    (hz : msg.length % H.blockLength = 0) (hd : data.length = H.blockLength) :
    H.Holds counted { c with
      state := H.transform c.state data
      bitcount := H.addBits c.bitcount H.blockLength } (msg ++ data) where
  absorbed := by
    have hmod : (msg ++ data).length % H.blockLength = 0 := by
      rw [List.length_append, hd, Nat.add_mod_right, hz]
    rw [h.absorbed_append, hz, List.take_zero, absorbAll_block H.blockLength_pos hd, hmod,
      List.take_zero]
  bits := by
    rw [h.bits, hH.add _ _ le_rfl, List.length_append, hd]
  size := h.size

/-- The loop over the whole blocks, by the length of what is left. -/
theorem holds_blocks (hH : H.Counts counted) (h : H.Holds counted c msg) (data : List UInt8)
    (hz : msg.length % H.blockLength = 0) :
    H.Holds counted (H.blocks c data) (msg ++ data) := by
  fun_induction H.blocks c data generalizing msg with
  | case1 c data hle ih =>
      have htake : (data.take H.blockLength).length = H.blockLength := by simpa using hle
      have hstep := ih (holds_block hH h hz htake)
        (by rw [List.length_append, htake, Nat.add_mod_right, hz])
      rwa [List.append_assoc, List.take_append_drop] at hstep
  | case2 c data hle hpos =>
      have hcopy := holds_copy hH h data (by omega)
      rwa [hz] at hcopy
  | case3 c data hle hpos =>
      have hnil : data = [] := List.eq_nil_of_length_eq_zero (by omega)
      rwa [hnil, List.append_nil]

/-- One call, of any length and with any bytes already waiting. -/
theorem holds_update (hH : H.Counts counted) (h : H.Holds counted c msg) (data : List UInt8) :
    H.Holds counted (H.update c data) (msg ++ data) := by
  have hlt := Nat.mod_lt msg.length H.blockLength_pos
  rw [update, h.usedspace_eq hH]
  by_cases hnil : data.length = 0
  · rw [if_pos hnil, List.eq_nil_of_length_eq_zero hnil, List.append_nil]
    exact h
  rw [if_neg hnil]
  by_cases hused : 0 < msg.length % H.blockLength
  · simp only [if_pos hused]
    by_cases hfree : H.blockLength - msg.length % H.blockLength ≤ data.length
    · -- fill the buffer, then go on where no byte waits
      rw [if_pos hfree]
      have htake : (data.take (H.blockLength - msg.length % H.blockLength)).length =
          H.blockLength - msg.length % H.blockLength := by simpa using hfree
      have hfill := holds_fill hH h (data.take (H.blockLength - msg.length % H.blockLength))
        (by omega)
      rw [htake] at hfill
      have hblocks := holds_blocks hH hfill
        (data.drop (H.blockLength - msg.length % H.blockLength)) (by
          rw [List.length_append, htake, ← Nat.mod_add_mod, Nat.add_sub_of_le hlt.le,
            Nat.mod_self])
      rwa [List.append_assoc, List.take_append_drop] at hblocks
    · rw [if_neg hfree]
      exact holds_copy hH h data (by omega)
  · simp only [if_neg hused]
    exact holds_blocks hH h data (by omega)

theorem holds_updates (hH : H.Counts counted) (h : H.Holds counted c msg)
    (calls : List (List UInt8)) :
    H.Holds counted (calls.foldl H.update c) (msg ++ calls.flatten) := by
  induction calls generalizing c msg with
  | nil => simpa using h
  | cons data calls ih =>
      have := ih (holds_update hH h data)
      rwa [List.append_assoc] at this

/-! ### The end -/

/-- The one bit and zeros up to the place `k` of the buffer. -/
theorem take_marked (h : H.Holds counted c msg) {k : ℕ}
    (hk : msg.length % H.blockLength + 1 ≤ k) (hkB : k ≤ H.blockLength) :
    (copyAt (copyAt c.buffer (msg.length % H.blockLength) [0x80])
        (msg.length % H.blockLength + 1)
        (List.replicate (k - (msg.length % H.blockLength + 1)) 0)).take k =
      c.buffer.take (msg.length % H.blockLength) ++
        (0x80 :: List.replicate (k - (msg.length % H.blockLength + 1)) 0) := by
  have hsize := h.size
  have htake := take_copyAt_copyAt c.buffer (msg.length % H.blockLength) [0x80]
    (List.replicate (k - (msg.length % H.blockLength + 1)) 0) (by simp; omega)
  simp only [List.length_replicate, List.length_singleton] at htake
  rwa [Nat.add_sub_of_le hk] at htake

theorem length_marked (h : H.Holds counted c msg) {k : ℕ}
    (hk : msg.length % H.blockLength + 1 ≤ k) (hkB : k ≤ H.blockLength) :
    (copyAt (copyAt c.buffer (msg.length % H.blockLength) [0x80])
        (msg.length % H.blockLength + 1)
        (List.replicate (k - (msg.length % H.blockLength + 1)) 0)).length = H.blockLength := by
  have hsize := h.size
  have hone : (copyAt c.buffer (msg.length % H.blockLength) [0x80]).length = H.blockLength := by
    rw [length_copyAt (by simp; omega), hsize]
  rw [length_copyAt (by simp; omega), hone]

/-- A buffer cleared from the start. -/
theorem take_cleared {b : List UInt8} {k l : ℕ} (hk : k ≤ l) (hl : l ≤ b.length) :
    (copyAt b 0 (List.replicate l 0)).take k = List.replicate k 0 := by
  have htake := take_copyAt b 0 (List.replicate l 0) (by simpa using hl)
  simp only [List.length_replicate, zero_add, List.take_zero, List.nil_append] at htake
  rw [← min_eq_left hk, ← List.take_take, htake, List.take_replicate]

/-- A buffer cleared from the start, and the one bit in it. -/
theorem take_cleared_marked {b : List UInt8} {k : ℕ} (h0 : 0 < k) (hk : k ≤ b.length) :
    (copyAt (copyAt b 0 (List.replicate k 0)) 0 [0x80]).take k =
      0x80 :: List.replicate (k - 1) 0 := by
  obtain ⟨l, rfl⟩ := Nat.exists_eq_add_one_of_ne_zero h0.ne'
  have hclear := congrArg (List.drop 1) (take_cleared (b := b) le_rfl hk)
  rw [List.drop_take, List.drop_replicate, Nat.add_sub_cancel] at hclear
  rw [copyAt, List.take_zero, List.nil_append, List.singleton_append, List.take_succ_cons,
    List.length_singleton, zero_add, hclear, Nat.add_sub_cancel]

/-- Before the length is stored, the buffer is filled up to its place, and nothing else of it
matters. -/
theorem absorbed_padded (hH : H.Counts counted) (h : H.Holds counted c msg) :
    absorbAll H.transform H.blockLength (H.initial, []) (msg ++ (0x80 ::
        List.replicate (H.zeros (msg.length % H.blockLength + 1)) 0)) =
      ((H.padded c).state, (H.padded c).buffer.take H.shortLength) ∧
    (H.padded c).bitcount = c.bitcount ∧ (H.padded c).buffer.length = H.blockLength := by
  have hsize := h.size
  have hlt := Nat.mod_lt msg.length H.blockLength_pos
  have hshort := hH.short_lt
  rw [h.absorbed_append, padded, h.usedspace_eq hH]
  by_cases hused : 0 < msg.length % H.blockLength
  · simp only [if_pos hused]
    by_cases hle : msg.length % H.blockLength + 1 ≤ H.shortLength
    · -- the length still fits into this block
      simp only [zeros, if_pos hle]
      refine ⟨?_, trivial, length_marked h hle hshort.le⟩
      rw [take_marked h hle hshort.le, absorbAll_short (by simp; omega)]
    · -- it does not: one block is processed, and the next one starts with zeros
      have hbuffer : (if msg.length % H.blockLength + 1 < H.blockLength then
            copyAt (copyAt c.buffer (msg.length % H.blockLength) [0x80])
              (msg.length % H.blockLength + 1)
              (List.replicate (H.blockLength - (msg.length % H.blockLength + 1)) 0)
          else copyAt c.buffer (msg.length % H.blockLength) [0x80]) =
          copyAt (copyAt c.buffer (msg.length % H.blockLength) [0x80])
            (msg.length % H.blockLength + 1)
            (List.replicate (H.blockLength - (msg.length % H.blockLength + 1)) 0) := by
        by_cases hfull : msg.length % H.blockLength + 1 < H.blockLength
        · rw [if_pos hfull]
        · rw [if_neg hfull, Nat.sub_eq_zero_of_le (by omega), List.replicate_zero, copyAt_nil]
      have hlen := length_marked h (k := H.blockLength) (by omega) le_rfl
      have hmarked := take_marked h (k := H.blockLength) (by omega) le_rfl
      rw [List.take_of_length_le hlen.le] at hmarked
      have hsplit : H.blockLength + H.shortLength - (msg.length % H.blockLength + 1) =
          H.blockLength - (msg.length % H.blockLength + 1) + H.shortLength := by omega
      simp only [zeros, if_neg hle, hbuffer, hsplit, List.replicate_add, ← List.cons_append]
      have hfill : absorbAll H.transform H.blockLength
          (c.state, c.buffer.take (msg.length % H.blockLength))
          (0x80 :: List.replicate (H.blockLength - (msg.length % H.blockLength + 1)) 0) =
          (H.transform c.state (c.buffer.take (msg.length % H.blockLength) ++
            0x80 :: List.replicate (H.blockLength - (msg.length % H.blockLength + 1)) 0), []) :=
        absorbAll_fill (by simp) (by simp; omega)
      refine ⟨?_, trivial, ?_⟩
      · rw [absorbAll_append, hfill, ← hmarked, absorbAll_short (by simpa using hshort),
          List.nil_append, take_cleared hH.short_le (by rw [hlen]; exact hH.clear_le)]
      · rw [length_copyAt (by rw [hlen]; simpa using hH.clear_le), hlen]
  · have hzero : msg.length % H.blockLength = 0 := by omega
    have hone : H.zeros (msg.length % H.blockLength + 1) = H.shortLength - 1 := by
      rw [zeros, hzero, zero_add, if_pos (show 1 ≤ H.shortLength from hH.short_pos)]
    have hpos := hH.short_pos
    have hclear : (copyAt c.buffer 0 (List.replicate H.shortLength 0)).length =
        H.blockLength := by
      rw [length_copyAt (by simp; omega), hsize]
    simp only [if_neg hused, hone]
    refine ⟨?_, trivial, ?_⟩
    · rw [take_cleared_marked hH.short_pos (by omega), hzero, List.take_zero,
        absorbAll_short (by simp; omega), List.nil_append]
    · rw [length_copyAt (by simp; omega), hclear]

/-- `SHA256_Pad` leaves the state after the message and its padding. -/
theorem pad_state (hH : H.Counts counted) (h : H.Holds counted c msg) :
    (H.pad c).state = (absorbAll H.transform H.blockLength (H.initial, [])
      (msg ++ H.padding counted msg.length)).1 ∧ (H.pad c).buffer.length = H.blockLength := by
  obtain ⟨habsorbed, hbits, hsize⟩ := absorbed_padded hH h
  have hstore := hH.length_store (H.padded c).bitcount
  have hlt := hH.short_lt
  have hne : H.storeBits (H.padded c).bitcount ≠ [] := by
    intro hnil
    rw [hnil] at hstore
    simp at hstore
    omega
  rw [padding, ← h.bits, ← hbits, ← List.append_assoc, absorbAll_append, habsorbed,
    absorbAll_fill hne (by simp; omega), pad]
  refine ⟨?_, ?_⟩
  · rw [copyAt_eq_append (by omega)]
  · rw [length_copyAt (by omega), hsize]

/-- Any calls after `SHA256_Init`, of whatever lengths and in whatever context, and then
`SHA256_Final`: the digest of all bytes together. -/
theorem final_updates (hH : H.Counts counted) (c : Sha2Ctx σ κ) (calls : List (List UInt8)) :
    (H.final (calls.foldl H.update (H.init c)) true).1 = some (H.hash counted calls.flatten) := by
  have h := holds_updates hH (holds_init hH c) calls
  rw [List.nil_append] at h
  exact congrArg (fun s => some (H.digest s)) (pad_state hH h).1

end Sha2

/-! ### SHA-256 -/

/-- `BE_64_TO_8`. -/
def be64 (w : UInt64) : List UInt8 :=
  [(w >>> 56).toUInt8, (w >>> 48).toUInt8, (w >>> 40).toUInt8, (w >>> 32).toUInt8,
   (w >>> 24).toUInt8, (w >>> 16).toUInt8, (w >>> 8).toUInt8, w.toUInt8]

/-- The functions `SHA256_…`. -/
def sha256 : Sha2 ShaState UInt64 where
  blockLength := 64
  shortLength := 56
  clearLength := 56
  blockLength_pos := by norm_num
  initial := ShaState.init
  blank := ⟨0, 0, 0, 0, 0, 0, 0, 0⟩
  transform := shaTransform
  noBits := 0
  addBits bitcount n := bitcount + (UInt64.ofNat n <<< 3)
  lowBits bitcount := bitcount
  storeBits := be64
  digest s := shaBytes s.a ++ shaBytes s.b ++ shaBytes s.c ++ shaBytes s.d ++
    shaBytes s.e ++ shaBytes s.f ++ shaBytes s.g ++ shaBytes s.h

/-- `SHA256_CTX`. -/
abbrev Sha256Ctx := Sha2Ctx ShaState UInt64

def sha256Init (c : Sha256Ctx) : Sha256Ctx := sha256.init c
def sha256Update (c : Sha256Ctx) (data : List UInt8) : Sha256Ctx := sha256.update c data
def sha256Pad (c : Sha256Ctx) : Sha256Ctx := sha256.pad c
def sha256Final (c : Sha256Ctx) (wanted : Bool) : Option (List UInt8) × Sha256Ctx :=
  sha256.final c wanted

theorem byte_ofNat (n : ℕ) {j : ℕ} (hj : j < 8) {k : UInt64} (hk : k.toNat = 8 * j) :
    (UInt64.ofNat n >>> k).toUInt8 = UInt8.ofNat (n / 256 ^ j) := by
  have hsplit : 2 ^ 64 = 2 ^ (8 * j) * 2 ^ (64 - 8 * j) := by
    rw [← pow_add]
    congr 1
    omega
  have hdvd : 2 ^ 8 ∣ 2 ^ (64 - 8 * j) := pow_dvd_pow 2 (by omega)
  apply UInt8.toNat_inj.mp
  rw [UInt64.toNat_toUInt8, UInt64.toNat_shiftRight, hk, UInt64.toNat_ofNat', UInt8.toNat_ofNat',
    Nat.shiftRight_eq_div_pow, Nat.mod_eq_of_lt (show 8 * j < 64 by omega), hsplit,
    Nat.mod_mul_right_div_self, Nat.mod_mod_of_dvd _ hdvd, pow_mul]
  rfl

theorem be64_ofNat (n : ℕ) :
    be64 (UInt64.ofNat n) = (List.range 8).map fun i => UInt8.ofNat (n / 256 ^ (7 - i)) := by
  rw [be64, byte_ofNat n (j := 7) (by norm_num) rfl, byte_ofNat n (j := 6) (by norm_num) rfl,
    byte_ofNat n (j := 5) (by norm_num) rfl, byte_ofNat n (j := 4) (by norm_num) rfl,
    byte_ofNat n (j := 3) (by norm_num) rfl, byte_ofNat n (j := 2) (by norm_num) rfl,
    byte_ofNat n (j := 1) (by norm_num) rfl]
  simp [List.range_succ]

theorem sha256_counts : sha256.Counts bits64 where
  zero := rfl
  add n m _ := (congrArg (bits64 n + ·) (shift3_ofNat m)).trans (bits64_add n m)
  low n := bits64_low n ⟨2 ^ 55, by norm_num [sha256]⟩
  length_store _ := rfl
  short_pos := by norm_num [sha256]
  short_lt := by norm_num [sha256]
  short_le := le_rfl
  clear_le := by norm_num [sha256]

theorem sha256_hash (msg : List UInt8) : sha256.hash bits64 msg = sha256Digest msg := by
  have hpad : sha256.padding bits64 msg.length = shaPadding msg.length := by
    rw [Sha2.padding, shaPadding]
    exact congrArg _ (be64_ofNat _)
  rw [Sha2.hash, hpad]
  rfl

/-- Any calls of `SHA256_Update` after `SHA256_Init`, of whatever lengths and in whatever context:
the buffer keeps its 64 bytes, and `SHA256_Final` gives the digest of all bytes together. -/
theorem sha256_stream (c : Sha256Ctx) (calls : List (List UInt8)) :
    (calls.foldl sha256Update (sha256Init c)).buffer.length = 64 ∧
      (sha256Pad (calls.foldl sha256Update (sha256Init c))).buffer.length = 64 ∧
      (sha256Final (calls.foldl sha256Update (sha256Init c)) true).1 =
        some (sha256Digest calls.flatten) := by
  have h := Sha2.holds_updates sha256_counts (Sha2.holds_init sha256_counts c) calls
  refine ⟨h.size, (Sha2.pad_state sha256_counts h).2, ?_⟩
  rw [← sha256_hash]
  exact Sha2.final_updates sha256_counts c calls

/-! ### SHA-512 -/

/-- `ADDINC128(w, n)`. -/
def addInc128 (w : UInt64 × UInt64) (n : UInt64) : UInt64 × UInt64 :=
  let low := w.1 + n
  (low, if low < n then w.2 + 1 else w.2)

/-- The bytes of a word of the digest. -/
def sha512Digits (s : Registers UInt64) : List UInt8 :=
  be64 s.a ++ be64 s.b ++ be64 s.c ++ be64 s.d ++ be64 s.e ++ be64 s.f ++ be64 s.g ++ be64 s.h

/-- The functions `SHA512_…`. -/
def sha512 : Sha2 (Registers UInt64) (UInt64 × UInt64) where
  blockLength := 128
  shortLength := 112
  clearLength := 128 - 2
  blockLength_pos := by norm_num
  initial := sha512Initial
  blank := ⟨0, 0, 0, 0, 0, 0, 0, 0⟩
  transform := sha512Transform
  noBits := (0, 0)
  addBits bitcount n := addInc128 bitcount (UInt64.ofNat n <<< 3)
  lowBits bitcount := bitcount.1
  storeBits bitcount := be64 bitcount.2 ++ be64 bitcount.1
  digest := sha512Digits

/-- `SHA512_CTX`. -/
abbrev Sha512Ctx := Sha2Ctx (Registers UInt64) (UInt64 × UInt64)

def sha512Init (c : Sha512Ctx) : Sha512Ctx := sha512.init c
def sha512Update (c : Sha512Ctx) (data : List UInt8) : Sha512Ctx := sha512.update c data
def sha512Pad (c : Sha512Ctx) : Sha512Ctx := sha512.pad c
def sha512Final (c : Sha512Ctx) (wanted : Bool) : Option (List UInt8) × Sha512Ctx :=
  sha512.final c wanted

/-- The bits of `n` bytes in two words, the low one first. -/
def bits128 (n : ℕ) : UInt64 × UInt64 := (bits64 n, UInt64.ofNat (8 * n / 2 ^ 64))

/-- The carry of `ADDINC128`. -/
theorem bits128_add (n : ℕ) {m : ℕ} (hm : m ≤ 128) :
    addInc128 (bits128 n) (bits64 m) = bits128 (n + m) := by
  have hcarry : bits64 (n + m) < bits64 m ↔ 2 ^ 64 ≤ 8 * n % 2 ^ 64 + 8 * m := by
    rw [UInt64.lt_iff_toNat_lt, bits64, bits64, UInt64.toNat_ofNat', UInt64.toNat_ofNat']
    omega
  simp only [addInc128, bits128, bits64_add, hcarry]
  congr 1
  by_cases h : 2 ^ 64 ≤ 8 * n % 2 ^ 64 + 8 * m
  · have hdiv : 8 * (n + m) / 2 ^ 64 = 8 * n / 2 ^ 64 + 1 := by omega
    rw [if_pos h, hdiv, UInt64.ofNat_add]
    rfl
  · have hdiv : 8 * (n + m) / 2 ^ 64 = 8 * n / 2 ^ 64 := by omega
    rw [if_neg h, hdiv]

theorem sha512_counts : sha512.Counts bits128 where
  zero := rfl
  add n m hm := (congrArg (addInc128 (bits128 n)) (shift3_ofNat m)).trans (bits128_add n hm)
  low n := bits64_low n ⟨2 ^ 54, by norm_num [sha512]⟩
  length_store _ := rfl
  short_pos := by norm_num [sha512]
  short_lt := by norm_num [sha512]
  short_le := by norm_num [sha512]
  clear_le := by norm_num [sha512]

/-- The SHA-512 of a message that is there as a whole, with its length in 128 bits. -/
def sha512Digest (msg : List UInt8) : List UInt8 := sha512.hash bits128 msg

/-- The same for SHA-512, whose counter carries between two words and whose last block is cleared
but for two bytes. -/
theorem sha512_stream (c : Sha512Ctx) (calls : List (List UInt8)) :
    (calls.foldl sha512Update (sha512Init c)).buffer.length = 128 ∧
      (sha512Pad (calls.foldl sha512Update (sha512Init c))).buffer.length = 128 ∧
      (sha512Final (calls.foldl sha512Update (sha512Init c)) true).1 =
        some (sha512Digest calls.flatten) := by
  have h := Sha2.holds_updates sha512_counts (Sha2.holds_init sha512_counts c) calls
  exact ⟨h.size, (Sha2.pad_state sha512_counts h).2, Sha2.final_updates sha512_counts c calls⟩

/-- The digest of the empty message begins and ends as published. -/
example : (sha512Digest []).take 4 = [0xcf, 0x83, 0xe1, 0x35] ∧
    (sha512Digest []).drop 60 = [0xf9, 0x27, 0xda, 0x3e] := by decide +kernel

end Carroll
