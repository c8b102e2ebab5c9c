import Carroll.Mem

/-! # Cipher block chaining

`cbcEnc` and `cbcDec` chain a block cipher over a list of 16-byte blocks, starting from an
initialisation vector; `cbcDec_cbcEnc` is their round trip for a cipher that decrypts what it
encrypted.  `Mem.blocks` reads a list of blocks from memory and `unblocks` is the run of bytes
that they make up. -/

namespace Carroll

/-- A block of 16 bytes. -/
abbrev Block := Vector UInt8 16

/-- Bytewise exclusive or. -/
def Block.xor (a b : Block) : Block := Vector.zipWith (· ^^^ ·) a b

theorem Block.xor_xor_cancel (a b : Block) : (a.xor b).xor b = a := by
  apply Vector.ext
  intro i hi
  simp only [Block.xor, Vector.getElem_zipWith]
  rw [UInt8.xor_assoc, UInt8.xor_self, UInt8.xor_zero]

/-- Encrypt the blocks, each combined with the previous ciphertext block. -/
def cbcEnc (E : Block → Block) (prev : Block) : List Block → List Block
  | [] => []
  | p :: ps => E (p.xor prev) :: cbcEnc E (E (p.xor prev)) ps

/-- Decrypt the blocks, each combined with the previous ciphertext block. -/
def cbcDec (D : Block → Block) (prev : Block) : List Block → List Block
  | [] => []
  | c :: cs => (D c).xor prev :: cbcDec D c cs

@[simp] theorem length_cbcEnc (E : Block → Block) (prev : Block) (ps : List Block) :
    (cbcEnc E prev ps).length = ps.length := by
  induction ps generalizing prev with
  | nil => rfl
  | cons p ps ih => simp [cbcEnc, ih]

@[simp] theorem length_cbcDec (D : Block → Block) (prev : Block) (cs : List Block) :
    (cbcDec D prev cs).length = cs.length := by
  induction cs generalizing prev with
  | nil => rfl
  | cons c cs ih => simp [cbcDec, ih]

/-- Decryption undoes encryption. -/
theorem cbcDec_cbcEnc {E D : Block → Block} (h : ∀ b, D (E b) = b) (prev : Block)
    (ps : List Block) : cbcDec D prev (cbcEnc E prev ps) = ps := by
  induction ps generalizing prev with
  | nil => rfl
  | cons p ps ih => rw [cbcEnc, cbcDec, h, Block.xor_xor_cancel, ih]

/-! ### Blocks in memory -/

/-- The bytes of a list of blocks. -/
def unblocks (bs : List Block) : List UInt8 := bs.flatMap Vector.toList

@[simp] theorem length_unblocks (bs : List Block) : (unblocks bs).length = 16 * bs.length := by
  induction bs with
  | nil => rfl
  | cons b bs ih =>
      have hcons : unblocks (b :: bs) = b.toList ++ unblocks bs := rfl
      rw [hcons, List.length_append, ih]
      simp
      ring

namespace Mem

/-- The block at offset `off`. -/
def block (m : Mem) (off : ℕ) : Block := Vector.ofFn fun j => m (off + j)

/-- The `n` blocks from offset `off` on. -/
def blocks (m : Mem) (off : ℕ) : ℕ → List Block
  | 0 => []
  | n + 1 => m.block off :: blocks m (off + 16) n

@[simp] theorem length_blocks (m : Mem) (off n : ℕ) : (m.blocks off n).length = n := by
  induction n generalizing off with
  | zero => rfl
  | succ n ih => simp [blocks, ih]

theorem toList_block (m : Mem) (off : ℕ) : (m.block off).toList = m.peek off 16 := by
  apply List.ext_getElem
  · simp
  · intro i h₁ h₂
    simp [block, peek]

theorem block_eq_of_peek {m : Mem} {off : ℕ} {b : Block} (h : m.peek off 16 = b.toList) :
    m.block off = b := by
  apply Vector.toList_inj.mp
  rw [toList_block, h]

theorem unblocks_blocks (m : Mem) (off n : ℕ) : unblocks (m.blocks off n) = m.peek off (16 * n) := by
  induction n generalizing off with
  | zero => rfl
  | succ n ih =>
      have hcons : unblocks (m.blocks off (n + 1)) =
        (m.block off).toList ++ unblocks (m.blocks (off + 16) n) := rfl
      have hlen : 16 * (n + 1) = 16 + 16 * n := by ring
      rw [hcons, toList_block, ih, hlen, peek_add]

/-- Blocks are determined by the bytes. -/
theorem blocks_congr {m m' : Mem} {off off' n : ℕ}
    (h : m.peek off (16 * n) = m'.peek off' (16 * n)) : m.blocks off n = m'.blocks off' n := by
  induction n generalizing off off' with
  | zero => rfl
  | succ n ih =>
      have h' := peek_eq_iff.mp h
      have hhead : m.block off = m'.block off' := by
        apply Vector.ext
        intro i hi
        simpa [block] using h' i (by omega)
      rw [blocks, blocks, hhead, ih]
      rw [peek_eq_iff]
      intro i hi
      have := h' (16 + i) (by omega)
      rwa [← Nat.add_assoc, ← Nat.add_assoc] at this

theorem blocks_of_peek {m : Mem} {off : ℕ} {bs : List Block}
    (h : m.peek off (16 * bs.length) = unblocks bs) : m.blocks off bs.length = bs := by
  induction bs generalizing off with
  | nil => rfl
  | cons b bs ih =>
      have hlen : 16 * (b :: bs).length = 16 + 16 * bs.length := by
        rw [List.length_cons]; ring
      have hcons : unblocks (b :: bs) = b.toList ++ unblocks bs := rfl
      rw [hlen, peek_add, hcons] at h
      obtain ⟨hb, hbs⟩ := List.append_inj h (by simp)
      rw [List.length_cons, blocks, block_eq_of_peek hb, ih hbs]

/-- Reading back the blocks that were stored. -/
theorem blocks_poke_unblocks (m : Mem) (off : ℕ) (bs : List Block) :
    (m.poke off (unblocks bs)).blocks off bs.length = bs := by
  apply blocks_of_peek
  exact peek_poke_of_length m off (length_unblocks bs)

end Mem

end Carroll
