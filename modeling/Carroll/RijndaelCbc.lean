import Carroll.RijndaelKeys
import Carroll.Stream

/-! # AES in CBC mode (`aes.c`)

`ssh_rijndael_cbc` walks over one memory with pointers: upwards when it encrypts, with `cprev` pointing
at the ciphertext block it has just stored, and downwards when it decrypts, so that the ciphertext
before a block is still there when the block is combined with it.  What it computes is `cbcEnc` and
`cbcDec`, in place as well, and a text may be given to it in pieces: the vector `r_iv` carries the last
ciphertext block from one call to the next.

* `fatal` comes back, so a length that is no multiple of the block size is an input like any other.
* A null pointer for the key or the vector is `none`. -/

namespace Carroll

/-! ### Chaining -/

/-- Encryption of two texts one after the other. -/
theorem cbcEnc_append (E : Block → Block) (prev : Block) (ps qs : List Block) :
    cbcEnc E prev (ps ++ qs) = cbcEnc E prev ps ++ cbcEnc E ((cbcEnc E prev ps).getLastD prev) qs := by
  induction ps generalizing prev with
  | nil => rfl
  | cons p ps ih =>
      rw [List.cons_append, cbcEnc, cbcEnc, ih, List.cons_append, List.getLastD_cons]

/-- Decryption of two texts one after the other. -/
theorem cbcDec_append (D : Block → Block) (prev : Block) (cs ds : List Block) :
    cbcDec D prev (cs ++ ds) = cbcDec D prev cs ++ cbcDec D (cs.getLastD prev) ds := by
  induction cs generalizing prev with
  | nil => rfl
  | cons c cs ih => rw [List.cons_append, cbcDec, cbcDec, ih, List.cons_append, List.getLastD_cons]

theorem unblocks_append (bs bs' : List Block) : unblocks (bs ++ bs') = unblocks bs ++ unblocks bs' :=
  List.flatMap_append

theorem unblocks_singleton (b : Block) : unblocks [b] = b.toList := List.append_nil _

theorem getLastD_append {α : Type*} (as bs : List α) (d : α) :
    (as ++ bs).getLastD d = bs.getLastD (as.getLastD d) := by
  induction as generalizing d with
  | nil => rfl
  | cons a as ih => rw [List.cons_append, List.getLastD_cons, List.getLastD_cons, ih]

namespace Mem

theorem blocks_add (m : Mem) (off a b : ℕ) :
    m.blocks off (a + b) = m.blocks off a ++ m.blocks (off + 16 * a) b := by
  induction a generalizing off with
  | zero => simp [blocks]
  | succ a ih =>
      have hadd : a + 1 + b = a + b + 1 := by ring
      have hoff : off + 16 + 16 * a = off + 16 * (a + 1) := by ring
      rw [hadd, blocks, ih, hoff, blocks, List.cons_append]

theorem blocks_poke_disjoint (m : Mem) {off off' n : ℕ} (bs : List UInt8)
    (h : off + 16 * n ≤ off' ∨ off' + bs.length ≤ off) : (m.poke off' bs).blocks off n = m.blocks off n :=
  blocks_congr (peek_poke_disjoint m bs h)

theorem block_poke_disjoint (m : Mem) {off off' : ℕ} (bs : List UInt8)
    (h : off + 16 ≤ off' ∨ off' + bs.length ≤ off) : (m.poke off' bs).block off = m.block off :=
  List.head_eq_of_cons_eq (blocks_poke_disjoint (n := 1) m bs h)

theorem block_poke_self (m : Mem) (off : ℕ) (b : Block) : (m.poke off b.toList).block off = b :=
  block_eq_of_peek (peek_poke_of_length m off b.length_toList)

/-- Two stores beside each other, the upper one first. -/
theorem poke_poke_below (m : Mem) (off : ℕ) (bs bs' : List UInt8) :
    (m.poke (off + bs.length) bs').poke off bs = m.poke off (bs ++ bs') := by
  rw [poke_append]
  funext i
  by_cases hlow : i < off
  · simp only [poke_apply_of_lt _ hlow, poke_apply_of_lt _ (show i < off + bs.length by omega)]
  · obtain ⟨k, rfl⟩ := Nat.exists_eq_add_of_le (not_lt.mp hlow)
    by_cases hk : k < bs.length
    · rw [poke_apply hk, poke_apply_of_lt _ (by omega), poke_apply hk]
    · obtain ⟨j, rfl⟩ := Nat.exists_eq_add_of_le (not_lt.mp hk)
      rw [poke_apply_of_ge (by omega), ← Nat.add_assoc]
      by_cases hj : j < bs'.length
      · rw [poke_apply hj, poke_apply hj]
      · rw [poke_apply_of_ge (by omega), poke_apply_of_ge (by omega), poke_apply_of_ge (by omega)]

end Mem

/-! ### The context -/

/-- `ssh_rijndael_ctx`. -/
structure SshRijndaelCtx where
  rCtx : RijndaelCtx
  rIv : Block
  encrypt : Bool

/-- `ssh_rijndael_init(c, key, iv, enc)`. -/
def sshRijndaelInit (c : SshRijndaelCtx) (key : Option Mem) (iv : Option Block) (enc : Bool) :
    SshRijndaelCtx where
  rCtx := match key with
    | none => c.rCtx
    | some key => rijndaelSetKey c.rCtx key 256 enc
  rIv := iv.getD c.rIv
  encrypt := enc

/-- The block behind a pointer that is `c->r_iv` (`none`) or points into the memory. -/
def SshRijndaelCtx.chained (c : SshRijndaelCtx) (m : Mem) : Option ℕ → Block
  | none => c.rIv
  | some p => m.block p

/-- The loop of the encryption: the memory and `cprev` after `n` blocks. -/
def cbcUpwards (c : SshRijndaelCtx) : ℕ → ℕ → ℕ → Option ℕ → Mem → Mem × Option ℕ
  | 0, _, _, cprev, m => (m, cprev)
  | n + 1, plain, cnow, cprev, m =>
      let buf := (m.block plain).xor (c.chained m cprev)
      cbcUpwards c n (plain + 16) (cnow + 16) (some cnow)
        (m.poke cnow (c.rCtx.encryptBlock buf).toList)

/-- `plain[j] ^= ivp[j]`, a byte at a time. -/
def xorBytes (c : SshRijndaelCtx) (plain : ℕ) (ivp : Option ℕ) (n : ℕ) (m : Mem) : Mem :=
  (List.range n).foldl
    (fun m j => m.poke (plain + j) [m (plain + j) ^^^ (c.chained m ivp).toList.getD j 0]) m

/-- The loop of the decryption, with `i` blocks left. -/
def cbcDownwards (c : SshRijndaelCtx) : ℕ → ℕ → ℕ → Mem → Mem
  | 0, _, _, m => m
  | i + 1, cnow, plain, m =>
      let m := m.poke plain (c.rCtx.decryptBlock (m.block cnow)).toList
      let ivp := if i + 1 = 1 then none else some (cnow - 16)
      cbcDownwards c i (cnow - 16) (plain - 16) (xorBytes c plain ivp 16 m)

/-- `ssh_rijndael_cbc(c, dest, src, len)`: the context and the memory afterwards. -/
def sshRijndaelCbc (c : SshRijndaelCtx) (m : Mem) (dest src len : ℕ) : SshRijndaelCtx × Mem :=
  let blocks := len / 16
  if len = 0 then (c, m)
  else if c.encrypt then
    let r := cbcUpwards c blocks src dest none m
    ({ c with rIv := c.chained r.1 r.2 }, r.1)
  else
    let buf := m.block (src + len - 16)
    ({ c with rIv := buf }, cbcDownwards c blocks (src + len - 16) (dest + len - 16) m)

/-! ### What the loops compute -/

theorem cbcUpwards_eq (c : SshRijndaelCtx) (n plain cnow : ℕ) (cprev : Option ℕ) (m : Mem)
    (h : cnow ≤ plain ∨ plain + 16 * n ≤ cnow) :
    let cs := cbcEnc c.rCtx.encryptBlock (c.chained m cprev) (m.blocks plain n)
    (cbcUpwards c n plain cnow cprev m).1 = m.poke cnow (unblocks cs) ∧
      c.chained (m.poke cnow (unblocks cs)) (cbcUpwards c n plain cnow cprev m).2 =
        cs.getLastD (c.chained m cprev) := by
  induction n generalizing plain cnow cprev m with
  | zero =>
      have hnil : m.poke cnow (unblocks []) = m := Mem.poke_nil m cnow
      simp [cbcUpwards, Mem.blocks, cbcEnc, hnil]
  | succ n ih =>
      intro cs
      let e := c.rCtx.encryptBlock ((m.block plain).xor (c.chained m cprev))
      have hkeep : (m.poke cnow e.toList).blocks (plain + 16) n = m.blocks (plain + 16) n := by
        apply Mem.blocks_poke_disjoint
        rw [Vector.length_toList]
        omega
      have hprev : c.chained (m.poke cnow e.toList) (some cnow) = e := Mem.block_poke_self m cnow e
      obtain ⟨hmem, hlast⟩ := ih (plain + 16) (cnow + 16) (some cnow) (m.poke cnow e.toList)
        (by omega)
      have hcs : cs = e :: cbcEnc c.rCtx.encryptBlock e (m.blocks (plain + 16) n) := rfl
      have hpoke (bs : List Block) :
          (m.poke cnow e.toList).poke (cnow + 16) (unblocks bs) = m.poke cnow (unblocks (e :: bs)) := by
        have := Mem.poke_append m cnow e.toList (unblocks bs)
        rw [Vector.length_toList] at this
        exact this.symm
      rw [hkeep, hprev, hpoke, ← hcs] at hmem hlast
      refine ⟨hmem, hlast.trans ?_⟩
      rw [hcs, List.getLastD_cons]

/-- A byte loop that combines a block with one that it does not store into. -/
theorem xorBytes_eq (c : SshRijndaelCtx) (m : Mem) {plain : ℕ} {ivp : Option ℕ} {n : ℕ} (hn : n ≤ 16)
    (h : ∀ p ∈ ivp, p + 16 ≤ plain ∨ plain + n ≤ p) :
    xorBytes c plain ivp n m =
      m.poke plain ((List.range n).map fun j => m (plain + j) ^^^ (c.chained m ivp).toList.getD j 0) := by
  induction n with
  | zero => exact (Mem.poke_nil m plain).symm
  | succ n ih =>
      have hrest := ih (by omega) fun p hp => by have := h p hp; omega
      unfold xorBytes at hrest ⊢
      rw [List.range_succ, List.foldl_append, hrest, List.foldl_cons, List.foldl_nil, List.map_append,
        Mem.poke_append]
      generalize hbs : (List.range n).map
        (fun j => m (plain + j) ^^^ (c.chained m ivp).toList.getD j 0) = bs
      have hlen : bs.length = n := by rw [← hbs, List.length_map, List.length_range]
      have hbyte : m.poke plain bs (plain + n) = m (plain + n) := Mem.poke_apply_of_ge (by omega)
      have hchained : c.chained (m.poke plain bs) ivp = c.chained m ivp := by
        cases ivp with
        | none => rfl
        | some p =>
            have := h p rfl
            exact Mem.block_poke_disjoint m bs (by omega)
      rw [hbyte, hchained, hlen]
      rfl

theorem toList_xor (a b : Block) :
    (a.xor b).toList = (List.range 16).map fun j => a.toList.getD j 0 ^^^ b.toList.getD j 0 := by
  apply List.ext_getElem
  · simp
  · intro i h₁ h₂
    have hi : i < 16 := by simpa using h₁
    simp [Block.xor, hi]

/-- The block that the decryption leaves: `plain` after the two stores. -/
theorem xorBytes_block (c : SshRijndaelCtx) (m : Mem) (b : Block) {plain : ℕ} {ivp : Option ℕ}
    (h : ∀ p ∈ ivp, p + 16 ≤ plain ∨ plain + 16 ≤ p) :
    xorBytes c plain ivp 16 (m.poke plain b.toList) =
      m.poke plain (b.xor (c.chained m ivp)).toList := by
  have hchained : c.chained (m.poke plain b.toList) ivp = c.chained m ivp := by
    cases ivp with
    | none => rfl
    | some p =>
        have := h p rfl
        exact Mem.block_poke_disjoint m _ (by rw [Vector.length_toList]; omega)
  rw [xorBytes_eq c _ le_rfl h, hchained, toList_xor]
  have hbytes : ((List.range 16).map fun j => m.poke plain b.toList (plain + j) ^^^
      (c.chained m ivp).toList.getD j 0) =
      (List.range 16).map fun j => b.toList.getD j 0 ^^^ (c.chained m ivp).toList.getD j 0 := by
    apply List.map_congr_left
    intro j hj
    have hlt : j < b.toList.length := by simpa using List.mem_range.mp hj
    have hget : b.toList.getD j 0 = b.toList[j] := by
      rw [List.getD_eq_getElem?_getD, List.getElem?_eq_getElem hlt, Option.getD_some]
    rw [Mem.poke_apply hlt, hget]
  rw [hbytes]
  exact Mem.poke_poke m plain (by simp)

theorem cbcDownwards_eq (c : SshRijndaelCtx) (i src dest : ℕ) (m : Mem)
    (h : src ≤ dest ∨ dest + 16 * i ≤ src) :
    cbcDownwards c i (src + 16 * i - 16) (dest + 16 * i - 16) m =
      m.poke dest (unblocks (cbcDec c.rCtx.decryptBlock c.rIv (m.blocks src i))) := by
  induction i generalizing m with
  | zero => exact (Mem.poke_nil m dest).symm
  | succ i ih =>
      have hsrc : src + 16 * (i + 1) - 16 = src + 16 * i := by omega
      have hdest : dest + 16 * (i + 1) - 16 = dest + 16 * i := by omega
      rw [hsrc, hdest, cbcDownwards]
      generalize hivp : (if i + 1 = 1 then none else some (src + 16 * i - 16) : Option ℕ) = ivp
      have hapart : ∀ p ∈ ivp, p + 16 ≤ dest + 16 * i ∨ dest + 16 * i + 16 ≤ p := by
        intro p hp
        split_ifs at hivp with hi
        · simp [← hivp] at hp
        · obtain rfl : src + 16 * i - 16 = p := by simpa [← hivp] using hp
          omega
      -- the block before is the last of those still to come, or the vector
      have hchained : c.chained m ivp = (m.blocks src i).getLastD c.rIv := by
        rcases Nat.eq_zero_or_eq_succ_pred i with hi | hi
        · subst hi
          rw [← hivp]
          rfl
        · rw [hi] at hivp ⊢
          rw [if_neg (by omega)] at hivp
          rw [← hivp, Nat.succ_eq_add_one, Mem.blocks_add, getLastD_append]
          change m.block _ = m.block _
          congr 1
      have hstep := xorBytes_block c m (c.rCtx.decryptBlock (m.block (src + 16 * i))) hapart
      rw [hstep, hchained, ← unblocks_singleton, ih _ (by omega),
        Mem.blocks_poke_disjoint _ _ (by simp; omega), Mem.blocks_add, cbcDec_append, unblocks_append]
      have hbelow := Mem.poke_poke_below m dest
        (unblocks (cbcDec c.rCtx.decryptBlock c.rIv (m.blocks src i)))
        ((c.rCtx.decryptBlock (m.block (src + 16 * i))).xor ((m.blocks src i).getLastD c.rIv)).toList
      rw [length_unblocks, length_cbcDec, Mem.length_blocks, ← unblocks_singleton] at hbelow
      exact hbelow

/-! ### Calls -/

/-- The ciphertext or the plaintext of the blocks at `src`. -/
def SshRijndaelCtx.output (c : SshRijndaelCtx) (m : Mem) (src n : ℕ) : List Block :=
  if c.encrypt then cbcEnc c.rCtx.encryptBlock c.rIv (m.blocks src n)
  else cbcDec c.rCtx.decryptBlock c.rIv (m.blocks src n)

/-- The vector for the next call: the last ciphertext block. -/
def SshRijndaelCtx.nextIv (c : SshRijndaelCtx) (m : Mem) (src n : ℕ) : Block :=
  (if c.encrypt then c.output m src n else m.blocks src n).getLastD c.rIv

/-- The two buffers may overlap as long as no block is overwritten before it has been read. -/
def SshRijndaelCtx.CanOverlap (c : SshRijndaelCtx) (dest src len : ℕ) : Prop :=
  if c.encrypt then dest ≤ src ∨ src + len ≤ dest else src ≤ dest ∨ dest + len ≤ src

@[simp] theorem length_output (c : SshRijndaelCtx) (m : Mem) (src n : ℕ) :
    (c.output m src n).length = n := by
  unfold SshRijndaelCtx.output
  split_ifs <;> simp

/-- One call on whole blocks. -/
theorem sshRijndaelCbc_eq (c : SshRijndaelCtx) (m : Mem) (dest src n : ℕ)
    (h : c.CanOverlap dest src (16 * n)) :
    sshRijndaelCbc c m dest src (16 * n) =
      ({ c with rIv := c.nextIv m src n }, m.poke dest (unblocks (c.output m src n))) := by
  have hdiv : 16 * n / 16 = n := by omega
  rw [sshRijndaelCbc, hdiv]
  by_cases hn : n = 0
  · subst hn
    have hout : c.output m src 0 = [] := List.length_eq_zero_iff.mp (length_output c m src 0)
    have hiv : c.nextIv m src 0 = c.rIv := by
      rw [SshRijndaelCtx.nextIv, hout]
      split_ifs <;> rfl
    rw [if_pos (by omega), hiv, hout]
    exact Prod.ext rfl (Mem.poke_nil m dest).symm
  · rw [if_neg (by omega)]
    unfold SshRijndaelCtx.CanOverlap at h
    by_cases henc : c.encrypt = true
    · rw [if_pos henc] at h
      obtain ⟨hmem, hlast⟩ := cbcUpwards_eq c n src dest none m h
      have hout : c.output m src n = cbcEnc c.rCtx.encryptBlock c.rIv (m.blocks src n) := if_pos henc
      have hiv : c.nextIv m src n = (c.output m src n).getLastD c.rIv := by
        rw [SshRijndaelCtx.nextIv, if_pos henc]
      rw [if_pos henc]
      dsimp only
      rw [hmem, hiv, hout]
      exact Prod.ext (by rw [hlast]; rfl) rfl
    · rw [if_neg henc] at h
      have hmem := cbcDownwards_eq c n src dest m h
      have hout : c.output m src n = cbcDec c.rCtx.decryptBlock c.rIv (m.blocks src n) := if_neg henc
      have hiv : c.nextIv m src n = m.block (src + 16 * n - 16) := by
        obtain ⟨k, rfl⟩ := Nat.exists_eq_succ_of_ne_zero hn
        rw [SshRijndaelCtx.nextIv, if_neg henc, Nat.succ_eq_add_one, Mem.blocks_add, getLastD_append]
        rfl
      rw [if_neg henc]
      dsimp only
      rw [hmem, hiv, hout]

theorem output_congr (c : SshRijndaelCtx) {m m' : Mem} {src n : ℕ}
    (h : m'.blocks src n = m.blocks src n) :
    c.output m' src n = c.output m src n ∧ c.nextIv m' src n = c.nextIv m src n := by
  unfold SshRijndaelCtx.nextIv SshRijndaelCtx.output
  rw [h]
  exact ⟨rfl, rfl⟩

/-- Two runs of blocks one after the other. -/
theorem output_add (c : SshRijndaelCtx) (m : Mem) (src n k : ℕ) :
    c.output m src (n + k) = c.output m src n ++
        { c with rIv := c.nextIv m src n }.output m (src + 16 * n) k ∧
      c.nextIv m src (n + k) = { c with rIv := c.nextIv m src n }.nextIv m (src + 16 * n) k := by
  unfold SshRijndaelCtx.nextIv SshRijndaelCtx.output
  split_ifs with henc
  · rw [Mem.blocks_add, cbcEnc_append, getLastD_append]
    exact ⟨rfl, rfl⟩
  · rw [Mem.blocks_add, cbcDec_append, getLastD_append]
    exact ⟨rfl, rfl⟩

/-- Calls for consecutive pieces, whose sizes are given in blocks. -/
def cbcCalls (c : SshRijndaelCtx) (m : Mem) (dest src : ℕ) : List ℕ → SshRijndaelCtx × Mem
  | [] => (c, m)
  | n :: ns =>
      let r := sshRijndaelCbc c m dest src (16 * n)
      cbcCalls r.1 r.2 (dest + 16 * n) (src + 16 * n) ns

/-- No piece is overwritten before it has been read. -/
def SshRijndaelCtx.CanChain (c : SshRijndaelCtx) (dest src len : ℕ) : Prop :=
  if c.encrypt then dest ≤ src ∨ src + len ≤ dest
  else dest = src ∨ dest + len ≤ src ∨ src + len ≤ dest

/-- However a text is cut into pieces, the calls leave the same context and the same memory as one
call for the whole text. -/
theorem cbcCalls_eq (c : SshRijndaelCtx) (m : Mem) (dest src : ℕ) (ns : List ℕ)
    (h : c.CanChain dest src (16 * ns.sum)) :
    cbcCalls c m dest src ns = sshRijndaelCbc c m dest src (16 * ns.sum) := by
  induction ns generalizing c m dest src with
  | nil => simp [cbcCalls, sshRijndaelCbc]
  | cons n ns ih =>
      rw [List.sum_cons] at h ⊢
      have hone : c.CanOverlap dest src (16 * n) := by
        unfold SshRijndaelCtx.CanChain at h
        unfold SshRijndaelCtx.CanOverlap
        split_ifs at h ⊢ <;> omega
      have hall : c.CanOverlap dest src (16 * (n + ns.sum)) := by
        unfold SshRijndaelCtx.CanChain at h
        unfold SshRijndaelCtx.CanOverlap
        split_ifs at h ⊢ <;> omega
      let c' : SshRijndaelCtx := { c with rIv := c.nextIv m src n }
      let m' := m.poke dest (unblocks (c.output m src n))
      have hnext : c'.CanChain (dest + 16 * n) (src + 16 * n) (16 * ns.sum) := by
        unfold SshRijndaelCtx.CanChain at h ⊢
        change if c.encrypt then _ else _
        split_ifs at h ⊢ <;> omega
      have hrest : c'.CanOverlap (dest + 16 * n) (src + 16 * n) (16 * ns.sum) := by
        unfold SshRijndaelCtx.CanChain at h
        change if c.encrypt then _ else _
        split_ifs at h ⊢ <;> omega
      -- the first piece leaves the blocks behind it as they are
      have hkeep : m'.blocks (src + 16 * n) ns.sum = m.blocks (src + 16 * n) ns.sum := by
        apply Mem.blocks_poke_disjoint
        rw [length_unblocks, length_output]
        unfold SshRijndaelCtx.CanChain at h
        split_ifs at h <;> omega
      obtain ⟨hout, hiv⟩ := output_congr c' hkeep
      obtain ⟨houtadd, hivadd⟩ := output_add c m src n ns.sum
      have hpoke := Mem.poke_append m dest (unblocks (c.output m src n))
        (unblocks (c'.output m (src + 16 * n) ns.sum))
      rw [length_unblocks, length_output] at hpoke
      rw [cbcCalls, sshRijndaelCbc_eq c m _ _ _ hone, sshRijndaelCbc_eq c m _ _ _ hall]
      dsimp only
      rw [ih c' m' _ _ hnext, sshRijndaelCbc_eq c' m' _ _ _ hrest, hout, hiv, houtadd, hivadd,
        unblocks_append, hpoke]

/-- A decryption in place, of one block and then of two. -/
theorem cbcCalls_inPlace :
    cbcCalls ⟨.zero, Mem.zero.block 0, false⟩ Mem.zero 0 0 [1, 2] =
      sshRijndaelCbc ⟨.zero, Mem.zero.block 0, false⟩ Mem.zero 0 0 48 :=
  cbcCalls_eq ⟨.zero, Mem.zero.block 0, false⟩ Mem.zero 0 0 [1, 2] (.inl rfl)

/-! ### Round trip -/

/-- A text that was encrypted comes back from a decryption under the same key and vector, through any
buffers that the calls admit, the same one each time among them; both contexts are then ready for
the text behind it. -/
theorem sshRijndael_roundtrip (c c' : SshRijndaelCtx) (key : Mem) (iv : Block) (m : Mem)
    (src mid out n : ℕ) (henc : mid ≤ src ∨ src + 16 * n ≤ mid)
    (hdec : mid ≤ out ∨ out + 16 * n ≤ mid) :
    let enc := sshRijndaelCbc (sshRijndaelInit c (some key) (some iv) true) m mid src (16 * n)
    let dec := sshRijndaelCbc (sshRijndaelInit c' (some key) (some iv) false) enc.2 out mid (16 * n)
    dec.2.peek out (16 * n) = m.peek src (16 * n) ∧ dec.1.rIv = enc.1.rIv := by
  intro enc dec
  let e := sshRijndaelInit c (some key) (some iv) true
  let d := sshRijndaelInit c' (some key) (some iv) false
  have hblock (b : Block) : d.rCtx.decryptBlock (e.rCtx.encryptBlock b) = b :=
    decryptBlock_encryptBlock c.rCtx c'.rCtx key (.inr (.inr rfl)) b
  have henc' : enc = _ := sshRijndaelCbc_eq e m mid src n henc
  have hdec' : dec = _ := sshRijndaelCbc_eq d enc.2 out mid n hdec
  have hmid : enc.2.blocks mid n = cbcEnc e.rCtx.encryptBlock iv (m.blocks src n) := by
    rw [henc']
    have := Mem.blocks_poke_unblocks m mid (e.output m src n)
    rwa [length_output] at this
  have hout : d.output enc.2 mid n = m.blocks src n := by
    change cbcDec d.rCtx.decryptBlock iv (enc.2.blocks mid n) = _
    rw [hmid, cbcDec_cbcEnc hblock]
  have hdeciv : dec.1.rIv = d.nextIv enc.2 mid n := congrArg (fun r => r.1.rIv) hdec'
  have henciv : enc.1.rIv = e.nextIv m src n := congrArg (fun r => r.1.rIv) henc'
  constructor
  · rw [hdec', hout, Mem.unblocks_blocks]
    exact Mem.peek_poke_of_length _ _ (Mem.length_peek _ _ _)
  · rw [hdeciv, henciv]
    change (enc.2.blocks mid n).getLastD iv = (e.output m src n).getLastD iv
    rw [hmid]
    rfl

/-- Two blocks in place, with contexts that were never used. -/
theorem sshRijndael_roundtrip_inPlace :
    let c : SshRijndaelCtx := ⟨.zero, Mem.zero.block 0, false⟩
    let iv := Mem.zero.block 0
    let enc := sshRijndaelCbc (sshRijndaelInit c (some Mem.zero) (some iv) true) Mem.zero 0 0 32
    let dec := sshRijndaelCbc (sshRijndaelInit c (some Mem.zero) (some iv) false) enc.2 0 0 32
    dec.2.peek 0 32 = Mem.zero.peek 0 32 ∧ dec.1.rIv = enc.1.rIv :=
  sshRijndael_roundtrip ⟨.zero, Mem.zero.block 0, false⟩ ⟨.zero, Mem.zero.block 0, false⟩ Mem.zero
    (Mem.zero.block 0) Mem.zero 0 0 0 2 (.inl le_rfl) (.inl le_rfl)

/-! ### The primitives of the container -/

/-- The bytes behind a pointer to a key. -/
def keyMem (key : List UInt8) : Mem := fun i => key.getD i 0

/-- The primitives with the SHA-256 of `sha2.c` and the AES of `rijndael.c`. -/
def aesPrims (md5 : List UInt8 → List UInt8) (deflate : List UInt8 → List UInt8)
    (inflate : ℕ → List UInt8 → Inflated) : Prims where
  sha256 := sha256Digest
  md5 := md5
  rijndaelEncrypt key b := (rijndaelSetKey .zero (keyMem key) 256 true).encryptBlock b
  rijndaelDecrypt key b := (rijndaelSetKey .zero (keyMem key) 256 false).decryptBlock b
  deflate := deflate
  inflate := inflate

/-- What a context held before its key was set makes no difference. -/
theorem setKey_congr (ctx ctx' : RijndaelCtx) (key : Mem) {bits : ℕ} (h : KnownBits bits) (b : Block) :
    (rijndaelSetKey ctx key bits true).encryptBlock b =
        (rijndaelSetKey ctx' key bits true).encryptBlock b ∧
      (rijndaelSetKey ctx key bits false).decryptBlock b =
        (rijndaelSetKey ctx' key bits false).decryptBlock b := by
  -- both directions by way of the other context's inverse
  have hdec (b : Block) : (rijndaelSetKey ctx key bits false).decryptBlock b =
      (rijndaelSetKey ctx' key bits false).decryptBlock b := by
    have hback := encryptBlock_decryptBlock ctx ctx' key h b
    have hthere := decryptBlock_encryptBlock ctx ctx key h
      ((rijndaelSetKey ctx' key bits false).decryptBlock b)
    rwa [hback] at hthere
  refine ⟨?_, hdec b⟩
  have hthere := encryptBlock_decryptBlock ctx' ctx' key h
    ((rijndaelSetKey ctx key bits true).encryptBlock b)
  rw [← hdec, decryptBlock_encryptBlock ctx ctx key h b] at hthere
  exact hthere.symm

/-- With these primitives the container relies on zlib alone. -/
theorem aesPrims_lawful {md5 deflate : List UInt8 → List UInt8} {inflate : ℕ → List UInt8 → Inflated}
    (hmd5 : ∀ x, (md5 x).length = 16) (hzlib : ∀ x, inflate x.length (deflate x) = ⟨true, x⟩) :
    (aesPrims md5 deflate inflate).Lawful where
  length_sha256 _ := rfl
  length_md5 := hmd5
  decrypt_encrypt key b := decryptBlock_encryptBlock .zero .zero (keyMem key) (.inr (.inr rfl)) b
  inflate_deflate := hzlib

theorem poke_shift (m : Mem) (off : ℕ) (bs : List UInt8) (k i : ℕ) :
    m.poke (off + k) bs (off + i) = Mem.poke (fun j => m (off + j)) k bs i := by
  unfold Mem.poke
  simp only [Nat.add_le_add_iff_left, Nat.add_sub_add_left]

theorem blocks_shift (m : Mem) (off k n : ℕ) :
    m.blocks (off + k) n = Mem.blocks (fun j => m (off + j)) k n := by
  apply Mem.blocks_congr
  rw [Mem.peek_eq_iff]
  intro i _
  rw [Nat.add_assoc]

theorem sshRijndaelCbc_mem (c : SshRijndaelCtx) (m : Mem) (dest src len : ℕ) :
    (sshRijndaelCbc c m dest src len).2 =
      if c.encrypt then (cbcUpwards c (len / 16) src dest none m).1
      else cbcDownwards c (len / 16) (src + len - 16) (dest + len - 16) m := by
  unfold sshRijndaelCbc
  by_cases hlen : len = 0
  · subst hlen
    split_ifs <;> rfl
  · split_ifs <;> rfl

/-- The calls that `libc0_encrypt` and `libc0_decrypt` make, with a fresh context and buffers apart from
each other, compute the chaining of the container over these primitives; a length that is no multiple
of the block size is covered. -/
theorem rijndaelCbc_refines (md5 deflate : List UInt8 → List UInt8) (inflate : ℕ → List UInt8 → Inflated)
    (c : SshRijndaelCtx) (key iv : List UInt8) (m : Mem) (dest src len : ℕ)
    (h : dest + len ≤ src ∨ src + len ≤ dest) (i : ℕ) :
    let P := aesPrims md5 deflate inflate
    let view (off : ℕ) : Mem := fun j => m (off + j)
    let init := sshRijndaelInit c (some (keyMem key)) (some (toBlock iv))
    (sshRijndaelCbc (init true) m dest src len).2 (dest + i) =
        rijndaelCbcEncrypt P key iv (view dest) (view src) len i ∧
      (sshRijndaelCbc (init false) m dest src len).2 (dest + i) =
        rijndaelCbcDecrypt P key iv (view dest) (view src) len i := by
  intro P view init
  have henc (b : Block) : (init true).rCtx.encryptBlock b = P.rijndaelEncrypt key b :=
    (setKey_congr c.rCtx .zero (keyMem key) (.inr (.inr rfl)) b).1
  have hdec (b : Block) : (init false).rCtx.decryptBlock b = P.rijndaelDecrypt key b :=
    (setKey_congr c.rCtx .zero (keyMem key) (.inr (.inr rfl)) b).2
  have hlen : 16 * (len / 16) + len % 16 = len := Nat.div_add_mod len 16
  rw [sshRijndaelCbc_mem, sshRijndaelCbc_mem]
  constructor
  · have hmem := (cbcUpwards_eq (init true) (len / 16) src dest none m (by omega)).1
    have hview := blocks_shift m src 0 (len / 16)
    refine (congrFun hmem (dest + i)).trans ((poke_shift m dest _ 0 i).trans ?_)
    rw [rijndaelCbcEncrypt, ← funext henc, ← hview]
    rfl
  · have hmem := cbcDownwards_eq (init false) (len / 16) (src + len % 16) (dest + len % 16) m
      (by omega)
    have hview := blocks_shift m src (len % 16) (len / 16)
    rw [show src + len % 16 + 16 * (len / 16) - 16 = src + len - 16 by omega,
      show dest + len % 16 + 16 * (len / 16) - 16 = dest + len - 16 by omega] at hmem
    refine (congrFun hmem (dest + i)).trans ((poke_shift m dest _ (len % 16) i).trans ?_)
    rw [rijndaelCbcDecrypt, ← funext hdec, ← hview]
    rfl

/-- The first byte of 40 that are decrypted from 48 on. -/
theorem rijndaelCbc_refines_sample :
    (sshRijndaelCbc (sshRijndaelInit ⟨.zero, Mem.zero.block 0, false⟩ (some (keyMem [])) (some (toBlock []))
        false) Mem.zero 0 48 40).2 8 =
      rijndaelCbcDecrypt (aesPrims md5Digest sampleDeflate sampleInflate) [] [] (fun j => Mem.zero (0 + j))
        (fun j => Mem.zero (48 + j)) 40 8 :=
  (rijndaelCbc_refines md5Digest sampleDeflate sampleInflate ⟨.zero, Mem.zero.block 0, false⟩ [] []
    Mem.zero 0 48 40 (.inl (by norm_num)) 8).2

end Carroll
