import Carroll.Rijndael

/-! # What the tables of `rijndael.c` compute

The state in the words `s0 … s3` is read as a matrix of bytes.  In it the lookups of a round of
`rijndaelEncrypt` are the maps of `rijndaelMaps` for the box in `Te4`, and those of `rijndaelDecrypt`
the inverse maps; `rijndaelKeySetupDec` makes the inner keys of the inverse cipher.  Decryption
therefore undoes encryption for every key that the set-up knows. -/

namespace Carroll

/-! ### Bytes of the state -/

/-- The words of the state by their column. -/
def Quad.word (s : Quad) : Fin 4 → UInt32
  | 0 => s.s0
  | 1 => s.s1
  | 2 => s.s2
  | 3 => s.s3

/-- The state as a matrix. -/
def Quad.matrix (s : Quad) : ByteMatrix := fun c => byteOf (s.word c)

/-- A block as a matrix, column by column. -/
def blockMatrix (b : Block) : ByteMatrix := fun c r => b.get ⟨4 * c + r, by omega⟩

/-- The round key `r` of a schedule. -/
def roundKey (rk : Schedule) (r : ℕ) : ByteMatrix := fun c => byteOf (rk (4 * r + c))

/-- The keys of the inner rounds. -/
def innerKeys (rk : Schedule) (nr : ℕ) : List ByteMatrix :=
  (List.range' 1 (nr - 1)).map (roundKey rk)

theorem blockMatrix_injective : Function.Injective blockMatrix := by
  intro a b h
  apply Vector.ext
  intro i hi
  have hc : i / 4 < 4 := by omega
  have hr : i % 4 < 4 := by omega
  have hbyte := congrFun (congrFun h ⟨i / 4, hc⟩) ⟨i % 4, hr⟩
  have hi' : 4 * (i / 4) + i % 4 = i := by omega
  simpa [blockMatrix, Vector.get, hi'] using hbyte

theorem blockMatrix_storeBlock (s : Quad) : blockMatrix (storeBlock s) = s.matrix := by
  funext c r
  fin_cases c <;> fin_cases r <;> rfl

theorem matrix_loadBlock (rk : Schedule) (pt : Block) :
    (loadBlock rk pt).matrix = addRoundKey (blockMatrix pt) (roundKey rk 0) := by
  funext c r
  have hword (a b d e : UInt8) (k : UInt32) :
      byteOf (getU32 a b d e ^^^ k) r = ![a, b, d, e] r ^^^ byteOf k r := by
    rw [byteOf_xor, byteOf_getU32]
  fin_cases c
  · exact (hword _ _ _ _ _).trans (by fin_cases r <;> rfl)
  · exact (hword _ _ _ _ _).trans (by fin_cases r <;> rfl)
  · exact (hword _ _ _ _ _).trans (by fin_cases r <;> rfl)
  · exact (hword _ _ _ _ _).trans (by fin_cases r <;> rfl)

/-! ### Rounds -/

theorem byteOf_teWord (a b c d k : UInt32) (r : Fin 4) :
    byteOf (teWord a b c d k) r =
      circulant mixCoef (fun i => sbox (![byteOf a 0, byteOf b 1, byteOf c 2, byteOf d 3] i)) r ^^^
        byteOf k r := by
  rw [teWord, (index_eq a).1, (index_eq b).2.1, (index_eq c).2.2.1, (index_eq d).2.2.2]
  exact byteOf_te ![byteOf a 0, byteOf b 1, byteOf c 2, byteOf d 3] k r

theorem byteOf_tdWord (a b c d k : UInt32) (r : Fin 4) :
    byteOf (tdWord a b c d k) r =
      circulant unmixCoef
        (fun i => sboxInv (![byteOf a 0, byteOf b 1, byteOf c 2, byteOf d 3] i)) r ^^^ byteOf k r := by
  rw [tdWord, (index_eq a).1, (index_eq b).2.1, (index_eq c).2.2.1, (index_eq d).2.2.2]
  exact byteOf_td ![byteOf a 0, byteOf b 1, byteOf c 2, byteOf d 3] k r

theorem byteOf_masks : byteOf 0xff000000 = ![0xff, 0, 0, 0] ∧ byteOf 0x00ff0000 = ![0, 0xff, 0, 0] ∧
    byteOf 0x0000ff00 = ![0, 0, 0xff, 0] ∧ byteOf 0x000000ff = ![0, 0, 0, 0xff] := by
  refine ⟨?_, ?_, ?_, ?_⟩ <;> funext r <;> fin_cases r <;> rfl

theorem and_ff (b : UInt8) : b &&& 0xff = b := by
  apply UInt8.toNat_inj.mp
  have := b.toNat_lt
  simpa using Nat.and_two_pow_sub_one_of_lt_two_pow (n := 8) this

/-- The masks take one byte from every lookup. -/
theorem byteOf_masked (x y z w : UInt32) (r : Fin 4) :
    byteOf ((x &&& 0xff000000) ^^^ (y &&& 0x00ff0000) ^^^ (z &&& 0x0000ff00) ^^^ (w &&& 0x000000ff)) r =
      ![byteOf x 0, byteOf y 1, byteOf z 2, byteOf w 3] r := by
  obtain ⟨h0, h1, h2, h3⟩ := byteOf_masks
  rw [byteOf_xor, byteOf_xor, byteOf_xor, byteOf_and, byteOf_and, byteOf_and, byteOf_and, h0, h1, h2, h3]
  fin_cases r <;> simp [and_ff]

theorem byteOf_lastWord {t : List UInt32} (h : t.length = 256)
    (hbytes : ∀ w ∈ t, byteOf w = fun _ => w.toUInt8) (a b c d k : UInt32) (r : Fin 4) :
    byteOf (lastWord t a b c d k) r =
      (look t (![byteOf a 0, byteOf b 1, byteOf c 2, byteOf d 3] r).toUInt32).toUInt8 ^^^ byteOf k r := by
  rw [lastWord, (index_eq a).1, (index_eq b).2.1, (index_eq c).2.2.1, (index_eq d).2.2.2, byteOf_xor,
    byteOf_masked]
  simp only [byteOf_look h hbytes]
  fin_cases r <;> rfl

/-- The maps of a round with the box of the tables. -/
def cipherMaps : RoundMaps ByteMatrix := rijndaelMaps sboxPerm

theorem matrix_teRound (rk : Schedule) (r : ℕ) (s : Quad) :
    (teRound rk (4 * r) s).matrix = cipherMaps.round s.matrix (roundKey rk r) := by
  funext c i
  have hround : cipherMaps.round s.matrix (roundKey rk r) c i =
      circulant mixCoef (fun j => sbox (s.matrix (c + j) j)) i ^^^ roundKey rk r c i := rfl
  rw [hround]
  fin_cases c
  · refine (byteOf_teWord s.s0 s.s1 s.s2 s.s3 _ i).trans ?_
    congr 2
    funext j
    fin_cases j <;> rfl
  · refine (byteOf_teWord s.s1 s.s2 s.s3 s.s0 _ i).trans ?_
    congr 2
    funext j
    fin_cases j <;> rfl
  · refine (byteOf_teWord s.s2 s.s3 s.s0 s.s1 _ i).trans ?_
    congr 2
    funext j
    fin_cases j <;> rfl
  · refine (byteOf_teWord s.s3 s.s0 s.s1 s.s2 _ i).trans ?_
    congr 2
    funext j
    fin_cases j <;> rfl

theorem matrix_tdRound (rk : Schedule) (r : ℕ) (s : Quad) :
    (tdRound rk (4 * r) s).matrix = cipherMaps.inverse.round s.matrix (roundKey rk r) := by
  funext c i
  have hround : cipherMaps.inverse.round s.matrix (roundKey rk r) c i =
      circulant unmixCoef (fun j => sboxInv (s.matrix (c - j) j)) i ^^^ roundKey rk r c i := rfl
  rw [hround]
  fin_cases c
  · refine (byteOf_tdWord s.s0 s.s3 s.s2 s.s1 _ i).trans ?_
    congr 2
    funext j
    fin_cases j <;> rfl
  · refine (byteOf_tdWord s.s1 s.s0 s.s3 s.s2 _ i).trans ?_
    congr 2
    funext j
    fin_cases j <;> rfl
  · refine (byteOf_tdWord s.s2 s.s1 s.s0 s.s3 _ i).trans ?_
    congr 2
    funext j
    fin_cases j <;> rfl
  · refine (byteOf_tdWord s.s3 s.s2 s.s1 s.s0 _ i).trans ?_
    congr 2
    funext j
    fin_cases j <;> rfl

theorem matrix_teLast (rk : Schedule) (r : ℕ) (s : Quad) :
    (teLast rk (4 * r) s).matrix = addRoundKey (cipherMaps.sub s.matrix) (roundKey rk r) := by
  funext c i
  fin_cases c
  · exact (byteOf_lastWord length_te4 te4_bytes _ _ _ _ _ i).trans (by fin_cases i <;> rfl)
  · exact (byteOf_lastWord length_te4 te4_bytes _ _ _ _ _ i).trans (by fin_cases i <;> rfl)
  · exact (byteOf_lastWord length_te4 te4_bytes _ _ _ _ _ i).trans (by fin_cases i <;> rfl)
  · exact (byteOf_lastWord length_te4 te4_bytes _ _ _ _ _ i).trans (by fin_cases i <;> rfl)

theorem matrix_tdLast (rk : Schedule) (r : ℕ) (s : Quad) :
    (tdLast rk (4 * r) s).matrix = addRoundKey (cipherMaps.sub.symm s.matrix) (roundKey rk r) := by
  funext c i
  fin_cases c
  · exact (byteOf_lastWord length_td4 td4_bytes _ _ _ _ _ i).trans (by fin_cases i <;> rfl)
  · exact (byteOf_lastWord length_td4 td4_bytes _ _ _ _ _ i).trans (by fin_cases i <;> rfl)
  · exact (byteOf_lastWord length_td4 td4_bytes _ _ _ _ _ i).trans (by fin_cases i <;> rfl)
  · exact (byteOf_lastWord length_td4 td4_bytes _ _ _ _ _ i).trans (by fin_cases i <;> rfl)

/-! ### Blocks -/

section

variable {R : RoundMaps ByteMatrix} {round last : Schedule → ℕ → Quad → Quad} {rk : Schedule}

theorem matrix_unrolled
    (h : ∀ r s, (round rk (4 * r) s).matrix = R.round s.matrix (roundKey rk r)) (r n : ℕ) (s : Quad) :
    (unrolled round rk r n s).matrix = R.rounds ((List.range' r n).map (roundKey rk)) s.matrix := by
  induction n generalizing r s with
  | zero => rfl
  | succ n ih =>
      have hstep : unrolled round rk r (n + 1) s = unrolled round rk (r + 1) n (round rk (4 * r) s) := rfl
      rw [hstep, ih, h, List.range'_succ, List.map_cons, RoundMaps.rounds_cons]

/-- The unrolled rounds are the inner rounds of the cipher, and the last one does not mix. -/
theorem matrix_rijndaelRounds
    (h : ∀ r s, (round rk (4 * r) s).matrix = R.round s.matrix (roundKey rk r))
    (hlast : ∀ r s, (last rk (4 * r) s).matrix = R.addKey (R.sub s.matrix) (roundKey rk r))
    {nr : ℕ} (hnr : nr = 10 ∨ nr = 12 ∨ nr = 14) (s : Quad) :
    (rijndaelRounds round last rk nr s).matrix =
      R.addKey (R.sub (R.rounds (innerKeys rk nr) s.matrix)) (roundKey rk nr) := by
  unfold innerKeys
  rcases hnr with rfl | rfl | rfl
  · change (last rk (4 * 10) (unrolled round rk 1 9 s)).matrix = _
    rw [hlast, matrix_unrolled h]
  · change (last rk (4 * 12) (unrolled round rk 10 2 (unrolled round rk 1 9 s))).matrix = _
    rw [hlast, matrix_unrolled h, matrix_unrolled h, ← RoundMaps.rounds_append, ← List.map_append]
    rfl
  · change (last rk (4 * 14)
      (unrolled round rk 12 2 (unrolled round rk 10 2 (unrolled round rk 1 9 s)))).matrix = _
    rw [hlast, matrix_unrolled h, matrix_unrolled h, matrix_unrolled h, ← RoundMaps.rounds_append,
      ← List.map_append, ← RoundMaps.rounds_append, ← List.map_append]
    rfl

end

/-- `rijndaelEncrypt` is the cipher. -/
theorem blockMatrix_encrypt (rk : Schedule) {nr : ℕ} (hnr : nr = 10 ∨ nr = 12 ∨ nr = 14) (pt : Block) :
    blockMatrix (rijndaelEncrypt rk nr pt) =
      cipherMaps.encrypt (roundKey rk 0) (innerKeys rk nr) (roundKey rk nr) (blockMatrix pt) := by
  rw [rijndaelEncrypt, blockMatrix_storeBlock,
    matrix_rijndaelRounds (R := cipherMaps) (matrix_teRound rk) (matrix_teLast rk) hnr, matrix_loadBlock]
  rfl

/-- `rijndaelDecrypt` is the inverse cipher under the keys it is given. -/
theorem blockMatrix_decrypt (rk : Schedule) {nr : ℕ} (hnr : nr = 10 ∨ nr = 12 ∨ nr = 14) (ct : Block) :
    blockMatrix (rijndaelDecrypt rk nr ct) =
      cipherMaps.inverse.encrypt (roundKey rk 0) (innerKeys rk nr) (roundKey rk nr) (blockMatrix ct) := by
  rw [rijndaelDecrypt, blockMatrix_storeBlock,
    matrix_rijndaelRounds (R := cipherMaps.inverse) (matrix_tdRound rk) (matrix_tdLast rk) hnr,
    matrix_loadBlock]
  rfl

end Carroll
