import Carroll.RijndaelCipher

/-! # The key schedules of `rijndael.c`

The three loops of `rijndaelKeySetupEnc` compute the words of one recurrence (`Expands`), which is the
key expansion of the standard (`expansionByte`), and store nothing behind the last of them.
`rijndaelKeySetupDec` turns the schedule into the keys of the inverse cipher. -/

namespace Carroll

/-! ### The recurrence -/

/-- Word `j` from the words before, for a key of `nk` words. -/
def nextWord (nk : ℕ) (cipherKey : Mem) (rk : Schedule) (j : ℕ) : UInt32 :=
  if j < nk then keyU32 cipherKey (4 * j)
  else rk (j - nk) ^^^
    (if j % nk = 0 then rotatedWord (rk (j - 1)) (j / nk - 1)
    else if 6 < nk ∧ j % nk = 4 then substitutedWord (rk (j - 1))
    else rk (j - 1))

/-- The first `m` words follow the recurrence. -/
def Expands (nk : ℕ) (cipherKey : Mem) (rk : Schedule) (m : ℕ) : Prop :=
  ∀ j < m, rk j = nextWord nk cipherKey rk j

section

variable {nk : ℕ} {cipherKey : Mem} {rk rk' : Schedule} {m : ℕ}

theorem nextWord_congr (hnk : 0 < nk) (h : ∀ j < m, rk j = rk' j) :
    nextWord nk cipherKey rk m = nextWord nk cipherKey rk' m := by
  unfold nextWord
  by_cases hm : m < nk
  · rw [if_pos hm, if_pos hm]
  · rw [if_neg hm, if_neg hm, h (m - nk) (by omega), h (m - 1) (by omega)]

/-- One more word. -/
theorem Expands.update (hnk : 0 < nk) (h : Expands nk cipherKey rk m) {v : UInt32}
    (hv : v = nextWord nk cipherKey rk m) :
    Expands nk cipherKey (Function.update rk m v) (m + 1) := by
  have hlow (j : ℕ) (hj : j < m) : Function.update rk m v j = rk j :=
    Function.update_of_ne (by omega) v rk
  intro j hj
  have hcongr : nextWord nk cipherKey (Function.update rk m v) j = nextWord nk cipherKey rk j :=
    nextWord_congr hnk fun i hi => hlow i (by omega)
  rw [hcongr]
  rcases Nat.lt_succ_iff_lt_or_eq.mp hj with hlt | rfl
  · rw [hlow j hlt, h j hlt]
  · rw [Function.update_self, hv]

/-- The words between the starts of the rounds. -/
theorem Expands.chain (hnk : 0 < nk) {p n : ℕ} (h : Expands nk cipherKey rk (p + nk))
    (hn : ∀ k < n, (p + nk + k) % nk ≠ 0 ∧ ¬(6 < nk ∧ (p + nk + k) % nk = 4)) :
    Expands nk cipherKey (rk.chain (p + nk) p n) (p + nk + n) := by
  induction n generalizing p rk with
  | zero => exact h
  | succ n ih =>
      obtain ⟨h0, h4⟩ := hn 0 (by omega)
      rw [Nat.add_zero] at h0 h4
      have hnext : rk p ^^^ rk (p + nk - 1) = nextWord nk cipherKey rk (p + nk) := by
        rw [nextWord, if_neg (by omega), if_neg h0, if_neg h4, Nat.add_sub_cancel]
      have hput := h.update hnk hnext
      have hshift : p + nk + 1 = p + 1 + nk := by ring
      rw [hshift] at hput
      have := ih hput fun k hk => by
        have := hn (k + 1) (by omega)
        rwa [show p + nk + (k + 1) = p + 1 + nk + k by ring] at this
      rw [Schedule.chain, hshift, show p + nk + (n + 1) = p + 1 + nk + n by ring]
      exact this

/-- Schedules that follow the recurrence agree. -/
theorem Expands.unique (hnk : 0 < nk) (h : Expands nk cipherKey rk m)
    (h' : Expands nk cipherKey rk' m) : ∀ j < m, rk j = rk' j := by
  intro j
  induction j using Nat.strong_induction_on with
  | _ j ih =>
      intro hj
      rw [h j hj, h' j hj]
      apply nextWord_congr hnk
      intro i hi
      exact ih i hi (by omega)

end

theorem chain_of_ge (rk : Schedule) (q p n : ℕ) {x : ℕ} (h : q + n ≤ x) : rk.chain q p n x = rk x := by
  induction n generalizing rk q p with
  | zero => rfl
  | succ n ih =>
      rw [Schedule.chain, ih _ _ _ (by omega), Schedule.put]
      exact Function.update_of_ne (by omega) _ rk

/-! ### The loops -/

/-- The first four words of a round. -/
theorem Expands.head {nk i : ℕ} {cipherKey : Mem} {rk : Schedule} (hnk : 4 ≤ nk)
    (h : Expands nk cipherKey rk (nk * i + nk)) :
    Expands nk cipherKey ((rk.put (nk * i + nk) (nk * i) (rotatedWord (rk (nk * i + nk - 1)) i)).chain
      (nk * i + 1 + nk) (nk * i + 1) 3) (nk * i + nk + 4) := by
  have hdiv : (nk * i + nk) / nk - 1 = i := by
    rw [Nat.add_div_right _ (by omega), Nat.mul_div_cancel_left _ (by omega), Nat.succ_sub_one]
  have hnext : rk (nk * i) ^^^ rotatedWord (rk (nk * i + nk - 1)) i =
      nextWord nk cipherKey rk (nk * i + nk) := by
    rw [nextWord, if_neg (by omega), if_pos (by simp), hdiv, Nat.add_sub_cancel]
  have hput := h.update (by omega) hnext
  rw [show nk * i + nk + 1 = nk * i + 1 + nk by ring] at hput
  rw [show nk * i + nk + 4 = nk * i + 1 + nk + 3 by ring]
  apply hput.chain (by omega)
  intro k hk
  have hmod : (nk * i + 1 + nk + k) % nk = 1 + k := by
    rw [show nk * i + 1 + nk + k = (1 + k) + nk * (i + 1) by ring, Nat.add_mul_mod_self_left,
      Nat.mod_eq_of_lt (by omega)]
  omega

theorem expands_expand128 {cipherKey : Mem} {n i : ℕ} {rk : Schedule} (hn : i + (n + 1) = 10)
    (h : Expands 4 cipherKey rk (4 * i + 4)) :
    Expands 4 cipherKey (expand128 (n + 1) (4 * i) i rk) 44 := by
  induction n generalizing i rk with
  | zero =>
      obtain rfl : i = 9 := by omega
      exact h.head le_rfl
  | succ n ih =>
      have hhead := h.head le_rfl
      rw [expand128, if_neg (by omega)]
      exact ih (by omega) hhead

theorem expands_expand192 {cipherKey : Mem} {n i : ℕ} {rk : Schedule} (hn : i + (n + 1) = 8)
    (h : Expands 6 cipherKey rk (6 * i + 6)) :
    Expands 6 cipherKey (expand192 (n + 1) (6 * i) i rk) 52 := by
  induction n generalizing i rk with
  | zero =>
      obtain rfl : i = 7 := by omega
      exact h.head (by norm_num)
  | succ n ih =>
      have hhead := h.head (by norm_num)
      rw [expand192, if_neg (by omega)]
      refine ih (i := i + 1) (by omega) ?_
      -- the two words that the last round leaves out
      exact Expands.chain (p := 6 * i + 4) (n := 2) (by norm_num) hhead fun k hk => by omega

theorem expands_expand256 {cipherKey : Mem} {n i : ℕ} {rk : Schedule} (hn : i + (n + 1) = 7)
    (h : Expands 8 cipherKey rk (8 * i + 8)) :
    Expands 8 cipherKey (expand256 (n + 1) (8 * i) i rk) 60 := by
  induction n generalizing i rk with
  | zero =>
      obtain rfl : i = 6 := by omega
      exact h.head (by norm_num)
  | succ n ih =>
      have hhead := h.head (by norm_num)
      rw [expand256, if_neg (by omega)]
      refine ih (i := i + 1) (by omega) ?_
      have hmiddle := hhead.update (by norm_num) (v := _) (by
        rw [nextWord, if_neg (by omega), if_neg (by omega), if_pos (by omega)])
      exact Expands.chain (p := 8 * i + 5) (n := 3) (by norm_num) hmiddle fun k hk => by omega

theorem expands_loadKey {nk : ℕ} {cipherKey : Mem} {rk : Schedule} {i n : ℕ} (hnk : 0 < nk)
    (h : Expands nk cipherKey rk i) (hn : i + n ≤ nk) :
    Expands nk cipherKey (loadKey cipherKey rk i n) (i + n) := by
  induction n generalizing rk i with
  | zero => exact h
  | succ n ih =>
      have hload := h.update hnk (v := keyU32 cipherKey (4 * i)) (by rw [nextWord, if_pos (by omega)])
      have := ih hload (by omega)
      rwa [Nat.add_right_comm] at this

theorem loadKey_of_ge (cipherKey : Mem) (rk : Schedule) (i n : ℕ) {x : ℕ} (h : i + n ≤ x) :
    loadKey cipherKey rk i n x = rk x := by
  induction n generalizing rk i with
  | zero => rfl
  | succ n ih =>
      rw [loadKey, ih _ _ (by omega)]
      exact Function.update_of_ne (by omega) _ rk

theorem put_chain_of_ge (rk : Schedule) (q p : ℕ) (v : UInt32) (q' p' n : ℕ) {x : ℕ} (hq : q < x)
    (h : q' + n ≤ x) : (rk.put q p v).chain q' p' n x = rk x := by
  rw [chain_of_ge _ _ _ _ h]
  exact Function.update_of_ne (by omega) _ rk

theorem expand128_of_ge {n i p : ℕ} (rk : Schedule) {x : ℕ} (hn : i + n ≤ 10)
    (hx : p + 4 * (10 - i) + 4 ≤ x) : expand128 n p i rk x = rk x := by
  induction n generalizing i p rk with
  | zero => rfl
  | succ n ih =>
      have hhead := put_chain_of_ge rk (p + 4) p (rotatedWord (rk (p + 3)) i) (p + 5) (p + 1) 3
        (x := x) (by omega) (by omega)
      rw [expand128]
      split_ifs
      · exact hhead
      · rw [ih _ (by omega) (by omega), hhead]

theorem expand192_of_ge {n i p : ℕ} (rk : Schedule) {x : ℕ} (hn : i + n ≤ 8)
    (hx : p + 6 * (8 - i) + 4 ≤ x) : expand192 n p i rk x = rk x := by
  induction n generalizing i p rk with
  | zero => rfl
  | succ n ih =>
      have hhead := put_chain_of_ge rk (p + 6) p (rotatedWord (rk (p + 5)) i) (p + 7) (p + 1) 3
        (x := x) (by omega) (by omega)
      rw [expand192]
      split_ifs
      · exact hhead
      · rw [ih _ (by omega) (by omega), chain_of_ge _ _ _ _ (by omega), hhead]

theorem expand256_of_ge {n i p : ℕ} (rk : Schedule) {x : ℕ} (hn : i + n ≤ 7)
    (hx : p + 8 * (7 - i) + 4 ≤ x) : expand256 n p i rk x = rk x := by
  induction n generalizing i p rk with
  | zero => rfl
  | succ n ih =>
      have hhead := put_chain_of_ge rk (p + 8) p (rotatedWord (rk (p + 7)) i) (p + 9) (p + 1) 3
        (x := x) (by omega) (by omega)
      rw [expand256]
      split_ifs
      · exact hhead
      · rw [ih _ (by omega) (by omega), put_chain_of_ge _ _ _ _ _ _ _ (by omega) (by omega), hhead]

/-- The key sizes that the set-up knows. -/
def KnownBits (bits : ℕ) : Prop := bits = 128 ∨ bits = 192 ∨ bits = 256

theorem keySetupEnc_eq (rk : Schedule) (cipherKey : Mem) :
    let rk4 := loadKey cipherKey rk 0 4
    let rk6 := loadKey cipherKey rk4 4 2
    rijndaelKeySetupEnc rk cipherKey 128 = (expand128 10 0 0 rk4, 10) ∧
      rijndaelKeySetupEnc rk cipherKey 192 = (expand192 8 0 0 rk6, 12) ∧
      rijndaelKeySetupEnc rk cipherKey 256 = (expand256 7 0 0 (loadKey cipherKey rk6 6 2), 14) :=
  ⟨rfl, rfl, rfl⟩

/-- What `rijndaelKeySetupEnc` leaves: the recurrence in the words of the schedule, and no store
behind them. -/
theorem keySetupEnc_spec (rk : Schedule) (cipherKey : Mem) {bits : ℕ} (h : KnownBits bits) :
    (rijndaelKeySetupEnc rk cipherKey bits).2 = bits / 32 + 6 ∧
      Expands (bits / 32) cipherKey (rijndaelKeySetupEnc rk cipherKey bits).1 (4 * (bits / 32 + 7)) ∧
      ∀ x, 4 * (bits / 32 + 7) ≤ x → (rijndaelKeySetupEnc rk cipherKey bits).1 x = rk x := by
  have hfour (nk : ℕ) (hnk : 4 ≤ nk) : Expands nk cipherKey (loadKey cipherKey rk 0 4) 4 :=
    expands_loadKey (i := 0) (by omega) (fun j hj => absurd hj (by omega)) hnk
  have hsix (nk : ℕ) (hnk : 6 ≤ nk) :
      Expands nk cipherKey (loadKey cipherKey (loadKey cipherKey rk 0 4) 4 2) 6 :=
    expands_loadKey (i := 4) (by omega) (hfour nk (by omega)) hnk
  obtain ⟨h128, h192, h256⟩ := keySetupEnc_eq rk cipherKey
  have hnk : 128 / 32 = 4 ∧ 192 / 32 = 6 ∧ 256 / 32 = 8 := by decide
  rcases h with rfl | rfl | rfl
  · have hkeep (x : ℕ) (hx : 44 ≤ x) := expand128_of_ge (n := 10) (i := 0) (p := 0) (x := x)
      (loadKey cipherKey rk 0 4) le_rfl hx
    rw [h128, hnk.1]
    dsimp only
    refine ⟨rfl, expands_expand128 (n := 9) (i := 0) rfl (hfour 4 le_rfl), fun x hx => ?_⟩
    rw [← loadKey_of_ge cipherKey rk 0 4 (by omega)]
    exact hkeep x hx
  · have hkeep (x : ℕ) (hx : 52 ≤ x) := expand192_of_ge (n := 8) (i := 0) (p := 0) (x := x)
      (loadKey cipherKey (loadKey cipherKey rk 0 4) 4 2) le_rfl hx
    rw [h192, hnk.2.1]
    dsimp only
    refine ⟨rfl, expands_expand192 (n := 7) (i := 0) rfl (hsix 6 le_rfl), fun x hx => ?_⟩
    rw [← loadKey_of_ge cipherKey rk 0 4 (by omega),
      ← loadKey_of_ge cipherKey (loadKey cipherKey rk 0 4) 4 2 (by omega)]
    exact hkeep x hx
  · have hkeep (x : ℕ) (hx : 60 ≤ x) := expand256_of_ge (n := 7) (i := 0) (p := 0) (x := x)
      (loadKey cipherKey (loadKey cipherKey (loadKey cipherKey rk 0 4) 4 2) 6 2) le_rfl hx
    have height : Expands 8 cipherKey
        (loadKey cipherKey (loadKey cipherKey (loadKey cipherKey rk 0 4) 4 2) 6 2) 8 :=
      expands_loadKey (i := 6) (by norm_num) (hsix 8 (by norm_num)) le_rfl
    rw [h256, hnk.2.2]
    dsimp only
    refine ⟨rfl, expands_expand256 (n := 6) (i := 0) rfl height, fun x hx => ?_⟩
    rw [← loadKey_of_ge cipherKey rk 0 4 (by omega),
      ← loadKey_of_ge cipherKey (loadKey cipherKey rk 0 4) 4 2 (by omega),
      ← loadKey_of_ge cipherKey (loadKey cipherKey (loadKey cipherKey rk 0 4) 4 2) 6 2 (by omega)]
    exact hkeep x hx

/-! ### The bytes of the expansion -/

theorem byteOf_rcon : ∀ i < 10, byteOf (rcon.getD i 0) = ![xtime^[i] 1, 0, 0, 0] := by decide

theorem byteOf_substitutedWord (w : UInt32) (r : Fin 4) :
    byteOf (substitutedWord w) r = sbox (byteOf w r) := by
  have h := byteOf_lastWord length_te4 te4_bytes w w w w 0 r
  have hzero : byteOf 0 r = 0 := by fin_cases r <;> rfl
  rw [lastWord, byteOf_xor, hzero, UInt8.xor_zero, UInt8.xor_zero] at h
  refine h.trans ?_
  fin_cases r <;> rfl

theorem byteOf_rotatedWord (w : UInt32) {i : ℕ} (hi : i < 10) (r : Fin 4) :
    byteOf (rotatedWord w i) r =
      sbox (byteOf w (r + 1)) ^^^ (if r = 0 then xtime^[i] 1 else 0) := by
  rw [rotatedWord, (index_eq w).1, (index_eq w).2.1, (index_eq w).2.2.1, (index_eq w).2.2.2, byteOf_xor,
    byteOf_masked, byteOf_rcon i hi]
  simp only [byteOf_look length_te4 te4_bytes]
  fin_cases r <;> rfl

theorem Expands.byteOf {nk m : ℕ} {cipherKey : Mem} {W : Schedule} (hW : Expands nk cipherKey W m)
    (hm : m ≤ 11 * nk) {j : ℕ} (hj : j < m) (r : Fin 4) :
    byteOf (W j) r = expansionByte sbox nk cipherKey (fun j => byteOf (W j)) j r := by
  rw [hW j hj, nextWord, expansionByte]
  by_cases hlow : j < nk
  · rw [if_pos hlow, if_pos hlow, keyU32, byteOf_getU32]
    fin_cases r <;> rfl
  · have hten : j / nk < 11 := Nat.div_lt_of_lt_mul (by rw [Nat.mul_comm]; omega)
    rw [if_neg hlow, if_neg hlow, byteOf_xor]
    split_ifs
    · rw [byteOf_rotatedWord _ (by omega), if_pos ‹_›]
    · rw [byteOf_rotatedWord _ (by omega), if_neg ‹_›]
    · rw [byteOf_substitutedWord]
    · rfl

/-- The key set-up of `rijndael.c` computes the key expansion of the standard, in as many words as the
rounds need, and stores nothing behind them. -/
theorem keySetupEnc_expansion (rk : Schedule) (cipherKey : Mem) {bits : ℕ} (h : KnownBits bits) :
    let W := (rijndaelKeySetupEnc rk cipherKey bits).1
    let nr := (rijndaelKeySetupEnc rk cipherKey bits).2
    nr = bits / 32 + 6 ∧ 4 * (nr + 1) ≤ 4 * (maxNr + 1) ∧
      (∀ j < 4 * (nr + 1), ∀ r,
        byteOf (W j) r = expansionByte sbox (bits / 32) cipherKey (fun j => byteOf (W j)) j r) ∧
      ∀ x, 4 * (nr + 1) ≤ x → W x = rk x := by
  obtain ⟨hnr, hW, hkeep⟩ := keySetupEnc_spec rk cipherKey h
  have hbits : bits / 32 = 4 ∨ bits / 32 = 6 ∨ bits / 32 = 8 := by
    rcases h with rfl | rfl | rfl <;> decide
  dsimp only
  rw [hnr]
  refine ⟨rfl, by rw [maxNr]; omega, fun j hj r => ?_, hkeep⟩
  exact hW.byteOf (by omega) hj r

/-- The expansion of a key of zeros of 192 bits. -/
theorem keySetupEnc_expansion_zero :
    let W := (rijndaelKeySetupEnc (fun _ => 0) Mem.zero 192).1
    ∀ j < 52, ∀ r, byteOf (W j) r = expansionByte sbox 6 Mem.zero (fun j => byteOf (W j)) j r :=
  (keySetupEnc_expansion (fun _ => 0) Mem.zero (show KnownBits 192 from .inr (.inl rfl))).2.2.1

/-! ### The keys of the decryption -/

theorem swap_range (i j n : ℕ) (hij : i + n ≤ j) (rk : Schedule) (x : ℕ) :
    (List.range n).foldl (fun rk k =>
        Function.update (Function.update rk (i + k) (rk (j + k))) (j + k) (rk (i + k))) rk x =
      if i ≤ x ∧ x < i + n then rk (j + (x - i))
      else if j ≤ x ∧ x < j + n then rk (i + (x - j))
      else rk x := by
  induction n generalizing x with
  | zero =>
      rw [if_neg (by omega), if_neg (by omega)]
      rfl
  | succ n ih =>
      have ih := ih (by omega)
      rw [List.range_succ, List.foldl_append, List.foldl_cons, List.foldl_nil,
        Function.update_apply, Function.update_apply, ih, ih, ih]
      by_cases hj : x = j + n
      · subst hj
        rw [if_pos rfl, if_neg (by omega), if_neg (by omega), if_neg (by omega), if_pos (by omega)]
        congr 1
        omega
      · by_cases hi : x = i + n
        · subst hi
          rw [if_neg hj, if_pos rfl, if_neg (by omega), if_neg (by omega), if_pos (by omega)]
          congr 1
          omega
        · rw [if_neg hj, if_neg hi]
          have hleft : (i ≤ x ∧ x < i + n) ↔ (i ≤ x ∧ x < i + (n + 1)) := by omega
          have hright : (j ≤ x ∧ x < j + n) ↔ (j ≤ x ∧ x < j + (n + 1)) := by omega
          simp only [hleft, hright]

theorem unmix_range (p n : ℕ) (rk : Schedule) (x : ℕ) :
    (List.range n).foldl (fun rk k => Function.update rk (p + k) (unmixWord (rk (p + k)))) rk x =
      if p ≤ x ∧ x < p + n then unmixWord (rk x) else rk x := by
  induction n generalizing x with
  | zero =>
      rw [if_neg (by omega)]
      rfl
  | succ n ih =>
      rw [List.range_succ, List.foldl_append, List.foldl_cons, List.foldl_nil, Function.update_apply,
        ih, ih]
      by_cases hx : x = p + n
      · subst hx
        rw [if_pos rfl, if_neg (by omega), if_pos (by omega)]
      · have hrange : (p ≤ x ∧ x < p + n) ↔ (p ≤ x ∧ x < p + (n + 1)) := by omega
        simp only [if_neg hx, hrange]

/-- Round key `r` after the exchanges between `a` and `b`. -/
theorem invertOrder_apply {n a b : ℕ} (hn : b ≤ a + 2 * n) (rk : Schedule) (r : ℕ) {c : ℕ} (hc : c < 4) :
    invertOrder n (4 * a) (4 * b) rk (4 * r + c) =
      if a ≤ r ∧ r ≤ b then rk (4 * (a + b - r) + c) else rk (4 * r + c) := by
  induction n generalizing a b rk with
  | zero =>
      rw [invertOrder]
      split_ifs
      · congr 2
        omega
      · rfl
  | succ n ih =>
      rw [invertOrder]
      by_cases hab : a < b
      · have hswap (x : ℕ) : rk.swap4 (4 * a) (4 * b) x = _ := swap_range (4 * a) (4 * b) 4 (by omega) rk x
        rw [if_pos (by omega), show 4 * a + 4 = 4 * (a + 1) by ring, show 4 * b - 4 = 4 * (b - 1) by omega,
          ih (by omega), hswap, hswap]
        by_cases hra : r = a
        · subst hra
          rw [if_neg (by omega), if_pos (by omega), if_pos (by omega)]
          congr 1
          omega
        · by_cases hrb : r = b
          · subst hrb
            rw [if_neg (by omega), if_neg (by omega), if_pos (by omega), if_pos (by omega)]
            congr 1
            omega
          · by_cases hin : a ≤ r ∧ r ≤ b
            · rw [if_pos (by omega), if_neg (by omega), if_neg (by omega), if_pos hin]
              congr 1
              omega
            · rw [if_neg (by omega), if_neg (by omega), if_neg (by omega), if_neg hin]
      · rw [if_neg (by omega)]
        split_ifs
        · congr 2
          omega
        · rfl

theorem unmixKeys_apply (n : ℕ) (rk : Schedule) (r : ℕ) {c : ℕ} (hc : c < 4) :
    (List.range n).foldl (fun rk i => rk.unmix4 (4 * (i + 1))) rk (4 * r + c) =
      if 1 ≤ r ∧ r ≤ n then unmixWord (rk (4 * r + c)) else rk (4 * r + c) := by
  induction n with
  | zero =>
      rw [if_neg (by omega)]
      rfl
  | succ n ih =>
      have hunmix (rk : Schedule) (x : ℕ) : rk.unmix4 (4 * (n + 1)) x = _ :=
        unmix_range (4 * (n + 1)) 4 rk x
      rw [List.range_succ, List.foldl_append, List.foldl_cons, List.foldl_nil, hunmix, ih]
      by_cases hr : r = n + 1
      · subst hr
        rw [if_pos (by omega), if_neg (by omega), if_pos (by omega)]
      · have hrange : (1 ≤ r ∧ r ≤ n) ↔ (1 ≤ r ∧ r ≤ n + 1) := by omega
        simp only [if_neg (show ¬(4 * (n + 1) ≤ 4 * r + c ∧ 4 * r + c < 4 * (n + 1) + 4) by omega),
          hrange]

/-- The words that the decryption is given. -/
theorem keySetupDec_apply (rk : Schedule) (cipherKey : Mem) (bits : ℕ) {nr : ℕ} (hnr : nr ≠ 0) {r : ℕ}
    (hr : r ≤ nr) {c : ℕ} (hc : c < 4) :
    (rijndaelKeySetupDec rk cipherKey bits nr).1 (4 * r + c) =
      if 1 ≤ r ∧ r ≤ nr - 1 then unmixWord (rk (4 * (nr - r) + c)) else rk (4 * (nr - r) + c) := by
  have hinvert := invertOrder_apply (n := nr) (a := 0) (b := nr) (by omega) rk r hc
  rw [if_pos (by omega), Nat.zero_add] at hinvert
  have hunmix := unmixKeys_apply (nr - 1) (invertOrder nr 0 (4 * nr) rk) r hc
  rw [hinvert] at hunmix
  rw [rijndaelKeySetupDec, if_pos hnr]
  exact hunmix

theorem byteOf_unmixWord (w : UInt32) (r : Fin 4) :
    byteOf (unmixWord w) r = circulant unmixCoef (byteOf w) r := by
  have hindex (x : UInt32) : look te4 x &&& 0xff = (look te4 x).toUInt8.toUInt32 := (index_eq _).2.2.2
  have h := byteOf_td (fun i => sbox (byteOf w i)) 0 r
  have hzero : byteOf 0 r = 0 := by fin_cases r <;> rfl
  simp only [sboxInv_sbox] at h
  rw [hzero, UInt8.xor_zero, UInt32.xor_zero] at h
  rw [unmixWord, hindex, hindex, hindex, hindex, (index_eq w).1, (index_eq w).2.1, (index_eq w).2.2.1,
    (index_eq w).2.2.2]
  exact h

/-- The outer keys change places. -/
theorem roundKey_dec_outer (rk : Schedule) (cipherKey : Mem) (bits : ℕ) {nr : ℕ} (hnr : nr ≠ 0) :
    roundKey (rijndaelKeySetupDec rk cipherKey bits nr).1 0 = roundKey rk nr ∧
      roundKey (rijndaelKeySetupDec rk cipherKey bits nr).1 nr = roundKey rk 0 := by
  constructor
  · funext c
    rw [roundKey, keySetupDec_apply rk cipherKey bits hnr (by omega) c.isLt, if_neg (by omega)]
    rfl
  · funext c
    rw [roundKey, keySetupDec_apply rk cipherKey bits hnr le_rfl c.isLt, if_neg (by omega), Nat.sub_self]
    rfl

/-- The inner keys are those of the inverse cipher. -/
theorem innerKeys_dec (rk : Schedule) (cipherKey : Mem) (bits : ℕ) {nr : ℕ} (hnr : nr ≠ 0) :
    innerKeys (rijndaelKeySetupDec rk cipherKey bits nr).1 nr =
      cipherMaps.inverseKeys (innerKeys rk nr) := by
  have hkey (r : ℕ) (hr : 1 ≤ r ∧ r ≤ nr - 1) :
      roundKey (rijndaelKeySetupDec rk cipherKey bits nr).1 r =
        cipherMaps.mix.symm (roundKey rk (nr - r)) := by
    funext c i
    rw [roundKey, keySetupDec_apply rk cipherKey bits hnr (by omega) c.isLt, if_pos hr,
      byteOf_unmixWord]
    rfl
  apply List.ext_getElem
  · simp [innerKeys, RoundMaps.inverseKeys]
  · intro i h₁ h₂
    have hi : i < nr - 1 := by simpa [innerKeys] using h₁
    simp only [innerKeys, RoundMaps.inverseKeys, List.getElem_map, List.getElem_range',
      List.getElem_reverse, List.length_map, List.length_range', one_mul]
    rw [hkey _ (by omega)]
    congr 2
    omega

theorem roundKey_congr {rk rk' : Schedule} {m r : ℕ} (h : ∀ j < m, rk j = rk' j) (hr : 4 * r + 4 ≤ m) :
    roundKey rk r = roundKey rk' r := by
  funext c
  rw [roundKey, roundKey, h _ (by omega)]

/-! ### Contexts -/

/-- A context before its first use. -/
def RijndaelCtx.zero : RijndaelCtx := ⟨false, 0, fun _ => 0, fun _ => 0⟩

/-- `rijndael_encrypt(ctx, src, dst)`. -/
def RijndaelCtx.encryptBlock (ctx : RijndaelCtx) (src : Block) : Block :=
  rijndaelEncrypt ctx.ek ctx.nr src

/-- `rijndael_decrypt(ctx, src, dst)`. -/
def RijndaelCtx.decryptBlock (ctx : RijndaelCtx) (src : Block) : Block :=
  rijndaelDecrypt ctx.dk ctx.nr src

theorem setKey_ek (ctx : RijndaelCtx) (key : Mem) (bits : ℕ) (doEncrypt : Bool) :
    (rijndaelSetKey ctx key bits doEncrypt).ek = (rijndaelKeySetupEnc ctx.ek key bits).1 ∧
      (rijndaelSetKey ctx key bits doEncrypt).nr = (rijndaelKeySetupEnc ctx.ek key bits).2 := by
  cases doEncrypt <;> exact ⟨rfl, rfl⟩

theorem keySetupEnc_nr (rk : Schedule) (key : Mem) {bits : ℕ} (h : KnownBits bits) :
    (rijndaelKeySetupEnc rk key bits).2 = 10 ∨ (rijndaelKeySetupEnc rk key bits).2 = 12 ∨
      (rijndaelKeySetupEnc rk key bits).2 = 14 := by
  rcases h with rfl | rfl | rfl
  · exact .inl rfl
  · exact .inr (.inl rfl)
  · exact .inr (.inr rfl)

/-- Encryption under a key is the cipher of the standard: its rounds with the inverse-affine box and
the round keys of the schedule. -/
theorem encryptBlock_standard (ctx : RijndaelCtx) (key : Mem) {bits : ℕ} (h : KnownBits bits)
    (b : Block) :
    let c := rijndaelSetKey ctx key bits true
    IsInverseAffine sboxPerm ∧ blockMatrix (c.encryptBlock b) =
      (rijndaelMaps sboxPerm).encrypt (roundKey c.ek 0) (innerKeys c.ek c.nr) (roundKey c.ek c.nr)
        (blockMatrix b) := by
  intro c
  obtain ⟨-, hnr⟩ := setKey_ek ctx key bits true
  refine ⟨sbox_isInverseAffine, blockMatrix_encrypt c.ek ?_ b⟩
  rw [hnr]
  exact keySetupEnc_nr ctx.ek key h

/-- A block of zeros under a key of zeros of 128 bits. -/
theorem encryptBlock_standard_zero :
    let c := rijndaelSetKey .zero Mem.zero 128 true
    blockMatrix (c.encryptBlock (Mem.zero.block 0)) =
      (rijndaelMaps sboxPerm).encrypt (roundKey c.ek 0) (innerKeys c.ek c.nr) (roundKey c.ek c.nr)
        (blockMatrix (Mem.zero.block 0)) :=
  (encryptBlock_standard .zero Mem.zero (show KnownBits 128 from .inl rfl) (Mem.zero.block 0)).2

/-- The words that the decrypting context is given, from those of the encrypting one. -/
theorem setKey_dk (ctx₁ ctx₂ : RijndaelCtx) (key : Mem) {bits : ℕ} (h : KnownBits bits) :
    let enc := rijndaelSetKey ctx₁ key bits true
    let dec := rijndaelSetKey ctx₂ key bits false
    dec.nr = enc.nr ∧ roundKey dec.dk 0 = roundKey enc.ek enc.nr ∧
      roundKey dec.dk enc.nr = roundKey enc.ek 0 ∧
      innerKeys dec.dk enc.nr = cipherMaps.inverseKeys (innerKeys enc.ek enc.nr) := by
  intro enc dec
  obtain ⟨hek₁, hnr₁⟩ := setKey_ek ctx₁ key bits true
  obtain ⟨hnr, hW₁, -⟩ := keySetupEnc_spec ctx₁.ek key h
  obtain ⟨hnr', hW₂, -⟩ := keySetupEnc_spec ctx₂.ek key h
  have hnk : bits / 32 ≤ 8 ∧ 0 < bits / 32 := by rcases h with rfl | rfl | rfl <;> decide
  -- the copy of the schedule agrees with the encrypting one on all its words
  let rk : Schedule := fun i =>
    if i < 4 * (maxNr + 1) then (rijndaelKeySetupEnc ctx₂.ek key bits).1 i else ctx₂.dk i
  have hagree (j : ℕ) (hj : j < 4 * (bits / 32 + 7)) : rk j = enc.ek j := by
    have hlt : j < 4 * (maxNr + 1) := by rw [maxNr]; omega
    rw [hek₁, hW₁.unique hnk.2 hW₂ j hj]
    exact if_pos hlt
  have hencnr : enc.nr = bits / 32 + 6 := hnr₁.trans hnr
  have hdecnr : dec.nr = bits / 32 + 6 := (setKey_ek ctx₂ key bits false).2.trans hnr'
  have hdk : dec.dk = (rijndaelKeySetupDec rk key bits enc.nr).1 := by
    rw [hencnr, ← hnr']
    rfl
  have hkey (r : ℕ) (hr : r ≤ enc.nr) : roundKey rk r = roundKey enc.ek r :=
    roundKey_congr hagree (by omega)
  have hinner : innerKeys rk enc.nr = innerKeys enc.ek enc.nr := by
    apply List.map_congr_left
    intro r hr
    rw [List.mem_range'_1] at hr
    exact hkey r (by omega)
  have houter := roundKey_dec_outer rk key bits (show enc.nr ≠ 0 by omega)
  refine ⟨hdecnr.trans hencnr.symm, ?_, ?_, ?_⟩
  · rw [hdk, houter.1, hkey _ le_rfl]
  · rw [hdk, houter.2, hkey 0 (by omega)]
  · rw [hdk, innerKeys_dec rk key bits (by omega), hinner]

/-- The two directions under one key are the cipher and its inverse. -/
theorem blockMatrix_setKey (ctx₁ ctx₂ : RijndaelCtx) (key : Mem) {bits : ℕ} (h : KnownBits bits)
    (b : Block) :
    let enc := rijndaelSetKey ctx₁ key bits true
    let dec := rijndaelSetKey ctx₂ key bits false
    let inner := innerKeys enc.ek enc.nr
    blockMatrix (enc.encryptBlock b) =
        cipherMaps.encrypt (roundKey enc.ek 0) inner (roundKey enc.ek enc.nr) (blockMatrix b) ∧
      blockMatrix (dec.decryptBlock b) =
        cipherMaps.inverse.encrypt (roundKey enc.ek enc.nr) (cipherMaps.inverseKeys inner)
          (roundKey enc.ek 0) (blockMatrix b) := by
  intro enc dec inner
  obtain ⟨hdecnr, hfirst, hlast, hinner⟩ := setKey_dk ctx₁ ctx₂ key h
  have hnr : enc.nr = 10 ∨ enc.nr = 12 ∨ enc.nr = 14 := by
    rw [(setKey_ek ctx₁ key bits true).2]
    exact keySetupEnc_nr ctx₁.ek key h
  refine ⟨blockMatrix_encrypt enc.ek hnr b, ?_⟩
  have hdec := blockMatrix_decrypt dec.dk hnr b
  rw [hfirst, hlast, hinner] at hdec
  rwa [RijndaelCtx.decryptBlock, hdecnr]

theorem decryptBlock_encryptBlock (ctx₁ ctx₂ : RijndaelCtx) (key : Mem) {bits : ℕ}
    (h : KnownBits bits) (b : Block) :
    (rijndaelSetKey ctx₂ key bits false).decryptBlock
      ((rijndaelSetKey ctx₁ key bits true).encryptBlock b) = b := by
  apply blockMatrix_injective
  rw [(blockMatrix_setKey ctx₁ ctx₂ key h _).2, (blockMatrix_setKey ctx₁ ctx₂ key h b).1]
  exact cipherMaps.encrypt_inverse_encrypt _ _ _ _

theorem encryptBlock_decryptBlock (ctx₁ ctx₂ : RijndaelCtx) (key : Mem) {bits : ℕ}
    (h : KnownBits bits) (b : Block) :
    (rijndaelSetKey ctx₁ key bits true).encryptBlock
      ((rijndaelSetKey ctx₂ key bits false).decryptBlock b) = b := by
  apply blockMatrix_injective
  rw [(blockMatrix_setKey ctx₁ ctx₂ key h _).1, (blockMatrix_setKey ctx₁ ctx₂ key h b).2]
  exact cipherMaps.encrypt_encrypt_inverse _ _ _ _

/-- Decryption under a key undoes encryption under it, and the other way round, whatever the two
contexts held before. -/
theorem block_roundtrip (ctx₁ ctx₂ : RijndaelCtx) (key : Mem) {bits : ℕ} (h : KnownBits bits)
    (b : Block) :
    let enc := rijndaelSetKey ctx₁ key bits true
    let dec := rijndaelSetKey ctx₂ key bits false
    dec.decryptBlock (enc.encryptBlock b) = b ∧ enc.encryptBlock (dec.decryptBlock b) = b :=
  ⟨decryptBlock_encryptBlock ctx₁ ctx₂ key h b, encryptBlock_decryptBlock ctx₁ ctx₂ key h b⟩

/-- A block of zeros under a key of zeros of 256 bits. -/
theorem block_roundtrip_zero :
    (rijndaelSetKey .zero Mem.zero 256 false).decryptBlock
        ((rijndaelSetKey .zero Mem.zero 256 true).encryptBlock (Mem.zero.block 0)) = Mem.zero.block 0 ∧
      (rijndaelSetKey .zero Mem.zero 256 true).encryptBlock
        ((rijndaelSetKey .zero Mem.zero 256 false).decryptBlock (Mem.zero.block 0)) =
          Mem.zero.block 0 :=
  block_roundtrip .zero .zero Mem.zero (show KnownBits 256 from .inr (.inr rfl)) (Mem.zero.block 0)

end Carroll
