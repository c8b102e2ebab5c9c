import Carroll.Socket
import Mathlib.Data.List.DropRight

/-! # Lines as `cread` frames them

`cread` looks for `\r\n` one byte at a time and counts in `eol_matched` how much of it has been seen.
A byte that does not match sets the count back to 0 and is not looked at again: of a row of `\r`
bytes only every other one is matched.  So what `cread` has matched after some bytes without the pair
is the parity of the number of `\r` at their end (`readLine_append`).

The message is also stored as a string, so that a NUL byte in it makes the result too short.

A byte is stored before the count of bytes is tested: when `length` bytes went by without the pair,
the next one goes to the index `length` (`creadBounded_iff`). -/

namespace Carroll

/-- The bytes have no `\r\n`. -/
def NoPair (bytes : List UInt8) : Prop := ¬ [0x0d, 0x0a] <:+: bytes

instance (bytes : List UInt8) : Decidable (NoPair bytes) := inferInstanceAs (Decidable (¬ _))

/-- The number of `\r` at the end. -/
def trailingCr (bytes : List UInt8) : ℕ := (bytes.rtakeWhile (· = 0x0d)).length

/-- The first `\r\n` of the stream stands between `m` and `rest`. -/
def IsFirstLine (stream m rest : List UInt8) : Prop :=
  stream = m ++ 0x0d :: 0x0a :: rest ∧ NoPair (m ++ [0x0d])

theorem NoPair.of_concat {p : List UInt8} {b : UInt8} (h : NoPair (p ++ [b])) : NoPair p :=
  fun hin => h (hin.trans (List.prefix_append p [b]).isInfix)

theorem trailingCr_concat_cr (p : List UInt8) : trailingCr (p ++ [0x0d]) = trailingCr p + 1 := by
  rw [trailingCr, List.rtakeWhile_concat_pos _ _ _ (by decide), List.length_append]
  rfl

theorem trailingCr_concat {p : List UInt8} {b : UInt8} (h : b ≠ 0x0d) : trailingCr (p ++ [b]) = 0 := by
  rw [trailingCr, List.rtakeWhile_concat_neg _ _ _ (by simpa using h)]
  rfl

/-- An even number of `\r` stands in front of a `\r\n`: `cread` sees the pair. -/
def Seen (bytes : List UInt8) : Prop := ∃ m, m ++ [0x0d, 0x0a] <+: bytes ∧ Even (trailingCr m)

theorem Seen.mono {p bytes : List UInt8} (h : Seen p) (hp : p <+: bytes) : Seen bytes := by
  obtain ⟨m, hm, heven⟩ := h
  exact ⟨m, hm.trans hp, heven⟩

theorem NoPair.not_seen {bytes : List UInt8} (h : NoPair bytes) : ¬ Seen bytes := by
  rintro ⟨m, hm, -⟩
  exact h ((List.suffix_append m _).isInfix.trans hm.isInfix)

/-- Behind a `\r` that was matched there is no `\n`. -/
theorem ne_lf_of_not_seen {p : List UInt8} {b : UInt8} (h : ¬ Seen (p ++ [b]))
    (hodd : trailingCr p % 2 = 1) : b ≠ 0x0a := by
  rintro rfl
  rcases List.eq_nil_or_concat' p with rfl | ⟨p, c, rfl⟩
  · exact absurd hodd (by decide)
  · by_cases hc : c = 0x0d
    · rw [hc, trailingCr_concat_cr] at hodd
      refine h ⟨p, ?_, Nat.even_iff.mpr (by omega)⟩
      rw [hc, List.append_assoc]
      exact List.prefix_refl _
    · rw [trailingCr_concat hc] at hodd
      exact absurd hodd (by decide)

/-- Up to the `\n` of the first pair that is seen. -/
theorem not_seen_or_first (bytes : List UInt8) :
    ¬ Seen bytes ∨ ∃ m rest, bytes = m ++ 0x0d :: 0x0a :: rest ∧ Even (trailingCr m) ∧
      ¬ Seen (m ++ [0x0d]) := by
  induction bytes using List.reverseRecOn with
  | nil =>
      refine .inl fun ⟨m, hm, _⟩ => ?_
      simpa using List.prefix_nil.mp hm
  | append_singleton p b ih =>
      rcases ih with hp | ⟨m, rest, rfl, heven, hm⟩
      · by_cases hseen : Seen (p ++ [b])
        · obtain ⟨m, hm, heven⟩ := hseen
          rcases List.prefix_concat_iff.mp hm with hm | hm
          · have hsplit : p = m ++ [0x0d] := by
              rw [show m ++ [0x0d, 0x0a] = (m ++ [0x0d]) ++ [0x0a] by simp] at hm
              exact (List.append_inj_left' hm rfl).symm
            exact .inr ⟨m, [], hm.symm, heven, hsplit ▸ hp⟩
          · exact absurd ⟨m, hm, heven⟩ hp
        · exact .inl hseen
      · exact .inr ⟨m, rest ++ [b], by simp, heven, hm⟩

/-! ### What has been read -/

theorem zseol_zero : zseol 0 = 0x0d := rfl

theorem zseol_one : zseol 1 = 0x0a := rfl

/-- `eol_matched` after a byte that completes no pair. -/
theorem eolMatched_concat {p : List UInt8} {b : UInt8} (hseen : ¬ Seen (p ++ [b])) :
    (b = zseol (trailingCr p % 2) →
      trailingCr p % 2 + 1 ≠ 2 ∧ trailingCr p % 2 + 1 = trailingCr (p ++ [b]) % 2) ∧
    (b ≠ zseol (trailingCr p % 2) → trailingCr (p ++ [b]) % 2 = 0) := by
  rcases Nat.mod_two_eq_zero_or_one (trailingCr p) with h | h
  · rw [h, zseol_zero]
    refine ⟨?_, fun hb => by rw [trailingCr_concat hb]⟩
    rintro rfl
    rw [trailingCr_concat_cr]
    omega
  · rw [h, zseol_one]
    refine ⟨fun hb => absurd hb (ne_lf_of_not_seen hseen h), fun _ => ?_⟩
    by_cases hb : b = 0x0d
    · rw [hb, trailingCr_concat_cr]
      omega
    · rw [trailingCr_concat hb]

section
variable {length : ℕ} (buffer : Mem)

/-- A byte that completes no pair. -/
theorem readLine_concat {p : List UInt8} {b : UInt8} (hlen : p.length < length)
    (hseen : ¬ Seen (p ++ [b])) (bytes : List UInt8) :
    readLine length (buffer.poke 0 p) p.length (trailingCr p % 2) (b :: bytes) =
      readLine length (buffer.poke 0 (p ++ [b])) (p ++ [b]).length (trailingCr (p ++ [b]) % 2) bytes := by
  have hpoke : (buffer.poke 0 p).poke p.length [b] = buffer.poke 0 (p ++ [b]) := by
    rw [Mem.poke_append, Nat.zero_add]
  obtain ⟨hmatch, hreset⟩ := eolMatched_concat hseen
  rw [readLine, hpoke, if_neg (by omega), List.length_append, List.length_singleton]
  by_cases hb : b = zseol (trailingCr p % 2)
  · rw [if_pos hb, if_neg (hmatch hb).1, (hmatch hb).2]
  · rw [if_neg hb, hreset hb]

/-- The state after bytes in which no pair was seen. -/
theorem readLine_append {p : List UInt8} (hlen : p.length ≤ length) (hseen : ¬ Seen p)
    (bytes : List UInt8) :
    readLine length buffer 0 0 (p ++ bytes) =
      readLine length (buffer.poke 0 p) p.length (trailingCr p % 2) bytes := by
  induction p using List.reverseRecOn generalizing bytes with
  | nil => rw [Mem.poke_nil]; rfl
  | append_singleton p b ih =>
      rw [List.length_append, List.length_singleton] at hlen
      have hp : ¬ Seen p := fun h => hseen (h.mono (List.prefix_append p [b]))
      rw [List.append_assoc, ih (Nat.le_of_succ_le hlen) hp]
      exact readLine_concat buffer hlen hseen bytes

/-- A stream that is longer than the buffer, no pair seen up to there. -/
theorem readLine_limit {p : List UInt8} (hlen : p.length = length) (hseen : ¬ Seen p) (b : UInt8)
    (bytes : List UInt8) :
    readLine length buffer 0 0 (p ++ b :: bytes) = ⟨0, buffer.poke 0 (p ++ [b]), bytes⟩ := by
  rw [readLine_append buffer hlen.le hseen, readLine, Mem.poke_append, Nat.zero_add, if_pos hlen.ge]

theorem readLine_ret_of_limit {p : List UInt8} (hlen : length ≤ p.length) (hseen : ¬ Seen p)
    (b : UInt8) (bytes : List UInt8) : (readLine length buffer 0 0 (p ++ b :: bytes)).ret = 0 := by
  have hseen' : ¬ Seen (p.take length) := fun h => hseen (h.mono (List.take_prefix length p))
  obtain ⟨c, rest, hrest⟩ : ∃ c rest, p.drop length ++ b :: bytes = c :: rest :=
    List.exists_cons_of_ne_nil (List.append_ne_nil_of_right_ne_nil _ (List.cons_ne_nil b bytes))
  rw [← List.take_append_drop length p, List.append_assoc, hrest,
    readLine_limit buffer (List.length_take_of_le hlen) hseen']

/-- Without a pair `cread` returns 0. -/
theorem readLine_ret_of_noPair {bytes : List UInt8} (hpair : NoPair bytes) :
    (readLine length buffer 0 0 bytes).ret = 0 := by
  by_cases hlen : bytes.length ≤ length
  · rw [← List.append_nil bytes, readLine_append buffer hlen hpair.not_seen]
    rfl
  · rcases List.eq_nil_or_concat' bytes with rfl | ⟨p, b, rfl⟩
    · rfl
    · rw [List.length_append, List.length_singleton] at hlen
      exact readLine_ret_of_limit buffer (by omega) hpair.of_concat.not_seen b []

/-- Up to the `\n` of the first pair. -/
theorem readLine_lf {m : List UInt8} (hlen : m.length + 1 ≤ length) (hpair : NoPair (m ++ [0x0d]))
    (rest : List UInt8) :
    readLine length buffer 0 0 (m ++ 0x0d :: 0x0a :: rest) =
      readLine length (buffer.poke 0 (m ++ [0x0d])) (m.length + 1) ((trailingCr m + 1) % 2)
        (0x0a :: rest) := by
  have hstart : m ++ 0x0d :: 0x0a :: rest = (m ++ [0x0d]) ++ 0x0a :: rest := by simp
  have hlen' : (m ++ [0x0d]).length = m.length + 1 := List.length_append
  rw [hstart, readLine_append buffer (hlen' ▸ hlen) hpair.not_seen, trailingCr_concat_cr, hlen']

/-- The first pair is seen when an even number of `\r` stands in front of it. -/
theorem readLine_pair {m : List UInt8} (hlen : m.length + 2 ≤ length) (hpair : NoPair (m ++ [0x0d]))
    (heven : Even (trailingCr m)) (rest : List UInt8) :
    (readLine length buffer 0 0 (m ++ 0x0d :: 0x0a :: rest)).ret = (cstr m).length ∧
    (readLine length buffer 0 0 (m ++ 0x0d :: 0x0a :: rest)).buffer.peek 0 (m.length + 1) = m ++ [0] ∧
    (readLine length buffer 0 0 (m ++ 0x0d :: 0x0a :: rest)).rest = rest := by
  have hone : (trailingCr m + 1) % 2 = 1 := by
    rw [Nat.even_iff] at heven
    omega
  have hm : ((buffer.poke 0 (m ++ [0x0d])).poke (m.length + 1) [0x0a]).peek 0 m.length = m := by
    rw [Mem.peek_poke_disjoint _ _ (.inl (by omega)), Mem.peek_poke_take _ _ (by simp), List.take_left]
  obtain ⟨r, hr⟩ := Mem.peek_nul hm 0
  obtain ⟨r', hr'⟩ := Mem.peek_nul hm 1
  have hnil : r = [] := by
    have hlength := congrArg List.length hr
    simpa using hlength
  rw [readLine_lf buffer (by omega) hpair, hone, readLine, if_neg (by omega), if_pos zseol_one.symm,
    if_pos rfl, Nat.add_sub_cancel]
  refine ⟨?_, ?_, rfl⟩
  · dsimp only
    rw [Nat.add_assoc, hr', cstr_nul]
  · rw [hr, hnil]

/-- After an odd number it is passed over. -/
theorem readLine_missed {m : List UInt8} (hlen : m.length + 2 ≤ length) (hpair : NoPair (m ++ [0x0d]))
    (hodd : ¬ Even (trailingCr m)) (rest : List UInt8) :
    ∃ buffer', readLine length buffer 0 0 (m ++ 0x0d :: 0x0a :: rest) =
      readLine length buffer' (m.length + 2) 0 rest := by
  have hzero : (trailingCr m + 1) % 2 = 0 := by
    rw [Nat.even_iff] at hodd
    omega
  rw [readLine_lf buffer (by omega) hpair, hzero, readLine, if_neg (by omega), zseol_zero,
    if_neg (by decide)]
  exact ⟨_, rfl⟩

end

/-! ### The end of the buffer -/

/-- The stores of the loop in order, each with its index and its byte. -/
def readLineStores (length : ℕ) : ℕ → ℕ → List UInt8 → List (ℕ × UInt8)
  | _, _, [] => []
  | count, eolMatched, b :: bytes =>
      (count, b) ::
        if length ≤ count then []
        else if b = zseol eolMatched then
          if eolMatched + 1 = 2 then [(count - 1, 0)]
          else readLineStores length (count + 1) (eolMatched + 1) bytes
        else readLineStores length (count + 1) 0 bytes

/-- The stores of `cread` into its buffer. -/
def creadStores (length : ℕ) (chunks : List (List UInt8)) : List (ℕ × UInt8) :=
  readLineStores length 0 0 chunks.flatten

theorem readLine_buffer (length : ℕ) (buffer : Mem) (count eolMatched : ℕ) (bytes : List UInt8) :
    (readLine length buffer count eolMatched bytes).buffer =
      (readLineStores length count eolMatched bytes).foldl (fun m s => m.poke s.1 [s.2]) buffer := by
  fun_induction readLine length buffer count eolMatched bytes with
  | case1 buffer count eolMatched => rfl
  | case2 buffer count eolMatched b bytes buf h => rw [readLineStores, if_pos h]; rfl
  | case3 buffer count eolMatched bytes h htwo buf buf' =>
      rw [readLineStores, if_neg h, if_pos rfl, if_pos htwo]
      rfl
  | case4 buffer count eolMatched bytes h htwo buf ih =>
      rw [readLineStores, if_neg h, if_pos rfl, if_neg htwo, ih]
      rfl
  | case5 buffer count eolMatched b bytes buf h heol ih =>
      rw [readLineStores, if_neg h, if_neg heol, ih]
      rfl

/-- The buffer after `cread` is what these stores make of it. -/
theorem cread_buffer (length : ℕ) (buffer : Mem) (chunks : List (List UInt8)) :
    (cread length buffer chunks).buffer =
      (creadStores length chunks).foldl (fun m s => m.poke s.1 [s.2]) buffer := by
  rw [cread, (creadLoop_flatten length buffer 0 0 chunks).2.1, readLine_buffer]
  rfl

section
variable {length : ℕ}

theorem readLineStores_concat {p : List UInt8} {b : UInt8} (hlen : p.length < length)
    (hseen : ¬ Seen (p ++ [b])) (bytes : List UInt8) :
    readLineStores length p.length (trailingCr p % 2) (b :: bytes) =
      (p.length, b) ::
        readLineStores length (p ++ [b]).length (trailingCr (p ++ [b]) % 2) bytes := by
  obtain ⟨hmatch, hreset⟩ := eolMatched_concat hseen
  rw [readLineStores, if_neg (by omega), List.length_append, List.length_singleton]
  by_cases hb : b = zseol (trailingCr p % 2)
  · rw [if_pos hb, if_neg (hmatch hb).1, (hmatch hb).2]
  · rw [if_neg hb, hreset hb]

/-- As long as no pair is seen, every byte goes to the next index. -/
theorem readLineStores_append {p : List UInt8} (hlen : p.length ≤ length) (hseen : ¬ Seen p)
    (bytes : List UInt8) :
    ∃ front : List (ℕ × UInt8), (∀ s ∈ front, s.1 < p.length) ∧
      readLineStores length 0 0 (p ++ bytes) =
        front ++ readLineStores length p.length (trailingCr p % 2) bytes := by
  induction p using List.reverseRecOn generalizing bytes with
  | nil => exact ⟨[], fun _ h => absurd h List.not_mem_nil, rfl⟩
  | append_singleton p b ih =>
      rw [List.length_append, List.length_singleton] at hlen
      have hp : ¬ Seen p := fun h => hseen (h.mono (List.prefix_append p [b]))
      obtain ⟨front, hfront, hstores⟩ := ih (Nat.le_of_succ_le hlen) hp (b :: bytes)
      refine ⟨front ++ [(p.length, b)], fun s hs => ?_, ?_⟩
      · rw [List.length_append, List.length_singleton]
        rcases List.mem_append.mp hs with hs | hs
        · exact (hfront s hs).trans (Nat.lt_succ_self _)
        · rw [List.mem_singleton.mp hs]
          exact Nat.lt_succ_self _
      · rw [List.append_assoc, List.singleton_append, hstores, readLineStores_concat hlen hseen,
          List.append_assoc, List.singleton_append]

/-- A stream that fits, or a pair that is seen in time, keeps `cread` in its buffer. -/
theorem readLineStores_lt {stream : List UInt8}
    (h : stream.length ≤ length ∨ Seen (stream.take length)) :
    ∀ s ∈ readLineStores length 0 0 stream, s.1 < length := by
  rcases not_seen_or_first (stream.take length) with hseen | ⟨m, rest, hm, heven, hseen⟩
  · have hlen : stream.length ≤ length := h.resolve_right hseen
    rw [List.take_of_length_le hlen] at hseen
    obtain ⟨front, hfront, hstores⟩ := readLineStores_append hlen hseen []
    rw [List.append_nil] at hstores
    rw [hstores, readLineStores, List.append_nil]
    exact fun s hs => (hfront s hs).trans_le hlen
  · have hfits : m.length + 2 ≤ length := by
      have hle : (stream.take length).length ≤ length := List.length_take_le length stream
      rw [hm, List.length_append, List.length_cons, List.length_cons] at hle
      omega
    have hodd : (trailingCr m + 1) % 2 = 1 := by
      rw [Nat.even_iff] at heven
      omega
    have hlen : (m ++ [0x0d]).length = m.length + 1 := List.length_append
    have hstream : stream = (m ++ [0x0d]) ++ 0x0a :: (rest ++ stream.drop length) := by
      conv_lhs => rw [← List.take_append_drop length stream, hm]
      simp
    have hle : (m ++ [0x0d]).length ≤ length := by omega
    obtain ⟨front, hfront, hstores⟩ :=
      readLineStores_append hle hseen (0x0a :: (rest ++ stream.drop length))
    rw [hstream, hstores, trailingCr_concat_cr, hodd, hlen, readLineStores, if_neg (by omega),
      if_pos zseol_one.symm, if_pos rfl]
    intro s hs
    rcases List.mem_append.mp hs with hs | hs
    · have := hfront s hs
      omega
    · rcases List.mem_pair.mp hs with rfl | rfl
      · dsimp only
        omega
      · dsimp only
        omega

/-- Otherwise the byte behind the buffer is overwritten. -/
theorem readLineStores_overrun {stream : List UInt8} (hlen : length < stream.length)
    (hseen : ¬ Seen (stream.take length)) : ∃ s ∈ readLineStores length 0 0 stream, s.1 = length := by
  have hp : (stream.take length).length = length := List.length_take_of_le hlen.le
  obtain ⟨b, rest, hdrop⟩ : ∃ b rest, stream.drop length = b :: rest := by
    refine List.exists_cons_of_ne_nil fun hnil => ?_
    rw [List.drop_eq_nil_iff] at hnil
    omega
  obtain ⟨front, -, hstores⟩ := readLineStores_append hp.le hseen (b :: rest)
  rw [← hdrop, List.take_append_drop, hdrop, hp] at hstores
  refine ⟨(length, b), ?_, rfl⟩
  rw [hstores, readLineStores]
  exact List.mem_append_right _ List.mem_cons_self

end

/-- `cread` stays below `length`, and returns 0 when there is no `\r\n` in the first `length`
bytes. -/
def CreadBounded (length : ℕ) (buffer : Mem) (chunks : List (List UInt8)) : Prop :=
  (∀ s ∈ creadStores length chunks, s.1 < length) ∧
  (NoPair (chunks.flatten.take length) → (cread length buffer chunks).ret = 0)

theorem cread_ret_of_noPair (length : ℕ) (buffer : Mem) {chunks : List (List UInt8)}
    (hpair : NoPair (chunks.flatten.take length)) : (cread length buffer chunks).ret = 0 := by
  rw [cread, (creadLoop_flatten length buffer 0 0 chunks).1]
  by_cases hlen : chunks.flatten.length ≤ length
  · rw [List.take_of_length_le hlen] at hpair
    exact readLine_ret_of_noPair buffer hpair
  · rw [not_le] at hlen
    rw [← List.take_append_drop length chunks.flatten]
    generalize hdrop : chunks.flatten.drop length = rest
    cases rest with
    | nil =>
        rw [List.drop_eq_nil_iff] at hdrop
        omega
    | cons b rest =>
        exact readLine_ret_of_limit buffer (List.length_take_of_le hlen.le).ge hpair.not_seen b rest

/-- `cread` stays in its buffer exactly when no more than `length` bytes arrive or a pair is seen in
the first `length` of them: the byte is stored before the count is tested. -/
theorem creadBounded_iff (length : ℕ) (buffer : Mem) (chunks : List (List UInt8)) :
    CreadBounded length buffer chunks ↔
      chunks.flatten.length ≤ length ∨ Seen (chunks.flatten.take length) := by
  constructor
  · rintro ⟨hstores, -⟩
    by_contra h
    rw [not_or, not_le] at h
    obtain ⟨s, hs, hlength⟩ := readLineStores_overrun h.1 h.2
    exact absurd (hstores s hs) (by omega)
  · intro h
    exact ⟨readLineStores_lt h, cread_ret_of_noPair length buffer⟩

/-- Stores below `length` leave alone what lies behind. -/
theorem foldl_poke_of_lt {stores : List (ℕ × UInt8)} {length i : ℕ}
    (h : ∀ s ∈ stores, s.1 < length) (hi : length ≤ i) (m : Mem) :
    stores.foldl (fun m s => m.poke s.1 [s.2]) m i = m i := by
  induction stores generalizing m with
  | nil => rfl
  | cons s stores ih =>
      have hs := h s List.mem_cons_self
      rw [List.foldl_cons, ih fun t ht => h t (List.mem_cons_of_mem _ ht)]
      exact Mem.poke_apply_of_ge (by simp; omega)

/-- Within these bounds nothing behind the buffer changes. -/
theorem cread_frame {length : ℕ} {chunks : List (List UInt8)}
    (h : chunks.flatten.length ≤ length ∨ Seen (chunks.flatten.take length)) (buffer : Mem) {i : ℕ}
    (hi : length ≤ i) : (cread length buffer chunks).buffer i = buffer i := by
  rw [cread_buffer]
  exact foldl_poke_of_lt (readLineStores_lt h) hi buffer

/-- One byte more than the buffer of `libsck_callback` holds. -/
theorem not_creadBounded_full :
    ¬ CreadBounded bufferLength Mem.zero [List.replicate (bufferLength + 1) 0x61] := by
  have hflatten : [List.replicate (bufferLength + 1) (0x61 : UInt8)].flatten =
      List.replicate (bufferLength + 1) 0x61 := List.flatten_singleton
  have hseen : ¬ Seen ((List.replicate (bufferLength + 1) 0x61).take bufferLength) := by
    rintro ⟨m, hm, -⟩
    have hcr : (0x0d : UInt8) ∈ m ++ [0x0d, 0x0a] := by simp
    have hmem := List.mem_of_mem_take (hm.subset hcr)
    exact absurd (List.eq_of_mem_replicate hmem) (by decide)
  obtain ⟨s, hs, hlength⟩ := readLineStores_overrun (by simp) hseen
  rintro ⟨hstores, -⟩
  rw [creadStores, hflatten] at hstores
  exact absurd (hstores s hs) (by omega)

/-! ### Framing -/

/-- `cread` returned the message `m`: its length, its bytes as a string in the buffer, and nothing
read behind the pair. -/
def Received.Frames (r : Received (List (List UInt8))) (m rest : List UInt8) : Prop :=
  r.ret = m.length ∧ r.buffer.peek 0 (m.length + 1) = m ++ [0] ∧ r.rest.flatten = rest

/-- `cread` returns what stands in front of the first pair, and 0 only when that is empty or there is
no pair. -/
def CreadFrames (length : ℕ) (buffer : Mem) (chunks : List (List UInt8)) : Prop :=
  (∀ m rest, IsFirstLine chunks.flatten m rest → (cread length buffer chunks).Frames m rest) ∧
  ((cread length buffer chunks).ret = 0 →
    NoPair chunks.flatten ∨ ∃ rest, IsFirstLine chunks.flatten [] rest)

theorem noPair_or_firstLine (stream : List UInt8) :
    NoPair stream ∨ ∃ m rest, IsFirstLine stream m rest := by
  induction stream using List.reverseRecOn with
  | nil => exact .inl (by decide)
  | append_singleton p b ih =>
      rcases ih with hp | ⟨m, rest, rfl, hpair⟩
      · by_cases hpair : NoPair (p ++ [b])
        · exact .inl hpair
        · rw [NoPair, not_not, List.infix_concat_iff] at hpair
          obtain ⟨m, hm⟩ := hpair.resolve_right hp
          have hsplit : p = m ++ [0x0d] ∧ b = 0x0a := by
            rw [show m ++ [0x0d, 0x0a] = (m ++ [0x0d]) ++ [0x0a] by simp] at hm
            exact ⟨(List.append_inj_left' hm rfl).symm, by simpa using (List.append_inj_right' hm rfl).symm⟩
          refine .inr ⟨m, [], ?_, ?_⟩
          · rw [hsplit.1, hsplit.2, List.append_assoc]
            rfl
          · rwa [← hsplit.1]
      · exact .inr ⟨m, rest ++ [b], by simp, hpair⟩

/-- The conditions under which the first pair is found in time and the message is a string. -/
structure Framable (length : ℕ) (m : List UInt8) : Prop where
  nul : 0 ∉ m
  even : Even (trailingCr m)
  fits : m.length + 2 ≤ length

theorem frames_iff {length : ℕ} {buffer : Mem} {chunks : List (List UInt8)} {m rest : List UInt8}
    (h : IsFirstLine chunks.flatten m rest) :
    (cread length buffer chunks).Frames m rest ↔ Framable length m := by
  obtain ⟨hstream, hpair⟩ := h
  obtain ⟨hret, hbuffer, hrest⟩ := creadLoop_flatten length buffer 0 0 chunks
  rw [Received.Frames, cread, hret, hbuffer, hrest, hstream]
  constructor
  · rintro ⟨hr, hb, hs⟩
    have hfits : m.length + 2 ≤ length := by
      by_contra hshort
      have hzero : m.length = 0 := by
        rw [← hr, show m ++ 0x0d :: 0x0a :: rest = (m ++ [0x0d]) ++ 0x0a :: rest by simp]
        exact readLine_ret_of_limit buffer (by simp; omega) hpair.not_seen _ _
      obtain rfl := List.eq_nil_of_length_eq_zero hzero
      -- a buffer of at most one byte
      rw [List.length_nil] at hshort
      rw [List.nil_append] at hb hs
      obtain rfl | rfl : length = 0 ∨ length = 1 := by omega
      · exact absurd (congrArg List.length hs) (Nat.succ_ne_self rest.length)
      · have hlimit := readLine_limit buffer rfl (show NoPair [0x0d] by decide).not_seen 0x0a rest
        rw [List.singleton_append, List.length_singleton] at hlimit
        rw [hlimit, List.length_nil, Mem.peek_poke_take _ _ (by simp)] at hb
        exact absurd hb (by decide)
    have heven : Even (trailingCr m) := by
      by_contra hodd
      obtain ⟨buffer', hmissed⟩ := readLine_missed buffer hfits hpair hodd rest
      have hpos : 0 < m.length := by
        rw [List.length_pos_iff]
        rintro rfl
        exact hodd ⟨0, rfl⟩
      rw [hmissed] at hr hs
      have hlt := readLine_rest_lt length (hr ▸ hpos)
      rw [hs] at hlt
      exact lt_irrefl _ hlt
    obtain ⟨hr', -, -⟩ := readLine_pair buffer hfits hpair heven rest
    refine ⟨?_, heven, hfits⟩
    rw [← length_cstr_lt_iff, ← hr', hr]
    exact lt_irrefl _
  · rintro ⟨hnul, heven, hfits⟩
    obtain ⟨hr, hb, hs⟩ := readLine_pair buffer hfits hpair heven rest
    rw [cstr_of_not_mem hnul] at hr
    exact ⟨hr, hb, hs⟩

/-- `cread` frames a stream exactly when its first line, if it has one, fits, has no NUL byte and
ends in an even number of `\r`. -/
theorem creadFrames_iff (length : ℕ) (buffer : Mem) (chunks : List (List UInt8)) :
    CreadFrames length buffer chunks ↔
      ∀ m rest, IsFirstLine chunks.flatten m rest → Framable length m := by
  constructor
  · rintro ⟨hframes, -⟩ m rest h
    exact (frames_iff h).mp (hframes m rest h)
  · intro hframable
    have hframes : ∀ m rest, IsFirstLine chunks.flatten m rest →
        (cread length buffer chunks).Frames m rest :=
      fun m rest h => (frames_iff h).mpr (hframable m rest h)
    refine ⟨hframes, fun hzero => ?_⟩
    rcases noPair_or_firstLine chunks.flatten with hpair | ⟨m, rest, h⟩
    · exact .inl hpair
    · have hnil : m = [] := by
        rw [← List.length_eq_zero_iff, ← (hframes m rest h).1, hzero]
      exact .inr ⟨rest, hnil ▸ h⟩

/-- The pair behind `a\r` is not seen. -/
theorem not_creadFrames_cr : ¬ CreadFrames 16 Mem.zero [[0x61, 0x0d, 0x0d, 0x0a]] := by
  rintro ⟨h, -⟩
  have hfirst : IsFirstLine [[0x61, 0x0d, 0x0d, 0x0a]].flatten [0x61, 0x0d] [] :=
    ⟨rfl, by decide⟩
  exact absurd ((frames_iff hfirst).mp (h _ _ hfirst)).even (by decide)

end Carroll
