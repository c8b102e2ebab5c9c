import Carroll.Mem

/-! # C strings in buffers with an end

A buffer is the list of its bytes.  To write past its end is undefined, and so is to look for the
end of a string in a buffer that has no NUL byte (`none`).  A buffer that holds the string `s` is
`s ++ 0 :: r` with no NUL in `s` (`str_eq_some_iff`), and the functions of the standard library are
described on buffers of this form. -/

namespace Carroll

namespace Buffers

/-- Write `bs` from offset `off` on. -/
def store (b : List UInt8) (off : ℕ) (bs : List UInt8) : Option (List UInt8) :=
  if off + bs.length ≤ b.length then some (b.take off ++ bs ++ b.drop (off + bs.length)) else none

/-- The string at the start of a buffer. -/
def str (b : List UInt8) : Option (List UInt8) := if 0 ∈ b then some (cstr b) else none

/-- `strcpy(b, s)`. -/
def strcpy (b s : List UInt8) : Option (List UInt8) := store b 0 (s ++ [0])

/-- `strcat(b, s)`. -/
def strcat (b s : List UInt8) : Option (List UInt8) :=
  (str b).bind fun t => store b t.length (s ++ [0])

/-- `memset(b, 0, n)`. -/
def memset (b : List UInt8) (n : ℕ) : Option (List UInt8) := store b 0 (List.replicate n 0)

theorem store_append (a m c : List UInt8) {bs : List UInt8} (h : bs.length = m.length) :
    store (a ++ (m ++ c)) a.length bs = some (a ++ (bs ++ c)) := by
  have hdrop : (a ++ (m ++ c)).drop (a.length + bs.length) = c := by
    rw [← List.append_assoc, List.drop_left' (by rw [List.length_append, h])]
  rw [store, if_pos (by simp only [List.length_append]; omega), List.take_left, hdrop,
    List.append_assoc]

/-- A buffer holds the string `s` when it is `s`, a NUL byte, and anything. -/
theorem str_eq_some_iff {b s : List UInt8} :
    str b = some s ↔ ∃ r, b = s ++ 0 :: r ∧ 0 ∉ s := by
  constructor
  · intro h
    unfold str at h
    split_ifs at h with h0
    obtain ⟨t, r, rfl, ht⟩ := List.eq_append_cons_of_mem h0
    rw [cstr_nul, cstr_of_not_mem ht, Option.some.injEq] at h
    exact ⟨r, by rw [h], h ▸ ht⟩
  · rintro ⟨r, rfl, hs⟩
    rw [str, if_pos (by simp), cstr_nul, cstr_of_not_mem hs]

theorem str_append {s : List UInt8} (hs : 0 ∉ s) (r : List UInt8) : str (s ++ 0 :: r) = some s :=
  str_eq_some_iff.mpr ⟨r, rfl, hs⟩

/-- A string that fits with its NUL byte is copied. -/
theorem strcpy_eq {b s : List UInt8} (h : s.length < b.length) :
    strcpy b s = some (s ++ 0 :: b.drop (s.length + 1)) := by
  rw [strcpy, store, if_pos (by simpa [Nat.add_comm] using h)]
  simp

/-- A string that fits behind the one that is there is appended to it. -/
theorem strcat_eq {s t r : List UInt8} (hs : 0 ∉ s) (h : t.length ≤ r.length) :
    strcat (s ++ 0 :: r) t = some (s ++ t ++ 0 :: r.drop t.length) := by
  have hr : s ++ 0 :: r = s ++ ((0 :: r.take t.length) ++ r.drop t.length) := by
    rw [List.cons_append, List.take_append_drop]
  rw [strcat, str_append hs, Option.bind_some, hr, store_append]
  · simp
  · simp [h]

/-- To end a string where it ends changes nothing. -/
theorem store_nul (s r : List UInt8) : store (s ++ 0 :: r) s.length [0] = some (s ++ 0 :: r) :=
  store_append s [0] r rfl

/-- To end a string before its last character removes it. -/
theorem store_last (s r : List UInt8) (a : UInt8) :
    store (s ++ [a] ++ 0 :: r) s.length [0] = some (s ++ 0 :: 0 :: r) := by
  rw [List.append_assoc]
  exact store_append s [a] (0 :: r) rfl

/-- Clearing the characters of a string leaves the empty string. -/
theorem memset_eq (s r : List UInt8) :
    memset (s ++ 0 :: r) s.length = some (List.replicate s.length 0 ++ 0 :: r) := by
  have := store_append [] s (0 :: r) (List.length_replicate (n := s.length) (a := (0 : UInt8)))
  simpa [memset] using this

theorem str_replicate (n : ℕ) (r : List UInt8) : str (List.replicate n 0 ++ 0 :: r) = some [] := by
  cases n with
  | zero => exact str_append List.not_mem_nil r
  | succ n => exact str_append List.not_mem_nil (List.replicate n 0 ++ 0 :: r)

/-! ### Arrays of a fixed size -/

theorem store_length {b c bs : List UInt8} {off : ℕ} (h : store b off bs = some c) :
    c.length = b.length := by
  unfold store at h
  split_ifs at h with hfit
  rw [← Option.some.inj h]
  simp only [List.length_append, List.length_take, List.length_drop]
  omega

theorem strcat_length {b c t : List UInt8} (h : strcat b t = some c) : c.length = b.length := by
  obtain ⟨s, -, hstore⟩ := Option.bind_eq_some_iff.mp h
  exact store_length hstore

/-- `char b[n]`. -/
structure CharArray (n : ℕ) where
  bytes : List UInt8
  size : bytes.length = n

namespace CharArray
variable {n : ℕ} {b : CharArray n} {s t : List UInt8}

/-- The string in the array. -/
def str (b : CharArray n) : Option (List UInt8) := Buffers.str b.bytes

/-- `strcpy(b, s)`. -/
def strcpy (b : CharArray n) (s : List UInt8) : Option (CharArray n) :=
  (Buffers.strcpy b.bytes s).pmap CharArray.mk fun _ h => (store_length h).trans b.size

/-- `strcat(b, s)`. -/
def strcat (b : CharArray n) (s : List UInt8) : Option (CharArray n) :=
  (Buffers.strcat b.bytes s).pmap CharArray.mk fun _ h => (strcat_length h).trans b.size

theorem strcpy_some (b : CharArray n) (hs : 0 ∉ s) (h : s.length < n) :
    ∃ c, b.strcpy s = some c ∧ c.str = some s := by
  have hcopy := strcpy_eq (b := b.bytes) (s := s) (by rwa [b.size])
  exact ⟨⟨_, (store_length hcopy).trans b.size⟩, Option.pmap_eq_some_iff.mpr ⟨_, _, hcopy, rfl⟩,
    str_append hs _⟩

theorem strcpy_none (b : CharArray n) (h : n ≤ s.length) : b.strcpy s = none := by
  have hcopy : Buffers.strcpy b.bytes s = none := by
    rw [Buffers.strcpy, store, if_neg (by simp [b.size]; omega)]
  exact Option.pmap_eq_none_iff.mpr hcopy

theorem strcat_some (hb : b.str = some s) (ht : 0 ∉ t) (h : s.length + t.length < n) :
    ∃ c, b.strcat t = some c ∧ c.str = some (s ++ t) := by
  obtain ⟨r, hr, hs⟩ := str_eq_some_iff.mp hb
  have hlen : t.length ≤ r.length := by
    have hsize := b.size
    rw [hr, List.length_append, List.length_cons] at hsize
    omega
  have hcat : Buffers.strcat b.bytes t = some (s ++ t ++ 0 :: r.drop t.length) := by
    rw [hr]
    exact strcat_eq hs hlen
  have hst : 0 ∉ s ++ t := by
    rw [List.mem_append, not_or]
    exact ⟨hs, ht⟩
  exact ⟨⟨_, (strcat_length hcat).trans b.size⟩, Option.pmap_eq_some_iff.mpr ⟨_, _, hcat, rfl⟩,
    str_append hst _⟩

theorem strcat_none (hb : b.str = some s) (h : n ≤ s.length + t.length) : b.strcat t = none := by
  have hcat : Buffers.strcat b.bytes t = none := by
    rw [Buffers.strcat, show Buffers.str b.bytes = some s from hb, Option.bind_some, store,
      if_neg (by simp [b.size]; omega)]
  exact Option.pmap_eq_none_iff.mpr hcat

end CharArray

end Buffers

end Carroll
