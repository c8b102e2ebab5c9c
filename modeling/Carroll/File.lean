import Mathlib.Tactic

/-! # Reading and writing a file

The content of a file is a list of bytes.  `fread` and `fwrite` are a positioned `read` and
`write` together with the test `<= 0` that follows every call: `fread` fails when the call
returns `-1` or no byte, and so does `fwrite`.  A call transfers fewer bytes than asked for when
its `Transfer` says so; a write past the end fills the gap with zero bytes. -/

namespace Carroll

/-- The outcome of a `read` or `write`: `none` is `-1`, `some k` transfers at most `k` bytes. -/
abbrev Transfer := Option ℕ

/-- The most that one call transfers. -/
def maxTransfer : ℕ := 0x7ffff000

/-- The call transfers `n` bytes when that many are asked for. -/
def Transfer.Covers (t : Transfer) (n : ℕ) : Prop := ∃ k, t = some k ∧ n ≤ k

/-- The call transfers all it can. -/
abbrev Transfer.Full (t : Transfer) : Prop := t.Covers maxTransfer

/-- Overwrite `file` with `data` from position `off` on. -/
def writeAt (file : List UInt8) (off : ℕ) (data : List UInt8) : List UInt8 :=
  if data = [] then file
  else file.take off ++ List.replicate (off - file.length) 0 ++ data ++ file.drop (off + data.length)

/-- `read` of `n` bytes at position `off`; `none` when it returns `0` or less. -/
def fread (file : List UInt8) (off n : ℕ) (t : Transfer) : Option (List UInt8) :=
  match t with
  | none => none
  | some k =>
      let data := (file.drop off).take (min n k)
      if data = [] then none else some data

/-- `write` of `data` at position `off`: the file afterwards, and whether it returned more than
`0`. -/
def fwrite (file : List UInt8) (off : ℕ) (data : List UInt8) (t : Transfer) : List UInt8 × Bool :=
  match t with
  | none => (file, false)
  | some k => (writeAt file off (data.take k), decide (data.take k ≠ []))

theorem Transfer.Covers.mono {t : Transfer} {m n : ℕ} (h : t.Covers n) (hmn : m ≤ n) : t.Covers m := by
  obtain ⟨k, hk, hn⟩ := h
  exact ⟨k, hk, hmn.trans hn⟩

theorem writeAt_end (file data : List UInt8) : writeAt file file.length data = file ++ data := by
  unfold writeAt
  by_cases h : data = []
  · simp [h]
  · rw [if_neg h, List.take_length, Nat.sub_self, List.drop_eq_nil_of_le (by omega)]
    simp

theorem writeAt_nil (off : ℕ) {data : List UInt8} (h : data ≠ []) :
    writeAt [] off data = List.replicate off 0 ++ data := by
  simp [writeAt, h]

/-- A write leaves what is before its offset. -/
theorem writeAt_take {file : List UInt8} {off n : ℕ} (hoff : n ≤ off) (hlen : n ≤ file.length)
    (data : List UInt8) : (writeAt file off data).take n = file.take n := by
  unfold writeAt
  split_ifs
  · rfl
  · have htake : n ≤ (file.take off).length := by
      rw [List.length_take]
      exact le_min hoff hlen
    rw [List.append_assoc, List.append_assoc, List.take_append_of_le_length htake, List.take_take,
      Nat.min_eq_left hoff]

theorem fwrite_full (file : List UInt8) (off : ℕ) {data : List UInt8} {t : Transfer}
    (ht : t.Covers data.length) (hd : data ≠ []) :
    fwrite file off data t = (writeAt file off data, true) := by
  obtain ⟨k, rfl, hk⟩ := ht
  rw [fwrite, List.take_of_length_le hk]
  simp [hd]

theorem length_fread_le {file data : List UInt8} {off n : ℕ} {t : Transfer}
    (h : fread file off n t = some data) : data.length ≤ n := by
  unfold fread at h
  cases t with
  | none => simp at h
  | some k =>
      simp only [Option.ite_none_left_eq_some, Option.some.injEq] at h
      rw [← h.2]
      exact (List.length_take_le _ _).trans (Nat.min_le_left n k)

/-- A read within the rest `d` of a file. -/
theorem fread_take (a : List UInt8) {d : List UInt8} {n : ℕ} {t : Transfer} (ht : t.Full)
    (hd : d ≠ []) (hn : 0 < n) :
    ∃ k, min n maxTransfer ≤ k ∧ k ≤ n ∧ fread (a ++ d) a.length n t = some (d.take k) := by
  obtain ⟨k, rfl, hk⟩ := ht
  have hne : d.take (min n k) ≠ [] := by
    rw [← List.length_pos_iff] at hd ⊢
    rw [List.length_take]
    unfold maxTransfer at hk
    omega
  refine ⟨min n k, min_le_min_left n hk, Nat.min_le_left n k, ?_⟩
  rw [fread, List.drop_left]
  exact if_neg hne

/-- Reading back a part of the file. -/
theorem fread_part (a d : List UInt8) {b : List UInt8} {t : Transfer} (ht : t.Covers b.length)
    (hb : b ≠ []) : fread (a ++ b ++ d) a.length b.length t = some b := by
  obtain ⟨k, rfl, hk⟩ := ht
  rw [fread, Nat.min_eq_left hk, List.append_assoc, List.drop_left, List.take_left]
  exact if_neg hb

end Carroll
