import Mathlib.Tactic

/-! # `cdigest`: hexadecimal strings in static storage

`cdigest` of `libcrt0.c` writes the first `len / 2` bytes of a digest as upper-case
hexadecimal digits into one of ten static buffers `bufs[10][20]`, taken in turn, and returns
a pointer to that buffer.  The eleventh call hands out the first buffer again, so a pointer
kept by a caller is a name of a buffer whose content later calls replace.

A pointer returned by `cdigest` is modelled by the number of its buffer, and a buffer by the
C string that it holds (the digits are not NUL and `ret[len]` is set to NUL). -/

namespace Carroll

/-- A pointer into `bufs`: the number of the buffer. -/
abbrev CodePtr := Fin 10

/-- The string `f` of `cdigest`. -/
def hexTable : List UInt8 :=
  [0x30, 0x31, 0x32, 0x33, 0x34, 0x35, 0x36, 0x37, 0x38, 0x39, 0x41, 0x42, 0x43, 0x44, 0x45, 0x46]

/-- `f[n & 0xf]`. -/
def hexDigit (n : ℕ) : UInt8 := hexTable.getD (n % 16) 0

/-- The two digits written for one byte. -/
def hexByte (b : UInt8) : List UInt8 := [hexDigit (b.toNat / 16), hexDigit b.toNat]

/-- The digits of a byte string. -/
def hexes (p : List UInt8) : List UInt8 := p.flatMap hexByte

/-- The static variables of `cdigest`. -/
structure Digests where
  bufs : CodePtr → List UInt8
  bnum : Fin 10

/-- `cdigest(p, len)`: the returned pointer and the static variables afterwards. -/
def cdigest (d : Digests) (p : List UInt8) (len : ℕ) : CodePtr × Digests :=
  (d.bnum, { bufs := Function.update d.bufs d.bnum (hexes (p.take (len / 2)))
             bnum := d.bnum + 1 })

@[simp] theorem cdigest_fst (d : Digests) (p : List UInt8) (len : ℕ) :
    (cdigest d p len).1 = d.bnum := rfl

@[simp] theorem cdigest_bnum (d : Digests) (p : List UInt8) (len : ℕ) :
    (cdigest d p len).2.bnum = d.bnum + 1 := rfl

theorem hexDigit_inj {m n : ℕ} (hm : m < 16) (hn : n < 16) (h : hexDigit m = hexDigit n) :
    m = n := by
  revert h
  interval_cases m <;> interval_cases n <;> decide

theorem hexByte_inj {a b : UInt8} (h : hexByte a = hexByte b) : a = b := by
  simp only [hexByte, List.cons.injEq, and_true] at h
  obtain ⟨hhi, hlo⟩ := h
  have ha := a.toNat_lt
  have hb := b.toNat_lt
  have e1 := hexDigit_inj (by omega) (by omega) hhi
  have e2 : a.toNat % 16 = b.toNat % 16 := by
    have : hexDigit (a.toNat % 16) = hexDigit (b.toNat % 16) := by
      simpa [hexDigit] using hlo
    exact hexDigit_inj (Nat.mod_lt _ (by norm_num)) (Nat.mod_lt _ (by norm_num)) this
  apply UInt8.toNat_inj.mp
  omega

/-- Different byte strings have different digits. -/
theorem hexes_injective : Function.Injective hexes := by
  intro p
  induction p with
  | nil =>
      intro q h
      cases q with
      | nil => rfl
      | cons b q => simp [hexes, hexByte] at h
  | cons a p ih =>
      intro q h
      cases q with
      | nil => simp [hexes, hexByte] at h
      | cons b q =>
          simp only [hexes, List.flatMap_cons] at h
          have hlen : (hexByte a).length = (hexByte b).length := rfl
          obtain ⟨h1, h2⟩ := List.append_inj h hlen
          rw [hexByte_inj h1, ih h2]

end Carroll
