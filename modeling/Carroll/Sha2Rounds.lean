import Mathlib.Data.List.GetD
import Carroll.Sha256

/-! # The compression functions of `sha2.c`

`SHA256_Transform` and `SHA512_Transform` are the same rounds over words of two sizes, so the
rounds are given once, for a `ShaRounds` of functions and constants.  `compress` is the loop form:
eight variables that move by one place in every round, over an array `W256[16]` that is indexed
modulo 16.

With `SHA2_UNROLL_TRANSFORM` the file has another form: the variables stay where they are, and the
eight lines of a loop body name them in rotated order, `(a,b,…,h)`, `(h,a,…,g)` and so on.

Both compute the rounds over the message schedule, `standard`.  What they share is the array: before
round `j` it `HasWords` of the sixteen rounds before, whatever it held at the start. -/

namespace Carroll

/-- The variables `a … h` of the rounds, also the intermediate state. -/
structure Registers (ω : Type) where
  a : ω
  b : ω
  c : ω
  d : ω
  e : ω
  f : ω
  g : ω
  h : ω

/-- What the rounds of one word size use. -/
structure ShaRounds (ω : Type) where
  bigSigma0 : ω → ω
  bigSigma1 : ω → ω
  smallSigma0 : ω → ω
  smallSigma1 : ω → ω
  table : List ω
  /-- The second loop makes this many times eight rounds. -/
  bodies : ℕ

variable {ω : Type} [Add ω] [AndOp ω] [XorOp ω] [Complement ω] [OfNat ω (nat_lit 0)]

/-- `Ch`. -/
def shaCh (x y z : ω) : ω := (x &&& y) ^^^ (~~~x &&& z)

/-- `Maj`. -/
def shaMaj (x y z : ω) : ω := (x &&& y) ^^^ (x &&& z) ^^^ (y &&& z)

namespace ShaRounds

variable (P : ShaRounds ω)

/-- The variables after round `j` with the word `w`. -/
def round (w : ω) (r : Registers ω) (j : ℕ) : Registers ω :=
  let t1 := r.h + P.bigSigma1 r.e + shaCh r.e r.f r.g + P.table.getD j 0 + w
  let t2 := P.bigSigma0 r.a + shaMaj r.a r.b r.c
  ⟨t1 + t2, r.a, r.b, r.c, r.d + t1, r.e, r.f, r.g⟩

/-- A round of the first loop. -/
def loadStep (words : List ω) (s : Registers ω × List ω) (j : ℕ) : Registers ω × List ω :=
  let w := words.getD j 0
  (P.round w s.1 j, s.2.set j w)

/-- A round of the second loop. -/
def expandStep (s : Registers ω × List ω) (j : ℕ) : Registers ω × List ω :=
  let s0 := P.smallSigma0 (s.2.getD ((j + 1) % 16) 0)
  let s1 := P.smallSigma1 (s.2.getD ((j + 14) % 16) 0)
  let w := s.2.getD (j % 16) 0 + (s1 + s.2.getD ((j + 9) % 16) 0 + s0)
  (P.round w s.1 j, s.2.set (j % 16) w)

/-- The state after a block is added to the one before it. -/
def addTo (s r : Registers ω) : Registers ω :=
  ⟨s.a + r.a, s.b + r.b, s.c + r.c, s.d + r.d, s.e + r.e, s.f + r.f, s.g + r.g, s.h + r.h⟩

/-- The loop form of `SHA256_Transform(state, data)`; the array, which is not set at the start, has
zeros here. -/
def compress (s : Registers ω) (words : List ω) : Registers ω :=
  let l := (List.range 16).foldl (P.loadStep words) (s, List.replicate 16 0)
  addTo s ((List.range' 16 (8 * P.bodies)).foldl P.expandStep l).1

end ShaRounds

/-! ### The unrolled form -/

/-- The variables of the unrolled form: `a … h` in this order, `W256` and `j`. -/
structure Locals (ω : Type) where
  var : ℕ → ω
  w : ℕ → ω
  j : ℕ

/-- The variable that line `i` of a loop body names at place `x` of its arguments. -/
def lineArg (i x : ℕ) : ℕ := (x + 8 - i) % 8

namespace ShaRounds

variable (P : ShaRounds ω)

/-- What both macros do with the arguments of line `i` once `W256` has the word. -/
def mix (l : Locals ω) (i : ℕ) (word : ω) : Locals ω :=
  let v (x : ℕ) : ω := l.var (lineArg i x)
  let t1 := v 7 + P.bigSigma1 (v 4) + shaCh (v 4) (v 5) (v 6) + P.table.getD l.j 0 + word
  let var := Function.update l.var (lineArg i 3) (v 3 + t1)
  { l with
    var := Function.update var (lineArg i 7) (t1 + P.bigSigma0 (v 0) + shaMaj (v 0) (v 1) (v 2))
    j := l.j + 1 }

/-- `ROUND256_0_TO_15` as line `i`. -/
def loadLine (words : List ω) (l : Locals ω) (i : ℕ) : Locals ω :=
  let word := words.getD l.j 0
  P.mix { l with w := Function.update l.w l.j word } i word

/-- `ROUND256` as line `i`. -/
def expandLine (l : Locals ω) (i : ℕ) : Locals ω :=
  let s0 := P.smallSigma0 (l.w ((l.j + 1) % 16))
  let s1 := P.smallSigma1 (l.w ((l.j + 14) % 16))
  let word := l.w (l.j % 16) + (s1 + l.w ((l.j + 9) % 16) + s0)
  P.mix { l with w := Function.update l.w (l.j % 16) word } i word

/-- The eight lines of a loop body. -/
def body (line : Locals ω → ℕ → Locals ω) (l : Locals ω) : Locals ω :=
  (List.range 8).foldl line l

/-- The eight variables of a state. -/
def load (s : Registers ω) (x : ℕ) : ω :=
  match x with
  | 0 => s.a
  | 1 => s.b
  | 2 => s.c
  | 3 => s.d
  | 4 => s.e
  | 5 => s.f
  | 6 => s.g
  | _ => s.h

/-- The state in eight variables. -/
def registers (v : ℕ → ω) : Registers ω := ⟨v 0, v 1, v 2, v 3, v 4, v 5, v 6, v 7⟩

/-- `SHA256_Transform(state, data)` under `SHA2_UNROLL_TRANSFORM`; `w` is what `W256` holds at
the start.  `j` grows by eight in every body, so the first loop makes two of them. -/
def unrolled (w : ℕ → ω) (s : Registers ω) (words : List ω) : Registers ω :=
  let l := (body (P.loadLine words))^[2] ⟨load s, w, 0⟩
  let l := (body P.expandLine)^[P.bodies] l
  addTo s (registers l.var)

/-! ### The message schedule -/

/-- The words of all rounds: those of the block, and then each from four before it. -/
def schedule (P : ShaRounds ω) (words : List ω) (t : ℕ) : ω :=
  if t < 16 then words.getD t 0
  else schedule P words (t - 16) + (P.smallSigma1 (schedule P words (t - 2)) +
    schedule P words (t - 7) + P.smallSigma0 (schedule P words (t - 15)))
termination_by t

/-- The first `n` rounds over the schedule. -/
def rounds (words : List ω) (n : ℕ) (s : Registers ω) : Registers ω :=
  (List.range n).foldl (fun r j => P.round (P.schedule words j) r j) s

/-- A block by its schedule, with no array. -/
def standard (s : Registers ω) (words : List ω) : Registers ω :=
  addTo s (P.rounds words (8 * (2 + P.bodies)) s)

theorem rounds_succ (words : List ω) (n : ℕ) (s : Registers ω) :
    P.rounds words (n + 1) s = P.round (P.schedule words n) (P.rounds words n s) n := by
  rw [rounds, List.range_succ, List.foldl_append]
  rfl

/-- Before round `j` an array of sixteen words has those of the last sixteen rounds, each in its
place. -/
def HasWords (words : List ω) (w : ℕ → ω) (j : ℕ) : Prop :=
  ∀ i < j, j ≤ i + 16 → w (i % 16) = P.schedule words i

variable {P} {words : List ω} {w w' : ℕ → ω} {j : ℕ}

omit [AndOp ω] [XorOp ω] [Complement ω] in
theorem hasWords_zero : P.HasWords words w 0 := fun i hi => absurd hi (Nat.not_lt_zero i)

omit [AndOp ω] [XorOp ω] [Complement ω] in
/-- The word of the round takes the place of the one sixteen rounds before. -/
theorem HasWords.next (h : P.HasWords words w j) (hword : w' (j % 16) = P.schedule words j)
    (hother : ∀ k < 16, k ≠ j % 16 → w' k = w k) : P.HasWords words w' (j + 1) := by
  intro i hi hle
  by_cases hij : i = j
  · rw [hij, hword]
  · rw [hother _ (Nat.mod_lt i (by norm_num)) (by omega)]
    exact h i (by omega) (by omega)

omit [AndOp ω] [XorOp ω] [Complement ω] in
theorem HasWords.load (hj : j < 16) : words.getD j 0 = P.schedule words j := by
  rw [schedule, if_pos hj]

omit [AndOp ω] [XorOp ω] [Complement ω] in
/-- The four words of the expansion stand where they are looked for. -/
theorem HasWords.expand (h : P.HasWords words w j) (hj : 16 ≤ j) :
    w (j % 16) + (P.smallSigma1 (w ((j + 14) % 16)) + w ((j + 9) % 16) +
      P.smallSigma0 (w ((j + 1) % 16))) = P.schedule words j := by
  have hat {k i : ℕ} (hk : k % 16 = i % 16) (hi : i < j) (hle : j ≤ i + 16) :
      w (k % 16) = P.schedule words i := by rw [hk, h i hi hle]
  have h16 : w (j % 16) = P.schedule words (j - 16) := hat (by omega) (by omega) (by omega)
  have h2 : w ((j + 14) % 16) = P.schedule words (j - 2) := hat (by omega) (by omega) (by omega)
  have h7 : w ((j + 9) % 16) = P.schedule words (j - 7) := hat (by omega) (by omega) (by omega)
  have h15 : w ((j + 1) % 16) = P.schedule words (j - 15) := hat (by omega) (by omega) (by omega)
  rw [schedule, if_neg hj.not_gt, h16, h2, h7, h15]

/-! ### The loop form -/

/-- Before round `j` of the loop form that started with the state `s₀`. -/
structure AtRound (P : ShaRounds ω) (words : List ω) (s₀ : Registers ω) (j : ℕ)
    (s : Registers ω × List ω) : Prop where
  vars : s.1 = P.rounds words j s₀
  length : s.2.length = 16
  hasWords : P.HasWords words (fun k => s.2.getD k 0) j

variable {s₀ : Registers ω} {s : Registers ω × List ω}

theorem AtRound.next (h : AtRound P words s₀ j s) {x : ω} (hx : x = P.schedule words j) :
    AtRound P words s₀ (j + 1) (P.round x s.1 j, s.2.set (j % 16) x) where
  vars := by rw [rounds_succ, h.vars, hx]
  length := by rw [List.length_set, h.length]
  hasWords := by
    have hlt : j % 16 < s.2.length := by
      rw [h.length]
      exact Nat.mod_lt j (by norm_num)
    apply h.hasWords.next
    · rw [List.getD_eq_getElem _ _ (by rwa [List.length_set]), List.getElem_set_self, hx]
    · intro k _ hne
      simp only [List.getD_eq_getElem?_getD, List.getElem?_set_ne hne.symm]

theorem AtRound.load (h : AtRound P words s₀ j s) (hj : j < 16) :
    AtRound P words s₀ (j + 1) (P.loadStep words s j) := by
  have hnext := h.next (HasWords.load hj)
  rwa [Nat.mod_eq_of_lt hj] at hnext

theorem AtRound.expand (h : AtRound P words s₀ j s) (hj : 16 ≤ j) :
    AtRound P words s₀ (j + 1) (P.expandStep s j) := h.next (h.hasWords.expand hj)

theorem atRound_loads {n : ℕ} (hn : n ≤ 16) (s : Registers ω) :
    AtRound P words s n
      ((List.range n).foldl (P.loadStep words) (s, List.replicate 16 0)) := by
  induction n with
  | zero => exact ⟨rfl, List.length_replicate, hasWords_zero⟩
  | succ n ih =>
      rw [List.range_succ, List.foldl_append]
      exact (ih (by omega)).load hn

theorem atRound_expands (h : AtRound P words s₀ 16 s) (n : ℕ) :
    AtRound P words s₀ (16 + n) ((List.range' 16 n).foldl P.expandStep s) := by
  induction n with
  | zero => exact h
  | succ n ih =>
      rw [List.range'_concat, List.foldl_append, one_mul]
      exact ih.expand (by omega)

/-- The loop form is the block by its schedule. -/
theorem compress_eq_standard (s : Registers ω) (words : List ω) :
    P.compress s words = P.standard s words := by
  have hrounds : 8 * (2 + P.bodies) = 16 + 8 * P.bodies := by omega
  rw [compress, (atRound_expands (atRound_loads le_rfl s) (8 * P.bodies)).vars, standard, hrounds]

/-! ### The unrolled form computes the same -/

theorem lineArg_zero (j : ℕ) : lineArg ((j + 1) % 8) 0 = lineArg (j % 8) 7 := by
  unfold lineArg
  omega

theorem lineArg_succ (j x : ℕ) : lineArg ((j + 1) % 8) (x + 1) = lineArg (j % 8) x := by
  unfold lineArg
  omega

theorem lineArg_inj (j x y : ℕ) : lineArg (j % 8) x = lineArg (j % 8) y ↔ x % 8 = y % 8 := by
  unfold lineArg
  omega

/-- Before a line the variables, in the order in which it names them, are those of the rounds so
far. -/
structure Agrees (P : ShaRounds ω) (words : List ω) (s₀ : Registers ω) (l : Locals ω) : Prop where
  vars : (registers fun x => l.var (lineArg (l.j % 8) x)) = P.rounds words l.j s₀
  hasWords : P.HasWords words l.w l.j

variable {l : Locals ω}

/-- One line leaves the variables of one round, named one place further. -/
theorem registers_mix (hassoc : ∀ x y z : ω, x + y + z = x + (y + z)) (l : Locals ω) (word : ω) :
    (registers fun x => (P.mix l (l.j % 8) word).var (lineArg ((l.j + 1) % 8) x)) =
      P.round word (registers fun x => l.var (lineArg (l.j % 8) x)) l.j := by
  simp [registers, mix, round, lineArg_zero, lineArg_succ, lineArg_inj, hassoc]

/-- A line that has the word of its round. -/
theorem Agrees.mix (hassoc : ∀ x y z : ω, x + y + z = x + (y + z)) (h : Agrees P words s₀ l)
    {x : ω} (hx : x = P.schedule words l.j) :
    Agrees P words s₀
      (P.mix { l with w := Function.update l.w (l.j % 16) x } (l.j % 8) x) where
  vars := by
    have hround := registers_mix (P := P) hassoc
      { l with w := Function.update l.w (l.j % 16) x } x
    rw [h.vars, hx, ← rounds_succ, ← hx] at hround
    exact hround
  hasWords := by
    apply h.hasWords.next
    · exact (Function.update_self ..).trans hx
    · intro k _ hne
      exact Function.update_of_ne hne ..

theorem Agrees.load (hassoc : ∀ x y z : ω, x + y + z = x + (y + z)) (h : Agrees P words s₀ l)
    (hj : l.j < 16) : Agrees P words s₀ (P.loadLine words l (l.j % 8)) := by
  have hnext := h.mix hassoc (HasWords.load hj)
  rwa [Nat.mod_eq_of_lt hj] at hnext

theorem Agrees.expand (hassoc : ∀ x y z : ω, x + y + z = x + (y + z)) (h : Agrees P words s₀ l)
    (hj : 16 ≤ l.j) : Agrees P words s₀ (P.expandLine l (l.j % 8)) :=
  h.mix hassoc (h.hasWords.expand hj)

/-- A line that does what a round does, for the values of `j` from `lo` below `hi`. -/
def LineSteps (P : ShaRounds ω) (words : List ω) (s₀ : Registers ω) (lo hi : ℕ)
    (line : Locals ω → ℕ → Locals ω) : Prop :=
  ∀ l, Agrees P words s₀ l → lo ≤ l.j → l.j < hi →
    Agrees P words s₀ (line l (l.j % 8)) ∧ (line l (l.j % 8)).j = l.j + 1

variable {line : Locals ω → ℕ → Locals ω} {lo hi : ℕ}

/-- The first `n` lines of a body that starts at a multiple of eight. -/
theorem agrees_lines (hline : LineSteps P words s₀ lo hi line) (h : Agrees P words s₀ l)
    (h8 : l.j % 8 = 0) (hlo : lo ≤ l.j) (hhi : l.j + 8 ≤ hi) {n : ℕ} (hn : n ≤ 8) :
    Agrees P words s₀ ((List.range n).foldl line l) ∧
      ((List.range n).foldl line l).j = l.j + n := by
  induction n with
  | zero => exact ⟨h, rfl⟩
  | succ n ih =>
      obtain ⟨hagrees, hj⟩ := ih (by omega)
      have hnext := hline _ hagrees (by omega) (by omega)
      rw [hj, show (l.j + n) % 8 = n by omega] at hnext
      rw [List.range_succ, List.foldl_append]
      exact hnext

/-- `n` bodies, eight rounds each. -/
theorem agrees_bodies (hline : LineSteps P words s₀ lo hi line) (h : Agrees P words s₀ l)
    (h8 : l.j % 8 = 0) (hlo : lo ≤ l.j) {n : ℕ} (hhi : l.j + 8 * n ≤ hi) :
    Agrees P words s₀ ((body line)^[n] l) ∧ ((body line)^[n] l).j = l.j + 8 * n := by
  induction n with
  | zero => exact ⟨h, rfl⟩
  | succ n ih =>
      obtain ⟨hagrees, hj⟩ := ih (by omega)
      have hnext := agrees_lines hline hagrees (by omega) (by omega) (by omega) (n := 8) le_rfl
      rw [Function.iterate_succ_apply']
      exact ⟨hnext.1, hnext.2.trans (by omega)⟩

theorem agrees_start (w : ℕ → ω) (s : Registers ω) : Agrees P words s ⟨load s, w, 0⟩ where
  vars := by simp [registers, lineArg, load, rounds]
  hasWords := hasWords_zero

/-- The unrolled form computes the block by its schedule, whatever `W256` held before. -/
theorem unrolled_eq_standard (hassoc : ∀ x y z : ω, x + y + z = x + (y + z)) (w : ℕ → ω)
    (s : Registers ω) (words : List ω) : P.unrolled w s words = P.standard s words := by
  have hload : LineSteps P words s 0 16 (P.loadLine words) := fun l h _ hj =>
    ⟨h.load hassoc hj, rfl⟩
  have hexpand : LineSteps P words s 16 (16 + 8 * P.bodies) P.expandLine := fun l h hj _ =>
    ⟨h.expand hassoc hj, rfl⟩
  obtain ⟨hfirst, hj⟩ := agrees_bodies hload (agrees_start w s) rfl (Nat.zero_le _)
    (n := 2) le_rfl
  simp only [Nat.reduceMul, zero_add] at hfirst hj
  obtain ⟨hlast, hj'⟩ := agrees_bodies hexpand hfirst (by rw [hj]) (by rw [hj])
    (n := P.bodies) (by rw [hj])
  have hvars := hlast.vars
  have hrounds : 8 * (2 + P.bodies) = 16 + 8 * P.bodies := by omega
  rw [hj', hj, show (16 + 8 * P.bodies) % 8 = 0 by omega] at hvars
  rw [standard, hrounds, ← hvars]
  rfl

end ShaRounds

/-! ### The two sizes -/

/-- The rounds of SHA-256. -/
def rounds256 : ShaRounds UInt32 :=
  ⟨bigSigma0, bigSigma1, smallSigma0, smallSigma1, sha256Table, 6⟩

/-- `S64(b, x)`. -/
def shaRotate64 (b x : UInt64) : UInt64 := (x >>> b) ||| (x <<< (64 - b))

/-- `K512`. -/
def sha512Table : List UInt64 :=
  [0x428a2f98d728ae22, 0x7137449123ef65cd, 0xb5c0fbcfec4d3b2f, 0xe9b5dba58189dbbc,
   0x3956c25bf348b538, 0x59f111f1b605d019, 0x923f82a4af194f9b, 0xab1c5ed5da6d8118,
   0xd807aa98a3030242, 0x12835b0145706fbe, 0x243185be4ee4b28c, 0x550c7dc3d5ffb4e2,
   0x72be5d74f27b896f, 0x80deb1fe3b1696b1, 0x9bdc06a725c71235, 0xc19bf174cf692694,
   0xe49b69c19ef14ad2, 0xefbe4786384f25e3, 0x0fc19dc68b8cd5b5, 0x240ca1cc77ac9c65,
   0x2de92c6f592b0275, 0x4a7484aa6ea6e483, 0x5cb0a9dcbd41fbd4, 0x76f988da831153b5,
   0x983e5152ee66dfab, 0xa831c66d2db43210, 0xb00327c898fb213f, 0xbf597fc7beef0ee4,
   0xc6e00bf33da88fc2, 0xd5a79147930aa725, 0x06ca6351e003826f, 0x142929670a0e6e70,
   0x27b70a8546d22ffc, 0x2e1b21385c26c926, 0x4d2c6dfc5ac42aed, 0x53380d139d95b3df,
   0x650a73548baf63de, 0x766a0abb3c77b2a8, 0x81c2c92e47edaee6, 0x92722c851482353b,
   0xa2bfe8a14cf10364, 0xa81a664bbc423001, 0xc24b8b70d0f89791, 0xc76c51a30654be30,
   0xd192e819d6ef5218, 0xd69906245565a910, 0xf40e35855771202a, 0x106aa07032bbd1b8,
   0x19a4c116b8d2d0c8, 0x1e376c085141ab53, 0x2748774cdf8eeb99, 0x34b0bcb5e19b48a8,
   0x391c0cb3c5c95a63, 0x4ed8aa4ae3418acb, 0x5b9cca4f7763e373, 0x682e6ff3d6b2b8a3,
   0x748f82ee5defb2fc, 0x78a5636f43172f60, 0x84c87814a1f0ab72, 0x8cc702081a6439ec,
   0x90befffa23631e28, 0xa4506cebde82bde9, 0xbef9a3f7b2c67915, 0xc67178f2e372532b,
   0xca273eceea26619c, 0xd186b8c721c0c207, 0xeada7dd6cde0eb1e, 0xf57d4f7fee6ed178,
   0x06f067aa72176fba, 0x0a637dc5a2c898a6, 0x113f9804bef90dae, 0x1b710b35131c471b,
   0x28db77f523047d84, 0x32caab7b40c72493, 0x3c9ebe0a15c9bebc, 0x431d67c49c100d4c,
   0x4cc5d4becb3e42b6, 0x597f299cfc657e2a, 0x5fcb6fab3ad6faec, 0x6c44198c4a475817]

/-- `Sigma0_512`, `Sigma1_512`, `sigma0_512`, `sigma1_512` and `K512`. -/
def rounds512 : ShaRounds UInt64 where
  bigSigma0 x := shaRotate64 28 x ^^^ shaRotate64 34 x ^^^ shaRotate64 39 x
  bigSigma1 x := shaRotate64 14 x ^^^ shaRotate64 18 x ^^^ shaRotate64 41 x
  smallSigma0 x := shaRotate64 1 x ^^^ shaRotate64 8 x ^^^ (x >>> 7)
  smallSigma1 x := shaRotate64 19 x ^^^ shaRotate64 61 x ^^^ (x >>> 6)
  table := sha512Table
  bodies := 8

/-- `sha512_initial_hash_value`. -/
def sha512Initial : Registers UInt64 :=
  ⟨0x6a09e667f3bcc908, 0xbb67ae8584caa73b, 0x3c6ef372fe94f82b, 0xa54ff53a5f1d36f1,
   0x510e527fade682d1, 0x9b05688c2b3e6c1f, 0x1f83d9abfb41bd6b, 0x5be0cd19137e2179⟩

/-- The sixteen big-endian words of a block of 128 bytes. -/
def sha512Words (block : List UInt8) : List UInt64 :=
  (List.range 16).map fun i =>
    let byte (j : ℕ) : UInt64 := (block.getD (8 * i + j) 0).toUInt64
    byte 7 ||| (byte 6 <<< 8) ||| (byte 5 <<< 16) ||| (byte 4 <<< 24) |||
      (byte 3 <<< 32) ||| (byte 2 <<< 40) ||| (byte 1 <<< 48) ||| (byte 0 <<< 56)

/-- `SHA512_Transform(state, data)`. -/
def sha512Transform (s : Registers UInt64) (block : List UInt8) : Registers UInt64 :=
  rounds512.compress s (sha512Words block)

/-- `SHA512_Transform` under `SHA2_UNROLL_TRANSFORM`. -/
def sha512TransformUnrolled (w : ℕ → UInt64) (s : Registers UInt64) (block : List UInt8) :
    Registers UInt64 :=
  rounds512.unrolled w s (sha512Words block)

/-- The state of `SHA256_CTX` as the variables of the rounds. -/
def ShaState.registers (s : ShaState) : Registers UInt32 := ⟨s.a, s.b, s.c, s.d, s.e, s.f, s.g, s.h⟩

/-- `SHA256_Transform` under `SHA2_UNROLL_TRANSFORM`. -/
def shaTransformUnrolled (w : ℕ → UInt32) (s : ShaState) (block : List UInt8) : ShaState :=
  let r := rounds256.unrolled w s.registers (shaWords block)
  ⟨r.a, r.b, r.c, r.d, r.e, r.f, r.g, r.h⟩

theorem shaTransform_registers (s : ShaState) (block : List UInt8) :
    (shaTransform s block).registers = rounds256.compress s.registers (shaWords block) := by
  let view (s : ShaState × List UInt32) : Registers UInt32 × List UInt32 := (s.1.registers, s.2)
  have hload : ∀ s j, rounds256.loadStep (shaWords block) (view s) j =
      view (shaLoad (shaWords block) s j) := fun _ _ => rfl
  have hexpand : ∀ s j, rounds256.expandStep (view s) j = view (shaExpand s j) := fun _ _ => rfl
  have hfirst : (List.range 16).foldl (rounds256.loadStep (shaWords block))
        (view (s, List.replicate 16 0)) =
      view ((List.range 16).foldl (shaLoad (shaWords block)) (s, List.replicate 16 0)) :=
    List.foldl_hom view hload
  have hlast : (List.range' 16 48).foldl rounds256.expandStep
        (view ((List.range 16).foldl (shaLoad (shaWords block)) (s, List.replicate 16 0))) =
      view ((List.range' 16 48).foldl shaExpand
        ((List.range 16).foldl (shaLoad (shaWords block)) (s, List.replicate 16 0))) :=
    List.foldl_hom view hexpand
  rw [← hfirst] at hlast
  exact (congrArg (fun r => ShaRounds.addTo s.registers r.1) hlast).symm

/-- SHA-256: both forms of `SHA256_Transform` are the 64 rounds over the message schedule. -/
theorem shaTransform_forms (w : ℕ → UInt32) (s : ShaState) (block : List UInt8) :
    (shaTransform s block).registers = rounds256.standard s.registers (shaWords block) ∧
      shaTransformUnrolled w s block = shaTransform s block := by
  have hcompress := shaTransform_registers s block
  have hstandard := ShaRounds.compress_eq_standard (P := rounds256) s.registers (shaWords block)
  refine ⟨hcompress.trans hstandard, ?_⟩
  rw [shaTransformUnrolled, ShaRounds.unrolled_eq_standard UInt32.add_assoc, ← hstandard,
    ← hcompress]
  rfl

/-- SHA-512: both forms of `SHA512_Transform` are the 80 rounds over the message schedule. -/
theorem sha512Transform_forms (w : ℕ → UInt64) (s : Registers UInt64) (block : List UInt8) :
    sha512Transform s block = rounds512.standard s (sha512Words block) ∧
      sha512TransformUnrolled w s block = sha512Transform s block := by
  have hstandard := ShaRounds.compress_eq_standard (P := rounds512) s (sha512Words block)
  exact ⟨hstandard,
    (ShaRounds.unrolled_eq_standard UInt64.add_assoc w s (sha512Words block)).trans hstandard.symm⟩

end Carroll
