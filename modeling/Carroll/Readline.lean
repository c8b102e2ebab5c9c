import Carroll.Lines
import Carroll.Stream

/-! # The work buffers of `_conf_readline`

`_conf_readline` copies the text into `buffer` and takes it apart in place.  A round ends the first
line with a NUL byte, copies what comes after its newline to a block of its own (`str`), hands the
line to `mod` through `sbuf`, and copies the rest back to `buffer`.

* A `$` at the start of a line moves the pointer `buffer` itself, so that the rest is copied to where
  it now points to.  The string at the pointer and its offset in the block are the two parts of the
  state (`text`, `off`).
* The sizes are computed in `uint32_t`, and `emalloc` adds 3 to what it is asked for.
* `_new_str` is not declared where `_conf_readline` calls it, so the pointer to the copy comes back as
  an `int` (`implicitInt`): it is the copy only at an address that this keeps (`Reached`).
* What is read from or written to a block is listed as `Access`es; a read through a pointer to no block
  is an access to no block, and does not return.
* `CLEAN` hands a pointer to `free`: a block and an offset. -/

namespace Carroll

/-- The blocks that `_conf_readline` allocates; `tail i` is the copy that round `i` makes. -/
inductive ReadBlock where
  | buffer
  | sbuf
  | tail (i : ℕ)
deriving DecidableEq, Repr

/-- The state between two rounds. -/
structure ReadState where
  off : ℕ
  text : List UInt8
  calls : List (List UInt8)
  accesses : List Access
  tails : List ReadBlock

/-- How a round ends: it goes on, it returns, or it follows a pointer to no block. -/
inductive ReadStep where
  | next (s : ReadState)
  | unknown (s : ReadState) (ret : ℕ) (released : List (ReadBlock × ℕ))
  | wild (s : ReadState)

/-- A pointer that a function without a declaration returns: the lower half of it, as an `int`. -/
def implicitInt (ptr : ℕ) : ℕ :=
  if u32 ptr < 2 ^ 31 then u32 ptr else 2 ^ 64 - 2 ^ 32 + u32 ptr

/-- The block at the address `ptr` (NULL for none) is reached through the pointer that comes back. -/
def Reached (ptr : ℕ) : Prop := ptr ≠ 0 ∧ implicitInt ptr = ptr

instance (ptr : ℕ) : Decidable (Reached ptr) := inferInstanceAs (Decidable (_ ∧ _))

/-- The accesses that hand a line to `mod`: the NUL byte over a `\r` at the end, `memset` of `sbuf`,
and one `strncat` for each byte that is no space. -/
def modAccesses (length off : ℕ) (line : List UInt8) : List Access :=
  let size := emallocSize (u32 (length + 128))
  (if line.getLast? = some 0x0d then [⟨emallocSize length, off + line.length - 1, 1⟩] else []) ++
    ⟨size, 0, length⟩ :: (List.range (modLine line).length).map fun k => ⟨size, k, 2⟩

/-- `if(buffer[0] == '$') buffer+=1`, after the `\r` was taken off. -/
def modOff (line : List UInt8) : ℕ :=
  if (if line.getLast? = some 0x0d then line.dropLast else line).head? = some 0x24 then 1 else 0

/-- The end of a round: `strcpy(buffer, str)`, for a block of `_new_str` at `ptr`. -/
def copyBack (length ptr : ℕ) (rest : List UInt8) (s : ReadState) : ReadStep :=
  if Reached ptr then
    .next { s with text := rest
                   accesses := s.accesses ++ [⟨emallocSize length, s.off, rest.length + 1⟩] }
  else .wild { s with accesses := s.accesses ++ [⟨0, 0, 1⟩] }

/-- `CLEAN(str); return i+2`, for a block of `_new_str` at `ptr`. -/
def returnUnknown (i ptr : ℕ) (s : ReadState) : ReadStep :=
  if implicitInt ptr = 0 then .unknown s (u32 (i + 2)) []
  else if implicitInt ptr = ptr then .unknown s (u32 (i + 2)) [(.tail i, 0)]
  else .wild { s with accesses := s.accesses ++ [⟨0, 0, 1⟩] }

/-- `str = _new_str(ptr)`, for a block at `ptr`. -/
def newTail (i ptr : ℕ) (rest : List UInt8) (s : ReadState) : ReadState :=
  if ptr ≠ 0 then
    { s with tails := s.tails ++ [.tail i]
             accesses := s.accesses ++ [⟨emallocSize (u32 (rest.length + 2)), 0, rest.length + 1⟩] }
  else s

/-- Round `i`; `ptr` is the address of the block that its `_new_str` allocates, 0 for none. -/
def readRound (length i ptr : ℕ) (s : ReadState) : ReadStep :=
  let size := emallocSize length
  if newline ∉ s.text then .next s
  else
    let line := (splitLine s.text).1
    let rest := (splitLine s.text).2
    let s := newTail i ptr rest s
    let s := { s with accesses := s.accesses ++ [⟨size, s.off + line.length + 1, 1⟩] }
    if 5 < line.length + 1 then
      let s := { s with accesses := s.accesses ++ [⟨size, s.off + line.length, 1⟩] }
      if isSkipped line then copyBack length ptr rest s
      else if 0x3d ∈ line then
        copyBack length ptr rest
          { s with off := s.off + modOff line
                   calls := s.calls ++ [modLine line]
                   accesses := s.accesses ++ modAccesses length s.off line }
      else returnUnknown i ptr s
    else copyBack length ptr rest s

/-- The rounds from number `i` on. -/
def readRounds (length : ℕ) (tail : ℕ → ℕ) : ℕ → ℕ → ReadState → ReadStep
  | 0, _, s => .next s
  | n + 1, i, s =>
      match readRound length i (tail i) s with
      | .next s => readRounds length tail n (i + 1) s
      | step => step

/-- Outcome of the allocations of the two work buffers. -/
structure ReadlineEnv where
  buffer : Bool
  sbuf : Bool

/-- Outcome of all allocations of `_conf_readline`: `tail i` is the address of the block that the
`_new_str` of round `i` gets, 0 for none. -/
structure ReadlineAlloc where
  work : ReadlineEnv
  tail : ℕ → ℕ

/-- What a `_conf_readline` did; `ret` is `none` when it did not return. -/
structure ReadlineTrace where
  ret : Option ℕ
  calls : List (List UInt8)
  accesses : List Access
  allocated : List ReadBlock
  released : List (ReadBlock × ℕ)

/-- `_conf_readline(buff, mod, iserver)` for a non-NULL `mod`. -/
def confReadlineTrace (env : ReadlineAlloc) (buff : List UInt8) : ReadlineTrace :=
  let text := cstr buff
  let length := u32 text.length
  if length = 0 then ⟨some 0, [], [], [], []⟩
  else if !env.work.buffer then ⟨some 0, [], [], [], []⟩
  else if !env.work.sbuf then ⟨some 0, [], [], [.buffer], [(.buffer, 0)]⟩
  else
    let start : ReadState := ⟨0, text, [], [⟨emallocSize length, 0, text.length + 1⟩], []⟩
    match readRounds length env.tail ((text.take length).count newline) 0 start with
    | .next s =>
        ⟨some 1, s.calls, s.accesses, .buffer :: .sbuf :: s.tails, [(.buffer, s.off), (.sbuf, 0)]⟩
    | .unknown s ret released =>
        ⟨some ret, s.calls, s.accesses, .buffer :: .sbuf :: s.tails, released⟩
    | .wild s => ⟨none, s.calls, s.accesses, .buffer :: .sbuf :: s.tails, []⟩

/-! ### One round -/

/-- The state when a round ends. -/
def ReadStep.state : ReadStep → ReadState
  | .next s => s
  | .unknown s _ _ => s
  | .wild s => s

/-- What `mod` is called with for a complete line. -/
def lineCalls (line : List UInt8) : List (List UInt8) :=
  if 5 ≤ line.length ∧ isSkipped line = false ∧ 0x3d ∈ line then [modLine line] else []

/-- The line is neither too short nor a comment. -/
def IsSetting (line : List UInt8) : Prop := 5 ≤ line.length ∧ isSkipped line = false

instance (line : List UInt8) : Decidable (IsSetting line) :=
  inferInstanceAs (Decidable (_ ∧ _))

/-- A line that ends the function. -/
def IsUnknown (line : List UInt8) : Prop := IsSetting line ∧ 0x3d ∉ line

instance (line : List UInt8) : Decidable (IsUnknown line) :=
  inferInstanceAs (Decidable (_ ∧ _))

theorem lineCalls_known {line : List UInt8} (hknown : ¬ IsUnknown line) :
    lineCalls line = if IsSetting line then [modLine line] else [] := by
  unfold lineCalls
  by_cases hset : IsSetting line
  · have heq : 0x3d ∈ line := by
      by_contra heq
      exact hknown ⟨hset, heq⟩
    rw [if_pos hset, if_pos ⟨hset.1, hset.2, heq⟩]
  · rw [if_neg hset, if_neg fun h => hset ⟨h.1, h.2.1⟩]

theorem readlineLoop_line {line : List UInt8} (h : newline ∉ line) (hknown : ¬ IsUnknown line)
    (n : ℕ) (rest : List UInt8) :
    readlineLoop (n + 1) (line ++ newline :: rest) = lineCalls line ++ readlineLoop n rest := by
  rw [readlineLoop, splitLine_append h, lineCalls_known hknown]
  dsimp only
  by_cases h5 : 5 ≤ line.length
  · by_cases hskip : isSkipped line = true
    · simp [IsSetting, hskip]
    · have hset : IsSetting line := ⟨h5, Bool.eq_false_iff.mpr hskip⟩
      have heq : 0x3d ∈ line := by
        by_contra heq
        exact hknown ⟨hset, heq⟩
      rw [if_pos (Nat.lt_succ_of_le h5), if_neg hskip, if_pos heq, if_pos hset]
      rfl
  · rw [if_neg (by omega), if_neg fun hset => h5 hset.1]
    rfl

theorem modOff_le (line : List UInt8) : modOff line ≤ 1 := by
  unfold modOff
  split_ifs <;> norm_num

theorem length_modLine_le (line : List UInt8) : (modLine line).length ≤ line.length := by
  unfold modLine
  refine (List.length_filter_le _ _).trans ?_
  have hcr : ∀ l : List UInt8, (if l.getLast? = some 0x0d then l.dropLast else l).length ≤ l.length := by
    intro l
    split_ifs
    · rw [List.length_dropLast]
      exact Nat.sub_le _ _
    · exact le_rfl
  refine le_trans ?_ (hcr line)
  generalize (if line.getLast? = some 0x0d then line.dropLast else line) = l
  split
  · exact Nat.le_succ _
  · exact le_rfl

/-- `_new_str` copies a tail inside its block when the size of the block does not wrap. -/
theorem tail_fits {n : ℕ} (h : n + 3 < 2 ^ 32) :
    n + 1 ≤ emallocSize (u32 (n + 2)) ↔ n + 5 < 2 ^ 32 := by
  rw [u32_of_lt (by omega)]
  unfold emallocSize u32
  omega

theorem not_inBounds_wild (as : List Access) : ¬ InBounds (as ++ [⟨0, 0, 1⟩]) := by
  intro hin
  have hone := hin ⟨0, 0, 1⟩ (List.mem_append_right _ (List.mem_singleton.mpr rfl))
  exact absurd hone (by norm_num)

theorem copyBack_wild {ptr : ℕ} (hptr : ¬ Reached ptr) (L : ℕ) (rest : List UInt8) (s : ReadState) :
    ∃ s', copyBack L ptr rest s = .wild s' ∧ ¬ InBounds s'.accesses :=
  ⟨_, if_neg hptr, not_inBounds_wild _⟩

/-- A round whose tail is not reached does not return. -/
theorem readRound_wild {s : ReadState} {line rest : List UInt8} {L i ptr : ℕ} (hptr : ¬ Reached ptr)
    (htext : s.text = line ++ newline :: rest) (hline : newline ∉ line) (hknown : ¬ IsUnknown line) :
    ∃ s', readRound L i ptr s = .wild s' ∧ ¬ InBounds s'.accesses := by
  have hmem : ¬ newline ∉ s.text := by simp [htext]
  unfold readRound
  rw [if_neg hmem, htext, splitLine_append hline]
  dsimp only
  split_ifs with h5 hskip heq
  · exact copyBack_wild hptr ..
  · exact copyBack_wild hptr ..
  · exact absurd ⟨⟨Nat.lt_succ_iff.mp h5, Bool.eq_false_iff.mpr hskip⟩, heq⟩ hknown
  · exact copyBack_wild hptr ..

theorem newTail_of_reached {ptr : ℕ} (hptr : Reached ptr) (i : ℕ) (rest : List UInt8)
    (s : ReadState) : newTail i ptr rest s =
      ⟨s.off, s.text, s.calls,
        s.accesses ++ [⟨emallocSize (u32 (rest.length + 2)), 0, rest.length + 1⟩],
        s.tails ++ [.tail i]⟩ := if_pos hptr.1

theorem newTail_accesses (i ptr : ℕ) (rest : List UInt8) (s : ReadState) :
    s.accesses <+: (newTail i ptr rest s).accesses ∧
      (ptr ≠ 0 → (newTail i ptr rest s).tails = s.tails ++ [.tail i]) := by
  unfold newTail
  split_ifs with hptr
  · exact ⟨List.prefix_append _ _, fun _ => rfl⟩
  · exact ⟨List.prefix_rfl, fun h => absurd h hptr⟩

section
variable {L : ℕ} (hL : L + 3 < 2 ^ 32)

include hL

/-- Handing a line to `mod` stays inside the blocks when the size of `sbuf` does not wrap. -/
theorem inBounds_modAccesses {off : ℕ} {line : List UInt8} (h5 : 5 ≤ line.length)
    (hoff : off + line.length < L) : InBounds (modAccesses L off line) ↔ L + 131 < 2 ^ 32 := by
  have hmod := length_modLine_le line
  have hcr : InBounds (if line.getLast? = some 0x0d then
      [⟨emallocSize L, off + line.length - 1, 1⟩] else []) := by
    split_ifs
    · rw [inBounds_cons, emallocSize_eq hL]
      exact ⟨by dsimp only; omega, inBounds_nil⟩
    · exact inBounds_nil
  unfold modAccesses
  rw [inBounds_append, and_iff_right hcr, inBounds_cons]
  by_cases hwrap : L + 131 < 2 ^ 32
  · have hsize : emallocSize (u32 (L + 128)) = L + 131 := by
      rw [u32_of_lt (by omega), emallocSize_eq (by omega)]
    rw [hsize]
    refine iff_of_true ⟨by dsimp only; omega, ?_⟩ hwrap
    intro a ha
    obtain ⟨k, hk, rfl⟩ := List.mem_map.mp ha
    rw [List.mem_range] at hk
    dsimp only
    omega
  · refine iff_of_false ?_ hwrap
    rintro ⟨hset, -⟩
    have hlt := u32_lt (u32 (u32 (L + 128)) + 3)
    unfold emallocSize u32 at *
    dsimp only at hset
    omega

/-- `strcpy` of a tail that fits leaves the tail, and stays inside the buffer. -/
theorem copyBack_next {ptr : ℕ} (hptr : Reached ptr) (rest : List UInt8) {s : ReadState}
    (hoff : s.off + rest.length ≤ L) :
    ∃ s', copyBack L ptr rest s = .next s' ∧ s'.text = rest ∧ s'.off = s.off ∧ s'.calls = s.calls ∧
      s'.tails = s.tails ∧ (InBounds s'.accesses ↔ InBounds s.accesses) := by
  refine ⟨_, if_pos hptr, rfl, rfl, rfl, rfl, ?_⟩
  have hcopy : InBounds [⟨emallocSize L, s.off, rest.length + 1⟩] := by
    rw [inBounds_cons, emallocSize_eq hL]
    exact ⟨by dsimp only; omega, inBounds_nil⟩
  rw [inBounds_append, and_iff_left hcopy]

/-- A round whose tail is reached drops the first line; a line with a setting is handed to `mod`. -/
theorem readRound_next {s : ReadState} {line rest : List UInt8} {i ptr : ℕ} (hptr : Reached ptr)
    (htext : s.text = line ++ newline :: rest) (hline : newline ∉ line) (hknown : ¬ IsUnknown line)
    (hoff : s.off + s.text.length ≤ L) :
    ∃ s', readRound L i ptr s = .next s' ∧ s'.text = rest ∧ s'.off + rest.length ≤ L ∧
      s'.calls = s.calls ++ lineCalls line ∧ s'.tails = s.tails ++ [.tail i] ∧
      (InBounds s'.accesses ↔ InBounds s.accesses ∧ rest.length + 5 < 2 ^ 32 ∧
        (lineCalls line = [] ∨ L + 131 < 2 ^ 32)) := by
  have hlen : s.off + line.length + 1 + rest.length ≤ L := by
    rw [htext, List.length_append, List.length_cons] at hoff
    omega
  have htail : InBounds [⟨emallocSize (u32 (rest.length + 2)), 0, rest.length + 1⟩] ↔
      rest.length + 5 < 2 ^ 32 := by
    rw [inBounds_cons, and_iff_left inBounds_nil, Nat.zero_add]
    exact tail_fits (by omega)
  -- the NUL bytes over the newline and behind the line
  have hnul : ∀ off, off ≤ L → InBounds [⟨emallocSize L, off, 1⟩] := by
    intro off hoff
    rw [inBounds_cons, emallocSize_eq hL]
    exact ⟨by dsimp only; omega, inBounds_nil⟩
  have hnul₁ := hnul (s.off + line.length + 1) (by omega)
  have hnul₂ := hnul (s.off + line.length) (by omega)
  have hmem : ¬ newline ∉ s.text := by simp [htext]
  unfold readRound
  rw [if_neg hmem, htext, splitLine_append hline]
  simp only [newTail_of_reached hptr]
  by_cases h5 : 5 < line.length + 1
  · by_cases hskip : isSkipped line = true
    · have hnil : lineCalls line = [] := by simp [lineCalls, hskip]
      rw [if_pos h5, if_pos hskip, hnil]
      obtain ⟨s', hcopy, hrest, hoff', hcalls, htails, hin⟩ := copyBack_next hL hptr rest
        (s := ⟨s.off, s.text, s.calls, _, s.tails ++ [.tail i]⟩) (by dsimp only; omega)
      refine ⟨s', hcopy, hrest, by rw [hoff']; dsimp only; omega, by simp [hcalls], htails, ?_⟩
      simp only [hin, inBounds_append, htail, hnul₁, hnul₂, and_true, true_or]
    · have heq : 0x3d ∈ line := by
        by_contra heq
        exact hknown ⟨⟨Nat.lt_succ_iff.mp h5, Bool.eq_false_iff.mpr hskip⟩, heq⟩
      have hone : lineCalls line = [modLine line] := by
        rw [lineCalls, if_pos ⟨Nat.lt_succ_iff.mp h5, Bool.eq_false_iff.mpr hskip, heq⟩]
      have hmod : InBounds (modAccesses L s.off line) ↔ L + 131 < 2 ^ 32 :=
        inBounds_modAccesses hL (Nat.lt_succ_iff.mp h5) (by omega)
      have hone' := modOff_le line
      rw [if_pos h5, if_neg hskip, if_pos heq, hone]
      obtain ⟨s', hcopy, hrest, hoff', hcalls, htails, hin⟩ := copyBack_next hL hptr rest
        (s := ⟨s.off + modOff line, s.text, s.calls ++ [modLine line], _, s.tails ++ [.tail i]⟩)
        (by dsimp only; omega)
      refine ⟨s', hcopy, hrest, by rw [hoff']; dsimp only; omega, hcalls, htails, ?_⟩
      simp only [hin, inBounds_append, htail, hnul₁, hnul₂, hmod, and_true, and_assoc, List.cons_ne_nil,
        false_or]
  · have hnil : lineCalls line = [] := by
      rw [lineCalls, if_neg]
      rintro ⟨h, -⟩
      omega
    rw [if_neg h5, hnil]
    obtain ⟨s', hcopy, hrest, hoff', hcalls, htails, hin⟩ := copyBack_next hL hptr rest
      (s := ⟨s.off, s.text, s.calls, _, s.tails ++ [.tail i]⟩) (by dsimp only; omega)
    refine ⟨s', hcopy, hrest, by rw [hoff']; dsimp only; omega, by simp [hcalls], htails, ?_⟩
    simp only [hin, inBounds_append, htail, hnul₁, and_true, true_or]

end

/-- How `copyBack` ends. -/
theorem copyBack_cases (L ptr : ℕ) (rest : List UInt8) (s : ReadState) :
    (ptr ≠ 0 ∧ ∃ s', copyBack L ptr rest s = .next s' ∧ s.accesses <+: s'.accesses ∧
      s'.tails = s.tails) ∨
    ∃ s', copyBack L ptr rest s = .wild s' ∧ s.accesses <+: s'.accesses := by
  by_cases hptr : Reached ptr
  · exact .inl ⟨hptr.1, _, if_pos hptr, List.prefix_append _ _, rfl⟩
  · exact .inr ⟨_, if_neg hptr, List.prefix_append _ _⟩

/-- How `returnUnknown` ends. -/
theorem returnUnknown_cases (i ptr : ℕ) (s : ReadState) :
    (∃ ret released, returnUnknown i ptr s = .unknown s ret released ∧ released.length ≤ 1) ∨
    ∃ s', returnUnknown i ptr s = .wild s' ∧ s.accesses <+: s'.accesses := by
  unfold returnUnknown
  split_ifs
  · exact .inl ⟨_, _, rfl, Nat.zero_le 1⟩
  · exact .inl ⟨_, _, rfl, le_rfl⟩
  · exact .inr ⟨_, rfl, List.prefix_append _ _⟩

/-- What a round on a text with a newline can do. -/
theorem readRound_cases (L i ptr : ℕ) {s : ReadState} (hmem : newline ∈ s.text) :
    (∃ s', readRound L i ptr s = .next s' ∧ s.accesses <+: s'.accesses ∧
      s'.tails = s.tails ++ [.tail i]) ∨
    (∃ s' ret released, readRound L i ptr s = .unknown s' ret released ∧
      s.accesses <+: s'.accesses ∧ released.length ≤ 1) ∨
    ∃ s', readRound L i ptr s = .wild s' ∧ s.accesses <+: s'.accesses := by
  -- however the line is taken apart, the accesses grow, and the tail is recorded when there is one
  have hcopy : ∀ (rest : List UInt8) (s' : ReadState), s.accesses <+: s'.accesses →
      (ptr ≠ 0 → s'.tails = s.tails ++ [.tail i]) →
      (∃ s'', copyBack L ptr rest s' = .next s'' ∧ s.accesses <+: s''.accesses ∧
        s''.tails = s.tails ++ [.tail i]) ∨
      (∃ s'' ret released, copyBack L ptr rest s' = .unknown s'' ret released ∧
        s.accesses <+: s''.accesses ∧ released.length ≤ 1) ∨
      ∃ s'', copyBack L ptr rest s' = .wild s'' ∧ s.accesses <+: s''.accesses := by
    intro rest s' hacc htails
    obtain ⟨hptr, s'', h, hacc', ht⟩ | ⟨s'', h, hacc'⟩ := copyBack_cases L ptr rest s'
    · exact .inl ⟨s'', h, hacc.trans hacc', ht.trans (htails hptr)⟩
    · exact .inr (.inr ⟨s'', h, hacc.trans hacc'⟩)
  unfold readRound
  rw [if_neg (not_not_intro hmem)]
  dsimp only
  obtain ⟨hacc, htails⟩ := newTail_accesses i ptr (splitLine s.text).2 s
  split_ifs
  · exact hcopy _ _ (hacc.trans (by simp [List.append_assoc])) htails
  · exact hcopy _ _ (hacc.trans (by simp [List.append_assoc])) htails
  · obtain ⟨ret, released, h, hle⟩ | ⟨s', h, hacc'⟩ := returnUnknown_cases i ptr _
    · exact .inr (.inl ⟨_, ret, released, h, hacc.trans (by simp), hle⟩)
    · exact .inr (.inr ⟨s', h, (hacc.trans (by simp [List.append_assoc])).trans hacc'⟩)
  · exact hcopy _ _ (hacc.trans (by simp)) htails

/-! ### All rounds -/

/-- What the rounds can do. -/
theorem readRounds_cases (L : ℕ) (tail : ℕ → ℕ) (n i : ℕ) (s : ReadState) :
    (∃ s', readRounds L tail n i s = .next s' ∧ s.accesses <+: s'.accesses ∧
      s.tails <+: s'.tails ∧ (n ≠ 0 → newline ∈ s.text → s'.tails ≠ [])) ∨
    (∃ s' ret released, readRounds L tail n i s = .unknown s' ret released ∧
      s.accesses <+: s'.accesses ∧ released.length ≤ 1) ∨
    ∃ s', readRounds L tail n i s = .wild s' ∧ s.accesses <+: s'.accesses := by
  induction n generalizing i s with
  | zero => exact Or.inl ⟨s, rfl, List.prefix_rfl, List.prefix_rfl, fun h => absurd rfl h⟩
  | succ n ih =>
      rw [readRounds]
      by_cases hmem : newline ∈ s.text
      · rcases readRound_cases L i (tail i) hmem with
          ⟨s', hround, hacc, htails⟩ | ⟨s', ret, released, hround, hacc, hle⟩ | ⟨s', hround, hacc⟩
        · rw [hround]
          rcases ih (i + 1) s' with
            ⟨s'', hrounds, hacc', htails', -⟩ | ⟨s'', ret, released, hrounds, hacc', hle⟩ |
            ⟨s'', hrounds, hacc'⟩
          · rw [htails] at htails'
            refine Or.inl ⟨s'', hrounds, hacc.trans hacc', (List.prefix_append _ _).trans htails', ?_⟩
            rintro - - hnil
            rw [hnil, List.prefix_nil] at htails'
            exact absurd htails' (by simp)
          · exact Or.inr (Or.inl ⟨s'', ret, released, hrounds, hacc.trans hacc', hle⟩)
          · exact Or.inr (Or.inr ⟨s'', hrounds, hacc.trans hacc'⟩)
        · exact Or.inr (Or.inl ⟨s', ret, released, by rw [hround], hacc, hle⟩)
        · exact Or.inr (Or.inr ⟨s', by rw [hround], hacc⟩)
      · have hround : readRound L i (tail i) s = .next s := by rw [readRound, if_pos hmem]
        rw [hround]
        rcases ih (i + 1) s with
          ⟨s', hrounds, hacc, htails, -⟩ | h | h
        · exact Or.inl ⟨s', hrounds, hacc, htails, fun _ h => absurd h hmem⟩
        · exact Or.inr (Or.inl h)
        · exact Or.inr (Or.inr h)

theorem readRounds_grows (L : ℕ) (tail : ℕ → ℕ) (n i : ℕ) (s : ReadState) :
    s.accesses <+: (readRounds L tail n i s).state.accesses := by
  rcases readRounds_cases L tail n i s with
    ⟨s', h, hacc, -⟩ | ⟨s', ret, released, h, hacc, -⟩ | ⟨s', h, hacc⟩ <;>
  · rw [h]
    exact hacc

/-- Every line that is neither too short nor a comment has a `=`. -/
def AllKnown (text : List UInt8) : Prop := ∀ line ∈ text.splitOn newline, ¬ IsUnknown line

/-- A text with a newline is its first line and a text with one newline less. -/
theorem exists_line {n : ℕ} {text : List UInt8} (hcount : text.count newline = n + 1)
    (hknown : AllKnown text) :
    ∃ line rest, text = line ++ newline :: rest ∧ newline ∉ line ∧ ¬ IsUnknown line ∧
      rest.count newline = n ∧ AllKnown rest := by
  have hmem : newline ∈ text := List.count_pos_iff.mp (by omega)
  obtain ⟨line, rest, rfl, hline⟩ := List.eq_append_cons_of_mem hmem
  have hn : rest.count newline = n := by
    rw [List.count_append, List.count_cons_self, List.count_eq_zero.mpr hline] at hcount
    omega
  rw [AllKnown, List.splitOn_append_cons_self_of_not_mem hline, List.forall_mem_cons] at hknown
  exact ⟨line, rest, rfl, hline, hknown.1, hn, hknown.2⟩

/-- A tail that is not reached ends the rounds. -/
theorem readRounds_wild {L : ℕ} (hL : L + 3 < 2 ^ 32) (tail : ℕ → ℕ) {n i j : ℕ} {s : ReadState}
    (hcount : s.text.count newline = n) (hknown : AllKnown s.text) (hoff : s.off + s.text.length ≤ L)
    (hj : j < n) (hfail : ¬ Reached (tail (i + j))) :
    ¬ InBounds (readRounds L tail n i s).state.accesses := by
  induction n generalizing i j s with
  | zero => exact absurd hj (Nat.not_lt_zero j)
  | succ n ih =>
      obtain ⟨line, rest, htext, hline, hknown', hn, hrest⟩ := exists_line hcount hknown
      rw [readRounds]
      by_cases hi : Reached (tail i)
      · obtain ⟨s', hround, rfl, hoff', -⟩ := readRound_next hL hi (i := i) htext hline hknown' hoff
        rw [hround]
        cases j with
        | zero => exact absurd hi hfail
        | succ j =>
            apply ih hn hrest hoff' (Nat.lt_of_succ_lt_succ hj)
            rwa [Nat.add_right_comm]
      · obtain ⟨s', hround, hout⟩ := readRound_wild (L := L) (i := i) hi htext hline hknown'
        rw [hround]
        exact hout

/-- With all tails reached the rounds hand every complete line with a setting to `mod`. -/
theorem readRounds_next {L : ℕ} (hL : L + 3 < 2 ^ 32) (tail : ℕ → ℕ) {n i : ℕ} {s : ReadState}
    (hcount : s.text.count newline = n) (hknown : AllKnown s.text) (hoff : s.off + s.text.length ≤ L)
    (htails : ∀ j < n, Reached (tail (i + j))) :
    ∃ s', readRounds L tail n i s = .next s' ∧ s'.calls = s.calls ++ readlineLoop n s.text ∧
      (InBounds s'.accesses ↔ InBounds s.accesses ∧
        (n ≠ 0 → (splitLine s.text).2.length + 5 < 2 ^ 32) ∧
        (readlineLoop n s.text = [] ∨ L + 131 < 2 ^ 32)) := by
  induction n generalizing i s with
  | zero => exact ⟨s, rfl, by simp [readlineLoop], by simp [readlineLoop]⟩
  | succ n ih =>
      obtain ⟨line, rest, htext, hline, hknown', hn, hrest⟩ := exists_line hcount hknown
      have hi : Reached (tail i) := htails 0 (Nat.succ_pos n)
      obtain ⟨s', hround, rfl, hoff', hcalls, -, hin⟩ :=
        readRound_next hL hi (i := i) htext hline hknown' hoff
      have htails' : ∀ j < n, Reached (tail (i + 1 + j)) := by
        intro j hj
        rw [Nat.add_right_comm]
        exact htails (j + 1) (Nat.succ_lt_succ hj)
      obtain ⟨s'', hrounds, hcalls', hin'⟩ := ih hn hrest hoff' htails'
      refine ⟨s'', ?_, ?_, ?_⟩
      · rw [readRounds, hround]
        exact hrounds
      · rw [hcalls', hcalls, htext, readlineLoop_line hline hknown', List.append_assoc]
      · have hsuffix := (splitLine_suffix s'.text).length_le
        rw [hin', hin, htext, splitLine_append hline, readlineLoop_line hline hknown',
          List.append_eq_nil_iff]
        constructor
        · rintro ⟨⟨h, hfit, hline'⟩, -, hloop⟩
          refine ⟨h, fun _ => hfit, ?_⟩
          rcases hline' with hline' | hwrap
          · exact hloop.imp (fun hloop => ⟨hline', hloop⟩) id
          · exact Or.inr hwrap
        · rintro ⟨h, hfit, hwrap⟩
          have hfit' := hfit (Nat.succ_ne_zero n)
          dsimp only at hfit'
          exact ⟨⟨h, hfit', hwrap.imp And.left id⟩, fun _ => by omega, hwrap.imp And.right id⟩

section
variable {L : ℕ} (hL : L + 131 < 2 ^ 32)

include hL

end

/-! ### Every setting is delivered -/

/-- What `mod` should be called with: every line of the text that is a setting, the last included. -/
def settings (text : List UInt8) : List (List UInt8) :=
  ((text.splitOn newline).filter fun line => IsSetting line).map modLine

/-- What follows the last newline. -/
def lastLine (text : List UInt8) : List UInt8 :=
  (text.splitOn newline).getLast (List.splitOn_ne_nil newline text)

theorem lastLine_of_not_mem {text : List UInt8} (h : newline ∉ text) : lastLine text = text := by
  simp only [lastLine, List.splitOn_eq_singleton h, List.getLast_singleton]

theorem lastLine_append {line : List UInt8} (h : newline ∉ line) (rest : List UInt8) :
    lastLine (line ++ newline :: rest) = lastLine rest := by
  simp only [lastLine, List.splitOn_append_cons_self_of_not_mem h]
  exact List.getLast_cons (List.splitOn_ne_nil newline rest)

theorem settings_append {line : List UInt8} (h : newline ∉ line) (hknown : ¬ IsUnknown line)
    (rest : List UInt8) :
    settings (line ++ newline :: rest) = lineCalls line ++ settings rest := by
  rw [settings, List.splitOn_append_cons_self_of_not_mem h, List.filter_cons, lineCalls_known hknown]
  by_cases hset : IsSetting line
  · rw [if_pos hset, if_pos (decide_eq_true hset)]
    rfl
  · rw [if_neg hset, if_neg (by simpa using hset)]
    rfl

/-- The rounds deliver the settings of all lines but the last. -/
theorem settings_eq {n : ℕ} {text : List UInt8} (hcount : text.count newline = n)
    (hknown : AllKnown text) :
    settings text = readlineLoop n text ++
      if IsSetting (lastLine text) then [modLine (lastLine text)] else [] := by
  induction n generalizing text with
  | zero =>
      have hline := List.count_eq_zero.mp hcount
      rw [lastLine_of_not_mem hline, settings, List.splitOn_eq_singleton hline, readlineLoop]
      by_cases hset : IsSetting text <;> simp [hset]
  | succ n ih =>
      obtain ⟨line, rest, rfl, hline, hknown', hn, hrest⟩ := exists_line hcount hknown
      rw [settings_append hline hknown', lastLine_append hline, ih hn hrest,
        readlineLoop_line hline hknown', List.append_assoc]

/-- `_conf_readline` returns before it copies the text. -/
def ReadlineStops (env : ReadlineEnv) (text : List UInt8) : Prop :=
  u32 text.length = 0 ∨ env.buffer = false ∨ env.sbuf = false

theorem confReadlineTrace_stops {env : ReadlineAlloc} {buff : List UInt8}
    (h : ReadlineStops env.work (cstr buff)) :
    (confReadlineTrace env buff).calls = [] ∧ (confReadlineTrace env buff).accesses = [] ∧
      (confReadlineTrace env buff).released =
        (confReadlineTrace env buff).allocated.map fun b => (b, 0) := by
  unfold confReadlineTrace
  by_cases hlen : u32 (cstr buff).length = 0
  · simp [hlen]
  · cases hb : env.work.buffer with
    | false => simp [hlen]
    | true =>
        have hs : env.work.sbuf = false := by simpa [ReadlineStops, hlen, hb] using h
        simp [hlen, hs]

/-- The rounds start with the text in `buffer`. -/
def readStart (text : List UInt8) : ReadState :=
  ⟨0, text, [], [⟨emallocSize (u32 text.length), 0, text.length + 1⟩], []⟩

theorem inBounds_readStart (text : List UInt8) :
    InBounds (readStart text).accesses ↔ text.length + 3 < 2 ^ 32 := by
  unfold readStart emallocSize u32
  rw [inBounds_cons, and_iff_left inBounds_nil]
  dsimp only
  omega

/-- The rounds that `_conf_readline` makes. -/
def readRun (env : ReadlineAlloc) (text : List UInt8) : ReadStep :=
  readRounds (u32 text.length) env.tail ((text.take (u32 text.length)).count newline) 0
    (readStart text)

theorem confReadlineTrace_runs (env : ReadlineAlloc) {buff : List UInt8}
    (h : ¬ ReadlineStops env.work (cstr buff)) :
    confReadlineTrace env buff =
      match readRun env (cstr buff) with
      | .next s =>
          ⟨some 1, s.calls, s.accesses, .buffer :: .sbuf :: s.tails, [(.buffer, s.off), (.sbuf, 0)]⟩
      | .unknown s ret released =>
          ⟨some ret, s.calls, s.accesses, .buffer :: .sbuf :: s.tails, released⟩
      | .wild s => ⟨none, s.calls, s.accesses, .buffer :: .sbuf :: s.tails, []⟩ := by
  rw [ReadlineStops, not_or, not_or, Bool.not_eq_false, Bool.not_eq_false] at h
  obtain ⟨hlen, hb, hs⟩ := h
  unfold confReadlineTrace
  rw [if_neg hlen, hb, hs]
  rfl

theorem confReadlineTrace_accesses (env : ReadlineAlloc) {buff : List UInt8}
    (h : ¬ ReadlineStops env.work (cstr buff)) :
    (confReadlineTrace env buff).accesses = (readRun env (cstr buff)).state.accesses ∧
      (confReadlineTrace env buff).calls = (readRun env (cstr buff)).state.calls := by
  rw [confReadlineTrace_runs env h]
  cases readRun env (cstr buff) <;> exact ⟨rfl, rfl⟩

/-- When no access leaves its block, the text and its block fit into `uint32_t`. -/
theorem readRun_eq (env : ReadlineAlloc) {text : List UInt8} (hL : text.length + 3 < 2 ^ 32) :
    readRun env text =
      readRounds text.length env.tail (text.count newline) 0 (readStart text) := by
  rw [readRun, u32_of_lt (by omega), List.take_length]

theorem readRun_length {env : ReadlineAlloc} {text : List UInt8}
    (h : InBounds (readRun env text).state.accesses) : text.length + 3 < 2 ^ 32 := by
  have hsub := (readRounds_grows (u32 text.length) env.tail
    ((text.take (u32 text.length)).count newline) 0 (readStart text)).subset
  exact (inBounds_readStart text).mp fun a ha => h a (hsub ha)

theorem readRun_wild {env : ReadlineAlloc} {text : List UInt8} (hL : text.length + 3 < 2 ^ 32)
    (hknown : AllKnown text) {i : ℕ} (hi : i < text.count newline) (hfail : ¬ Reached (env.tail i)) :
    ¬ InBounds (readRun env text).state.accesses := by
  rw [readRun_eq _ hL]
  refine readRounds_wild hL env.tail (s := readStart text) rfl hknown ?_ hi ?_
  · exact (Nat.zero_add text.length).le
  · rwa [Nat.zero_add]

theorem readRun_next {env : ReadlineAlloc} {text : List UInt8} (hL : text.length + 3 < 2 ^ 32)
    (hknown : AllKnown text) (htails : ∀ i < text.count newline, Reached (env.tail i)) :
    ∃ s, readRun env text = .next s ∧ s.calls = readlineLoop (text.count newline) text ∧
      (InBounds s.accesses ↔ (newline ∈ text → (splitLine text).2.length + 5 < 2 ^ 32) ∧
        (readlineLoop (text.count newline) text = [] ∨ text.length + 131 < 2 ^ 32)) := by
  obtain ⟨s, hrun, hcalls, hin⟩ := readRounds_next hL env.tail (n := text.count newline)
    (i := 0) (s := readStart text) rfl hknown (Nat.zero_add text.length).le
    fun j hj => by rw [Nat.zero_add]; exact htails j hj
  rw [inBounds_readStart, and_iff_right hL] at hin
  refine ⟨s, by rw [readRun_eq _ hL, hrun], hcalls, hin.trans (and_congr_left fun _ => ?_)⟩
  rw [← List.count_pos_iff (a := newline), Nat.pos_iff_ne_zero]
  rfl

/-- Nothing that `_conf_readline` computes or allocates is too short for the text, and the copy of every
tail is reached. -/
structure ReadlineFits (env : ReadlineAlloc) (text : List UInt8) : Prop where
  buffer : text.length + 3 < 2 ^ 32
  tail : newline ∈ text → (splitLine text).2.length + 5 < 2 ^ 32
  sbuf : settings text = [] ∨ text.length + 131 < 2 ^ 32
  tails : ∀ i < text.count newline, Reached (env.tail i)

/-- `mod` gets every setting once and in order, and nothing is written past a block. -/
def ReadlineDelivers (env : ReadlineAlloc) (buff : List UInt8) : Prop :=
  InBounds (confReadlineTrace env buff).accesses ∧
    (confReadlineTrace env buff).calls = settings (cstr buff)

/-- The settings of a text are delivered exactly when its last line, the one that no newline ends,
is none. -/
theorem readline_delivers_iff (env : ReadlineAlloc) (buff : List UInt8)
    (hknown : ∀ line ∈ (cstr buff).splitOn newline, IsSetting line → 0x3d ∈ line) :
    ReadlineDelivers env buff ↔
      (ReadlineStops env.work (cstr buff) ∧ settings (cstr buff) = []) ∨
      (¬ ReadlineStops env.work (cstr buff) ∧ ReadlineFits env (cstr buff) ∧
        ¬ IsSetting (lastLine (cstr buff))) := by
  have hknown' : AllKnown (cstr buff) := fun line hline h => h.2 (hknown line hline h.1)
  unfold ReadlineDelivers
  by_cases hstop : ReadlineStops env.work (cstr buff)
  · obtain ⟨hcalls, hacc, -⟩ := confReadlineTrace_stops hstop
    rw [hcalls, hacc, and_iff_right inBounds_nil]
    simp only [hstop, true_and, not_true, false_and, or_false]
    exact eq_comm
  · obtain ⟨hacc, hcalls⟩ := confReadlineTrace_accesses _ hstop
    rw [hacc, hcalls]
    generalize cstr buff = text at *
    simp only [hstop, false_and, false_or, not_false_iff, true_and]
    have hset := settings_eq rfl hknown'
    constructor
    · rintro ⟨hin, hdel⟩
      have hL := readRun_length hin
      have htails : ∀ i < text.count newline, Reached (env.tail i) := by
        intro i hi
        by_contra hfail
        exact readRun_wild hL hknown' hi hfail hin
      obtain ⟨s, hrun, hcalls', hin'⟩ := readRun_next hL hknown' htails
      rw [hrun] at hin hdel
      obtain ⟨htail, hwrap⟩ := hin'.mp hin
      have hloop : readlineLoop (text.count newline) text = settings text := hcalls'.symm.trans hdel
      rw [hloop] at hwrap hset
      refine ⟨⟨hL, htail, hwrap, htails⟩, fun hlast => ?_⟩
      rw [if_pos hlast, List.self_eq_append_right] at hset
      exact absurd hset (List.cons_ne_nil _ _)
    · rintro ⟨hfits, hlast⟩
      obtain ⟨s, hrun, hcalls', hin⟩ := readRun_next hfits.buffer hknown' hfits.tails
      rw [if_neg hlast, List.append_nil] at hset
      rw [hrun]
      rw [← hset] at hcalls' hin
      exact ⟨hin.mpr ⟨hfits.tail, hfits.sbuf⟩, hcalls'⟩

/-- `abc=1` with its newline is delivered, when the copy of the empty tail lies at `4096`. -/
theorem readline_delivers_newline :
    ReadlineDelivers ⟨⟨true, true⟩, fun _ => 4096⟩ [0x61, 0x62, 0x63, 0x3d, 0x31, newline] := by
  refine (readline_delivers_iff ⟨⟨true, true⟩, fun _ => 4096⟩
    [0x61, 0x62, 0x63, 0x3d, 0x31, newline] (by decide)).mpr (.inr ⟨?_, ?_, by decide⟩)
  · rintro (h | h | h) <;> exact absurd h (by decide)
  · exact ⟨by decide, fun _ => by decide, .inr (by decide), fun _ _ => (by decide : Reached 4096)⟩

/-- `abc=1` without a newline is lost. -/
theorem not_readlineDelivers_abc :
    ¬ ReadlineDelivers ⟨⟨true, true⟩, fun _ => 4096⟩ [0x61, 0x62, 0x63, 0x3d, 0x31] := by
  rintro ⟨-, h⟩
  exact absurd h (by decide)

/-! ### What is released -/

/-- Nothing is written past a block, and every block is released once, at the pointer that was
allocated. -/
def ReadlineManages (env : ReadlineAlloc) (buff : List UInt8) : Prop :=
  InBounds (confReadlineTrace env buff).accesses ∧
    (confReadlineTrace env buff).released.Perm
      ((confReadlineTrace env buff).allocated.map fun b => (b, 0))

/-- A text with a newline loses blocks: the copies of its tails, or the work buffers. -/
theorem released_lt_allocated {env : ReadlineAlloc} {buff : List UInt8}
    (hstop : ¬ ReadlineStops env.work (cstr buff)) (hL : (cstr buff).length + 3 < 2 ^ 32)
    (hmem : newline ∈ cstr buff) :
    (confReadlineTrace env buff).released.length < (confReadlineTrace env buff).allocated.length := by
  rw [confReadlineTrace_runs _ hstop, readRun_eq _ hL]
  rcases readRounds_cases (cstr buff).length env.tail ((cstr buff).count newline) 0
    (readStart (cstr buff)) with
    ⟨s, hrun, -, -, htails⟩ | ⟨s, ret, released, hrun, -, hle⟩ | ⟨s, hrun, -⟩
  · have hpos := List.length_pos_iff.mpr (htails (List.count_pos_iff.mpr hmem).ne' hmem)
    rw [hrun]
    simp only [List.length_cons, List.length_nil]
    omega
  · rw [hrun]
    simp only [List.length_cons]
    omega
  · rw [hrun]
    exact Nat.succ_pos _

/-- The blocks are managed exactly when the text has no newline at all, and then `mod` gets no
line. -/
theorem readline_manages_iff (env : ReadlineAlloc) (buff : List UInt8) :
    ReadlineManages env buff ↔
      ReadlineStops env.work (cstr buff) ∨
        ((cstr buff).length + 3 < 2 ^ 32 ∧ newline ∉ cstr buff) := by
  unfold ReadlineManages
  by_cases hstop : ReadlineStops env.work (cstr buff)
  · obtain ⟨-, hacc, hrel⟩ := confReadlineTrace_stops hstop
    rw [hacc, hrel]
    exact iff_of_true ⟨inBounds_nil, List.Perm.refl _⟩ (Or.inl hstop)
  · simp only [hstop, false_or]
    constructor
    · rintro ⟨hin, hperm⟩
      rw [(confReadlineTrace_accesses _ hstop).1] at hin
      have hL := readRun_length hin
      refine ⟨hL, fun hmem => ?_⟩
      have hlt := released_lt_allocated hstop hL hmem
      have heq := hperm.length_eq
      rw [List.length_map] at heq
      omega
    · rintro ⟨hL, hmem⟩
      have hrun : readRun env (cstr buff) = .next (readStart (cstr buff)) := by
        rw [readRun_eq _ hL, List.count_eq_zero.mpr hmem]
        rfl
      rw [confReadlineTrace_runs _ hstop, hrun]
      exact ⟨(inBounds_readStart _).mpr hL, List.Perm.refl _⟩

/-- Of a text with one short line the tail is lost. -/
theorem not_readlineManages_newline :
    ¬ ReadlineManages ⟨⟨true, true⟩, fun _ => 4096⟩ [0x61, newline] := by
  rintro ⟨-, h⟩
  exact absurd h.length_eq (by decide)

end Carroll
