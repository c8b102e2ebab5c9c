import Carroll.Chain
import Carroll.Mem
import Carroll.Digest
import Carroll.Md5

/-! # The core-slot table of `librmc`

`librmc.c` keeps a table of `CORE_BITS` request slots in a linked list.  A slot is handed out
by `librmc_create` (the first `CRMC_ENABLE` slot becomes `CRMC_PROCESS`), looked up by its
code string in `librmc_select` and `librmc_final`, and visited by its number in
`librmc_find`, the time-out sweep.  All of them walk the list with a counted loop, which is
`Chain.scan`.

* Codes are pointers returned by `cdigest` (`Digest.lean`); `strcmp` compares the strings
  that the buffers hold at the time of the call.
* `librmc_runstate() <= 0` ends every loop at its first round.
* The clock is an argument: the broken-down local time that `localtime` returns.
* `librmc_update` takes the numbers drawn from `rand()` from a source that every draw
  advances, and an oracle for its allocations.

MD5 is the parameter `md5`.  `sysnode` registration, the debug output and the fields that no
operation of the table reads (`name`, `error_s`, `sector`, `thread`, `handle`, `data`) are
left out. -/

namespace Carroll

/-- `CORE_BITS`. -/
def coreBits : ℕ := 2048

/-- `CRMC_ENABLE`, `CRMC_PROCESS` and `CRMC_FINAL`. -/
inductive CrmcStatus where
  | enable
  | process
  | final
deriving DecidableEq, Repr

/-- `struct librmc_time_t`: minutes and seconds. -/
structure LibrmcTime where
  min : ℕ
  sec : ℕ
deriving DecidableEq, Repr

/-! ### Elapsed time -/

/-- The local variables of `get_time_final`. -/
structure Elapsed where
  utime : ℕ
  cmin : ℕ
  csec : ℕ
  i : ℕ

/-- The end of a round: the counters advance. -/
def Elapsed.advance (start now : LibrmcTime) (e : Elapsed) : Elapsed :=
  let e := if e.utime = 0 then { e with i := e.i + 1 } else e
  let e :=
    if start.sec < now.sec then
      if 60 ≤ e.csec then { e with cmin := e.cmin + 1, csec := 0, utime := e.utime + 1 }
      else { e with csec := e.csec + 1, utime := e.utime + 1 }
    else e
  if now.sec < start.sec ∧ start.min < now.min then { e with utime := e.utime + 1 } else e

/-- The `do … while(i)` loop of `get_time_final`.  Every round either counts `utime` up to `60`
or counts `i` up to `61`, so that `64` rounds are never used up. -/
def getTimeFinalLoop (start now : LibrmcTime) : ℕ → Elapsed → Elapsed
  | 0, e => e
  | n + 1, e =>
      if start.min = 0 ∧ start.sec = 0 then e
      else if start.min = now.min ∧ start.sec = now.sec then e
      else if u32 (e.utime + start.sec) = now.sec ∧ now.min = start.min then e
      else if 60 < u32 (e.utime + start.sec) ∧ now.min = u32 (start.min + 1) then e
      else if e.cmin = now.min ∧ e.csec = now.sec then e
      else if 60 ≤ e.utime then e
      else if 60 < e.i then e
      else getTimeFinalLoop start now n (e.advance start now)

/-- `get_time_final(min, sec, &lmin, &lsec)` at local time `now`: the returned count and the
time stored in `lmin`, `lsec`. -/
def getTimeFinal (start now : LibrmcTime) : ℕ × LibrmcTime :=
  let e := getTimeFinalLoop start now 64 ⟨0, 0, 0, 1⟩
  (e.utime, ⟨e.cmin, e.csec⟩)

/-! ### The table -/

/-- `struct librmc_addr_t`. -/
structure LibrmcAddr where
  fdev : List UInt8
  code : CodePtr
  num : ℕ
  hex : ℕ
  status : CrmcStatus
  brain : ℕ
  core : Option CodePtr
  first : Option LibrmcTime
  last : Option LibrmcTime

/-- `struct librmc_stack_t`: `count` and `addr` (the chain), `state->vstate`, `core`. -/
structure LibrmcStack where
  slots : Chain LibrmcAddr
  state : Option (ℕ → ℕ)
  core : Option LibrmcTime

/-- The results of `rand()` and the number of results already drawn. -/
structure Rand where
  seq : ℕ → ℕ
  pos : ℕ

/-- `rand()`. -/
def Rand.next (r : Rand) : ℕ × Rand := (r.seq r.pos, { r with pos := r.pos + 1 })

/-- The global state that the table operations read and write. -/
structure Rmc where
  sptrCore : Option LibrmcStack
  rmcRunState : ℕ
  rmcCount : ℕ
  rmcFree : ℕ
  digests : Digests
  rand : Rand

namespace Rmc

/-- The string that the code of a slot points to. -/
def codeStr (g : Rmc) (a : LibrmcAddr) : List UInt8 := g.digests.bufs a.code

/-- The slot at position `i` of the list. -/
def slot (g : Rmc) (i : ℕ) : Option LibrmcAddr := g.sptrCore.bind (·.slots.node i)

/-- The status of the slot at position `i`. -/
def statusAt (g : Rmc) (i : ℕ) : Option CrmcStatus := (g.slot i).map (·.status)

/-- Rewrite the slot at position `i`. -/
def setSlot (g : Rmc) (i : ℕ) (f : LibrmcAddr → LibrmcAddr) : Rmc :=
  { g with sptrCore := g.sptrCore.map (fun s => { s with slots := s.slots.modify i f }) }

/-- The loop shared by the table operations: no table, or a run state of `0`, finds nothing. -/
def search (g : Rmc) (p : LibrmcAddr → Bool) : Option ℕ :=
  match g.sptrCore with
  | none => none
  | some s => if g.rmcRunState = 0 then none else s.slots.scan p

end Rmc

/-- `librmc_create`: the first `CRMC_ENABLE` slot gets its start time and `CRMC_PROCESS`. -/
def librmcCreate (g : Rmc) (now : LibrmcTime) : Option ℕ × Rmc :=
  match g.search (fun a => a.status = .enable) with
  | none => (none, g)
  | some i =>
      match (g.slot i).bind (·.first) with
      | none => (none, g)
      | some _ => (some i, g.setSlot i (fun a => { a with first := some now, status := .process }))

/-- `librmc_select`: the first `CRMC_PROCESS` slot whose code string is `code` gets `data`. -/
def librmcSelect (g : Rmc) (code : List UInt8) (data : Option CodePtr) : Option ℕ × Rmc :=
  match g.search (fun a => decide (g.codeStr a = code) && decide (a.status = .process)) with
  | none => (none, g)
  | some i =>
      -- the source has `prev->status == CRMC_FINAL;` here: a comparison whose value is dropped
      (some i, g.setSlot i (fun a => { a with core := data }))

/-- `librmc_final`: the first `CRMC_FINAL` slot (with this code string, unless `code` is NULL)
becomes `CRMC_ENABLE`. -/
def librmcFinal (g : Rmc) (code : Option (List UInt8)) : Option ℕ × Rmc :=
  let hit (a : LibrmcAddr) : Bool :=
    match code with
    | some c => decide (g.codeStr a = c) && decide (a.status = .final)
    | none => decide (a.status = .final)
  match g.search hit with
  | none => (none, g)
  | some i => (some i, g.setSlot i (fun a => { a with status := .enable }))

/-- The time-out test of `librmc_find` on the slot that it visits: `last` is written and the
slot is put back to `CRMC_ENABLE` when more than 15 seconds are counted. -/
def LibrmcAddr.timeout (a : LibrmcAddr) (first now : LibrmcTime) : LibrmcAddr :=
  if a.status = .process ∨ a.status = .final then
    let (brainCore, last) := getTimeFinal first now
    { a with last := some last, status := if 15 < brainCore then .enable else a.status }
  else a

/-- `librmc_find(code, rand_s)`: the sweep's visit of the slot numbered `code`, at local times
`now` and `now'` (the two calls of `get_time_final`). -/
def librmcFind (g : Rmc) (code randS : ℕ) (now now' : LibrmcTime) : ℕ × Rmc :=
  match g.sptrCore with
  | none => (code, g)
  | some s =>
      match s.state, g.search (fun a => a.num = code) with
      | some vstate, some i =>
          let vstate := Function.update vstate code (u32 (vstate code + 1))
          let g := { g with sptrCore := some { s with state := some vstate } }
          let g := g.setSlot i (fun a => { a with hex := randS })
          match (g.slot i).bind (·.first), (g.slot i).bind (·.last) with
          | some first, some _ =>
              let g := g.setSlot i (fun a => a.timeout first now)
              match s.core with
              | none => (code, g)
              | some start =>
                  let (brainCore, last) := getTimeFinal start now'
                  let g := { g with sptrCore := g.sptrCore.map fun s => { s with core := some last } }
                  let g := if 15 < brainCore then
                      g.setSlot i (fun a =>
                        if a.status = .process then { a with status := .enable } else a)
                    else g
                  (randS, g)
          | _, _ => (code, g)
      | _, _ => (code, g)

/-! ### What the operations do -/

namespace Rmc

@[simp] theorem slot_setSlot (g : Rmc) (i j : ℕ) (f : LibrmcAddr → LibrmcAddr) :
    (g.setSlot i f).slot j = if i = j then (g.slot j).map f else g.slot j := by
  unfold slot setSlot
  cases g.sptrCore with
  | none => simp
  | some s => simp [Chain.node_modify]

theorem slot_setSlot_self {g : Rmc} {i : ℕ} {a : LibrmcAddr} (f : LibrmcAddr → LibrmcAddr)
    (h : g.slot i = some a) : (g.setSlot i f).slot i = some (f a) := by
  rw [slot_setSlot, if_pos rfl, h, Option.map_some]

theorem slot_setSlot_ne (g : Rmc) {i j : ℕ} (f : LibrmcAddr → LibrmcAddr) (h : i ≠ j) :
    (g.setSlot i f).slot j = g.slot j := by
  rw [slot_setSlot, if_neg h]

/-- Changing the side blocks touches no slot. -/
theorem slot_stack (g : Rmc) {f : LibrmcStack → LibrmcStack} (hf : ∀ s, (f s).slots = s.slots)
    (i : ℕ) : slot { g with sptrCore := g.sptrCore.map f } i = g.slot i := by
  unfold slot
  cases g.sptrCore with
  | none => rfl
  | some s => simp [hf]

theorem statusAt_of_slot {g : Rmc} {i : ℕ} {a : LibrmcAddr} (h : g.slot i = some a) :
    g.statusAt i = some a.status := by
  rw [statusAt, h, Option.map_some]

/-- Rewriting a slot changes no other status. -/
theorem statusAt_setSlot {g : Rmc} {i : ℕ} {a : LibrmcAddr} (f : LibrmcAddr → LibrmcAddr)
    (h : g.slot i = some a) (j : ℕ) :
    (g.setSlot i f).statusAt j = if i = j then some (f a).status else g.statusAt j := by
  unfold statusAt
  rw [slot_setSlot]
  split_ifs with hij
  · subst hij; simp [h]
  · rfl

@[simp] theorem setSlot_rmcRunState (g : Rmc) (i : ℕ) (f : LibrmcAddr → LibrmcAddr) :
    (g.setSlot i f).rmcRunState = g.rmcRunState := rfl

@[simp] theorem setSlot_digests (g : Rmc) (i : ℕ) (f : LibrmcAddr → LibrmcAddr) :
    (g.setSlot i f).digests = g.digests := rfl

/-! ### Relating tables slot by slot -/

section
variable {R : LibrmcAddr → LibrmcAddr → Prop}

theorem rel_refl (hR : ∀ a, R a a) (o : Option LibrmcAddr) : Option.Rel R o o := by
  cases o with
  | none => exact .none
  | some a => exact .some (hR a)

theorem rel_trans (hR : ∀ a b c, R a b → R b c → R a c) {o o' o'' : Option LibrmcAddr}
    (h : Option.Rel R o o') (h' : Option.Rel R o' o'') : Option.Rel R o o'' := by
  cases h with
  | none => exact h'
  | some hab =>
      cases h' with
      | some hbc => exact .some (hR _ _ _ hab hbc)

theorem rel_setSlot (hR : ∀ a, R a a) (g : Rmc) (i : ℕ) {f : LibrmcAddr → LibrmcAddr}
    (hf : ∀ a, R a (f a)) (j : ℕ) : Option.Rel R (g.slot j) ((g.setSlot i f).slot j) := by
  rw [slot_setSlot]
  split_ifs
  · cases g.slot j with
    | none => exact .none
    | some a => exact .some (hf a)
  · exact rel_refl hR _

end

theorem search_eq_some {g : Rmc} {p : LibrmcAddr → Bool} {i : ℕ} (h : g.search p = some i) :
    ∃ a, g.slot i = some a ∧ p a = true ∧ ∀ j < i, ∀ b, g.slot j = some b → p b = false := by
  unfold search at h
  unfold slot
  cases hs : g.sptrCore with
  | none => rw [hs] at h; cases h
  | some s =>
      rw [hs] at h
      dsimp only at h
      split_ifs at h
      exact Chain.scan_eq_some_iff.mp h

theorem search_eq_none {g : Rmc} {p : LibrmcAddr → Bool} (hr : g.rmcRunState ≠ 0)
    (h : g.search p = none) : ∀ i a, g.slot i = some a → p a = false := by
  intro i a ha
  unfold search at h
  unfold slot at ha
  cases hs : g.sptrCore with
  | none => rw [hs] at ha; cases ha
  | some s =>
      rw [hs] at h ha
      dsimp only at h
      rw [if_neg hr] at h
      exact Chain.scan_eq_none_iff.mp h i a ha

/-- While the run state is positive, the first slot satisfying the condition is found. -/
theorem search_of_slot {g : Rmc} {p : LibrmcAddr → Bool} {i : ℕ} {a : LibrmcAddr}
    (hr : g.rmcRunState ≠ 0) (ha : g.slot i = some a) (hp : p a = true) :
    ∃ j, g.search p = some j := by
  cases h : g.search p with
  | none =>
      have := search_eq_none hr h i a ha
      rw [hp] at this
      cases this
  | some j => exact ⟨j, rfl⟩

theorem search_eq_of_first {g : Rmc} {p : LibrmcAddr → Bool} {i : ℕ} {a : LibrmcAddr}
    (hr : g.rmcRunState ≠ 0) (ha : g.slot i = some a) (hp : p a = true)
    (hlt : ∀ j < i, ∀ b, g.slot j = some b → p b = false) : g.search p = some i := by
  obtain ⟨j, hj⟩ := search_of_slot hr ha hp
  obtain ⟨b, hb, hpb, hlt'⟩ := search_eq_some hj
  rcases Nat.lt_trichotomy j i with h | rfl | h
  · have := hlt j h b hb
    rw [hpb] at this
    cases this
  · exact hj
  · have := hlt' i h a ha
    rw [hp] at this
    cases this

end Rmc

/-- What `librmc_create` can do. -/
theorem librmcCreate_cases (g : Rmc) (now : LibrmcTime) :
    librmcCreate g now = (none, g) ∨
    ∃ i a, g.slot i = some a ∧ a.status = .enable ∧
      (∀ j < i, ∀ b, g.slot j = some b → b.status ≠ .enable) ∧
      librmcCreate g now =
        (some i, g.setSlot i (fun a => { a with first := some now, status := .process })) := by
  unfold librmcCreate
  cases hs : g.search (fun a => a.status = .enable) with
  | none => exact .inl rfl
  | some i =>
      obtain ⟨a, ha, hp, hlt⟩ := Rmc.search_eq_some hs
      dsimp only
      rw [ha]
      cases hf : a.first with
      | none => left; simp [hf]
      | some t =>
          right
          refine ⟨i, a, ha, by simpa using hp, fun j hj b hb => by simpa using hlt j hj b hb, ?_⟩
          simp [hf]

/-- What `librmc_select` can do: the status of no slot changes. -/
theorem librmcSelect_cases (g : Rmc) (code : List UInt8) (data : Option CodePtr) :
    librmcSelect g code data = (none, g) ∨
    ∃ i a, g.slot i = some a ∧ g.codeStr a = code ∧ a.status = .process ∧
      (∀ j < i, ∀ b, g.slot j = some b → ¬ (g.codeStr b = code ∧ b.status = .process)) ∧
      librmcSelect g code data = (some i, g.setSlot i (fun a => { a with core := data })) := by
  unfold librmcSelect
  cases hs : g.search (fun a => decide (g.codeStr a = code) && decide (a.status = .process)) with
  | none => exact .inl rfl
  | some i =>
      obtain ⟨a, ha, hp, hlt⟩ := Rmc.search_eq_some hs
      simp only [Bool.and_eq_true, decide_eq_true_eq] at hp
      right
      refine ⟨i, a, ha, hp.1, hp.2, fun j hj b hb hbad => ?_, rfl⟩
      have := hlt j hj b hb
      simp [hbad.1, hbad.2] at this

/-- What `librmc_final` can do. -/
theorem librmcFinal_cases (g : Rmc) (code : Option (List UInt8)) :
    librmcFinal g code = (none, g) ∨
    ∃ i a, g.slot i = some a ∧ a.status = .final ∧
      librmcFinal g code = (some i, g.setSlot i (fun a => { a with status := .enable })) := by
  unfold librmcFinal
  dsimp only
  split
  · exact .inl rfl
  · rename_i i hs
    obtain ⟨a, ha, hp, _⟩ := Rmc.search_eq_some hs
    right
    refine ⟨i, a, ha, ?_, rfl⟩
    cases code with
    | none => simpa using hp
    | some c => simp only [Bool.and_eq_true, decide_eq_true_eq] at hp; exact hp.2

/-- What `librmc_find` keeps: a relation between tables that its writes to the side blocks and to
the slot that it visits respect. -/
theorem librmcFind_rel {R : Rmc → Rmc → Prop} (hrefl : ∀ g, R g g)
    (htrans : ∀ g g' g'', R g g' → R g' g'' → R g g'')
    (hstate : ∀ g vstate,
      R g { g with sptrCore := g.sptrCore.map fun s => { s with state := some vstate } })
    (hcore : ∀ g core,
      R g { g with sptrCore := g.sptrCore.map fun s => { s with core := some core } })
    (hhex : ∀ g i randS, R g (g.setSlot i fun a => { a with hex := randS }))
    (htimeout : ∀ g i first now, R g (g.setSlot i fun a => a.timeout first now))
    (henable : ∀ g i, R g (g.setSlot i fun a =>
      if a.status = .process then { a with status := .enable } else a))
    (g : Rmc) (code randS : ℕ) (now now' : LibrmcTime) :
    R g (librmcFind g code randS now now').2 := by
  unfold librmcFind
  cases hs : g.sptrCore with
  | none => exact hrefl g
  | some s =>
      dsimp only
      split
      next vstate i _ _ =>
          have h₁ := hstate g (Function.update vstate code (u32 (vstate code + 1)))
          rw [hs, Option.map_some] at h₁
          generalize ({ g with sptrCore := some { s with state := _ } } : Rmc) = g₁ at h₁ ⊢
          have h₂ := htrans _ _ _ h₁ (hhex g₁ i randS)
          generalize g₁.setSlot i _ = g₂ at h₂ ⊢
          split
          next first _ _ _ =>
              have h₃ := htrans _ _ _ h₂ (htimeout g₂ i first now)
              generalize g₂.setSlot i _ = g₃ at h₃ ⊢
              cases s.core with
              | none => exact h₃
              | some start =>
                  have h₄ := htrans _ _ _ h₃ (hcore g₃ (getTimeFinal start now').2)
                  dsimp only
                  split_ifs
                  · exact htrans _ _ _ h₄ (henable _ i)
                  · exact h₄
          next => exact h₂
      next => exact hrefl g

/-! ### Building the table -/

/-- `sprintf(dev_name, "/sysd/rmc%d", i)`. -/
def devName (i : ℕ) : List UInt8 :=
  [0x2f, 0x73, 0x79, 0x73, 0x64, 0x2f, 0x72, 0x6d, 0x63] ++ decimal i

/-- `sprintf(buf, "%s:%d:%d", upd->fdev, upd->hex, upd->num)`. -/
def slotName (fdev : List UInt8) (hex num : ℕ) : List UInt8 :=
  fdev ++ [0x3a] ++ decimal hex ++ [0x3a] ++ decimal num

/-- `rand()%CORE_BITS-1` stored in an `unsigned short`. -/
def randHex (r : ℕ) : ℕ := (r % coreBits + 65535) % 65536

/-- Outcome of the allocations of `librmc_update`. -/
structure UpdateAlloc where
  upd : Bool
  fdev : Bool
  first : Option LibrmcTime
  last : Option LibrmcTime

/-- All allocations succeed; the times hold whatever the blocks held before. -/
def UpdateAlloc.ok (first last : LibrmcTime) : UpdateAlloc := ⟨true, true, some first, some last⟩

/-- `librmc_free(sptr_core)`. -/
def librmcFree (g : Rmc) : Rmc :=
  match g.sptrCore with
  | none => g
  | some s => { g with sptrCore := none, rmcFree := u32 (g.rmcFree + s.slots.count) }

section update
variable (md5 : List UInt8 → List UInt8)

/-- The value that `librmc_update` gives `hex` in the end: drawn again when the first one is
not below `CORE_BITS`. -/
def settleHex (hex : ℕ) (rand : Rand) : ℕ × Rand :=
  if coreBits - 1 < hex then
    let (r, rand) := rand.next
    (if coreBits < randHex r then 0 else randHex r, rand)
  else (hex, rand)

/-- The value that `librmc_update` stores in `hex` is drawn again when it is not below
`CORE_BITS`. -/
theorem settleHex_lt (r : ℕ) (rand : Rand) : (settleHex (randHex r) rand).1 < coreBits := by
  unfold settleHex
  have hnext : ∀ n, randHex n ≠ coreBits := by
    intro n
    unfold randHex coreBits
    omega
  split_ifs with h
  · dsimp only
    split_ifs with hlt
    · decide
    · have := hnext rand.next.1
      omega
  · unfold coreBits at *
    omega

/-- `librmc_update(dev_name, data, number, str)`. -/
def librmcUpdate (g : Rmc) (dev : List UInt8) (number : ℕ) (alloc : UpdateAlloc) : ℕ × Rmc :=
  match g.sptrCore with
  | none => (0, g)
  | some s =>
      if !alloc.upd then (0, librmcFree g)
      else
        -- a failed copy leaves `fdev` NULL, which `%s` prints as "(null)"
        let fdev := if alloc.fdev then dev else [0x28, 0x6e, 0x75, 0x6c, 0x6c, 0x29]
        let r := g.rand.next
        let hex := randHex r.1
        let b := r.2.next
        let code := cdigest g.digests (md5 (slotName fdev hex number)) 16
        let settled := settleHex hex b.2
        let g := { g with digests := code.2, rand := settled.2 }
        match alloc.first, alloc.last with
        | some first, some last =>
            let upd : LibrmcAddr :=
              { fdev := fdev, code := code.1, num := number, hex := settled.1, status := .enable
                brain := b.1 % 2, core := none, first := some first, last := some last }
            (1, { g with sptrCore := some { s with slots := s.slots.push upd }
                         rmcCount := u32 (g.rmcCount + 1) })
        | _, _ => (0, librmcFree g)

/-- The table before the first slot is added, with its three side blocks. -/
def librmcEmpty (g : Rmc) (core : LibrmcTime) (vstate : ℕ → ℕ) : Rmc :=
  { g with sptrCore := some ⟨Chain.empty, some vstate, some core⟩ }

/-- The first `k` rounds of the loop of `librmc_init`, all allocations succeeding. -/
def librmcInitLoop (times : ℕ → LibrmcTime × LibrmcTime) (g : Rmc) : ℕ → Rmc
  | 0 => g
  | k + 1 =>
      (librmcUpdate md5 (librmcInitLoop times g k) (devName k) k
        (UpdateAlloc.ok (times k).1 (times k).2)).2

/-- `librmc_init` with all allocations succeeding; `core`, `vstate` and `times` are the contents
of the fresh blocks. -/
def librmcInit (g : Rmc) (core : LibrmcTime) (vstate : ℕ → ℕ)
    (times : ℕ → LibrmcTime × LibrmcTime) : Rmc :=
  librmcInitLoop md5 times (librmcEmpty g core vstate) coreBits

/-! ### The table after `librmc_init` -/

/-- The name under which round `k` of `librmc_init` computes its code. -/
def initName (times : ℕ → LibrmcTime × LibrmcTime) (g : Rmc) (k : ℕ) : List UInt8 :=
  slotName (devName k) (randHex (librmcInitLoop md5 times g k).rand.next.1) k

/-- A successful `librmc_update`: one more free slot, its code freshly written. -/
theorem librmcUpdate_ok (g : Rmc) {s : LibrmcStack} (hs : g.sptrCore = some s) (dev : List UInt8)
    (number : ℕ) (first last : LibrmcTime) :
    ∃ upd g', librmcUpdate md5 g dev number (UpdateAlloc.ok first last) = (1, g') ∧
      upd.status = .enable ∧ upd.first = some first ∧ upd.num = number ∧
      upd.code = g.digests.bnum ∧
      g'.sptrCore = some { s with slots := s.slots.push upd } ∧ g'.rmcRunState = g.rmcRunState ∧
      g'.digests =
        (cdigest g.digests (md5 (slotName dev (randHex g.rand.next.1) number)) 16).2 := by
  unfold librmcUpdate
  rw [hs]
  exact ⟨_, _, rfl, rfl, rfl, rfl, rfl, rfl, rfl, rfl⟩

/-- What a `librmc_update` does to the table and its counters: nothing, one more slot, or, when an
allocation fails, the whole table is freed. -/
theorem librmcUpdate_cases (g : Rmc) (dev : List UInt8) (number : ℕ) (alloc : UpdateAlloc) :
    (librmcUpdate md5 g dev number alloc).2 = g ∨
    (∃ s upd digests rand, g.sptrCore = some s ∧
      (librmcUpdate md5 g dev number alloc).2 =
        { g with sptrCore := some { s with slots := s.slots.push upd }
                 rmcCount := u32 (g.rmcCount + 1), digests := digests, rand := rand }) ∨
    ∃ digests rand, (librmcUpdate md5 g dev number alloc).2 =
      librmcFree { g with digests := digests, rand := rand } := by
  obtain ⟨upd, fdev, first, last⟩ := alloc
  unfold librmcUpdate
  split
  · exact .inl rfl
  · rename_i s hs
    right
    cases upd with
    | false => exact .inr ⟨g.digests, g.rand, rfl⟩
    | true =>
        cases first with
        | none => exact .inr ⟨_, _, rfl⟩
        | some first =>
            cases last with
            | none => exact .inr ⟨_, _, rfl⟩
            | some last => exact .inl ⟨s, _, _, _, hs, rfl⟩

/-- What is known of the table after `k` rounds of `librmc_init` from `g₀`. -/
structure Loaded (g₀ : Rmc) (k : ℕ) (g : Rmc) : Prop where
  running : g.rmcRunState = g₀.rmcRunState
  bnum : g.digests.bnum = Fin.ofNat 10 (g₀.digests.bnum.val + k)
  core : ∃ s, g.sptrCore = some s ∧ s.slots.addr.length = k
  slot : ∀ i a, g.slot i = some a → a.status = .enable ∧ a.first.isSome ∧ a.num = i ∧
    a.code = Fin.ofNat 10 (g₀.digests.bnum.val + i)

theorem Loaded.slot_of_lt {g₀ g : Rmc} {k : ℕ} (h : Loaded g₀ k g) {i : ℕ} (hi : i < k) :
    ∃ a, g.slot i = some a := by
  obtain ⟨s, hs, hlen⟩ := h.core
  refine ⟨s.slots.addr[i], ?_⟩
  rw [Rmc.slot, hs, Option.bind_some]
  exact List.getElem?_eq_getElem (by omega)

theorem loaded_push {g₀ g g' : Rmc} {k : ℕ} {s : LibrmcStack} {upd : LibrmcAddr}
    (h : Loaded g₀ k g) (hs : g.sptrCore = some s)
    (hs' : g'.sptrCore = some { s with slots := s.slots.push upd })
    (hrun : g'.rmcRunState = g.rmcRunState) (hbnum : g'.digests.bnum = g.digests.bnum + 1)
    (hst : upd.status = .enable) (hfirst : upd.first.isSome) (hnum : upd.num = k)
    (hcode : upd.code = g.digests.bnum) : Loaded g₀ (k + 1) g' := by
  obtain ⟨s', hs₁, hlen⟩ := h.core
  obtain rfl : s = s' := by rw [hs] at hs₁; exact Option.some.inj hs₁
  refine ⟨hrun.trans h.running, ?_, ⟨_, hs', by simp [hlen]⟩, fun i a ha => ?_⟩
  · rw [hbnum, h.bnum]
    apply Fin.ext
    simp [Fin.add_def, Fin.ofNat, Nat.add_assoc]
  · simp only [Rmc.slot, hs', Option.bind_some, Chain.node, Chain.addr_push] at ha
    rcases Nat.lt_or_ge i k with hik | hik
    · rw [List.getElem?_append_left (by omega)] at ha
      exact h.slot i a (by simp [Rmc.slot, hs, Chain.node, ha])
    · rw [List.getElem?_append_right (by omega)] at ha
      obtain ⟨hi, rfl⟩ := List.getElem?_eq_some_iff.mp ha
      obtain rfl : i = k := by simp at hi; omega
      simp [hlen, hst, hfirst, hnum, hcode, h.bnum]

theorem loaded_initLoop (times : ℕ → LibrmcTime × LibrmcTime) (g : Rmc) (core : LibrmcTime)
    (vstate : ℕ → ℕ) (k : ℕ) :
    Loaded g k (librmcInitLoop md5 times (librmcEmpty g core vstate) k) := by
  induction k with
  | zero =>
      refine ⟨rfl, by simp [librmcInitLoop, librmcEmpty], ⟨_, rfl, rfl⟩, fun i a h => ?_⟩
      simp [librmcInitLoop, librmcEmpty, Rmc.slot, Chain.node] at h
  | succ k ih =>
      obtain ⟨s, hs, _⟩ := ih.core
      obtain ⟨upd, g', hupd, hst, hfirst, hnum, hcode, hcore, hrun, hdig⟩ :=
        librmcUpdate_ok md5 _ hs (devName k) k (times k).1 (times k).2
      rw [librmcInitLoop, hupd]
      exact loaded_push ih hs hcore hrun (by rw [hdig]; rfl) hst (by simp [hfirst]) hnum hcode

/-- After `librmc_init` there are `CORE_BITS` free slots, numbered in list order, and slot `i`
points to the code buffer that was `i` places ahead. -/
theorem loaded_init (g : Rmc) (core : LibrmcTime) (vstate : ℕ → ℕ)
    (times : ℕ → LibrmcTime × LibrmcTime) :
    Loaded g coreBits (librmcInit md5 g core vstate times) := by
  rw [librmcInit]
  exact loaded_initLoop md5 times g core vstate coreBits

end update

/-- Global state before `librmc_init`: no table, zeroed counters and `cdigest` buffers, and a
source of random numbers that always gives `0`. -/
def Rmc.zero : Rmc := ⟨none, 1, 0, 0, ⟨fun _ => [], ⟨0, by norm_num⟩⟩, ⟨fun _ => 0, 0⟩⟩

/-- The table that `librmc_init` builds from `Rmc.zero` on zeroed blocks. -/
def Rmc.zeroTable : Rmc :=
  librmcInit md5Digest Rmc.zero ⟨0, 0⟩ (fun _ => 0) (fun _ => (⟨0, 0⟩, ⟨0, 0⟩))

end Carroll
