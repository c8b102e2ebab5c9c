import Carroll.Rmc
import Carroll.Alloc

/-! # The allocations of `librmc_init`

`librmc_init` allocates the core and its four parts, registers it with `libcrt_snupdate`, and calls
`librmc_update` for each of the `CORE_BITS` slots, which allocates the slot and its three parts and
registers it too.  Each that misses an allocation calls `librmc_free` on the core.

* A block is a struct, with its pointers and the counters that loops read, or plain bytes; what a
  slot holds besides is in `Rmc.lean`.
* `%s` of a `NULL` `fdev` prints `(null)`.
* A list that is longer than all blocks is a cycle, and the loop to its end does not return. -/

namespace Carroll
open Alloc

namespace RmcAlloc

/-- `struct librmc_stack_t`. -/
structure StackBlock where
  name : CPtr ℕ
  errorS : CPtr ℕ
  sector : ℕ
  count : ℕ
  addr : CPtr ℕ
  state : CPtr ℕ
  core : CPtr ℕ
  thread : CPtr ℕ
  handle : CPtr ℕ

/-- `struct librmc_addr_t`. -/
structure AddrBlock where
  fdev : CPtr ℕ
  data : CPtr ℕ
  core : CPtr ℕ
  first : CPtr ℕ
  last : CPtr ℕ
  next : CPtr ℕ

/-- `struct sysnode_addr_t`. -/
structure NodeBlock where
  num : ℕ
  name : CPtr ℕ
  sysd : CPtr ℕ
  next : CPtr ℕ

/-- `struct sysnode_proc_t`. -/
structure ProcBlock where
  num : ℕ
  addr : CPtr ℕ

namespace StackBlock

/-- `ptr->name`. -/
def nameField : PtrField StackBlock := ⟨name, fun q b => { b with name := q }, fun _ => rfl⟩

/-- `ptr->error_s`. -/
def errorField : PtrField StackBlock := ⟨errorS, fun q b => { b with errorS := q }, fun _ => rfl⟩

/-- `ptr->state`. -/
def stateField : PtrField StackBlock := ⟨state, fun q b => { b with state := q }, fun _ => rfl⟩

/-- `ptr->core`. -/
def coreField : PtrField StackBlock := ⟨core, fun q b => { b with core := q }, fun _ => rfl⟩

end StackBlock

namespace AddrBlock

/-- `prev->fdev`. -/
def fdevField : PtrField AddrBlock := ⟨fdev, fun q b => { b with fdev := q }, fun _ => rfl⟩

/-- `prev->data`. -/
def dataField : PtrField AddrBlock := ⟨data, fun q b => { b with data := q }, fun _ => rfl⟩

/-- `prev->first`. -/
def firstField : PtrField AddrBlock := ⟨first, fun q b => { b with first := q }, fun _ => rfl⟩

/-- `prev->last`. -/
def lastField : PtrField AddrBlock := ⟨last, fun q b => { b with last := q }, fun _ => rfl⟩

end AddrBlock

/-- A block of memory. -/
inductive Block where
  | stack (b : StackBlock)
  | addr (b : AddrBlock)
  | node (b : NodeBlock)
  | proc (b : ProcBlock)
  | bytes

/-- The blocks that are a `struct librmc_stack_t`. -/
def stackKind : Kind Block StackBlock where
  get | .stack b => some b | _ => none
  put := .stack
  get_put _ := rfl

/-- The blocks that are a `struct librmc_addr_t`. -/
def addrKind : Kind Block AddrBlock where
  get | .addr b => some b | _ => none
  put := .addr
  get_put _ := rfl

/-- The blocks that are a `struct sysnode_addr_t`. -/
def nodeKind : Kind Block NodeBlock where
  get | .node b => some b | _ => none
  put := .node
  get_put _ := rfl

/-- The blocks that are a `struct sysnode_proc_t`. -/
def procKind : Kind Block ProcBlock where
  get | .proc b => some b | _ => none
  put := .proc
  get_put _ := rfl

/-- A `struct librmc_stack_t` as `malloc` returns it. -/
def StackBlock.ofWords (w : ℕ → ℕ) : StackBlock :=
  ⟨.ofWord (w 0), .ofWord (w 1), u32 (w 2), u32 (w 3), .ofWord (w 4), .ofWord (w 5), .ofWord (w 6),
    .ofWord (w 7), .ofWord (w 8)⟩

/-- A `struct librmc_addr_t` as `malloc` returns it. -/
def AddrBlock.ofWords (w : ℕ → ℕ) : AddrBlock :=
  ⟨.ofWord (w 0), .ofWord (w 1), .ofWord (w 2), .ofWord (w 3), .ofWord (w 4), .ofWord (w 5)⟩

/-- A `struct sysnode_addr_t` as `malloc` returns it. -/
def NodeBlock.ofWords (w : ℕ → ℕ) : NodeBlock :=
  ⟨u32 (w 0), .ofWord (w 1), .ofWord (w 2), .ofWord (w 3)⟩

/-- The heap and the global variables of `librmc.c`. -/
structure State where
  heap : Store Block
  sptrCore : CPtr ℕ
  rmcCount : ℕ
  rmcFree : ℕ

/-! ### The functions -/

/-- `libcrt_new_str` of a string, and a `malloc` of plain bytes. -/
def libcrtNewStr (a : Allocator) (h : Store Block) : CPtr ℕ × Store Block := h.malloc a fun _ => .bytes

/-- `libcrt_sysnode_update(str, …, module, …)`, whose result no caller here reads. -/
def libcrtSysnodeUpdate (a : Allocator) (str module : CPtr ℕ) (h : Store Block) :
    Option (Store Block) := do
  if str = .null then return h
  let (upd, h) := h.malloc a fun w => .node (.ofWords w)
  if upd = .null then return h
  let proc ← h.get procKind str
  let (name, h) := libcrtNewStr a h
  let h ← h.modify nodeKind upd fun n =>
    { n with num := proc.num, name := name, sysd := module, next := .null }
  if proc.addr = .null then
    h.modify procKind str fun _ => ⟨u32 (proc.num + 1), upd⟩
  else
    let prev ← h.last nodeKind NodeBlock.next h.calls proc.addr
    let h ← h.modify nodeKind prev fun n => { n with next := upd }
    h.modify procKind str fun _ => ⟨u32 (proc.num + 1), proc.addr⟩

/-- The loop of `librmc_free` over the slots. -/
def librmcFreeLoop : ℕ → CPtr ℕ → State → Option State
  | 0, _, s => some s
  | count + 1, prev, s =>
      if prev = .null then some s
      else do
        let slot ← s.heap.get addrKind prev
        let h ← s.heap.release addrKind prev AddrBlock.fdevField
        let h ← h.release addrKind prev AddrBlock.dataField
        let h ← h.release addrKind prev AddrBlock.firstField
        let h ← h.release addrKind prev AddrBlock.lastField
        let h ← h.free prev
        librmcFreeLoop count slot.next { s with heap := h, rmcFree := u32 (s.rmcFree + 1) }

/-- The fields that `librmc_free` releases first. -/
def librmcFreeParts (ptr : CPtr ℕ) (h : Store Block) : Option (Store Block) := do
  let h ← h.release stackKind ptr StackBlock.nameField
  let h ← h.release stackKind ptr StackBlock.errorField
  let h ← h.release stackKind ptr StackBlock.stateField
  h.release stackKind ptr StackBlock.coreField

/-- `sptr_core = librmc_free(sptr_core)`. -/
def librmcFree (s : State) : Option State := do
  let ptr := s.sptrCore
  if ptr = .null then return s
  let h ← librmcFreeParts ptr s.heap
  let stack ← h.get stackKind ptr
  let s ← librmcFreeLoop stack.count stack.addr { s with heap := h }
  let h ← s.heap.free ptr
  return { s with heap := h, sptrCore := .null }

/-- `librmc_update(dev_name, data, number, str)`, up to its last two lines: whether the slot was
added, and the state. -/
def librmcUpdateSlot (a : Allocator) (str : CPtr ℕ) (s : State) : Option (Bool × State) := do
  if s.sptrCore = .null then return (false, s)
  let (upd, h) := s.heap.malloc a fun w => .addr (.ofWords w)
  if upd = .null then return (false, { s with heap := h })
  let (fdev, h) := libcrtNewStr a h
  let h ← h.modify addrKind upd fun b => { b with fdev := fdev, data := .null, core := .null }
  let (first, h) := libcrtNewStr a h
  let h ← h.modify addrKind upd fun b => { b with first := first }
  if first = .null then return (false, { s with heap := h })
  let (last, h) := libcrtNewStr a h
  let h ← h.modify addrKind upd fun b => { b with last := last }
  if last = .null then return (false, { s with heap := h })
  let h ← h.modify addrKind upd fun b => { b with next := .null }
  let stack ← h.get stackKind s.sptrCore
  let next := if stack.addr = .null then upd else stack.addr
  let h ← if stack.addr = .null then some h
    else (h.last addrKind AddrBlock.next h.calls stack.addr).bind fun prev =>
      h.modify addrKind prev fun b => { b with next := upd }
  let h ← libcrtSysnodeUpdate a str next h
  let h ← h.modify stackKind s.sptrCore fun b => { b with addr := next, count := u32 (b.count + 1) }
  return (true, { s with heap := h, rmcCount := u32 (s.rmcCount + 1) })

/-- `librmc_update(dev_name, data, number, str)`. -/
def librmcUpdate (a : Allocator) (str : CPtr ℕ) (s : State) : Option State :=
  (librmcUpdateSlot a str s).bind fun r => if r.1 then some r.2 else librmcFree r.2

/-- So many calls of `librmc_update`. -/
def librmcUpdates (a : Allocator) (str : CPtr ℕ) : ℕ → State → Option State
  | 0, s => some s
  | n + 1, s => (librmcUpdate a str s).bind (librmcUpdates a str n)

/-- `librmc_init`, from `libcrt_snupdate` on. -/
def librmcInitSlots (a : Allocator) (str : CPtr ℕ) (s : State) : Option State := do
  let h ← libcrtSysnodeUpdate a str s.sptrCore s.heap
  let s ← librmcUpdates a str coreBits { s with heap := h }
  let h ← s.heap.modify stackKind s.sptrCore fun b => { b with thread := .null }
  return { s with heap := h }

/-- `librmc_init`, from `sptr_core->count = 0` on. -/
def librmcInitParts (a : Allocator) (str : CPtr ℕ) (s : State) : Option State := do
  let h ← s.heap.modify stackKind s.sptrCore fun b => { b with count := 0, addr := .null, sector := 0 }
  let (core, h) := libcrtNewStr a h
  let h ← h.modify stackKind s.sptrCore (StackBlock.coreField.set core)
  if core = .null then librmcFree { s with heap := h }
  else
    let (state, h) := libcrtNewStr a h
    let h ← h.modify stackKind s.sptrCore (StackBlock.stateField.set state)
    if state = .null then librmcFree { s with heap := h }
    else
      let h ← h.modify stackKind s.sptrCore fun b => { b with handle := .null }
      librmcInitSlots a str { s with heap := h }

/-- `librmc_init(ptr, str)`. -/
def librmcInit (a : Allocator) (str : CPtr ℕ) (s : State) : Option State := do
  let (sptrCore, h) := s.heap.malloc a fun w => .stack (.ofWords w)
  if sptrCore = .null then return { s with heap := h, sptrCore := sptrCore }
  let (name, h) := libcrtNewStr a h
  let h ← h.modify stackKind sptrCore (StackBlock.nameField.set name)
  let (errorS, h) := libcrtNewStr a h
  let h ← h.modify stackKind sptrCore (StackBlock.errorField.set errorS)
  if errorS = .null then librmcFree { s with heap := h, sptrCore := sptrCore }
  else librmcInitParts a str { s with heap := h, sptrCore := sptrCore }

/-! ### The clean-up -/

section
variable {s₀ : Store Block} {s : State} {n : ℕ} {b : StackBlock} {l : List (ℕ × Block)}

namespace StackBlock

/-- The blocks of the four parts of a core. -/
def parts (b : StackBlock) : List (ℕ × Block) :=
  b.name.cell Block.bytes ++ (b.errorS.cell Block.bytes ++ (b.state.cell Block.bytes ++
    (b.core.cell Block.bytes ++ [])))

/-- The core without its parts. -/
def cleared (b : StackBlock) : StackBlock :=
  { b with name := .null, errorS := .null, state := .null, core := .null }

end StackBlock

theorem librmcFreeParts_eq {h : Store Block} (ho : Owns s₀ h ((n, .stack b) :: l))
    (hl : l.Perm b.parts) (hname : b.name ≠ .junk) (herror : b.errorS ≠ .junk) (hstate : b.state ≠ .junk)
    (hpart : b.core ≠ .junk) :
    ∃ h', librmcFreeParts (.ref n) h = some h' ∧ Owns s₀ h' [(n, .stack b.cleared)] := by
  obtain ⟨h₁, hr₁, ho⟩ := Owns.release (K := stackKind) StackBlock.nameField (ho.perm (hl.cons _)) rfl
    hname
  obtain ⟨h₂, hr₂, ho⟩ := ho.release StackBlock.errorField rfl herror
  obtain ⟨h₃, hr₃, ho⟩ := ho.release StackBlock.stateField rfl hstate
  obtain ⟨h₄, hr₄, ho⟩ := ho.release StackBlock.coreField rfl hpart
  exact ⟨h₄, by simp [librmcFreeParts, hr₁, hr₂, hr₃, hr₄], ho⟩

/-- `librmc_free` frees a core without slots and its parts. -/
theorem librmcFree_clean (hcore : s.sptrCore = .ref n)
    (ho : Owns s₀ s.heap ((n, .stack b) :: l)) (hl : l.Perm b.parts) (hname : b.name ≠ .junk)
    (herror : b.errorS ≠ .junk) (hstate : b.state ≠ .junk) (hpart : b.core ≠ .junk)
    (hslots : b.count = 0 ∨ b.addr = .null) :
    ∃ s', librmcFree s = some s' ∧ s'.sptrCore = .null ∧ s'.heap.block = s₀.block := by
  obtain ⟨h₁, hparts, ho⟩ := librmcFreeParts_eq ho hl hname herror hstate hpart
  have hget : h₁.get stackKind (.ref n) = some b.cleared := ho.get List.mem_cons_self
  have hloop : ∀ s, librmcFreeLoop b.cleared.count b.cleared.addr s = some s := by
    intro s
    change librmcFreeLoop b.count b.addr s = some s
    rcases hslots with h0 | h0
    · rw [h0]
      rfl
    · rw [h0]
      cases b.count <;> rfl
  obtain ⟨h₂, hfree, ho⟩ := ho.free
  refine ⟨{ s with heap := h₂, sptrCore := .null }, ?_, rfl, ho.block_eq⟩
  simp [librmcFree, hcore, hparts, hget, hloop, hfree]

/-- Junk in a field that `librmc_free` releases. -/
theorem librmcFree_junk_parts (hcore : s.sptrCore = .ref n)
    (ho : Owns s₀ s.heap ((n, .stack b) :: l)) (hl : l.Perm b.parts) (hname : b.name ≠ .junk)
    (herror : b.errorS ≠ .junk) (hjunk : b.state = .junk ∨ b.core = .junk) :
    librmcFree s = none := by
  obtain ⟨h₁, hr₁, ho⟩ := Owns.release (K := stackKind) StackBlock.nameField (ho.perm (hl.cons _)) rfl
    hname
  obtain ⟨h₂, hr₂, ho⟩ := ho.release StackBlock.errorField rfl herror
  have hparts : librmcFreeParts (.ref n) s.heap = none := by
    by_cases hstate : b.state = .junk
    · have hr₃ := ho.release_junk StackBlock.stateField hstate
      simp [librmcFreeParts, hr₁, hr₂, hr₃]
    · obtain ⟨h₃, hr₃, ho⟩ := ho.release StackBlock.stateField rfl hstate
      have hr₄ := ho.release_junk StackBlock.coreField (hjunk.resolve_left hstate)
      simp [librmcFreeParts, hr₁, hr₂, hr₃, hr₄]
  simp [librmcFree, hcore, hparts]

/-- Slots that are counted, behind a pointer that is junk. -/
theorem librmcFree_junk_slots (hcore : s.sptrCore = .ref n)
    (ho : Owns s₀ s.heap ((n, .stack b) :: l)) (hl : l.Perm b.parts) (hname : b.name ≠ .junk)
    (herror : b.errorS ≠ .junk) (hstate : b.state ≠ .junk) (hpart : b.core ≠ .junk)
    (hcount : b.count ≠ 0) (haddr : b.addr = .junk) : librmcFree s = none := by
  obtain ⟨h₁, hparts, ho⟩ := librmcFreeParts_eq ho hl hname herror hstate hpart
  have hget : h₁.get stackKind (.ref n) = some b.cleared := ho.get List.mem_cons_self
  obtain ⟨k, hk⟩ := Nat.exists_eq_succ_of_ne_zero hcount
  have hloop : ∀ s, librmcFreeLoop b.cleared.count b.cleared.addr s = none := by
    intro s
    change librmcFreeLoop b.count b.addr s = none
    rw [hk, haddr, librmcFreeLoop, if_neg nofun]
    rfl
  simp [librmcFree, hcore, hparts, hget, hloop]

/-- `librmc_free` of a core without slots of its own is clean when what it reads is not junk. -/
theorem librmcFree_iff (hcore : s.sptrCore = .ref n)
    (ho : Owns s₀ s.heap ((n, .stack b) :: l)) (hl : l.Perm b.parts) (hname : b.name ≠ .junk)
    (herror : b.errorS ≠ .junk) (haddr : ∀ m, b.addr ≠ .ref m) :
    (∃ s', librmcFree s = some s' ∧ s'.sptrCore = .null ∧ s'.heap.block = s₀.block) ↔
      b.state ≠ .junk ∧ b.core ≠ .junk ∧ (b.count = 0 ∨ b.addr = .null) := by
  constructor
  · rintro ⟨s', hfree, -⟩
    have hstate : b.state ≠ .junk := by
      intro hjunk
      rw [librmcFree_junk_parts hcore ho hl hname herror (.inl hjunk)] at hfree
      exact nomatch hfree
    have hpart : b.core ≠ .junk := by
      intro hjunk
      rw [librmcFree_junk_parts hcore ho hl hname herror (.inr hjunk)] at hfree
      exact nomatch hfree
    refine ⟨hstate, hpart, ?_⟩
    by_contra hslots
    rw [not_or] at hslots
    have hjunk : b.addr = .junk := by
      cases hb : b.addr with
      | null => exact absurd hb hslots.2
      | junk => rfl
      | ref m => exact absurd hb (haddr m)
    rw [librmcFree_junk_slots hcore ho hl hname herror hstate hpart hslots.1 hjunk] at hfree
    exact nomatch hfree
  · rintro ⟨hstate, hpart, hslots⟩
    exact librmcFree_clean hcore ho hl hname herror hstate hpart hslots

end

/-! ### Failing cleanly -/

/-- The calls of `malloc` when none fails. -/
def allocations (str : CPtr ℕ) : ℕ :=
  let node := if str = .null then 0 else 2
  5 + node + coreBits * (4 + node)

/-- `librmc_init` returns with `sptr_core` `NULL`, and with every block freed once that it had
allocated. -/
def EndsClean (a : Allocator) (str : CPtr ℕ) (s : State) : Prop :=
  ∃ s', librmcInit a str s = some s' ∧ s'.sptrCore = .null ∧ s'.heap.block = s.heap.block

/-- When an allocation fails, `librmc_init` ends clean. -/
def FailsCleanly (a : Allocator) (str : CPtr ℕ) (s : State) : Prop :=
  (∃ i < allocations str, a.fails (s.heap.calls + i) = true) → EndsClean a str s

/-- Which failures `librmc_init` cleans up after: that of `sptr_core`, that of `error_s` when `state`,
`core` and the slots are `NULL` by chance, that of `core` when `state` is, and that of `state`. -/
def CleanFailure (a : Allocator) (s : State) : Prop :=
  let n := s.heap.calls
  let old := StackBlock.ofWords (a.words n)
  a.fails n = true ∨
    (a.fails (n + 2) = true ∧ old.state = .null ∧ old.core = .null ∧ (old.count = 0 ∨ old.addr = .null)) ∨
    (a.fails (n + 2) = false ∧ a.fails (n + 3) = true ∧ old.state = .null) ∨
    (a.fails (n + 2) = false ∧ a.fails (n + 3) = false ∧ a.fails (n + 4) = true)

section
variable {a : Allocator} {str : CPtr ℕ} {s : State}

/-- Once the slots are reached, `sptr_core->thread = NULL` is, and `sptr_core` is not `NULL`. -/
theorem sptrCore_of_slots {s' : State} (h : librmcInitSlots a str s = some s') : s'.sptrCore ≠ .null := by
  unfold librmcInitSlots at h
  simp only [bind, Option.bind_eq_some_iff, pure, Option.some.injEq] at h
  obtain ⟨h₁, -, s₁, -, h₂, hmod, rfl⟩ := h
  intro hnull
  rw [show s₁.sptrCore = .null from hnull] at hmod
  exact nomatch hmod

/-- The first two parts, and what is decided by `error_s`. -/
theorem librmcInit_eq (str : CPtr ℕ) (hcore : a.fails s.heap.calls = false) :
    ∃ name errorS h, librmcInit a str s =
        (if errorS = .null then librmcFree { s with heap := h, sptrCore := .ref s.heap.calls }
        else librmcInitParts a str { s with heap := h, sptrCore := .ref s.heap.calls }) ∧
      name ≠ .junk ∧ errorS ≠ .junk ∧ (errorS = .null ↔ a.fails (s.heap.calls + 2) = true) ∧
      h.calls = s.heap.calls + 3 ∧
      Owns s.heap h ((s.heap.calls, .stack { StackBlock.ofWords (a.words s.heap.calls) with
        name := name, errorS := errorS }) :: (errorS.cell .bytes ++ (name.cell .bytes ++ []))) := by
  have hmalloc := s.heap.malloc_ok (fun w => Block.stack (.ofWords w)) hcore
  have ho := (Owns.refl s.heap).push (.stack (.ofWords (a.words s.heap.calls)))
  obtain ⟨name, h₁, h₂, hm₁, hmod₁, hcalls₁, hname, -, ho⟩ :=
    Owns.mallocField (K := stackKind) StackBlock.nameField ho a fun _ => .bytes
  obtain ⟨errorS, h₃, h₄, hm₂, hmod₂, hcalls₂, herror, hnull, ho⟩ :=
    ho.mallocField StackBlock.errorField a fun _ => .bytes
  rw [hcalls₁, Store.calls_push] at hnull hcalls₂
  refine ⟨name, errorS, h₄, ?_, hname, herror, hnull, hcalls₂, ho⟩
  simp [librmcInit, hmalloc, libcrtNewStr, hm₁, hmod₁, hm₂, hmod₂]

/-- With `error_s` allocated, `librmc_init` goes on to the other parts. -/
theorem librmcInit_parts (str : CPtr ℕ) (hcore : a.fails s.heap.calls = false)
    (herror : a.fails (s.heap.calls + 2) = false) :
    ∃ name errorS h, librmcInit a str s =
        librmcInitParts a str { s with heap := h, sptrCore := .ref s.heap.calls } ∧
      name ≠ .junk ∧ errorS ≠ .junk ∧ h.calls = s.heap.calls + 3 ∧
      Owns s.heap h ((s.heap.calls, .stack { StackBlock.ofWords (a.words s.heap.calls) with
        name := name, errorS := errorS }) :: (errorS.cell .bytes ++ (name.cell .bytes ++ []))) := by
  obtain ⟨name, errorS, h, hinit, hname, hjunk, hnull, hcalls, ho⟩ := librmcInit_eq str hcore
  have hne : errorS ≠ .null := by
    rw [Ne, hnull, herror]
    exact Bool.false_ne_true
  rw [if_neg hne] at hinit
  exact ⟨name, errorS, h, hinit, hname, hjunk, hcalls, ho⟩

end

section
variable {a : Allocator} {str : CPtr ℕ} {s : State} {s₀ : Store Block} {n : ℕ} {b : StackBlock}
  {l : List (ℕ × Block)}

/-- The core with the fields set that `librmc_init` sets after `error_s`. -/
def StackBlock.zeroed (b : StackBlock) : StackBlock := { b with count := 0, addr := .null, sector := 0 }

theorem initParts_core (str : CPtr ℕ) (hcore : s.sptrCore = .ref n)
    (ho : Owns s₀ s.heap ((n, .stack b) :: l)) (hfails : a.fails s.heap.calls = true) :
    ∃ h, librmcInitParts a str s = librmcFree { s with heap := h } ∧
      Owns s₀ h ((n, .stack { b.zeroed with core := .null }) :: l) := by
  obtain ⟨h₁, hmod₁, hcalls₁, ho⟩ := Owns.modify (K := stackKind) ho StackBlock.zeroed
  obtain ⟨core, h₂, h₃, hm₂, hmod₂, -, -, hnull, ho⟩ :=
    ho.mallocField StackBlock.coreField a fun _ => .bytes
  rw [hcalls₁] at hnull
  obtain rfl := hnull.mpr hfails
  refine ⟨h₃, ?_, ho⟩
  have hzeroed : (s.heap.modify stackKind (.ref n) fun b =>
      { b with count := 0, addr := .null, sector := 0 }) = some h₁ := hmod₁
  simp [librmcInitParts, hcore, hzeroed, libcrtNewStr, hm₂, hmod₂]

theorem initParts_state (str : CPtr ℕ) (hcore : s.sptrCore = .ref n)
    (ho : Owns s₀ s.heap ((n, .stack b) :: l)) (hok : a.fails s.heap.calls = false) :
    ∃ core state h, core ≠ .junk ∧ (state = .null ↔ a.fails (s.heap.calls + 1) = true) ∧
      librmcInitParts a str s = (if state = .null then librmcFree { s with heap := h }
        else (h.modify stackKind s.sptrCore fun b => { b with handle := .null }).bind fun h =>
          librmcInitSlots a str { s with heap := h }) ∧
      Owns s₀ h ((n, .stack { b.zeroed with core := core, state := state }) ::
        (state.cell .bytes ++ (core.cell .bytes ++ l))) := by
  obtain ⟨h₁, hmod₁, hcalls₁, ho⟩ := Owns.modify (K := stackKind) ho StackBlock.zeroed
  obtain ⟨core, h₂, h₃, hm₂, hmod₂, hcalls₂, hjunk, hnull, ho⟩ :=
    ho.mallocField StackBlock.coreField a fun _ => .bytes
  obtain ⟨state, h₄, h₅, hm₃, hmod₃, -, -, hnull', ho⟩ :=
    ho.mallocField StackBlock.stateField a fun _ => .bytes
  rw [hcalls₁] at hnull hcalls₂
  rw [hcalls₂] at hnull'
  have hne : core ≠ .null := by
    rw [Ne, hnull, hok]
    exact Bool.false_ne_true
  refine ⟨core, state, h₅, hjunk, hnull', ?_, ho⟩
  have hzeroed : (s.heap.modify stackKind (.ref n) fun b =>
      { b with count := 0, addr := .null, sector := 0 }) = some h₁ := hmod₁
  simp [librmcInitParts, hcore, hzeroed, libcrtNewStr, hm₂, hmod₂, hne, hm₃, hmod₃]

/-! ### When each part is the one that fails -/

/-- `sptr_core` itself. -/
theorem endsClean_core (h : a.fails s.heap.calls = true) : EndsClean a str s := by
  have hmalloc := s.heap.malloc_fails (fun w => Block.stack (.ofWords w)) h
  exact ⟨{ s with heap := s.heap.tick, sptrCore := .null }, by simp [librmcInit, hmalloc], rfl, rfl⟩

/-- `error_s`: `librmc_free` reads three fields that were not set. -/
theorem endsClean_error_iff (hcore : a.fails s.heap.calls = false)
    (herror : a.fails (s.heap.calls + 2) = true) :
    EndsClean a str s ↔
      (StackBlock.ofWords (a.words s.heap.calls)).state = .null ∧
      (StackBlock.ofWords (a.words s.heap.calls)).core = .null ∧
      ((StackBlock.ofWords (a.words s.heap.calls)).count = 0 ∨
        (StackBlock.ofWords (a.words s.heap.calls)).addr = .null) := by
  obtain ⟨name, errorS, h, hinit, hname, hjunk, hnull, -, ho⟩ := librmcInit_eq str hcore
  obtain rfl := hnull.mpr herror
  rw [if_pos rfl] at hinit
  have hfree := librmcFree_iff (s := { s with heap := h, sptrCore := .ref s.heap.calls }) rfl
    ho (by simp [StackBlock.parts, StackBlock.ofWords]) hname hjunk fun m => CPtr.ofWord_ne_ref _ m
  unfold EndsClean
  rw [hinit, hfree]
  simp [StackBlock.ofWords, CPtr.ofWord_eq_junk_iff]

/-- `core`: `librmc_free` reads `state`, which was not set. -/
theorem endsClean_time_iff (hcore : a.fails s.heap.calls = false)
    (herror : a.fails (s.heap.calls + 2) = false) (htime : a.fails (s.heap.calls + 3) = true) :
    EndsClean a str s ↔ (StackBlock.ofWords (a.words s.heap.calls)).state = .null := by
  obtain ⟨name, errorS, h, hinit, hname, hjunk, hcalls, ho⟩ := librmcInit_parts str hcore herror
  obtain ⟨h₁, hparts, ho⟩ := initParts_core str
    (s := { s with heap := h, sptrCore := .ref s.heap.calls }) rfl ho (by rwa [hcalls])
  have hfree := librmcFree_iff (s := { s with heap := h₁, sptrCore := .ref s.heap.calls }) rfl
    ho (by simpa [StackBlock.parts, StackBlock.zeroed, StackBlock.ofWords] using List.perm_append_comm)
    hname hjunk fun m => nofun
  unfold EndsClean
  rw [hinit, hparts, hfree]
  simp [StackBlock.ofWords, StackBlock.zeroed, CPtr.ofWord_eq_junk_iff]

/-- `state`: every field is set. -/
theorem endsClean_state (hcore : a.fails s.heap.calls = false)
    (herror : a.fails (s.heap.calls + 2) = false) (htime : a.fails (s.heap.calls + 3) = false)
    (hstate : a.fails (s.heap.calls + 4) = true) : EndsClean a str s := by
  obtain ⟨name, errorS, h, hinit, hname, hjunk, hcalls, ho⟩ := librmcInit_parts str hcore herror
  obtain ⟨core, state, h₁, hjunk', hnull', hparts, ho⟩ := initParts_state str
    (s := { s with heap := h, sptrCore := .ref s.heap.calls }) rfl ho (by rwa [hcalls])
  obtain rfl := hnull'.mpr (by rwa [hcalls])
  rw [if_pos rfl] at hparts
  unfold EndsClean
  rw [hinit, hparts]
  refine librmcFree_clean (s := { s with heap := h₁, sptrCore := .ref s.heap.calls }) rfl ho ?_
    hname hjunk (fun h => nomatch h) hjunk' (.inl rfl)
  have hswap : (errorS.cell Block.bytes ++ name.cell Block.bytes).Perm
      (name.cell Block.bytes ++ errorS.cell Block.bytes) := List.perm_append_comm
  simpa [StackBlock.parts, StackBlock.zeroed] using
    List.perm_append_comm.trans (hswap.append_right (core.cell Block.bytes))

/-- Nothing before the slots: the run ends with a core or not at all. -/
theorem not_endsClean_slots (hcore : a.fails s.heap.calls = false)
    (herror : a.fails (s.heap.calls + 2) = false) (htime : a.fails (s.heap.calls + 3) = false)
    (hstate : a.fails (s.heap.calls + 4) = false) : ¬ EndsClean a str s := by
  obtain ⟨name, errorS, h, hinit, hname, hjunk, hcalls, ho⟩ := librmcInit_parts str hcore herror
  obtain ⟨core, state, h₁, -, hnull', hparts, -⟩ := initParts_state str
    (s := { s with heap := h, sptrCore := .ref s.heap.calls }) rfl ho (by rwa [hcalls])
  have hne' : state ≠ .null := by
    rw [Ne, hnull', hcalls, hstate]
    exact Bool.false_ne_true
  rw [if_neg hne'] at hparts
  rintro ⟨s', hrun, hsptr, -⟩
  rw [hinit, hparts, Option.bind_eq_some_iff] at hrun
  obtain ⟨h₂, -, hslots⟩ := hrun
  exact sptrCore_of_slots hslots hsptr

end

theorem endsClean_iff (a : Allocator) (str : CPtr ℕ) (s : State) :
    EndsClean a str s ↔ CleanFailure a s := by
  simp only [CleanFailure]
  cases hcore : a.fails s.heap.calls with
  | true => exact iff_of_true (endsClean_core hcore) (.inl rfl)
  | false =>
      cases herror : a.fails (s.heap.calls + 2) with
      | true => simp [endsClean_error_iff hcore herror]
      | false =>
          cases htime : a.fails (s.heap.calls + 3) with
          | true => simp [endsClean_time_iff hcore herror htime]
          | false =>
              cases hstate : a.fails (s.heap.calls + 4) with
              | true => simp [endsClean_state hcore herror htime hstate]
              | false => simp [not_endsClean_slots hcore herror htime hstate]

end RmcAlloc

open RmcAlloc

/-- **Failing allocations.**  `librmc_init` fails cleanly exactly when no allocation fails, or it is a
`CleanFailure`. -/
theorem failsCleanly_iff (a : Allocator) (str : CPtr ℕ) (s : State) :
    FailsCleanly a str s ↔
      (∀ i < allocations str, a.fails (s.heap.calls + i) = false) ∨ CleanFailure a s := by
  unfold FailsCleanly
  rw [endsClean_iff]
  constructor
  · intro h
    rw [or_iff_not_imp_left]
    intro hnot
    push Not at hnot
    obtain ⟨i, hi, hfails⟩ := hnot
    exact h ⟨i, hi, Bool.eq_true_of_not_eq_false hfails⟩
  · rintro (hnone | hclean) ⟨i, hi, hfails⟩
    · rw [hnone i hi] at hfails
      exact nomatch hfails
    · exact hclean

/-- The allocation of the first slot fails: `librmc_update` frees the core, and `librmc_init` writes
to the core that is `NULL` then. -/
theorem not_failsCleanly_slot :
    ¬ FailsCleanly ⟨fun n => n = 8, fun _ _ => 0⟩ (.ref 0)
      ⟨Store.empty.push (.proc ⟨0, .null⟩), .null, 0, 0⟩ := by
  unfold FailsCleanly
  rw [endsClean_iff]
  intro h
  have hclean := h ⟨7, by decide, by decide⟩
  simp [CleanFailure, Store.empty] at hclean

end Carroll
