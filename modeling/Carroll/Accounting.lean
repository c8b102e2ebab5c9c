import Carroll.Mod
import Carroll.Rmc
import Carroll.Runs

/-! # What was allocated and what was freed

`crserv` shows its progress, and decides when to power off, by four global counters: `crt_count`
and `rmc_count` count what was put into the list of system nodes, the module stack and the table of
core slots, `crt_free` and `rmc_free` what was taken out and freed.  The counters are `unsigned
int`, so that they are compared modulo `2 ^ 32`.

The state has the three lists as values.  A teardown frees what its loop visits; the header of
the list of system nodes is freed with it, and `lost` are the nodes that no loop visited.  The
entry that `mod_free` reads after it was freed still has its `next`. -/

namespace Carroll

/-- `struct sysnode_addr_t`. -/
structure SysnodeAddr where
  num : ℕ
  name : CharPtr
  sysd : ℕ
  size : ℕ
deriving DecidableEq, Repr

/-- The global state that the counters are about. -/
structure Crt where
  psys : Option (Counted SysnodeAddr)
  lost : List SysnodeAddr
  stack : ModStack
  rmc : Rmc
  crtCount : ℕ
  crtFree : ℕ

namespace Crt

/-- The system nodes and modules that are not freed. -/
def live (g : Crt) : ℕ :=
  (g.psys.map (·.addr.length)).getD 0 + g.lost.length + g.stack.addr.length

/-- The core slots that are not freed. -/
def liveSlots (g : Crt) : ℕ := (g.rmc.sptrCore.map (·.slots.count)).getD 0

end Crt

/-! ### System nodes -/

/-- The arguments of a `libcrt_sysnode_update`, and the outcome of its two allocations. -/
structure SysnodeCall where
  sysdev : CharPtr
  sysd : ℕ
  size : ℕ
  upd : Bool
  name : Bool

/-- `libcrt_sysnode_update(psys, …)`. -/
def libcrtSysnodeUpdate (g : Crt) (c : SysnodeCall) : Option Crt :=
  match g.psys with
  | none => some g
  | some str =>
      if !c.upd then some g
      else (libcrtNewStr c.sysdev c.name).map fun name =>
        { g with psys := some (str.push ⟨str.count, name, c.sysd, c.size⟩)
                 crtCount := u32 (g.crtCount + 1) }

/-- Several of them, one after the other. -/
def libcrtSysnodeUpdates : Crt → List SysnodeCall → Option Crt
  | g, [] => some g
  | g, c :: cs => (libcrtSysnodeUpdate g c).bind fun g => libcrtSysnodeUpdates g cs

/-- `psys = libcrt_sysnode_exit(psys)`. -/
def libcrtSysnodeExit (g : Crt) : Crt :=
  match g.psys with
  | none => g
  | some str =>
      { g with psys := none
               lost := g.lost ++ str.drain.addr
               crtFree := u32 (g.crtFree + str.count) }

/-! ### Modules and core slots -/

/-- The system nodes that the rounds of a loading register through `xm_init`. -/
def Loading.initCalls (ld : Loading) (inits : ℕ → List SysnodeCall) : List SysnodeCall :=
  (List.range ld.rounds).flatMap fun n => if ld.started n then inits n else []

/-- `mod_update(stack, …, psys)`; `xm_init` makes the calls `inits` in its rounds. -/
def crtModUpdate (g : Crt) (ld : Loading) (inits : ℕ → List SysnodeCall) (node : SysnodeCall) :
    Option Crt :=
  (modUpdateOn g.stack.count ld
    (fun name g => (libcrtSysnodeUpdates g (ld.initCalls inits)).bind fun g =>
      libcrtSysnodeUpdate g { node with sysdev := name })
    (fun upd g => some { g with stack := g.stack.push upd, crtCount := u32 (g.crtCount + 1) })
    g).map Prod.fst

/-- `mod_free(stack, psys)`. -/
def crtModFree (g : Crt) : Crt :=
  { g with stack := modFree g.stack, crtFree := u32 (g.crtFree + g.stack.count) }

/-- `librmc_update(dev_name, …, psys)`. -/
def crtLibrmcUpdate (md5 : List UInt8 → List UInt8) (g : Crt) (dev : List UInt8) (number : ℕ)
    (alloc : UpdateAlloc) (node : SysnodeCall) : Option Crt :=
  let r := librmcUpdate md5 g.rmc dev number alloc
  if r.1 = 1 then libcrtSysnodeUpdate { g with rmc := r.2 } { node with sysdev := .str dev }
  else some { g with rmc := r.2 }

/-- `librmc_free`. -/
def crtLibrmcFree (g : Crt) : Crt := { g with rmc := librmcFree g.rmc }

/-! ### Runs -/

/-- The operations that move the counters. -/
inductive CrtAction where
  | sysnodeUpdate (c : SysnodeCall)
  | modUpdate (ld : Loading) (inits : ℕ → List SysnodeCall) (node : SysnodeCall)
  | librmcUpdate (dev : List UInt8) (number : ℕ) (alloc : UpdateAlloc) (node : SysnodeCall)
  | sysnodeExit
  | modFree
  | librmcFree

/-- The three that add something. -/
def CrtAction.isUpdate : CrtAction → Bool
  | .sysnodeUpdate _ => true
  | .modUpdate _ _ _ => true
  | .librmcUpdate _ _ _ _ => true
  | _ => false

/-- One operation. -/
def crtStep (md5 : List UInt8 → List UInt8) (g : Crt) : CrtAction → Option Crt
  | .sysnodeUpdate c => libcrtSysnodeUpdate g c
  | .modUpdate ld inits node => crtModUpdate g ld inits node
  | .librmcUpdate dev number alloc node => crtLibrmcUpdate md5 g dev number alloc node
  | .sysnodeExit => some (libcrtSysnodeExit g)
  | .modFree => some (crtModFree g)
  | .librmcFree => some (crtLibrmcFree g)

/-- Unsigned subtraction. -/
def sub32 (a b : ℕ) : ℕ := u32 (a + (2 ^ 32 - u32 b))

/-- What was counted in is what was counted out and what is live; all nodes that were lost are
whole turns of the counter. -/
structure Crt.Balanced (g : Crt) : Prop where
  crt : g.crtCount = u32 (g.crtFree + g.live)
  rmc : g.rmc.rmcCount = u32 (g.rmc.rmcFree + g.liveSlots)
  lost : u32 g.lost.length = 0

/-- Nothing was counted and nothing is there. -/
structure Crt.Fresh (g : Crt) : Prop where
  live : g.live = 0
  liveSlots : g.liveSlots = 0
  counters : g.crtCount = 0 ∧ g.crtFree = 0 ∧ g.rmc.rmcCount = 0 ∧ g.rmc.rmcFree = 0

theorem sub32_add (a n : ℕ) : sub32 (u32 (a + n)) a = u32 n := by
  unfold sub32 u32
  omega

theorem Crt.Fresh.balanced {g : Crt} (h : g.Fresh) : g.Balanced := by
  obtain ⟨hc, hf, hrc, hrf⟩ := h.counters
  have hlost : g.lost.length = 0 := by
    have := h.live
    unfold Crt.live at this
    omega
  exact ⟨by rw [hc, hf, h.live]; rfl, by rw [hrc, hrf, h.liveSlots]; rfl, by rw [hlost]; rfl⟩

/-- What a `libcrt_sysnode_update` can do: nothing, or one node and one count. -/
theorem libcrtSysnodeUpdate_cases {g g' : Crt} {c : SysnodeCall}
    (h : libcrtSysnodeUpdate g c = some g') :
    g' = g ∨ ∃ str a, g.psys = some str ∧
      g' = { g with psys := some (str.push a), crtCount := u32 (g.crtCount + 1) } := by
  unfold libcrtSysnodeUpdate at h
  cases hs : g.psys with
  | none =>
      simp only [hs, Option.some.injEq] at h
      exact .inl h.symm
  | some str =>
      simp only [hs] at h
      by_cases hu : c.upd = true
      · simp only [hu, Bool.not_true, Bool.false_eq_true, if_false, Option.map_eq_some_iff] at h
        obtain ⟨name, -, rfl⟩ := h
        exact .inr ⟨str, _, rfl, rfl⟩
      · simp only [hu, Bool.not_false, if_true, Option.some.injEq] at h
        exact .inl h.symm

theorem crtModUpdate_none {g : Crt} {ld : Loading} {inits : ℕ → List SysnodeCall} {node : SysnodeCall}
    (hupd : ld.upd = none) : crtModUpdate g ld inits node = some g := by
  rw [crtModUpdate, modUpdateOn, hupd]
  rfl

/-- What a `mod_update` that got its block can do. -/
theorem crtModUpdate_iff {g g' : Crt} {ld : Loading} {inits : ℕ → List SysnodeCall} {node : SysnodeCall}
    {upd : ModAddr} (hupd : ld.upd = some upd) :
    crtModUpdate g ld inits node = some g' ↔ ∃ s g₁ g₂, modLoad g.stack ld upd = some s ∧
      libcrtSysnodeUpdates g (ld.initCalls inits) = some g₁ ∧
      libcrtSysnodeUpdate g₁ { node with sysdev := s.upd.moduleName } = some g₂ ∧
      g' = { g₂ with stack := g₂.stack.push s.upd, crtCount := u32 (g₂.crtCount + 1) } := by
  simp only [crtModUpdate, modUpdateOn, hupd, Option.map_eq_some_iff, Option.bind_eq_some_iff,
    Option.some.injEq]
  constructor
  · rintro ⟨⟨_, res⟩, ⟨s, hs, g₂, ⟨g₁, h₁, h₂⟩, _, rfl, hres⟩, rfl⟩
    exact ⟨s, g₁, g₂, hs, h₁, h₂, (congrArg Prod.fst hres).symm⟩
  · rintro ⟨s, g₁, g₂, hs, h₁, h₂, rfl⟩
    exact ⟨_, ⟨s, hs, g₂, ⟨g₁, h₁, h₂⟩, _, rfl, rfl⟩, rfl⟩

theorem u32_succ {a b : ℕ} (h : a = u32 b) : u32 (a + 1) = u32 (b + 1) := by
  rw [h]
  unfold u32
  omega

theorem Crt.Balanced.sysnodeUpdate {g g' : Crt} {c : SysnodeCall} (hg : g.Balanced)
    (h : libcrtSysnodeUpdate g c = some g') : g'.Balanced := by
  obtain rfl | ⟨str, a, hs, rfl⟩ := libcrtSysnodeUpdate_cases h
  · exact hg
  · refine ⟨?_, hg.rmc, hg.lost⟩
    dsimp only
    rw [u32_succ hg.crt]
    congr 1
    simp only [Crt.live, hs, Option.map_some, Option.getD_some, Counted.addr_push,
      List.length_append, List.length_singleton]
    omega

theorem Crt.Balanced.sysnodeUpdates {g g' : Crt} {cs : List SysnodeCall} (hg : g.Balanced)
    (h : libcrtSysnodeUpdates g cs = some g') : g'.Balanced := by
  induction cs generalizing g with
  | nil =>
      obtain rfl := Option.some.inj h
      exact hg
  | cons c cs ih =>
      rw [libcrtSysnodeUpdates, Option.bind_eq_some_iff] at h
      obtain ⟨g₁, h₁, h⟩ := h
      exact ih (hg.sysnodeUpdate h₁) h

theorem Crt.Balanced.modUpdate {g g' : Crt} {ld : Loading} {inits : ℕ → List SysnodeCall}
    {node : SysnodeCall} (hg : g.Balanced) (h : crtModUpdate g ld inits node = some g') :
    g'.Balanced := by
  cases hu : ld.upd with
  | none =>
      rw [crtModUpdate_none hu, Option.some.injEq] at h
      exact h ▸ hg
  | some upd =>
      obtain ⟨s, g₁, g₂, -, h₁, h₂, rfl⟩ := (crtModUpdate_iff hu).mp h
      have hg₂ := (hg.sysnodeUpdates h₁).sysnodeUpdate h₂
      refine ⟨?_, hg₂.rmc, hg₂.lost⟩
      dsimp only
      rw [u32_succ hg₂.crt]
      congr 1
      simp only [Crt.live, Counted.addr_push, List.length_append, List.length_singleton]
      omega

/-- Only the table and its counters of the state change: the balance of the rest stays. -/
theorem Crt.Balanced.setRmc {g : Crt} {r : Rmc} (hg : g.Balanced)
    (h : r.rmcCount = u32 (r.rmcFree + (r.sptrCore.map (·.slots.count)).getD 0)) :
    ({ g with rmc := r } : Crt).Balanced := ⟨hg.crt, h, hg.lost⟩

theorem Crt.Balanced.setLibrmcFree {g : Crt} (hg : g.Balanced) (digests : Digests) (rand : Rand) :
    ({ g with rmc := Carroll.librmcFree { g.rmc with digests := digests, rand := rand } } :
      Crt).Balanced := by
  apply hg.setRmc
  have hrmc := hg.rmc
  unfold Crt.liveSlots at hrmc
  unfold Carroll.librmcFree
  cases hs : g.rmc.sptrCore with
  | none =>
      rw [hs] at hrmc
      simp only [hs, hrmc]
  | some s =>
      rw [hs, Option.map_some, Option.getD_some] at hrmc
      simp only [hrmc, Option.map_none, Option.getD_none, Nat.add_zero]
      unfold u32
      omega

theorem Crt.Balanced.librmcFree {g : Crt} (hg : g.Balanced) : (crtLibrmcFree g).Balanced :=
  hg.setLibrmcFree g.rmc.digests g.rmc.rand

theorem Crt.Balanced.librmcUpdate {md5 : List UInt8 → List UInt8} {g g' : Crt} {dev : List UInt8}
    {number : ℕ} {alloc : UpdateAlloc} {node : SysnodeCall} (hg : g.Balanced)
    (h : crtLibrmcUpdate md5 g dev number alloc node = some g') : g'.Balanced := by
  have hset : ({ g with rmc := (Carroll.librmcUpdate md5 g.rmc dev number alloc).2 } : Crt).Balanced := by
    obtain h | ⟨s, upd, digests, rand, hs, h⟩ | ⟨digests, rand, h⟩ :=
      librmcUpdate_cases md5 g.rmc dev number alloc
    · rw [h]
      exact hg
    · rw [h]
      apply hg.setRmc
      have hrmc := hg.rmc
      rw [Crt.liveSlots, hs, Option.map_some, Option.getD_some] at hrmc
      exact u32_succ hrmc
    · rw [h]
      exact hg.setLibrmcFree digests rand
  unfold crtLibrmcUpdate at h
  dsimp only at h
  split_ifs at h with hr
  · exact hset.sysnodeUpdate h
  · exact Option.some.inj h ▸ hset

theorem Crt.Balanced.sysnodeExit {g : Crt} (hg : g.Balanced) : (libcrtSysnodeExit g).Balanced := by
  unfold libcrtSysnodeExit
  cases hs : g.psys with
  | none => exact hg
  | some str =>
      obtain ⟨hlen, hturn⟩ := str.length_drain
      have hcrt := hg.crt
      have hlost := hg.lost
      simp only [Crt.live, hs, Option.map_some, Option.getD_some] at hcrt
      refine ⟨?_, hg.rmc, ?_⟩
      · simp only [Crt.live, Option.map_none, Option.getD_none, List.length_append]
        rw [hcrt]
        unfold u32
        omega
      · simp only [List.length_append]
        unfold u32 at *
        omega

theorem Crt.Balanced.modFree {g : Crt} (hg : g.Balanced) : (crtModFree g).Balanced := by
  obtain ⟨hlen, -⟩ := g.stack.length_drain
  have hcrt := hg.crt
  refine ⟨?_, hg.rmc, hg.lost⟩
  simp only [Crt.live, crtModFree, Carroll.modFree] at hcrt ⊢
  rw [hcrt]
  unfold u32
  omega

theorem Crt.Balanced.step {md5 : List UInt8 → List UInt8} {g g' : Crt} {a : CrtAction}
    (hg : g.Balanced) (h : crtStep md5 g a = some g') : g'.Balanced := by
  cases a with
  | sysnodeUpdate c => exact hg.sysnodeUpdate h
  | modUpdate ld inits node => exact hg.modUpdate h
  | librmcUpdate dev number alloc node => exact hg.librmcUpdate h
  | sysnodeExit => exact Option.some.inj h ▸ hg.sysnodeExit
  | modFree => exact Option.some.inj h ▸ hg.modFree
  | librmcFree => exact Option.some.inj h ▸ hg.librmcFree

/-! ### Teardown -/

/-- A step that adds nothing is one of the three that free a list. -/
theorem crtStep_frees {md5 : List UInt8 → List UInt8} {g g' : Crt} {a : CrtAction}
    (ha : a.isUpdate = false) (h : crtStep md5 g a = some g') :
    g' = libcrtSysnodeExit g ∨ g' = crtModFree g ∨ g' = crtLibrmcFree g := by
  cases a with
  | sysnodeUpdate c => cases ha
  | modUpdate ld inits node => cases ha
  | librmcUpdate dev number alloc node => cases ha
  | sysnodeExit => exact .inl (Option.some.inj h).symm
  | modFree => exact .inr (.inl (Option.some.inj h).symm)
  | librmcFree => exact .inr (.inr (Option.some.inj h).symm)

/-- The invariant of the steps after a teardown: what it emptied stays empty. -/
theorem Crt.psys_teardown {md5 : List UInt8 → List UInt8} {g g' : Crt} {a : CrtAction}
    (ha : a.isUpdate = false) (hg : g.psys = none) (h : crtStep md5 g a = some g') :
    g'.psys = none := by
  obtain rfl | rfl | rfl := crtStep_frees ha h
  · simp [libcrtSysnodeExit, hg]
  · exact hg
  · exact hg

theorem Crt.stack_teardown {md5 : List UInt8 → List UInt8} {g g' : Crt} {a : CrtAction}
    (ha : a.isUpdate = false) (hg : g.stack.count = 0) (h : crtStep md5 g a = some g') :
    g'.stack.count = 0 := by
  obtain rfl | rfl | rfl := crtStep_frees ha h
  · unfold libcrtSysnodeExit
    split <;> exact hg
  · rfl
  · exact hg

theorem Crt.core_teardown {md5 : List UInt8 → List UInt8} {g g' : Crt} {a : CrtAction}
    (ha : a.isUpdate = false) (hg : g.rmc.sptrCore = none) (h : crtStep md5 g a = some g') :
    g'.rmc.sptrCore = none := by
  obtain rfl | rfl | rfl := crtStep_frees ha h
  · unfold libcrtSysnodeExit
    split <;> exact hg
  · exact hg
  · simp [crtLibrmcFree, Carroll.librmcFree, hg]

/-- With the three lists empty the counters agree. -/
theorem Crt.Balanced.settled {g : Crt} (hg : g.Balanced) (hpsys : g.psys = none)
    (hstack : g.stack.count = 0) (hcore : g.rmc.sptrCore = none) :
    u32 (g.crtFree + g.rmc.rmcFree) = u32 (g.crtCount + g.rmc.rmcCount) := by
  have hcrt := hg.crt
  have hrmc := hg.rmc
  have hlost := hg.lost
  have hturn := g.stack.count_eq
  rw [hstack] at hturn
  simp only [Crt.live, Crt.liveSlots, hpsys, hcore, Option.map_none, Option.getD_none] at hcrt hrmc
  rw [hcrt, hrmc]
  unfold u32 at *
  omega

/-- All three teardowns are among the actions of a trace. -/
def TornDown (tr : List (Crt × CrtAction × Crt)) : Prop :=
  .sysnodeExit ∈ tr.map (·.2.1) ∧ .modFree ∈ tr.map (·.2.1) ∧ .librmcFree ∈ tr.map (·.2.1)

/-- The state before the first operation: a header of the list of system nodes, an empty stack. -/
def Crt.zero : Crt := ⟨some Counted.empty, [], modAlloc, Rmc.zero, 0, 0⟩

theorem Crt.fresh_zero : Crt.zero.Fresh := ⟨rfl, rfl, rfl, rfl, rfl, rfl⟩

/-- `libcrt_sysnode_update` with a `NULL` name, all allocations succeeding. -/
def plainNode : SysnodeCall := ⟨.null, 0, 0, true, true⟩

/-- **Accounting.**  In every state that updates, any of which may fail to allocate, and then teardowns
in any order lead to, `crt_count - crt_free` is the number of live system nodes and modules and
`rmc_count - rmc_free` that of live core slots, in the arithmetic of `unsigned int`; and after all
three teardowns the sums of the counters are equal.  (As values of the lists, what comes before
the last teardowns may be in any order.) -/
theorem shutdown_accounting (md5 : List UInt8 → List UInt8) {g₀ g : Crt}
    {tr₁ tr₂ : List (Crt × CrtAction × Crt)} (h₀ : g₀.Fresh)
    (h : Run (crtStep md5) g₀ (tr₁ ++ tr₂) g) (h₂ : ∀ x ∈ tr₂, x.2.1.isUpdate = false) :
    sub32 g.crtCount g.crtFree = u32 g.live ∧
    sub32 g.rmc.rmcCount g.rmc.rmcFree = u32 g.liveSlots ∧
    (TornDown tr₂ → u32 (g.crtFree + g.rmc.rmcFree) = u32 (g.crtCount + g.rmc.rmcCount)) := by
  have hg : g.Balanced := h.invariant' (fun _ _ _ hs hst => hs.step hst) h₀.balanced
  refine ⟨by rw [hg.crt, sub32_add], by rw [hg.rmc, sub32_add], ?_⟩
  rintro ⟨hexit, hmod, hcore⟩
  obtain ⟨x, hx, hxa⟩ := List.mem_map.mp hexit
  obtain ⟨y, hy, hya⟩ := List.mem_map.mp hmod
  obtain ⟨z, hz, hza⟩ := List.mem_map.mp hcore
  obtain ⟨g₁, -, hrun⟩ := h.split
  have hP : ∀ x ∈ tr₂, (fun (_ : Crt) (a : CrtAction) => a.isUpdate = false) x.1 x.2.1 := h₂
  have hx' := hrun.step_eq x hx
  have hy' := hrun.step_eq y hy
  have hz' := hrun.step_eq z hz
  rw [hxa] at hx'
  rw [hya] at hy'
  rw [hza] at hz'
  apply hg.settled
  · apply hrun.settled (fun _ _ _ ha hs hst => Crt.psys_teardown ha hs hst) hP hx
    rw [← Option.some.inj hx', libcrtSysnodeExit]
    split <;> simp_all
  · apply hrun.settled (fun _ _ _ ha hs hst => Crt.stack_teardown ha hs hst) hP hy
    rw [← Option.some.inj hy']
    rfl
  · apply hrun.settled (fun _ _ _ ha hs hst => Crt.core_teardown ha hs hst) hP hz
    rw [← Option.some.inj hz', crtLibrmcFree, Carroll.librmcFree]
    split <;> simp_all

/-- `shutdown_accounting` for one node and the three teardowns. -/
theorem shutdown_accounting_one : ∃ tr g, Run (crtStep md5Digest) Crt.zero tr g ∧
    tr.map (·.2.1) = [.sysnodeUpdate plainNode, .sysnodeExit, .librmcFree, .modFree] ∧
    u32 (g.crtFree + g.rmc.rmcFree) = u32 (g.crtCount + g.rmc.rmcCount) := by
  obtain ⟨g, hg⟩ : ∃ g, crtStep md5Digest Crt.zero (.sysnodeUpdate plainNode) = some g := ⟨_, rfl⟩
  have hdown : Run (crtStep md5Digest) g
      [(g, .sysnodeExit, libcrtSysnodeExit g),
        (libcrtSysnodeExit g, .librmcFree, crtLibrmcFree (libcrtSysnodeExit g)),
        (crtLibrmcFree (libcrtSysnodeExit g), .modFree,
          crtModFree (crtLibrmcFree (libcrtSysnodeExit g)))]
      (crtModFree (crtLibrmcFree (libcrtSysnodeExit g))) :=
    .cons rfl (.cons rfl (.cons rfl (.nil _)))
  have h := shutdown_accounting md5Digest Crt.fresh_zero ((Run.single hg).append hdown)
    (by simp [CrtAction.isUpdate])
  exact ⟨_, _, (Run.single hg).append hdown, rfl,
    h.2.2 ⟨by simp, by simp, by simp⟩⟩

/-! ### A full turn of the counter -/

theorem exists_run_updates (md5 : List UInt8 → List UInt8) (n : ℕ) :
    ∃ tr g, Run (crtStep md5) Crt.zero tr g ∧ (∀ x ∈ tr, x.2.1.isUpdate = true) ∧
      (∃ str, g.psys = some str) ∧ g.live = n ∧ g.crtCount = u32 n ∧ g.crtFree = 0 := by
  induction n with
  | zero =>
      exact ⟨[], _, .nil _, fun x hx => absurd hx List.not_mem_nil, ⟨_, rfl⟩, rfl, rfl, rfl⟩
  | succ n ih =>
      obtain ⟨tr, g, hrun, hup, ⟨str, hs⟩, hlive, hcount, hfree⟩ := ih
      have hstep : crtStep md5 g (.sysnodeUpdate plainNode) =
          some { g with psys := some (str.push ⟨str.count, .null, 0, 0⟩)
                        crtCount := u32 (g.crtCount + 1) } := by
        simp [crtStep, libcrtSysnodeUpdate, hs, plainNode, libcrtNewStr]
      refine ⟨_, _, hrun.append (.single hstep), ?_, ⟨_, rfl⟩, ?_, u32_succ hcount, hfree⟩
      · intro x hx
        rcases List.mem_append.mp hx with hx | hx
        · exact hup x hx
        · rw [List.mem_singleton.mp hx]
          rfl
      · simp only [Crt.live, hs, Option.map_some, Option.getD_some] at hlive ⊢
        rw [Counted.addr_push, List.length_append, List.length_singleton]
        omega

/-- After `2 ^ 32` nodes the difference of the counters is `0`. -/
theorem not_shutdown_accounting_exact :
    ¬ ∀ tr g, Run (crtStep md5Digest) Crt.zero tr g → (∀ x ∈ tr, x.2.1.isUpdate = true) →
      sub32 g.crtCount g.crtFree = g.live := by
  intro hall
  obtain ⟨tr, g, hrun, hup, -, hlive, hcount, hfree⟩ := exists_run_updates md5Digest (2 ^ 32)
  have h := hall tr g hrun hup
  rw [hlive, hcount, hfree] at h
  exact absurd h (by decide)

end Carroll
