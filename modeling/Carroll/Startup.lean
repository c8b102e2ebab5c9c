import Carroll.Accounting
import Carroll.Dispatch

/-! # The start-up of `crserv`

Before its control loop `crserv` registers `/mic/0000` and `/module/stack0`, loads the modules of
its directory, and builds the table of core slots, which registers `/sysd/idle` and one node for
every slot.  When nothing fails to allocate, every module and every slot comes with at least one
system node (`Counts.run`).

The header of the table is there from the beginning here; nothing before `librmc_init` looks at
it. -/

namespace Carroll

/-- All that the operation asks for is allocated. -/
def CrtAction.Allocated : CrtAction → Prop
  | .sysnodeUpdate c => c.upd = true
  | .modUpdate ld inits node => ld.upd.isSome ∧ (∀ n, ∀ c ∈ inits n, c.upd = true) ∧ node.upd = true
  | .librmcUpdate _ _ alloc node => (∃ first last, alloc = .ok first last) ∧ node.upd = true
  | _ => False

/-- The system nodes that an operation adds when it allocates them all. -/
def CrtAction.nodes : CrtAction → ℕ
  | .sysnodeUpdate _ => 1
  | .modUpdate ld inits _ => (ld.initCalls inits).length + 1
  | .librmcUpdate _ _ _ _ => 1
  | _ => 0

def CrtAction.modules : CrtAction → ℕ
  | .modUpdate _ _ _ => 1
  | _ => 0

def CrtAction.slots : CrtAction → ℕ
  | .librmcUpdate _ _ _ _ => 1
  | _ => 0

/-- The arguments of one `mod_update`. -/
structure ModuleLoad where
  ld : Loading
  inits : ℕ → List SysnodeCall
  node : SysnodeCall

/-- What `crserv` does before its control loop; `nodes` are the nodes of `/mic/0000`,
`/module/stack0` and `/sysd/idle`, `cores` what `librmc_init` allocates. -/
def startActions (nodes : SysnodeCall × SysnodeCall × SysnodeCall) (mods : List ModuleLoad)
    (cores : ℕ → UpdateAlloc × SysnodeCall) : List CrtAction :=
  [.sysnodeUpdate nodes.1, .sysnodeUpdate nodes.2.1] ++
  mods.map (fun m => .modUpdate m.ld m.inits m.node) ++ [.sysnodeUpdate nodes.2.2] ++
  (List.range coreBits).map fun i => .librmcUpdate (devName i) i (cores i).1 (cores i).2

/-- How many nodes, modules and slots there are, nothing having been freed. -/
structure Counts (g : Crt) (nodes modules slots : ℕ) : Prop where
  psys : ∃ str, g.psys = some str ∧ str.addr.length = nodes
  stack : g.stack.addr.length = modules
  core : ∃ s, g.rmc.sptrCore = some s ∧ s.slots.count = slots
  lost : g.lost = []
  free : g.crtFree = 0 ∧ g.rmc.rmcFree = 0

/-- The start-up leads to `g` with all allocations succeeding. -/
def StartedUp (md5 : List UInt8 → List UInt8) (mods : List ModuleLoad) (g : Crt) : Prop :=
  ∃ g₀ tr nodes cores, g₀.Balanced ∧ Counts g₀ 0 0 0 ∧ Run (crtStep md5) g₀ tr g ∧
    tr.map (·.2.1) = startActions nodes mods cores ∧ ∀ x ∈ tr, x.2.1.Allocated

/-! ### Counting -/

theorem Counts.sysnodeUpdate {g g' : Crt} {n m k : ℕ} (hg : Counts g n m k) {c : SysnodeCall}
    (hc : c.upd = true) (h : libcrtSysnodeUpdate g c = some g') : Counts g' (n + 1) m k := by
  obtain ⟨str, hs, hlen⟩ := hg.psys
  unfold libcrtSysnodeUpdate at h
  simp only [hs, hc, Bool.not_true, Bool.false_eq_true, if_false, Option.map_eq_some_iff] at h
  obtain ⟨name, -, rfl⟩ := h
  exact ⟨⟨_, rfl, by simp [hlen]⟩, hg.stack, hg.core, hg.lost, hg.free⟩

theorem Counts.sysnodeUpdates {g g' : Crt} {n m k : ℕ} (hg : Counts g n m k)
    {cs : List SysnodeCall} (hcs : ∀ c ∈ cs, c.upd = true)
    (h : libcrtSysnodeUpdates g cs = some g') : Counts g' (n + cs.length) m k := by
  induction cs generalizing g n with
  | nil =>
      obtain rfl := Option.some.inj h
      exact hg
  | cons c cs ih =>
      obtain ⟨hc, hcs⟩ := List.forall_mem_cons.mp hcs
      rw [libcrtSysnodeUpdates, Option.bind_eq_some_iff] at h
      obtain ⟨g₁, h₁, h⟩ := h
      have hg' := ih (hg.sysnodeUpdate hc h₁) hcs h
      rwa [Nat.add_right_comm, Nat.add_assoc] at hg'

theorem initCalls_allocated {ld : Loading} {inits : ℕ → List SysnodeCall}
    (h : ∀ n, ∀ c ∈ inits n, c.upd = true) : ∀ c ∈ ld.initCalls inits, c.upd = true := by
  intro c hc
  obtain ⟨n, -, hn⟩ := List.mem_flatMap.mp hc
  split_ifs at hn with hs
  · exact h n c hn
  · exact absurd hn List.not_mem_nil

theorem Counts.modUpdate {g g' : Crt} {n m k : ℕ} (hg : Counts g n m k) {ld : Loading}
    {inits : ℕ → List SysnodeCall} {node : SysnodeCall} (hu : ld.upd.isSome)
    (hinits : ∀ n, ∀ c ∈ inits n, c.upd = true) (hnode : node.upd = true)
    (h : crtModUpdate g ld inits node = some g') :
    Counts g' (n + ((ld.initCalls inits).length + 1)) (m + 1) k := by
  obtain ⟨upd, hu⟩ := Option.isSome_iff_exists.mp hu
  obtain ⟨s, g₁, g₂, -, h₁, h₂, rfl⟩ := (crtModUpdate_iff hu).mp h
  have hg₁ := hg.sysnodeUpdates (initCalls_allocated hinits) h₁
  have hg₂ := hg₁.sysnodeUpdate (by exact hnode) h₂
  exact ⟨hg₂.psys, by simp [hg₂.stack], hg₂.core, hg₂.lost, hg₂.free⟩

theorem Counts.librmcUpdate {md5 : List UInt8 → List UInt8} {g g' : Crt} {n m k : ℕ}
    (hg : Counts g n m k) {dev : List UInt8} {number : ℕ} {first last : LibrmcTime}
    {node : SysnodeCall} (hnode : node.upd = true)
    (h : crtLibrmcUpdate md5 g dev number (.ok first last) node = some g') :
    Counts g' (n + 1) m (k + 1) := by
  obtain ⟨s, hs, hk⟩ := hg.core
  obtain ⟨upd, r, hr, -, -, -, -, hcore, -, -⟩ := librmcUpdate_ok md5 g.rmc hs dev number first last
  have hfree : r.rmcFree = 0 := by
    have hcases := librmcUpdate_cases md5 g.rmc dev number (.ok first last)
    rw [hr] at hcases
    obtain h | ⟨s', upd', digests, rand, -, h⟩ | ⟨digests, rand, h⟩ := hcases
    · rw [show r = g.rmc from h]
      exact hg.free.2
    · rw [show r = _ from h]
      exact hg.free.2
    · rw [show r = _ from h, librmcFree, hs] at hcore
      cases hcore
  rw [crtLibrmcUpdate, hr] at h
  dsimp only at h
  rw [if_pos rfl] at h
  have hset : Counts { g with rmc := r } n m (k + 1) :=
    ⟨hg.psys, hg.stack, ⟨_, hcore, by rw [← hk]; rfl⟩, hg.lost, hg.free.1, hfree⟩
  exact hset.sysnodeUpdate (by exact hnode) h

/-- One operation whose allocations succeed. -/
theorem Counts.step {md5 : List UInt8 → List UInt8} {g g' : Crt} {n m k : ℕ} (hg : Counts g n m k)
    {a : CrtAction} (ha : a.Allocated) (h : crtStep md5 g a = some g') :
    Counts g' (n + a.nodes) (m + a.modules) (k + a.slots) := by
  cases a with
  | sysnodeUpdate c => exact hg.sysnodeUpdate ha h
  | modUpdate ld inits node => exact hg.modUpdate ha.1 ha.2.1 ha.2.2 h
  | librmcUpdate dev number alloc node =>
      obtain ⟨⟨first, last, rfl⟩, hnode⟩ := ha
      exact hg.librmcUpdate hnode h
  | sysnodeExit => cases ha
  | modFree => cases ha
  | librmcFree => cases ha

/-- A run of such operations adds up what they add. -/
theorem Counts.run {md5 : List UInt8 → List UInt8} {g g' : Crt} {n m k : ℕ}
    {tr : List (Crt × CrtAction × Crt)} (hg : Counts g n m k) (h : Run (crtStep md5) g tr g')
    (ha : ∀ x ∈ tr, x.2.1.Allocated) :
    Counts g' (n + ((tr.map (·.2.1)).map CrtAction.nodes).sum)
      (m + ((tr.map (·.2.1)).map CrtAction.modules).sum)
      (k + ((tr.map (·.2.1)).map CrtAction.slots).sum) := by
  induction h generalizing n m k with
  | nil s => exact hg
  | cons hst hrun ih =>
      obtain ⟨ha₁, ha⟩ := List.forall_mem_cons.mp ha
      have h := ih (hg.step ha₁ hst) ha
      simp only [List.map_cons, List.sum_cons]
      rw [← Nat.add_assoc, ← Nat.add_assoc, ← Nat.add_assoc]
      exact h

/-- The nodes that the modules register on their own. -/
def ownNodes (mods : List ModuleLoad) : ℕ :=
  (mods.map fun m => (m.ld.initCalls m.inits).length).sum

theorem sum_map_const {α : Type} (l : List α) (c : ℕ) : (l.map fun _ => c).sum = l.length * c := by
  rw [List.map_const', List.sum_replicate, smul_eq_mul]

theorem startActions_sums (nodes : SysnodeCall × SysnodeCall × SysnodeCall) (mods : List ModuleLoad)
    (cores : ℕ → UpdateAlloc × SysnodeCall) :
    ((startActions nodes mods cores).map CrtAction.nodes).sum =
      3 + mods.length + coreBits + ownNodes mods ∧
    ((startActions nodes mods cores).map CrtAction.modules).sum = mods.length ∧
    ((startActions nodes mods cores).map CrtAction.slots).sum = coreBits := by
  have hnodes : (mods.map fun m => (m.ld.initCalls m.inits).length + 1).sum =
      ownNodes mods + mods.length := by
    rw [List.sum_map_add, sum_map_const, Nat.mul_one, ownNodes]
  unfold startActions
  refine ⟨?_, ?_, ?_⟩ <;>
    simp only [List.map_append, List.map_cons, List.map_nil, List.map_map, Function.comp_def,
      List.sum_append, List.sum_cons, List.sum_nil, CrtAction.nodes, CrtAction.modules,
      CrtAction.slots, hnodes, sum_map_const, List.length_range]
  · omega
  · omega
  · omega

/-- The numbers after the start-up. -/
theorem StartedUp.counts {md5 : List UInt8 → List UInt8} {mods : List ModuleLoad} {g : Crt}
    (h : StartedUp md5 mods g) :
    g.Balanced ∧ Counts g (3 + mods.length + coreBits + ownNodes mods) mods.length coreBits := by
  obtain ⟨g₀, tr, nodes, cores, hbal, hcounts, hrun, hactions, hall⟩ := h
  refine ⟨hrun.invariant' (fun _ _ _ hs hst => hs.step hst) hbal, ?_⟩
  have hg := hcounts.run hrun hall
  obtain ⟨h₁, h₂, h₃⟩ := startActions_sums nodes mods cores
  rw [hactions, h₁, h₂, h₃] at hg
  simpa using hg

/-! ### Start-ups that exist -/

theorem libcrtSysnodeUpdate_enabled (g : Crt) {c : SysnodeCall} (hc : c.sysdev ≠ .wild) :
    ∃ g', libcrtSysnodeUpdate g c = some g' := by
  unfold libcrtSysnodeUpdate libcrtNewStr
  cases g.psys with
  | none => exact ⟨_, rfl⟩
  | some str =>
      cases c.upd with
      | false => exact ⟨_, rfl⟩
      | true =>
          cases hd : c.sysdev with
          | null => exact ⟨_, rfl⟩
          | str s => exact ⟨_, rfl⟩
          | wild => exact absurd hd hc

/-- Operations that are always defined lead somewhere, one after the other. -/
theorem exists_run {md5 : List UInt8 → List UInt8} {as : List CrtAction}
    (has : ∀ a ∈ as, ∀ g, ∃ g', crtStep md5 g a = some g') (g : Crt) :
    ∃ tr g', Run (crtStep md5) g tr g' ∧ tr.map (·.2.1) = as := by
  induction as generalizing g with
  | nil => exact ⟨[], g, .nil g, rfl⟩
  | cons a as ih =>
      obtain ⟨ha, has⟩ := List.forall_mem_cons.mp has
      obtain ⟨g₁, h₁⟩ := ha g
      obtain ⟨tr, g', hrun, hmap⟩ := ih has g₁
      exact ⟨_, g', .cons h₁ hrun, by rw [List.map_cons, hmap]⟩

/-- A complete library whose `xm_init` registers one node, as those of `src/module` do. -/
def plainModule : ModuleLoad := ⟨completeLoading 16 map0Name, fun _ => [plainNode], plainNode⟩

theorem ownNodes_plain (n : ℕ) : ownNodes (List.replicate n plainModule) = n := by
  have hone : (plainModule.ld.initCalls plainModule.inits).length = 1 := rfl
  rw [ownNodes, List.map_replicate, List.sum_replicate, hone, smul_eq_mul, Nat.mul_one]

theorem crtModUpdate_plain (g : Crt) :
    ∃ g', crtModUpdate g plainModule.ld plainModule.inits plainModule.node = some g' := by
  obtain ⟨g₁, h₁⟩ := libcrtSysnodeUpdate_enabled g (c := plainNode) (by decide)
  obtain ⟨g₂, h₂⟩ := libcrtSysnodeUpdate_enabled g₁
    (c := { plainNode with sysdev := .str (modulePrefix ++ map0Name) }) (by decide)
  have hcalls : libcrtSysnodeUpdates g (plainModule.ld.initCalls plainModule.inits) = some g₁ := by
    show (libcrtSysnodeUpdate g plainNode).bind _ = _
    rw [h₁]
    rfl
  obtain ⟨upd, hu⟩ : ∃ upd, plainModule.ld.upd = some upd := ⟨_, rfl⟩
  obtain ⟨s, hs, hname⟩ : ∃ s, modLoad g.stack plainModule.ld upd = some s ∧
      s.upd.moduleName = .str (modulePrefix ++ map0Name) := ⟨_, rfl, rfl⟩
  exact ⟨_, (crtModUpdate_iff hu).mpr ⟨s, g₁, g₂, hs, hcalls, by rwa [hname], rfl⟩⟩

theorem crtLibrmcUpdate_enabled (md5 : List UInt8 → List UInt8) (g : Crt) (dev : List UInt8)
    (number : ℕ) (alloc : UpdateAlloc) (node : SysnodeCall) :
    ∃ g', crtLibrmcUpdate md5 g dev number alloc node = some g' := by
  unfold crtLibrmcUpdate
  dsimp only
  split_ifs
  · exact libcrtSysnodeUpdate_enabled _ (by simp)
  · exact ⟨_, rfl⟩

/-- The state before the start-up: no node, no module, an empty table. -/
def Crt.boot : Crt := { Crt.zero with rmc := librmcEmpty Rmc.zero ⟨0, 0⟩ fun _ => 0 }

/-- Any number of complete modules can be loaded. -/
theorem exists_startedUp (md5 : List UInt8 → List UInt8) (n : ℕ) :
    ∃ g, StartedUp md5 (List.replicate n plainModule) g := by
  have hall : ∀ a ∈ startActions (plainNode, plainNode, plainNode) (List.replicate n plainModule)
      (fun _ => (.ok ⟨0, 0⟩ ⟨0, 0⟩, plainNode)),
      (∀ g, ∃ g', crtStep md5 g a = some g') ∧ a.Allocated := by
    intro a ha
    simp only [startActions, List.mem_append, List.mem_cons, List.not_mem_nil, or_false,
      List.mem_map, List.mem_replicate, List.mem_range] at ha
    rcases ha with (((rfl | rfl) | ⟨m, ⟨-, rfl⟩, rfl⟩) | rfl) | ⟨i, -, rfl⟩
    · exact ⟨fun g => libcrtSysnodeUpdate_enabled g (by decide), rfl⟩
    · exact ⟨fun g => libcrtSysnodeUpdate_enabled g (by decide), rfl⟩
    · refine ⟨crtModUpdate_plain, rfl, fun _ c hc => ?_, rfl⟩
      rw [List.mem_singleton.mp hc]
      rfl
    · exact ⟨fun g => libcrtSysnodeUpdate_enabled g (by decide), rfl⟩
    · exact ⟨fun g => crtLibrmcUpdate_enabled md5 g _ _ _ _, ⟨_, _, rfl⟩, rfl⟩
  obtain ⟨tr, g, hrun, hmap⟩ := exists_run (fun a ha => (hall a ha).1) Crt.boot
  refine ⟨g, Crt.boot, tr, (plainNode, plainNode, plainNode),
    fun _ => (.ok ⟨0, 0⟩ ⟨0, 0⟩, plainNode), ⟨rfl, rfl, rfl⟩,
    ⟨⟨_, rfl, rfl⟩, rfl, ⟨_, rfl, rfl⟩, rfl, rfl, rfl⟩, hrun, hmap, fun x hx => (hall _ ?_).2⟩
  rw [← hmap]
  exact List.mem_map_of_mem hx

end Carroll
