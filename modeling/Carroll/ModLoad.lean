import Carroll.Accounting

/-! # One `mod_update`: all or nothing

A `mod_update` that is not given its block does nothing.  Any other appends an entry, whether or not
`dlopen` and `dlsym` found what it asked for, and calls `xm_init` in each of its rounds that has
`xm_init` and `xm_alloc`.  The rounds end with the first, or after the thirtieth, since `error_s` is
never reset.

`loadsAllOrNothing_iff` says for which answers of the outside nothing else than the loading of one
library happens. -/

namespace Carroll

/-- The entry points of the entry are the symbols of a round. -/
structure ModAddr.Points (a : ModAddr) (s : Symbols) : Prop where
  getver : a.xmGetver = s.getver
  init : a.xmInit = s.init
  exit : a.xmExit = s.exit
  extw : a.xmExtw = s.extw
  alloc : a.xmAlloc = s.alloc
  ctrl : a.xmCtrl = s.ctrl
  name : ∃ name, s.name = some name ∧ a.xmName = .str name

namespace Loading

/-- What `dlopen` returned in the end. -/
def handle (ld : Loading) : Option ℕ := (List.range 31).findSome? ld.dlopen

/-- The symbols of the last round. -/
def last (ld : Loading) : Symbols := ld.dlsym (ld.rounds - 1)

/-- How often `xm_init` is called. -/
def xmInits (ld : Loading) : ℕ :=
  if ld.upd.isSome then ((List.range ld.rounds).filter ld.started).length else 0

/-- The entry was not allocated, the library not opened, or an entry point missing in the end. -/
def Fails (ld : Loading) : Prop := ld.upd = none ∨ ld.handle = none ∨ ld.last.complete = false

end Loading

/-- A `mod_update` calls `xm_init` once at most.  When it fails it returns 0 and changes nothing; else
it appends an entry of that library and registers one node, beside what `xm_init` did. -/
def LoadsAllOrNothing (g : Crt) (ld : Loading) (inits : ℕ → List SysnodeCall) (node : SysnodeCall) :
    Prop :=
  ld.xmInits ≤ 1 ∧
  (ld.Fails → modUpdate g.stack ld = some (g.stack, 0) ∧ crtModUpdate g ld inits node = some g) ∧
  (¬ ld.Fails → ∃ g₁ str a addr, libcrtSysnodeUpdates g (ld.initCalls inits) = some g₁ ∧
    g₁.psys = some str ∧ a.libhandle = ld.handle ∧ a.Points ld.last ∧
    crtModUpdate g ld inits node =
      some { g₁ with psys := some (str.push addr)
                     stack := g.stack.push a
                     crtCount := u32 (u32 (g₁.crtCount + 1) + 1) })

/-- The library was opened and is complete in the end, `xm_init` was not called before the last round,
every name fits, and the list of system nodes takes one more. -/
structure Loading.LoadsOnce (ld : Loading) (g : Crt) (inits : ℕ → List SysnodeCall)
    (node : SysnodeCall) : Prop where
  opened : ld.handle ≠ none
  complete : ld.last.complete = true
  fits : ∀ i < ld.rounds, (ld.dlsym i).NameFits
  quiet : ∀ i, i + 1 < ld.rounds → ld.started i = false
  inits : (libcrtSysnodeUpdates g (ld.initCalls inits)).isSome
  psys : g.psys.isSome
  node : node.upd = true

/-! ### The entry -/

/-- A round keeps the handle; when it misses nothing, the entry points are its symbols. -/
theorem modRound_points {syms : Symbols} {newStr : Bool} {init : ℤ} {s s' : Round}
    (h : modRound syms newStr init s = some s') :
    s'.upd.libhandle = s.upd.libhandle ∧
      (syms.complete → s'.upd.Points syms ∧ s'.upd.moduleName ≠ .wild) := by
  unfold modRound at h
  cases hn : syms.name with
  | none =>
      simp only [hn, Option.some.injEq] at h
      subst h
      refine ⟨rfl, fun hc => ?_⟩
      simp [Symbols.complete, hn] at hc
  | some name =>
      simp only [hn, Option.map_eq_some_iff] at h
      obtain ⟨buf, -, rfl⟩ := h
      refine ⟨rfl, fun _ => ⟨⟨rfl, rfl, rfl, rfl, rfl, rfl, name, hn, rfl⟩, ?_⟩⟩
      cases newStr <;> exact CharPtr.noConfusion

namespace Loading
variable {ld : Loading}

theorem upTo_libhandle {s s' : Round} {n : ℕ} (h : ld.upTo s n = some s') :
    s'.upd.libhandle = s.upd.libhandle := by
  induction n generalizing s' with
  | zero => rw [Option.some.inj h]
  | succ n ih =>
      rw [upTo, Option.bind_eq_some_iff] at h
      obtain ⟨t, ht, hs⟩ := h
      rw [(modRound_points hs).1, ih ht]

/-- The entry that a complete loading leaves. -/
theorem modLoad_points {ptr : ModStack} {upd : ModAddr} {s : Round} (h : modLoad ptr ld upd = some s) :
    s.upd.libhandle = ld.handle ∧
      (ld.last.complete → s.upd.Points ld.last ∧ s.upd.moduleName ≠ .wild) := by
  dsimp only [modLoad, modLoadAt] at h
  rw [modRounds_eq] at h
  refine ⟨upTo_libhandle h, ?_⟩
  obtain ⟨n, hn⟩ := Nat.exists_eq_add_of_le' ld.rounds_pos
  rw [last, hn, Nat.add_sub_cancel]
  rw [hn, upTo, Option.bind_eq_some_iff] at h
  obtain ⟨t, -, hs⟩ := h
  exact (modRound_points hs).2

theorem started_of_complete {n : ℕ} (h : (ld.dlsym n).complete = true) : ld.started n = true := by
  unfold Symbols.complete at h
  unfold started
  simp only [Bool.and_eq_true] at h ⊢
  exact ⟨h.1.1.1.1.1.2, h.1.1.2⟩

/-- `xm_init` is called once at most when no round before the last calls it. -/
theorem xmInits_le_one_iff (hupd : ld.upd.isSome) (hlast : ld.last.complete = true) :
    ld.xmInits ≤ 1 ↔ ∀ i, i + 1 < ld.rounds → ld.started i = false := by
  obtain ⟨n, hn⟩ := Nat.exists_eq_add_of_le' ld.rounds_pos
  rw [last, hn, Nat.add_sub_cancel] at hlast
  have hone : [n].filter ld.started = [n] := List.filter_eq_self.mpr fun i hi => by
    rw [List.mem_singleton.mp hi, started_of_complete hlast]
  rw [xmInits, if_pos hupd, hn, List.range_succ, List.filter_append, hone, List.length_append,
    List.length_singleton]
  constructor
  · intro hle i hi
    have hnil : (List.range n).filter ld.started = [] := List.eq_nil_of_length_eq_zero (by omega)
    have hnot := List.filter_eq_nil_iff.mp hnil i (List.mem_range.mpr (Nat.lt_of_succ_lt_succ hi))
    rwa [Bool.not_eq_true] at hnot
  · intro hquiet
    have hnil : (List.range n).filter ld.started = [] := List.filter_eq_nil_iff.mpr fun i hi => by
      rw [hquiet i (Nat.succ_lt_succ (List.mem_range.mp hi))]
      exact Bool.false_ne_true
    rw [hnil, List.length_nil]

end Loading

/-! ### The system nodes -/

theorem libcrtSysnodeUpdate_push {g : Crt} {str : Counted SysnodeAddr} {c : SysnodeCall}
    (hs : g.psys = some str) (hupd : c.upd = true) (hname : c.sysdev ≠ .wild) :
    ∃ addr, libcrtSysnodeUpdate g c =
      some { g with psys := some (str.push addr), crtCount := u32 (g.crtCount + 1) } := by
  unfold libcrtSysnodeUpdate
  rw [hs]
  dsimp only
  rw [hupd]
  cases hn : c.sysdev with
  | null => exact ⟨_, rfl⟩
  | str s => exact ⟨_, rfl⟩
  | wild => exact absurd hn hname

theorem libcrtSysnodeUpdates_keeps {g g' : Crt} {cs : List SysnodeCall}
    (h : libcrtSysnodeUpdates g cs = some g') :
    g'.stack = g.stack ∧ (g'.psys.isSome ↔ g.psys.isSome) := by
  induction cs generalizing g with
  | nil =>
      obtain rfl := Option.some.inj h
      exact ⟨rfl, Iff.rfl⟩
  | cons c cs ih =>
      rw [libcrtSysnodeUpdates, Option.bind_eq_some_iff] at h
      obtain ⟨g₁, h₁, h⟩ := h
      obtain rfl | ⟨str, a, hs, rfl⟩ := libcrtSysnodeUpdate_cases h₁
      · exact ih h
      · obtain ⟨hstack, hpsys⟩ := ih h
        refine ⟨hstack, hpsys.trans ?_⟩
        rw [hs]
        exact Iff.rfl

/-- Whatever the outside answers, a `mod_update` with a block appends an entry. -/
theorem crtModUpdate_push {g g' : Crt} {ld : Loading} {inits : ℕ → List SysnodeCall}
    {node : SysnodeCall} {upd : ModAddr} (hupd : ld.upd = some upd)
    (h : crtModUpdate g ld inits node = some g') :
    ∃ s g₁ g₂, modLoad g.stack ld upd = some s ∧
      libcrtSysnodeUpdates g (ld.initCalls inits) = some g₁ ∧
      libcrtSysnodeUpdate g₁ { node with sysdev := s.upd.moduleName } = some g₂ ∧
      g' = { g₂ with stack := g.stack.push s.upd, crtCount := u32 (g₂.crtCount + 1) } := by
  obtain ⟨s, g₁, g₂, hs, h₁, h₂, rfl⟩ := (crtModUpdate_iff hupd).mp h
  refine ⟨s, g₁, g₂, hs, h₁, h₂, ?_⟩
  have hstack : g₂.stack = g.stack := by
    rw [← (libcrtSysnodeUpdates_keeps h₁).1]
    obtain rfl | ⟨str, a, -, rfl⟩ := libcrtSysnodeUpdate_cases h₂ <;> rfl
  rw [hstack]

/-- `libcrt_snupdate` with a list and a block looks at the name that it is given. -/
theorem libcrtSysnodeUpdate_reads {g g' : Crt} {c : SysnodeCall} (hs : g.psys.isSome)
    (hupd : c.upd = true) (h : libcrtSysnodeUpdate g c = some g') : c.sysdev ≠ .wild := by
  intro hwild
  obtain ⟨str, hstr⟩ := Option.isSome_iff_exists.mp hs
  simp [libcrtSysnodeUpdate, hstr, hupd, hwild, libcrtNewStr] at h

/-- What `mod_update` does to the stack beside the list of system nodes is what it does to the stack
alone. -/
theorem crtModUpdate_refines {g g' : Crt} {ld : Loading} {inits : ℕ → List SysnodeCall}
    {node : SysnodeCall} (h : crtModUpdate g ld inits node = some g') :
    ∃ r, modUpdate g.stack { ld with registers := g.psys.isSome && node.upd } = some (g'.stack, r) := by
  generalize hld : { ld with registers := g.psys.isSome && node.upd } = ld'
  have hblock : ld'.upd = ld.upd := by rw [← hld]
  cases hupd : ld.upd with
  | none =>
      rw [crtModUpdate_none hupd] at h
      obtain rfl := Option.some.inj h
      exact ⟨0, by rw [modUpdate, modUpdateOn, hblock, hupd]⟩
  | some upd =>
      obtain ⟨s, g₁, g₂, hs, h₁, h₂, rfl⟩ := crtModUpdate_push hupd h
      have hs' : modLoadAt g.stack.count ld' upd = some s := by
        rw [← hld]
        exact hs
      refine ⟨_, (modUpdateOn_snupdate (hblock.trans hupd)).mpr ⟨s, hs', fun hreg => ?_, rfl, rfl⟩⟩
      rw [← hld] at hreg
      rw [Bool.and_eq_true] at hreg
      exact libcrtSysnodeUpdate_reads (c := { node with sysdev := s.upd.moduleName })
        ((libcrtSysnodeUpdates_keeps h₁).2.mpr hreg.1) hreg.2 h₂

theorem crtModUpdate_ne {g : Crt} {ld : Loading} {inits : ℕ → List SysnodeCall} {node : SysnodeCall}
    {upd : ModAddr} (hupd : ld.upd = some upd) : crtModUpdate g ld inits node ≠ some g := by
  intro h
  obtain ⟨s, g₁, g₂, -, -, -, heq⟩ := crtModUpdate_push hupd h
  have hlen := congrArg (fun g : Crt => g.stack.addr.length) heq
  simp at hlen

/-! ### All or nothing -/

section
variable {g : Crt} {ld : Loading} {inits : ℕ → List SysnodeCall} {node : SysnodeCall} {upd : ModAddr}

/-- A node whose block is not allocated is not registered. -/
theorem libcrtSysnodeUpdate_noBlock {g g' : Crt} {str : Counted SysnodeAddr} {c : SysnodeCall}
    (hs : g.psys = some str) (hupd : c.upd = false) (h : libcrtSysnodeUpdate g c = some g') :
    g' = g := by
  unfold libcrtSysnodeUpdate at h
  rw [hs] at h
  simp only [hupd, Bool.not_false, if_true, Option.some.injEq] at h
  exact h.symm

/-- A `mod_update` that has a block never leaves everything as it was, so that it did not fail, and
its library is complete. -/
theorem LoadsAllOrNothing.loadsOnce (hupd : ld.upd = some upd) (h : LoadsAllOrNothing g ld inits node) :
    ld.LoadsOnce g inits node := by
  obtain ⟨hinits, hfail, hload⟩ := h
  have hsome : ld.upd.isSome := by rw [hupd]; rfl
  have hno : ¬ ld.Fails := fun h => crtModUpdate_ne hupd (hfail h).2
  obtain ⟨g₁, str, a, addr, h₁, hpsys, -, -, hcrt⟩ := hload hno
  unfold Loading.Fails at hno
  rw [hupd, not_or, not_or, Bool.not_eq_false] at hno
  obtain ⟨-, hopened, hcomplete⟩ := hno
  obtain ⟨s, g₁', g₂, hs, h₁', h₂, heq⟩ := crtModUpdate_push hupd hcrt
  obtain rfl := Option.some.inj (h₁.symm.trans h₁')
  refine ⟨hopened, hcomplete, ?_, ?_, ?_, ?_, ?_⟩
  · exact Loading.modLoadAt_isSome_iff.mp (Option.isSome_iff_exists.mpr ⟨s, hs⟩)
  · exact (Loading.xmInits_le_one_iff hsome hcomplete).mp hinits
  · rw [h₁]
    rfl
  · rw [← (libcrtSysnodeUpdates_keeps h₁).2, hpsys]
    rfl
  · by_contra hnode
    rw [Bool.not_eq_true] at hnode
    have hsame : g₂ = g₁ := libcrtSysnodeUpdate_noBlock
      (c := { node with sysdev := s.upd.moduleName }) hpsys hnode h₂
    have hlen := congrArg (fun g : Crt => (g.psys.map (·.addr.length)).getD 0) heq
    simp [hsame, hpsys] at hlen

/-- A complete library is loaded, and its node is registered. -/
theorem Loading.LoadsOnce.loadsAllOrNothing (hupd : ld.upd = some upd)
    (h : ld.LoadsOnce g inits node) : LoadsAllOrNothing g ld inits node := by
  obtain ⟨hopened, hcomplete, hfits, hquiet, hinits, hpsys, hnode⟩ := h
  have hsome : ld.upd.isSome := by rw [hupd]; rfl
  have hno : ¬ ld.Fails := by
    rintro (h | h | h)
    · rw [hupd] at h
      exact Option.some_ne_none upd h
    · exact hopened h
    · rw [hcomplete] at h
      exact Bool.noConfusion h
  refine ⟨(Loading.xmInits_le_one_iff hsome hcomplete).mpr hquiet, fun h => absurd h hno, fun _ => ?_⟩
  have hdefined : (modLoadAt g.stack.count ld upd).isSome := Loading.modLoadAt_isSome_iff.mpr hfits
  obtain ⟨s, hs⟩ := Option.isSome_iff_exists.mp hdefined
  obtain ⟨g₁, h₁⟩ := Option.isSome_iff_exists.mp hinits
  obtain ⟨hstack, hkeeps⟩ := libcrtSysnodeUpdates_keeps h₁
  obtain ⟨str, hstr⟩ := Option.isSome_iff_exists.mp (hkeeps.mpr hpsys)
  obtain ⟨hhandle, hpoints⟩ := Loading.modLoad_points hs
  obtain ⟨hpoints, hwild⟩ := hpoints hcomplete
  obtain ⟨addr, h₂⟩ := libcrtSysnodeUpdate_push
    (c := { node with sysdev := s.upd.moduleName }) hstr hnode hwild
  refine ⟨g₁, str, s.upd, addr, h₁, hstr, hhandle, hpoints, ?_⟩
  rw [(crtModUpdate_iff hupd).mpr ⟨s, g₁, _, hs, h₁, h₂, rfl⟩, hstack]

end

/-- A `mod_update` loads all or nothing exactly when it has no block, or when it loads a complete
library whose `xm_init` was not called in a round before the last. -/
theorem loadsAllOrNothing_iff (g : Crt) (ld : Loading) (inits : ℕ → List SysnodeCall)
    (node : SysnodeCall) :
    LoadsAllOrNothing g ld inits node ↔ ld.upd = none ∨ ld.LoadsOnce g inits node := by
  cases hupd : ld.upd with
  | none =>
      have hmod : modUpdate g.stack ld = some (g.stack, 0) := by rw [modUpdate, modUpdateOn, hupd]
      have hcrt : crtModUpdate g ld inits node = some g := crtModUpdate_none hupd
      refine iff_of_true ⟨?_, fun _ => ⟨hmod, hcrt⟩, fun hno => absurd (.inl hupd) hno⟩ (.inl rfl)
      rw [Loading.xmInits, hupd]
      exact Nat.zero_le 1
  | some upd =>
      rw [or_iff_right (Option.some_ne_none upd)]
      exact ⟨LoadsAllOrNothing.loadsOnce hupd, Loading.LoadsOnce.loadsAllOrNothing hupd⟩

/-- A library that `dlopen` never finds. -/
def Loading.notFound : Loading where
  upd := some ⟨.null, 0, none, .null, none, none, none, none, none, none⟩
  dlopen := fun _ => none
  dlsym := fun _ => ⟨none, none, none, none, none, none, none⟩
  newStr := fun _ => true
  xmInit := fun _ => 0
  registers := true

/-- It is appended to the stack all the same. -/
theorem not_loadsAllOrNothing_notFound :
    ¬ LoadsAllOrNothing Crt.zero Loading.notFound (fun _ => []) plainNode := by
  rintro ⟨-, hfail, -⟩
  have hnone : Loading.notFound.handle = none := by decide
  exact crtModUpdate_ne rfl (hfail (.inr (.inl hnone))).2

end Carroll
