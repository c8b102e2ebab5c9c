import Carroll.ModSetup

/-! # Driving and unloading a module that was set up or not

What each function of the template does to a module whose struct is owned, and from it when the whole
sequence `FMOD_ALLOC`, `FMOD_INIT`, controls, `FMOD_EXIT` is clean. -/

namespace Carroll
open Alloc Buffers

namespace ModSetup

/-- `p->field = libcrt_new_str(str)`. -/
theorem newStrField {γ : Type} {K : Kind ModBlock γ} {s₀ s : Store ModBlock}
    {l : List (ℕ × ModBlock)} {n : ℕ} {c : γ} (field : PtrField γ)
    (h : Owns s₀ s ((n, K.put c) :: l)) (a : Allocator) (str : Option (List UInt8)) :
    ∃ p s₁ s₂, libcrtNewStr a str s = (p, s₁) ∧ s₁.modify K (.ref n) (field.set p) = some s₂ ∧
      s₂.calls = s.calls + (if str = none then 0 else 1) ∧ p ≠ .junk ∧
      (p = .null ↔ str = none ∨ a.fails s.calls = true) ∧
      Owns s₀ s₂ ((n, K.put (field.set p c)) :: (p.cell (.str (str.getD [])) ++ l)) := by
  cases str with
  | none =>
      obtain ⟨s₂, hmod, hcalls, h₂⟩ := h.modify (field.set .null)
      exact ⟨.null, s, s₂, rfl, hmod, hcalls, nofun, by simp, h₂⟩
  | some t =>
      obtain ⟨p, s₁, s₂, hmalloc, hmod, hcalls, hjunk, hnull, h₂⟩ :=
        h.mallocField field a fun _ => .str t
      exact ⟨p, s₁, s₂, hmalloc, hmod, hcalls, hjunk, by simpa using hnull, h₂⟩

section
variable {a : Allocator} {s₀ : Store ModBlock} {s : ModSystem} {n : ℕ} {m : ModStruct}
  {l : List (ℕ × ModBlock)}

/-! ### The libraries -/

/-- `bcd_libmod_init` allocates nothing. -/
theorem bcdLibmodInit_eq (hget : s.heap.get modKind (.ref n) = some m) :
    ∃ s', bcdLibmodInit (.ref n) s = some s' ∧ s'.heap = s.heap := by
  refine ⟨({ s with bcdxState := 1 }.call .threadCreate).call
    (.threadUpdate m.handle bcdxCertVerifyVersion), ?_, rfl⟩
  simp [bcdLibmodInit, hget]

/-- `bcd_libmod_exit` frees nothing. -/
theorem bcdLibmodExit_eq (hget : s.heap.get modKind (.ref n) = some m) :
    ∃ s', bcdLibmodExit (.ref n) s = some s' ∧ s'.heap = s.heap := by
  refine ⟨{ s.call (.threadClose m.handle bcdxCertVerifyVersion) with bcdxState := 0 }, ?_, rfl⟩
  simp [bcdLibmodExit, hget]

/-- The blocks of `data_ext` and its two parts. -/
def DataCells (dataExt : CPtr ℕ) (D : List (ℕ × ModBlock)) : Prop :=
  (dataExt = .null ∧ D = []) ∨
    ∃ k d, dataExt = .ref k ∧ d.stack ≠ .junk ∧ d.addr ≠ .junk ∧
      D = (k, .data d) :: (d.stack.cell .zeros ++ (d.addr.cell .zeros ++ []))

/-- `d00_libmod_exit` frees `data_ext` and its parts. -/
theorem d00LibmodExit_eq {D : List (ℕ × ModBlock)} (hD : DataCells s.dataExt D)
    (ho : Owns s₀ s.heap (D ++ l)) :
    ∃ s', d00LibmodExit s = some s' ∧ s'.dataExt = .null ∧ Owns s₀ s'.heap l := by
  rcases hD with ⟨hnull, rfl⟩ | ⟨k, d, hdata, hstack, haddr, rfl⟩
  · exact ⟨s, by simp [d00LibmodExit, hnull], hnull, ho⟩
  · rw [List.cons_append, List.append_assoc, List.append_assoc] at ho
    obtain ⟨h₁, hr₁, ho⟩ := Owns.release (K := dataKind) DataStruct.stackField ho rfl hstack
    obtain ⟨h₂, hr₂, ho⟩ := ho.release DataStruct.addrField rfl haddr
    obtain ⟨h₃, hfree, ho⟩ := ho.free
    exact ⟨{ s with heap := h₃, dataExt := .null }, by simp [d00LibmodExit, hdata, hr₁, hr₂, hfree],
      rfl, ho⟩

/-- The allocations of `d00_libmod_init`, whatever comes of them: `data_ext` with its parts or none,
and the string of `xdev`. -/
theorem d00Alloc_eq (a : Allocator) (ho : Owns s₀ s.heap l) :
    ∃ (s' : ModSystem) (xdev : CPtr ℕ) (D : List (ℕ × ModBlock)), d00Alloc a s = some s' ∧ xdev ≠ .junk ∧
      (xdev = .null ↔ a.fails s.heap.calls = true ∨ a.fails (s.heap.calls + 1) = true) ∧
      DataCells s'.dataExt D ∧ Owns s₀ s'.heap (D ++ (xdev.cell (.str baseProc) ++ l)) := by
  cases hdata : a.fails s.heap.calls with
  | true =>
      have hmalloc := s.heap.malloc_fails (fun w => ModBlock.data (.ofWords w)) hdata
      refine ⟨{ s with heap := s.heap.tick, dataExt := .null }, .null, [], ?_, nofun, by simp,
        .inl ⟨rfl, rfl⟩, ho.tick⟩
      simp [d00Alloc, hmalloc, d00LibmodExit]
  | false =>
      have hmalloc := s.heap.malloc_ok (fun w => ModBlock.data (.ofWords w)) hdata
      have ho₁ := ho.push (.data (.ofWords (a.words s.heap.calls)))
      obtain ⟨h₁, hmod₁, hcalls₁, ho₁⟩ :=
        Owns.modify (K := dataKind) ho₁ fun _ => ⟨.null, .null, 0, .null⟩
      obtain ⟨xdev, h₂, h₃, hm₂, hmod₂, hcalls₂, hxdev, hnull, ho₂⟩ :=
        newStrField DataStruct.xdevField ho₁ a (some baseProc)
      obtain ⟨stack, h₄, h₅, hm₃, hmod₃, hcalls₃, hstack, -, ho₃⟩ :=
        ho₂.mallocField DataStruct.stackField a fun _ => .zeros
      rw [hcalls₁, Store.calls_push] at hnull
      suffices h : ∃ s' D, d00Alloc a s = some s' ∧ DataCells s'.dataExt D ∧
          Owns s₀ s'.heap (D ++ (xdev.cell (.str baseProc) ++ l)) by
        obtain ⟨s', D, halloc, hD, ho'⟩ := h
        exact ⟨s', xdev, D, halloc, hxdev, by simpa using hnull, hD, ho'⟩
      by_cases hstack0 : stack = .null
      · subst hstack0
        obtain ⟨s', hexit, hdata', ho'⟩ := d00LibmodExit_eq
          (s := { s with heap := h₅, dataExt := .ref s.heap.calls })
          (.inr ⟨_, ⟨xdev, .null, 0, .null⟩, rfl, nofun, nofun, rfl⟩) ho₃
        exact ⟨s', [], by simp [d00Alloc, hmalloc, hmod₁, hm₂, hmod₂, hm₃, hmod₃, hexit],
          .inl ⟨hdata', rfl⟩, ho'⟩
      obtain ⟨addr, h₆, h₇, hm₄, hmod₄, -, haddr, -, ho₄⟩ :=
        ho₃.mallocField DataStruct.addrField a fun _ => .zeros
      let D : List (ℕ × ModBlock) := (s.heap.calls, .data ⟨xdev, stack, 0, addr⟩) ::
        (stack.cell .zeros ++ (addr.cell .zeros ++ []))
      have hD : DataCells (.ref s.heap.calls) D := .inr ⟨_, _, rfl, hstack, haddr, rfl⟩
      have ho' : Owns s₀ h₇ (D ++ (xdev.cell (.str baseProc) ++ l)) := by
        refine ho₄.perm (.cons _ ?_)
        have hswap : (addr.cell ModBlock.zeros ++ stack.cell ModBlock.zeros).Perm
            (stack.cell ModBlock.zeros ++ addr.cell ModBlock.zeros) := List.perm_append_comm
        simpa using hswap.append_right (xdev.cell (.str baseProc) ++ l)
      by_cases haddr0 : addr = .null
      · subst haddr0
        obtain ⟨s', hexit, hdata', ho'⟩ := d00LibmodExit_eq
          (s := { s with heap := h₇, dataExt := .ref s.heap.calls }) hD ho'
        exact ⟨s', [], by simp [d00Alloc, hmalloc, hmod₁, hm₂, hmod₂, hm₃, hmod₃, hstack0, hm₄, hmod₄,
          hexit], .inl ⟨hdata', rfl⟩, ho'⟩
      · exact ⟨{ s with heap := h₇, dataExt := .ref s.heap.calls }, _, by simp [d00Alloc, hmalloc, hmod₁,
          hm₂, hmod₂, hm₃, hmod₃, hstack0, hm₄, hmod₄, haddr0], hD, ho'⟩

/-! ### The template -/

/-- The struct after `FMOD_ALLOC`. -/
def allocated (a : Allocator) (n stack : ℕ) (config : DirConfig) (szdir name : CPtr ℕ) : ModStruct :=
  { ModStruct.handleModInit stack (ModStruct.ofWords (a.words n)) with
    config := .ref config, szdir := szdir, name := name }

/-- `FMOD_ALLOC` when the struct is allocated. -/
theorem fmodAlloc_eq (nm : List UInt8) (stack : ℕ) {config : DirConfig} {dir : Option CString}
    (hdir : config.szdir = some dir) (hok : a.fails s.heap.calls = false) :
    ∃ szdir name h, fmodAlloc nm a stack config s = some (.ref s.heap.calls, { s with heap := h }) ∧
      szdir ≠ .junk ∧ name ≠ .junk ∧
      (szdir = .null ↔ dir = none ∨ a.fails (s.heap.calls + 1) = true) ∧
      (dir ≠ none → h.calls = s.heap.calls + 3) ∧
      Owns s.heap h ((s.heap.calls, .mod (allocated a s.heap.calls stack config szdir name)) ::
        (name.cell (.str nm) ++ szdir.cell (.str ((dir.map CString.bytes).getD [])))) := by
  have hmalloc := s.heap.malloc_ok (fun w => ModBlock.mod (.ofWords w)) hok
  have ho := (Owns.refl s.heap).push (.mod (.ofWords (a.words s.heap.calls)))
  obtain ⟨h₁, hmod₁, hcalls₁, ho⟩ := Owns.modify (K := modKind) ho (ModStruct.handleModInit stack)
  obtain ⟨h₂, hmod₂, hcalls₂, ho⟩ := ho.modify fun p => { p with config := .ref config }
  obtain ⟨szdir, h₃, h₄, hm₃, hmod₃, hcalls₃, hszdir, hnull, ho⟩ :=
    newStrField ModStruct.szdirField ho a (dir.map CString.bytes)
  obtain ⟨name, h₅, h₆, hm₄, hmod₄, hcalls₄, hname, -, ho⟩ :=
    newStrField ModStruct.nameField ho a (some nm)
  rw [hcalls₂, hcalls₁, Store.calls_push] at hnull hcalls₃
  refine ⟨szdir, name, h₆, ?_, hszdir, hname, by simpa using hnull, ?_, ?_⟩
  · simp [fmodAlloc, hmalloc, hmod₁, hmod₂, cstringStr, hdir, hm₃, hmod₃, hm₄, hmod₄]
  · intro hne
    rw [hcalls₄, hcalls₃, if_neg (by simpa using hne), if_neg nofun]
  · rw [List.append_nil] at ho
    exact ho

/-- `HANDLE_MOD_EXIT` frees the struct and its strings. -/
theorem handleModExit_eq {h : Store ModBlock} {b b' : ModBlock} {l' : List (ℕ × ModBlock)}
    (ho : Owns s₀ h ((n, .mod m) :: l')) (hl : l'.Perm (m.szdir.cell b ++ (m.name.cell b' ++ l)))
    (hszdir : m.szdir ≠ .junk) (hname : m.name ≠ .junk) (hfdev : m.fdev = .null) :
    ∃ h', handleModExit (.ref n) h = some h' ∧ Owns s₀ h' l := by
  obtain ⟨h₁, hr₁, ho⟩ := Owns.release (K := modKind) ModStruct.szdirField (ho.perm (hl.cons _)) rfl
    hszdir
  obtain ⟨h₂, hr₂, ho⟩ := ho.release ModStruct.nameField rfl hname
  have hcell : l = (m.fdev.cell b ++ l) := by rw [hfdev, CPtr.cell_null, List.nil_append]
  have hjunk : m.fdev ≠ .junk := by
    rw [hfdev]
    exact nofun
  obtain ⟨h₃, hr₃, ho⟩ := ho.release ModStruct.fdevField hcell hjunk
  obtain ⟨h₄, hfree, ho⟩ := ho.free
  exact ⟨h₄, by simp [handleModExit, hr₁, hr₂, hr₃, hfree], ho⟩

/-! ### Controls -/

/-- What `FMOD_CTRL` leaves of the struct. -/
structure ModStruct.Kept (m m' : ModStruct) : Prop where
  fdev : m'.fdev = m.fdev
  name : m'.name = m.name
  szdir : m'.szdir = m.szdir
  exit : m'.exit = m.exit
  update : m'.update = m.update

theorem ModStruct.Kept.refl (m : ModStruct) : m.Kept m := ⟨rfl, rfl, rfl, rfl, rfl⟩

theorem ModStruct.Kept.trans {m m' m'' : ModStruct} (h : m.Kept m') (h' : m'.Kept m'') : m.Kept m'' :=
  ⟨h'.fdev.trans h.fdev, h'.name.trans h.name, h'.szdir.trans h.szdir, h'.exit.trans h.exit,
    h'.update.trans h.update⟩

/-- The control calls no pointer that is junk, and passes no `NULL` string. -/
def ModId.CtrlOk (m : ModStruct) (c : Ctrl) : ModId → Prop
  | .bcdx => ∀ buffer, c = .append buffer → m.update ≠ .null → m.update ≠ .junk ∧ buffer ≠ none
  | .dbi0 => True

/-- The struct is owned, as far as controls leave it. -/
def HoldsMod (s₀ : Store ModBlock) (s : ModSystem) (n : ℕ) (m : ModStruct) (l : List (ℕ × ModBlock)) :
    Prop :=
  ∃ m', m.Kept m' ∧ Owns s₀ s.heap ((n, .mod m') :: l)

theorem ModId.CtrlOk.congr {k : ModId} {m m' : ModStruct} {c : Ctrl} (hm : m.Kept m') :
    k.CtrlOk m' c ↔ k.CtrlOk m c := by
  cases k with
  | bcdx => rw [CtrlOk, CtrlOk, hm.update]
  | dbi0 => exact Iff.rfl

/-- A control of `bcdx` that only writes a field of its own. -/
theorem setMod_eq (ho : Owns s₀ s.heap ((n, .mod m) :: l)) (c : Ctrl) {f : ModStruct → ModStruct}
    (hf : m.Kept (f m)) :
    ∃ r s', Bcdx.setMod (.ref n) c s f = some (r, s') ∧ s'.2.dataExt = s.dataExt ∧
      HoldsMod s₀ s'.2 n m l := by
  obtain ⟨h, hmod, -, ho⟩ := Owns.modify (K := modKind) ho f
  exact ⟨0, (c, { s with heap := h }), by rw [Bcdx.setMod, hmod, Option.map_some], rfl, _, hf, ho⟩

/-- One control. -/
theorem ctrl_eq (k : ModId) (ho : Owns s₀ s.heap ((n, .mod m) :: l)) {c : Ctrl} (hc : k.CtrlOk m c) :
    ∃ r s', k.ctrl (.ref n) c s = some (r, s') ∧ s'.2.dataExt = s.dataExt ∧
      HoldsMod s₀ s'.2 n m l := by
  have hkept : HoldsMod s₀ s n m l := ⟨m, .refl m, ho⟩
  cases k with
  | dbi0 =>
      cases c with
      | result str => cases str <;> exact ⟨_, _, rfl, rfl, hkept⟩
      | _ => exact ⟨_, _, rfl, rfl, hkept⟩
  | bcdx =>
      cases c with
      | service argv0 => exact setMod_eq ho _ ⟨rfl, rfl, rfl, rfl, rfl⟩
      | insert argv2 => exact setMod_eq ho _ ⟨rfl, rfl, rfl, rfl, rfl⟩
      | search argv1 => exact setMod_eq ho _ ⟨rfl, rfl, rfl, rfl, rfl⟩
      | append buffer =>
          have hget : s.heap.get modKind (.ref n) = some m := Owns.get ho List.mem_cons_self
          by_cases hupdate : m.update = .null
          · exact ⟨0, (.append buffer, s), by simp [ModId.ctrl, Bcdx.ctrl, hget, hupdate], rfl, hkept⟩
          · obtain ⟨hjunk, hbuffer⟩ := hc buffer rfl hupdate
            obtain ⟨t, rfl⟩ := Option.ne_none_iff_exists'.mp hbuffer
            cases hu : m.update with
            | null => exact absurd hu hupdate
            | junk => exact absurd hu hjunk
            | ref lib =>
                refine ⟨0, (.append (some t), lib.update t s), ?_, ?_, ?_⟩
                · simp [ModId.ctrl, Bcdx.ctrl, hget, hu, CPtr.deref]
                · cases lib <;> rfl
                · cases lib <;> exact hkept
      | update hdc => cases hdc <;> exact ⟨_, _, rfl, rfl, hkept⟩
      | send hdc => cases hdc <;> exact ⟨_, _, rfl, rfl, hkept⟩
      | _ => exact ⟨_, _, rfl, rfl, hkept⟩

/-- A control that is not in order is undefined. -/
theorem ctrl_none (k : ModId) (ho : Owns s₀ s.heap ((n, .mod m) :: l)) {c : Ctrl}
    (hc : ¬ k.CtrlOk m c) : k.ctrl (.ref n) c s = none := by
  cases k with
  | dbi0 => exact absurd trivial hc
  | bcdx =>
      have hget : s.heap.get modKind (.ref n) = some m := Owns.get ho List.mem_cons_self
      unfold ModId.CtrlOk at hc
      push Not at hc
      obtain ⟨buffer, rfl, hupdate, hbuffer⟩ := hc
      cases hu : m.update with
      | null => exact absurd hu hupdate
      | junk => simp [ModId.ctrl, Bcdx.ctrl, hget, hu, CPtr.deref]
      | ref lib =>
          obtain rfl := hbuffer (by rw [hu]; exact nofun)
          simp [ModId.ctrl, Bcdx.ctrl, hget, hu, CPtr.deref]

/-- All controls: defined exactly when each of them is in order. -/
theorem ctrls_eq (k : ModId) (h : HoldsMod s₀ s n m l) {cs : List Ctrl}
    (hcs : ∀ c ∈ cs, k.CtrlOk m c) :
    ∃ s', k.ctrls (.ref n) cs s = some s' ∧ s'.dataExt = s.dataExt ∧ HoldsMod s₀ s' n m l := by
  induction cs generalizing s with
  | nil => exact ⟨s, rfl, rfl, h⟩
  | cons c cs ih =>
      obtain ⟨m', hkept, ho⟩ := h
      have hc : k.CtrlOk m' c := (ModId.CtrlOk.congr hkept).mpr (hcs c List.mem_cons_self)
      obtain ⟨r, s₁, hctrl, hdata, m'', hkept', ho₁⟩ := ctrl_eq k ho hc
      obtain ⟨s', hrun, hdata', h'⟩ := ih ⟨m'', hkept.trans hkept', ho₁⟩ fun c hc =>
        hcs c (List.mem_cons_of_mem _ hc)
      exact ⟨s', by rw [ModId.ctrls, hctrl, Option.bind_some, hrun], hdata'.trans hdata, h'⟩

theorem ctrls_none (k : ModId) (h : HoldsMod s₀ s n m l) {cs : List Ctrl}
    (hcs : ¬ ∀ c ∈ cs, k.CtrlOk m c) : k.ctrls (.ref n) cs s = none := by
  induction cs generalizing s with
  | nil => exact absurd (fun c hc => absurd hc List.not_mem_nil) hcs
  | cons c cs ih =>
      obtain ⟨m', hkept, ho⟩ := h
      by_cases hc : k.CtrlOk m c
      · obtain ⟨r, s₁, hctrl, -, m'', hkept', ho₁⟩ :=
          ctrl_eq k ho ((ModId.CtrlOk.congr hkept).mpr hc)
        have hrest : ¬ ∀ c ∈ cs, k.CtrlOk m c := by
          intro hall
          refine hcs fun c' hc' => ?_
          rcases List.mem_cons.mp hc' with rfl | hc'
          · exact hc
          · exact hall c' hc'
        rw [ModId.ctrls, hctrl, Option.bind_some]
        exact ih ⟨m'', hkept.trans hkept', ho₁⟩ hrest
      · have hnone := ctrl_none k ho (c := c) (mt (ModId.CtrlOk.congr hkept).mp hc)
        rw [ModId.ctrls, hnone, Option.bind_none]

/-! ### Unloading -/

/-- The strings of a struct, among what is owned. -/
structure Loaded (m : ModStruct) (l' l : List (ℕ × ModBlock)) : Prop where
  cells : ∃ b b', l'.Perm (m.szdir.cell b ++ (m.name.cell b' ++ l))
  szdir : m.szdir ≠ .junk
  name : m.name ≠ .junk
  fdev : m.fdev = .null

theorem Loaded.kept {m' : ModStruct} {l' : List (ℕ × ModBlock)} (h : Loaded m l' l) (hm : m.Kept m') :
    Loaded m' l' l := by
  obtain ⟨hcells, hszdir, hname, hfdev⟩ := h
  rw [← hm.szdir] at hszdir
  rw [← hm.name] at hname
  rw [← hm.szdir, ← hm.name] at hcells
  exact ⟨hcells, hszdir, hname, hm.fdev.trans hfdev⟩

/-- The call of `FMOD_EXIT` through `ptr->exit`. -/
def callExit (m : ModStruct) (ptr : CPtr ℕ) (s : ModSystem) : Option ModSystem :=
  if m.exit = .null then some s else m.exit.deref.bind fun lib => lib.exit ptr s

/-- `FMOD_EXIT` frees the struct and its strings, once the call returned. -/
theorem fmodExit_eq {s₁ : ModSystem} {l₁ : List (ℕ × ModBlock)}
    (hget : s.heap.get modKind (.ref n) = some m) (hcall : callExit m (.ref n) s = some s₁)
    (ho : Owns s₀ s₁.heap ((n, .mod m) :: l₁)) (hm : Loaded m l₁ l) :
    ∃ s', fmodExit (.ref n) s = some s' ∧ Owns s₀ s'.heap l := by
  obtain ⟨⟨b, b', hl⟩, hszdir, hname, hfdev⟩ := hm
  obtain ⟨h, hexit, ho⟩ := handleModExit_eq ho hl hszdir hname hfdev
  refine ⟨{ s₁ with heap := h }, ?_, ho⟩
  unfold callExit at hcall
  simp [fmodExit, hget, hcall, hexit]

/-- `FMOD_EXIT` calls junk. -/
theorem fmodExit_none (hget : s.heap.get modKind (.ref n) = some m) (hexit : m.exit = .junk) :
    fmodExit (.ref n) s = none := by
  simp [fmodExit, hget, hexit, CPtr.deref]

/-! ### Setting up -/

/-- The name can be read. -/
theorem readStr_eq {h : Store ModBlock} {p : CPtr ℕ} {t : List UInt8} (ho : Owns s₀ h l)
    (hp : p ≠ .junk) (hl : p.cell (.str t) ⊆ l) : ∃ r, readStr h p = some r := by
  cases p with
  | null => exact ⟨none, rfl⟩
  | junk => exact absurd rfl hp
  | ref k =>
      have hget := Owns.get (K := strKind) ho (hl List.mem_cons_self)
      exact ⟨some t, by simp [readStr, hget]⟩

/-- `FMOD_INIT` of a struct without a directory assigns nothing. -/
theorem fmodInit_skip (lib : Libmod) (path : ModStruct → ModSystem → Option (CharArray 256))
    (e : ModEnv) (hget : s.heap.get modKind (.ref n) = some m) (hszdir : m.szdir = .null) :
    fmodInit lib path e (.ref n) s = some { s with modExt := .ref n } := by
  simp [fmodInit, hget, hszdir]

/-- `FMOD_INIT` of a struct with a directory, when the path does not fit. -/
theorem fmodInit_none (lib : Libmod) {path : ModStruct → ModSystem → Option (CharArray 256)}
    (e : ModEnv) (hget : s.heap.get modKind (.ref n) = some m) (hszdir : m.szdir ≠ .null)
    (hpath : path m { s with modExt := .ref n } = none) : fmodInit lib path e (.ref n) s = none := by
  simp [fmodInit, hget, hszdir, hpath]

/-- `FMOD_INIT` of a struct with a directory, when the `init` that was assigned does not return. -/
theorem fmodInit_init_none (lib : Libmod) {path : ModStruct → ModSystem → Option (CharArray 256)}
    (e : ModEnv) {szdir : CharArray 256} (ho : Owns s₀ s.heap ((n, .mod m) :: l))
    (hszdir : m.szdir ≠ .null) (hpath : path m { s with modExt := .ref n } = some szdir)
    (hinit : ∀ h, lib.init e szdir (.ref n) { s with modExt := .ref n, heap := h } = none) :
    fmodInit lib path e (.ref n) s = none := by
  have hget : s.heap.get modKind (.ref n) = some m := Owns.get ho List.mem_cons_self
  obtain ⟨h, hmod, -, ho⟩ := Owns.modify (K := modKind) ho (ModStruct.setLibmod lib)
  have hget₁ : h.get modKind (.ref n) = some (m.setLibmod lib) := ho.get List.mem_cons_self
  have hlib : (m.setLibmod lib).init = .ref lib := rfl
  simp [fmodInit, hget, hszdir, hpath, hmod, hget₁, hlib, CPtr.deref, hinit]

/-- `FMOD_INIT` of a struct with a directory: the assignments, then the `init` that was assigned. -/
theorem fmodInit_some (lib : Libmod) {path : ModStruct → ModSystem → Option (CharArray 256)}
    (e : ModEnv) (nm : List UInt8) {szdir : CharArray 256}
    {P : ModSystem → List (ℕ × ModBlock) → Prop} (ho : Owns s₀ s.heap ((n, .mod m) :: l))
    (hszdir : m.szdir ≠ .null) (hname : m.name ≠ .junk)
    (hpath : path m { s with modExt := .ref n } = some szdir)
    (hinit : ∀ h, h.calls = s.heap.calls → Owns s₀ h ((n, .mod (m.setLibmod lib)) :: l) →
      ∃ s' l', lib.init e szdir (.ref n) { s with modExt := .ref n, heap := h } = some s' ∧
        Owns s₀ s'.heap ((n, .mod (m.setLibmod lib)) :: l') ∧ m.name.cell (.str nm) ⊆ l' ∧ P s' l') :
    ∃ s' l' name, fmodInit lib path e (.ref n) s = some (s'.call (.snupdate name)) ∧
      Owns s₀ s'.heap ((n, .mod (m.setLibmod lib)) :: l') ∧ P s' l' := by
  have hget : s.heap.get modKind (.ref n) = some m := Owns.get ho List.mem_cons_self
  obtain ⟨h, hmod, hcalls, ho⟩ := Owns.modify (K := modKind) ho (ModStruct.setLibmod lib)
  have hget₁ : h.get modKind (.ref n) = some (m.setLibmod lib) := ho.get List.mem_cons_self
  have hlib : (m.setLibmod lib).init = .ref lib := rfl
  obtain ⟨s', l', hcall, ho', hcell, hP⟩ := hinit h hcalls ho
  have hget₂ : s'.heap.get modKind (.ref n) = some (m.setLibmod lib) :=
    Owns.get ho' List.mem_cons_self
  obtain ⟨name, hread⟩ := readStr_eq ho' hname (List.Subset.trans hcell (List.subset_cons_self _ _))
  have hread' : readStr s'.heap (m.setLibmod lib).name = some name := hread
  refine ⟨s', l', name, ?_, ho', hP⟩
  simp [fmodInit, hget, hszdir, hpath, hmod, hget₁, hlib, CPtr.deref, hcall, hget₂, hread']

/-! ### The paths -/

theorem bcdxPath_some (e : ModEnv) {d : List UInt8} (hget : s.heap.get strKind m.szdir = some d)
    (hd : 0 ∉ d) (hlen : d.length + 10 < 256) : ∃ szdir, Bcdx.path e m s = some szdir := by
  obtain ⟨b, hcopy, hstr⟩ := e.szdir.strcpy_some hd (by omega)
  obtain ⟨c, hcat, -⟩ := CharArray.strcat_some hstr (t := Bcdx.cacheDat) (by decide) hlen
  exact ⟨c, by simp [Bcdx.path, hget, hcopy, hcat]⟩

theorem bcdxPath_none (e : ModEnv) {d : List UInt8} (hget : s.heap.get strKind m.szdir = some d)
    (hd : 0 ∉ d) (hlen : 256 ≤ d.length + 10) : Bcdx.path e m s = none := by
  by_cases hfits : d.length < 256
  · obtain ⟨b, hcopy, hstr⟩ := e.szdir.strcpy_some hd hfits
    have hcat := CharArray.strcat_none hstr (t := Bcdx.cacheDat) hlen
    simp [Bcdx.path, hget, hcopy, hcat]
  · have hcopy := e.szdir.strcpy_none (Nat.le_of_not_lt hfits)
    simp [Bcdx.path, hget, hcopy]

/-- The data directory with the slash that it may lack. -/
def Dbi0.withSlash (e : ModEnv) (dir : List UInt8) : List UInt8 :=
  dir ++ if lacksSlash e dir then [0x2f] else []

/-- The path that `dbi0` searches. -/
def Dbi0.dataPath (e : ModEnv) (dir : List UInt8) : List UInt8 := withSlash e dir ++ inputDir

/-- The directory can be opened, and so can all that `search` takes for directories. -/
def ModEnv.Searchable (e : ModEnv) (path : List UInt8) : Prop :=
  ∃ mode entries, e.dir path = some (mode, entries) ∧
    Search.Enterable e.oldDir path mode.bits mode.bits (e.oldDir path) entries

theorem search_isSome_iff (e : ModEnv) (path : List UInt8) :
    (e.search path).isSome ↔ e.Searchable path := by
  unfold ModEnv.search ModEnv.Searchable
  cases hdir : e.dir path with
  | none => simp
  | some d => simp [Search.search, Search.searchLoop_isSome_iff, Prod.ext_iff]

/-- A slash that fits. -/
theorem addSlash_some (e : ModEnv) {b : CharArray 256} {d : List UInt8} (hstr : b.str = some d)
    (hd : 0 ∉ d) (hlen : (Dbi0.withSlash e d).length < 256) :
    ∃ c, Dbi0.addSlash e b = some c ∧ c.str = some (Dbi0.withSlash e d) ∧ 0 ∉ Dbi0.withSlash e d := by
  unfold Dbi0.withSlash at hlen ⊢
  rw [Dbi0.addSlash, hstr, Option.bind_some]
  rw [List.length_append] at hlen
  split_ifs at hlen ⊢ with hslash
  · obtain ⟨c, hcat, hc⟩ := CharArray.strcat_some hstr (t := [0x2f]) (by decide) hlen
    exact ⟨c, hcat, hc, by simp [hd]⟩
  · rw [List.append_nil]
    exact ⟨b, rfl, hstr, hd⟩

/-- A slash that does not fit. -/
theorem addSlash_none (e : ModEnv) {b : CharArray 256} {d : List UInt8} (hstr : b.str = some d)
    (hfits : d.length < 256) (hlen : 256 ≤ (Dbi0.withSlash e d).length) :
    Dbi0.addSlash e b = none := by
  unfold Dbi0.withSlash at hlen
  rw [Dbi0.addSlash, hstr, Option.bind_some]
  rw [List.length_append] at hlen
  split_ifs at hlen ⊢ with hslash
  · exact CharArray.strcat_none hstr hlen
  · exact absurd hlen (Nat.not_le_of_lt hfits)

theorem dbi0Path_some (e : ModEnv) {config : DirConfig} {d : CString}
    (hconfig : m.config = .ref config) (hdata : config.mydata = some (some d))
    (hlen : (Dbi0.dataPath e d.bytes).length < 256) :
    ∃ szdir, Dbi0.path e m s = some szdir ∧ szdir.str = some (Dbi0.dataPath e d.bytes) ∧
      0 ∉ Dbi0.dataPath e d.bytes := by
  rw [Dbi0.dataPath, List.length_append] at hlen
  have hslashed : (Dbi0.withSlash e d.bytes).length < 256 := by omega
  have hfits : d.bytes.length < 256 := by
    rw [Dbi0.withSlash, List.length_append] at hslashed
    omega
  obtain ⟨b, hcopy, hstr⟩ := e.szdir.strcpy_some d.noNul hfits
  obtain ⟨c, hslash, hc, hnul⟩ := addSlash_some e hstr d.noNul hslashed
  obtain ⟨c', hcat, hc'⟩ := CharArray.strcat_some hc (t := Dbi0.inputDir) (by decide) hlen
  refine ⟨c', ?_, hc', ?_⟩
  · simp [Dbi0.path, hconfig, CPtr.deref, cstringStr, hdata, hcopy, hslash, hcat]
  · rw [Dbi0.dataPath, List.mem_append, not_or]
    exact ⟨hnul, by decide⟩

theorem dbi0Path_none (e : ModEnv) (s : ModSystem) {config : DirConfig}
    (hconfig : m.config = .ref config)
    (hdata : ∀ d, config.mydata = some (some d) → 256 ≤ (Dbi0.dataPath e d.bytes).length) :
    Dbi0.path e m s = none := by
  cases hmydata : config.mydata with
  | none => simp [Dbi0.path, hconfig, CPtr.deref, cstringStr, hmydata]
  | some buffer =>
      cases buffer with
      | none => simp [Dbi0.path, hconfig, CPtr.deref, cstringStr, hmydata]
      | some d =>
          have hlen := hdata d hmydata
          rw [Dbi0.dataPath, List.length_append] at hlen
          by_cases hfits : d.bytes.length < 256
          · obtain ⟨b, hcopy, hstr⟩ := e.szdir.strcpy_some d.noNul hfits
            by_cases hslash : (Dbi0.withSlash e d.bytes).length < 256
            · obtain ⟨c, hadd, hc, -⟩ := addSlash_some e hstr d.noNul hslash
              have hcat := CharArray.strcat_none hc (t := Dbi0.inputDir) hlen
              simp [Dbi0.path, hconfig, CPtr.deref, cstringStr, hmydata, hcopy, hadd, hcat]
            · have hadd := addSlash_none e hstr hfits (Nat.le_of_not_lt hslash)
              simp [Dbi0.path, hconfig, CPtr.deref, cstringStr, hmydata, hcopy, hadd]
          · have hcopy := e.szdir.strcpy_none (Nat.le_of_not_lt hfits)
            simp [Dbi0.path, hconfig, CPtr.deref, cstringStr, hmydata, hcopy]

/-! ### The whole sequence -/

namespace ModId

/-- The name that `FMOD_ALLOC` copies. -/
def handleName : ModId → List UInt8
  | bcdx => Bcdx.handleName
  | dbi0 => Dbi0.handleName

/-- The library of a module. -/
def lib : ModId → Libmod
  | bcdx => .bcd
  | dbi0 => .d00

/-- The path of `FMOD_INIT`. -/
def path (e : ModEnv) : ModId → ModStruct → ModSystem → Option (CharArray 256)
  | bcdx => Bcdx.path e
  | dbi0 => Dbi0.path e

theorem alloc_eq (k : ModId) (e : ModEnv) (stack : ℕ) (config : DirConfig) (s : ModSystem) :
    k.alloc e stack config s = fmodAlloc k.handleName e.toAllocator stack config s := by
  cases k <;> rfl

theorem init_eq (k : ModId) (e : ModEnv) (ptr : CPtr ℕ) (s : ModSystem) :
    k.init e ptr s = fmodInit k.lib (k.path e) e ptr s := by
  cases k <;> rfl

theorem exit_eq (k : ModId) (ptr : CPtr ℕ) (s : ModSystem) :
    ∃ st, k.exit ptr s = fmodExit ptr { s with stackCoreState := st } := by
  cases k with
  | bcdx => exact ⟨s.stackCoreState, rfl⟩
  | dbi0 => exact ⟨0, rfl⟩

theorem ctrls_null (k : ModId) (cs : List Ctrl) (s : ModSystem) : k.ctrls .null cs s = some s := by
  induction cs with
  | nil => rfl
  | cons c cs ih =>
      have hctrl : k.ctrl .null c s = some (0, c, s) := by cases k <;> rfl
      rw [ctrls, hctrl, Option.bind_some, ih]

end ModId

section
variable {k : ModId} {e : ModEnv} {stack : ℕ} {config : DirConfig} {cs : List Ctrl}

/-- The struct is not allocated. -/
theorem drivenClean_null (hfails : e.fails s.heap.calls = true) :
    DrivenClean k e stack config cs s := by
  have hmalloc := s.heap.malloc_fails (fun w => ModBlock.mod (.ofWords w)) hfails
  have halloc : k.alloc e stack config s = some (.null, { s with heap := s.heap.tick }) := by
    rw [k.alloc_eq]
    simp [fmodAlloc, hmalloc]
  have hinit : k.init e .null { s with heap := s.heap.tick } =
      some { s with heap := s.heap.tick, modExt := .null } := by
    rw [k.init_eq]
    rfl
  obtain ⟨st, hexit⟩ := k.exit_eq .null { s with heap := s.heap.tick, modExt := .null }
  refine ⟨{ s with heap := s.heap.tick, modExt := .null, stackCoreState := st }, ?_, rfl⟩
  rw [ModId.drive, halloc, Option.bind_some, hinit, Option.bind_some, k.ctrls_null, Option.bind_some,
    hexit]
  rfl

/-- `config->szdir` is `NULL`. -/
theorem not_drivenClean_config (hok : e.fails s.heap.calls = false) (hdir : config.szdir = none) :
    ¬ DrivenClean k e stack config cs s := by
  have hmalloc := s.heap.malloc_ok (fun w => ModBlock.mod (.ofWords w)) hok
  have halloc : k.alloc e stack config s = none := by
    rw [k.alloc_eq]
    simp [fmodAlloc, hmalloc, cstringStr, hdir]
  rintro ⟨s', hdrive, -⟩
  rw [ModId.drive, halloc] at hdrive
  exact nomatch hdrive

/-- After the set-up: the controls, and the call through `ptr->exit`. -/
theorem unload_eq (cs : List Ctrl) {s₁ : ModSystem} {l₁ l₂ : List (ℕ × ModBlock)}
    (h : HoldsMod s₀ s₁ n m l₁) (hcs : ∀ c ∈ cs, k.CtrlOk m c)
    (hcall : ∀ m' s, m.Kept m' → s.dataExt = s₁.dataExt → Owns s₀ s.heap ((n, .mod m') :: l₁) →
      ∃ s' l', callExit m' (.ref n) s = some s' ∧ Owns s₀ s'.heap ((n, .mod m') :: l') ∧
        Loaded m' l' l₂) :
    ∃ s', ((k.ctrls (.ref n) cs s₁).bind fun s => k.exit (.ref n) s) = some s' ∧
      Owns s₀ s'.heap l₂ := by
  obtain ⟨s₂, hrun, hdata, m', hkept, ho⟩ := ctrls_eq k h hcs
  obtain ⟨st, hexit⟩ := k.exit_eq (.ref n) s₂
  obtain ⟨s₃, l', hcall', ho', hm⟩ := hcall m' { s₂ with stackCoreState := st } hkept hdata ho
  obtain ⟨s', hfree, ho''⟩ := fmodExit_eq (s := { s₂ with stackCoreState := st })
    (Owns.get ho List.mem_cons_self) hcall' ho' hm
  exact ⟨s', by rw [hrun, Option.bind_some, hexit, hfree], ho''⟩

/-- No directory was copied: the fields that nothing set decide. -/
theorem drivenClean_unset_iff {dir : Option CString} (hok : e.fails s.heap.calls = false)
    (hdir : config.szdir = some dir) (hnone : dir = none ∨ e.fails (s.heap.calls + 1) = true) :
    DrivenClean k e stack config cs s ↔
      (ModStruct.ofWords (e.words s.heap.calls)).exit = .null ∧
      ∀ c ∈ cs, k.CtrlOk (ModStruct.ofWords (e.words s.heap.calls)) c := by
  obtain ⟨szdir, name, h, halloc, hszdir, hname, hnull, -, ho⟩ :=
    fmodAlloc_eq k.handleName stack hdir hok
  obtain rfl := hnull.mpr hnone
  let m := allocated e.toAllocator s.heap.calls stack config .null name
  let s₁ : ModSystem := { s with heap := h, modExt := .ref s.heap.calls }
  have hinit : k.init e (.ref s.heap.calls) { s with heap := h } = some s₁ := by
    rw [k.init_eq]
    exact fmodInit_skip _ _ _ (Owns.get ho List.mem_cons_self) rfl
  have hdrive : k.drive e stack config cs s =
      (k.ctrls (.ref s.heap.calls) cs s₁).bind fun s₂ => k.exit (.ref s.heap.calls) s₂ := by
    rw [ModId.drive, k.alloc_eq, halloc, Option.bind_some, hinit, Option.bind_some]
  have hholds : HoldsMod s.heap s₁ s.heap.calls m _ := ⟨m, .refl m, ho⟩
  have hctrl : ∀ c, k.CtrlOk m c ↔ k.CtrlOk (ModStruct.ofWords (e.words s.heap.calls)) c := by
    intro c
    cases k <;> exact Iff.rfl
  have hloaded : Loaded m (name.cell (.str k.handleName) ++
      CPtr.null.cell (.str ((dir.map CString.bytes).getD []))) [] :=
    ⟨⟨.zeros, .str k.handleName, by simp [m, allocated]⟩, nofun, hname, rfl⟩
  unfold DrivenClean
  rw [hdrive]
  constructor
  · rintro ⟨s', hrun, -⟩
    have hcs : ∀ c ∈ cs, k.CtrlOk m c := by
      by_contra hcs
      rw [ctrls_none k hholds hcs] at hrun
      exact nomatch hrun
    refine ⟨?_, fun c hc => (hctrl c).mp (hcs c hc)⟩
    by_contra hexit
    obtain ⟨s₂, hctrls, -, m', hkept, ho₂⟩ := ctrls_eq k hholds hcs
    obtain ⟨st, hst⟩ := k.exit_eq (.ref s.heap.calls) s₂
    have hjunk : m'.exit = .junk := hkept.exit.trans (CPtr.ofWord_eq_junk_iff.mpr hexit)
    have hnone := fmodExit_none (s := { s₂ with stackCoreState := st })
      (Owns.get ho₂ List.mem_cons_self) hjunk
    rw [hctrls, Option.bind_some, hst, hnone] at hrun
    exact nomatch hrun
  · rintro ⟨hexit, hcs⟩
    obtain ⟨s', hrun, ho'⟩ := unload_eq (k := k) cs hholds (fun c hc => (hctrl c).mpr (hcs c hc))
      fun m' s₂ hkept _ ho₂ =>
        ⟨s₂, _, if_pos (hkept.exit.trans hexit), ho₂, hloaded.kept hkept⟩
    exact ⟨s', hrun, ho'.block_eq⟩

/-- The blocks of the two strings of a struct. -/
def strings (name : CPtr ℕ) (nm : List UInt8) (q : ℕ) (dir : List UInt8) : List (ℕ × ModBlock) :=
  name.cell (.str nm) ++ [(q, .str dir)]

/-- The directory was copied: `FMOD_ALLOC` returns the struct with its two strings. -/
theorem alloc_set (k : ModId) (stack : ℕ) {d : CString} (hok : e.fails s.heap.calls = false)
    (hdir : config.szdir = some (some d)) (hcopy : e.fails (s.heap.calls + 1) = false) :
    ∃ q name h, k.alloc e stack config s = some (.ref s.heap.calls, { s with heap := h }) ∧
      name ≠ .junk ∧ h.calls = s.heap.calls + 3 ∧
      Owns s.heap h
        ((s.heap.calls, .mod (allocated e.toAllocator s.heap.calls stack config (.ref q) name)) ::
          strings name k.handleName q d.bytes) := by
  obtain ⟨szdir, name, h, halloc, hszdir, hname, hnull, hcalls, ho⟩ :=
    fmodAlloc_eq k.handleName stack hdir hok
  cases szdir with
  | null => exact absurd (hnull.mp rfl) (by simp [hcopy])
  | junk => exact absurd rfl hszdir
  | ref q => exact ⟨q, name, h, by rw [k.alloc_eq, halloc], hname, hcalls nofun, ho⟩

/-- `FMOD_INIT` does not return. -/
theorem not_drivenClean_init {d : CString} (hok : e.fails s.heap.calls = false)
    (hdir : config.szdir = some (some d)) (hcopy : e.fails (s.heap.calls + 1) = false)
    (hinit : ∀ h q name, Owns s.heap h
      ((s.heap.calls, .mod (allocated e.toAllocator s.heap.calls stack config (.ref q) name)) ::
        strings name k.handleName q d.bytes) →
      fmodInit k.lib (k.path e) e (.ref s.heap.calls) { s with heap := h } = none) :
    ¬ DrivenClean k e stack config cs s := by
  obtain ⟨q, name, h, halloc, hname, -, ho⟩ := alloc_set k stack hok hdir hcopy
  rintro ⟨s', hdrive, -⟩
  rw [ModId.drive, halloc, Option.bind_some, k.init_eq, hinit h q name ho] at hdrive
  exact nomatch hdrive

/-- The path does not fit, or there is none. -/
theorem not_drivenClean_path {d : CString} (hok : e.fails s.heap.calls = false)
    (hdir : config.szdir = some (some d)) (hcopy : e.fails (s.heap.calls + 1) = false)
    (hpath : ∀ h q name, h.get strKind (.ref q) = some d.bytes →
      k.path e (allocated e.toAllocator s.heap.calls stack config (.ref q) name)
        { s with heap := h, modExt := .ref s.heap.calls } = none) :
    ¬ DrivenClean k e stack config cs s := by
  refine not_drivenClean_init hok hdir hcopy fun h q name ho => ?_
  have hget : h.get strKind (.ref q) = some d.bytes := Owns.get ho (by simp [strKind, strings])
  exact fmodInit_none _ _ (Owns.get ho List.mem_cons_self) nofun (hpath h q name hget)

/-- The path of `dbi0` fits, and cannot be searched. -/
theorem not_drivenClean_search {d mydata : CString} (hok : e.fails s.heap.calls = false)
    (hdir : config.szdir = some (some d)) (hcopy : e.fails (s.heap.calls + 1) = false)
    (hmydata : config.mydata = some (some mydata))
    (hlen : (Dbi0.dataPath e mydata.bytes).length < 256)
    (hsearch : e.search (Dbi0.dataPath e mydata.bytes) = none) :
    ¬ DrivenClean .dbi0 e stack config cs s := by
  refine not_drivenClean_init hok hdir hcopy fun h q name ho => ?_
  obtain ⟨szdir, hpath, hstr, hnul⟩ := dbi0Path_some
    (s := { s with heap := h, modExt := .ref s.heap.calls })
    (m := allocated e.toAllocator s.heap.calls stack config (.ref q) name) e rfl hmydata hlen
  obtain ⟨file, hfile, -⟩ := s.pathFile.strcpy_some hnul hlen
  refine fmodInit_init_none (s := { s with heap := h }) _ _ ho nofun hpath fun h₁ => ?_
  simp [ModId.lib, Libmod.init, d00LibmodInit, hstr, hfile, hsearch]

/-- The strings of a struct whose directory was copied. -/
theorem loaded_set {q : ℕ} {name : CPtr ℕ} {lib : Libmod} {nm d : List UInt8} {m' : ModStruct}
    (a : Allocator) (hname : name ≠ .junk)
    (hkept : ((allocated a n stack config (.ref q) name).setLibmod lib).Kept m')
    (l : List (ℕ × ModBlock)) :
    Loaded m' (l ++ strings name nm q d) l := by
  have hloaded : Loaded ((allocated a n stack config (.ref q) name).setLibmod lib)
      (l ++ strings name nm q d) l := by
    refine ⟨⟨.str d, .str nm, ?_⟩, nofun, hname, rfl⟩
    have hswap : (l ++ strings name nm q d).Perm
        ([(q, ModBlock.str d)] ++ (l ++ name.cell (ModBlock.str nm))) := by
      rw [strings, ← List.append_assoc]
      exact List.perm_append_comm
    exact hswap.trans (List.perm_append_comm.append_left [(q, ModBlock.str d)])
  exact hloaded.kept hkept

/-- What the sequence comes to, once `FMOD_INIT` returned. -/
theorem drive_set {h : Store ModBlock} {s₁ : ModSystem} {r : Option (List UInt8)}
    (halloc : k.alloc e stack config s = some (.ref s.heap.calls, { s with heap := h }))
    (hinit : fmodInit k.lib (k.path e) e (.ref s.heap.calls) { s with heap := h } =
      some (s₁.call (.snupdate r))) :
    k.drive e stack config cs s = (k.ctrls (.ref s.heap.calls) cs (s₁.call (.snupdate r))).bind fun s₂ =>
      k.exit (.ref s.heap.calls) s₂ := by
  rw [ModId.drive, halloc, Option.bind_some, k.init_eq, hinit, Option.bind_some]

section
variable {h : Store ModBlock} {q : ℕ} {name : CPtr ℕ} {d : CString}

/-- `FMOD_INIT` of `bcdx`, when the path fits, allocates nothing. -/
theorem bcdxInit_eq
    (ho : Owns s.heap h
      ((s.heap.calls, .mod (allocated e.toAllocator s.heap.calls stack config (.ref q) name)) ::
        strings name Bcdx.handleName q d.bytes))
    (hname : name ≠ .junk) (hlen : d.bytes.length + 10 < 256) :
    ∃ (s₁ : ModSystem) (r : Option (List UInt8)),
      fmodInit .bcd (Bcdx.path e) e (.ref s.heap.calls) { s with heap := h } =
        some (s₁.call (.snupdate r)) ∧
      Owns s.heap s₁.heap ((s.heap.calls, .mod ((allocated e.toAllocator s.heap.calls stack config
        (.ref q) name).setLibmod .bcd)) :: strings name Bcdx.handleName q d.bytes) := by
  have hget : h.get strKind (.ref q) = some d.bytes := Owns.get ho (by simp [strKind, strings])
  obtain ⟨szdir, hpath⟩ := bcdxPath_some
    (s := { s with heap := h, modExt := .ref s.heap.calls })
    (m := allocated e.toAllocator s.heap.calls stack config (.ref q) name) e hget d.noNul hlen
  obtain ⟨s₁, l', r, hinit, ho₁, rfl⟩ := fmodInit_some (s := { s with heap := h })
    (P := fun _ l' => l' = strings name Bcdx.handleName q d.bytes) .bcd
    e Bcdx.handleName ho nofun hname hpath fun h₁ hcalls ho₁ => by
      obtain ⟨s₁, hcall, hheap⟩ := bcdLibmodInit_eq
        (s := { s with modExt := .ref s.heap.calls, heap := h₁ })
        (Owns.get (K := modKind) ho₁ List.mem_cons_self)
      exact ⟨s₁, _, hcall, by rw [hheap]; exact ho₁, List.subset_append_left _ _, rfl⟩
  exact ⟨s₁, r, hinit, ho₁⟩

/-- `FMOD_INIT` of `dbi0`, when the path fits and is searched: what `d00_libmod_init` allocates is owned
too. -/
theorem dbi0Init_eq {mydata : CString}
    (ho : Owns s.heap h
      ((s.heap.calls, .mod (allocated e.toAllocator s.heap.calls stack config (.ref q) name)) ::
        strings name Dbi0.handleName q d.bytes))
    (hname : name ≠ .junk) (hcalls : h.calls = s.heap.calls + 3)
    (hmydata : config.mydata = some (some mydata))
    (hlen : (Dbi0.dataPath e mydata.bytes).length < 256) {calls : List Search.Visit}
    (hsearch : e.search (Dbi0.dataPath e mydata.bytes) = some calls) :
    ∃ (s₁ : ModSystem) (r : Option (List UInt8)) (xdev : CPtr ℕ) (D : List (ℕ × ModBlock)),
      fmodInit .d00 (Dbi0.path e) e (.ref s.heap.calls) { s with heap := h } =
        some (s₁.call (.snupdate r)) ∧
      xdev ≠ .junk ∧
      (xdev = .null ↔ e.fails (s.heap.calls + 3) = true ∨ e.fails (s.heap.calls + 4) = true) ∧
      DataCells s₁.dataExt D ∧
      Owns s.heap s₁.heap ((s.heap.calls, .mod ((allocated e.toAllocator s.heap.calls stack config
        (.ref q) name).setLibmod .d00)) :: (D ++ xdev.cell (.str baseProc) ++
          strings name Dbi0.handleName q d.bytes)) := by
  obtain ⟨szdir, hpath, hstr, hnul⟩ := dbi0Path_some
    (s := { s with heap := h, modExt := .ref s.heap.calls })
    (m := allocated e.toAllocator s.heap.calls stack config (.ref q) name) e rfl hmydata hlen
  obtain ⟨file, hfile, -⟩ := s.pathFile.strcpy_some hnul hlen
  obtain ⟨s₁, l', r, hinit, ho₁, xdev, D, hxdev, hnull, hD, rfl⟩ := fmodInit_some
    (s := { s with heap := h })
    (P := fun s' l' => ∃ (xdev : CPtr ℕ) (D : List (ℕ × ModBlock)), xdev ≠ .junk ∧
      (xdev = .null ↔ e.fails (s.heap.calls + 3) = true ∨ e.fails (s.heap.calls + 4) = true) ∧
      DataCells s'.dataExt D ∧ l' = D ++ xdev.cell (.str baseProc) ++
        strings name Dbi0.handleName q d.bytes) .d00
    e Dbi0.handleName ho nofun hname hpath fun h₁ hcalls₁ ho₁ => by
      obtain ⟨s', xdev, D, halloc', hxdev, hnull, hD, ho'⟩ := d00Alloc_eq
        (s := { s with heap := h₁, modExt := .ref s.heap.calls, pathFile := file }.call
          (.search (Dbi0.dataPath e mydata.bytes) calls))
        e.toAllocator ho₁
      have hcalls' : h₁.calls = s.heap.calls + 3 := hcalls₁.trans hcalls
      refine ⟨s', _, ?_, ho'.perm ?_, ?_, xdev, D, hxdev, ?_, hD, rfl⟩
      · simp [Libmod.init, d00LibmodInit, hstr, hfile, hsearch, ← halloc']
      · rw [← List.append_assoc]
        exact List.perm_middle
      · exact List.Subset.trans (List.subset_append_left _ _) (List.subset_append_right _ _)
      · rw [hnull]
        change e.fails h₁.calls = true ∨ e.fails (h₁.calls + 1) = true ↔ _
        rw [hcalls']
  exact ⟨s₁, r, xdev, D, hinit, hxdev, hnull, hD, ho₁⟩

end

/-- `bcdx`, once the directory is copied. -/
theorem bcdx_set_iff {d : CString} (hok : e.fails s.heap.calls = false)
    (hdir : config.szdir = some (some d)) (hcopy : e.fails (s.heap.calls + 1) = false) :
    DrivenClean .bcdx e stack config cs s ↔ d.bytes.length + 10 < 256 ∧ .append none ∉ cs := by
  by_cases hlen : d.bytes.length + 10 < 256
  case neg =>
    have hnot : ¬ DrivenClean .bcdx e stack config cs s :=
      not_drivenClean_path hok hdir hcopy fun h q name hget =>
        bcdxPath_none e hget d.noNul (Nat.le_of_not_lt hlen)
    exact iff_of_false hnot fun h => hlen h.1
  obtain ⟨q, name, h, halloc, hname, -, ho⟩ := alloc_set .bcdx stack hok hdir hcopy
  obtain ⟨s₁, r, hinit, ho₁⟩ := bcdxInit_eq ho hname hlen
  have hholds : HoldsMod s.heap (s₁.call (.snupdate r)) s.heap.calls _ _ := ⟨_, .refl _, ho₁⟩
  have hctrl : ∀ c, ModId.bcdx.CtrlOk ((allocated e.toAllocator s.heap.calls stack config (.ref q)
      name).setLibmod .bcd) c ↔ c ≠ .append none := by
    intro c
    constructor
    · rintro hc rfl
      exact (hc none rfl nofun).2 rfl
    · rintro hc buffer rfl -
      exact ⟨nofun, fun hbuffer => hc (by rw [hbuffer])⟩
  unfold DrivenClean
  rw [drive_set (k := .bcdx) halloc hinit]
  constructor
  · rintro ⟨s', hrun, -⟩
    refine ⟨hlen, fun hmem => ?_⟩
    have hcs : ¬ ∀ c ∈ cs, ModId.bcdx.CtrlOk _ c := fun hcs => (hctrl _).mp (hcs _ hmem) rfl
    rw [ctrls_none .bcdx hholds hcs] at hrun
    exact nomatch hrun
  · rintro ⟨-, hcs⟩
    obtain ⟨s', hrun, ho'⟩ := unload_eq (k := .bcdx) cs hholds
      (fun c hc => (hctrl c).mpr fun heq => hcs (heq ▸ hc)) fun m' s₂ hkept _ ho₂ => by
        have hexit : m'.exit = .ref .bcd := hkept.exit
        obtain ⟨s₃, hcall, hheap⟩ := bcdLibmodExit_eq (s := s₂)
          (Owns.get (K := modKind) ho₂ List.mem_cons_self)
        refine ⟨s₃, _, ?_, by rw [hheap]; exact ho₂, loaded_set e.toAllocator hname hkept []⟩
        rw [callExit, hexit, if_neg nofun]
        exact hcall
    exact ⟨s', hrun, ho'.block_eq⟩

/-- `dbi0`, once the directory is copied: the string of `xdev` is never freed. -/
theorem dbi0_set_iff {d : CString} (hok : e.fails s.heap.calls = false)
    (hdir : config.szdir = some (some d)) (hcopy : e.fails (s.heap.calls + 1) = false) :
    DrivenClean .dbi0 e stack config cs s ↔
      ∃ mydata, config.mydata = some (some mydata) ∧
        (Dbi0.dataPath e mydata.bytes).length < 256 ∧ e.Searchable (Dbi0.dataPath e mydata.bytes) ∧
        (e.fails (s.heap.calls + 3) = true ∨ e.fails (s.heap.calls + 4) = true) := by
  by_cases hpath : ∃ mydata, config.mydata = some (some mydata) ∧
      (Dbi0.dataPath e mydata.bytes).length < 256
  case neg =>
    have hnot : ¬ DrivenClean .dbi0 e stack config cs s :=
      not_drivenClean_path hok hdir hcopy fun h q name _ =>
        dbi0Path_none e { s with heap := h, modExt := .ref s.heap.calls } rfl fun mydata hmydata => by
          by_contra hlen
          exact hpath ⟨mydata, hmydata, Nat.lt_of_not_le hlen⟩
    apply iff_of_false hnot
    rintro ⟨mydata, hmydata, hlen, -⟩
    exact hpath ⟨mydata, hmydata, hlen⟩
  obtain ⟨mydata, hmydata, hlen⟩ := hpath
  have hiff : ∀ Q : Prop, (∃ mydata, config.mydata = some (some mydata) ∧
      (Dbi0.dataPath e mydata.bytes).length < 256 ∧ e.Searchable (Dbi0.dataPath e mydata.bytes) ∧
      Q) ↔ (e.search (Dbi0.dataPath e mydata.bytes)).isSome ∧ Q := by
    intro Q
    constructor
    · rintro ⟨mydata', hmydata', -, h⟩
      obtain rfl := Option.some.inj (Option.some.inj (hmydata.symm.trans hmydata'))
      rwa [search_isSome_iff]
    · rw [search_isSome_iff]
      exact fun h => ⟨mydata, hmydata, hlen, h⟩
  rw [hiff]
  by_cases hsome : (e.search (Dbi0.dataPath e mydata.bytes)).isSome
  case neg =>
    have hnone := Option.not_isSome_iff_eq_none.mp hsome
    exact iff_of_false (not_drivenClean_search hok hdir hcopy hmydata hlen hnone) fun h => hsome h.1
  obtain ⟨calls, hsearch⟩ := Option.isSome_iff_exists.mp hsome
  rw [and_iff_right hsome]
  obtain ⟨q, name, h, halloc, hname, hcalls, ho⟩ := alloc_set .dbi0 stack hok hdir hcopy
  obtain ⟨s₁, r, xdev, D, hinit, hxdev, hnull, hD, ho₁⟩ := dbi0Init_eq ho hname hcalls hmydata hlen
    hsearch
  have hholds : HoldsMod s.heap (s₁.call (.snupdate r)) s.heap.calls _ _ := ⟨_, .refl _, ho₁⟩
  obtain ⟨s', hrun, ho'⟩ := unload_eq (k := .dbi0) cs hholds (fun _ _ => trivial)
    fun m' s₂ hkept hdata ho₂ => by
      have hexit : m'.exit = .ref .d00 := hkept.exit
      rw [List.append_assoc] at ho₂
      obtain ⟨s₃, hcall, -, ho₃⟩ := d00LibmodExit_eq (s := s₂) (hdata ▸ hD)
        (ho₂.perm List.perm_middle.symm)
      refine ⟨s₃, _, ?_, ho₃, loaded_set e.toAllocator hname hkept (xdev.cell (.str baseProc))⟩
      rw [callExit, hexit, if_neg nofun]
      exact hcall
  rw [← drive_set (k := .dbi0) halloc hinit] at hrun
  have hclean : DrivenClean .dbi0 e stack config cs s ↔ xdev = .null := by
    unfold DrivenClean
    rw [hrun]
    cases xdev with
    | null => exact iff_of_true ⟨s', rfl, ho'.block_eq⟩ rfl
    | junk => exact absurd rfl hxdev
    | ref x =>
        refine iff_of_false ?_ nofun
        rintro ⟨s'', heq, hblock⟩
        obtain rfl := Option.some.inj heq
        exact absurd (ho'.block_eq_iff.mp hblock) nofun
  rw [hclean, hnull]

end

end

/-- What is left to go wrong once the directory is copied: the path, a `NULL` string for `update`, and
in `dbi0` the search of the path and the string of `xdev`, unless it is not allocated. -/
def ModId.CleanSet (e : ModEnv) (config : DirConfig) (cs : List Ctrl) (n : ℕ) (d : CString) :
    ModId → Prop
  | bcdx => d.bytes.length + 10 < 256 ∧ .append none ∉ cs
  | dbi0 => ∃ mydata, config.mydata = some (some mydata) ∧
      (Dbi0.dataPath e mydata.bytes).length < 256 ∧ e.Searchable (Dbi0.dataPath e mydata.bytes) ∧
      (e.fails (n + 3) = true ∨ e.fails (n + 4) = true)

/-- When the sequence is clean: the struct is not allocated; the directory is not copied, and nothing
calls a pointer that is junk; or it is copied, and the rest goes well. -/
def CleanSetup (k : ModId) (e : ModEnv) (config : DirConfig) (cs : List Ctrl) (n : ℕ) : Prop :=
  e.fails n = true ∨
    (∃ dir, config.szdir = some dir ∧ (dir = none ∨ e.fails (n + 1) = true) ∧
      (ModStruct.ofWords (e.words n)).exit = .null ∧
      ∀ c ∈ cs, k.CtrlOk (ModStruct.ofWords (e.words n)) c) ∨
    ∃ d, config.szdir = some (some d) ∧ e.fails (n + 1) = false ∧ k.CleanSet e config cs n d

end ModSetup

open ModSetup

/-- **Failed set-ups.**  A module is driven and unloaded cleanly exactly when `CleanSetup` says so. -/
theorem drivenClean_iff (k : ModId) (e : ModEnv) (stack : ℕ) (config : DirConfig) (cs : List Ctrl)
    (s : ModSystem) :
    DrivenClean k e stack config cs s ↔ CleanSetup k e config cs s.heap.calls := by
  unfold CleanSetup
  cases hok : e.fails s.heap.calls with
  | true => exact iff_of_true (drivenClean_null hok) (.inl rfl)
  | false =>
      cases hdir : config.szdir with
      | none => exact iff_of_false (not_drivenClean_config hok hdir) (by simp)
      | some dir =>
          by_cases hnone : dir = none ∨ e.fails (s.heap.calls + 1) = true
          · rw [drivenClean_unset_iff hok hdir hnone]
            have hset : ¬ ∃ d, some dir = some (some d) ∧ e.fails (s.heap.calls + 1) = false ∧
                k.CleanSet e config cs s.heap.calls d := by
              rintro ⟨d, hd, hcopy, -⟩
              obtain rfl := Option.some.inj hd
              rcases hnone with hnone | hfails
              · exact nomatch hnone
              · rw [hcopy] at hfails
                exact nomatch hfails
            rw [or_iff_left hset]
            simp [hnone]
          · rw [not_or] at hnone
            obtain ⟨d, rfl⟩ := Option.ne_none_iff_exists'.mp hnone.1
            have hcopy : e.fails (s.heap.calls + 1) = false := Bool.eq_false_of_not_eq_true hnone.2
            cases k with
            | bcdx =>
                rw [bcdx_set_iff hok hdir hcopy]
                simp [hcopy, ModId.CleanSet]
            | dbi0 =>
                rw [dbi0_set_iff hok hdir hcopy]
                simp [hcopy, ModId.CleanSet]

/-- The directory is not copied, and the memory of the struct holds ones: `FMOD_EXIT` calls junk. -/
theorem not_drivenClean_copy :
    ¬ DrivenClean .bcdx ⟨⟨fun n => n = 1, fun _ _ => 1⟩, ⟨List.replicate 256 0, List.length_replicate⟩, 0,
      fun _ => none, id⟩ 0 ⟨some (some ⟨[0x2f], by decide⟩), none⟩ []
      ⟨.empty, .null, .null, ⟨List.replicate 256 0, List.length_replicate⟩, 0, 1, []⟩ := by
  rw [drivenClean_unset_iff rfl rfl (.inr rfl)]
  rintro ⟨hexit, -⟩
  exact nomatch hexit

end Carroll
