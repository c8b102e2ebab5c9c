import Carroll.Counted

/-! # The module stack of `libcrt` (`mod.c`)

`mod_update` loads a library: it asks `dlopen` until it gets a handle, at most 31 times, and
then looks up seven symbols with `dlsym`, in rounds.  `error_s` counts the symbols that a round
misses and is never reset, so that the rounds stop after the first one when nothing is missing,
and after thirty otherwise.  The entry is appended whatever was found.

What the outside answers during one `mod_update` is a `Loading`: the block that `malloc` returns
with its old content, the handles, the symbols of every round, what `xm_init` returns, and whether
`libcrt_snupdate` gets a block for its node.  A function pointer is its address, and `dlsym` of
`zmod_name` is given with the name that the function returns.  A result `none` stands for undefined
behaviour: `sprintf` past the end of `buf[256]`, or `strlen` and `strcmp` on a pointer that was never
written.  The stack pointer itself is not `NULL`.

There is one model of `mod_update`, `modUpdateOn`, for every representation of the stack: as a value
(`modUpdate`), as a chain of blocks (`ModRegistry.modUpdate`), and beside the list of system nodes
(`crtModUpdate`). -/

namespace Carroll

/-- A `char *`: `NULL`, a string, or a pointer to nothing. -/
inductive CharPtr where
  | null
  | str (s : List UInt8)
  | wild
deriving DecidableEq, Repr

/-- `struct mod_addr_t`. -/
structure ModAddr where
  moduleName : CharPtr
  seid : ℕ
  libhandle : Option ℕ
  xmName : CharPtr
  xmGetver : Option ℕ
  xmInit : Option ℕ
  xmExit : Option ℕ
  xmExtw : Option ℕ
  xmAlloc : Option ℕ
  xmCtrl : Option ℕ
deriving DecidableEq, Repr

/-- `count` and `addr` of `struct mod_stack_t`. -/
abbrev ModStack := Counted ModAddr

/-- `mod_alloc`. -/
def modAlloc : ModStack := Counted.empty

/-! ### Loading -/

/-- The symbols that `dlsym` returns in one round, and the name that `zmod_name` returns. -/
structure Symbols where
  getver : Option ℕ
  init : Option ℕ
  exit : Option ℕ
  extw : Option ℕ
  alloc : Option ℕ
  ctrl : Option ℕ
  name : Option (List UInt8)
deriving DecidableEq, Repr

/-- What the outside answers during one `mod_update`; `registers` when there is a list of system nodes
and a block for the node of the module. -/
structure Loading where
  upd : Option ModAddr
  dlopen : ℕ → Option ℕ
  dlsym : ℕ → Symbols
  newStr : ℕ → Bool
  xmInit : ℕ → ℤ
  registers : Bool

/-- `upd`, `error_s` and `err` between two rounds. -/
structure Round where
  upd : ModAddr
  errorS : ℕ
  err : ℤ

/-- `"/module/"`. -/
def modulePrefix : List UInt8 := [0x2f, 0x6d, 0x6f, 0x64, 0x75, 0x6c, 0x65, 0x2f]

/-- `sprintf(buf, "/module/%s\0", …)` with `char buf[256]`. -/
def sprintfModule (name : List UInt8) : Option (List UInt8) :=
  let buf := modulePrefix ++ name
  if buf.length < 256 then some buf else none

/-- `1` for a pointer that is `NULL`. -/
def missing {α : Type} (p : Option α) : ℕ := if p.isNone then 1 else 0

/-- One round of `PREV`. -/
def modRound (syms : Symbols) (newStr : Bool) (init : ℤ) (s : Round) : Option Round :=
  let upd := { s.upd with
    xmGetver := syms.getver, xmInit := syms.init, xmExit := syms.exit, xmExtw := syms.extw,
    xmAlloc := syms.alloc, xmCtrl := syms.ctrl }
  let errorS := s.errorS + missing syms.getver + missing syms.init + missing syms.exit +
    missing syms.extw + missing syms.alloc + missing syms.ctrl
  let started := syms.init.isSome && syms.alloc.isSome
  let err := if started then init else s.err
  let errorInit := if started then 0 else 1
  match syms.name with
  | none => some ⟨upd, errorS + 1 + errorInit, err⟩
  | some name =>
      (sprintfModule name).map fun buf =>
        ⟨{ upd with xmName := .str name, moduleName := if newStr then .str buf else .null },
          errorS + errorInit, err⟩

/-- The rounds from number `round` on, at most `left` of them. -/
def modRounds (ld : Loading) : ℕ → ℕ → Round → Option Round
  | 0, _, s => some s
  | left + 1, round, s =>
      (modRound (ld.dlsym round) (ld.newStr round) (ld.xmInit round) s).bind fun s =>
        if s.errorS = 0 then some s else modRounds ld left (round + 1) s

/-- `mod_update` up to `NEXT`, with the block `upd` and a stack that counts `count` entries. -/
def modLoadAt (count : ℕ) (ld : Loading) (upd : ModAddr) : Option Round :=
  let libhandle := (List.range 31).findSome? ld.dlopen
  modRounds ld 30 0 ⟨{ upd with seid := count, libhandle := libhandle }, 0, 0⟩

/-- `mod_update` up to `NEXT`, with the block `upd`. -/
def modLoad (ptr : ModStack) (ld : Loading) (upd : ModAddr) : Option Round :=
  modLoadAt ptr.count ld upd

/-- `libcrt_new_str`, whose `malloc` may fail. -/
def libcrtNewStr (str : CharPtr) (malloc : Bool) : Option CharPtr :=
  match str with
  | .null => some .null
  | .str s => some (if malloc then .str s else .null)
  | .wild => none

/-- `mod_update` on a stack in some state whose counter shows `count`: the state afterwards and the
result.  `snupdate` is `libcrt_snupdate` with the `module_name` of the entry, and `append` links the
entry and counts it. -/
def modUpdateOn {σ : Type} (count : ℕ) (ld : Loading) (snupdate : CharPtr → σ → Option σ)
    (append : ModAddr → σ → Option σ) (s : σ) : Option (σ × ℤ) :=
  match ld.upd with
  | none => some (s, 0)
  | some upd =>
      (modLoadAt count ld upd).bind fun r =>
        (snupdate r.upd.moduleName s).bind fun s =>
          (append r.upd s).map fun s => (s, if r.err ≠ 0 then r.err else 1)

/-- `libcrt_snupdate(str, upd->module_name, …)` as far as the stack goes: it copies the name, unless
there is no list or no block for the node. -/
def Loading.snupdate {σ : Type} (ld : Loading) (name : CharPtr) (s : σ) : Option σ :=
  if ld.registers then (libcrtNewStr name true).map fun _ => s else some s

/-- `mod_update`: the stack afterwards and the result. -/
def modUpdate (ptr : ModStack) (ld : Loading) : Option (ModStack × ℤ) :=
  modUpdateOn ptr.count ld ld.snupdate (fun upd ptr => some (ptr.push upd)) ptr

/-- `mod_free`: the visited entries are freed, and the counter starts again.  That `next` is read
from an entry after it was freed is left to the blocks (`ModRegistry.modFree`). -/
def modFree (ptr : ModStack) : ModStack := ptr.drain

/-! ### Dispatch -/

/-- `mod_object`: the entry after `count - 1` steps, in unsigned arithmetic. -/
def modObject (ptr : ModStack) : Option ModAddr :=
  if ptr.count = 1 then ptr.addr[0]? else ptr.addr[u32 (ptr.count + (2 ^ 32 - 1))]?

/-- `mod_getname`. -/
def modGetname : Option ModAddr → CharPtr
  | none => .null
  | some ptr => ptr.xmName

/-- `strcmp(name, s) == 0`. -/
def strcmpEq (name : List UInt8) : CharPtr → Option Bool
  | .str s => some (name = s)
  | _ => none

/-- The loop of `mod_find`. -/
def modFindLoop (findMod : CharPtr) : List ModAddr → Option (Option ModAddr)
  | [] => some none
  | prev :: next =>
      match prev.xmName with
      | .null => some none
      | .wild => none
      | .str name =>
          (strcmpEq name findMod).bind fun found =>
            if found then some (some prev) else modFindLoop findMod next

/-- `mod_find`. -/
def modFind (ptr : ModStack) (findMod : CharPtr) : Option (Option ModAddr) :=
  modFindLoop findMod ptr.visited

/-- The call `xm_ctrl(xm_extw(), ctrl, value)`. -/
structure Call where
  xmCtrl : ℕ
  xmExtw : ℕ
  ctrl : ℕ
  value : ℕ
deriving DecidableEq, Repr

/-- The call that `mod_post` makes of an entry. -/
def ModAddr.call (proc : ModAddr) (ctrl value : ℕ) : Option Call :=
  match proc.xmCtrl, proc.xmExtw with
  | some xmCtrl, some xmExtw => some ⟨xmCtrl, xmExtw, ctrl, value⟩
  | _, _ => none

/-- `mod_post`: the call it makes, if any. -/
def modPost (ptr : ModStack) (findMod : CharPtr) (ctrl value : ℕ) : Option (Option Call) :=
  match findMod with
  | .null => some none
  | _ => (modFind ptr findMod).map fun proc => proc.bind (·.call ctrl value)

/-! ### What a loading leaves in the entry -/

/-- Nothing is missing in a round. -/
def Symbols.complete (s : Symbols) : Bool :=
  s.getver.isSome && s.init.isSome && s.exit.isSome && s.extw.isSome && s.alloc.isSome &&
    s.ctrl.isSome && s.name.isSome

namespace Loading

/-- The number of rounds: one when the first is complete, else all thirty. -/
def rounds (ld : Loading) : ℕ := if (ld.dlsym 0).complete then 1 else 30

/-- `upd->xm_name` after `n` rounds: the name of the last round that had one, or what was in the
block before. -/
def nameAfter (ld : Loading) (old : CharPtr) : ℕ → CharPtr
  | 0 => old
  | n + 1 => ((ld.dlsym n).name.map .str).getD (nameAfter ld old n)

/-- Whether round `n` calls `xm_init`. -/
def started (ld : Loading) (n : ℕ) : Bool := (ld.dlsym n).init.isSome && (ld.dlsym n).alloc.isSome

/-- `err` after `n` rounds. -/
def errAfter (ld : Loading) : ℕ → ℤ
  | 0 => 0
  | n + 1 => if ld.started n then ld.xmInit n else errAfter ld n

/-- The state after the first `n` rounds. -/
def upTo (ld : Loading) (s : Round) : ℕ → Option Round
  | 0 => some s
  | n + 1 => (upTo ld s n).bind (modRound (ld.dlsym n) (ld.newStr n) (ld.xmInit n))

end Loading

/-- The name of a round fits in `buf[256]` behind `"/module/"`. -/
def Symbols.NameFits (s : Symbols) : Prop := ∀ name, s.name = some name → name.length ≤ 247

theorem sprintfModule_isSome_iff {name : List UInt8} :
    (sprintfModule name).isSome ↔ name.length ≤ 247 := by
  have hlen : (modulePrefix ++ name).length = 8 + name.length := by
    rw [List.length_append]
    rfl
  dsimp only [sprintfModule]
  rw [hlen]
  split_ifs with h
  · simp only [Option.isSome_some, true_iff]
    omega
  · simp only [Option.isSome_none, Bool.false_eq_true, false_iff]
    omega

theorem missing_eq_zero_iff {α : Type} {p : Option α} : missing p = 0 ↔ p.isSome := by
  cases p <;> simp [missing]

/-- A round overflows the buffer exactly when its name does not fit. -/
theorem modRound_isSome_iff {syms : Symbols} {newStr : Bool} {init : ℤ} {s : Round} :
    (modRound syms newStr init s).isSome ↔ syms.NameFits := by
  unfold modRound Symbols.NameFits
  cases hn : syms.name with
  | none => simp
  | some name => simp [sprintfModule_isSome_iff]

/-- What one round does. -/
theorem modRound_spec {syms : Symbols} {newStr : Bool} {init : ℤ} {s s' : Round}
    (h : modRound syms newStr init s = some s') :
    (s'.errorS = 0 ↔ s.errorS = 0 ∧ syms.complete) ∧
    s'.upd.xmName = (syms.name.map .str).getD s.upd.xmName ∧
    s'.upd.xmCtrl = syms.ctrl ∧ s'.upd.xmExtw = syms.extw ∧
    s'.err = if syms.init.isSome && syms.alloc.isSome then init else s.err := by
  unfold modRound at h
  unfold Symbols.complete
  cases hn : syms.name with
  | none =>
      simp only [hn, Option.some.injEq] at h
      subst h
      simp
  | some name =>
      simp only [hn, Option.map_eq_some_iff] at h
      obtain ⟨buf, -, rfl⟩ := h
      refine ⟨?_, rfl, rfl, rfl, rfl⟩
      simp only [Nat.add_eq_zero_iff, missing_eq_zero_iff, ite_eq_left_iff, one_ne_zero, imp_false,
        Decidable.not_not, Bool.and_eq_true, Option.isSome_some, and_true]
      tauto

/-- The path of the module is a pointer to nothing only when no round wrote it. -/
theorem modRound_wild_iff {syms : Symbols} {newStr : Bool} {init : ℤ} {s s' : Round}
    (h : modRound syms newStr init s = some s') :
    s'.upd.moduleName = .wild ↔ syms.name = none ∧ s.upd.moduleName = .wild := by
  unfold modRound at h
  cases hn : syms.name with
  | none =>
      simp only [hn, Option.some.injEq] at h
      subst h
      simp
  | some name =>
      simp only [hn, Option.map_eq_some_iff] at h
      obtain ⟨buf, -, rfl⟩ := h
      cases newStr <;> simp

namespace Loading

theorem rounds_pos (ld : Loading) : 0 < ld.rounds := by
  unfold rounds
  split_ifs <;> omega

/-- Undefined behaviour in a round is undefined behaviour of all rounds. -/
theorem upTo_eq_none_of_le {ld : Loading} {s : Round} {m n : ℕ} (hmn : m ≤ n)
    (h : ld.upTo s m = none) : ld.upTo s n = none := by
  induction n, hmn using Nat.le_induction with
  | base => exact h
  | succ n _ ih => rw [upTo, ih, Option.bind_none]

/-- Once a symbol was missing, the rounds go on to the thirtieth. -/
theorem modRounds_of_error {ld : Loading} {s₀ s : Round} {left round : ℕ}
    (h : ld.upTo s₀ round = some s) (hs : s.errorS ≠ 0) :
    modRounds ld left round s = ld.upTo s₀ (round + left) := by
  induction left generalizing round s with
  | zero => rw [modRounds, Nat.add_zero, h]
  | succ left ih =>
      have hnext : ld.upTo s₀ (round + 1) =
          modRound (ld.dlsym round) (ld.newStr round) (ld.xmInit round) s := by
        rw [upTo, h, Option.bind_some]
      rw [modRounds]
      cases hr : modRound (ld.dlsym round) (ld.newStr round) (ld.xmInit round) s with
      | none =>
          rw [Option.bind_none, upTo_eq_none_of_le (by omega) (hnext.trans hr)]
      | some s' =>
          have hs' : s'.errorS ≠ 0 := fun h0 => hs ((modRound_spec hr).1.mp h0).1
          rw [Option.bind_some, if_neg hs', ih (hnext.trans hr) hs']
          congr 1
          omega

/-- `mod_update` makes `rounds` rounds. -/
theorem modRounds_eq (ld : Loading) (upd : ModAddr) :
    modRounds ld 30 0 ⟨upd, 0, 0⟩ = ld.upTo ⟨upd, 0, 0⟩ ld.rounds := by
  rw [modRounds]
  have hone : ld.upTo ⟨upd, 0, 0⟩ 1 =
      modRound (ld.dlsym 0) (ld.newStr 0) (ld.xmInit 0) ⟨upd, 0, 0⟩ := rfl
  cases hr : modRound (ld.dlsym 0) (ld.newStr 0) (ld.xmInit 0) ⟨upd, 0, 0⟩ with
  | none =>
      rw [Option.bind_none, upTo_eq_none_of_le ld.rounds_pos (hone.trans hr)]
  | some s =>
      rw [Option.bind_some, rounds]
      by_cases hc : (ld.dlsym 0).complete = true
      · rw [if_pos ((modRound_spec hr).1.mpr ⟨rfl, hc⟩), if_pos hc, hone, hr]
      · have hs : s.errorS ≠ 0 := fun h0 => hc ((modRound_spec hr).1.mp h0).2
        rw [if_neg hs, if_neg hc, modRounds_of_error (hone.trans hr) hs]

theorem upTo_isSome_iff {ld : Loading} {s : Round} {n : ℕ} :
    (ld.upTo s n).isSome ↔ ∀ i < n, (ld.dlsym i).NameFits := by
  induction n with
  | zero => simp [upTo]
  | succ n ih =>
      rw [Nat.forall_lt_succ_right, ← ih, upTo]
      cases ld.upTo s n with
      | none => simp
      | some t => simp [modRound_isSome_iff]

/-- The rounds of a loading are defined exactly when the names fit. -/
theorem modLoadAt_isSome_iff {count : ℕ} {ld : Loading} {upd : ModAddr} :
    (modLoadAt count ld upd).isSome ↔ ∀ i < ld.rounds, (ld.dlsym i).NameFits := by
  dsimp only [modLoadAt]
  rw [modRounds_eq, upTo_isSome_iff]

/-- The entry and the result after `n` rounds. -/
theorem upTo_spec {ld : Loading} {upd : ModAddr} {n : ℕ} {s : Round}
    (h : ld.upTo ⟨upd, 0, 0⟩ n = some s) :
    s.upd.xmName = ld.nameAfter upd.xmName n ∧ s.err = ld.errAfter n ∧
    (0 < n → s.upd.xmCtrl = (ld.dlsym (n - 1)).ctrl ∧ s.upd.xmExtw = (ld.dlsym (n - 1)).extw) := by
  induction n generalizing s with
  | zero =>
      obtain rfl := Option.some.inj h
      exact ⟨rfl, rfl, fun h => absurd h (Nat.lt_irrefl 0)⟩
  | succ n ih =>
      rw [upTo, Option.bind_eq_some_iff] at h
      obtain ⟨t, ht, hs⟩ := h
      obtain ⟨hname, herr, -⟩ := ih ht
      obtain ⟨-, hname', hctrl, hextw, herr'⟩ := modRound_spec hs
      rw [hname] at hname'
      rw [herr] at herr'
      exact ⟨hname', herr', fun _ => ⟨hctrl, hextw⟩⟩

theorem upTo_wild_iff {ld : Loading} {s s' : Round} {n : ℕ} (h : ld.upTo s n = some s') :
    s'.upd.moduleName = .wild ↔ (∀ i < n, (ld.dlsym i).name = none) ∧ s.upd.moduleName = .wild := by
  induction n generalizing s' with
  | zero =>
      obtain rfl := Option.some.inj h
      simp
  | succ n ih =>
      rw [upTo, Option.bind_eq_some_iff] at h
      obtain ⟨t, ht, hs⟩ := h
      rw [modRound_wild_iff hs, ih ht, Nat.forall_lt_succ_right]
      tauto

/-- `mod_update` is defined with the block `upd`: the names of its rounds fit, and if `libcrt_snupdate`
looks at `module_name`, a round wrote it or the block held no pointer to nothing there. -/
structure Runs (ld : Loading) (upd : ModAddr) : Prop where
  fits : ∀ i < ld.rounds, (ld.dlsym i).NameFits
  written : ld.registers = true → upd.moduleName = .wild →
    ∃ i < ld.rounds, (ld.dlsym i).name.isSome

/-- `mod_update` is defined. -/
def Defined (ld : Loading) : Prop := ∀ upd, ld.upd = some upd → ld.Runs upd

theorem snupdate_eq_some_iff {σ : Type} {ld : Loading} {name : CharPtr} {s s' : σ} :
    ld.snupdate name s = some s' ↔ s = s' ∧ (ld.registers = true → name ≠ .wild) := by
  unfold snupdate
  split_ifs with hreg
  · cases name <;> simp [libcrtNewStr, hreg]
  · simp [hreg]

/-- A loading that gets past `libcrt_snupdate`. -/
theorem runs_iff {count : ℕ} {ld : Loading} {upd : ModAddr} :
    (∃ r, modLoadAt count ld upd = some r ∧ (ld.registers = true → r.upd.moduleName ≠ .wild)) ↔
      ld.Runs upd := by
  have hwild : ∀ {r}, modLoadAt count ld upd = some r → (r.upd.moduleName = .wild ↔
      (∀ i < ld.rounds, (ld.dlsym i).name = none) ∧ upd.moduleName = .wild) := by
    intro r hr
    dsimp only [modLoadAt] at hr
    rw [modRounds_eq] at hr
    exact upTo_wild_iff hr
  constructor
  · rintro ⟨r, hr, hreg⟩
    refine ⟨modLoadAt_isSome_iff.mp (by rw [hr]; rfl), fun hregs hblock => ?_⟩
    by_contra hno
    push Not at hno
    refine hreg hregs ((hwild hr).mpr ⟨fun i hi => ?_, hblock⟩)
    exact Option.not_isSome_iff_eq_none.mp (hno i hi)
  · rintro ⟨hfits, hwritten⟩
    obtain ⟨r, hr⟩ := Option.isSome_iff_exists.mp
      ((@modLoadAt_isSome_iff count ld upd).mpr hfits)
    refine ⟨r, hr, fun hregs hname => ?_⟩
    obtain ⟨hnone, hblock⟩ := (hwild hr).mp hname
    obtain ⟨i, hi, hsym⟩ := hwritten hregs hblock
    simp [hnone i hi] at hsym

end Loading

/-- A `mod_update` that got its block, with a stack that takes the entry. -/
theorem modUpdateOn_snupdate {σ : Type} {count : ℕ} {ld : Loading} {upd : ModAddr}
    {append : ModAddr → σ → Option σ} {s s' : σ} {res : ℤ} (hupd : ld.upd = some upd) :
    modUpdateOn count ld ld.snupdate append s = some (s', res) ↔
      ∃ r, modLoadAt count ld upd = some r ∧ (ld.registers = true → r.upd.moduleName ≠ .wild) ∧
        append r.upd s = some s' ∧ res = if r.err ≠ 0 then r.err else 1 := by
  unfold modUpdateOn
  rw [hupd]
  simp only [Option.bind_eq_some_iff, Option.map_eq_some_iff, Prod.mk.injEq,
    Loading.snupdate_eq_some_iff]
  constructor
  · rintro ⟨r, hr, _, ⟨rfl, hreg⟩, _, happend, rfl, rfl⟩
    exact ⟨r, hr, hreg, happend, rfl⟩
  · rintro ⟨r, hr, hreg, happend, rfl⟩
    exact ⟨r, hr, s, ⟨rfl, hreg⟩, s', happend, rfl, rfl⟩

end Carroll
