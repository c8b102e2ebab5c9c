import Carroll.Dispatch
import Carroll.Links

/-! # The registries of the module stack (`mod.c`)

A `struct mod_stack_t` has two chains of allocated entries, each with its own counter: modules
(`addr`, `count`) and threads (`thaddr`, `thcount`).  `mod_update` and `mod_thread_update` append an
entry, `mod_thread_close` clears the `tid` of the entries of one `pid`, and the two teardowns,
`mod_free` and `mod_thread_exit`, free entry after entry.

* The entries of each kind have a heap of their own.
* What the functions of a module do to the stack, which they have from `xm_alloc`, is a call of its
  own: they call `mod_thread_update` and `mod_thread_close`.
* `pthread_cancel`, `xm_exit` and `dlclose` leave the registries as they are. -/

namespace Carroll
open Links

/-- `struct mod_thread_t`; a `tid` of `0` is `NULL`. -/
structure ModThread where
  pid : ℕ
  addr : ℕ
  tid : ℕ
deriving DecidableEq, Repr

/-- The two chains of `struct mod_stack_t`. -/
structure ModRegistry where
  mods : Queue ModAddr
  threads : Queue ModThread

/-- The body of the loop of `mod_thread_close`. -/
def ModThread.close (pid : ℕ) (prev : ModThread) : ModThread :=
  if prev.pid = pid then { prev with tid := 0 } else prev

namespace ModRegistry

/-- `mod_alloc` and `mod_thread_init`. -/
def alloc : ModRegistry := ⟨.empty, .empty⟩

/-- `mod_update`: the stack afterwards and the result. -/
def modUpdate (ptr : ModRegistry) (ld : Loading) (m : Malloc ModAddr) :
    Option (ModRegistry × ℤ) :=
  modUpdateOn ptr.mods.count ld ld.snupdate
    (fun upd ptr => (ptr.mods.append m upd).map fun mods => { ptr with mods := mods }) ptr

/-- `mod_free`. -/
def modFree (ptr : ModRegistry) : Option ModRegistry :=
  ptr.mods.freeAll.map fun mods => { ptr with mods := mods }

/-- `mod_thread_update`, with an allocator unless `malloc` fails. -/
def modThreadUpdate (ptr : ModRegistry) (thread addr pid : ℕ) (m : Option (Malloc ModThread)) :
    Option ModRegistry :=
  match m with
  | none => some ptr
  | some m =>
      (ptr.threads.append m ⟨pid, addr, thread⟩).map fun threads => { ptr with threads := threads }

/-- `mod_thread_close`. -/
def modThreadClose (ptr : ModRegistry) (pid : ℕ) : Option ModRegistry :=
  (ptr.threads.map (ModThread.close pid)).map fun threads => { ptr with threads := threads }

/-- `mod_thread_exit`. -/
def modThreadExit (ptr : ModRegistry) : Option ModRegistry :=
  ptr.threads.freeAll.map fun threads => { ptr with threads := threads }

end ModRegistry

/-- A call. -/
inductive ModCall where
  | update (ld : Loading) (m : Malloc ModAddr)
  | free
  | threadUpdate (thread addr pid : ℕ) (m : Option (Malloc ModThread))
  | threadClose (pid : ℕ)
  | threadExit

/-- What a call leaves. -/
def ModRegistry.step (ptr : ModRegistry) : ModCall → Option ModRegistry
  | .update ld m => (ptr.modUpdate ld m).map Prod.fst
  | .free => ptr.modFree
  | .threadUpdate thread addr pid m => ptr.modThreadUpdate thread addr pid m
  | .threadClose pid => ptr.modThreadClose pid
  | .threadExit => ptr.modThreadExit

/-! ### What the registries are to hold -/

/-- The entries that were added since the last teardown of their registry. -/
structure Entries where
  mods : List ModAddr
  threads : List ModThread

namespace Entries

/-- The entry that a `mod_update` adds: what it loaded, under the next number. -/
def loaded (e : Entries) (ld : Loading) : Option ModAddr :=
  ld.upd.bind fun upd => (modLoadAt e.mods.length ld upd).map Round.upd

/-- The entries after a call. -/
def after (e : Entries) : ModCall → Entries
  | .update ld _ => { e with mods := e.mods ++ (e.loaded ld).toList }
  | .free => { e with mods := [] }
  | .threadUpdate thread addr pid m =>
      { e with threads := e.threads ++ if m.isSome then [⟨pid, addr, thread⟩] else [] }
  | .threadClose pid => { e with threads := e.threads.map (ModThread.close pid) }
  | .threadExit => { e with threads := [] }

/-- The calls that the registries can take: a defined `mod_update`, fewer than `2 ^ 32` entries, and
teardowns that have nothing to free. -/
def Allowed (e : Entries) : ModCall → Prop
  | .update ld _ => ld.Defined ∧ (ld.upd.isSome → e.mods.length + 1 < 2 ^ 32)
  | .free => e.mods = []
  | .threadUpdate _ _ _ m => m.isSome → e.threads.length + 1 < 2 ^ 32
  | .threadClose _ => True
  | .threadExit => e.threads = []

/-- The same for a sequence of calls. -/
def AllowedAll (e : Entries) : List ModCall → Prop
  | [] => True
  | c :: cs => e.Allowed c ∧ (e.after c).AllowedAll cs

end Entries

/-- Both chains consist of allocated entries, exactly those of `e`, and the counters are their
lengths. -/
def ModRegistry.Holds (ptr : ModRegistry) (e : Entries) : Prop :=
  ptr.mods.Holds e.mods ∧ ptr.threads.Holds e.threads

/-- All calls of the sequence are defined, and after each of them the registries hold exactly the
entries added since the last teardown. -/
def ModRegistry.Survives (ptr : ModRegistry) (e : Entries) : List ModCall → Prop
  | [] => True
  | c :: cs => ∃ ptr', ptr.step c = some ptr' ∧ ptr'.Holds (e.after c) ∧
      ptr'.Survives (e.after c) cs

/-! ### What each call does -/

namespace ModRegistry
variable {ptr : ModRegistry} {e : Entries}

/-- A call that works on the modules keeps the threads. -/
theorem mods_holds_iff (h : ptr.Holds e) {r : Option (Queue ModAddr)} {l : List ModAddr} :
    (∃ ptr', r.map (fun mods => { ptr with mods := mods }) = some ptr' ∧
      ptr'.Holds { e with mods := l }) ↔ ∃ c, r = some c ∧ c.Holds l := by
  cases r with
  | none => simp
  | some c => simpa [Holds] using fun _ => h.2

/-- A call that works on the threads keeps the modules. -/
theorem threads_holds_iff (h : ptr.Holds e) {r : Option (Queue ModThread)} {l : List ModThread} :
    (∃ ptr', r.map (fun threads => { ptr with threads := threads }) = some ptr' ∧
      ptr'.Holds { e with threads := l }) ↔ ∃ c, r = some c ∧ c.Holds l := by
  cases r with
  | none => simp
  | some c => simpa [Holds] using fun _ => h.1

theorem modUpdate_holds_iff (h : ptr.Holds e) (ld : Loading) (m : Malloc ModAddr) :
    (∃ ptr', ptr.step (.update ld m) = some ptr' ∧ ptr'.Holds (e.after (.update ld m))) ↔
      e.Allowed (.update ld m) := by
  dsimp only [step, modUpdate, Entries.after, Entries.loaded, Entries.Allowed]
  unfold Loading.Defined
  cases hu : ld.upd with
  | none => simpa [modUpdateOn, hu] using h
  | some upd =>
      simp only [Option.some.injEq, forall_eq', Option.isSome_some, true_implies, Option.bind_some,
        ← h.1.count_eq]
      rw [← @Loading.runs_iff ptr.mods.count ld upd]
      constructor
      · rintro ⟨ptr', hstep, hholds⟩
        obtain ⟨⟨ptr₁, res⟩, hupd, rfl⟩ := Option.map_eq_some_iff.mp hstep
        obtain ⟨r, hr, hreg, happend, -⟩ := (modUpdateOn_snupdate hu).mp hupd
        rw [hr] at hholds
        have hfits := (Queue.append_holds_iff h.1 m r.upd).mp
          ((mods_holds_iff h).mp ⟨ptr₁, happend, hholds⟩)
        exact ⟨⟨r, hr, hreg⟩, h.1.count_eq ▸ hfits⟩
      · rintro ⟨⟨r, hr, hreg⟩, hfits⟩
        obtain ⟨ptr', happend, hholds⟩ := (mods_holds_iff h).mpr
          ((Queue.append_holds_iff h.1 m r.upd).mpr (h.1.count_eq ▸ hfits))
        refine ⟨ptr', ?_, by rw [hr]; exact hholds⟩
        rw [(modUpdateOn_snupdate hu).mpr ⟨r, hr, hreg, happend, rfl⟩, Option.map_some]

/-- A call is defined and leaves the entries that it is to leave exactly when it is allowed. -/
theorem step_holds_iff (h : ptr.Holds e) (c : ModCall) :
    (∃ ptr', ptr.step c = some ptr' ∧ ptr'.Holds (e.after c)) ↔ e.Allowed c := by
  cases c with
  | update ld m => exact modUpdate_holds_iff h ld m
  | free => exact (mods_holds_iff h).trans (Queue.freeAll_holds_iff h.1)
  | threadUpdate thread addr pid m =>
      cases m with
      | none => simpa [step, modThreadUpdate, Entries.after, Entries.Allowed] using h
      | some m =>
          refine ((threads_holds_iff h).trans (Queue.append_holds_iff h.2 m _)).trans ?_
          simp [Entries.Allowed]
  | threadClose pid =>
      exact iff_of_true ((threads_holds_iff h).mpr (Queue.map_holds _ h.2)) trivial
  | threadExit => exact (threads_holds_iff h).trans (Queue.freeAll_holds_iff h.2)

theorem alloc_holds : alloc.Holds ⟨[], []⟩ := ⟨Queue.holds_empty, Queue.holds_empty⟩

/-- As long as the counter does not wrap, `mod_update` adds to the chain what it adds to the stack
as a value, with the same result. -/
theorem modUpdate_refines {stack stack' : ModStack} {ld : Loading} {r : ℤ}
    (h : ptr.mods.Holds stack.addr) (hlt : stack.addr.length + 1 < 2 ^ 32) (m : Malloc ModAddr)
    (hupd : Carroll.modUpdate stack ld = some (stack', r)) :
    ∃ ptr', ptr.modUpdate ld m = some (ptr', r) ∧ ptr'.mods.Holds stack'.addr ∧
      ptr'.threads = ptr.threads := by
  have hcount : ptr.mods.count = stack.count := by
    rw [h.count_eq, Counted.count_of_lt (Nat.lt_of_succ_lt hlt)]
  cases hu : ld.upd with
  | none =>
      simp only [Carroll.modUpdate, modUpdateOn, hu, Option.some.injEq, Prod.mk.injEq] at hupd
      obtain ⟨rfl, rfl⟩ := hupd
      exact ⟨ptr, by simp [modUpdate, modUpdateOn, hu], h, rfl⟩
  | some upd =>
      obtain ⟨s, hs, hreg, happend, rfl⟩ := (modUpdateOn_snupdate hu).mp hupd
      obtain rfl := Option.some.inj happend
      obtain ⟨mods, happ, hmods⟩ := Queue.append_eq h m s.upd
      rw [← hcount] at hs
      exact ⟨{ ptr with mods := mods },
        (modUpdateOn_snupdate hu).mpr ⟨s, hs, hreg, by rw [happ, Option.map_some], rfl⟩,
        hmods.mpr hlt, rfl⟩

end ModRegistry

/-- **The registries of the module stack.**  For every sequence of calls on a fresh stack: all of
them are defined, and both registries hold exactly the entries added since their last teardown, in
chains of allocated entries that the counters measure, if and only if no teardown finds an entry to
free, every `mod_update` is defined (its names fit, and the path that it registers was written), and
neither registry gets `2 ^ 32` entries. -/
theorem survives_iff (cs : List ModCall) :
    ModRegistry.alloc.Survives ⟨[], []⟩ cs ↔ Entries.AllowedAll ⟨[], []⟩ cs := by
  have hfrom : ∀ (ptr : ModRegistry) e, ptr.Holds e → (ptr.Survives e cs ↔ e.AllowedAll cs) := by
    induction cs with
    | nil => exact fun _ _ _ => Iff.rfl
    | cons c cs ih =>
        intro ptr e h
        unfold ModRegistry.Survives Entries.AllowedAll
        rw [← ModRegistry.step_holds_iff h c]
        constructor
        · rintro ⟨ptr', hst, hafter, hrest⟩
          exact ⟨⟨ptr', hst, hafter⟩, (ih ptr' _ hafter).mp hrest⟩
        · rintro ⟨⟨ptr', hst, hafter⟩, hrest⟩
          exact ⟨ptr', hst, hafter, (ih ptr' _ hafter).mpr hrest⟩
  exact hfrom _ _ ModRegistry.alloc_holds

/-- A library with all symbols. -/
def completeModule : Loading where
  upd := some ⟨.wild, 0, none, .wild, none, none, none, none, none, none⟩
  dlopen _ := some 1
  dlsym _ := ⟨some 1, some 1, some 1, some 1, some 1, some 1, some [0x6d]⟩
  newStr _ := true
  xmInit _ := 0
  registers := true

/-- One module, and `mod_free`: the loop reads `next` of the entry that it has freed. -/
theorem not_survives_free :
    ¬ ModRegistry.alloc.Survives ⟨[], []⟩ [.update completeModule .above, .free] := by
  rintro ⟨ptr₁, h₁, -, ptr₂, h₂, -⟩
  obtain rfl := Option.some.inj h₁
  cases h₂

end Carroll
