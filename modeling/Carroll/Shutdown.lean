import Carroll.Startup

/-! # The control loop of `crserv`

When the device reports `CTL10_DISABLE_VALUE`, the control loop of `main` tears everything down:
it starts the thread `thread_procx`, which frees the core slots and the modules, frees the system
nodes itself, and powers off when the thread is done.  The thread is to be started once; what keeps
the loop from starting it again is the percentage of the counters, which is `0` in the first
round only, as that round frees the system nodes: at least half of what was counted at start-up.

A step is one test, one reading of a counter, or one element freed, of the loop or of a thread; the
steps interleave in any order.  The counters read in a round may so belong to different moments.

* `progress` is the total counted at start-up, in `unsigned int`.
* `percent` is exact, rounded down.
* `disabled` is what `CTL10_STATEOFF` reports; once set it stays.
* `closeFinal` is `close_final ≠ 0`; `exits` counts the calls of `libcrt_sysnode_exit`. -/

namespace Carroll

/-- `percent`. -/
def percent (total scored : ℕ) : ℕ := if total = 0 then 0 else 100 * scored / total

/-- Where `main` is in its loop. -/
inductive MainPc where
  | top
  | readRmc (crt : ℕ)
  | stateOff (cfree : ℕ)
  | start (ptty : ℕ)
  | snexit (ptty : ℕ)
  | snexitLoop (ptty left : ℕ)
  | final (ptty : ℕ)
  | halted
deriving DecidableEq, Repr

/-- Where a `thread_procx` is. -/
inductive ProcxPc where
  | rmcExit
  | rmcLoop (left : ℕ)
  | threadExit
  | modFree
  | modLoop (left : ℕ)
  | progress
  | done
deriving DecidableEq, Repr

/-- The state of the loop and its threads; of the lists, the counters that their loops go by. -/
structure Ctl where
  pc : MainPc
  crtRun : Bool
  disabled : Bool
  ctrlState : Bool
  closeFinal : Bool
  psys : Option ℕ
  stack : ℕ
  core : Option ℕ
  crtFree : ℕ
  rmcFree : ℕ
  threads : List ProcxPc
  exits : ℕ

/-- The state in which the loop starts after the start-up. -/
def Ctl.init (g : Crt) : Ctl where
  pc := .top
  crtRun := true
  disabled := false
  ctrlState := false
  closeFinal := true
  psys := g.psys.map (·.count)
  stack := g.stack.count
  core := g.rmc.sptrCore.map (·.slots.count)
  crtFree := g.crtFree
  rmcFree := g.rmc.rmcFree
  threads := []
  exits := 0

/-- `progress = libcrt_count() + librmc_count()`. -/
def Crt.progress (g : Crt) : ℕ := u32 (g.crtCount + g.rmc.rmcCount)

/-- One step of `main`; `created` is whether `pthread_create` succeeds. -/
def mainStep (progress : ℕ) (created : Bool) (s : Ctl) : Option Ctl :=
  match s.pc with
  | .top => some { s with pc := if s.crtRun then .readRmc s.crtFree else .halted }
  | .readRmc crt => some { s with pc := .stateOff (u32 (crt + s.rmcFree)) }
  | .stateOff cfree =>
      some { s with pc := if s.disabled then .start (percent progress cfree) else .top }
  | .start ptty =>
      if ptty = 0 ∧ created then
        some { s with threads := s.threads ++ [.rmcExit], pc := .snexit ptty }
      else some { s with pc := .snexit ptty }
  | .snexit ptty =>
      if ptty ≤ 60 ∧ s.ctrlState = false then
        match s.psys with
        | none => some { s with exits := s.exits + 1, ctrlState := true, pc := .final ptty }
        | some num => some { s with exits := s.exits + 1, pc := .snexitLoop ptty num }
      else some { s with pc := .final ptty }
  | .snexitLoop ptty 0 => some { s with psys := none, ctrlState := true, pc := .final ptty }
  | .snexitLoop ptty (left + 1) =>
      some { s with crtFree := u32 (s.crtFree + 1), pc := .snexitLoop ptty left }
  | .final ptty =>
      if 90 ≤ ptty ∧ s.closeFinal = false then some { s with crtRun := false, pc := .top }
      else some { s with pc := .top }
  | .halted => none

/-- One step of the thread that is number `i`. -/
def threadStep (i : ℕ) (s : Ctl) : Option Ctl :=
  match s.threads[i]? with
  | none => none
  | some .rmcExit =>
      match s.core with
      | none => some { s with threads := s.threads.set i .threadExit }
      | some count => some { s with threads := s.threads.set i (.rmcLoop count) }
  | some (.rmcLoop 0) => some { s with core := none, threads := s.threads.set i .threadExit }
  | some (.rmcLoop (left + 1)) =>
      some { s with rmcFree := u32 (s.rmcFree + 1), threads := s.threads.set i (.rmcLoop left) }
  | some .threadExit => some { s with threads := s.threads.set i .modFree }
  | some .modFree => some { s with threads := s.threads.set i (.modLoop s.stack) }
  | some (.modLoop 0) => some { s with stack := 0, threads := s.threads.set i .progress }
  | some (.modLoop (left + 1)) =>
      some { s with crtFree := u32 (s.crtFree + 1), threads := s.threads.set i (.modLoop left) }
  | some .progress => some { s with closeFinal := false, threads := s.threads.set i .done }
  | some .done => none

/-- Who takes the next step. -/
inductive CtlAction where
  | main (created : Bool)
  | thread (i : ℕ)
  | disable
deriving DecidableEq, Repr

/-- One step of the loop, of a thread, or of the device. -/
def ctlStep (progress : ℕ) (s : Ctl) : CtlAction → Option Ctl
  | .main created => mainStep progress created s
  | .thread i => threadStep i s
  | .disable => some { s with disabled := true }

/-- `librmc_exit`, `mod_thread_exit`, `mod_free` and `libcrt_sysnode_exit` have all returned. -/
structure Ctl.Complete (s : Ctl) : Prop where
  thread : ∃ t ∈ s.threads, t = .progress ∨ t = .done
  core : s.core = none
  stack : s.stack = 0
  exits : s.exits = 1
  psys : s.psys = none

/-! ### The invariant

`N` system nodes, `M` modules and `K` slots were counted at start-up. -/

/-- What the thread, if it was started, has done so far: the modules and slots it freed. -/
inductive ThreadInv (M K : ℕ) : List ProcxPc → Option ℕ → ℕ → Bool → ℕ → ℕ → Prop
  | unstarted : ThreadInv M K [] (some K) M true 0 0
  | rmcExit : ThreadInv M K [.rmcExit] (some K) M true 0 0
  | rmcLoop {left : ℕ} : left ≤ K → ThreadInv M K [.rmcLoop left] (some K) M true 0 (K - left)
  | threadExit : ThreadInv M K [.threadExit] none M true 0 K
  | modFree : ThreadInv M K [.modFree] none M true 0 K
  | modLoop {left : ℕ} : left ≤ M → ThreadInv M K [.modLoop left] none M true (M - left) K
  | progress : ThreadInv M K [.progress] none 0 true M K
  | done : ThreadInv M K [.done] none 0 false M K

/-- What `main` may know of the counters once the system nodes are freed. -/
def LatePc (N M K : ℕ) : MainPc → Prop
  | .readRmc crt => N ≤ crt ∧ crt ≤ N + M
  | .stateOff cfree => N ≤ cfree ∧ cfree ≤ N + M + K
  | .start ptty => 0 < ptty
  | .snexitLoop _ _ => False
  | _ => True

/-- Where `main` is, by the state of the teardown: the system nodes it freed. -/
inductive MainInv (N M K : ℕ) :
    MainPc → Bool → ℕ → Option ℕ → List ProcxPc → ℕ → Prop
  | top : MainInv N M K .top false 0 (some N) [] 0
  | readRmc : MainInv N M K (.readRmc 0) false 0 (some N) [] 0
  | stateOff : MainInv N M K (.stateOff 0) false 0 (some N) [] 0
  | start : MainInv N M K (.start 0) false 0 (some N) [] 0
  | halted : MainInv N M K .halted false 0 (some N) [] 0
  | snexit {threads : List ProcxPc} : MainInv N M K (.snexit 0) false 0 (some N) threads 0
  | snexitLoop {threads : List ProcxPc} {left : ℕ} : left ≤ N →
      MainInv N M K (.snexitLoop 0 left) false 1 (some N) threads (N - left)
  | late {pc : MainPc} {threads : List ProcxPc} : LatePc N M K pc →
      MainInv N M K pc true 1 none threads N

/-- The invariant of the loop and its thread. -/
structure Ctl.Inv (N M K : ℕ) (s : Ctl) : Prop where
  holds : ∃ mods slots nodes, ThreadInv M K s.threads s.core s.stack s.closeFinal mods slots ∧
    MainInv N M K s.pc s.ctrlState s.exits s.psys s.threads nodes ∧
    s.crtFree = nodes + mods ∧ s.rmcFree = slots

section
variable {N M K : ℕ}

theorem ThreadInv.le {threads : List ProcxPc} {core : Option ℕ} {stack mods slots : ℕ}
    {closeFinal : Bool} (h : ThreadInv M K threads core stack closeFinal mods slots) :
    mods ≤ M ∧ slots ≤ K := by
  cases h <;> omega

/-- Once a thread runs, `main` does not care where the thread is. -/
theorem MainInv.setThreads {pc : MainPc} {ctrlState : Bool} {exits nodes : ℕ} {psys : Option ℕ}
    {t : ProcxPc} {ts : List ProcxPc} (h : MainInv N M K pc ctrlState exits psys (t :: ts) nodes)
    (threads : List ProcxPc) : MainInv N M K pc ctrlState exits psys threads nodes := by
  cases h with
  | snexit => exact .snexit
  | snexitLoop hleft => exact .snexitLoop hleft
  | late hpc => exact .late hpc

theorem percent_zero (total : ℕ) : percent total 0 = 0 := by
  unfold percent
  split_ifs <;> simp

/-- The freed system nodes are at least half of the total. -/
theorem percent_pos {total scored : ℕ} (htotal : 0 < total) (h : total ≤ 2 * scored) :
    0 < percent total scored := by
  rw [percent, if_neg htotal.ne']
  exact Nat.div_pos (by omega) htotal

/-- Once the system nodes are freed a step of `main` only moves it, and it knows as much again: the
nodes are half of the total, so no percentage is 0. -/
theorem LatePc.step {s s' : Ctl} {created : Bool} (hT : N + M + K < 2 ^ 32) (hhalf : M + K ≤ N)
    (hpos : 0 < N) (hctrl : s.ctrlState = true) (hcrt : N ≤ s.crtFree ∧ s.crtFree ≤ N + M)
    (hrmc : s.rmcFree ≤ K) (hpc : LatePc N M K s.pc)
    (hst : mainStep (N + M + K) created s = some s') :
    ∃ pc crtRun, s' = { s with pc := pc, crtRun := crtRun } ∧ LatePc N M K pc := by
  obtain ⟨pc, crtRun, disabled, ctrlState, closeFinal, psys, stack, core, crtFree, rmcFree, threads,
    exits⟩ := s
  dsimp only at hctrl hcrt hrmc hpc
  subst hctrl
  cases pc with
  | top =>
      obtain rfl := Option.some.inj hst
      refine ⟨_, _, rfl, ?_⟩
      cases crtRun
      · exact trivial
      · exact hcrt
  | readRmc crt =>
      obtain rfl := Option.some.inj hst
      obtain ⟨hlo, hhi⟩ := hpc
      refine ⟨_, _, rfl, ?_⟩
      dsimp only
      rw [u32_of_lt (by omega)]
      exact ⟨by omega, by omega⟩
  | stateOff cfree =>
      obtain rfl := Option.some.inj hst
      obtain ⟨hlo, hhi⟩ := hpc
      refine ⟨_, _, rfl, ?_⟩
      cases disabled
      · exact trivial
      · exact percent_pos (by omega) (by omega)
  | start ptty =>
      have hne : ¬ (ptty = 0 ∧ created = true) := fun h => absurd h.1 (Nat.pos_iff_ne_zero.mp hpc)
      simp only [mainStep, if_neg hne, Option.some.injEq] at hst
      exact ⟨_, _, hst.symm, trivial⟩
  | snexit ptty =>
      simp only [mainStep, Bool.true_eq_false, and_false, if_false, Option.some.injEq] at hst
      exact ⟨_, _, hst.symm, trivial⟩
  | snexitLoop ptty left => exact hpc.elim
  | final ptty =>
      unfold mainStep at hst
      dsimp only at hst
      split_ifs at hst with hc
      · exact ⟨_, _, (Option.some.inj hst).symm, trivial⟩
      · exact ⟨_, _, (Option.some.inj hst).symm, trivial⟩
  | halted => cases hst

/-- A step of `main`. -/
theorem Ctl.Inv.main {s s' : Ctl} {created : Bool} (hT : N + M + K < 2 ^ 32) (hhalf : M + K ≤ N)
    (hpos : 0 < N) (h : s.Inv N M K) (hst : mainStep (N + M + K) created s = some s') :
    s'.Inv N M K := by
  obtain ⟨pc, crtRun, disabled, ctrlState, closeFinal, psys, stack, core, crtFree, rmcFree, threads,
    exits⟩ := s
  obtain ⟨mods, slots, nodes, hthread, hmain, hcrt, hrmc⟩ := h.holds
  dsimp only at hthread hmain hcrt hrmc
  obtain ⟨hmods, hslots⟩ := hthread.le
  cases hmain with
  | top =>
      obtain rfl := Option.some.inj hst
      refine ⟨mods, slots, 0, hthread, ?_, hcrt, hrmc⟩
      cases hthread
      cases crtRun
      · exact .halted
      · rw [hcrt]
        exact .readRmc
  | readRmc =>
      obtain rfl := Option.some.inj hst
      refine ⟨mods, slots, 0, hthread, ?_, hcrt, hrmc⟩
      cases hthread
      rw [hrmc]
      exact .stateOff
  | stateOff =>
      obtain rfl := Option.some.inj hst
      refine ⟨mods, slots, 0, hthread, ?_, hcrt, hrmc⟩
      rw [percent_zero]
      cases disabled
      · exact .top
      · exact .start
  | start =>
      unfold mainStep at hst
      dsimp only at hst
      split_ifs at hst with hc
      · obtain rfl := Option.some.inj hst
        cases hthread
        exact ⟨0, 0, 0, .rmcExit, .snexit, hcrt, hrmc⟩
      · obtain rfl := Option.some.inj hst
        exact ⟨mods, slots, 0, hthread, .snexit, hcrt, hrmc⟩
  | halted => cases hst
  | snexit =>
      obtain rfl := Option.some.inj hst
      refine ⟨mods, slots, N - N, hthread, .snexitLoop le_rfl, ?_, hrmc⟩
      rw [Nat.sub_self]
      exact hcrt
  | @snexitLoop threads left hleft =>
      cases left with
      | zero =>
          obtain rfl := Option.some.inj hst
          exact ⟨mods, slots, N, hthread, .late trivial, hcrt, hrmc⟩
      | succ left =>
          obtain rfl := Option.some.inj hst
          refine ⟨mods, slots, N - left, hthread, .snexitLoop (by omega), ?_, hrmc⟩
          dsimp only
          rw [u32_of_lt (by omega)]
          omega
  | @late pc threads hpc =>
      obtain ⟨pc', run, rfl, hpc'⟩ := LatePc.step hT hhalf hpos rfl
        ⟨by dsimp only; omega, by dsimp only; omega⟩ (by dsimp only; omega) hpc hst
      exact ⟨mods, slots, N, hthread, .late hpc', hcrt, hrmc⟩

theorem threadStep_lone {t : ProcxPc} {s s' : Ctl} {i : ℕ} (hs : s.threads = [t])
    (hst : threadStep i s = some s') : i = 0 := by
  cases i with
  | zero => rfl
  | succ i =>
      rw [threadStep, hs, List.getElem?_cons_succ, List.getElem?_nil] at hst
      cases hst

/-- A step of the thread. -/
theorem Ctl.Inv.thread {s s' : Ctl} {i : ℕ} (hT : N + M + K < 2 ^ 32) (h : s.Inv N M K)
    (hst : threadStep i s = some s') : s'.Inv N M K := by
  obtain ⟨pc, crtRun, disabled, ctrlState, closeFinal, psys, stack, core, crtFree, rmcFree, threads,
    exits⟩ := s
  obtain ⟨mods, slots, nodes, hthread, hmain, hcrt, hrmc⟩ := h.holds
  dsimp only at hthread hmain hcrt hrmc
  have hnodes : nodes ≤ N := by cases hmain <;> omega
  cases hthread with
  | unstarted => cases hst
  | rmcExit =>
      obtain rfl := threadStep_lone rfl hst
      obtain rfl := Option.some.inj hst
      refine ⟨0, K - K, nodes, .rmcLoop le_rfl, hmain.setThreads _, hcrt, ?_⟩
      rw [Nat.sub_self]
      exact hrmc
  | @rmcLoop left hleft =>
      obtain rfl := threadStep_lone rfl hst
      cases left with
      | zero =>
          obtain rfl := Option.some.inj hst
          exact ⟨0, K, nodes, .threadExit, hmain.setThreads _, hcrt, hrmc⟩
      | succ left =>
          obtain rfl := Option.some.inj hst
          refine ⟨0, K - left, nodes, .rmcLoop (by omega), hmain.setThreads _, hcrt, ?_⟩
          dsimp only
          rw [u32_of_lt (by omega)]
          omega
  | threadExit =>
      obtain rfl := threadStep_lone rfl hst
      obtain rfl := Option.some.inj hst
      exact ⟨0, K, nodes, .modFree, hmain.setThreads _, hcrt, hrmc⟩
  | modFree =>
      obtain rfl := threadStep_lone rfl hst
      obtain rfl := Option.some.inj hst
      refine ⟨M - M, K, nodes, .modLoop le_rfl, hmain.setThreads _, ?_, hrmc⟩
      rw [Nat.sub_self]
      exact hcrt
  | @modLoop left hleft =>
      obtain rfl := threadStep_lone rfl hst
      cases left with
      | zero =>
          obtain rfl := Option.some.inj hst
          exact ⟨M, K, nodes, .progress, hmain.setThreads _, hcrt, hrmc⟩
      | succ left =>
          obtain rfl := Option.some.inj hst
          refine ⟨M - left, K, nodes, .modLoop (by omega), hmain.setThreads _, ?_, hrmc⟩
          dsimp only
          rw [u32_of_lt (by omega)]
          omega
  | progress =>
      obtain rfl := threadStep_lone rfl hst
      obtain rfl := Option.some.inj hst
      exact ⟨M, K, nodes, .done, hmain.setThreads _, hcrt, hrmc⟩
  | done =>
      obtain rfl := threadStep_lone rfl hst
      cases hst

theorem Ctl.Inv.step {s s' : Ctl} {a : CtlAction} (hT : N + M + K < 2 ^ 32) (hhalf : M + K ≤ N)
    (hpos : 0 < N) (h : s.Inv N M K) (hst : ctlStep (N + M + K) s a = some s') : s'.Inv N M K := by
  cases a with
  | main created => exact h.main hT hhalf hpos hst
  | thread i => exact h.thread hT hst
  | disable =>
      obtain rfl := Option.some.inj hst
      exact ⟨h.holds⟩

/-- At most one thread and one `libcrt_sysnode_exit`. -/
theorem Ctl.Inv.once {s : Ctl} (h : s.Inv N M K) : s.threads.length ≤ 1 ∧ s.exits ≤ 1 := by
  obtain ⟨pc, crtRun, disabled, ctrlState, closeFinal, psys, stack, core, crtFree, rmcFree, threads,
    exits⟩ := s
  obtain ⟨mods, slots, nodes, hthread, hmain, -, -⟩ := h.holds
  dsimp only at hthread hmain ⊢
  constructor
  · cases hthread <;> simp
  · cases hmain <;> omega

theorem threadStep_crtRun {i : ℕ} {s s' : Ctl} (hst : threadStep i s = some s') :
    s'.crtRun = s.crtRun := by
  unfold threadStep at hst
  split at hst <;> (try split at hst) <;> first | cases hst; rfl | cases hst

theorem mainStep_poweroff {progress : ℕ} {created : Bool} {s s' : Ctl}
    (hst : mainStep progress created s = some s') (hrun : s.crtRun = true)
    (hoff : s'.crtRun = false) : (∃ ptty, s.pc = .final ptty) ∧ s.closeFinal = false := by
  obtain ⟨pc, crtRun, disabled, ctrlState, closeFinal, psys, stack, core, crtFree, rmcFree, threads,
    exits⟩ := s
  obtain rfl : crtRun = true := hrun
  unfold mainStep at hst
  dsimp only at hst
  cases pc with
  | final ptty =>
      dsimp only at hst
      split_ifs at hst with hc
      · exact ⟨⟨ptty, rfl⟩, hc.2⟩
      · exact absurd hoff (by rw [← Option.some.inj hst]; simp)
  | snexitLoop ptty left => cases left <;> exact absurd hoff (by rw [← Option.some.inj hst]; simp)
  | snexit ptty =>
      dsimp only at hst
      split_ifs at hst with hc
      · cases psys <;> exact absurd hoff (by rw [← Option.some.inj hst]; simp)
      · exact absurd hoff (by rw [← Option.some.inj hst]; simp)
  | start ptty =>
      dsimp only at hst
      split_ifs at hst with hc <;> exact absurd hoff (by rw [← Option.some.inj hst]; simp)
  | halted => cases hst
  | top => exact absurd hoff (by rw [← Option.some.inj hst]; simp)
  | readRmc crt => exact absurd hoff (by rw [← Option.some.inj hst]; simp)
  | stateOff cfree => exact absurd hoff (by rw [← Option.some.inj hst]; simp)

/-- The loop powers off in a state in which everything is torn down. -/
theorem Ctl.Inv.complete {progress : ℕ} {s s' : Ctl} {a : CtlAction} (h : s.Inv N M K)
    (hst : ctlStep progress s a = some s') (hrun : s.crtRun = true) (hoff : s'.crtRun = false) :
    s.Complete := by
  have hfinal : (∃ ptty, s.pc = .final ptty) ∧ s.closeFinal = false := by
    cases a with
    | main created => exact mainStep_poweroff hst hrun hoff
    | thread i =>
        rw [threadStep_crtRun hst, hrun] at hoff
        cases hoff
    | disable =>
        obtain rfl := Option.some.inj hst
        rw [hrun] at hoff
        cases hoff
  obtain ⟨pc, crtRun, disabled, ctrlState, closeFinal, psys, stack, core, crtFree, rmcFree, threads,
    exits⟩ := s
  obtain ⟨mods, slots, nodes, hthread, hmain, -, -⟩ := h.holds
  dsimp only at hthread hmain hfinal
  obtain ⟨⟨ptty, rfl⟩, rfl⟩ := hfinal
  cases hthread
  cases hmain
  exact ⟨⟨.done, List.mem_singleton_self _, .inr rfl⟩, rfl, rfl, rfl, rfl⟩

end

/-- After a start-up with fewer than `2 ^ 32` elements, `crserv` is in the invariant. -/
theorem StartedUp.inv {md5 : List UInt8 → List UInt8} {mods : List ModuleLoad} {g : Crt}
    (h : StartedUp md5 mods g) (hlt : g.live + g.liveSlots < 2 ^ 32) :
    ∃ N M K, N + M + K < 2 ^ 32 ∧ M + K ≤ N ∧ 0 < N ∧ g.progress = N + M + K ∧
      (Ctl.init g).Inv N M K := by
  obtain ⟨hbal, hcounts⟩ := h.counts
  obtain ⟨str, hstr, hnodes⟩ := hcounts.psys
  obtain ⟨s, hs, hslots⟩ := hcounts.core
  obtain ⟨hcrt, hrmc⟩ := hcounts.free
  have hstack := hcounts.stack
  have hlive : g.live = str.addr.length + g.stack.addr.length := by
    simp [Crt.live, hstr, hcounts.lost]
  have hliveSlots : g.liveSlots = s.slots.count := by simp [Crt.liveSlots, hs]
  have hstrCount := str.count_of_lt (by omega)
  have hstackCount := g.stack.count_of_lt (by omega)
  refine ⟨str.addr.length, g.stack.addr.length, s.slots.count, by omega, by omega, by omega, ?_, ?_⟩
  · rw [Crt.progress, hbal.crt, hbal.rmc, hcrt, hrmc, hlive, hliveSlots]
    unfold u32
    omega
  · refine ⟨0, 0, 0, ?_, ?_, hcrt, hrmc⟩
    · simp only [Ctl.init, hs, hstackCount, Option.map_some]
      exact .unstarted
    · simp only [Ctl.init, hstr, hstrCount, Option.map_some]
      exact .top

/-- The numbers after the start-up of `n` modules that register one node each. -/
theorem StartedUp.plain {md5 : List UInt8 → List UInt8} {n : ℕ} {g : Crt}
    (h : StartedUp md5 (List.replicate n plainModule) g) :
    (∃ str, g.psys = some str) ∧ g.live = 2051 + 3 * n ∧ g.liveSlots = coreBits ∧
      g.progress = u32 (4099 + 3 * n) := by
  obtain ⟨hbal, hcounts⟩ := h.counts
  rw [ownNodes_plain, List.length_replicate] at hcounts
  obtain ⟨str, hstr, hnodes⟩ := hcounts.psys
  obtain ⟨s, hs, hslots⟩ := hcounts.core
  obtain ⟨hcrt, hrmc⟩ := hcounts.free
  have hlive : g.live = 2051 + 3 * n := by
    simp only [Crt.live, hstr, hcounts.lost, Option.map_some, Option.getD_some, List.length_nil,
      hnodes, hcounts.stack, coreBits]
    omega
  have hliveSlots : g.liveSlots = coreBits := by simp [Crt.liveSlots, hs, hslots]
  refine ⟨⟨str, hstr⟩, hlive, hliveSlots, ?_⟩
  rw [Crt.progress, hbal.crt, hbal.rmc, hcrt, hrmc, hlive, hliveSlots]
  unfold u32 coreBits
  omega

/-- A round up to the test for the first start. -/
theorem run_round {progress : ℕ} {s : Ctl} (hpc : s.pc = .top) (hrun : s.crtRun = true)
    (hdis : s.disabled = true) :
    ∃ tr ptty, Run (ctlStep progress) s tr { s with pc := .start ptty } ∧
      ptty = percent progress (u32 (s.crtFree + s.rmcFree)) := by
  obtain ⟨pc, crtRun, disabled, ctrlState, closeFinal, psys, stack, core, crtFree, rmcFree, threads,
    exits⟩ := s
  obtain rfl : pc = .top := hpc
  obtain rfl : crtRun = true := hrun
  obtain rfl : disabled = true := hdis
  exact ⟨_, _, .cons (a := .main true) rfl (.cons (a := .main true) rfl
    (.cons (a := .main true) rfl (.nil _))), rfl⟩

/-- The loop of `libcrt_sysnode_exit` ends. -/
theorem run_snexitLoop {progress ptty left : ℕ} {s : Ctl} (hpc : s.pc = .snexitLoop ptty left) :
    ∃ tr c, Run (ctlStep progress) s tr
      { s with pc := .final ptty, psys := none, ctrlState := true, crtFree := c } ∧
      (s.crtFree + left < 2 ^ 32 → c = s.crtFree + left) := by
  induction left generalizing s with
  | zero =>
      obtain ⟨pc, crtRun, disabled, ctrlState, closeFinal, psys, stack, core, crtFree, rmcFree,
        threads, exits⟩ := s
      obtain rfl : pc = .snexitLoop ptty 0 := hpc
      exact ⟨_, crtFree, .cons (a := .main true) rfl (.nil _), fun _ => rfl⟩
  | succ left ih =>
      obtain ⟨pc, crtRun, disabled, ctrlState, closeFinal, psys, stack, core, crtFree, rmcFree,
        threads, exits⟩ := s
      obtain rfl : pc = .snexitLoop ptty (left + 1) := hpc
      obtain ⟨tr, c, h, hc⟩ := ih (s := ⟨.snexitLoop ptty left, crtRun, disabled, ctrlState,
        closeFinal, psys, stack, core, u32 (crtFree + 1), rmcFree, threads, exits⟩) rfl
      refine ⟨_, c, .cons (a := .main true) rfl h, fun hlt => ?_⟩
      dsimp only at hc hlt ⊢
      rw [u32_of_lt (by omega)] at hc
      rw [hc (by omega)]
      omega

/-- The loop of `librmc_exit` ends. -/
theorem run_rmcLoop {progress left : ℕ} {s : Ctl} (ht : s.threads = [.rmcLoop left])
    (hlt : s.rmcFree + left < 2 ^ 32) : ∃ tr, Run (ctlStep progress) s tr
      { s with core := none, threads := [.threadExit], rmcFree := s.rmcFree + left } := by
  induction left generalizing s with
  | zero =>
      obtain ⟨pc, crtRun, disabled, ctrlState, closeFinal, psys, stack, core, crtFree, rmcFree,
        threads, exits⟩ := s
      obtain rfl : threads = [.rmcLoop 0] := ht
      exact ⟨_, .cons (a := .thread 0) rfl (.nil _)⟩
  | succ left ih =>
      obtain ⟨pc, crtRun, disabled, ctrlState, closeFinal, psys, stack, core, crtFree, rmcFree,
        threads, exits⟩ := s
      obtain rfl : threads = [.rmcLoop (left + 1)] := ht
      have hnext : u32 (rmcFree + 1) = rmcFree + 1 := u32_of_lt (by dsimp only at hlt; omega)
      obtain ⟨tr, h⟩ := ih (s := ⟨pc, crtRun, disabled, ctrlState, closeFinal, psys, stack, core,
        crtFree, u32 (rmcFree + 1), [.rmcLoop left], exits⟩) rfl
        (by dsimp only at hlt ⊢; rw [hnext]; omega)
      dsimp only at h
      rw [show u32 (rmcFree + 1) + left = rmcFree + (left + 1) by rw [hnext]; omega] at h
      exact ⟨_, .cons (a := .thread 0) rfl h⟩

/-- The loop of `mod_free` ends. -/
theorem run_modLoop {progress left : ℕ} {s : Ctl} (ht : s.threads = [.modLoop left])
    (hlt : s.crtFree + left < 2 ^ 32) : ∃ tr, Run (ctlStep progress) s tr
      { s with stack := 0, threads := [.progress], crtFree := s.crtFree + left } := by
  induction left generalizing s with
  | zero =>
      obtain ⟨pc, crtRun, disabled, ctrlState, closeFinal, psys, stack, core, crtFree, rmcFree,
        threads, exits⟩ := s
      obtain rfl : threads = [.modLoop 0] := ht
      exact ⟨_, .cons (a := .thread 0) rfl (.nil _)⟩
  | succ left ih =>
      obtain ⟨pc, crtRun, disabled, ctrlState, closeFinal, psys, stack, core, crtFree, rmcFree,
        threads, exits⟩ := s
      obtain rfl : threads = [.modLoop (left + 1)] := ht
      have hnext : u32 (crtFree + 1) = crtFree + 1 := u32_of_lt (by dsimp only at hlt; omega)
      obtain ⟨tr, h⟩ := ih (s := ⟨pc, crtRun, disabled, ctrlState, closeFinal, psys, stack, core,
        u32 (crtFree + 1), rmcFree, [.modLoop left], exits⟩) rfl
        (by dsimp only at hlt ⊢; rw [hnext]; omega)
      dsimp only at h
      rw [show u32 (crtFree + 1) + left = crtFree + (left + 1) by rw [hnext]; omega] at h
      exact ⟨_, .cons (a := .thread 0) rfl h⟩

/-- A run to the end: the first round starts the thread and frees the `N` nodes, the thread frees
the `K` slots and the `M` modules, and the second round powers off. -/
theorem exists_poweroff {N M K : ℕ} (hlt : N + M + K < 2 ^ 32) (hpos : 0 < N + M + K) :
    ∃ tr s x, Run (ctlStep (N + M + K))
      ⟨.top, true, false, false, true, some N, M, some K, 0, 0, [], 0⟩ tr s ∧
      x ∈ tr ∧ x.1.crtRun = true ∧ x.2.2.crtRun = false := by
  have hdisable : ctlStep (N + M + K)
      ⟨.top, true, false, false, true, some N, M, some K, 0, 0, [], 0⟩ .disable =
      some ⟨.top, true, true, false, true, some N, M, some K, 0, 0, [], 0⟩ := rfl
  obtain ⟨tr₁, p₁, h₁, hp₁⟩ := @run_round (N + M + K)
    ⟨.top, true, true, false, true, some N, M, some K, 0, 0, [], 0⟩ rfl rfl rfl
  obtain rfl : p₁ = 0 := hp₁.trans (percent_zero _)
  have hstart : ctlStep (N + M + K)
      ⟨.start 0, true, true, false, true, some N, M, some K, 0, 0, [], 0⟩ (.main true) =
      some ⟨.snexit 0, true, true, false, true, some N, M, some K, 0, 0, [.rmcExit], 0⟩ := rfl
  have hsnexit : ctlStep (N + M + K)
      ⟨.snexit 0, true, true, false, true, some N, M, some K, 0, 0, [.rmcExit], 0⟩ (.main true) =
      some ⟨.snexitLoop 0 N, true, true, false, true, some N, M, some K, 0, 0, [.rmcExit], 1⟩ := rfl
  obtain ⟨tr₂, c, h₂, hc⟩ := @run_snexitLoop (N + M + K) 0 N
    ⟨.snexitLoop 0 N, true, true, false, true, some N, M, some K, 0, 0, [.rmcExit], 1⟩ rfl
  obtain rfl : c = N := (hc (by dsimp only; omega)).trans (Nat.zero_add N)
  have hfinal : ctlStep (c + M + K)
      ⟨.final 0, true, true, true, true, none, M, some K, c, 0, [.rmcExit], 1⟩ (.main true) =
      some ⟨.top, true, true, true, true, none, M, some K, c, 0, [.rmcExit], 1⟩ := rfl
  -- the thread, from its start to its end
  have hrmc : ctlStep (c + M + K)
      ⟨.top, true, true, true, true, none, M, some K, c, 0, [.rmcExit], 1⟩ (.thread 0) =
      some ⟨.top, true, true, true, true, none, M, some K, c, 0, [.rmcLoop K], 1⟩ := rfl
  obtain ⟨tr₃, h₃⟩ := @run_rmcLoop (c + M + K) K
    ⟨.top, true, true, true, true, none, M, some K, c, 0, [.rmcLoop K], 1⟩ rfl
    (by dsimp only; omega)
  dsimp only at h₃
  rw [Nat.zero_add] at h₃
  have hexit : ctlStep (c + M + K)
      ⟨.top, true, true, true, true, none, M, none, c, K, [.threadExit], 1⟩ (.thread 0) =
      some ⟨.top, true, true, true, true, none, M, none, c, K, [.modFree], 1⟩ := rfl
  have hfree : ctlStep (c + M + K)
      ⟨.top, true, true, true, true, none, M, none, c, K, [.modFree], 1⟩ (.thread 0) =
      some ⟨.top, true, true, true, true, none, M, none, c, K, [.modLoop M], 1⟩ := rfl
  obtain ⟨tr₄, h₄⟩ := @run_modLoop (c + M + K) M
    ⟨.top, true, true, true, true, none, M, none, c, K, [.modLoop M], 1⟩ rfl (by dsimp only; omega)
  have hdone : ctlStep (c + M + K)
      ⟨.top, true, true, true, true, none, 0, none, c + M, K, [.progress], 1⟩ (.thread 0) =
      some ⟨.top, true, true, true, false, none, 0, none, c + M, K, [.done], 1⟩ := rfl
  obtain ⟨tr₅, p₅, h₅, hp₅⟩ := @run_round (c + M + K)
    ⟨.top, true, true, true, false, none, 0, none, c + M, K, [.done], 1⟩ rfl rfl rfl
  obtain rfl : p₅ = 100 := by
    rw [hp₅, u32_of_lt (by dsimp only; omega), percent, if_neg hpos.ne']
    exact Nat.mul_div_cancel 100 hpos
  have hagain : ctlStep (c + M + K)
      ⟨.start 100, true, true, true, false, none, 0, none, c + M, K, [.done], 1⟩ (.main true) =
      some ⟨.snexit 100, true, true, true, false, none, 0, none, c + M, K, [.done], 1⟩ := rfl
  have hskip : ctlStep (c + M + K)
      ⟨.snexit 100, true, true, true, false, none, 0, none, c + M, K, [.done], 1⟩ (.main true) =
      some ⟨.final 100, true, true, true, false, none, 0, none, c + M, K, [.done], 1⟩ := rfl
  have hoff : ctlStep (c + M + K)
      ⟨.final 100, true, true, true, false, none, 0, none, c + M, K, [.done], 1⟩ (.main true) =
      some ⟨.top, false, true, true, false, none, 0, none, c + M, K, [.done], 1⟩ := rfl
  have hthread := Run.cons hrmc (h₃.append (.cons hexit (.cons hfree (h₄.append (.single hdone)))))
  have hlast := h₅.append (.cons hagain (.cons hskip (.single hoff)))
  refine ⟨_, _, (⟨.final 100, true, true, true, false, none, 0, none, c + M, K, [.done], 1⟩, .main true,
    ⟨.top, false, true, true, false, none, 0, none, c + M, K, [.done], 1⟩),
    (Run.single hdisable).append (h₁.append (.cons hstart (.cons hsnexit
      (h₂.append (.cons hfinal (hthread.append hlast)))))), ?_, rfl, rfl⟩
  simp

/-- **Teardown.**  After every start-up in which all allocations succeed, of any number of modules, with
fewer than `2 ^ 32` elements counted: in every run of the control loop, the thread and the device,
at most one `thread_procx` is started, `libcrt_sysnode_exit` is called at most once, and the loop
powers off only when all four teardowns are complete. -/
theorem teardown_once (md5 : List UInt8 → List UInt8) (mods : List ModuleLoad) {g : Crt}
    (hg : StartedUp md5 mods g) (hlt : g.live + g.liveSlots < 2 ^ 32)
    {tr : List (Ctl × CtlAction × Ctl)} {s : Ctl}
    (h : Run (ctlStep g.progress) (Ctl.init g) tr s) :
    s.threads.length ≤ 1 ∧ s.exits ≤ 1 ∧
    ∀ x ∈ tr, x.1.crtRun = true → x.2.2.crtRun = false → x.1.Complete := by
  obtain ⟨N, M, K, hT, hhalf, hpos, hprogress, hinit⟩ := hg.inv hlt
  rw [hprogress] at h
  have hstep : ∀ s a t, s.Inv N M K → ctlStep (N + M + K) s a = some t → t.Inv N M K :=
    fun s a t hs hst => hs.step hT hhalf hpos hst
  obtain ⟨hthreads, hexits⟩ := (h.invariant' hstep hinit).once
  refine ⟨hthreads, hexits, fun x hx hrun hoff => ?_⟩
  obtain ⟨hx₁, hst, -⟩ := h.at_step' hstep hinit x hx
  exact hx₁.complete hst hrun hoff

/-- `teardown_once` with one module, for a run that powers off. -/
theorem teardown_once_poweroff : ∃ g tr s x, StartedUp md5Digest [plainModule] g ∧
    Run (ctlStep g.progress) (Ctl.init g) tr s ∧ x ∈ tr ∧ x.2.2.crtRun = false ∧ x.1.Complete ∧
    s.threads.length ≤ 1 ∧ s.exits ≤ 1 := by
  obtain ⟨g, hg⟩ := exists_startedUp md5Digest 1
  obtain ⟨⟨str, hstr⟩, hlive, hslots, hprogress⟩ := hg.plain
  have hlt : g.live + g.liveSlots < 2 ^ 32 := by
    rw [hlive, hslots]
    decide
  obtain ⟨-, hcounts⟩ := hg.counts
  obtain ⟨str', hstr', hnodes⟩ := hcounts.psys
  obtain rfl : str = str' := Option.some.inj (hstr.symm.trans hstr')
  obtain ⟨t, ht, hcore⟩ := hcounts.core
  have hinit : Ctl.init g =
      ⟨.top, true, false, false, true, some 2053, 1, some 2048, 0, 0, [], 0⟩ := by
    have hstack := g.stack.count_of_lt (by rw [hcounts.stack]; decide)
    have hpsys := str.count_of_lt (by rw [hnodes, ownNodes_plain]; decide)
    simp only [Ctl.init, hstr, ht, Option.map_some, hstack, hpsys, hcore, hnodes, ownNodes_plain,
      hcounts.stack, hcounts.free, List.length_replicate]
    rfl
  have hprog : g.progress = 2053 + 1 + 2048 := hprogress
  obtain ⟨tr, s, x, hrun, hx, hon, hoff⟩ := @exists_poweroff 2053 1 2048 (by decide) (by decide)
  rw [← hinit, ← hprog] at hrun
  obtain ⟨hthreads, hexits, hcomplete⟩ := teardown_once md5Digest [plainModule] hg hlt hrun
  exact ⟨g, tr, s, x, hg, hrun, hx, hoff, hcomplete x hx hon hoff, hthreads, hexits⟩

/-! ### A total that wraps to `0` -/

/-- With a total of `0` every percentage is `0`, and the second round starts a second thread. -/
theorem exists_two_threads (num stack crtFree rmcFree : ℕ) (core : Option ℕ) :
    ∃ tr s, Run (ctlStep 0)
      ⟨.top, true, false, false, true, some num, stack, core, crtFree, rmcFree, [], 0⟩ tr s ∧
      s.threads.length = 2 := by
  have hpercent : ∀ n, percent 0 n = 0 := fun n => if_pos rfl
  have hdisable : ctlStep 0
      ⟨.top, true, false, false, true, some num, stack, core, crtFree, rmcFree, [], 0⟩ .disable =
      some ⟨.top, true, true, false, true, some num, stack, core, crtFree, rmcFree, [], 0⟩ := rfl
  obtain ⟨tr₁, p₁, h₁, hp₁⟩ := @run_round 0
    ⟨.top, true, true, false, true, some num, stack, core, crtFree, rmcFree, [], 0⟩ rfl rfl rfl
  obtain rfl : p₁ = 0 := hp₁.trans (hpercent _)
  have hstart : ctlStep 0
      ⟨.start 0, true, true, false, true, some num, stack, core, crtFree, rmcFree, [], 0⟩ (.main true) =
      some ⟨.snexit 0, true, true, false, true, some num, stack, core, crtFree, rmcFree, [.rmcExit], 0⟩ :=
    rfl
  have hsnexit : ctlStep 0
      ⟨.snexit 0, true, true, false, true, some num, stack, core, crtFree, rmcFree, [.rmcExit], 0⟩
      (.main true) =
      some ⟨.snexitLoop 0 num, true, true, false, true, some num, stack, core, crtFree, rmcFree,
        [.rmcExit], 1⟩ := rfl
  obtain ⟨tr₂, c, h₂, -⟩ := @run_snexitLoop 0 0 num ⟨.snexitLoop 0 num, true, true, false, true,
    some num, stack, core, crtFree, rmcFree, [.rmcExit], 1⟩ rfl
  have hfinal : ctlStep 0
      ⟨.final 0, true, true, true, true, none, stack, core, c, rmcFree, [.rmcExit], 1⟩ (.main true) =
      some ⟨.top, true, true, true, true, none, stack, core, c, rmcFree, [.rmcExit], 1⟩ := rfl
  obtain ⟨tr₃, p₃, h₃, hp₃⟩ := @run_round 0
    ⟨.top, true, true, true, true, none, stack, core, c, rmcFree, [.rmcExit], 1⟩ rfl rfl rfl
  obtain rfl : p₃ = 0 := hp₃.trans (hpercent _)
  have hagain : ctlStep 0
      ⟨.start 0, true, true, true, true, none, stack, core, c, rmcFree, [.rmcExit], 1⟩ (.main true) =
      some ⟨.snexit 0, true, true, true, true, none, stack, core, c, rmcFree, [.rmcExit, .rmcExit], 1⟩ :=
    rfl
  exact ⟨_, _, ((Run.single hdisable).append (h₁.append (.cons hstart (.cons hsnexit
    (h₂.append (.cons hfinal (h₃.append (.single hagain)))))))), rfl⟩

/-- With `1431654399` modules the total is `2 ^ 32`, and two threads can be started. -/
theorem not_teardown_once :
    ¬ ∀ mods g, StartedUp md5Digest mods g → ∀ tr s, Run (ctlStep g.progress) (Ctl.init g) tr s →
      s.threads.length ≤ 1 ∧ s.exits ≤ 1 ∧
      ∀ x ∈ tr, x.1.crtRun = true → x.2.2.crtRun = false → x.1.Complete := by
  intro hall
  obtain ⟨g, hg⟩ := exists_startedUp md5Digest 1431654399
  obtain ⟨⟨str, hstr⟩, -, -, hprogress⟩ := hg.plain
  obtain ⟨tr, s, hrun, hthreads⟩ := exists_two_threads str.count g.stack.count g.crtFree
    g.rmc.rmcFree (g.rmc.sptrCore.map (·.slots.count))
  have hinit : Ctl.init g = ⟨.top, true, false, false, true, some str.count, g.stack.count,
      g.rmc.sptrCore.map (·.slots.count), g.crtFree, g.rmc.rmcFree, [], 0⟩ := by
    simp only [Ctl.init, hstr, Option.map_some]
  have hzero : g.progress = 0 := by rw [hprogress]; rfl
  rw [← hinit, ← hzero] at hrun
  have h := (hall _ g hg tr s hrun).1
  omega

end Carroll
