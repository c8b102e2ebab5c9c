import Carroll.Elapsed
import Carroll.RmcLifecycle

/-! # When a slot is timed out

`librmc_find` puts the slot that it visits back to `CRMC_ENABLE` when `get_time_final` counts more
than 15 from the slot's start, and, if it is `CRMC_PROCESS`, also when it counts more than 15 from
the timer of the table.  The sweep sets that timer when it starts, and every visit
replaces it by what it has counted.

`Timed.step` takes the calls that follow `librmc_init`, at any time and in any order, and records
for each position when its slot was started last. -/

namespace Carroll

namespace Rmc

/-- The timer of the table, `sptr_core->core`. -/
def timer (g : Rmc) : Option LibrmcTime := g.sptrCore.bind (·.core)

/-- `librmc_poweroff`. -/
def librmcPoweroff (g : Rmc) : Rmc := { g with rmcRunState := 0 }

/-- The start of a sweep of `thread_proc_xsd`: `get_time_start` of the timer, and the visits of the
slots are cleared. -/
def sweepStart (g : Rmc) (now : LibrmcTime) : Rmc :=
  { g with sptrCore := g.sptrCore.map fun s =>
      { s with core := s.core.map fun _ => now, state := s.state.map fun _ _ => 0 } }

/-- The end of a sweep: the timer gets what is counted from it. -/
def sweepEnd (g : Rmc) (now : LibrmcTime) : Rmc :=
  { g with sptrCore := g.sptrCore.map fun s =>
      { s with core := s.core.map fun start => (getTimeFinal start now).2 } }

theorem slot_sweepStart (g : Rmc) (now : LibrmcTime) (i : ℕ) :
    (g.sweepStart now).slot i = g.slot i := by
  rw [sweepStart, slot_stack]
  exact fun _ => rfl

end Rmc

/-- A call after `librmc_init`, with its readings of the clock; `digest` is a call of `cdigest` from
elsewhere. -/
inductive TimedAct where
  | create (t : ℕ)
  | select (code : List UInt8) (data : Option CodePtr)
  | final (code : Option (List UInt8))
  | find (code randS t t' : ℕ)
  | digest (p : List UInt8)
  | sweepStart (t : ℕ)
  | sweepEnd (t : ℕ)
  | poweroff

/-- The table, and the time of the last `librmc_create` of each position. -/
structure Timed where
  rmc : Rmc
  started : ℕ → ℕ

namespace Timed

/-- One call. -/
def step (s : Timed) : TimedAct → Option Timed
  | .create t =>
      some ⟨(librmcCreate s.rmc (clock t)).2,
        match (librmcCreate s.rmc (clock t)).1 with
        | some i => Function.update s.started i t
        | none => s.started⟩
  | .select code data => some { s with rmc := (librmcSelect s.rmc code data).2 }
  | .final code => some { s with rmc := (librmcFinal s.rmc code).2 }
  | .find code randS t t' =>
      some { s with rmc := (librmcFind s.rmc code randS (clock t) (clock t')).2 }
  | .digest p => some { s with rmc := { s.rmc with digests := (cdigest s.rmc.digests p 16).2 } }
  | .sweepStart t => some { s with rmc := s.rmc.sweepStart (clock t) }
  | .sweepEnd t => some { s with rmc := s.rmc.sweepEnd (clock t) }
  | .poweroff => some { s with rmc := s.rmc.librmcPoweroff }

end Timed

/-- `librmc_find` of the slot at position `i`, started at `t₀`, with the clock at `t`: the slot is
timed out when more than 15 seconds have passed, and no other status changes. -/
def TimesOut (g : Rmc) (i num randS t₀ t : ℕ) : Prop :=
  let g' := (librmcFind g num randS (clock t) (clock t)).2
  (g'.statusAt i = some .enable ↔ 15 < t - t₀) ∧ ∀ j, j ≠ i → g'.statusAt j = g.statusAt j

/-- The timer of the table counts more than 15, and the slot has a status that it is taken for. -/
def TimerPast (g : Rmc) (status : CrmcStatus) (now : LibrmcTime) : Prop :=
  status = .process ∧ ∃ start, g.timer = some start ∧ CountsPast start now

/-- When the slot has run more than 15 seconds, the table is running, and one of the two counts is
past 15; before, neither is, or the table is not running. -/
def TimeoutRight (g : Rmc) (status : CrmcStatus) (t₀ t : ℕ) : Prop :=
  if 15 < t - t₀ then
    g.rmcRunState ≠ 0 ∧
      (¬ CountsShort (clock t₀) (clock t) ∨ TimerPast g status (clock t))
  else
    g.rmcRunState = 0 ∨
      ¬ CountsLong (clock t₀) (clock t) ∧ ¬ TimerPast g status (clock t)

/-! ### What the calls keep -/

/-- From `a` to `a'` the number and the start stay, the block for the last time stays allocated, and
a slot that was free stays free. -/
structure SlotStays (a a' : LibrmcAddr) : Prop where
  num : a'.num = a.num
  first : a'.first = a.first
  last : a.last.isSome → a'.last.isSome
  status : a.status = .enable → a'.status = .enable

/-- From `g` to `g'` the slots stay, and the side blocks stay allocated. -/
structure TableStays (g g' : Rmc) : Prop where
  slot : ∀ i, Option.Rel SlotStays (g.slot i) (g'.slot i)
  blocks : ∀ s, g.sptrCore = some s → ∃ s', g'.sptrCore = some s' ∧
    (s.state.isSome → s'.state.isSome) ∧ (s.core.isSome → s'.core.isSome)

theorem SlotStays.refl (a : LibrmcAddr) : SlotStays a a := ⟨rfl, rfl, id, id⟩

theorem SlotStays.trans {a b c : LibrmcAddr} (h : SlotStays a b) (h' : SlotStays b c) :
    SlotStays a c :=
  ⟨h'.num.trans h.num, h'.first.trans h.first, fun hl => h'.last (h.last hl),
    fun hs => h'.status (h.status hs)⟩

namespace TableStays
variable {g g' g'' : Rmc}

theorem of_stack (g : Rmc) {f : LibrmcStack → LibrmcStack} (hslots : ∀ s, (f s).slots = s.slots)
    (hstate : ∀ s, s.state.isSome → (f s).state.isSome)
    (hcore : ∀ s, s.core.isSome → (f s).core.isSome) :
    TableStays g { g with sptrCore := g.sptrCore.map f } := by
  refine ⟨fun i => ?_, fun s hs => ⟨f s, by rw [hs]; rfl, hstate s, hcore s⟩⟩
  rw [Rmc.slot_stack g hslots]
  exact Rmc.rel_refl SlotStays.refl _

theorem refl (g : Rmc) : TableStays g g :=
  ⟨fun _ => Rmc.rel_refl SlotStays.refl _, fun s hs => ⟨s, hs, id, id⟩⟩

theorem trans (h : TableStays g g') (h' : TableStays g' g'') : TableStays g g'' := by
  constructor
  · intro i
    exact Rmc.rel_trans (R := SlotStays) (fun _ _ _ => SlotStays.trans) (h.slot i) (h'.slot i)
  · intro s hs
    obtain ⟨s', hs', hstate, hcore⟩ := h.blocks s hs
    obtain ⟨s'', hs'', hstate', hcore'⟩ := h'.blocks s' hs'
    exact ⟨s'', hs'', fun hx => hstate' (hstate hx), fun hx => hcore' (hcore hx)⟩

theorem of_setSlot (g : Rmc) (i : ℕ) {f : LibrmcAddr → LibrmcAddr} (hf : ∀ a, SlotStays a (f a)) :
    TableStays g (g.setSlot i f) := by
  constructor
  · exact Rmc.rel_setSlot SlotStays.refl g i hf
  · intro s hs
    exact ⟨{ s with slots := s.slots.modify i f }, by rw [Rmc.setSlot, hs]; rfl, id, id⟩

theorem of_find (g : Rmc) (code randS : ℕ) (now now' : LibrmcTime) :
    TableStays g (librmcFind g code randS now now').2 := by
  apply librmcFind_rel (R := TableStays) refl fun _ _ _ => trans
  · exact fun g vstate => of_stack g (fun _ => rfl) (fun _ _ => rfl) fun _ => id
  · exact fun g core => of_stack g (fun _ => rfl) (fun _ => id) fun _ _ => rfl
  · exact fun g i randS => of_setSlot g i fun a => ⟨rfl, rfl, id, id⟩
  · intro g i first now
    refine of_setSlot g i fun a => ?_
    unfold LibrmcAddr.timeout
    split_ifs with h
    · refine ⟨rfl, rfl, fun _ => rfl, fun hs => ?_⟩
      rw [hs] at h
      rcases h with h | h <;> cases h
    · exact SlotStays.refl a
  · intro g i
    refine of_setSlot g i fun a => ?_
    split_ifs
    · exact ⟨rfl, rfl, id, fun _ => rfl⟩
    · exact SlotStays.refl a

end TableStays

theorem hex_mk (fdev : List UInt8) (code : CodePtr) (num hex : ℕ) (status : CrmcStatus) (brain : ℕ)
    (core : Option CodePtr) (first last : Option LibrmcTime) :
    (LibrmcAddr.mk fdev code num hex status brain core first last).hex = hex := rfl

/-- After `librmc_init` the side blocks are allocated, and every slot has its second time and a number
of the table in `hex`. -/
theorem init_blocks (md5 : List UInt8 → List UInt8) (g : Rmc) (core : LibrmcTime) (vstate : ℕ → ℕ)
    (times : ℕ → LibrmcTime × LibrmcTime) :
    ∃ stack, (librmcInit md5 g core vstate times).sptrCore = some stack ∧ stack.state.isSome ∧
      stack.core.isSome ∧ stack.slots.addr.length = coreBits ∧
      ∀ a ∈ stack.slots.addr, a.hex < coreBits ∧ a.last.isSome := by
  have hloop : ∀ k, ∃ stack,
      (librmcInitLoop md5 times (librmcEmpty g core vstate) k).sptrCore = some stack ∧
        stack.state.isSome ∧ stack.core.isSome ∧ stack.slots.addr.length = k ∧
        ∀ a ∈ stack.slots.addr, a.hex < coreBits ∧ a.last.isSome := by
    intro k
    induction k with
    | zero => exact ⟨_, rfl, rfl, rfl, rfl, fun a ha => absurd ha List.not_mem_nil⟩
    | succ k ih =>
        obtain ⟨stack, hs, hstate, hcore, hlen, hslots⟩ := ih
        unfold librmcInitLoop librmcUpdate
        rw [hs]
        refine ⟨_, rfl, hstate, hcore, ?_, ?_⟩
        · rw [Chain.addr_push, List.length_append, hlen, List.length_singleton]
        · intro a ha
          rcases List.mem_append.mp ha with ha | ha
          · exact hslots a ha
          · rw [List.mem_singleton.mp ha]
            refine ⟨?_, rfl⟩
            rw [hex_mk]
            exact settleHex_lt _ _
  rw [librmcInit]
  exact hloop coreBits

/-! ### What holds in every run -/

namespace Timed

/-- The side blocks are allocated, the slots are numbered by position and have their two times, and
a slot that is not free holds the time at which it was started. -/
structure Inv (s : Timed) : Prop where
  blocks : ∃ stack, s.rmc.sptrCore = some stack ∧ stack.state.isSome ∧ stack.core.isSome
  slot : ∀ i a, s.rmc.slot i = some a → a.num = i ∧ a.first.isSome ∧ a.last.isSome ∧
    (a.status ≠ .enable → a.first = some (clock (s.started i)))

theorem Inv.stays {s : Timed} (h : s.Inv) {g : Rmc} (hg : TableStays s.rmc g) :
    Inv { s with rmc := g } := by
  constructor
  · obtain ⟨stack, hs, hstate, hcore⟩ := h.blocks
    obtain ⟨stack', hs', hstate', hcore'⟩ := hg.blocks stack hs
    exact ⟨stack', hs', hstate' hstate, hcore' hcore⟩
  · intro i a ha
    have hrel := hg.slot i
    dsimp only at ha
    rw [ha] at hrel
    cases hold : s.rmc.slot i with
    | none => rw [hold] at hrel; cases hrel
    | some b =>
        rw [hold] at hrel
        cases hrel with
        | some hba =>
            obtain ⟨hnum, hfirst, hlast, hstarted⟩ := h.slot i b hold
            refine ⟨hba.num.trans hnum, hba.first ▸ hfirst, hba.last hlast, ?_⟩
            intro hst
            rw [hba.first]
            exact hstarted fun hb => hst (hba.status hb)

theorem inv_create {s : Timed} (h : s.Inv) (t : ℕ) {s' : Timed}
    (hst : s.step (.create t) = some s') : s'.Inv := by
  obtain rfl := Option.some.inj hst
  rcases librmcCreate_cases s.rmc (clock t) with hc | ⟨i, a, ha, -, -, hc⟩
  · rw [hc]
    exact h
  · rw [hc]
    constructor
    · obtain ⟨stack, hs, hstate, hcore⟩ := h.blocks
      dsimp only [Rmc.setSlot]
      rw [hs]
      exact ⟨_, rfl, hstate, hcore⟩
    · intro j b hb
      dsimp only at hb ⊢
      rw [Rmc.slot_setSlot] at hb
      split_ifs at hb with hij
      · subst hij
        rw [ha, Option.map_some, Option.some.injEq] at hb
        subst hb
        obtain ⟨hnum, -, hlast, -⟩ := h.slot i a ha
        exact ⟨hnum, rfl, hlast, fun _ => by rw [Function.update_self]⟩
      · rw [Function.update_of_ne (Ne.symm hij)]
        exact h.slot j b hb

theorem inv_step (s : Timed) (c : TimedAct) (s' : Timed) (h : s.Inv) (hst : s.step c = some s') :
    s'.Inv := by
  cases c with
  | create t => exact inv_create h t hst
  | select code data =>
      obtain rfl := Option.some.inj hst
      apply h.stays
      rcases librmcSelect_cases s.rmc code data with hc | ⟨i, a, -, -, -, -, hc⟩
      · rw [hc]
        exact TableStays.refl _
      · rw [hc]
        exact TableStays.of_setSlot _ i fun a => ⟨rfl, rfl, id, id⟩
  | final code =>
      obtain rfl := Option.some.inj hst
      apply h.stays
      rcases librmcFinal_cases s.rmc code with hc | ⟨i, a, -, -, hc⟩
      · rw [hc]
        exact TableStays.refl _
      · rw [hc]
        exact TableStays.of_setSlot _ i fun a => ⟨rfl, rfl, id, fun _ => rfl⟩
  | find code randS t t' =>
      obtain rfl := Option.some.inj hst
      exact h.stays (TableStays.of_find _ code randS _ _)
  | digest p =>
      obtain rfl := Option.some.inj hst
      exact h.stays ⟨(TableStays.refl s.rmc).slot, (TableStays.refl s.rmc).blocks⟩
  | sweepStart t =>
      obtain rfl := Option.some.inj hst
      exact h.stays (TableStays.of_stack _ (fun _ => rfl) (fun _ hx => by simpa using hx)
        fun _ hx => by simpa using hx)
  | sweepEnd t =>
      obtain rfl := Option.some.inj hst
      exact h.stays (TableStays.of_stack _ (fun _ => rfl) (fun _ => id)
        fun _ hx => by simpa using hx)
  | poweroff =>
      obtain rfl := Option.some.inj hst
      exact h.stays ⟨(TableStays.refl s.rmc).slot, (TableStays.refl s.rmc).blocks⟩

theorem inv_init (md5 : List UInt8 → List UInt8) (g : Rmc) (core : LibrmcTime) (vstate : ℕ → ℕ)
    (times : ℕ → LibrmcTime × LibrmcTime) (started : ℕ → ℕ) :
    Inv ⟨librmcInit md5 g core vstate times, started⟩ := by
  have hloaded := loaded_init md5 g core vstate times
  obtain ⟨stack, hs, hstate, hcore, -, hslots⟩ := init_blocks md5 g core vstate times
  generalize librmcInit md5 g core vstate times = g' at hloaded hs
  refine ⟨⟨stack, hs, hstate, hcore⟩, ?_⟩
  intro i a ha
  obtain ⟨hst, hfirst, hnum, -⟩ := hloaded.slot i a ha
  refine ⟨hnum, hfirst, ?_, fun hne => absurd hst hne⟩
  dsimp only at ha
  rw [Rmc.slot, hs] at ha
  exact (hslots a (List.mem_of_getElem? ha)).2

end Timed

/-! ### What a visit does to the statuses -/

/-- The status of the visited slot: free when one of the two counts is past 15. -/
def visited (status : CrmcStatus) (first start now now' : LibrmcTime) : CrmcStatus :=
  if 15 < (getTimeFinal first now).1 ∧ status ≠ .enable ∨
      15 < (getTimeFinal start now').1 ∧ status = .process then .enable
  else status

theorem visited_eq_enable_iff {status : CrmcStatus} (hne : status ≠ .enable)
    (first start now now' : LibrmcTime) :
    visited status first start now now' = .enable ↔
      15 < (getTimeFinal first now).1 ∨ (status = .process ∧ 15 < (getTimeFinal start now').1) := by
  unfold visited
  split_ifs with h
  · exact iff_of_true rfl (h.imp And.left And.symm)
  · refine iff_of_false hne fun h' => h (h'.imp ?_ And.symm)
    exact fun hpast => ⟨hpast, hne⟩

theorem timeout_status (a : LibrmcAddr) (first now : LibrmcTime) :
    (a.timeout first now).status =
      if 15 < (getTimeFinal first now).1 ∧ a.status ≠ .enable then .enable else a.status := by
  unfold LibrmcAddr.timeout
  cases hst : a.status <;> simp [hst]

/-- What `librmc_find` does to the slot that it visits: it stores the draw, frees the slot when its own
count is past 15, and frees it when the count of the timer is and it is still in process. -/
def LibrmcAddr.visit (randS : ℕ) (first start now now' : LibrmcTime) (a : LibrmcAddr) : LibrmcAddr :=
  let a := LibrmcAddr.timeout { a with hex := randS } first now
  if 15 < (getTimeFinal start now').1 ∧ a.status = .process then { a with status := .enable } else a

theorem status_visit (a : LibrmcAddr) (randS : ℕ) (first start now now' : LibrmcTime) :
    (a.visit randS first start now now').status = visited a.status first start now now' := by
  unfold LibrmcAddr.visit visited
  dsimp only
  rw [apply_ite LibrmcAddr.status, timeout_status]
  dsimp only
  by_cases hown : 15 < (getTimeFinal first now).1 <;>
    by_cases hpast : 15 < (getTimeFinal start now').1 <;> cases a.status <;> simp [hown, hpast]

/-- What `librmc_find` does when the first slot of the number is the one at position `i`. -/
theorem librmcFind_eq {g : Rmc} {stack : LibrmcStack} {v : ℕ → ℕ} {start first last : LibrmcTime}
    {i num : ℕ} {a : LibrmcAddr} (hs : g.sptrCore = some stack) (hstate : stack.state = some v)
    (hcore : stack.core = some start) (hsearch : g.search (fun a => a.num = num) = some i)
    (ha : g.slot i = some a) (hfirst : a.first = some first) (hlast : a.last = some last)
    (randS : ℕ) (now now' : LibrmcTime) :
    librmcFind g num randS now now' =
      (randS, { g with sptrCore := some ⟨stack.slots.modify i (.visit randS first start now now'),
        some (Function.update v num (u32 (v num + 1))), some (getTimeFinal start now').2⟩ }) := by
  have hslot : stack.slots.node i = some a := by
    rw [Rmc.slot, hs, Option.bind_some] at ha
    exact ha
  unfold librmcFind
  simp only [hs, hstate, hsearch, hcore]
  simp only [Rmc.setSlot, Rmc.slot, Option.map_some, Option.bind_some, Chain.node_modify, if_true,
    hslot, hfirst, hlast]
  split_ifs with hpast
  · have hvisit : LibrmcAddr.visit randS first start now now' =
        (fun a : LibrmcAddr => if a.status = .process then { a with status := .enable } else a) ∘
          (fun a : LibrmcAddr => a.timeout first now) ∘ fun a => { a with hex := randS } := by
      funext b
      simp [LibrmcAddr.visit, hpast]
    rw [Chain.modify_modify, Chain.modify_modify, hvisit, Function.comp_assoc]
  · have hvisit : LibrmcAddr.visit randS first start now now' =
        (fun a : LibrmcAddr => a.timeout first now) ∘ fun a => { a with hex := randS } := by
      funext b
      simp [LibrmcAddr.visit, hpast]
    rw [Chain.modify_modify, hvisit]

theorem librmcFind_statusAt {g : Rmc} {stack : LibrmcStack} {vstate : ℕ → ℕ}
    {start first : LibrmcTime} {i num : ℕ} {a : LibrmcAddr} (hs : g.sptrCore = some stack)
    (hstate : stack.state = some vstate) (hcore : stack.core = some start)
    (hsearch : g.search (fun a => a.num = num) = some i) (ha : g.slot i = some a)
    (hfirst : a.first = some first) (hlast : a.last.isSome) (randS : ℕ) (now now' : LibrmcTime)
    (j : ℕ) :
    (librmcFind g num randS now now').2.statusAt j =
      if i = j then some (visited a.status first start now now') else g.statusAt j := by
  obtain ⟨last, hlast⟩ := Option.isSome_iff_exists.mp hlast
  have hslot : ∀ k, g.slot k = stack.slots.node k := fun k => by rw [Rmc.slot, hs, Option.bind_some]
  rw [librmcFind_eq hs hstate hcore hsearch ha hfirst hlast, Rmc.statusAt, Rmc.statusAt, hslot j,
    Rmc.slot, Option.bind_some, Chain.node_modify]
  split_ifs with hij
  · rw [← hij, ← hslot i, ha, Option.map_some, Option.map_some, status_visit]
  · rfl

/-! ### The decision -/

theorem librmcFind_poweroff {g : Rmc} (h : g.rmcRunState = 0) (num randS : ℕ)
    (now now' : LibrmcTime) : librmcFind g num randS now now' = (num, g) := by
  unfold librmcFind
  cases hs : g.sptrCore with
  | none => rfl
  | some s =>
      have hsearch : g.search (fun a => a.num = num) = none := by
        unfold Rmc.search
        rw [hs]
        exact if_pos h
      dsimp only
      rw [hsearch]
      cases s.state <;> rfl

namespace Timed

/-- A visit of a slot decides right exactly when the counts do. -/
theorem timesOut_iff {s : Timed} (h : s.Inv) {i : ℕ} {a : LibrmcAddr} (ha : s.rmc.slot i = some a)
    (hst : a.status = .process ∨ a.status = .final) {t : ℕ} (hle : s.started i ≤ t)
    (hlt : t < s.started i + 3600) (randS : ℕ) :
    TimesOut s.rmc i a.num randS (s.started i) t ↔
      TimeoutRight s.rmc a.status (s.started i) t := by
  have hne : a.status ≠ .enable := by
    intro he
    rw [he] at hst
    rcases hst with hst | hst <;> cases hst
  unfold TimesOut TimeoutRight
  dsimp only
  by_cases hrun : s.rmc.rmcRunState = 0
  · -- the loop of `librmc_find` ends at once
    rw [librmcFind_poweroff hrun, Rmc.statusAt_of_slot ha]
    simp [hrun, hne]
  · obtain ⟨stack, hs, hstate, hcore⟩ := h.blocks
    obtain ⟨vstate, hstate⟩ := Option.isSome_iff_exists.mp hstate
    obtain ⟨start, hcore⟩ := Option.isSome_iff_exists.mp hcore
    obtain ⟨hnum, -, hlast, hfirst⟩ := h.slot i a ha
    have hsearch : s.rmc.search (fun b => b.num = a.num) = some i := by
      apply Rmc.search_eq_of_first hrun ha (by simp)
      intro j hj b hb
      have hbnum := (h.slot j b hb).1
      exact decide_eq_false (by omega)
    have hfind := librmcFind_statusAt hs hstate hcore hsearch ha (hfirst hne) hlast randS (clock t)
      (clock t)
    have hsec : (clock t).sec ≤ 60 := (Nat.mod_lt t (by norm_num)).le
    have htimer : TimerPast s.rmc a.status (clock t) ↔
        a.status = .process ∧ CountsPast start (clock t) := by
      unfold TimerPast Rmc.timer
      rw [hs, Option.bind_some, hcore]
      simp
    have hothers : ∀ j, j ≠ i →
        (librmcFind s.rmc a.num randS (clock t) (clock t)).2.statusAt j = s.rmc.statusAt j := by
      intro j hj
      rw [hfind, if_neg hj.symm]
    rw [and_iff_left hothers, hfind, if_pos rfl, Option.some.injEq, visited_eq_enable_iff hne,
      countsPast_iff hsec, countsPast_iff hsec, ← htimer, countsPast_clock hle hlt]
    split_ifs with hpassed
    · rw [iff_true_right hpassed, and_iff_right hrun]
    · rw [iff_false_right hpassed, not_or, or_iff_right hrun]

end Timed

/-- **Timing out a slot.**  In every table that is reachable from `librmc_init`, for every slot that
is `CRMC_PROCESS` or `CRMC_FINAL`, and every reading of the clock within an hour after the
`librmc_create` that started it: `librmc_find` frees the slot if and only if more than 15 seconds have
passed, and changes no other status, exactly when the counts of `get_time_final` from the start and
from the timer of the table are right about it. -/
theorem timeout_iff (md5 : List UInt8 → List UInt8) (g : Rmc) (core : LibrmcTime) (vstate : ℕ → ℕ)
    (times : ℕ → LibrmcTime × LibrmcTime) (started : ℕ → ℕ) {s : Timed}
    {tr : List (Timed × TimedAct × Timed)}
    (hrun : Run Timed.step ⟨librmcInit md5 g core vstate times, started⟩ tr s) {i : ℕ}
    {a : LibrmcAddr} (ha : s.rmc.slot i = some a) (hst : a.status = .process ∨ a.status = .final)
    {t : ℕ} (hle : s.started i ≤ t) (hlt : t < s.started i + 3600) (randS : ℕ) :
    TimesOut s.rmc i a.num randS (s.started i) t ↔
      TimeoutRight s.rmc a.status (s.started i) t :=
  Timed.timesOut_iff (hrun.invariant' Timed.inv_step (Timed.inv_init ..)) ha hst hle hlt randS

/-- On a fresh table, a slot that is started at time `t`, and a sweep that starts at time `u`. -/
theorem started_fresh {g : Rmc} (hg : Fresh g) (hinv : Timed.Inv ⟨g, fun _ => 0⟩) (t u : ℕ) :
    ∃ (s : Timed) (tr : List (Timed × TimedAct × Timed)) (a : LibrmcAddr),
      Run Timed.step ⟨g, fun _ => 0⟩ tr s ∧ tr.map (·.2.1) = [.create t, .sweepStart u] ∧
      s.rmc.slot 0 = some a ∧ a.status = .process ∧ s.started 0 = t ∧
      s.rmc.timer = some (clock u) ∧ s.rmc.rmcRunState ≠ 0 := by
  obtain ⟨a, ha⟩ := hg.nonempty
  obtain ⟨stack, hs, -, hcore⟩ := hinv.blocks
  obtain ⟨start, hcore⟩ := Option.isSome_iff_exists.mp hcore
  have h₁ : Timed.step ⟨g, fun _ => 0⟩ (.create t) =
      some ⟨g.setSlot 0 fun a => { a with first := some (clock t), status := .process },
        Function.update (fun _ => 0) 0 t⟩ := by
    unfold Timed.step
    dsimp only
    rw [hg.create_eq]
  refine ⟨_, _, { a with first := some (clock t), status := .process },
    .cons h₁ (.single (a := .sweepStart u) rfl), rfl, ?_, rfl, rfl, ?_, hg.running⟩
  · rw [Rmc.slot_sweepStart]
    exact Rmc.slot_setSlot_self _ ha
  · dsimp only [Rmc.timer, Rmc.sweepStart, Rmc.setSlot] at hs ⊢
    rw [hs, Option.map_some, Option.map_some, Option.bind_some, hcore, Option.map_some]

/-- A slot started at 0:10 is timed out at 0:27. -/
theorem timesOut_seventeen : ∃ (s : Timed) (a : LibrmcAddr), s.rmc.slot 0 = some a ∧
    a.status = .process ∧ s.started 0 = 10 ∧ TimesOut s.rmc 0 a.num 0 (s.started 0) 27 := by
  obtain ⟨s, tr, a, hrun, -, ha, hst, hstarted, -, hrunning⟩ := started_fresh
    (fresh_init md5Digest (by decide) _ _ _) (Timed.inv_init md5Digest Rmc.zero ⟨0, 0⟩ (fun _ => 0)
      (fun _ => (⟨0, 0⟩, ⟨0, 0⟩)) fun _ => 0) 10 27
  refine ⟨s, a, ha, hst, hstarted, (timeout_iff md5Digest Rmc.zero ⟨0, 0⟩ (fun _ => 0)
    (fun _ => (⟨0, 0⟩, ⟨0, 0⟩)) (fun _ => 0) hrun ha (.inl hst) (by rw [hstarted]; norm_num)
    (by rw [hstarted]; norm_num) 0).mpr ?_⟩
  rw [hstarted, TimeoutRight, if_pos (by norm_num)]
  exact ⟨hrunning, .inl (by unfold CountsShort clock; norm_num)⟩

/-- A slot started at 0:46 is not timed out by the sweep that starts at 1:20. -/
theorem not_timesOut_next_minute : ∃ (s : Timed) (tr : List (Timed × TimedAct × Timed))
    (a : LibrmcAddr), Run Timed.step ⟨Rmc.zeroTable, fun _ => 0⟩ tr s ∧
      tr.map (·.2.1) = [.create 46, .sweepStart 80] ∧ s.rmc.slot 0 = some a ∧
      a.status = .process ∧ s.started 0 = 46 ∧ ¬ TimesOut s.rmc 0 a.num 0 (s.started 0) 80 := by
  have hinit := Timed.inv_init md5Digest Rmc.zero ⟨0, 0⟩ (fun _ => 0) (fun _ => (⟨0, 0⟩, ⟨0, 0⟩))
    fun _ => 0
  obtain ⟨s, tr, a, hrun, htr, ha, hst, hstarted, htimer, -⟩ :=
    started_fresh (fresh_init md5Digest (by decide) _ _ _) hinit 46 80
  refine ⟨s, tr, a, hrun, htr, ha, hst, hstarted, ?_⟩
  have hinv := hrun.invariant' Timed.inv_step hinit
  rw [Timed.timesOut_iff hinv ha (.inl hst) (by rw [hstarted]; norm_num)
    (by rw [hstarted]; norm_num), hstarted]
  unfold TimeoutRight
  rw [if_pos (by norm_num), not_and_or, not_or, not_not]
  right
  refine ⟨by unfold CountsShort clock; norm_num, ?_⟩
  rintro ⟨-, start, hstart, hpast⟩
  rw [htimer, Option.some.injEq] at hstart
  subst hstart
  unfold CountsPast clock at hpast
  norm_num at hpast

end Carroll
