import Carroll.RmcTimeout

/-! # The walk of the sweep

`thread_proc_xsd` walks over the table in sweeps of `count` visits.  Which slot a visit goes to is
the number that the visit before it drew: `librmc_find` stores the draw in `hex` of the slot that it
visits and returns it, and the variable `code` keeps it, also from one sweep to the next.  A draw is
`rand()%CORE_BITS-1` as an `unsigned short`, which is 65535 when the remainder is 0.

`ProcXsd.step` takes the steps of the thread and, at any time between them, the calls of the others.
A visit checks the run state before it calls `librmc_find`, which checks it again: what happens
when the table is powered off in between is a visit with a run state of 0. -/

namespace Carroll

/-- The table and the variables `code` and `i` of `thread_proc_xsd`; `i` is `none` between two
sweeps. -/
structure ProcXsd where
  rmc : Rmc
  code : ℕ
  i : Option ℕ

/-- A step of the thread (`start`, `visit` and `finish`) or a call from elsewhere. -/
inductive SweepAct where
  | start (t : ℕ)
  | visit (t t' : ℕ)
  | finish (t : ℕ)
  | create (t : ℕ)
  | select (code : List UInt8) (data : Option CodePtr)
  | final (code : Option (List UInt8))
  | digest (p : List UInt8)
  | poweroff

namespace ProcXsd

/-- The thread before its first sweep. -/
def init (g : Rmc) : ProcXsd := ⟨g, 0, none⟩

/-- `sptr_core->count`. -/
def count (g : Rmc) : ℕ := (g.sptrCore.map (·.slots.count)).getD 0

/-- `code = librmc_find(code, rand()%CORE_BITS-1)`. -/
def visit (s : ProcXsd) (k t t' : ℕ) : ProcXsd :=
  let r := s.rmc.rand.next
  let f := librmcFind { s.rmc with rand := r.2 } s.code (randHex r.1) (clock t) (clock t')
  ⟨f.2, f.1, some (k + 1)⟩

/-- One step. -/
def step (s : ProcXsd) : SweepAct → Option ProcXsd
  | .start t =>
      if s.i = none ∧ s.rmc.rmcRunState ≠ 0 ∧ 0 < count s.rmc then
        some { s with rmc := s.rmc.sweepStart (clock t), i := some 0 }
      else none
  | .visit t t' => s.i.bind fun k => if k < count s.rmc then some (s.visit k t t') else none
  | .finish t =>
      s.i.bind fun k =>
        if count s.rmc ≤ k ∨ s.rmc.rmcRunState = 0 then
          some { s with rmc := s.rmc.sweepEnd (clock t), i := none }
        else none
  | .create t => some { s with rmc := (librmcCreate s.rmc (clock t)).2 }
  | .select code data => some { s with rmc := (librmcSelect s.rmc code data).2 }
  | .final code => some { s with rmc := (librmcFinal s.rmc code).2 }
  | .digest p => some { s with rmc := { s.rmc with digests := (cdigest s.rmc.digests p 16).2 } }
  | .poweroff => some { s with rmc := s.rmc.librmcPoweroff }

end ProcXsd

/-- The slots are numbered in list order from 0 to `CORE_BITS-1`, and every `hex` is below
`CORE_BITS`. -/
def Rmc.Numbered (g : Rmc) : Prop :=
  ∃ stack, g.sptrCore = some stack ∧ stack.slots.addr.map (·.num) = List.range coreBits ∧
    ∀ a ∈ stack.slots.addr, a.hex < coreBits

/-- The visits of the slots, `state->vstate`. -/
def Rmc.vstate (g : Rmc) : Option (ℕ → ℕ) := g.sptrCore.bind (·.state)

/-- The call that leads from `s` to `s'` is given the number of a slot, and, while the table is
running, counts one visit of it, at an index inside `vstate[CORE_BITS]`. -/
def ProcXsd.Visits (s s' : ProcXsd) : Prop :=
  (∃ i a, s.rmc.slot i = some a ∧ a.num = s.code) ∧ s.code < coreBits ∧
    (s.rmc.rmcRunState ≠ 0 → ∃ v, s.rmc.vstate = some v ∧
      s'.rmc.vstate = some (Function.update v s.code (u32 (v s.code + 1))))

/-- In every state of a run the table is numbered, and every call of `librmc_find` visits a slot. -/
def ProcXsd.StaysInTable (s : ProcXsd) (tr : List (ProcXsd × SweepAct × ProcXsd)) : Prop :=
  s.rmc.Numbered ∧ ∀ x ∈ tr, x.2.2.rmc.Numbered ∧ ∀ t t', x.2.1 = .visit t t' → x.1.Visits x.2.2

/-- The step does not call `librmc_find` of a running table with a multiple of `CORE_BITS`
drawn. -/
def ProcXsd.DrawsWell (s : ProcXsd) (c : SweepAct) : Prop :=
  ∀ t t', c = .visit t t' → s.rmc.rmcRunState ≠ 0 → s.rmc.rand.next.1 % coreBits ≠ 0

/-- No step of a run does. -/
def ProcXsd.NoZeroDraw (tr : List (ProcXsd × SweepAct × ProcXsd)) : Prop :=
  ∀ x ∈ tr, x.1.DrawsWell x.2.1

/-! ### The draws -/

theorem randHex_lt_iff (r : ℕ) : randHex r < coreBits ↔ r % coreBits ≠ 0 := by
  have hlt : r % coreBits < 2048 := Nat.mod_lt r (by decide)
  unfold randHex
  generalize r % coreBits = k at hlt ⊢
  unfold coreBits
  omega

/-! ### One visit -/

/-- What a visit does to the slot: the draw is stored, and both times stay allocated. -/
structure SlotVisited (randS : ℕ) (a b : LibrmcAddr) : Prop where
  num : b.num = a.num
  hex : b.hex = randS
  first : b.first = a.first
  last : a.last.isSome → b.last.isSome

theorem SlotVisited.timeout {randS : ℕ} {a b : LibrmcAddr} (h : SlotVisited randS a b)
    (first now : LibrmcTime) : SlotVisited randS a (b.timeout first now) := by
  unfold LibrmcAddr.timeout
  split_ifs
  · exact ⟨h.num, h.hex, h.first, fun _ => rfl⟩
  · exact h

theorem slotVisited_visit (randS : ℕ) (first start now now' : LibrmcTime) (a : LibrmcAddr) :
    SlotVisited randS a (a.visit randS first start now now') := by
  have hstored : SlotVisited randS a { a with hex := randS } := ⟨rfl, rfl, rfl, id⟩
  have htimeout := hstored.timeout first now
  unfold LibrmcAddr.visit
  dsimp only
  split_ifs
  · exact ⟨htimeout.num, htimeout.hex, htimeout.first, htimeout.last⟩
  · exact htimeout

namespace ProcXsd

/-! ### What holds in every run -/

/-- The side blocks are allocated, the slots are numbered by position, hold a number in the table and
have their two times, and so is the number that the next visit is given. -/
structure Inv (s : ProcXsd) : Prop where
  blocks : ∃ stack, s.rmc.sptrCore = some stack ∧ stack.state.isSome ∧ stack.core.isSome ∧
    stack.slots.addr.length = coreBits
  slot : ∀ i a, s.rmc.slot i = some a →
    a.num = i ∧ a.hex < coreBits ∧ a.first.isSome ∧ a.last.isSome
  code : s.code < coreBits

/-- From `a` to `b` the number and the stored draw stay, and both times stay allocated. -/
structure SlotKept (a b : LibrmcAddr) : Prop where
  num : b.num = a.num
  hex : b.hex = a.hex
  first : a.first.isSome → b.first.isSome
  last : a.last.isSome → b.last.isSome

/-- A visit when the table was powered off: only a number was drawn. -/
theorem visit_poweroff {s : ProcXsd} (hrun : s.rmc.rmcRunState = 0) (k t t' : ℕ) :
    s.visit k t t' = ⟨{ s.rmc with rand := s.rmc.rand.next.2 }, s.code, some (k + 1)⟩ := by
  dsimp only [visit]
  rw [librmcFind_poweroff (g := { s.rmc with rand := s.rmc.rand.next.2 }) hrun]

section
variable {s : ProcXsd} (h : s.Inv)

include h

theorem Inv.numbered : s.rmc.Numbered := by
  obtain ⟨stack, hs, -, -, hlen⟩ := h.blocks
  have hslot : ∀ (i : ℕ) (a : LibrmcAddr), stack.slots.addr[i]? = some a → a.num = i ∧ a.hex < coreBits := by
    intro i a ha
    obtain ⟨hnum, hhex, -⟩ := h.slot i a (by rw [Rmc.slot, hs]; exact ha)
    exact ⟨hnum, hhex⟩
  refine ⟨stack, hs, ?_, ?_⟩
  · apply List.ext_getElem
    · rw [List.length_map, List.length_range, hlen]
    · intro i hi hi'
      rw [List.getElem_map, List.getElem_range]
      exact (hslot i _ (List.getElem?_eq_getElem (by simpa using hi))).1
  · intro a ha
    obtain ⟨i, hi⟩ := List.mem_iff_getElem?.mp ha
    exact (hslot i a hi).2

/-- The number that a visit is given is that of a slot. -/
theorem Inv.visited : ∃ a, s.rmc.slot s.code = some a ∧ a.num = s.code := by
  obtain ⟨stack, hs, -, -, hlen⟩ := h.blocks
  have hcode : s.code < stack.slots.addr.length := hlen ▸ h.code
  have ha : s.rmc.slot s.code = some stack.slots.addr[s.code] := by
    rw [Rmc.slot, hs]
    exact List.getElem?_eq_getElem hcode
  exact ⟨_, ha, (h.slot _ _ ha).1⟩

theorem Inv.setSlot (j : ℕ) {f : LibrmcAddr → LibrmcAddr} (hf : ∀ a, SlotKept a (f a)) :
    Inv { s with rmc := s.rmc.setSlot j f } := by
  refine ⟨?_, ?_, h.code⟩
  · obtain ⟨stack, hs, hstate, hcore, hlen⟩ := h.blocks
    refine ⟨{ stack with slots := stack.slots.modify j f }, by rw [Rmc.setSlot, hs]; rfl, hstate,
      hcore, ?_⟩
    rw [Chain.addr_modify, List.length_modify, hlen]
  · intro i a ha
    dsimp only at ha
    rw [Rmc.slot_setSlot] at ha
    split_ifs at ha with hij
    · obtain ⟨b, hb, rfl⟩ := Option.map_eq_some_iff.mp ha
      obtain ⟨hnum, hhex, hfirst, hlast⟩ := h.slot i b hb
      exact ⟨(hf b).num.trans hnum, (hf b).hex ▸ hhex, (hf b).first hfirst, (hf b).last hlast⟩
    · exact h.slot i a ha

theorem Inv.stack {f : LibrmcStack → LibrmcStack} (hslots : ∀ t, (f t).slots = t.slots)
    (hstate : ∀ t, t.state.isSome → (f t).state.isSome)
    (hcore : ∀ t, t.core.isSome → (f t).core.isSome) (k : Option ℕ) :
    Inv ⟨{ s.rmc with sptrCore := s.rmc.sptrCore.map f }, s.code, k⟩ := by
  refine ⟨?_, ?_, h.code⟩
  · obtain ⟨stack, hs, hst, hco, hlen⟩ := h.blocks
    exact ⟨f stack, by rw [hs]; rfl, hstate stack hst, hcore stack hco, by rw [hslots, hlen]⟩
  · intro i a ha
    dsimp only at ha
    rw [Rmc.slot_stack s.rmc hslots] at ha
    exact h.slot i a ha

/-- A visit while the table is running: the draw is stored in the slot and is the next number, and
the visit is counted. -/
theorem Inv.visit_eq (hrun : s.rmc.rmcRunState ≠ 0) (k t t' : ℕ) :
    ∃ (stack : LibrmcStack) (v : ℕ → ℕ) (f : LibrmcAddr → LibrmcAddr) (core : LibrmcTime),
      s.rmc.sptrCore = some stack ∧ stack.state = some v ∧
      (∀ b, SlotVisited (randHex s.rmc.rand.next.1) b (f b)) ∧
      s.visit k t t' =
        ⟨{ s.rmc with
            rand := s.rmc.rand.next.2
            sptrCore := some ⟨stack.slots.modify s.code f,
              some (Function.update v s.code (u32 (v s.code + 1))), some core⟩ },
          randHex s.rmc.rand.next.1, some (k + 1)⟩ := by
  obtain ⟨stack, hs, hstate, hcore, -⟩ := h.blocks
  obtain ⟨v, hstate⟩ := Option.isSome_iff_exists.mp hstate
  obtain ⟨start, hcore⟩ := Option.isSome_iff_exists.mp hcore
  obtain ⟨a, ha, hnum⟩ := h.visited
  obtain ⟨-, -, hfirst, hlast⟩ := h.slot _ _ ha
  obtain ⟨first, hfirst⟩ := Option.isSome_iff_exists.mp hfirst
  obtain ⟨last, hlast⟩ := Option.isSome_iff_exists.mp hlast
  have hsearch : Rmc.search { s.rmc with rand := s.rmc.rand.next.2 } (fun b => b.num = s.code) =
      some s.code := by
    apply Rmc.search_eq_of_first hrun ha (decide_eq_true hnum)
    intro j hj b hb
    have := (h.slot j b hb).1
    exact decide_eq_false (by omega)
  have hfind := librmcFind_eq (g := { s.rmc with rand := s.rmc.rand.next.2 }) hs hstate
    hcore hsearch ha hfirst hlast (randHex s.rmc.rand.next.1) (clock t) (clock t')
  refine ⟨stack, v, _, (getTimeFinal start (clock t')).2, hs, hstate,
    slotVisited_visit _ first start (clock t) (clock t'), ?_⟩
  dsimp only at hfind
  dsimp only [visit]
  rw [hfind]

/-- A visit goes on in the table exactly when it draws no multiple of `CORE_BITS`. -/
theorem Inv.visit_numbered (hrun : s.rmc.rmcRunState ≠ 0) (k t t' : ℕ) :
    (s.visit k t t').rmc.Numbered → s.rmc.rand.next.1 % coreBits ≠ 0 := by
  obtain ⟨stack, v, f, core, hs, -, hf, hvisit⟩ := h.visit_eq hrun k t t'
  obtain ⟨a, ha, -⟩ := h.visited
  rw [Rmc.slot, hs, Option.bind_some] at ha
  rintro ⟨stack', hs', -, hhex⟩
  rw [hvisit, Option.some.injEq] at hs'
  subst hs'
  rw [← randHex_lt_iff, ← (hf a).hex]
  apply hhex
  apply List.mem_of_getElem? (i := s.code)
  show (stack.slots.modify s.code f).node s.code = some (f a)
  rw [Chain.node_modify, if_pos rfl, ha, Option.map_some]

theorem Inv.visit (hdraw : s.rmc.rmcRunState ≠ 0 → s.rmc.rand.next.1 % coreBits ≠ 0) (k t t' : ℕ) :
    (s.visit k t t').Inv ∧ s.Visits (s.visit k t t') := by
  obtain ⟨a, ha, hnum⟩ := h.visited
  by_cases hrun : s.rmc.rmcRunState = 0
  · rw [visit_poweroff hrun]
    exact ⟨⟨h.blocks, h.slot, h.code⟩, ⟨s.code, a, ha, hnum⟩, h.code, fun hne => absurd hrun hne⟩
  · obtain ⟨stack, v, f, core, hs, hstate, hf, hvisit⟩ := h.visit_eq hrun k t t'
    have hhex := (randHex_lt_iff _).mpr (hdraw hrun)
    rw [hvisit]
    refine ⟨⟨⟨_, rfl, rfl, rfl, ?_⟩, ?_, hhex⟩, ⟨s.code, a, ha, hnum⟩, h.code, ?_⟩
    · obtain ⟨stack', hs', -, -, hlen⟩ := h.blocks
      rw [hs, Option.some.injEq] at hs'
      subst hs'
      rw [Chain.addr_modify, List.length_modify, hlen]
    · intro i b hb
      have hslot : s.rmc.slot i = stack.slots.node i := by
        rw [Rmc.slot, hs, Option.bind_some]
      rw [Rmc.slot, Option.bind_some, Chain.node_modify, ← hslot] at hb
      split_ifs at hb with hi
      · obtain ⟨c, hc, rfl⟩ := Option.map_eq_some_iff.mp hb
        obtain ⟨hcnum, -, hfirst, hlast⟩ := h.slot i c hc
        exact ⟨(hf c).num.trans hcnum, (hf c).hex ▸ hhex, (hf c).first ▸ hfirst, (hf c).last hlast⟩
      · exact h.slot i b hb
    · intro _
      refine ⟨v, ?_, rfl⟩
      rw [Rmc.vstate, hs, Option.bind_some, hstate]

end

/-- What one step keeps: everything, unless a visit of a running table draws a multiple of
`CORE_BITS`. -/
theorem inv_step (s : ProcXsd) (c : SweepAct) (s' : ProcXsd) (hdraw : s.DrawsWell c) (h : s.Inv)
    (hst : s.step c = some s') : s'.Inv ∧ ∀ t t', c = .visit t t' → s.Visits s' := by
  cases c with
  | start t =>
      unfold step at hst
      split_ifs at hst
      obtain rfl := Option.some.inj hst
      refine ⟨h.stack (f := fun u =>
        { u with core := u.core.map fun _ => clock t, state := u.state.map fun _ _ => 0 })
        (fun _ => rfl) (fun _ hx => ?_) (fun _ hx => ?_) _, fun _ _ hc => nomatch hc⟩
      · simpa using hx
      · simpa using hx
  | visit t t' =>
      obtain ⟨k, -, hst⟩ := Option.bind_eq_some_iff.mp hst
      split_ifs at hst
      obtain rfl := Option.some.inj hst
      obtain ⟨hinv, hvisits⟩ := h.visit (hdraw t t' rfl) k t t'
      exact ⟨hinv, fun _ _ _ => hvisits⟩
  | finish t =>
      obtain ⟨k, -, hst⟩ := Option.bind_eq_some_iff.mp hst
      split_ifs at hst
      obtain rfl := Option.some.inj hst
      refine ⟨h.stack (f := fun u =>
        { u with core := u.core.map fun start => (getTimeFinal start (clock t)).2 })
        (fun _ => rfl) (fun _ => id) (fun _ hx => ?_) _, fun _ _ hc => nomatch hc⟩
      simpa using hx
  | create t =>
      obtain rfl := Option.some.inj hst
      refine ⟨?_, fun _ _ hc => nomatch hc⟩
      rcases librmcCreate_cases s.rmc (clock t) with hc | ⟨i, a, -, -, -, hc⟩
      · rw [hc]
        exact h
      · rw [hc]
        exact h.setSlot i fun a => ⟨rfl, rfl, fun _ => rfl, id⟩
  | select code data =>
      obtain rfl := Option.some.inj hst
      refine ⟨?_, fun _ _ hc => nomatch hc⟩
      rcases librmcSelect_cases s.rmc code data with hc | ⟨i, a, -, -, -, -, hc⟩
      · rw [hc]
        exact h
      · rw [hc]
        exact h.setSlot i fun a => ⟨rfl, rfl, id, id⟩
  | final code =>
      obtain rfl := Option.some.inj hst
      refine ⟨?_, fun _ _ hc => nomatch hc⟩
      rcases librmcFinal_cases s.rmc code with hc | ⟨i, a, -, -, hc⟩
      · rw [hc]
        exact h
      · rw [hc]
        exact h.setSlot i fun a => ⟨rfl, rfl, id, id⟩
  | digest p =>
      obtain rfl := Option.some.inj hst
      exact ⟨⟨h.blocks, h.slot, h.code⟩, fun _ _ hc => nomatch hc⟩
  | poweroff =>
      obtain rfl := Option.some.inj hst
      exact ⟨⟨h.blocks, h.slot, h.code⟩, fun _ _ hc => nomatch hc⟩

theorem inv_init (md5 : List UInt8 → List UInt8) (g : Rmc) (core : LibrmcTime) (vstate : ℕ → ℕ)
    (times : ℕ → LibrmcTime × LibrmcTime) : (init (librmcInit md5 g core vstate times)).Inv := by
  have hloaded := loaded_init md5 g core vstate times
  obtain ⟨stack, hs, hstate, hcore, hlen, hslots⟩ := init_blocks md5 g core vstate times
  generalize librmcInit md5 g core vstate times = g' at hloaded hs
  refine ⟨⟨stack, hs, hstate, hcore, hlen⟩, ?_, (by decide : 0 < coreBits)⟩
  intro i a ha
  obtain ⟨-, hfirst, hnum, -⟩ := hloaded.slot i a ha
  rw [init, Rmc.slot, hs] at ha
  obtain ⟨hhex, hlast⟩ := hslots a (List.mem_of_getElem? ha)
  exact ⟨hnum, hhex, hfirst, hlast⟩

/-- While the draws are good, the invariant and the law of the visits hold at every step. -/
theorem staysInTable_of_noZeroDraw {s s' : ProcXsd} {tr : List (ProcXsd × SweepAct × ProcXsd)}
    (hrun : Run step s tr s') (h : s.Inv) (hdraw : NoZeroDraw tr) : s.StaysInTable tr := by
  refine ⟨h.numbered, ?_⟩
  have hsteps := hrun.at_step (P := DrawsWell) (I := Inv)
    (fun s c s' hP h hst => (inv_step s c s' hP h hst).1) h hdraw
  intro x hx
  obtain ⟨hinv, hst, hinv'⟩ := hsteps x hx
  exact ⟨hinv'.numbered, (inv_step x.1 x.2.1 x.2.2 (hdraw x hx) hinv hst).2⟩

/-- While the table stays numbered, the draws have been good. -/
theorem noZeroDraw_of_numbered {s s' : ProcXsd} {tr : List (ProcXsd × SweepAct × ProcXsd)}
    (hrun : Run step s tr s') (h : s.Inv) (hnum : ∀ x ∈ tr, x.2.2.rmc.Numbered) : NoZeroDraw tr := by
  induction hrun with
  | nil s => exact fun x hx => absurd hx List.not_mem_nil
  | @cons s s₁ _ c tr hst _ ih =>
      obtain ⟨hnum₁, hnum⟩ := List.forall_mem_cons.mp hnum
      have hdraw : s.DrawsWell c := by
        rintro t t' rfl hrun
        obtain ⟨k, -, hvisit⟩ := Option.bind_eq_some_iff.mp hst
        split_ifs at hvisit
        obtain rfl := Option.some.inj hvisit
        exact h.visit_numbered hrun k t t' hnum₁
      exact List.forall_mem_cons.mpr ⟨hdraw, ih (inv_step s c s₁ hdraw h hst).1 hnum⟩

end ProcXsd

/-- **The walk of the sweep.**  In every run of the thread from a table that `librmc_init` has built,
with any results of `rand()` and any calls from elsewhere: the slots stay numbered in list order, every
stored draw is below `CORE_BITS`, and every call of `librmc_find` visits a slot, if and only if no call
of a running table draws a multiple of `CORE_BITS`. -/
theorem staysInTable_iff (md5 : List UInt8 → List UInt8) (g : Rmc) (core : LibrmcTime)
    (vstate : ℕ → ℕ) (times : ℕ → LibrmcTime × LibrmcTime) {s : ProcXsd}
    {tr : List (ProcXsd × SweepAct × ProcXsd)}
    (hrun : Run ProcXsd.step (ProcXsd.init (librmcInit md5 g core vstate times)) tr s) :
    (ProcXsd.init (librmcInit md5 g core vstate times)).StaysInTable tr ↔ ProcXsd.NoZeroDraw tr := by
  have hinv := ProcXsd.inv_init md5 g core vstate times
  constructor
  · intro h
    exact ProcXsd.noZeroDraw_of_numbered hrun hinv fun x hx => (h.2 x hx).1
  · exact ProcXsd.staysInTable_of_noZeroDraw hrun hinv

/-- The first visit of a fresh table. -/
theorem ProcXsd.run_visit {g : Rmc} (hrun : g.rmcRunState ≠ 0) (h : (ProcXsd.init g).Inv) :
    ∃ s tr, Run ProcXsd.step (ProcXsd.init g) tr s ∧ tr.map (·.2.1) = [.start 0, .visit 0 0] ∧
      (∃ x ∈ tr, x.2.1 = .visit 0 0 ∧ x.1.rmc.rmcRunState ≠ 0) ∧
      ∀ x ∈ tr, x.1.rmc.rand = g.rand := by
  obtain ⟨stack, hs, -, -, hlen⟩ := h.blocks
  dsimp only [init] at hs
  have hcount : count g = coreBits := by
    rw [count, hs, Option.map_some, Option.getD_some, stack.slots.count_eq, hlen]
  have hcount' : count (g.sweepStart (clock 0)) = coreBits := by
    rw [← hcount, count, count, Rmc.sweepStart, Option.map_map]
    rfl
  have hstart : (ProcXsd.init g).step (.start 0) = some ⟨g.sweepStart (clock 0), 0, some 0⟩ := by
    dsimp only [step, init]
    rw [if_pos ⟨rfl, hrun, by rw [hcount]; decide⟩]
  have hvisit : ProcXsd.step ⟨g.sweepStart (clock 0), 0, some 0⟩ (.visit 0 0) =
      some (ProcXsd.visit ⟨g.sweepStart (clock 0), 0, some 0⟩ 0 0 0) := by
    dsimp only [step]
    rw [Option.bind_some, if_pos (by rw [hcount']; decide)]
  refine ⟨_, _, .cons hstart (.single hvisit), rfl, ⟨_, List.mem_cons_of_mem _ List.mem_cons_self,
    rfl, hrun⟩, fun x hx => ?_⟩
  rcases List.mem_pair.mp hx with rfl | rfl <;> rfl

theorem settleHex_seq (hex : ℕ) (rand : Rand) : (settleHex hex rand).2.seq = rand.seq := by
  unfold settleHex
  split_ifs <;> rfl

theorem rand_mk (sptrCore : Option LibrmcStack) (rmcRunState rmcCount rmcFree : ℕ)
    (digests : Digests) (rand : Rand) :
    (Rmc.mk sptrCore rmcRunState rmcCount rmcFree digests rand).rand = rand := rfl

theorem librmcUpdate_seq (md5 : List UInt8 → List UInt8) (g : Rmc) (dev : List UInt8) (number : ℕ)
    (first last : LibrmcTime) :
    (librmcUpdate md5 g dev number (UpdateAlloc.ok first last)).2.rand.seq = g.rand.seq := by
  cases hs : g.sptrCore with
  | none => rw [librmcUpdate, hs]
  | some stack =>
      obtain ⟨sptrCore, rmcCount, digests, rand, hupd, hseq⟩ : ∃ sptrCore rmcCount digests rand,
          librmcUpdate md5 g dev number (UpdateAlloc.ok first last) =
            (1, ⟨sptrCore, g.rmcRunState, rmcCount, g.rmcFree, digests, rand⟩) ∧
          Rand.seq rand = g.rand.seq := by
        unfold librmcUpdate
        rw [hs]
        refine ⟨_, _, _, _, rfl, ?_⟩
        rw [rand_mk, settleHex_seq]
        rfl
      rw [hupd, ← hseq]

/-- `librmc_init` draws from the source, and leaves its results as they are. -/
theorem initLoop_seq (md5 : List UInt8 → List UInt8) (times : ℕ → LibrmcTime × LibrmcTime) (g : Rmc)
    (k : ℕ) : (librmcInitLoop md5 times g k).rand.seq = g.rand.seq := by
  induction k with
  | zero => rfl
  | succ k ih => rw [librmcInitLoop, librmcUpdate_seq, ih]

/-- A source that always gives 1: the thread walks in the table. -/
theorem staysInTable_one : ∃ (g : Rmc) (s : ProcXsd) (tr : List (ProcXsd × SweepAct × ProcXsd)),
    tr.map (·.2.1) = [.start 0, .visit 0 0] ∧
    Run ProcXsd.step (ProcXsd.init g) tr s ∧ (ProcXsd.init g).StaysInTable tr := by
  obtain ⟨s, tr, hrun, hacts, -, hrand⟩ := ProcXsd.run_visit (g := librmcInit md5Digest
    { Rmc.zero with rand := ⟨fun _ => 1, 0⟩ } ⟨0, 0⟩ (fun _ => 0) fun _ => (⟨0, 0⟩, ⟨0, 0⟩))
    (by rw [(loaded_init ..).running]; decide) (ProcXsd.inv_init ..)
  refine ⟨_, s, tr, hacts, hrun,
    (staysInTable_iff md5Digest _ ⟨0, 0⟩ (fun _ => 0) _ hrun).mpr fun x hx t t' _ _ => ?_⟩
  rw [hrand x hx, librmcInit, Rand.next, initLoop_seq]
  decide

/-- A source that always gives 0: the first visit stores 65535, and takes it for the next number. -/
theorem not_staysInTable_zero : ∃ (s : ProcXsd) (tr : List (ProcXsd × SweepAct × ProcXsd)),
    Run ProcXsd.step (ProcXsd.init Rmc.zeroTable) tr s ∧
      tr.map (·.2.1) = [.start 0, .visit 0 0] ∧ ¬ (ProcXsd.init Rmc.zeroTable).StaysInTable tr := by
  have hinv : (ProcXsd.init Rmc.zeroTable).Inv := ProcXsd.inv_init ..
  have hrun₀ : Rmc.zeroTable.rmcRunState ≠ 0 := by
    rw [Rmc.zeroTable, (loaded_init ..).running]
    decide
  obtain ⟨s, tr, hrun, hacts, ⟨x, hx, hvisit, hrunning⟩, hrand⟩ := ProcXsd.run_visit hrun₀ hinv
  refine ⟨s, tr, hrun, hacts, fun h => ?_⟩
  have hdraw := ProcXsd.noZeroDraw_of_numbered hrun hinv (fun y hy => (h.2 y hy).1) x hx 0 0 hvisit
    hrunning
  apply hdraw
  rw [hrand x hx, Rmc.zeroTable, librmcInit, Rand.next, initLoop_seq]
  rfl

end Carroll
