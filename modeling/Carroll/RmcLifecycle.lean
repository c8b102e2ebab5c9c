import Carroll.Rmc
import Carroll.Runs

/-! # The life of a core slot

Any number of requests use the table of `Rmc.lean` at the same time.  A request calls
`librmc_create`, then `librmc_select` with the code of the slot it got, and is finalised
either by a `librmc_final` naming that code or by the `librmc_final(NULL)` of the reaper
thread `thread_procv`.  `Sys.step` interleaves these calls one at a time; a call that returns
NULL ends its request, as in `sound_callback_threads_ctx`.

`LifecycleOk` is the intended life of a slot over a whole run: a successful select leaves its
slot in `CRMC_FINAL`, the matching final returns a slot that is `CRMC_ENABLE` again, and when
every started request is finalised all slots are free.  Since `librmc_select` never stores
`CRMC_FINAL` (`librmcSelect_cases`), no slot ever gets there (`Sys.Inv`), and
`lifecycle_iff` says that exactly the runs without a `librmc_select` have this life. -/

namespace Carroll

/-- Where a request stands; `created` and `selected` keep the slot that `librmc_create` gave it. -/
inductive Phase where
  | idle
  | refused
  | created (i : ℕ)
  | dropped (i : ℕ)
  | selected (i : ℕ)
  | finalised
deriving DecidableEq, Repr

/-- One call on the table; `reap` is the `librmc_final(NULL)` of the reaper thread. -/
inductive Act where
  | create (r : ℕ) (now : LibrmcTime)
  | select (r : ℕ) (data : Option CodePtr)
  | final (r : ℕ)
  | reap
deriving DecidableEq, Repr

/-- The table and the requests. -/
structure Sys where
  rmc : Rmc
  phase : ℕ → Phase

namespace Sys

/-- No request has started. -/
def start (g : Rmc) : Sys := ⟨g, fun _ => .idle⟩

/-- Request `r` goes to phase `p`, the table to `g`. -/
def goto (s : Sys) (g : Rmc) (r : ℕ) (p : Phase) : Sys := ⟨g, Function.update s.phase r p⟩

/-- One call; `none` when the request is not at the point of making it. -/
def step (s : Sys) : Act → Option Sys
  | .create r now =>
      if s.phase r = .idle then
        match librmcCreate s.rmc now with
        | (some i, g) => some (s.goto g r (.created i))
        | (none, g) => some (s.goto g r .refused)
      else none
  | .select r data =>
      match s.phase r with
      | .created i =>
          match s.rmc.slot i with
          | some a =>
              match librmcSelect s.rmc (s.rmc.codeStr a) data with
              | (some _, g) => some (s.goto g r (.selected i))
              | (none, g) => some (s.goto g r (.dropped i))
          | none => none
      | _ => none
  | .final r =>
      match s.phase r with
      | .selected i =>
          match s.rmc.slot i with
          | some a => some (s.goto (librmcFinal s.rmc (some (s.rmc.codeStr a))).2 r .finalised)
          | none => none
      | _ => none
  | .reap =>
      match librmcFinal s.rmc none with
      | (some j, g) =>
          some ⟨g, fun r => if s.phase r = .selected j then .finalised else s.phase r⟩
      | (none, g) => some ⟨g, s.phase⟩

/-- Every request that got a slot has been finalised. -/
def AllFinalised (s : Sys) : Prop :=
  ∀ r, s.phase r = .idle ∨ s.phase r = .refused ∨ s.phase r = .finalised

/-- All slots are free, and the next `librmc_create` succeeds. -/
def Free (s : Sys) : Prop :=
  (∀ i st, s.rmc.statusAt i = some st → st = .enable) ∧
  ∀ now, ∃ i, (librmcCreate s.rmc now).1 = some i

/-- What a call has to leave behind. -/
def Leaves (s : Sys) : Act → Sys → Prop
  | .create _ _, _ => True
  | .select r data, t => ∀ i a j, s.phase r = .created i → s.rmc.slot i = some a →
      (librmcSelect s.rmc (s.rmc.codeStr a) data).1 = some j →
      t.rmc.statusAt j = some .final
  | .final r, t => ∀ i a, s.phase r = .selected i → s.rmc.slot i = some a →
      ∃ j, (librmcFinal s.rmc (some (s.rmc.codeStr a))).1 = some j ∧
        t.rmc.statusAt j = some .enable
  | .reap, t => ∀ j, (librmcFinal s.rmc none).1 = some j →
      t.rmc.statusAt j = some .enable

end Sys

/-- The intended life of the slots over a run. -/
def LifecycleOk (tr : List (Sys × Act × Sys)) (u : Sys) : Prop :=
  (∀ x ∈ tr, x.1.Leaves x.2.1 x.2.2 ∧ (x.1.AllFinalised → x.1.Free)) ∧ (u.AllFinalised → u.Free)

/-- A table as `librmc_init` leaves it: running, not empty, every slot free with its start time
allocated. -/
structure Fresh (g : Rmc) : Prop where
  running : g.rmcRunState ≠ 0
  nonempty : ∃ a, g.slot 0 = some a
  free : ∀ i a, g.slot i = some a → a.status = .enable ∧ a.first.isSome

theorem fresh_init (md5 : List UInt8 → List UInt8) {g : Rmc} (hr : g.rmcRunState ≠ 0)
    (core : LibrmcTime) (vstate : ℕ → ℕ) (times : ℕ → LibrmcTime × LibrmcTime) :
    Fresh (librmcInit md5 g core vstate times) := by
  have h := loaded_init md5 g core vstate times
  refine ⟨by rw [h.running]; exact hr, h.slot_of_lt (by norm_num [coreBits]), fun i a ha => ?_⟩
  obtain ⟨hst, hfirst, _, _⟩ := h.slot i a ha
  exact ⟨hst, hfirst⟩

namespace Sys

/-! ### What holds in every run -/

/-- No slot is ever `CRMC_FINAL`, and the slot of a request between its create and its select
is `CRMC_PROCESS`. -/
structure Inv (s : Sys) : Prop where
  running : s.rmc.rmcRunState ≠ 0
  notFinal : ∀ i, s.rmc.statusAt i ≠ some .final
  held : ∀ r i, s.phase r = .created i → s.rmc.statusAt i = some .process

theorem inv_start {g : Rmc} (hg : Fresh g) : (start g).Inv := by
  refine ⟨hg.running, fun i h => ?_, fun r i h => by cases h⟩
  obtain ⟨a, ha, hst⟩ := Option.map_eq_some_iff.mp h
  rw [(hg.free i a ha).1] at hst
  cases hst

/-- Without a `CRMC_FINAL` slot, `librmc_final` finds nothing and changes nothing. -/
theorem Inv.final_none {s : Sys} (hs : s.Inv) (code : Option (List UInt8)) :
    librmcFinal s.rmc code = (none, s.rmc) := by
  rcases librmcFinal_cases s.rmc code with h | ⟨i, a, ha, hf, _⟩
  · exact h
  · exact absurd (hf ▸ Rmc.statusAt_of_slot ha) (hs.notFinal i)

/-- A step that changes no status and brings no request into `created` keeps the invariant. -/
theorem Inv.of_status {s t : Sys} (hs : s.Inv) (hr : t.rmc.rmcRunState = s.rmc.rmcRunState)
    (hst : ∀ i, t.rmc.statusAt i = s.rmc.statusAt i)
    (hp : ∀ r i, t.phase r = .created i → s.phase r = .created i) : t.Inv :=
  ⟨hr ▸ hs.running, fun i => hst i ▸ hs.notFinal i, fun r i h => hst i ▸ hs.held r i (hp r i h)⟩

theorem phase_goto_created {s : Sys} {g : Rmc} {r q i : ℕ} {p : Phase} (hp : ∀ k, p ≠ .created k)
    (h : (s.goto g r p).phase q = .created i) : s.phase q = .created i := by
  by_cases hqr : q = r
  · subst hqr
    exact absurd (by simpa [goto] using h) (hp i)
  · simpa [goto, hqr] using h

/-- Storing `data` in a slot changes no status. -/
theorem statusAt_setCore (g : Rmc) (i j : ℕ) (data : Option CodePtr) :
    (g.setSlot i (fun a => { a with core := data })).statusAt j = g.statusAt j := by
  unfold Rmc.statusAt
  rw [Rmc.slot_setSlot]
  split_ifs <;> cases g.slot j <;> rfl

theorem inv_create {s t : Sys} (hs : s.Inv) (r : ℕ) (now : LibrmcTime)
    (h : s.step (.create r now) = some t) : t.Inv := by
  simp only [step] at h
  split_ifs at h
  rcases librmcCreate_cases s.rmc now with hc | ⟨i, a, ha, hst, _, hc⟩
  · rw [hc] at h
    obtain rfl := Option.some.inj h
    exact hs.of_status rfl (fun _ => rfl) (fun q i => phase_goto_created (by simp))
  · rw [hc] at h
    obtain rfl := Option.some.inj h
    have hat := Rmc.statusAt_of_slot ha
    refine ⟨hs.running, fun k => ?_, fun q k hq => ?_⟩
    · rw [goto, Rmc.statusAt_setSlot _ ha]
      split_ifs
      · simp
      · exact hs.notFinal k
    · rw [goto, Rmc.statusAt_setSlot _ ha]
      by_cases hqr : q = r
      · subst hqr
        obtain rfl : i = k := by simpa [goto] using hq
        simp
      · have hk := hs.held q k (by simpa [goto, hqr] using hq)
        -- the slot handed out was free, hence not the one that `q` holds
        have hik : i ≠ k := by
          rintro rfl
          rw [hat, hst] at hk
          cases hk
        rw [if_neg hik, hk]

theorem inv_select {s t : Sys} (hs : s.Inv) (r : ℕ) (data : Option CodePtr)
    (h : s.step (.select r data) = some t) : t.Inv := by
  simp only [step] at h
  split at h
  next i hr =>
      split at h
      next a ha =>
          rcases librmcSelect_cases s.rmc (s.rmc.codeStr a) data with hc | ⟨j, b, hb, _, _, _, hc⟩
          · rw [hc] at h
            obtain rfl := Option.some.inj h
            exact hs.of_status rfl (fun _ => rfl) (fun q i => phase_goto_created (by simp))
          · rw [hc] at h
            obtain rfl := Option.some.inj h
            exact hs.of_status rfl (fun k => statusAt_setCore s.rmc j k data)
              (fun q i => phase_goto_created (by simp))
      next => cases h
  next => cases h

theorem inv_final {s t : Sys} (hs : s.Inv) (r : ℕ) (h : s.step (.final r) = some t) : t.Inv := by
  simp only [step] at h
  split at h
  next i hr =>
      split at h
      next a ha =>
          rw [hs.final_none] at h
          obtain rfl := Option.some.inj h
          exact hs.of_status rfl (fun _ => rfl) (fun q i => phase_goto_created (by simp))
      next => cases h
  next => cases h

theorem inv_reap {s t : Sys} (hs : s.Inv) (h : s.step .reap = some t) : t.Inv := by
  simp only [step, hs.final_none] at h
  obtain rfl := Option.some.inj h
  exact hs

theorem inv_step (s : Sys) (a : Act) (t : Sys) (hs : s.Inv) (h : s.step a = some t) : t.Inv := by
  cases a with
  | create r now => exact inv_create hs r now h
  | select r data => exact inv_select hs r data h
  | final r => exact inv_final hs r h
  | reap => exact inv_reap hs h

/-- **A select breaks the life of its slot**: it always finds a slot, and leaves it in
`CRMC_PROCESS`. -/
theorem not_leaves_select {s t : Sys} (hs : s.Inv) (r : ℕ) (data : Option CodePtr)
    (h : s.step (.select r data) = some t) : ¬ s.Leaves (.select r data) t := by
  intro hl
  simp only [step] at h
  split at h
  next i hr =>
      split at h
      next a ha =>
          have hap : a.status = .process := by
            have := hs.held r i hr
            rw [Rmc.statusAt_of_slot ha] at this
            exact Option.some.inj this
          rcases librmcSelect_cases s.rmc (s.rmc.codeStr a) data with hc | ⟨j, b, hb, _, hst, _, hc⟩
          · -- the slot of `r` itself satisfies the condition of the loop
            obtain ⟨j, hj⟩ := Rmc.search_of_slot (p := fun b =>
              decide (s.rmc.codeStr b = s.rmc.codeStr a) && decide (b.status = .process))
              hs.running ha (by simp [hap])
            simp only [librmcSelect, hj, Prod.mk.injEq, reduceCtorEq, false_and] at hc
          · rw [hc] at h
            obtain rfl := Option.some.inj h
            have := hl i a j hr ha (by rw [hc])
            rw [goto, statusAt_setCore, Rmc.statusAt_of_slot hb, hst] at this
            cases this
      next => cases h
  next => cases h

/-! ### Runs without a select -/

/-- Without selects, requests are waiting, refused or holding a `CRMC_PROCESS` slot. -/
structure Waiting (s : Sys) : Prop where
  running : s.rmc.rmcRunState ≠ 0
  nonempty : ∃ a, s.rmc.slot 0 = some a
  timed : ∀ i a, s.rmc.slot i = some a → a.first.isSome
  phase : ∀ r, s.phase r = .idle ∨ s.phase r = .refused ∨ ∃ i, s.phase r = .created i
  owned : ∀ i st, s.rmc.statusAt i = some st → st = .enable ∨
    st = .process ∧ ∃ r, s.phase r = .created i

theorem waiting_start {g : Rmc} (hg : Fresh g) : (start g).Waiting := by
  refine ⟨hg.running, hg.nonempty, fun i a ha => (hg.free i a ha).2, fun r => .inl rfl, ?_⟩
  intro i st h
  obtain ⟨a, ha, rfl⟩ := Option.map_eq_some_iff.mp h
  exact .inl (hg.free i a ha).1

theorem Waiting.final_none {s : Sys} (hs : s.Waiting) (code : Option (List UInt8)) :
    librmcFinal s.rmc code = (none, s.rmc) := by
  rcases librmcFinal_cases s.rmc code with h | ⟨i, a, ha, hf, _⟩
  · exact h
  · rcases hs.owned i _ (Rmc.statusAt_of_slot ha) with h | ⟨h, _⟩ <;> rw [hf] at h <;> cases h

/-- When no request holds a slot, all slots are free and the first one can be handed out. -/
theorem Waiting.free {s : Sys} (hs : s.Waiting) (hall : s.AllFinalised) : s.Free := by
  have hfree : ∀ i st, s.rmc.statusAt i = some st → st = .enable := by
    intro i st h
    rcases hs.owned i st h with h | ⟨_, r, hr⟩
    · exact h
    · rcases hall r with h' | h' | h' <;> rw [hr] at h' <;> cases h'
  refine ⟨hfree, fun now => ?_⟩
  obtain ⟨a, ha⟩ := hs.nonempty
  have hst := hfree 0 _ (Rmc.statusAt_of_slot ha)
  obtain ⟨t, ht⟩ := Option.isSome_iff_exists.mp (hs.timed 0 a ha)
  have hsearch : s.rmc.search (fun a => a.status = .enable) = some 0 :=
    Rmc.search_eq_of_first hs.running ha (by simp [hst]) (fun j hj => absurd hj (Nat.not_lt_zero j))
  exact ⟨0, by simp [librmcCreate, hsearch, ha, ht]⟩

theorem waiting_create {s t : Sys} (hs : s.Waiting) (r : ℕ) (now : LibrmcTime)
    (h : s.step (.create r now) = some t) : t.Waiting := by
  simp only [step] at h
  split_ifs at h with hr
  have hother : ∀ g p q, q ≠ r → (s.goto g r p).phase q = s.phase q := fun g p q hq => by
    simp [goto, hq]
  rcases librmcCreate_cases s.rmc now with hc | ⟨i, a, ha, hst, _, hc⟩
  · rw [hc] at h
    obtain rfl := Option.some.inj h
    refine ⟨hs.running, hs.nonempty, hs.timed, fun q => ?_, fun i st hi => ?_⟩
    · by_cases hq : q = r
      · subst hq; exact .inr (.inl (by simp [goto]))
      · rw [hother _ _ q hq]; exact hs.phase q
    · rcases hs.owned i st hi with h | ⟨h, q, hq⟩
      · exact .inl h
      · have hqr : q ≠ r := by rintro rfl; rw [hr] at hq; cases hq
        exact .inr ⟨h, q, by rw [hother _ _ q hqr, hq]⟩
  · rw [hc] at h
    obtain rfl := Option.some.inj h
    refine ⟨hs.running, ?_, fun k b hb => ?_, fun q => ?_, fun k st hk => ?_⟩
    · obtain ⟨b, hb⟩ := hs.nonempty
      simp only [goto, Rmc.slot_setSlot, hb]
      split_ifs <;> simp
    · simp only [goto, Rmc.slot_setSlot] at hb
      split_ifs at hb
      · obtain ⟨b', _, rfl⟩ := Option.map_eq_some_iff.mp hb
        rfl
      · exact hs.timed k b hb
    · by_cases hq : q = r
      · subst hq; exact .inr (.inr ⟨i, by simp [goto]⟩)
      · rw [hother _ _ q hq]; exact hs.phase q
    · rw [goto, Rmc.statusAt_setSlot _ ha] at hk
      split_ifs at hk with hik
      · subst hik
        exact .inr ⟨(Option.some.inj hk).symm, r, by simp [goto]⟩
      · rcases hs.owned k st hk with h | ⟨h, q, hq⟩
        · exact .inl h
        · have hqr : q ≠ r := by rintro rfl; rw [hr] at hq; cases hq
          exact .inr ⟨h, q, by rw [hother _ _ q hqr, hq]⟩

theorem waiting_step (s : Sys) (a : Act) (t : Sys) (ha : ∀ r data, a ≠ .select r data)
    (hs : s.Waiting) (h : s.step a = some t) : t.Waiting := by
  cases a with
  | create r now => exact waiting_create hs r now h
  | select r data => exact absurd rfl (ha r data)
  | final r =>
      simp only [step] at h
      rcases hs.phase r with hr | hr | ⟨i, hr⟩ <;> rw [hr] at h <;> cases h
  | reap =>
      simp only [step, hs.final_none] at h
      obtain rfl := Option.some.inj h
      exact hs

theorem Waiting.leaves {s t : Sys} {a : Act} (hs : s.Waiting) (ha : ∀ r data, a ≠ .select r data) :
    s.Leaves a t := by
  cases a with
  | create r now => trivial
  | select r data => exact absurd rfl (ha r data)
  | final r =>
      intro i a hr
      rcases hs.phase r with h | h | ⟨k, h⟩ <;> rw [hr] at h <;> cases h
  | reap =>
      intro j hj
      rw [hs.final_none] at hj
      cases hj

end Sys

/-- Which runs keep the intended life of the slots. -/
theorem lifecycleOk_iff_no_select {g : Rmc} (hg : Fresh g) {tr : List (Sys × Act × Sys)} {u : Sys}
    (h : Run Sys.step (Sys.start g) tr u) :
    LifecycleOk tr u ↔ ∀ x ∈ tr, ∀ r data, x.2.1 ≠ .select r data := by
  constructor
  · intro hok x hx r data hsel
    obtain ⟨hinv, hst, _⟩ := h.at_step' Sys.inv_step (Sys.inv_start hg) x hx
    have hl := (hok.1 x hx).1
    rw [hsel] at hst hl
    exact Sys.not_leaves_select hinv r data hst hl
  · intro hns
    have hw := h.at_step Sys.waiting_step (Sys.waiting_start hg) hns
    refine ⟨fun x hx => ⟨(hw x hx).1.leaves (hns x hx), (hw x hx).1.free⟩, ?_⟩
    exact (h.invariant Sys.waiting_step (Sys.waiting_start hg) hns).free

/-- **Which runs keep the life of the slots.**  From the table that `librmc_init` builds, a run
of interleaved requests does so exactly when it contains no `librmc_select`. -/
theorem lifecycle_iff (md5 : List UInt8 → List UInt8) (g : Rmc) (hr : g.rmcRunState ≠ 0)
    (core : LibrmcTime) (vstate : ℕ → ℕ) (times : ℕ → LibrmcTime × LibrmcTime)
    (tr : List (Sys × Act × Sys)) (u : Sys)
    (h : Run Sys.step (Sys.start (librmcInit md5 g core vstate times)) tr u) :
    LifecycleOk tr u ↔ ∀ x ∈ tr, ∀ r data, x.2.1 ≠ .select r data :=
  lifecycleOk_iff_no_select (fresh_init md5 hr core vstate times) h

/-! ### One request -/

/-- On a fresh table `librmc_create` takes the first slot. -/
theorem Fresh.create_eq {g : Rmc} (hg : Fresh g) (now : LibrmcTime) :
    librmcCreate g now =
      (some 0, g.setSlot 0 fun a => { a with first := some now, status := .process }) := by
  obtain ⟨a, ha⟩ := hg.nonempty
  obtain ⟨hst, hfirst⟩ := hg.free 0 a ha
  obtain ⟨t, ht⟩ := Option.isSome_iff_exists.mp hfirst
  have hsearch : g.search (fun a => a.status = .enable) = some 0 :=
    Rmc.search_eq_of_first hg.running ha (by simp [hst])
      (fun j hj => absurd hj (Nat.not_lt_zero j))
  simp [librmcCreate, hsearch, ha, ht]

/-- On a fresh table a request gets the first slot. -/
theorem Sys.create_fresh {g : Rmc} (hg : Fresh g) (r : ℕ) (now : LibrmcTime) :
    ∃ t, (start g).step (.create r now) = some t ∧ t.phase r = .created 0 := by
  have hcreate := hg.create_eq now
  exact ⟨(start g).goto (librmcCreate g now).2 r (.created 0), by simp [step, start, hcreate],
    by simp [goto]⟩

/-- A request that holds a slot of the table can make its select. -/
theorem Sys.select_enabled {s : Sys} (hs : s.Inv) {r i : ℕ} (hr : s.phase r = .created i)
    (data : Option CodePtr) : ∃ t, s.step (.select r data) = some t := by
  have hp := hs.held r i hr
  unfold Rmc.statusAt at hp
  obtain ⟨a, ha, _⟩ := Option.map_eq_some_iff.mp hp
  simp only [step, hr, ha]
  cases hc : librmcSelect s.rmc (s.rmc.codeStr a) data with
  | mk o g' => cases o <;> exact ⟨_, rfl⟩

/-- `lifecycle_iff` on the run of one request that stops after its create. -/
theorem lifecycle_iff_create : ∃ (t : Sys) (tr : List (Sys × Act × Sys)),
    tr = [(Sys.start Rmc.zeroTable, .create 0 ⟨0, 0⟩, t)] ∧
    Run Sys.step (Sys.start Rmc.zeroTable) tr t ∧ LifecycleOk tr t := by
  have hg : Fresh Rmc.zeroTable := fresh_init md5Digest (by decide) _ _ _
  obtain ⟨t, ht, _⟩ := Sys.create_fresh hg 0 ⟨0, 0⟩
  have hiff := lifecycle_iff md5Digest Rmc.zero (by decide) ⟨0, 0⟩ (fun _ => 0)
    (fun _ => (⟨0, 0⟩, ⟨0, 0⟩)) [(Sys.start Rmc.zeroTable, .create 0 ⟨0, 0⟩, t)] t (Run.single ht)
  exact ⟨t, _, rfl, Run.single ht, hiff.mpr (by simp)⟩

/-- One request that makes its create and its select breaks the life of the slots. -/
theorem not_lifecycle_select : ∃ (t u : Sys) (tr : List (Sys × Act × Sys)),
    tr = [(Sys.start Rmc.zeroTable, .create 0 ⟨0, 0⟩, t), (t, .select 0 none, u)] ∧
    Run Sys.step (Sys.start Rmc.zeroTable) tr u ∧ ¬ LifecycleOk tr u := by
  have hg : Fresh Rmc.zeroTable := fresh_init md5Digest (by decide) _ _ _
  obtain ⟨t, ht, htp⟩ := Sys.create_fresh hg 0 ⟨0, 0⟩
  have htinv := Sys.inv_create (Sys.inv_start hg) 0 ⟨0, 0⟩ ht
  obtain ⟨u, hu⟩ := Sys.select_enabled htinv htp none
  refine ⟨t, u, _, rfl, .cons ht (.single hu), fun hok => ?_⟩
  have hlast := hok.1 (t, .select 0 none, u) (by simp)
  exact Sys.not_leaves_select htinv 0 none hu hlast.1

end Carroll
