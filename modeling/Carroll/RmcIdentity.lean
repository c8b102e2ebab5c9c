import Carroll.Rmc
import Carroll.Runs

/-! # Slots and their codes

A slot is meant to be known by its code: `librmc_update` computes the code from the slot's
name, and `librmc_select` finds the slot again by comparing code strings.  The code is a
pointer into the ten static buffers of `cdigest`, so the slots whose numbers agree modulo ten
share one buffer, whose content is that of the last call of `cdigest` that was given it.

`Rmc.act` takes the calls that follow `librmc_init`, in any order and with any arguments.
None of them moves a code pointer (`Keeps`), so the sharing set up by `librmc_init` lasts for
the whole run (`Shared`): the codes of slots 0 and 10 are never different, and a slot returned
by `librmc_create` is found again exactly when no earlier `CRMC_PROCESS` slot shows the same
string (`selectOwn_iff`). -/

namespace Carroll

/-- A call made after `librmc_init`; `digest` is a call of `cdigest` from elsewhere. -/
inductive TableAct where
  | create (now : LibrmcTime)
  | select (code : List UInt8) (data : Option CodePtr)
  | final (code : Option (List UInt8))
  | find (code randS : ℕ) (now now' : LibrmcTime)
  | digest (p : List UInt8)

namespace Rmc

/-- The table after one call. -/
def act (g : Rmc) : TableAct → Option Rmc
  | .create now => some (librmcCreate g now).2
  | .select code data => some (librmcSelect g code data).2
  | .final code => some (librmcFinal g code).2
  | .find code randS now now' => some (librmcFind g code randS now now').2
  | .digest p => some { g with digests := (cdigest g.digests p 16).2 }

/-! ### Code pointers stay where they are -/

/-- From `a` to `a'` the code pointer stays, and the start time stays allocated. -/
def KeepsSlot (a a' : LibrmcAddr) : Prop :=
  a'.code = a.code ∧ (a.first.isSome → a'.first.isSome)

/-- From `g` to `g'` the run state stays, and every slot keeps its code pointer. -/
structure Keeps (g g' : Rmc) : Prop where
  running : g'.rmcRunState = g.rmcRunState
  slot : ∀ i, Option.Rel KeepsSlot (g.slot i) (g'.slot i)

theorem KeepsSlot.refl (a : LibrmcAddr) : KeepsSlot a a := ⟨rfl, id⟩

theorem Keeps.of_slot {g g' : Rmc} (hr : g'.rmcRunState = g.rmcRunState)
    (h : ∀ i, g'.slot i = g.slot i) : Keeps g g' := by
  refine ⟨hr, fun i => ?_⟩
  rw [h i]
  exact rel_refl KeepsSlot.refl _

theorem Keeps.refl (g : Rmc) : Keeps g g := .of_slot rfl fun _ => rfl

theorem KeepsSlot.trans {a b c : LibrmcAddr} (h : KeepsSlot a b) (h' : KeepsSlot b c) :
    KeepsSlot a c := ⟨h'.1.trans h.1, fun hf => h'.2 (h.2 hf)⟩

theorem Keeps.trans {g g' g'' : Rmc} (h : Keeps g g') (h' : Keeps g' g'') : Keeps g g'' := by
  refine ⟨h'.running.trans h.running, fun i => ?_⟩
  exact rel_trans (R := KeepsSlot) (fun _ _ _ => KeepsSlot.trans) (h.slot i) (h'.slot i)

theorem keeps_setSlot (g : Rmc) (i : ℕ) {f : LibrmcAddr → LibrmcAddr}
    (hf : ∀ a, KeepsSlot a (f a)) : Keeps g (g.setSlot i f) :=
  ⟨rfl, rel_setSlot KeepsSlot.refl g i hf⟩

theorem keeps_create (g : Rmc) (now : LibrmcTime) : Keeps g (librmcCreate g now).2 := by
  rcases librmcCreate_cases g now with h | ⟨i, a, _, _, _, h⟩
  · rw [h]
    exact Keeps.refl g
  · rw [h]
    exact keeps_setSlot g i fun a => ⟨rfl, fun _ => rfl⟩

theorem keeps_select (g : Rmc) (code : List UInt8) (data : Option CodePtr) :
    Keeps g (librmcSelect g code data).2 := by
  rcases librmcSelect_cases g code data with h | ⟨i, a, _, _, _, _, h⟩
  · rw [h]
    exact Keeps.refl g
  · rw [h]
    exact keeps_setSlot g i fun a => ⟨rfl, id⟩

theorem keeps_final (g : Rmc) (code : Option (List UInt8)) : Keeps g (librmcFinal g code).2 := by
  rcases librmcFinal_cases g code with h | ⟨i, a, _, _, h⟩
  · rw [h]
    exact Keeps.refl g
  · rw [h]
    exact keeps_setSlot g i fun a => ⟨rfl, id⟩

theorem keeps_timeout (first now : LibrmcTime) (a : LibrmcAddr) :
    KeepsSlot a (a.timeout first now) := by
  unfold LibrmcAddr.timeout
  split_ifs
  · exact ⟨rfl, id⟩
  · exact KeepsSlot.refl a

/-- Changing the counters and the time of the stack touches no slot. -/
theorem keeps_stack (g : Rmc) (f : LibrmcStack → LibrmcStack) (hf : ∀ s, (f s).slots = s.slots) :
    Keeps g { g with sptrCore := g.sptrCore.map f } :=
  .of_slot rfl fun i => slot_stack g hf i

theorem keeps_find (g : Rmc) (code randS : ℕ) (now now' : LibrmcTime) :
    Keeps g (librmcFind g code randS now now').2 := by
  apply librmcFind_rel (R := Keeps) Keeps.refl fun _ _ _ => Keeps.trans
  · exact fun g vstate => keeps_stack g _ fun _ => rfl
  · exact fun g core => keeps_stack g _ fun _ => rfl
  · exact fun g i randS => keeps_setSlot g i fun a => ⟨rfl, id⟩
  · exact fun g i first now => keeps_setSlot g i (keeps_timeout first now)
  · intro g i
    refine keeps_setSlot g i fun a => ?_
    split_ifs <;> exact ⟨rfl, id⟩

theorem keeps_act {g g' : Rmc} {a : TableAct} (h : g.act a = some g') : Keeps g g' := by
  cases a <;> obtain rfl := Option.some.inj h
  · exact keeps_create g _
  · exact keeps_select g _ _
  · exact keeps_final g _
  · exact keeps_find g _ _ _ _
  · exact .of_slot rfl fun _ => rfl

/-! ### Shared buffers -/

/-- The table as `librmc_init` lays it out over the code buffers, the next one being `b`. -/
structure Shared (b : CodePtr) (g : Rmc) : Prop where
  running : g.rmcRunState ≠ 0
  slot_of_lt : ∀ i < coreBits, ∃ a, g.slot i = some a
  code : ∀ i a, g.slot i = some a → a.code = Fin.ofNat 10 (b.val + i)
  first : ∀ i a, g.slot i = some a → a.first.isSome

theorem shared_init (md5 : List UInt8 → List UInt8) {g : Rmc} (hr : g.rmcRunState ≠ 0)
    (core : LibrmcTime) (vstate : ℕ → ℕ) (times : ℕ → LibrmcTime × LibrmcTime) :
    Shared g.digests.bnum (librmcInit md5 g core vstate times) := by
  have h := loaded_init md5 g core vstate times
  exact ⟨by rw [h.running]; exact hr, fun i hi => h.slot_of_lt hi,
    fun i a ha => (h.slot i a ha).2.2.2, fun i a ha => (h.slot i a ha).2.1⟩

theorem Shared.keeps {b : CodePtr} {g g' : Rmc} (hg : Shared b g) (h : Keeps g g') :
    Shared b g' := by
  have hback : ∀ i a', g'.slot i = some a' → ∃ a, g.slot i = some a ∧ KeepsSlot a a' := by
    intro i a' ha'
    have hi := h.slot i
    rw [ha'] at hi
    cases hs : g.slot i with
    | none => rw [hs] at hi; cases hi
    | some a => rw [hs] at hi; cases hi with | some hk => exact ⟨a, rfl, hk⟩
  refine ⟨h.running ▸ hg.running, fun i hi => ?_, fun i a' ha' => ?_, fun i a' ha' => ?_⟩
  · obtain ⟨a, ha⟩ := hg.slot_of_lt i hi
    have hrel := h.slot i
    rw [ha] at hrel
    cases hs : g'.slot i with
    | none => rw [hs] at hrel; cases hrel
    | some a' => exact ⟨a', rfl⟩
  · obtain ⟨a, ha, hk⟩ := hback i a' ha'
    rw [hk.1, hg.code i a ha]
  · obtain ⟨a, ha, hk⟩ := hback i a' ha'
    exact hk.2 (hg.first i a ha)

theorem Shared.act {b : CodePtr} (g : Rmc) (a : TableAct) (g' : Rmc) (hg : Shared b g)
    (h : g.act a = some g') : Shared b g' :=
  hg.keeps (keeps_act h)

/-- Slots whose numbers agree modulo ten show the same string. -/
theorem Shared.codeStr_eq {b : CodePtr} {g : Rmc} (hg : Shared b g) {i j : ℕ} {a a' : LibrmcAddr}
    (ha : g.slot i = some a) (ha' : g.slot j = some a') (hij : i % 10 = j % 10) :
    g.codeStr a = g.codeStr a' := by
  unfold codeStr
  rw [hg.code i a ha, hg.code j a' ha']
  congr 1
  apply Fin.ext
  simp only [Fin.ofNat]
  omega

/-! ### What a code is for -/

/-- Every slot shows the code that `librmc_update` computed for it. -/
def CodesKept (md5 : List UInt8 → List UInt8) (name : ℕ → List UInt8) (g : Rmc) : Prop :=
  ∀ i a, g.slot i = some a → g.codeStr a = hexes ((md5 (name i)).take 8)

/-- Different slots show different codes. -/
def CodesDistinct (g : Rmc) : Prop :=
  ∀ i j a b, g.slot i = some a → g.slot j = some b → i ≠ j → g.codeStr a ≠ g.codeStr b

/-- A slot just returned by `librmc_create` is the one that `librmc_select` finds by its code, and
the only one whose `core` is written. -/
def SelectOwn (g : Rmc) : Prop :=
  ∀ now data i g', librmcCreate g now = (some i, g') → ∀ a, g'.slot i = some a →
    (librmcSelect g' (g'.codeStr a) data).1 = some i ∧
    ∀ j b, g'.slot j = some b →
      (librmcSelect g' (g'.codeStr a) data).2.slot j =
        some (if j = i then { b with core := data } else b)

/-- The three together: a slot is known by its code. -/
def SlotIdentity (md5 : List UInt8 → List UInt8) (name : ℕ → List UInt8) (g : Rmc) : Prop :=
  CodesKept md5 name g ∧ CodesDistinct g ∧ SelectOwn g

/-- `i` is the slot that `librmc_create` hands out next. -/
def NextFree (g : Rmc) (i : ℕ) : Prop :=
  (∃ a, g.slot i = some a ∧ a.status = .enable) ∧
    ∀ j < i, ∀ b, g.slot j = some b → b.status ≠ .enable

/-- No `CRMC_PROCESS` slot before the next free one shows the same code. -/
def NextUnshadowed (g : Rmc) : Prop :=
  ∀ i, NextFree g i → ∀ a, g.slot i = some a →
    ∀ j < i, ∀ b, g.slot j = some b → b.status = .process → g.codeStr b ≠ g.codeStr a

theorem Shared.not_codesDistinct {b : CodePtr} {g : Rmc} (hg : Shared b g) : ¬ CodesDistinct g := by
  intro h
  obtain ⟨a, ha⟩ := hg.slot_of_lt 0 (by norm_num [coreBits])
  obtain ⟨a', ha'⟩ := hg.slot_of_lt 10 (by norm_num [coreBits])
  exact h 0 10 a a' ha ha' (by norm_num) (hg.codeStr_eq ha ha' rfl)

/-- The names of slots 0 and 10 differ in the digit after `/sysd/rmc`. -/
theorem slotName_zero_ne_ten (hex hex' : ℕ) :
    slotName (devName 0) hex 0 ≠ slotName (devName 10) hex' 10 := by
  intro h
  have h9 := congrArg (fun l : List UInt8 => l[9]?) h
  have e0 : devName 0 = [0x2f, 0x73, 0x79, 0x73, 0x64, 0x2f, 0x72, 0x6d, 0x63, 0x30] := by decide
  have e10 : devName 10 = [0x2f, 0x73, 0x79, 0x73, 0x64, 0x2f, 0x72, 0x6d, 0x63, 0x31, 0x30] := by
    decide
  simp [slotName, e0, e10] at h9

/-- As long as the MD5 prefixes of the names of slots 0 and 10 differ, one of the two slots shows
the code of another slot. -/
theorem Shared.not_codesKept {b : CodePtr} {g : Rmc} (hg : Shared b g)
    {md5 : List UInt8 → List UInt8} {name : ℕ → List UInt8}
    (h : (md5 (name 0)).take 8 ≠ (md5 (name 10)).take 8) : ¬ CodesKept md5 name g := by
  intro hk
  obtain ⟨a, ha⟩ := hg.slot_of_lt 0 (by norm_num [coreBits])
  obtain ⟨a', ha'⟩ := hg.slot_of_lt 10 (by norm_num [coreBits])
  have hstr := hg.codeStr_eq ha ha' rfl
  rw [hk 0 a ha, hk 10 a' ha'] at hstr
  exact h (hexes_injective hstr)

/-- While every start time is allocated, `librmc_create` hands out the next free slot. -/
theorem Shared.create_eq {b : CodePtr} {g : Rmc} (hg : Shared b g) {i : ℕ} (h : NextFree g i)
    (now : LibrmcTime) : librmcCreate g now =
      (some i, g.setSlot i (fun a => { a with first := some now, status := .process })) := by
  obtain ⟨⟨a, ha, hst⟩, hlt⟩ := h
  have hsearch : g.search (fun a => a.status = .enable) = some i :=
    search_eq_of_first hg.running ha (by simp [hst]) fun j hj b hb => by simpa using hlt j hj b hb
  obtain ⟨t, ht⟩ := Option.isSome_iff_exists.mp (hg.first i a ha)
  simp [librmcCreate, hsearch, ha, ht]

theorem nextFree_of_create {g g' : Rmc} {now : LibrmcTime} {i : ℕ}
    (h : librmcCreate g now = (some i, g')) :
    NextFree g i ∧
      g' = g.setSlot i (fun a => { a with first := some now, status := .process }) := by
  rcases librmcCreate_cases g now with hc | ⟨k, a, ha, hst, hlt, hc⟩
  · rw [hc] at h
    cases h
  · rw [hc, Prod.mk.injEq] at h
    obtain ⟨hk, rfl⟩ := h
    obtain rfl := Option.some.inj hk
    exact ⟨⟨⟨a, ha, hst⟩, hlt⟩, rfl⟩

/-- Which slots `librmc_select` can find after the create: those shown with the code of slot `i`
and in `CRMC_PROCESS`, slot `i` among them. -/
theorem select_after_create {g : Rmc} (hr : g.rmcRunState ≠ 0) {i : ℕ} {a : LibrmcAddr}
    (ha : g.slot i = some a) (hst : a.status = .process) (data : Option CodePtr) :
    ((librmcSelect g (g.codeStr a) data).1 = some i ↔
      ∀ j < i, ∀ b, g.slot j = some b → b.status = .process → g.codeStr b ≠ g.codeStr a) := by
  constructor
  · intro h j hj b hb hbst hcode
    rcases librmcSelect_cases g (g.codeStr a) data with hc | ⟨k, c, _, _, _, hlt, hc⟩
    · rw [hc] at h
      cases h
    · rw [hc] at h
      obtain rfl := Option.some.inj h
      exact hlt j hj b hb ⟨hcode, hbst⟩
  · intro h
    have hsearch : g.search (fun b =>
        decide (g.codeStr b = g.codeStr a) && decide (b.status = .process)) = some i := by
      refine search_eq_of_first hr ha (by simp [hst]) fun j hj b hb => ?_
      by_cases hbst : b.status = .process
      · simp [h j hj b hb hbst]
      · simp [hbst]
    simp [librmcSelect, hsearch]

/-- **When a select finds the slot just created.** -/
theorem Shared.selectOwn_iff {b : CodePtr} {g : Rmc} (hg : Shared b g) :
    SelectOwn g ↔ NextUnshadowed g := by
  constructor
  · intro hown i hi a ha j hj b hb hbst
    have hc := hg.create_eq hi ⟨0, 0⟩
    have ha' := slot_setSlot_self (fun a => { a with first := some ⟨0, 0⟩, status := .process }) ha
    have hsel := (hown ⟨0, 0⟩ none i _ hc _ ha').1
    exact (select_after_create (by exact hg.running) ha' rfl none).mp hsel j hj b
      ((slot_setSlot_ne g _ (by omega)).trans hb) hbst
  · intro hun now data i g' hc a' ha'
    obtain ⟨hi, rfl⟩ := nextFree_of_create hc
    obtain ⟨a, ha, _⟩ := hi.1
    have hset := slot_setSlot_self (fun a => { a with first := some now, status := .process }) ha
    obtain rfl := Option.some.inj (hset.symm.trans ha')
    -- below slot `i` the create changed nothing
    have hsel := (select_after_create (by exact hg.running) hset rfl data).mpr
      fun j hj b hb => hun i hi a ha j hj b ((slot_setSlot_ne g _ (by omega)).symm.trans hb)
    refine ⟨hsel, fun j b hb => ?_⟩
    rcases librmcSelect_cases _ _ data with h | ⟨k, _, _, _, _, _, h⟩
    · rw [h] at hsel
      cases hsel
    · rw [h] at hsel ⊢
      obtain rfl := Option.some.inj hsel
      rw [slot_setSlot, hb]
      by_cases hjk : k = j
      · rw [if_pos hjk, if_pos hjk.symm]
        rfl
      · rw [if_neg hjk, if_neg (Ne.symm hjk)]

end Rmc

/-- **Slots are not known by their codes.**  In every state reached from the table that
`librmc_init` builds, two slots show the same code; when the MD5 prefixes of the names differ,
a slot shows a code that is not its own; and a select finds the slot just created exactly when
no earlier `CRMC_PROCESS` slot shows the same code. -/
theorem slot_identity_never (md5 : List UInt8 → List UInt8) (g : Rmc) (hr : g.rmcRunState ≠ 0)
    (core : LibrmcTime) (vstate : ℕ → ℕ) (times : ℕ → LibrmcTime × LibrmcTime)
    (tr : List (Rmc × TableAct × Rmc)) (u : Rmc)
    (h : Run Rmc.act (librmcInit md5 g core vstate times) tr u) :
    let name := initName md5 times (librmcEmpty g core vstate)
    ¬ u.SlotIdentity md5 name ∧ ¬ u.CodesDistinct ∧
    (Set.InjOn (fun n => (md5 n).take 8) (name '' Set.Iio coreBits) → ¬ u.CodesKept md5 name) ∧
    (u.SelectOwn ↔ u.NextUnshadowed) := by
  intro name
  have hu := h.invariant' Rmc.Shared.act (Rmc.shared_init md5 hr core vstate times)
  refine ⟨fun hid => hu.not_codesDistinct hid.2.1, hu.not_codesDistinct, fun hinj => ?_,
    hu.selectOwn_iff⟩
  refine hu.not_codesKept fun heq => ?_
  have hmem : ∀ i < coreBits, name i ∈ name '' Set.Iio coreBits := fun i hi => ⟨i, hi, rfl⟩
  have := hinj (hmem 0 (by norm_num [coreBits])) (hmem 10 (by norm_num [coreBits])) heq
  exact Rmc.slotName_zero_ne_ten _ _ this

/-- `slot_identity_never` on the table before the first call. -/
theorem slot_identity_never_zeroTable :
    ¬ Rmc.zeroTable.CodesDistinct ∧ Rmc.zeroTable.SelectOwn := by
  have h := slot_identity_never md5Digest Rmc.zero (by decide) ⟨0, 0⟩ (fun _ => 0)
    (fun _ => (⟨0, 0⟩, ⟨0, 0⟩)) [] Rmc.zeroTable (.nil _)
  refine ⟨h.2.1, h.2.2.2.mpr fun i hi a ha j hj b hb hst => ?_⟩
  -- every slot is free, so the next one is the first
  have hfree := (loaded_init md5Digest Rmc.zero ⟨0, 0⟩ (fun _ => 0)
    (fun _ => (⟨0, 0⟩, ⟨0, 0⟩))).slot j b hb
  exact absurd hfree.1 (hi.2 j hj b hb)

/-- With the MD5 of `md5.c`, slot 0 or slot 10 of this table shows a code that is not its own, and
the two show the same one. -/
theorem zeroTable_codes_mixed :
    let name := initName md5Digest (fun _ => (⟨0, 0⟩, ⟨0, 0⟩)) (librmcEmpty Rmc.zero ⟨0, 0⟩ fun _ => 0)
    ¬ Rmc.zeroTable.SlotIdentity md5Digest name ∧ ¬ Rmc.zeroTable.CodesKept md5Digest name ∧
    ∃ a b, Rmc.zeroTable.slot 0 = some a ∧ Rmc.zeroTable.slot 10 = some b ∧
      Rmc.zeroTable.codeStr a = Rmc.zeroTable.codeStr b := by
  have hg := Rmc.shared_init md5Digest (g := Rmc.zero) (by decide) ⟨0, 0⟩ (fun _ => 0)
    (fun _ => (⟨0, 0⟩, ⟨0, 0⟩))
  intro name
  have hkept : ¬ Rmc.zeroTable.CodesKept md5Digest name := hg.not_codesKept (by decide +kernel)
  refine ⟨fun hid => hkept hid.1, hkept, ?_⟩
  obtain ⟨a, ha⟩ := hg.slot_of_lt 0 (by norm_num [coreBits])
  obtain ⟨b, hb⟩ := hg.slot_of_lt 10 (by norm_num [coreBits])
  exact ⟨a, b, ha, hb, hg.codeStr_eq ha hb rfl⟩

end Carroll
