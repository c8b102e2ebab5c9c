import Carroll.Cor0
import Carroll.Runs

/-! # The store as a bag of requests

Seen from outside, the store of `cor0` is a bag: an update puts a request in, a result takes one
out.  `KeepsBag` says this of one control, `BagOk` of a whole run from the empty store, with the
balance of what was stored, what was handed out and what is left.

An update loses its request when no entry is free and an entry already has an equal code, its
`strcmp` may meet a NULL pointer, and a result that finds no request is reported as `1`; `Served`
excludes exactly these, and `cor0_bag_iff` says that the runs that behave as a bag are those whose
controls are all `Served`. -/

namespace Carroll

open CoreStack

/-- A control posted to `cor0`. -/
inductive Control where
  | update (mem : ℕ → List UInt8) (string : Option CargvStack)
  | result (string : Option CargvStack)

namespace Control

/-- The control on a loaded module and a given store. -/
def post (s : CoreStack) : Control → Option (ℕ × Option CoreStack × Option CargvStack)
  | update mem string => cor0FmodCtrl true mem (some true) (some s) .update string
  | result string => cor0FmodCtrl true (fun _ => []) (some true) (some s) .result string

/-- The store after the control; none where the control is undefined. -/
def step (s : CoreStack) (c : Control) : Option CoreStack := (c.post s).bind (·.2.1)

/-- The request that a control stores. -/
def stored : Control → Multiset Request
  | update _ (some v) => {v.request}
  | _ => 0

/-- The request that a control hands out: that of the returned cargv, if the store was not empty. -/
def handedOut (s : CoreStack) : Control → Multiset Request
  | result (some v) =>
      if pending s = 0 then 0
      else (((post s (result (some v))).bind (·.2.2)).elim 0 fun w => {w.request})
  | _ => 0

end Control

open Control

/-- The control behaves as an operation of a bag between the stores `s` and `t`. -/
def KeepsBag (s : CoreStack) (c : Control) (t : CoreStack) : Prop :=
  match c with
  | .update _ (some v) => pending t = v.request ::ₘ pending s
  | .update _ none => pending t = pending s
  | .result (some v) => ∃ ret out, c.post s = some (ret, some t, some out) ∧
      (pending s ≠ 0 → ∃ r, pending s = r ::ₘ pending t ∧
        out = { v with buffer := r.buffer, length := r.length, code := r.code }) ∧
      (pending s = 0 → pending t = 0 ∧ out = v) ∧
      (ret = 1 ↔ ∃ r, pending s = r ::ₘ pending t)
  | .result none => pending t = pending s ∧ (c.post s).map (·.1) = some 0

/-- The controls, posted one after the other to the empty store, are all defined and behave as
operations of a bag. -/
def BagOk (cs : List Control) : Prop :=
  ∃ tr u, Run step Counted.empty tr u ∧ tr.map (·.2.1) = cs ∧
    (∀ x ∈ tr, KeepsBag x.1 x.2.1 x.2.2) ∧
    pending u + (tr.map fun x => handedOut x.1 x.2.1).sum = (tr.map fun x => stored x.2.1).sum

/-- An update compares no NULL pointer and finds a free entry or a new code, a result finds a waiting
request. -/
def Served (s : CoreStack) : Control → Prop
  | .update mem (some v) => Comparable mem v.code s.visited ∧ (HasEmpty s ∨ ¬ HasCode mem s v.code)
  | .result (some _) => waiting s ≠ []
  | _ => True

theorem step_update {s : CoreStack} {mem : ℕ → List UInt8} {v : CargvStack} :
    step s (.update mem (some v)) = (c00LibmodUpdate true mem (some s) v).bind id := by
  show ((c00LibmodUpdate true mem (some s) v).map fun stack => (0, stack, some v)).bind _ = _
  cases c00LibmodUpdate true mem (some s) v <;> rfl

theorem keepsBag_update_iff {s t : CoreStack} {mem : ℕ → List UInt8} {v : CargvStack}
    (h : step s (.update mem (some v)) = some t) :
    KeepsBag s (.update mem (some v)) t ↔ Served s (.update mem (some v)) := by
  rw [step_update] at h
  obtain ⟨hcomp, hserved, t', ht', hpend, -⟩ | ⟨hcomp, hne, hcode, hs⟩ | ⟨-, hs⟩ :=
    c00LibmodUpdate_cases true mem s v
  · rw [ht'] at h
    obtain rfl : t' = t := Option.some.inj h
    exact ⟨fun _ => ⟨hcomp, hserved⟩, fun _ => hpend⟩
  · rw [hs] at h
    obtain rfl : s = t := Option.some.inj h
    refine ⟨fun hbag => ?_, fun hserved => ?_⟩
    · -- the request was lost: the bag would have to equal itself with one more element
      have hcard := congrArg Multiset.card hbag
      rw [Multiset.card_cons] at hcard
      omega
    · rcases hserved.2 with h | h
      · exact absurd h hne
      · rcases hcode with hcode | hfail
        · exact absurd hcode h
        · cases hfail
  · rw [hs] at h
    cases h

theorem keepsBag_result_iff {s t : CoreStack} {v : CargvStack}
    (h : step s (.result (some v)) = some t) :
    KeepsBag s (.result (some v)) t ↔ Served s (.result (some v)) := by
  have hpost : post s (.result (some v)) =
      some (1, (c00LibmodSelect (some s) (some v)).1, (c00LibmodSelect (some s) (some v)).2) := rfl
  rcases c00LibmodSelect_cases s v with ⟨r, t', hfirst, hpend, -, hsel⟩ | ⟨h0, hsel⟩
  · rw [step, hpost, hsel] at h
    obtain rfl : t' = t := Option.some.inj h
    rw [hsel] at hpost
    have hne : pending s ≠ 0 := by
      rw [hpend]
      exact Multiset.cons_ne_zero
    refine ⟨fun _ hnil => ?_, fun _ => ⟨1, _, hpost, fun _ => ⟨r, hpend, rfl⟩, ?_, ?_⟩⟩
    · rw [FirstPending, hnil] at hfirst
      cases hfirst
    · exact fun hzero => absurd hzero hne
    · exact ⟨fun _ => ⟨r, hpend⟩, fun _ => rfl⟩
  · rw [step, hpost, hsel] at h
    obtain rfl : s = t := Option.some.inj h
    refine ⟨?_, fun hne => absurd h0 hne⟩
    rintro ⟨ret, out, hout, -, -, hret⟩
    rw [hpost, hsel] at hout
    obtain ⟨rfl, -⟩ := Prod.mk.inj (Option.some.inj hout)
    -- the control returns `1` although nothing was taken out
    obtain ⟨r, hr⟩ := hret.mp rfl
    have hcard := congrArg Multiset.card hr
    rw [Multiset.card_cons] at hcard
    omega

/-- **One control**: it behaves as an operation of a bag exactly when it is served. -/
theorem keepsBag_iff_served {s t : CoreStack} {c : Control} (h : step s c = some t) :
    KeepsBag s c t ↔ Served s c := by
  cases c with
  | update mem string =>
      cases string with
      | none =>
          obtain rfl : s = t := Option.some.inj h
          exact ⟨fun _ => trivial, fun _ => rfl⟩
      | some v => exact keepsBag_update_iff h
  | result string =>
      cases string with
      | none =>
          obtain rfl : s = t := Option.some.inj h
          exact ⟨fun _ => trivial, fun _ => ⟨rfl, rfl⟩⟩
      | some v => exact keepsBag_result_iff h

/-- A control that is served is defined. -/
theorem Served.defined {s : CoreStack} {c : Control} (h : Served s c) : ∃ t, step s c = some t := by
  cases c with
  | update mem string =>
      cases string with
      | none => exact ⟨s, rfl⟩
      | some v =>
          rw [step_update]
          obtain ⟨-, -, t, ht, -⟩ | ⟨-, -, -, ht⟩ | ⟨hcomp, -⟩ := c00LibmodUpdate_cases true mem s v
          · exact ⟨t, by rw [ht]; rfl⟩
          · exact ⟨s, by rw [ht]; rfl⟩
          · exact absurd h.1 hcomp
  | result string =>
      cases string with
      | none => exact ⟨s, rfl⟩
      | some v =>
          rcases c00LibmodSelect_cases s v with ⟨r, t, -, -, -, hsel⟩ | ⟨h0, -⟩
          · exact ⟨t, congrArg Prod.fst hsel⟩
          · exact absurd h0 h

/-- The balance of one control. -/
theorem KeepsBag.balance {s t : CoreStack} {c : Control} (h : KeepsBag s c t) :
    pending t + handedOut s c = pending s + stored c := by
  cases c with
  | update mem string =>
      cases string with
      | none =>
          have hpend : pending t = pending s := h
          simp [handedOut, stored, hpend]
      | some v =>
          have hpend : pending t = v.request ::ₘ pending s := h
          have hin : stored (update mem (some v)) = {v.request} := rfl
          have hout : handedOut s (update mem (some v)) = 0 := rfl
          rw [hpend, hin, hout, add_zero, add_comm, Multiset.singleton_add]
  | result string =>
      cases string with
      | none =>
          have hpend : pending t = pending s := h.1
          simp [handedOut, stored, hpend]
      | some v =>
          obtain ⟨ret, out, hpost, hsome, hnone, -⟩ := h
          by_cases h0 : pending s = 0
          · simp [handedOut, stored, h0, (hnone h0).1]
          · obtain ⟨r, hr, rfl⟩ := hsome h0
            have hgiven : handedOut s (result (some v)) = {r} := by
              rw [handedOut, if_neg h0, hpost]
              rfl
            have hin : stored (result (some v)) = 0 := rfl
            rw [hgiven, hin, add_zero, hr, add_comm, Multiset.singleton_add]

/-- The balance of a run. -/
theorem run_balance {s u : CoreStack} {tr : List (CoreStack × Control × CoreStack)}
    (h : Run step s tr u) (hbag : ∀ x ∈ tr, KeepsBag x.1 x.2.1 x.2.2) :
    pending u + (tr.map fun x => handedOut x.1 x.2.1).sum =
      pending s + (tr.map fun x => stored x.2.1).sum := by
  induction h with
  | nil s => rfl
  | @cons s t u c tr _ _ ih =>
      have hone := (hbag (s, c, t) List.mem_cons_self).balance
      have hrest := ih fun x hx => hbag x (List.mem_cons_of_mem _ hx)
      simp only [List.map_cons, List.sum_cons]
      calc pending u + (handedOut s c + (tr.map fun x => handedOut x.1 x.2.1).sum)
          = (pending u + (tr.map fun x => handedOut x.1 x.2.1).sum) + handedOut s c := by abel
        _ = (pending t + handedOut s c) + (tr.map fun x => stored x.2.1).sum := by
            rw [hrest]; abel
        _ = pending s + (stored c + (tr.map fun x => stored x.2.1).sum) := by
            rw [hone]; abel

/-- The controls of a run behave as a bag when they are all served. -/
theorem bagOk_iff_run {cs : List Control} : BagOk cs ↔ ∃ tr u, Run step Counted.empty tr u ∧
    tr.map (·.2.1) = cs ∧ ∀ x ∈ tr, Served x.1 x.2.1 := by
  refine exists_congr fun tr => exists_congr fun u => and_congr_right fun hrun => ?_
  refine and_congr_right fun _ => ?_
  have hall : (∀ x ∈ tr, KeepsBag x.1 x.2.1 x.2.2) ↔ ∀ x ∈ tr, Served x.1 x.2.1 :=
    forall₂_congr fun x hx => keepsBag_iff_served (hrun.step_eq x hx)
  refine ⟨fun hok => hall.mp hok.1, fun hserved => ⟨hall.mpr hserved, ?_⟩⟩
  have hbalance := run_balance hrun (hall.mpr hserved)
  rwa [pending_empty, zero_add] at hbalance

/-- **Which runs behave as a bag.** -/
theorem cor0_bag_iff (cs : List Control) : BagOk cs ↔ Along step Served Counted.empty cs :=
  bagOk_iff_run.trans (Along.iff_exists_run fun _ _ h => h.defined).symm

/-- A request `k` with its own buffer, of length `5`. -/
def sampleArgv (k : ℕ) : CargvStack := ⟨some k, 5, some 100, none⟩

/-- Two updates with one code in a row: the second request is lost. -/
theorem not_bag_same_code : ¬ BagOk [.update (fun _ => []) (some (sampleArgv 1)),
    .update (fun _ => []) (some (sampleArgv 2))] := by
  intro hok
  have hserved := (Along.iff_exists_run fun _ _ h => Served.defined h).mpr (bagOk_iff_run.mp hok)
  -- the store after the first update has one entry, taken, with this code
  obtain ⟨-, hempty | hcode⟩ := (hserved.2 _ rfl).1
  · obtain ⟨a, ha, hst⟩ := hempty
    obtain rfl : a = .holding (sampleArgv 1).request := List.mem_singleton.mp ha
    cases hst
  · exact hcode ⟨.holding (sampleArgv 1).request, List.mem_singleton_self _, 100, 100, rfl, rfl, rfl⟩

end Carroll
