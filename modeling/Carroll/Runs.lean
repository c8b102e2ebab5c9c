import Mathlib.Tactic

/-! # Runs of a partial step function

`Run step s tr t`: the actions recorded in the trace `tr`, taken one after the other from
`s`, lead to `t`.  A trace keeps, for every step, the state before it, the action and the
state after it, so that a property of a run can speak about each of its steps.  An action
that `step` maps to `none` is not enabled and takes part in no run.

`Run.invariant` and `Run.at_step` are the two rules used below, for runs whose steps all
meet a condition `P` on the state before the step and the action: what such steps preserve
holds in every state of the run, and every recorded step starts from a state satisfying the
invariant.  `Run.invariant'` and `Run.at_step'` are the case of no condition.

`Along step P s as` is a property of the actions themselves, for the run that they give.

`LoopEnds body s r` is a loop: `body` gives the state of the next round or what the loop leaves
behind.  `LoopEnds.of_rounds` is the rule for a loop whose rounds are known in advance. -/

namespace Carroll

variable {σ α : Type*} {step : σ → α → Option σ}

/-- Runs of `step` with their traces. -/
inductive Run (step : σ → α → Option σ) : σ → List (σ × α × σ) → σ → Prop
  | nil (s : σ) : Run step s [] s
  | cons {s t u : σ} {a : α} {tr : List (σ × α × σ)} :
      step s a = some t → Run step t tr u → Run step s ((s, a, t) :: tr) u

namespace Run

theorem at_step {P : σ → α → Prop} {I : σ → Prop}
    (hI : ∀ s a t, P s a → I s → step s a = some t → I t)
    {s t : σ} {tr : List (σ × α × σ)} (h : Run step s tr t) (hs : I s)
    (hP : ∀ x ∈ tr, P x.1 x.2.1) :
    ∀ x ∈ tr, I x.1 ∧ step x.1 x.2.1 = some x.2.2 ∧ I x.2.2 := by
  induction h with
  | nil s => intro x hx; cases hx
  | cons hst _ ih =>
      have hI' := hI _ _ _ (hP _ List.mem_cons_self) hs hst
      intro x hx
      rcases List.mem_cons.mp hx with rfl | hx
      · exact ⟨hs, hst, hI'⟩
      · exact ih hI' (fun y hy => hP y (List.mem_cons_of_mem _ hy)) x hx

theorem invariant {P : σ → α → Prop} {I : σ → Prop}
    (hI : ∀ s a t, P s a → I s → step s a = some t → I t)
    {s t : σ} {tr : List (σ × α × σ)} (h : Run step s tr t) (hs : I s)
    (hP : ∀ x ∈ tr, P x.1 x.2.1) : I t := by
  induction h with
  | nil s => exact hs
  | cons hst _ ih =>
      exact ih (hI _ _ _ (hP _ List.mem_cons_self) hs hst)
        (fun y hy => hP y (List.mem_cons_of_mem _ hy))

theorem at_step' {I : σ → Prop} (hI : ∀ s a t, I s → step s a = some t → I t)
    {s t : σ} {tr : List (σ × α × σ)} (h : Run step s tr t) (hs : I s) :
    ∀ x ∈ tr, I x.1 ∧ step x.1 x.2.1 = some x.2.2 ∧ I x.2.2 :=
  h.at_step (P := fun _ _ => True) (fun s a t _ => hI s a t) hs (fun _ _ => trivial)

theorem invariant' {I : σ → Prop} (hI : ∀ s a t, I s → step s a = some t → I t)
    {s t : σ} {tr : List (σ × α × σ)} (h : Run step s tr t) (hs : I s) : I t :=
  h.invariant (P := fun _ _ => True) (fun s a t _ => hI s a t) hs (fun _ _ => trivial)

/-- What one step of a run brings about and the steps keep holds at the end. -/
theorem settled {P : σ → α → Prop} {Q : σ → Prop}
    (hQ : ∀ s a t, P s a → Q s → step s a = some t → Q t)
    {s t : σ} {tr : List (σ × α × σ)} (h : Run step s tr t) (hP : ∀ x ∈ tr, P x.1 x.2.1)
    {x : σ × α × σ} (hx : x ∈ tr) (hxQ : Q x.2.2) : Q t := by
  induction h with
  | nil s => cases hx
  | cons hst hrun ih =>
      have hP' := fun y hy => hP y (List.mem_cons_of_mem _ hy)
      rcases List.mem_cons.mp hx with rfl | hx
      · exact hrun.invariant hQ hxQ hP'
      · exact ih hP' hx

theorem append {s t u : σ} {tr tr' : List (σ × α × σ)} (h : Run step s tr t)
    (h' : Run step t tr' u) : Run step s (tr ++ tr') u := by
  induction h with
  | nil s => exact h'
  | cons hst _ ih => exact cons hst (ih h')

theorem split {s u : σ} {tr tr' : List (σ × α × σ)} (h : Run step s (tr ++ tr') u) :
    ∃ t, Run step s tr t ∧ Run step t tr' u := by
  induction tr generalizing s with
  | nil => exact ⟨s, nil s, h⟩
  | cons x tr ih =>
      cases h with
      | cons hst h =>
          obtain ⟨t, h₁, h₂⟩ := ih h
          exact ⟨t, cons hst h₁, h₂⟩

theorem step_eq {s t : σ} {tr : List (σ × α × σ)} (h : Run step s tr t) :
    ∀ x ∈ tr, step x.1 x.2.1 = some x.2.2 :=
  fun x hx => (h.at_step' (I := fun _ => True) (fun _ _ _ _ _ => trivial) trivial x hx).2.1

theorem single {s t : σ} {a : α} (h : step s a = some t) : Run step s [(s, a, t)] t :=
  cons h (nil t)

end Run

/-- `P` holds of each of the actions `as`, taken one after the other from `s`, in the state before
it. -/
def Along (step : σ → α → Option σ) (P : σ → α → Prop) : σ → List α → Prop
  | _, [] => True
  | s, a :: as => P s a ∧ ∀ t, step s a = some t → Along step P t as

namespace Along
variable {P Q : σ → α → Prop} {I : σ → Prop}

/-- Two properties agree along every run when they agree in the states of an invariant that steps
with the first one keep. -/
theorem congr_of_invariant (hPQ : ∀ s a, I s → (P s a ↔ Q s a))
    (hI : ∀ s a t, I s → P s a → step s a = some t → I t) {s : σ} (hs : I s) (as : List α) :
    Along step P s as ↔ Along step Q s as := by
  induction as generalizing s with
  | nil => exact Iff.rfl
  | cons a as ih =>
      rw [Along, Along, ← hPQ s a hs]
      refine and_congr_right fun hP => forall_congr' fun t => ?_
      exact forall_congr' fun hst => ih (hI s a t hs hP hst)

/-- A property of the actions alone. -/
theorem iff_forall_mem {A : α → Prop} (hdef : ∀ s a, A a → ∃ t, step s a = some t) {s : σ}
    {as : List α} : Along step (fun _ a => A a) s as ↔ ∀ a ∈ as, A a := by
  induction as generalizing s with
  | nil => simp [Along]
  | cons a as ih =>
      rw [Along, List.forall_mem_cons]
      refine and_congr_right fun ha => ⟨fun h => ?_, fun h t _ => ih.mpr h⟩
      obtain ⟨t, ht⟩ := hdef s a ha
      exact ih.mp (h t ht)

/-- A property under which every step is defined holds along a run that exists. -/
theorem iff_exists_run (hdef : ∀ s a, P s a → ∃ t, step s a = some t) {s : σ} {as : List α} :
    Along step P s as ↔ ∃ tr t, Run step s tr t ∧ tr.map (·.2.1) = as ∧ ∀ x ∈ tr, P x.1 x.2.1 := by
  constructor
  · intro h
    induction as generalizing s with
    | nil => exact ⟨[], s, .nil s, rfl, by simp⟩
    | cons a as ih =>
        obtain ⟨hP, hrest⟩ := h
        obtain ⟨t, ht⟩ := hdef s a hP
        obtain ⟨tr, u, hrun, hmap, hall⟩ := ih (hrest t ht)
        exact ⟨_, u, .cons ht hrun, by rw [List.map_cons, hmap], List.forall_mem_cons.mpr ⟨hP, hall⟩⟩
  · rintro ⟨tr, t, hrun, rfl, hall⟩
    induction hrun with
    | nil s => trivial
    | cons hst _ ih =>
        obtain ⟨hP, hall⟩ := List.forall_mem_cons.mp hall
        refine ⟨hP, fun t' ht' => ?_⟩
        obtain rfl := Option.some.inj (hst.symm.trans ht')
        exact ih hall

end Along

/-- The loop over `body` that begins in `s` ends, and leaves `r`. -/
inductive LoopEnds {ρ : Type*} (body : σ → σ ⊕ ρ) : σ → ρ → Prop
  | stop {s : σ} {r : ρ} : body s = .inr r → LoopEnds body s r
  | next {s t : σ} {r : ρ} : body s = .inl t → LoopEnds body t r → LoopEnds body s r

namespace LoopEnds
variable {ρ : Type*} {body : σ → σ ⊕ ρ}

theorem unique {s : σ} {r r' : ρ} (h : LoopEnds body s r) (h' : LoopEnds body s r') : r' = r := by
  induction h with
  | stop hs =>
      cases h' with
      | stop hs' => exact Sum.inr.inj (hs'.symm.trans hs)
      | next hs' _ => cases hs.symm.trans hs'
  | next hs _ ih =>
      cases h' with
      | stop hs' => cases hs.symm.trans hs'
      | next hs' h' =>
          obtain rfl := Sum.inl.inj (hs.symm.trans hs')
          exact ih h'

theorem iff_eq {s : σ} {r r' : ρ} (h : LoopEnds body s r) : LoopEnds body s r' ↔ r' = r := by
  refine ⟨h.unique, ?_⟩
  rintro rfl
  exact h

/-- A loop that is in state `f k` before its round `k`, and ends in round `n`. -/
theorem of_rounds {f : ℕ → σ} {n : ℕ} {r : ρ} (hnext : ∀ k < n, body (f k) = .inl (f (k + 1)))
    (hstop : body (f n) = .inr r) : LoopEnds body (f 0) r := by
  induction n generalizing f with
  | zero => exact stop hstop
  | succ n ih =>
      refine next (hnext 0 (Nat.succ_pos n)) ?_
      exact ih (f := fun k => f (k + 1)) (fun k hk => hnext (k + 1) (Nat.succ_lt_succ hk)) hstop

end LoopEnds

end Carroll
