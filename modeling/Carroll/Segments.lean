import Mathlib.Tactic

/-! # Cutting a stream into segments

A stream of chunks, each of them active or not, is cut into segments.  A segment opens at an
active chunk when none is open and takes every active chunk that follows; it is closed by the
chunk that brings it to `limit` chunks, or by the first inactive one, which is its last part.
Inactive chunks that arrive while no segment is open are dropped.

`segments` gives the closed segments and the open one.  What the segments hold, in order, is what
was kept (`segments_flatten`), every active chunk is kept (`filter_segments`), and all but the last
chunk of a closed segment are active, at most `limit` in all (`segments_shape`, `Closed.length_le`). -/

namespace Carroll

namespace Segments
variable {α : Type*} (active : α → Bool) (limit : ℕ)

/-- The arrival of one chunk: the open segment afterwards (`[]` when none is open), and the
segment that was closed. -/
def arrive (opened : List α) (a : α) : List α × Option (List α) :=
  if active a then
    if opened = [] then ([a], none)
    else if limit ≤ opened.length + 1 then ([], some (opened ++ [a]))
    else (opened ++ [a], none)
  else if opened = [] then ([], none)
  else ([], some (opened ++ [a]))

/-- The segments closed by a stream of chunks, and the one that is open in the end. -/
def segments : List α → List α → List (List α) × List α
  | opened, [] => ([], opened)
  | opened, a :: l =>
      let r := segments (arrive active limit opened a).1 l
      ((arrive active limit opened a).2.toList ++ r.1, r.2)

/-- The chunks that are not dropped. -/
def kept : List α → List α → List α
  | _, [] => []
  | opened, a :: l =>
      (if active a ∨ opened ≠ [] then [a] else []) ++ kept (arrive active limit opened a).1 l

variable {active limit}

/-- A chunk is dropped, stays in the open segment, or closes it. -/
theorem arrive_cases (opened : List α) (a : α) :
    (active a = false ∧ opened = [] ∧ arrive active limit opened a = ([], none)) ∨
    (active a = true ∨ opened ≠ []) ∧
      (arrive active limit opened a = (opened ++ [a], none) ∨
        arrive active limit opened a = ([], some (opened ++ [a]))) := by
  unfold arrive
  split_ifs with ha ho hl ho
  · exact .inr ⟨.inl ha, .inl (by rw [ho, List.nil_append])⟩
  · exact .inr ⟨.inl ha, .inr rfl⟩
  · exact .inr ⟨.inl ha, .inl rfl⟩
  · exact .inl ⟨by simpa using ha, ho, rfl⟩
  · exact .inr ⟨.inr ho, .inr rfl⟩

theorem arrive_flatten (opened : List α) (a : α) :
    (arrive active limit opened a).2.toList.flatten ++ (arrive active limit opened a).1 =
      opened ++ (if active a ∨ opened ≠ [] then [a] else []) := by
  unfold arrive
  split_ifs <;> simp_all

/-- The segments hold what was kept, in order. -/
theorem segments_flatten (opened l : List α) :
    (segments active limit opened l).1.flatten ++ (segments active limit opened l).2 =
      opened ++ kept active limit opened l := by
  induction l generalizing opened with
  | nil => simp [segments, kept]
  | cons a l ih =>
      simp only [segments, kept, List.flatten_append, List.append_assoc]
      rw [ih, ← List.append_assoc, arrive_flatten, List.append_assoc]

theorem kept_sublist (opened l : List α) : (kept active limit opened l).Sublist l := by
  induction l generalizing opened with
  | nil => exact List.Sublist.refl []
  | cons a l ih =>
      rw [kept]
      split_ifs
      · exact (ih _).cons_cons a
      · exact (ih _).cons a

/-- What is open is never given up: it is the beginning of a closed segment or of the open one. -/
theorem exists_prefix (opened l : List α) :
    ∃ seg ∈ (segments active limit opened l).1 ++ [(segments active limit opened l).2],
      opened <+: seg := by
  induction l generalizing opened with
  | nil => exact ⟨opened, List.mem_singleton.mpr rfl, List.prefix_refl opened⟩
  | cons a l ih =>
      rw [segments]
      obtain ⟨-, rfl, h⟩ | ⟨-, h | h⟩ := @arrive_cases _ active limit opened a
      · rw [h]
        exact ih []
      · rw [h]
        obtain ⟨seg, hseg, hprefix⟩ := ih (opened ++ [a])
        exact ⟨seg, hseg, (List.prefix_append opened [a]).trans hprefix⟩
      · rw [h]
        exact ⟨opened ++ [a], List.mem_cons_self, List.prefix_append opened [a]⟩

/-- No active chunk is dropped. -/
theorem filter_kept (opened l : List α) :
    (kept active limit opened l).filter active = l.filter active := by
  induction l generalizing opened with
  | nil => rfl
  | cons a l ih =>
      rw [kept, List.filter_append, ih]
      by_cases ha : active a = true <;> by_cases ho : opened = [] <;> simp [ha, ho]

/-- Every active chunk is in the closed segments or the open one, exactly once and in order. -/
theorem filter_segments (l : List α) :
    ((segments active limit [] l).1.flatten ++ (segments active limit [] l).2).filter active =
      l.filter active := by
  rw [segments_flatten, List.nil_append, filter_kept]

/-- What an open segment looks like: active chunks, fewer than `limit` of them. -/
structure Opened (active : α → Bool) (limit : ℕ) (opened : List α) : Prop where
  active : ∀ a ∈ opened, active a = true
  length_lt : opened.length < limit

/-- What a closed segment looks like: an open one and the chunk that closed it. -/
def Closed (active : α → Bool) (limit : ℕ) (seg : List α) : Prop :=
  ∃ opened a, seg = opened ++ [a] ∧ opened ≠ [] ∧ Opened active limit opened

theorem Opened.nil (h : 0 < limit) : Opened active limit ([] : List α) :=
  ⟨fun _ ha => absurd ha List.not_mem_nil, h⟩

theorem arrive_opened (hlimit : 1 < limit) {opened : List α} (h : Opened active limit opened) (a : α) :
    Opened active limit (arrive active limit opened a).1 := by
  have hnil : Opened active limit ([] : List α) := .nil (by omega)
  unfold arrive
  split_ifs with ha ho hl
  · exact ⟨by simpa using ha, by simpa using hlimit⟩
  · exact hnil
  · refine ⟨fun b hb => ?_, by simp; omega⟩
    rcases List.mem_append.mp hb with hb | hb
    · exact h.active b hb
    · rwa [List.mem_singleton.mp hb]
  · exact hnil
  · exact hnil

theorem arrive_closed {opened seg : List α} (h : Opened active limit opened) {a : α}
    (hseg : (arrive active limit opened a).2 = some seg) : Closed active limit seg := by
  unfold arrive at hseg
  split_ifs at hseg with ha ho hl ho
  · obtain rfl := Option.some.inj hseg
    exact ⟨opened, a, rfl, ho, h⟩
  · obtain rfl := Option.some.inj hseg
    exact ⟨opened, a, rfl, ho, h⟩

/-- The open segment has fewer than `limit` chunks, all active, and every closed segment is an open
one with the chunk that closed it. -/
theorem segments_shape (hlimit : 1 < limit) {opened : List α} (h : Opened active limit opened)
    (l : List α) :
    Opened active limit (segments active limit opened l).2 ∧
    ∀ seg ∈ (segments active limit opened l).1, Closed active limit seg := by
  induction l generalizing opened with
  | nil => exact ⟨h, fun _ hs => absurd hs List.not_mem_nil⟩
  | cons a l ih =>
      obtain ⟨hopen, hclosed⟩ := ih (arrive_opened hlimit h a)
      refine ⟨hopen, fun seg hseg => ?_⟩
      rcases List.mem_append.mp hseg with hs | hs
      · exact arrive_closed h (Option.mem_toList.mp hs)
      · exact hclosed seg hs

theorem Closed.length_le {seg : List α} (h : Closed active limit seg) : seg.length ≤ limit := by
  obtain ⟨opened, a, rfl, -, ho⟩ := h
  have := ho.length_lt
  rw [List.length_append, List.length_singleton]
  omega

theorem segments_replicate {a : α} (ha : active a = true) {j k : ℕ} (h : k + j = limit) (hk : 0 < k)
    (hj : 0 < j) : segments active limit (List.replicate k a) (List.replicate j a) =
      ([List.replicate limit a], []) := by
  have hnil : List.replicate k a ≠ [] := by
    rw [← List.length_pos_iff, List.length_replicate]
    exact hk
  have hsucc : List.replicate k a ++ [a] = List.replicate (k + 1) a := List.replicate_succ'.symm
  induction j generalizing k with
  | zero => exact absurd hj (lt_irrefl 0)
  | succ j ih =>
      rw [List.replicate_succ, segments, arrive, if_pos ha, if_neg hnil, List.length_replicate, hsucc]
      by_cases hfull : limit ≤ k + 1
      · obtain rfl : j = 0 := by omega
        rw [if_pos hfull, ← h]
        rfl
      · rw [if_neg hfull]
        exact ih (by omega) (Nat.succ_pos k) (by omega) (by simp) List.replicate_succ'.symm

/-- Active chunks up to the limit make one segment. -/
theorem segments_limit {a : α} (ha : active a = true) (h : 1 < limit) :
    segments active limit [] (List.replicate limit a) = ([List.replicate limit a], []) := by
  obtain ⟨j, rfl⟩ : ∃ j, limit = 1 + j := ⟨limit - 1, by omega⟩
  conv_lhs => rw [Nat.add_comm, List.replicate_succ]
  rw [segments, arrive, if_pos ha, if_pos rfl]
  rw [Nat.add_comm 1 j] at h ⊢
  exact segments_replicate ha (Nat.add_comm 1 j) Nat.one_pos (by omega)

end Segments

end Carroll
