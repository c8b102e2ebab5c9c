import Mathlib.Data.List.Basic
import Mathlib.Tactic

/-! # Counted chains

A singly linked list kept together with an element counter: nodes are appended at the end,
never unlinked, and looked up by a loop

    for (i = 0; i < count; i++) { if (prev == NULL) break; …; prev = prev->next; }

that stops at the first node satisfying a condition and updates it in place.  A node is
named by its position, which never changes.  `Chain` carries the fact that the counter is
the number of nodes, so that the loop visits every node (`scan_eq_some_iff`,
`scan_eq_none_iff`); `Counted` is the same for a list that may grow past what its counter holds. -/

namespace Carroll

/-- A linked chain and its element counter. -/
structure Chain (α : Type*) where
  count : ℕ
  addr : List α
  count_eq : count = addr.length

namespace Chain
variable {α β : Type*}

@[ext] theorem ext' {c d : Chain α} (h : c.addr = d.addr) : c = d := by
  obtain ⟨n, l, hn⟩ := c
  obtain ⟨m, k, hm⟩ := d
  subst h hn hm
  rfl

/-- The empty chain (`count = 0`, `addr = NULL`). -/
def empty : Chain α := ⟨0, [], rfl⟩

/-- Append a node at the end. -/
def push (c : Chain α) (a : α) : Chain α :=
  ⟨c.count + 1, c.addr ++ [a], by simp [c.count_eq]⟩

/-- Rewrite the node at position `i`. -/
def modify (c : Chain α) (i : ℕ) (f : α → α) : Chain α :=
  ⟨c.count, c.addr.modify i f, by simp [c.count_eq]⟩

/-- The counted loop: position of the first of the `count` nodes satisfying `p`. -/
def scan (c : Chain α) (p : α → Bool) : Option ℕ := (c.addr.take c.count).findIdx? p

/-- The node at position `i`. -/
def node (c : Chain α) (i : ℕ) : Option α := c.addr[i]?

@[simp] theorem addr_empty : (empty : Chain α).addr = [] := rfl
@[simp] theorem addr_push (c : Chain α) (a : α) : (c.push a).addr = c.addr ++ [a] := rfl
@[simp] theorem addr_modify (c : Chain α) (i : ℕ) (f : α → α) :
    (c.modify i f).addr = c.addr.modify i f := rfl

theorem scan_def (c : Chain α) (p : α → Bool) : c.scan p = c.addr.findIdx? p := by
  unfold scan
  rw [c.count_eq, List.take_length]

theorem scan_eq_some_iff {c : Chain α} {p : α → Bool} {i : ℕ} :
    c.scan p = some i ↔
      ∃ a, c.node i = some a ∧ p a = true ∧ ∀ j < i, ∀ b, c.node j = some b → p b = false := by
  rw [scan_def, List.findIdx?_eq_some_iff_getElem]
  constructor
  · rintro ⟨hi, hp, hlt⟩
    refine ⟨c.addr[i], List.getElem?_eq_getElem hi, hp, fun j hj b hb => ?_⟩
    obtain ⟨hj', rfl⟩ := List.getElem?_eq_some_iff.mp hb
    simpa using hlt j hj
  · rintro ⟨a, ha, hp, hlt⟩
    obtain ⟨hi, rfl⟩ := List.getElem?_eq_some_iff.mp ha
    refine ⟨hi, hp, fun j hj => ?_⟩
    have := hlt j hj c.addr[j] (List.getElem?_eq_getElem (by omega))
    simp [this]

/-- All nodes, by value and by position. -/
theorem forall_mem_addr_iff {c : Chain α} {P : α → Prop} :
    (∀ a ∈ c.addr, P a) ↔ ∀ i a, c.node i = some a → P a := by
  constructor
  · intro h i a ha
    exact h a (List.mem_of_getElem? ha)
  · intro h a ha
    obtain ⟨i, hi⟩ := List.mem_iff_getElem?.mp ha
    exact h i a hi

theorem scan_eq_none_iff {c : Chain α} {p : α → Bool} :
    c.scan p = none ↔ ∀ i a, c.node i = some a → p a = false := by
  rw [scan_def, List.findIdx?_eq_none_iff, forall_mem_addr_iff]

theorem node_modify (c : Chain α) (i j : ℕ) (f : α → α) :
    (c.modify i f).node j = if i = j then (c.node j).map f else c.node j := by
  unfold node
  rw [addr_modify, List.getElem?_modify]
  split_ifs <;> simp

theorem modify_modify (c : Chain α) (i : ℕ) (f g : α → α) :
    (c.modify i f).modify i g = c.modify i (g ∘ f) := by
  apply ext'
  rw [addr_modify, addr_modify, addr_modify, List.modify_modify_eq]

end Chain

end Carroll
