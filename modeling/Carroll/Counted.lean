import Carroll.Mem
import Mathlib.Data.Multiset.AddSub

/-! # Lists with an unsigned counter

The lists of `libcrt` keep an `unsigned int` counter beside the pointer to their first element.
An element is appended at the end and the counter advances, modulo `2 ^ 32`; every other
operation walks the list with

    for (i = 0; i < count; i++) { if (prev == NULL) break; …; prev = prev->next; }

and so sees `visited`.  Below `2 ^ 32` elements that is the whole list (`visited_of_lt`).

`scan p` is the loop that stops at the first element satisfying `p`, which `modify` may then
rewrite.  `collect g` is the multiset of the values that `g` reads off all elements, visited or not;
the `collect_*` rules say how it changes when one element is appended or rewritten. -/

namespace Carroll

/-- A list and its counter. -/
structure Counted (α : Type*) where
  count : ℕ
  addr : List α
  count_eq : count = u32 addr.length

namespace Counted
variable {α β : Type*}

theorem count_nil : 0 = u32 ([] : List α).length := rfl

/-- `count = 0`, `addr = NULL`. -/
def empty : Counted α := ⟨0, [], count_nil⟩

/-- Append an element at the end. -/
def push (c : Counted α) (a : α) : Counted α :=
  ⟨u32 (c.count + 1), c.addr ++ [a], by simp [c.count_eq, u32, Nat.add_mod]⟩

/-- The elements that the counted loop visits. -/
def visited (c : Counted α) : List α := c.addr.take c.count

/-- A loop that frees what it visits, and `count = 0`: what stays was not visited. -/
def drain (c : Counted α) : Counted α :=
  ⟨0, c.addr.drop c.count, by
    rw [List.length_drop, c.count_eq]
    unfold u32
    omega⟩

@[simp] theorem addr_empty : (empty : Counted α).addr = [] := rfl
@[simp] theorem addr_push (c : Counted α) (a : α) : (c.push a).addr = c.addr ++ [a] := rfl

@[simp] theorem addr_drain (c : Counted α) : c.drain.addr = c.addr.drop c.count := rfl
@[simp] theorem count_drain (c : Counted α) : c.drain.count = 0 := rfl

theorem count_of_lt {c : Counted α} (h : c.addr.length < 2 ^ 32) : c.count = c.addr.length := by
  rw [c.count_eq, u32_of_lt h]

theorem visited_of_lt {c : Counted α} (h : c.addr.length < 2 ^ 32) : c.visited = c.addr := by
  rw [visited, count_of_lt h, List.take_length]

theorem count_le (c : Counted α) : c.count ≤ c.addr.length := by
  rw [c.count_eq]
  exact Nat.mod_le _ _

theorem length_visited (c : Counted α) : c.visited.length = c.count := by
  rw [visited, List.length_take, min_eq_left c.count_le]

/-- A drained list keeps whole turns of the counter. -/
theorem length_drain (c : Counted α) :
    c.drain.addr.length + c.count = c.addr.length ∧ u32 c.drain.addr.length = 0 := by
  refine ⟨?_, by rw [← c.drain.count_eq, count_drain]⟩
  rw [addr_drain, List.length_drop, Nat.sub_add_cancel c.count_le]

/-- When the counter has wrapped to `0`, no element is visited. -/
theorem visited_of_wrap {c : Counted α} (h : c.addr.length = 2 ^ 32) : c.visited = [] := by
  rw [visited, c.count_eq, h, u32, Nat.mod_self, List.take_zero]

/-- What is visited first is the first element. -/
theorem visited_head {c : Counted α} {a : α} {l : List α} (h : c.visited = a :: l) :
    c.addr[0]? = some a := by
  have := List.getElem?_take_of_lt (l := c.addr) (i := 0) (j := c.count) (by
    rw [← length_visited, h]
    simp)
  rw [← this, ← visited, h]
  rfl

theorem mem_addr_of_mem_visited {c : Counted α} {a : α} (h : a ∈ c.visited) : a ∈ c.addr :=
  List.mem_of_mem_take h

/-- Rewrite the element at position `i`. -/
def modify (c : Counted α) (i : ℕ) (f : α → α) : Counted α :=
  ⟨c.count, c.addr.modify i f, by rw [List.length_modify, c.count_eq]⟩

@[simp] theorem addr_modify (c : Counted α) (i : ℕ) (f : α → α) :
    (c.modify i f).addr = c.addr.modify i f := rfl

/-- The position of the first visited element satisfying `p`. -/
def scan (c : Counted α) (p : α → Bool) : Option ℕ := c.visited.findIdx? p

theorem scan_eq_none_iff {c : Counted α} {p : α → Bool} :
    c.scan p = none ↔ ∀ a ∈ c.visited, p a = false := List.findIdx?_eq_none_iff

/-- What a scan finds, with the visited elements before it. -/
theorem scan_eq_some {c : Counted α} {p : α → Bool} {i : ℕ} (h : c.scan p = some i) :
    ∃ a, c.addr[i]? = some a ∧ p a = true ∧ c.visited[i]? = some a ∧
      ∀ b ∈ c.visited.take i, p b = false := by
  obtain ⟨hi, hp, hlt⟩ := List.findIdx?_eq_some_iff_getElem.mp h
  have hvis := List.getElem?_eq_getElem hi
  refine ⟨c.visited[i], ?_, hp, hvis, fun b hb => ?_⟩
  · rw [length_visited] at hi
    exact (List.getElem?_take_of_lt (l := c.addr) hi).symm.trans hvis
  · obtain ⟨j, hj, rfl⟩ := List.mem_take_iff_getElem.mp hb
    simpa using hlt j (by omega)

/-! ### Multisets of readings -/

/-- The multiset of the values that `g` reads off the elements. -/
def collect (g : α → Option β) (c : Counted α) : Multiset β := (c.addr.filterMap g : List β)

@[simp] theorem collect_empty (g : α → Option β) : collect g (empty : Counted α) = 0 := rfl

theorem collect_push {g : α → Option β} {a : α} {b : β} (c : Counted α) (h : g a = some b) :
    collect g (c.push a) = b ::ₘ collect g c := by
  unfold collect
  rw [addr_push, List.filterMap_append, ← Multiset.coe_add, add_comm]
  simp [h]

theorem filterMap_middle (g : α → Option β) (l₁ l₂ : List α) (x : α) :
    ((l₁ ++ x :: l₂).filterMap g : Multiset β) =
      ((g x).toList : Multiset β) + ((l₁ ++ l₂).filterMap g : List β) := by
  cases hg : g x with
  | none => simp [List.filterMap_append, hg]
  | some b =>
      rw [List.filterMap_append, List.filterMap_cons, hg, List.filterMap_append]
      simp only [← Multiset.coe_add, ← Multiset.cons_coe, Option.toList_some, Multiset.coe_nil,
        Multiset.add_cons, Multiset.cons_add, zero_add]

/-- The readings of a list, with those of the element at `i` set apart. -/
theorem collect_split {g : α → Option β} {c : Counted α} {i : ℕ} {a : α} (h : c.addr[i]? = some a) :
    collect g c = ((g a).toList : Multiset β) +
      ((c.addr.take i ++ c.addr.drop (i + 1)).filterMap g : List β) := by
  obtain ⟨hi, rfl⟩ := List.getElem?_eq_some_iff.mp h
  rw [← filterMap_middle, List.getElem_cons_drop, List.take_append_drop]
  rfl

theorem collect_modify {g : α → Option β} {c : Counted α} {i : ℕ} {a : α} (f : α → α)
    (h : c.addr[i]? = some a) :
    collect g (c.modify i f) = ((g (f a)).toList : Multiset β) +
      ((c.addr.take i ++ c.addr.drop (i + 1)).filterMap g : List β) := by
  obtain ⟨hi, rfl⟩ := List.getElem?_eq_some_iff.mp h
  rw [← filterMap_middle, ← List.modify_eq_take_cons_drop hi]
  rfl

theorem collect_modify_gain {g : α → Option β} {c : Counted α} {i : ℕ} {a : α} {b : β} (f : α → α)
    (h : c.addr[i]? = some a) (ha : g a = none) (hf : g (f a) = some b) :
    collect g (c.modify i f) = b ::ₘ collect g c := by
  rw [collect_modify f h, collect_split h, ha, hf]
  simp

theorem collect_modify_loss {g : α → Option β} {c : Counted α} {i : ℕ} {a : α} {b : β} (f : α → α)
    (h : c.addr[i]? = some a) (ha : g a = some b) (hf : g (f a) = none) :
    collect g c = b ::ₘ collect g (c.modify i f) := by
  rw [collect_modify f h, collect_split h, ha, hf]
  simp

end Counted

end Carroll
