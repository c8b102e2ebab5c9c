import Mathlib.Data.List.Nodup
import Mathlib.Tactic

/-! # Allocated blocks, when `malloc` may fail

A block is named by the number of the call of `malloc` that returned it, so that no name is used
twice.  Which calls fail, and what a block holds before it is written, is given by an `Allocator`.

* A pointer is `NULL`, a reference that was assigned to it, or `junk`: what the memory held before,
  and not `NULL`.
* To read, write or free through `NULL`, through junk or to a block that is not allocated (any more)
  is undefined (`none`); `free(NULL)` does nothing.
* A block is of one of several `Kind`s, and is read and written as that kind only.

`Owns s₀ s l` says that `s` has the blocks `l`, with their contents, in addition to those of `s₀`.
The rules are those of a separation logic: `malloc` adds a block, `free` takes one away, `modify`
changes the content of one, and the rest stays.  When nothing is owned any more, every block that was
allocated since `s₀` was freed, and freed once. -/

namespace Carroll

namespace Alloc

/-- What a pointer variable holds. -/
inductive CPtr (α : Type) where
  | null
  | ref (a : α)
  | junk
deriving DecidableEq, Repr

/-- A pointer in memory that was never written. -/
def CPtr.ofWord {α : Type} (w : ℕ) : CPtr α := if w = 0 then .null else .junk

/-- What `p` refers to; to follow `NULL` or junk, or to call it, is undefined. -/
def CPtr.deref {α : Type} : CPtr α → Option α
  | .ref a => some a
  | _ => none

/-- Which calls of `malloc` fail, and the words that the block of a call holds at first. -/
structure Allocator where
  fails : ℕ → Bool
  words : ℕ → ℕ → ℕ

/-- The allocated blocks, and the number of calls of `malloc`. -/
structure Store (β : Type) where
  calls : ℕ
  block : ℕ → Option β
  fresh : ∀ n, calls ≤ n → block n = none

/-- The blocks of one kind, among all. -/
structure Kind (β γ : Type) where
  get : β → Option γ
  put : γ → β
  get_put : ∀ c, get (put c) = some c

/-- A pointer field of a block. -/
structure PtrField (γ : Type) where
  get : γ → CPtr ℕ
  set : CPtr ℕ → γ → γ
  set_get : ∀ c, set (get c) c = c

variable {β γ : Type}

namespace Store

/-- No blocks. -/
def empty : Store β := ⟨0, fun _ => none, fun _ _ => rfl⟩

/-- A call of `malloc` that failed. -/
def tick (s : Store β) : Store β := ⟨s.calls + 1, s.block, fun n hn => s.fresh n (by omega)⟩

/-- A call of `malloc` that returned a block. -/
def push (s : Store β) (b : β) : Store β where
  calls := s.calls + 1
  block n := if n = s.calls then some b else s.block n
  fresh n hn := by rw [if_neg (by omega)]; exact s.fresh n (by omega)

/-- Write the block `n`, if it is allocated. -/
def put (s : Store β) (n : ℕ) (b : β) : Store β where
  calls := s.calls
  block m := if m = n then (s.block n).map fun _ => b else s.block m
  fresh m hm := by
    split_ifs with h
    · rw [← h, s.fresh m hm, Option.map_none]
    · exact s.fresh m hm

/-- The block `n` is not allocated any more. -/
def erase (s : Store β) (n : ℕ) : Store β where
  calls := s.calls
  block m := if m = n then none else s.block m
  fresh m hm := by
    split_ifs
    · rfl
    · exact s.fresh m hm

/-- `malloc`. -/
def malloc (a : Allocator) (f : (ℕ → ℕ) → β) (s : Store β) : CPtr ℕ × Store β :=
  if a.fails s.calls then (.null, s.tick) else (.ref s.calls, s.push (f (a.words s.calls)))

/-- Read the block at `p`. -/
def read (s : Store β) : CPtr ℕ → Option β
  | .ref n => s.block n
  | _ => none

/-- `free(p)`. -/
def free (s : Store β) : CPtr ℕ → Option (Store β)
  | .null => some s
  | .ref n => (s.block n).map fun _ => s.erase n
  | .junk => none

/-- Read the block at `p` as one of the kind `K`. -/
def get (s : Store β) (K : Kind β γ) (p : CPtr ℕ) : Option γ := (s.read p).bind K.get

/-- Rewrite the block at `p`, of the kind `K`. -/
def modify (s : Store β) (K : Kind β γ) (p : CPtr ℕ) (f : γ → γ) : Option (Store β) :=
  match p with
  | .ref n => (s.get K (.ref n)).map fun c => s.put n (K.put (f c))
  | _ => none

/-- `if(p->field != NULL) free(p->field), p->field = NULL`. -/
def release (s : Store β) (K : Kind β γ) (p : CPtr ℕ) (field : PtrField γ) : Option (Store β) :=
  (s.get K p).bind fun c =>
    if field.get c = .null then some s
    else (s.free (field.get c)).bind fun s => s.modify K p (field.set .null)

/-- The block at the end of the list from `p` on, looked for in so many rounds. -/
def last (s : Store β) (K : Kind β γ) (next : γ → CPtr ℕ) : ℕ → CPtr ℕ → Option (CPtr ℕ)
  | 0, _ => none
  | rounds + 1, p =>
      (s.get K p).bind fun c => if next c = .null then some p else s.last K next rounds (next c)

/-! ### One operation -/

variable {s : Store β} {a : Allocator}

theorem malloc_fails (f : (ℕ → ℕ) → β) (h : a.fails s.calls = true) :
    s.malloc a f = (.null, s.tick) := if_pos h

theorem malloc_ok (f : (ℕ → ℕ) → β) (h : a.fails s.calls = false) :
    s.malloc a f = (.ref s.calls, s.push (f (a.words s.calls))) :=
  if_neg (by rw [h]; exact Bool.false_ne_true)

@[simp] theorem calls_tick (s : Store β) : s.tick.calls = s.calls + 1 := rfl

@[simp] theorem calls_push (s : Store β) (b : β) : (s.push b).calls = s.calls + 1 := rfl

end Store

/-! ### Blocks that are owned -/

/-- The block that `p` points to, with its content. -/
def CPtr.cell (p : CPtr ℕ) (b : β) : List (ℕ × β) :=
  match p with
  | .ref n => [(n, b)]
  | _ => []

@[simp] theorem CPtr.cell_null (b : β) : (CPtr.null : CPtr ℕ).cell b = [] := rfl

/-- Memory that was never written points to no block. -/
@[simp] theorem CPtr.cell_ofWord (w : ℕ) (b : β) : (CPtr.ofWord w : CPtr ℕ).cell b = [] := by
  unfold CPtr.ofWord
  split_ifs <;> rfl

theorem CPtr.ofWord_eq_junk_iff {α : Type} {w : ℕ} :
    (CPtr.ofWord w : CPtr α) = .junk ↔ (CPtr.ofWord w : CPtr α) ≠ .null := by
  unfold CPtr.ofWord
  split_ifs <;> simp

theorem CPtr.ofWord_ne_ref {α : Type} (w : ℕ) (a : α) : CPtr.ofWord w ≠ .ref a := by
  unfold CPtr.ofWord
  split_ifs <;> exact nofun

/-- `s` has the blocks `l` in addition to those of `s₀`. -/
structure Owns (s₀ s : Store β) (l : List (ℕ × β)) : Prop where
  nodup : (l.map Prod.fst).Nodup
  here : ∀ x ∈ l, s.block x.1 = some x.2
  new : ∀ x ∈ l, s₀.block x.1 = none
  kept : ∀ n ∉ l.map Prod.fst, s.block n = s₀.block n

namespace Owns
variable {s₀ s : Store β} {l l' : List (ℕ × β)} {n : ℕ} {b : β}

theorem refl (s : Store β) : Owns s s [] :=
  ⟨List.nodup_nil, fun _ hx => absurd hx List.not_mem_nil, fun _ hx => absurd hx List.not_mem_nil,
    fun _ _ => rfl⟩

theorem perm (h : Owns s₀ s l) (hl : l.Perm l') : Owns s₀ s l' where
  nodup := (hl.map Prod.fst).nodup_iff.mp h.nodup
  here x hx := h.here x (hl.mem_iff.mpr hx)
  new x hx := h.new x (hl.mem_iff.mpr hx)
  kept n hn := h.kept n fun hmem => hn ((hl.map Prod.fst).mem_iff.mp hmem)

/-- With nothing owned, the blocks are those of before. -/
theorem block_eq (h : Owns s₀ s []) : s.block = s₀.block := funext fun n => h.kept n List.not_mem_nil

/-- Only with nothing owned: a block that is owned was not there before. -/
theorem block_eq_iff (h : Owns s₀ s l) : s.block = s₀.block ↔ l = [] := by
  constructor
  · intro heq
    cases l with
    | nil => rfl
    | cons x l =>
        have hhere := h.here x List.mem_cons_self
        rw [heq, h.new x List.mem_cons_self] at hhere
        exact nomatch hhere
  · rintro rfl
    exact h.block_eq

theorem tick (h : Owns s₀ s l) : Owns s₀ s.tick l := ⟨h.nodup, h.here, h.new, h.kept⟩

theorem calls_not_mem (h : Owns s₀ s l) : s.calls ∉ l.map Prod.fst := by
  intro hmem
  obtain ⟨x, hx, hxn⟩ := List.mem_map.mp hmem
  have hnone := s.fresh s.calls le_rfl
  rw [← hxn, h.here x hx] at hnone
  exact nomatch hnone

theorem push (h : Owns s₀ s l) (b : β) : Owns s₀ (s.push b) ((s.calls, b) :: l) := by
  have hne : ∀ x ∈ l, x.1 ≠ s.calls := fun x hx heq =>
    h.calls_not_mem (heq ▸ List.mem_map_of_mem hx)
  refine ⟨?_, ?_, ?_, ?_⟩
  · rw [List.map_cons]
    exact List.nodup_cons.mpr ⟨h.calls_not_mem, h.nodup⟩
  · intro x hx
    rcases List.mem_cons.mp hx with rfl | hx
    · exact if_pos rfl
    · exact (if_neg (hne x hx)).trans (h.here x hx)
  · intro x hx
    rcases List.mem_cons.mp hx with rfl | hx
    · rw [← h.kept _ h.calls_not_mem]
      exact s.fresh _ le_rfl
    · exact h.new x hx
  · intro n hn
    rw [List.map_cons, List.mem_cons, not_or] at hn
    exact (if_neg hn.1).trans (h.kept n hn.2)

/-- A `malloc`, whatever comes of it: it adds what it returns. -/
theorem malloc (h : Owns s₀ s l) (a : Allocator) (f : (ℕ → ℕ) → β) :
    ∃ p s', s.malloc a f = (p, s') ∧ p ≠ .junk ∧ s'.calls = s.calls + 1 ∧
      (p = .null ↔ a.fails s.calls = true) ∧ Owns s₀ s' (p.cell (f (a.words s.calls)) ++ l) := by
  cases hf : a.fails s.calls with
  | true => exact ⟨_, _, s.malloc_fails f hf, nofun, rfl, by simp, h.tick⟩
  | false => exact ⟨_, _, s.malloc_ok f hf, nofun, rfl, by simp, h.push _⟩

theorem not_mem (h : Owns s₀ s ((n, b) :: l)) : ∀ x ∈ l, x.1 ≠ n := by
  have hn := (List.nodup_cons.mp h.nodup).1
  intro x hx heq
  exact hn (List.mem_map.mpr ⟨x, hx, heq⟩)

theorem put (h : Owns s₀ s ((n, b) :: l)) (b' : β) : Owns s₀ (s.put n b') ((n, b') :: l) := by
  have hn : s.block n = some b := h.here _ List.mem_cons_self
  refine ⟨h.nodup, ?_, ?_, ?_⟩
  · intro x hx
    rcases List.mem_cons.mp hx with rfl | hx
    · exact (if_pos rfl).trans (by rw [hn, Option.map_some])
    · exact (if_neg (h.not_mem x hx)).trans (h.here x (List.mem_cons_of_mem _ hx))
  · intro x hx
    rcases List.mem_cons.mp hx with rfl | hx
    · exact h.new (n, b) List.mem_cons_self
    · exact h.new x (List.mem_cons_of_mem _ hx)
  · intro m hm
    have hmn : m ≠ n := fun heq => hm (heq ▸ List.mem_cons_self)
    exact (if_neg hmn).trans (h.kept m hm)

theorem erase (h : Owns s₀ s ((n, b) :: l)) : Owns s₀ (s.erase n) l := by
  refine ⟨(List.nodup_cons.mp h.nodup).2, ?_, ?_, ?_⟩
  · intro x hx
    exact (if_neg (h.not_mem x hx)).trans (h.here x (List.mem_cons_of_mem _ hx))
  · exact fun x hx => h.new x (List.mem_cons_of_mem _ hx)
  · intro m hm
    by_cases hmn : m = n
    · rw [hmn]
      exact (if_pos rfl).trans (h.new _ List.mem_cons_self).symm
    · have hmem : m ∉ ((n, b) :: l).map Prod.fst := by
        rw [List.map_cons, List.mem_cons, not_or]
        exact ⟨hmn, hm⟩
      exact (if_neg hmn).trans (h.kept m hmem)

/-- To free a block takes it away. -/
theorem free (h : Owns s₀ s ((n, b) :: l)) : ∃ s', s.free (.ref n) = some s' ∧ Owns s₀ s' l :=
  ⟨s.erase n, by rw [Store.free, h.here _ List.mem_cons_self, Option.map_some], h.erase⟩

variable {K : Kind β γ} {c : γ}

/-- A block that is owned can be read. -/
theorem get (h : Owns s₀ s l) (hn : (n, K.put c) ∈ l) : s.get K (.ref n) = some c := by
  rw [Store.get, Store.read, h.here _ hn, Option.bind_some, K.get_put]

/-- A block that is owned can be written. -/
theorem modify (h : Owns s₀ s ((n, K.put c) :: l)) (f : γ → γ) :
    ∃ s', s.modify K (.ref n) f = some s' ∧ s'.calls = s.calls ∧
      Owns s₀ s' ((n, K.put (f c)) :: l) :=
  ⟨s.put n (K.put (f c)), by rw [Store.modify, h.get List.mem_cons_self, Option.map_some], rfl,
    h.put _⟩

/-- `p->field = malloc(…)`. -/
theorem mallocField (field : PtrField γ) (h : Owns s₀ s ((n, K.put c) :: l)) (a : Allocator)
    (f : (ℕ → ℕ) → β) :
    ∃ p s₁ s₂, s.malloc a f = (p, s₁) ∧ s₁.modify K (.ref n) (field.set p) = some s₂ ∧
      s₂.calls = s.calls + 1 ∧ p ≠ .junk ∧ (p = .null ↔ a.fails s.calls = true) ∧
      Owns s₀ s₂ ((n, K.put (field.set p c)) :: (p.cell (f (a.words s.calls)) ++ l)) := by
  obtain ⟨p, s₁, hmalloc, hjunk, hcalls, hnull, h₁⟩ := h.malloc a f
  obtain ⟨s₂, hmod, hcalls', h₂⟩ := (h₁.perm List.perm_middle).modify (field.set p)
  exact ⟨p, s₁, s₂, hmalloc, hmod, hcalls'.trans hcalls, hjunk, hnull, h₂⟩

/-- To release a field frees what it points to, unless that is junk. -/
theorem release (field : PtrField γ) (h : Owns s₀ s ((n, K.put c) :: l'))
    (hl : l' = (field.get c).cell b ++ l) (hjunk : field.get c ≠ .junk) :
    ∃ s', s.release K (.ref n) field = some s' ∧
      Owns s₀ s' ((n, K.put (field.set .null c)) :: l) := by
  rw [hl] at h
  have hget := h.get List.mem_cons_self
  unfold Store.release
  rw [hget, Option.bind_some]
  cases hp : field.get c with
  | null =>
      rw [hp] at h
      have hset : field.set .null c = c := by
        rw [← hp]
        exact field.set_get c
      rw [if_pos rfl, hset]
      exact ⟨s, rfl, h⟩
  | junk => exact absurd hp hjunk
  | ref m =>
      rw [hp] at h
      have h' : Owns s₀ s ((m, b) :: (n, K.put c) :: l) := h.perm (List.Perm.swap _ _ _)
      obtain ⟨s₁, hfree, h₁⟩ := h'.free
      obtain ⟨s₂, hmod, -, h₂⟩ := h₁.modify (field.set .null)
      exact ⟨s₂, by rw [if_neg nofun, hfree, Option.bind_some, hmod], h₂⟩

/-- To release junk is undefined. -/
theorem release_junk (field : PtrField γ) (h : Owns s₀ s ((n, K.put c) :: l))
    (hjunk : field.get c = .junk) : s.release K (.ref n) field = none := by
  unfold Store.release
  rw [h.get List.mem_cons_self, Option.bind_some, hjunk, if_neg nofun]
  rfl

end Owns

end Alloc

end Carroll
