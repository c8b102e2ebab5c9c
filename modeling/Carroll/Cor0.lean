import Carroll.Counted

/-! # The request store of module `cor0`

`module/cor0` keeps requests in a linked list of entries.  An update fills the first
`CORE_EMPTY` entry or appends a new one; a result takes the request out of the first
`CORE_HANDLE` entry, whose code pointer stays behind.

`c00_libmod_update` chooses between the two ways with `c00_libmod_search`, which also stops at
an entry with an equal code string; `c00_libmod_xset` then looks for a `CORE_EMPTY` entry only.
`c00LibmodUpdate_cases` lists what an update can do.  The `unsigned int` counter of the store wraps,
so that from `2 ^ 32` entries on the searches see a part of the list (`Counted.visited`).

* Pointers are `Ptr`; `none` is NULL.  `strcmp` reads the strings that the pointers have at the
  time of the call, given by `mem`; a NULL pointer makes the call undefined, which is an outer `none`.
* `alloc` is the outcome of the allocation in `c00_libmod_append`.
* The file that `c00_libmod_update` writes is not read back and is left out. -/

namespace Carroll

/-- A C pointer; `none` is NULL. -/
abbrev Ptr := Option ℕ

/-- `CORE_EMPTY` and `CORE_HANDLE`. -/
inductive CoreStatus where
  | empty
  | handle
deriving DecidableEq, Repr

/-- `struct core_addr_t`. -/
structure CoreAddr where
  status : CoreStatus
  code : Ptr
  buffer : Ptr
  length : ℕ

/-- `struct core_stack_t`. -/
abbrev CoreStack := Counted CoreAddr

/-- The fields of `struct cargv_stack_t` that the modules read and write. -/
structure CargvStack where
  buffer : Ptr
  length : ℕ
  code : Ptr
  core : Ptr
deriving DecidableEq, Repr

/-- A stored request: the three fields that travel through the store. -/
structure Request where
  code : Ptr
  buffer : Ptr
  length : ℕ
deriving DecidableEq, Repr

/-- The request in a caller's `cargv`. -/
def CargvStack.request (v : CargvStack) : Request := ⟨v.code, v.buffer, v.length⟩

/-- The entry that holds `r`. -/
def CoreAddr.holding (r : Request) : CoreAddr := ⟨.handle, r.code, r.buffer, r.length⟩

/-- The entry after its request was taken: the code pointer stays. -/
def CoreAddr.taken (a : CoreAddr) : CoreAddr := { a with status := .empty, buffer := none, length := 0 }

/-- `strcmp(p, q) == 0`. -/
def strcmpCode (mem : ℕ → List UInt8) : Ptr → Ptr → Option Bool
  | some p, some q => some (decide (mem p = mem q))
  | _, _ => none

/-- The loop of `c00_libmod_search(code)`. -/
def searchLoop (mem : ℕ → List UInt8) (code : Ptr) : List CoreAddr → Option Bool
  | [] => some false
  | prev :: rest =>
      if prev.status = .empty then some true
      else
        (strcmpCode mem prev.code code).bind fun equal =>
          if equal then some true else searchLoop mem code rest

/-- `c00_libmod_search(code)`. -/
def c00LibmodSearch (mem : ℕ → List UInt8) (stack : Option CoreStack) (code : Ptr) : Option Bool :=
  match stack with
  | none => some false
  | some s => searchLoop mem code s.visited

/-- `c00_libmod_xset(code, buffer, length)`: the store afterwards and the result. -/
def c00LibmodXset (stack : Option CoreStack) (code buffer : Ptr) (length : ℕ) :
    Option CoreStack × Bool :=
  match stack with
  | none => (none, false)
  | some s =>
      match s.scan (fun a => a.status = .empty) with
      | none => (some s, false)
      | some i => (some (s.modify i fun _ => .holding ⟨code, buffer, length⟩), true)

/-- `c00_libmod_append(code, buffer, length)`; the source returns `0` in any case. -/
def c00LibmodAppend (alloc : Bool) (stack : Option CoreStack) (code buffer : Ptr) (length : ℕ) :
    Option CoreStack :=
  match stack with
  | none => none
  | some s => if alloc then some (s.push (.holding ⟨code, buffer, length⟩)) else some s

/-- `c00_libmod_update(buffer, length)` on the cargv that `buffer` points to. -/
def c00LibmodUpdate (alloc : Bool) (mem : ℕ → List UInt8) (stack : Option CoreStack)
    (str : CargvStack) : Option (Option CoreStack) :=
  match stack with
  | none => some none
  | some _ =>
      (c00LibmodSearch mem stack str.code).map fun found =>
        if found then (c00LibmodXset stack str.code str.buffer str.length).1
        else c00LibmodAppend alloc stack str.code str.buffer str.length

/-- `c00_libmod_select(ptr)`: the store afterwards and the returned cargv, which is `ptr` whether
or not a request was found. -/
def c00LibmodSelect (stack : Option CoreStack) (ptr : Option CargvStack) :
    Option CoreStack × Option CargvStack :=
  match ptr, stack with
  | none, _ => (stack, ptr)
  | some _, none => (none, ptr)
  | some v, some s =>
      match s.scan (fun a => a.status = .handle) with
      | none => (some s, ptr)
      | some i =>
          match s.addr[i]? with
          | none => (some s, ptr)
          | some a =>
              (some (s.modify i CoreAddr.taken),
                some { v with buffer := a.buffer, length := a.length, code := a.code })

/-- The controls that a module's `FMOD_CTRL` is called with. -/
inductive StackFlag where
  | read
  | write
  | update
  | search
  | result
  | send
deriving DecidableEq, Repr

/-- `FMOD_CTRL(ptr, flags, string)` of `cor0`: the return value, the store and `*string`
afterwards.  Of the module structure `ptr` it reads whether `ptr->update` is set. -/
def cor0FmodCtrl (alloc : Bool) (mem : ℕ → List UInt8) (ptr : Option Bool)
    (stack : Option CoreStack) (flags : StackFlag) (string : Option CargvStack) :
    Option (ℕ × Option CoreStack × Option CargvStack) :=
  match ptr with
  | none => some (0, stack, string)
  | some update =>
      match flags with
      | .update =>
          match string with
          | none => some (0, stack, string)
          | some str =>
              if update then
                (c00LibmodUpdate alloc mem stack str).map fun stack => (0, stack, string)
              else some (0, stack, string)
      | .result =>
          match string with
          | none => some (0, stack, string)
          | some _ =>
              let selected := c00LibmodSelect stack string
              some (1, selected.1, selected.2)
      | _ => some (0, stack, string)

/-! ### What the store holds -/

/-- Two pointers to equal strings. -/
def SameCode (mem : ℕ → List UInt8) (p q : Ptr) : Prop :=
  ∃ x y, p = some x ∧ q = some y ∧ mem x = mem y

/-- No `strcmp` of the search meets a NULL pointer: as long as no entry was free or had an equal
code, the next one is free, or it has a code and so has the update. -/
def Comparable (mem : ℕ → List UInt8) (code : Ptr) (l : List CoreAddr) : Prop :=
  ∀ l₁ a l₂, l = l₁ ++ a :: l₂ → (∀ b ∈ l₁, b.status ≠ .empty ∧ ¬ SameCode mem b.code code) →
    a.status = .empty ∨ a.code ≠ none ∧ code ≠ none

namespace CoreStack

/-- The request of a `CORE_HANDLE` entry. -/
def held (a : CoreAddr) : Option Request :=
  if a.status = .handle then some ⟨a.code, a.buffer, a.length⟩ else none

/-- The requests in the store. -/
def pending (s : CoreStack) : Multiset Request := Counted.collect held s

/-- The requests that the loops see, in list order. -/
def waiting (s : CoreStack) : List Request := s.visited.filterMap held

/-- Some entry that the loops see is free for reuse. -/
def HasEmpty (s : CoreStack) : Prop := ∃ a ∈ s.visited, a.status = .empty

/-- Some entry that the loops see, taken or not, has a code that reads like `code`. -/
def HasCode (mem : ℕ → List UInt8) (s : CoreStack) (code : Ptr) : Prop :=
  ∃ a ∈ s.visited, SameCode mem a.code code

/-- `r` is the request in the first `CORE_HANDLE` entry. -/
def FirstPending (s : CoreStack) (r : Request) : Prop := s.waiting.head? = some r

theorem held_eq_none_iff {a : CoreAddr} : held a = none ↔ a.status = .empty := by
  cases h : a.status <;> simp [held, h]

theorem held_of_handle {a : CoreAddr} (h : a.status = .handle) :
    held a = some ⟨a.code, a.buffer, a.length⟩ := by
  rw [held, if_pos h]

theorem pending_empty : pending Counted.empty = 0 := rfl

theorem mem_pending_of_waiting {s : CoreStack} {r : Request} (h : r ∈ s.waiting) :
    r ∈ pending s := by
  obtain ⟨a, ha, hr⟩ := List.mem_filterMap.mp h
  exact Multiset.mem_coe.mpr (List.mem_filterMap.mpr ⟨a, Counted.mem_addr_of_mem_visited ha, hr⟩)

theorem FirstPending.mem {s : CoreStack} {r : Request} (h : FirstPending s r) : r ∈ pending s :=
  mem_pending_of_waiting (List.mem_of_head? h)

theorem FirstPending.unique {s : CoreStack} {r r' : Request} (h : FirstPending s r)
    (h' : FirstPending s r') : r = r' := Option.some.inj (h.symm.trans h')

/-- The scan for a `CORE_HANDLE` entry finds the first waiting request, if there is one. -/
theorem scan_handle_cases (s : CoreStack) :
    (∃ i a, s.scan (fun a => a.status = .handle) = some i ∧ s.addr[i]? = some a ∧
      a.status = .handle ∧ FirstPending s ⟨a.code, a.buffer, a.length⟩) ∨
    s.scan (fun a => a.status = .handle) = none ∧ s.waiting = [] := by
  have hfree : ∀ b : CoreAddr, decide (b.status = .handle) = false → held b = none := by
    intro b hb
    cases hst : b.status with
    | empty => exact held_eq_none_iff.mpr hst
    | handle => simp [hst] at hb
  cases hs : s.scan (fun a => a.status = .handle) with
  | none =>
      refine .inr ⟨rfl, List.filterMap_eq_nil_iff.mpr fun a ha => ?_⟩
      exact hfree a (Counted.scan_eq_none_iff.mp hs a ha)
  | some i =>
      obtain ⟨a, ha, hp, hvis, hlt⟩ := Counted.scan_eq_some hs
      have hst : a.status = .handle := by simpa using hp
      refine .inl ⟨i, a, rfl, ha, hst, ?_⟩
      -- nothing waits before position `i`
      have hnil : (s.visited.take i).filterMap held = [] :=
        List.filterMap_eq_nil_iff.mpr fun b hb => hfree b (hlt b hb)
      obtain ⟨hi, rfl⟩ := List.getElem?_eq_some_iff.mp hvis
      calc s.waiting.head?
          = ((s.visited.take i ++ s.visited.drop i).filterMap held).head? := by
            rw [List.take_append_drop, waiting]
        _ = ((s.visited.drop i).filterMap held).head? := by
            rw [List.filterMap_append, hnil, List.nil_append]
        _ = some _ := by
            rw [List.drop_eq_getElem_cons hi, List.filterMap_cons, held_of_handle hst]
            rfl

end CoreStack

open CoreStack

theorem strcmpCode_cases (mem : ℕ → List UInt8) (p q : Ptr) :
    (strcmpCode mem p q = none ∧ (p = none ∨ q = none)) ∨
    ((p ≠ none ∧ q ≠ none) ∧ ∃ equal, strcmpCode mem p q = some equal ∧
      (equal = true ↔ SameCode mem p q)) := by
  cases p with
  | none => exact .inl ⟨by cases q <;> rfl, .inl rfl⟩
  | some p =>
      cases q with
      | none => exact .inl ⟨rfl, .inr rfl⟩
      | some q =>
          refine .inr ⟨⟨Option.some_ne_none p, Option.some_ne_none q⟩, _, rfl, ?_⟩
          rw [decide_eq_true_iff]
          refine ⟨fun h => ⟨p, q, rfl, rfl, h⟩, ?_⟩
          rintro ⟨x, y, hx, hy, hxy⟩
          rwa [Option.some.inj hx, Option.some.inj hy]

section
variable {mem : ℕ → List UInt8} {code : Ptr} {prev : CoreAddr} {rest : List CoreAddr}

/-- A search that stops at the first entry compares no other. -/
theorem comparable_of_stop (hstop : prev.status = .empty ∨ SameCode mem prev.code code) :
    Comparable mem code (prev :: rest) := by
  intro l₁ a l₂ heq hl₁
  cases l₁ with
  | nil =>
      obtain ⟨rfl, -⟩ := List.cons.inj heq
      refine hstop.imp_right ?_
      rintro ⟨x, y, hx, hy, -⟩
      exact ⟨by simp [hx], by simp [hy]⟩
  | cons b l₁ =>
      obtain ⟨rfl, -⟩ := List.cons.inj heq
      obtain ⟨hne, hnot⟩ := hl₁ prev List.mem_cons_self
      exact hstop.elim (fun h => absurd h hne) fun h => absurd h hnot

/-- A search that goes past the first entry goes on with the others. -/
theorem comparable_cons_iff (hst : prev.status ≠ .empty) (hdiff : ¬ SameCode mem prev.code code)
    (hboth : prev.code ≠ none ∧ code ≠ none) :
    Comparable mem code (prev :: rest) ↔ Comparable mem code rest := by
  constructor
  · intro hc l₁ a l₂ heq hl₁
    refine hc (prev :: l₁) a l₂ (by rw [heq]; rfl) fun b hb => ?_
    rcases List.mem_cons.mp hb with rfl | hb
    · exact ⟨hst, hdiff⟩
    · exact hl₁ b hb
  · intro hc l₁ a l₂ heq hl₁
    cases l₁ with
    | nil =>
        obtain ⟨rfl, -⟩ := List.cons.inj heq
        exact .inr hboth
    | cons b l₁ =>
        obtain ⟨rfl, hrest⟩ := List.cons.inj heq
        exact hc l₁ a l₂ hrest fun b hb => hl₁ b (List.mem_cons_of_mem _ hb)

end

/-- What the search finds: it is undefined, it stops, or it comes to the end of the list. -/
theorem searchLoop_cases (mem : ℕ → List UInt8) (code : Ptr) (l : List CoreAddr) :
    (searchLoop mem code l = none ∧ ¬ Comparable mem code l) ∨
    (searchLoop mem code l = some true ∧ Comparable mem code l ∧
      ((∃ a ∈ l, a.status = .empty) ∨ ∃ a ∈ l, SameCode mem a.code code)) ∨
    (searchLoop mem code l = some false ∧ Comparable mem code l ∧
      ∀ a ∈ l, a.status ≠ .empty ∧ ¬ SameCode mem a.code code) := by
  induction l with
  | nil =>
      refine .inr (.inr ⟨rfl, fun l₁ a l₂ h => ?_, by simp⟩)
      simp at h
  | cons prev rest ih =>
      rw [searchLoop]
      by_cases hst : prev.status = .empty
      · rw [if_pos hst]
        exact .inr (.inl ⟨rfl, comparable_of_stop (.inl hst), .inl ⟨prev, List.mem_cons_self, hst⟩⟩)
      rw [if_neg hst]
      obtain ⟨hcmp, hnull⟩ | ⟨hboth, equal, hcmp, hequal⟩ := strcmpCode_cases mem prev.code code
      · refine .inl ⟨by rw [hcmp, Option.bind_none], fun hc => ?_⟩
        rcases hc [] prev rest rfl (by simp) with he | ⟨hp, hq⟩
        · exact hst he
        · exact hnull.elim hp hq
      rw [hcmp, Option.bind_some]
      by_cases hsame : SameCode mem prev.code code
      · rw [if_pos (hequal.mpr hsame)]
        exact .inr (.inl ⟨rfl, comparable_of_stop (.inr hsame),
          .inr ⟨prev, List.mem_cons_self, hsame⟩⟩)
      · rw [if_neg (fun h => hsame (hequal.mp h)), comparable_cons_iff hst hsame hboth]
        obtain ⟨h, hc⟩ | ⟨h, hc, ⟨a, ha, hae⟩ | ⟨a, ha, hac⟩⟩ | ⟨h, hc, hall⟩ := ih
        · exact .inl ⟨h, hc⟩
        · exact .inr (.inl ⟨h, hc, .inl ⟨a, List.mem_cons_of_mem _ ha, hae⟩⟩)
        · exact .inr (.inl ⟨h, hc, .inr ⟨a, List.mem_cons_of_mem _ ha, hac⟩⟩)
        · exact .inr (.inr ⟨h, hc, List.forall_mem_cons.mpr ⟨⟨hst, hsame⟩, hall⟩⟩)

/-- What an update can do: reuse an entry, append one, or nothing; the last when no entry is free
and either some entry already has this code or the allocation fails.  It is undefined when a `strcmp`
meets a NULL pointer. -/
theorem c00LibmodUpdate_cases (alloc : Bool) (mem : ℕ → List UInt8) (s : CoreStack)
    (v : CargvStack) :
    (Comparable mem v.code s.visited ∧ (HasEmpty s ∨ ¬ HasCode mem s v.code) ∧
      ∃ t, c00LibmodUpdate alloc mem (some s) v = some (some t) ∧
        pending t = v.request ::ₘ pending s ∧
        (t.addr.length = s.addr.length ∨ ¬ HasEmpty s ∧ t.addr.length = s.addr.length + 1)) ∨
    (Comparable mem v.code s.visited ∧ ¬ HasEmpty s ∧ (HasCode mem s v.code ∨ alloc = false) ∧
      c00LibmodUpdate alloc mem (some s) v = some (some s)) ∨
    (¬ Comparable mem v.code s.visited ∧ c00LibmodUpdate alloc mem (some s) v = none) := by
  unfold c00LibmodUpdate c00LibmodSearch
  dsimp only
  obtain ⟨hfound, hcomp⟩ | ⟨hfound, hcomp, hhit⟩ | ⟨hfound, hcomp, hall⟩ :=
    searchLoop_cases mem v.code s.visited
  · exact .inr (.inr ⟨hcomp, by rw [hfound]; rfl⟩)
  · rw [hfound, Option.map_some, if_pos rfl]
    unfold c00LibmodXset
    dsimp only
    cases he : s.scan (fun a => a.status = .empty) with
    | some i =>
        obtain ⟨a, ha, hst, hvis, -⟩ := Counted.scan_eq_some he
        have hst : a.status = .empty := by simpa using hst
        have hempty : HasEmpty s := ⟨a, List.mem_of_getElem? hvis, hst⟩
        refine .inl ⟨hcomp, .inl hempty, s.modify i fun _ => .holding v.request, rfl, ?_, .inl ?_⟩
        · exact Counted.collect_modify_gain _ ha (held_eq_none_iff.mpr hst) rfl
        · rw [Counted.addr_modify, List.length_modify]
    | none =>
        have hne : ¬ HasEmpty s := fun ⟨a, ha, hst⟩ => by
          simpa [hst] using Counted.scan_eq_none_iff.mp he a ha
        exact .inr (.inl ⟨hcomp, hne, .inl (hhit.resolve_left hne), rfl⟩)
  · rw [hfound, Option.map_some, if_neg Bool.false_ne_true]
    have hne : ¬ HasEmpty s := fun ⟨a, ha, hst⟩ => (hall a ha).1 hst
    cases alloc with
    | false => exact .inr (.inl ⟨hcomp, hne, .inr rfl, rfl⟩)
    | true =>
        refine .inl ⟨hcomp, .inr fun ⟨a, ha, hcode⟩ => (hall a ha).2 hcode,
          s.push (.holding v.request), rfl, Counted.collect_push s rfl, .inr ⟨hne, ?_⟩⟩
        rw [Counted.addr_push, List.length_append, List.length_singleton]

/-- What a result can do: take out the first waiting request, or nothing when none waits. -/
theorem c00LibmodSelect_cases (s : CoreStack) (v : CargvStack) :
    (∃ r t, FirstPending s r ∧ pending s = r ::ₘ pending t ∧ t.addr.length = s.addr.length ∧
      c00LibmodSelect (some s) (some v) =
        (some t, some { v with buffer := r.buffer, length := r.length, code := r.code })) ∨
    s.waiting = [] ∧ c00LibmodSelect (some s) (some v) = (some s, some v) := by
  rcases scan_handle_cases s with ⟨i, a, hs, ha, hst, hfirst⟩ | ⟨hs, h0⟩
  · refine .inl ⟨_, s.modify i CoreAddr.taken, hfirst, ?_, ?_, by simp [c00LibmodSelect, hs, ha]⟩
    · exact Counted.collect_modify_loss _ ha (held_of_handle hst) rfl
    · rw [Counted.addr_modify, List.length_modify]
  · exact .inr ⟨h0, by simp [c00LibmodSelect, hs]⟩

end Carroll
