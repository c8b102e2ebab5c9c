import Mathlib.Data.List.AList
import Mathlib.Tactic

/-! # Linked lists in a heap

A heap is a finite map from addresses to the blocks allocated there, each a value and a pointer
to the next block; `0` is the null pointer.  To read, write or free through a pointer to no block
is undefined, and so is a result that needs it (`none`).

`Seg h p l q` says that the blocks `l` lie one after the other from `p` on, the last one pointing
to `q`; a list is a segment that ends in `0`.  A list is determined by its head (`Seg.unique`), no
block occurs twice in it (`Seg.nodup`), and it is no longer than the heap (`Seg.length_le`), so
that a loop that looks for its end in so many rounds is a loop without a bound.

The loops are those of programs that keep an element counter beside the head: `scan` looks for
the first block that satisfies a condition, `mapLoop` rewrites the values, `link` appends a block,
and `freeLoop` frees block after block, reading the `next` of each after it was freed.  A `Queue` is
a heap with the head and the counter of one list. -/

namespace Carroll

namespace Links
variable {α : Type}

/-- A block: a value and the next pointer. -/
structure Node (α : Type) where
  val : α
  next : ℕ

/-- The allocated blocks. -/
abbrev Heap (α : Type) := AList fun _ : ℕ => Node α

/-- Read the block at `p`. -/
def read (h : Heap α) (p : ℕ) : Option (Node α) := if p = 0 then none else h.lookup p

/-- `free(p)`. -/
def free (h : Heap α) (p : ℕ) : Option (Heap α) := (read h p).map fun _ => h.erase p

/-- Where an allocator puts the next block: at an address that is not in use. -/
structure Malloc (α : Type) where
  addr : Heap α → ℕ
  ne_zero : ∀ h, addr h ≠ 0
  fresh : ∀ h, addr h ∉ h

/-- An allocator that goes upwards. -/
def Malloc.above : Malloc α where
  addr h := h.keys.sum + 1
  ne_zero _ := Nat.succ_ne_zero _
  fresh h hmem := by
    have := List.single_le_sum (fun _ _ => Nat.zero_le _) _ (AList.mem_keys.mp hmem)
    omega

/-- The first of at most `count` blocks from `p` on that satisfies `pred`. -/
def scan (pred : α → Bool) (h : Heap α) : ℕ → ℕ → Option (Option ℕ)
  | 0, _ => some none
  | count + 1, p =>
      if p = 0 then some none
      else (read h p).bind fun n => if pred n.val then some (some p) else scan pred h count n.next

/-- The block at the end of the list from `p` on, looked for in so many rounds. -/
def lastLoop (h : Heap α) : ℕ → ℕ → Option ℕ
  | 0, _ => none
  | rounds + 1, p =>
      (read h p).bind fun n => if n.next = 0 then some p else lastLoop h rounds n.next

/-- Append the block `q` to the list at `head`: the heap and the head afterwards. -/
def link (h : Heap α) (head q : ℕ) : Option (Heap α × ℕ) :=
  if head = 0 then (read h q).map fun n => (h.insert q { n with next := 0 }, q)
  else
    (lastLoop h h.keys.length head).bind fun last =>
      (read h last).map fun n => (h.insert last { n with next := q }, head)

/-- Rewrite the values of at most `count` blocks from `p` on. -/
def mapLoop (f : α → α) (h : Heap α) : ℕ → ℕ → Option (Heap α)
  | 0, _ => some h
  | count + 1, p =>
      if p = 0 then some h
      else (read h p).bind fun n => mapLoop f (h.insert p ⟨f n.val, n.next⟩) count n.next

/-- Free at most `count` blocks from `p` on; `next` is read from the block that was freed. -/
def freeLoop (h : Heap α) : ℕ → ℕ → Option (Heap α)
  | 0, _ => some h
  | count + 1, p =>
      if p = 0 then some h
      else (free h p).bind fun h => (read h p).bind fun n => freeLoop h count n.next

/-- Visit at most `count` blocks from `p` on: each is rewritten, or freed when `f` gives nothing, and
leaves the events `ev`.  The `next` of a block is what it was before. -/
def visitLoop {β : Type} (f : α → Option α) (ev : ℕ → α → List β) (h : Heap α) :
    ℕ → ℕ → Option (Heap α × List β)
  | 0, _ => some (h, [])
  | count + 1, p =>
      if p = 0 then some (h, [])
      else
        (read h p).bind fun n =>
          let h := match f n.val with
            | some b => h.insert p ⟨b, n.next⟩
            | none => h.erase p
          (visitLoop f ev h count n.next).map fun r => (r.1, ev p n.val ++ r.2)

/-! ### Reading -/

theorem read_zero (h : Heap α) : read h 0 = none := if_pos rfl

theorem read_ne_zero {h : Heap α} {p : ℕ} {n : Node α} (hp : read h p = some n) : p ≠ 0 := by
  intro h0
  rw [h0, read_zero] at hp
  cases hp

theorem mem_of_read {h : Heap α} {p : ℕ} {n : Node α} (hp : read h p = some n) : p ∈ h := by
  rw [read, if_neg (read_ne_zero hp)] at hp
  rw [← AList.lookup_isSome, hp, Option.isSome_some]

theorem read_insert (h : Heap α) {p : ℕ} (hp : p ≠ 0) (n : Node α) :
    read (h.insert p n) p = some n := by
  rw [read, if_neg hp, AList.lookup_insert]

theorem read_insert_ne (h : Heap α) {p q : ℕ} (hpq : q ≠ p) (n : Node α) :
    read (h.insert p n) q = read h q := by
  unfold read
  split_ifs
  · rfl
  · exact AList.lookup_insert_ne hpq

theorem read_erase (h : Heap α) (p : ℕ) : read (h.erase p) p = none := by
  unfold read
  split_ifs
  · rfl
  · exact AList.lookup_erase p h

theorem read_erase_ne (h : Heap α) {p q : ℕ} (hpq : q ≠ p) : read (h.erase p) q = read h q := by
  unfold read
  split_ifs
  · rfl
  · exact AList.lookup_erase_ne hpq

/-- Freeing from a block on fails as soon as its `next` is read. -/
theorem freeLoop_eq_none (h : Heap α) (count : ℕ) {p : ℕ} (hp : p ≠ 0) :
    freeLoop h (count + 1) p = none := by
  rw [freeLoop, if_neg hp, free]
  cases read h p with
  | none => rfl
  | some n => rw [Option.map_some, Option.bind_some, read_erase, Option.bind_none]

/-! ### Segments -/

/-- The blocks `l` from `p` on, the last one pointing to `q`. -/
inductive Seg (h : Heap α) : ℕ → List (ℕ × α) → ℕ → Prop
  | nil (p : ℕ) : Seg h p [] p
  | cons {p q r : ℕ} {a : α} {l : List (ℕ × α)} :
      read h p = some ⟨a, q⟩ → Seg h q l r → Seg h p ((p, a) :: l) r

namespace Seg
variable {h h' : Heap α} {p q r : ℕ} {l l' : List (ℕ × α)}

theorem append (hl : Seg h p l q) (hl' : Seg h q l' r) : Seg h p (l ++ l') r := by
  induction hl with
  | nil p => exact hl'
  | cons hread _ ih => exact .cons hread (ih hl')

theorem split (hl : Seg h p (l ++ l') r) : ∃ q, Seg h p l q ∧ Seg h q l' r := by
  induction l generalizing p with
  | nil => exact ⟨p, .nil p, hl⟩
  | cons x l ih =>
      cases hl with
      | cons hread hl =>
          obtain ⟨q, hq, hr⟩ := ih hl
          exact ⟨q, .cons hread hq, hr⟩

/-- A segment is an initial part of the list from the same head. -/
theorem isPrefix (hl : Seg h p l q) (hl' : Seg h p l' 0) :
    ∃ rest, l' = l ++ rest ∧ Seg h q rest 0 := by
  induction hl generalizing l' with
  | nil p => exact ⟨l', rfl, hl'⟩
  | cons hread _ ih =>
      cases hl' with
      | nil => exact absurd (read_zero h) (by rw [hread]; simp)
      | cons hread' hl' =>
          rw [hread, Option.some.injEq, Node.mk.injEq] at hread'
          obtain ⟨rfl, rfl⟩ := hread'
          obtain ⟨rest, rfl, hrest⟩ := ih hl'
          exact ⟨rest, rfl, hrest⟩

theorem eq_nil (hl : Seg h 0 l 0) : l = [] := by
  cases hl with
  | nil => rfl
  | cons hread _ => exact absurd rfl (read_ne_zero hread)

theorem unique (hl : Seg h p l 0) (hl' : Seg h p l' 0) : l' = l := by
  obtain ⟨rest, rfl, hrest⟩ := hl.isPrefix hl'
  rw [hrest.eq_nil, List.append_nil]

/-- A segment that does not end in `0` is shorter than the list from its head. -/
theorem length_lt (hl : Seg h p l q) (hq : q ≠ 0) (hl' : Seg h p l' 0) : l.length < l'.length := by
  obtain ⟨rest, rfl, hrest⟩ := hl.isPrefix hl'
  cases hrest with
  | nil => exact absurd rfl hq
  | cons _ _ => simp

theorem read_of_mem (hl : Seg h p l q) : ∀ x ∈ l, ∃ n, read h x.1 = some n ∧ n.val = x.2 := by
  induction hl with
  | nil p => exact fun x hx => absurd hx List.not_mem_nil
  | cons hread _ ih =>
      intro x hx
      rcases List.mem_cons.mp hx with rfl | hx
      · exact ⟨_, hread, rfl⟩
      · exact ih x hx

/-- Blocks outside a segment do not matter to it. -/
theorem congr (hl : Seg h p l q) (hh : ∀ x ∈ l, read h' x.1 = read h x.1) : Seg h' p l q := by
  induction hl with
  | nil p => exact .nil p
  | cons hread _ ih =>
      obtain ⟨hx, hh⟩ := List.forall_mem_cons.mp hh
      exact .cons (hx.trans hread) (ih hh)

/-- No block occurs twice: the list from its second occurrence would be the list from the first. -/
theorem nodup (hl : Seg h p l 0) : (l.map Prod.fst).Nodup := by
  induction l generalizing p with
  | nil => exact List.nodup_nil
  | cons x l ih =>
      have hwhole := hl
      cases hl with
      | cons hread hl =>
          rw [List.map_cons, List.nodup_cons]
          refine ⟨?_, ih hl⟩
          intro hmem
          obtain ⟨y, hy, hyp⟩ := List.mem_map.mp hmem
          obtain ⟨l₁, l₂, rfl⟩ := List.append_of_mem hy
          obtain ⟨q, -, hq⟩ := hl.split
          have hstart : Seg h p (y :: l₂) 0 := by
            cases hq with
            | cons hread' hq =>
                obtain rfl : _ = p := hyp
                exact .cons hread' hq
          have hlen := congrArg List.length (hstart.unique hwhole)
          simp only [List.length_cons, List.length_append] at hlen
          omega

theorem length_le (hl : Seg h p l 0) : l.length ≤ h.keys.length := by
  have hsub : l.map Prod.fst ⊆ h.keys := by
    intro a ha
    obtain ⟨x, hx, rfl⟩ := List.mem_map.mp ha
    obtain ⟨n, hn, -⟩ := hl.read_of_mem x hx
    exact AList.mem_keys.mp (mem_of_read hn)
  have := (List.subperm_of_subset hl.nodup hsub).length_le
  rwa [List.length_map] at this

end Seg

/-! ### The loops on a list -/

section
variable {h : Heap α} {p q : ℕ} {l : List (ℕ × α)}

/-- The counted search of a list, with its number of blocks as the count. -/
theorem scan_eq (pred : α → Bool) (hl : Seg h p l 0) :
    scan pred h l.length p = some ((l.find? fun x => pred x.2).map Prod.fst) := by
  induction l generalizing p with
  | nil => rfl
  | cons x l ih =>
      cases hl with
      | @cons _ _ _ a _ hread hl =>
          rw [List.length_cons, scan, if_neg (read_ne_zero hread), hread, Option.bind_some]
          by_cases ha : pred a = true
          · rw [if_pos ha, List.find?_cons, ha]
            rfl
          · rw [if_neg ha, List.find?_cons, Bool.eq_false_iff.mpr ha]
            exact ih hl

/-- The search for the end finds the last block. -/
theorem lastLoop_eq {a : α} {rounds : ℕ} (hl : Seg h p (l ++ [(q, a)]) 0) (hr : l.length < rounds) :
    lastLoop h rounds p = some q := by
  induction l generalizing p rounds with
  | nil =>
      obtain ⟨rounds, rfl⟩ := Nat.exists_eq_succ_of_ne_zero (Nat.ne_of_gt hr)
      cases hl with
      | cons hread hl =>
          cases hl
          rw [lastLoop, hread, Option.bind_some, if_pos rfl]
  | cons x l ih =>
      obtain ⟨rounds, rfl⟩ := Nat.exists_eq_succ_of_ne_zero (Nat.ne_of_gt (Nat.zero_lt_of_lt hr))
      cases hl with
      | @cons _ next _ _ _ hread hl =>
          have hnext : next ≠ 0 := by
            intro h0
            rw [h0] at hl
            exact absurd hl.eq_nil (by simp)
          rw [lastLoop, hread, Option.bind_some, if_neg hnext]
          exact ih hl (by simpa using hr)

/-- A block whose value is rewritten keeps its place. -/
theorem Seg.setVal {r : ℕ} {l₁ l₂ : List (ℕ × α)} {a : α} {n : Node α}
    (hl : Seg h p (l₁ ++ (q, a) :: l₂) r) (hnd : ((l₁ ++ (q, a) :: l₂).map Prod.fst).Nodup)
    (hn : read h q = some n) (b : α) :
    Seg (h.insert q ⟨b, n.next⟩) p (l₁ ++ (q, b) :: l₂) r := by
  obtain ⟨t, h₁, h₂⟩ := hl.split
  rw [List.map_append, List.map_cons, List.nodup_append, List.nodup_cons] at hnd
  obtain ⟨-, ⟨hq₂, -⟩, hq₁⟩ := hnd
  have hframe : ∀ k : List (ℕ × α), (∀ x ∈ k, x.1 ≠ q) →
      ∀ x ∈ k, read (h.insert q ⟨b, n.next⟩) x.1 = read h x.1 :=
    fun k hk x hx => read_insert_ne h (hk x hx) _
  cases h₂ with
  | cons hread h₂ =>
      rw [hread, Option.some.injEq] at hn
      subst hn
      refine (h₁.congr (hframe _ fun x hx => ?_)).append
        (.cons (read_insert h (read_ne_zero hread) _) (h₂.congr (hframe _ fun x hx => ?_)))
      · exact hq₁ _ (List.mem_map_of_mem hx) q List.mem_cons_self
      · intro hxq
        exact hq₂ (List.mem_map.mpr ⟨x, hx, hxq⟩)

/-- Appending a block: it comes last, and points to where it pointed before, or to `0` if it is
the only one. -/
theorem link_eq {n : Node α} (hl : Seg h p l 0) (hq : read h q = some n)
    (hnew : q ∉ l.map Prod.fst) :
    ∃ h' p', link h p q = some (h', p') ∧
      Seg h' p' (l ++ [(q, n.val)]) (if l = [] then 0 else n.next) := by
  rcases List.eq_nil_or_concat' l with rfl | ⟨l, ⟨last, a⟩, rfl⟩
  · cases hl
    refine ⟨_, _, by rw [link, if_pos rfl, hq, Option.map_some], ?_⟩
    rw [if_pos rfl]
    exact .cons (read_insert h (read_ne_zero hq) _) (.nil 0)
  · have hp : p ≠ 0 := by
      intro h0
      rw [h0] at hl
      exact absurd hl.eq_nil (by simp)
    have hlast : lastLoop h h.keys.length p = some last := by
      have := hl.length_le
      rw [List.length_append, List.length_singleton] at this
      exact lastLoop_eq hl this
    obtain ⟨t, h₁, h₂⟩ := hl.split
    have hnd := hl.nodup
    rw [List.map_append, List.nodup_append] at hnd
    rw [List.map_append, List.mem_append, not_or] at hnew
    have hqlast : q ≠ last := by
      intro h
      exact hnew.2 (by rw [h]; simp)
    cases h₂ with
    | cons hread h₂ =>
        refine ⟨_, _, by rw [link, if_neg hp, hlast, Option.bind_some, hread, Option.map_some], ?_⟩
        rw [if_neg (by simp)]
        refine Seg.append (Seg.append (h₁.congr fun x hx => ?_)
          (.cons (read_insert h (read_ne_zero hread) _) (.nil q)))
          (.cons ((read_insert_ne h hqlast _).trans hq) (.nil n.next))
        exact read_insert_ne h (hnd.2.2 _ (List.mem_map_of_mem hx) last (by simp)) _

/-- The same for a block that was just allocated. -/
theorem link_malloc (hl : Seg h p l 0) (m : Malloc α) (n : Node α) :
    ∃ h' p', link (h.insert (m.addr h) n) p (m.addr h) = some (h', p') ∧
      Seg h' p' (l ++ [(m.addr h, n.val)]) (if l = [] then 0 else n.next) := by
  have hnew : m.addr h ∉ l.map Prod.fst := by
    intro hmem
    obtain ⟨x, hx, hxp⟩ := List.mem_map.mp hmem
    obtain ⟨n, hn, -⟩ := hl.read_of_mem x hx
    exact m.fresh h (hxp ▸ mem_of_read hn)
  refine link_eq (hl.congr fun x hx => read_insert_ne _ ?_ _)
    (read_insert h (m.ne_zero h) n) hnew
  intro hxp
  exact hnew (hxp ▸ List.mem_map_of_mem hx)

/-- The blocks behind the first are others. -/
theorem Seg.ne_of_mem_tail {x : ℕ × α} (hl : Seg h p (x :: l) 0) : ∀ y ∈ l, y.1 ≠ x.1 := by
  have hnd := hl.nodup
  rw [List.map_cons, List.nodup_cons] at hnd
  intro y hy hyx
  exact hnd.1 (List.mem_map.mpr ⟨y, hy, hyx⟩)

/-- Rewriting the values of a list, with its number of blocks as the count: nothing else changes. -/
theorem mapLoop_eq (f : α → α) (hl : Seg h p l 0) :
    ∃ h', mapLoop f h l.length p = some h' ∧ Seg h' p (l.map fun x => (x.1, f x.2)) 0 ∧
      ∀ k, k ∉ l.map Prod.fst → read h' k = read h k := by
  induction l generalizing h p with
  | nil => exact ⟨h, rfl, by rwa [List.map_nil], fun _ _ => rfl⟩
  | cons x l ih =>
      have hnd := hl.nodup
      have hne := hl.ne_of_mem_tail
      cases hl with
      | @cons _ next _ a _ hread hl =>
          rw [List.map_cons, List.nodup_cons] at hnd
          have hp := read_ne_zero hread
          have htail : Seg (h.insert p ⟨f a, next⟩) next l 0 :=
            hl.congr fun y hy => read_insert_ne h (hne y hy) _
          obtain ⟨h', hloop, hseg, hframe⟩ := ih htail
          refine ⟨h', ?_, ?_, ?_⟩
          · rw [List.length_cons, mapLoop, if_neg hp, hread, Option.bind_some]
            exact hloop
          · exact .cons ((hframe p hnd.1).trans (read_insert h hp _)) hseg
          · intro k hk
            rw [List.map_cons, List.mem_cons, not_or] at hk
            exact (hframe k hk.2).trans (read_insert_ne h hk.1 _)

/-- A visit of all blocks leaves the events of their values in order. -/
theorem visitLoop_eq {β : Type} (f : α → Option α) (ev : ℕ → α → List β) (hl : Seg h p l 0) :
    ∃ h', visitLoop f ev h l.length p = some (h', l.flatMap fun x => ev x.1 x.2) := by
  induction l generalizing h p with
  | nil => exact ⟨h, rfl⟩
  | cons x l ih =>
      have hne := hl.ne_of_mem_tail
      cases hl with
      | @cons _ next _ a _ hread hl =>
          rw [List.length_cons, visitLoop, if_neg (read_ne_zero hread), hread, Option.bind_some]
          cases hf : f a with
          | some b =>
              obtain ⟨h', hloop⟩ := ih (hl.congr fun y hy => read_insert_ne h (hne y hy) ⟨b, next⟩)
              refine ⟨h', ?_⟩
              dsimp only
              rw [hloop, Option.map_some, List.flatMap_cons]
          | none =>
              obtain ⟨h', hloop⟩ := ih (hl.congr fun y hy => read_erase_ne h (hne y hy))
              refine ⟨h', ?_⟩
              dsimp only
              rw [hloop, Option.map_some, List.flatMap_cons]

/-- A visit that frees nothing rewrites the values. -/
theorem visitLoop_some {β : Type} (f : α → α) (ev : ℕ → α → List β) (h : Heap α) (count p : ℕ) :
    (visitLoop (fun a => some (f a)) ev h count p).map Prod.fst = mapLoop f h count p := by
  induction count generalizing h p with
  | zero => rfl
  | succ count ih =>
      rw [visitLoop, mapLoop]
      split_ifs
      · rfl
      · cases read h p with
        | none => rfl
        | some n =>
            rw [Option.bind_some, Option.bind_some, ← ih, Option.map_map]
            rfl

end

/-! ### Queues -/

/-- A heap, the head of a list in it, and an unsigned counter of its blocks. -/
structure Queue (α : Type) where
  heap : Heap α
  count : ℕ
  head : ℕ

namespace Queue

/-- No block. -/
def empty : Queue α := ⟨∅, 0, 0⟩

/-- Append a block with the value `a` whose `next` is set to `0`. -/
def append (c : Queue α) (m : Malloc α) (a : α) : Option (Queue α) :=
  (link (c.heap.insert (m.addr c.heap) ⟨a, 0⟩) c.head (m.addr c.heap)).map fun r =>
    ⟨r.1, (c.count + 1) % 2 ^ 32, r.2⟩

/-- Rewrite the values. -/
def map (f : α → α) (c : Queue α) : Option (Queue α) :=
  (mapLoop f c.heap c.count c.head).map fun heap => { c with heap := heap }

/-- Free the blocks and reset the counter; the head keeps its value. -/
def freeAll (c : Queue α) : Option (Queue α) :=
  (freeLoop c.heap c.count c.head).map fun heap => { c with heap := heap, count := 0 }

/-- Visit the blocks. -/
def visit {β : Type} (f : α → Option α) (ev : ℕ → α → List β) (c : Queue α) :
    Option (Queue α × List β) :=
  (visitLoop f ev c.heap c.count c.head).map fun r => ({ c with heap := r.1 }, r.2)

/-- The list holds the values `l`, all its blocks are allocated, and the counter is its length. -/
def Holds (c : Queue α) (l : List α) : Prop :=
  ∃ L, Seg c.heap c.head L 0 ∧ L.map Prod.snd = l ∧ c.count = L.length

section
variable {c : Queue α} {l : List α}

theorem holds_empty : (empty : Queue α).Holds [] := ⟨[], .nil 0, rfl, rfl⟩

theorem Holds.count_eq (h : c.Holds l) : c.count = l.length := by
  obtain ⟨L, -, rfl, hcount⟩ := h
  rw [hcount, List.length_map]

/-- The block that is appended comes last, and the counter advances. -/
theorem append_seg {L : List (ℕ × α)} (hseg : Seg c.heap c.head L 0) (m : Malloc α) (a : α) :
    ∃ c', c.append m a = some c' ∧ Seg c'.heap c'.head (L ++ [(m.addr c.heap, a)]) 0 ∧
      c'.count = (c.count + 1) % 2 ^ 32 := by
  obtain ⟨heap, head, hlink, hlong⟩ := link_malloc hseg m ⟨a, 0⟩
  rw [ite_self] at hlong
  exact ⟨_, by rw [append, hlink, Option.map_some], hlong, rfl⟩

/-- What appending leaves: the list is kept exactly when the counter does not wrap. -/
theorem append_eq (h : c.Holds l) (m : Malloc α) (a : α) :
    ∃ c', c.append m a = some c' ∧ (c'.Holds (l ++ [a]) ↔ l.length + 1 < 2 ^ 32) := by
  have hcount := h.count_eq
  obtain ⟨L, hseg, rfl, -⟩ := h
  obtain ⟨c', happ, hlong, hcount'⟩ := append_seg hseg m a
  refine ⟨c', happ, ?_, ?_⟩
  · intro h'
    have hlen := h'.count_eq
    rw [List.length_append, List.length_singleton] at hlen
    have hlt : (c.count + 1) % 2 ^ 32 < 2 ^ 32 := Nat.mod_lt _ (by norm_num)
    omega
  · intro hlt
    refine ⟨_, hlong, by simp, ?_⟩
    rw [hcount', hcount, Nat.mod_eq_of_lt hlt, List.length_append, List.length_map,
      List.length_singleton]

theorem append_holds_iff (h : c.Holds l) (m : Malloc α) (a : α) :
    (∃ c', c.append m a = some c' ∧ c'.Holds (l ++ [a])) ↔ l.length + 1 < 2 ^ 32 := by
  obtain ⟨c', happ, hiff⟩ := append_eq h m a
  rw [← hiff]
  constructor
  · rintro ⟨c'', happ', h'⟩
    rwa [Option.some.inj (happ.symm.trans happ')]
  · intro h'
    exact ⟨c', happ, h'⟩

theorem map_holds (f : α → α) (h : c.Holds l) :
    ∃ c', c.map f = some c' ∧ c'.Holds (l.map f) := by
  obtain ⟨L, hseg, rfl, hcount⟩ := h
  obtain ⟨heap, hloop, hseg', -⟩ := mapLoop_eq f hseg
  refine ⟨{ c with heap := heap }, by rw [map, hcount, hloop, Option.map_some], _, hseg',
    by simp, ?_⟩
  rw [List.length_map]
  exact hcount

/-- A visit of a list leaves the events of its blocks in order; one that frees nothing leaves the list
with its values rewritten, at the same addresses. -/
theorem visit_map {β : Type} (f : α → α) (ev : ℕ → α → List β) {L : List (ℕ × α)}
    (hseg : Seg c.heap c.head L 0) (hcount : c.count = L.length) :
    ∃ c', c.visit (fun a => some (f a)) ev = some (c', L.flatMap fun x => ev x.1 x.2) ∧
      Seg c'.heap c'.head (L.map fun x => (x.1, f x.2)) 0 ∧ c'.count = L.length := by
  obtain ⟨heap, hvisit⟩ := visitLoop_eq (fun a => some (f a)) ev hseg
  obtain ⟨heap', hmap, hseg', -⟩ := mapLoop_eq f hseg
  have hsame := visitLoop_some f ev c.heap L.length c.head
  rw [hvisit, hmap, Option.map_some, Option.some.injEq] at hsame
  obtain rfl : heap = heap' := hsame
  refine ⟨{ c with heap := heap }, ?_, hseg', hcount⟩
  rw [visit, hcount, hvisit, Option.map_some, ← hcount]

theorem visit_events {β : Type} (f : α → Option α) (ev : ℕ → α → List β) {L : List (ℕ × α)}
    (hseg : Seg c.heap c.head L 0) (hcount : c.count = L.length) :
    ∃ c', c.visit f ev = some (c', L.flatMap fun x => ev x.1 x.2) := by
  obtain ⟨heap, hvisit⟩ := visitLoop_eq f ev hseg
  refine ⟨{ c with heap := heap }, ?_⟩
  rw [visit, hcount, hvisit, Option.map_some, ← hcount]

/-- With the counter at 0 nothing is visited. -/
theorem visit_zero {β : Type} (f : α → Option α) (ev : ℕ → α → List β) (hcount : c.count = 0) :
    c.visit f ev = some (c, []) := by
  rw [visit, hcount, visitLoop, Option.map_some, ← hcount]

/-- Freeing the blocks of a list that is not empty reads a block after it was freed. -/
theorem freeAll_holds_iff (h : c.Holds l) :
    (∃ c', c.freeAll = some c' ∧ c'.Holds []) ↔ l = [] := by
  obtain ⟨L, hseg, rfl, hcount⟩ := h
  rw [freeAll, hcount]
  cases L with
  | nil =>
      refine iff_of_true ⟨_, rfl, [], ?_, rfl, rfl⟩ rfl
      exact hseg
  | cons x L =>
      have hhead : c.head ≠ 0 := by
        cases hseg with
        | cons hread _ => exact read_ne_zero hread
      rw [List.length_cons, freeLoop_eq_none _ _ hhead]
      simp

end

end Queue

end Links

end Carroll
