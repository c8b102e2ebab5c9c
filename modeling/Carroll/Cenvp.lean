import Carroll.Links
import Carroll.Mem

/-! # The environment store (`cenvp.c`)

`_envp_add` appends an entry to the chain of a `zconfig_server_t`, `_envp_get` returns the value of
the first entry of a name, `_envp_set` rewrites that value and then appends an entry in any case,
and `_envp_clean` frees the chain.

* `malloc` answers with a block of any content (`old`), or `NULL`; `_envp_add` sets the name and
  the value, and `next` only when the chain is empty.
* The strings of an entry are copies of the arguments, and their allocation succeeds.
* `none` stands for undefined behaviour: an access through `NULL`, to a block that is not
  allocated, or after it was freed. -/

namespace Carroll
open Links

/-- `name` and `value` of `zconfig_envpath_t`. -/
structure Envpath where
  name : List UInt8
  value : List UInt8
deriving DecidableEq, Repr

/-- `count` and `envp` of `zconfig_server_t`, and the heap with the entries. -/
structure ZconfigServer where
  heap : Heap Envpath
  count : ℕ
  envp : ℕ

/-- A store that starts empty. -/
def ZconfigServer.zero : ZconfigServer := ⟨∅, 0, 0⟩

/-- The loop of `_envp_get` and `_envp_set`: the first entry of a name. -/
def envpFind (ptr : ZconfigServer) (name : List UInt8) : Option (Option ℕ) :=
  scan (fun e => decide (e.name = name)) ptr.heap ptr.count ptr.envp

/-- `_envp_get`: the value, or `NULL`. -/
def envpGet (ptr : ZconfigServer) (name : List UInt8) : Option (Option (List UInt8)) :=
  (envpFind ptr name).bind fun
    | none => some none
    | some prev => (read ptr.heap prev).map fun n => some n.val.value

/-- `_envp_add`: `ret` and the store afterwards. -/
def envpAdd (ptr : ZconfigServer) (name value : List UInt8) (m : Malloc Envpath)
    (old : Option (Node Envpath)) : Option (ℕ × ZconfigServer) :=
  match old with
  | none => some (0, ptr)
  | some old =>
      let upd := m.addr ptr.heap
      let heap := ptr.heap.insert upd ⟨⟨name, value⟩, old.next⟩
      (link heap ptr.envp upd).map fun r => (1, ⟨r.1, u32 (ptr.count + 1), r.2⟩)

/-- `CCDELETE(prev->value); CCNEW(prev->value, value);` -/
def envpRewrite (heap : Heap Envpath) (prev : ℕ) (value : List UInt8) : Option (Heap Envpath) :=
  (read heap prev).map fun n => heap.insert prev ⟨{ n.val with value := value }, n.next⟩

/-- `_envp_set`. -/
def envpSet (ptr : ZconfigServer) (name value : List UInt8) (m : Malloc Envpath)
    (old : Option (Node Envpath)) : Option (ℕ × ZconfigServer) :=
  (envpFind ptr name).bind fun
    | none => envpAdd ptr name value m old
    | some prev =>
        (envpRewrite ptr.heap prev value).bind fun heap =>
          envpAdd { ptr with heap := heap } name value m old

/-- `_envp_clean`: `envp` keeps its value. -/
def envpClean (ptr : ZconfigServer) : Option (ℕ × ZconfigServer) :=
  (freeLoop ptr.heap ptr.count ptr.envp).map fun heap => (1, { ptr with heap := heap, count := 0 })

/-- A call. -/
inductive EnvpCall where
  | add (name value : List UInt8) (m : Malloc Envpath) (old : Option (Node Envpath))
  | set (name value : List UInt8) (m : Malloc Envpath) (old : Option (Node Envpath))
  | get (name : List UInt8)
  | clean

/-- What a call returns and leaves; `_envp_get` leaves the store as it is. -/
def envpStep (ptr : ZconfigServer) : EnvpCall → Option (ℕ × ZconfigServer)
  | .add name value m old => envpAdd ptr name value m old
  | .set name value m old => envpSet ptr name value m old
  | .get name => (envpGet ptr name).map fun _ => (0, ptr)
  | .clean => envpClean ptr

/-! ### What a map with update is to do -/

/-- `count` is the number of entries of the chain, which ends in `NULL`. -/
def EnvpChained (ptr : ZconfigServer) : Prop :=
  ∃ l, Seg ptr.heap ptr.envp l 0 ∧ ptr.count = l.length

/-- The laws of a call that returned `ret` and led from `ptr` to `ptr'`. -/
def EnvpLaw (ptr : ZconfigServer) (ret : ℕ) (ptr' : ZconfigServer) : EnvpCall → Prop
  | .add name value _ _ =>
      ret = 1 → envpGet ptr name = some none → envpGet ptr' name = some (some value)
  | .set name value _ _ =>
      (ret = 1 → envpGet ptr' name = some (some value)) ∧
      (∀ other, other ≠ name → envpGet ptr' other = envpGet ptr other) ∧
      (envpGet ptr name ≠ some none → ptr'.count = ptr.count)
  | .get _ => ptr' = ptr
  | .clean => ∀ name, envpGet ptr' name = some none

/-- All calls of the sequence are defined, keep the chain, and obey the laws. -/
def EnvpBehaves (ptr : ZconfigServer) : List EnvpCall → Prop
  | [] => True
  | c :: cs => ∃ ret ptr', envpStep ptr c = some (ret, ptr') ∧ EnvpChained ptr' ∧
      EnvpLaw ptr ret ptr' c ∧ EnvpBehaves ptr' cs

/-! ### The entries as a list -/

/-- The value of the first entry of a name. -/
def lookupEnv (l : List Envpath) (name : List UInt8) : Option (List UInt8) :=
  (l.find? fun e => decide (e.name = name)).map (·.value)

/-- The first entry of a name with another value. -/
def updateEnv (name value : List UInt8) : List Envpath → List Envpath
  | [] => []
  | e :: l => if e.name = name then { e with value := value } :: l else e :: updateEnv name value l

/-- One more entry keeps the count and the end of the chain: the block is the only one, or its old
content has `NULL` for `next`. -/
def EnvpFits (l : List Envpath) (old : Node Envpath) : Prop :=
  l.length + 1 < 2 ^ 32 ∧ (l = [] ∨ old.next = 0)

/-- The calls that the store can take when it holds `l`. -/
def EnvpAllowed (l : List Envpath) : EnvpCall → Prop
  | .add _ _ _ old => ∀ n, old = some n → EnvpFits l n
  | .set name _ _ old => ∀ n, old = some n → lookupEnv l name = none ∧ EnvpFits l n
  | .get _ => True
  | .clean => l = []

/-- What it holds afterwards. -/
def envpAfter (l : List Envpath) : EnvpCall → List Envpath
  | .add name value _ old => if old.isSome then l ++ [⟨name, value⟩] else l
  | .set name value _ old =>
      updateEnv name value l ++ if old.isSome then [⟨name, value⟩] else []
  | .get _ => l
  | .clean => []

/-- The same for a sequence of calls. -/
def EnvpAllowedAll (l : List Envpath) : List EnvpCall → Prop
  | [] => True
  | c :: cs => EnvpAllowed l c ∧ EnvpAllowedAll (envpAfter l c) cs

/-- The chain holds `l`. -/
def EnvpHolds (ptr : ZconfigServer) (l : List Envpath) : Prop :=
  ∃ L, Seg ptr.heap ptr.envp L 0 ∧ L.map Prod.snd = l ∧ ptr.count = L.length

/-! ### What each call does -/

section
variable {ptr ptr' : ZconfigServer} {l : List Envpath}

theorem EnvpHolds.chained (h : EnvpHolds ptr l) : EnvpChained ptr := by
  obtain ⟨L, hseg, -, hcount⟩ := h
  exact ⟨L, hseg, hcount⟩

/-- The search finds the first entry of a name, in its place. -/
theorem envpFind_cases (h : EnvpHolds ptr l) (name : List UInt8) :
    (envpFind ptr name = some none ∧ lookupEnv l name = none) ∨
    ∃ L₁ p e L₂, envpFind ptr name = some (some p) ∧ Seg ptr.heap ptr.envp (L₁ ++ (p, e) :: L₂) 0 ∧
      ptr.count = (L₁ ++ (p, e) :: L₂).length ∧ l = L₁.map Prod.snd ++ e :: L₂.map Prod.snd ∧
      e.name = name ∧ ∀ x ∈ L₁.map Prod.snd, x.name ≠ name := by
  obtain ⟨L, hseg, rfl, hcount⟩ := h
  have hfind : envpFind ptr name =
      some ((L.find? fun x => decide (x.2.name = name)).map Prod.fst) := by
    rw [envpFind, hcount]
    exact scan_eq _ hseg
  cases hx : L.find? fun x => decide (x.2.name = name) with
  | none =>
      left
      refine ⟨by rw [hfind, hx, Option.map_none], ?_⟩
      rw [lookupEnv, List.find?_map, Function.comp_def, hx]
      rfl
  | some x =>
      right
      obtain ⟨hp, L₁, L₂, rfl, hbefore⟩ := List.find?_eq_some_iff_append.mp hx
      obtain ⟨p, e⟩ := x
      refine ⟨L₁, p, e, L₂, by rw [hfind, hx, Option.map_some], hseg, hcount, by simp,
        by simpa using hp, ?_⟩
      intro y hy
      obtain ⟨z, hz, rfl⟩ := List.mem_map.mp hy
      simpa using hbefore z hz

theorem lookupEnv_middle {l₁ l₂ : List Envpath} {e : Envpath} {name : List UInt8}
    (he : e.name = name) (h : ∀ x ∈ l₁, x.name ≠ name) :
    lookupEnv (l₁ ++ e :: l₂) name = some e.value := by
  have hnone : l₁.find? (fun e => decide (e.name = name)) = none := by
    rw [List.find?_eq_none]
    intro x hx
    simpa using h x hx
  rw [lookupEnv, List.find?_append, hnone, Option.none_or, List.find?_cons, decide_eq_true he]
  rfl

/-- `_envp_get` returns the value of the first entry of a name, or `NULL`. -/
theorem envpGet_eq (h : EnvpHolds ptr l) (name : List UInt8) :
    envpGet ptr name = some (lookupEnv l name) := by
  obtain ⟨hfind, hnone⟩ | ⟨L₁, p, e, L₂, hfind, hseg, -, rfl, he, hbefore⟩ := envpFind_cases h name
  · rw [envpGet, hfind, Option.bind_some, hnone]
  · obtain ⟨n, hn, hval⟩ := hseg.read_of_mem (p, e) (by simp)
    rw [envpGet, hfind, Option.bind_some]
    dsimp only
    rw [hn, Option.map_some, lookupEnv_middle he hbefore, hval]

/-- What `_envp_add` does with a block: it comes last, and the chain ends there or goes on to where
the block pointed before. -/
theorem envpAdd_some (h : EnvpHolds ptr l) (name value : List UInt8) (m : Malloc Envpath)
    (n : Node Envpath) :
    ∃ ptr', envpAdd ptr name value m (some n) = some (1, ptr') ∧
      ptr'.count = u32 (ptr.count + 1) ∧
      (EnvpFits l n → EnvpHolds ptr' (l ++ [⟨name, value⟩])) ∧
      (EnvpChained ptr' → EnvpFits l n) := by
  obtain ⟨L, hseg, rfl, hcount⟩ := h
  obtain ⟨heap, envp, hlink, hlong⟩ := link_malloc hseg m ⟨⟨name, value⟩, n.next⟩
  refine ⟨⟨heap, u32 (ptr.count + 1), envp⟩, ?_, rfl, ?_, ?_⟩
  · simp only [envpAdd, hlink, Option.map_some]
  · rintro ⟨hlen, hnext⟩
    rw [List.length_map] at hlen
    have hend : (if L = [] then 0 else n.next) = 0 := by
      split_ifs with hL
      · rfl
      · exact hnext.resolve_left fun hnil => hL (List.map_eq_nil_iff.mp hnil)
    rw [hend] at hlong
    refine ⟨_, hlong, by simp, ?_⟩
    rw [hcount, u32_of_lt hlen, List.length_append, List.length_singleton]
  · rintro ⟨L', hL', hcount'⟩
    by_cases hend : (if L = [] then 0 else n.next) = 0
    · rw [hend] at hlong
      rw [hlong.unique hL', List.length_append, List.length_singleton] at hcount'
      have hlt := u32_lt (ptr.count + 1)
      dsimp only at hcount'
      rw [hcount'] at hlt
      refine ⟨by rwa [List.length_map], ?_⟩
      by_cases hL : L = []
      · exact .inl (by rw [hL, List.map_nil])
      · exact .inr (by rwa [if_neg hL] at hend)
    · have hlt := hlong.length_lt hend hL'
      rw [List.length_append, List.length_singleton, ← hcount'] at hlt
      have hle : u32 (ptr.count + 1) ≤ ptr.count + 1 := Nat.mod_le _ _
      dsimp only at hlt
      omega

theorem lookupEnv_append (l : List Envpath) (e : Envpath) (name : List UInt8) :
    lookupEnv (l ++ [e]) name =
      (lookupEnv l name).or (if e.name = name then some e.value else none) := by
  rw [lookupEnv, List.find?_append, lookupEnv]
  cases l.find? fun e => decide (e.name = name) with
  | some e' => rfl
  | none => by_cases he : e.name = name <;> simp [he]

theorem updateEnv_middle {l₁ l₂ : List Envpath} {e : Envpath} {name : List UInt8}
    (he : e.name = name) (h : ∀ x ∈ l₁, x.name ≠ name) (value : List UInt8) :
    updateEnv name value (l₁ ++ e :: l₂) = l₁ ++ { e with value := value } :: l₂ := by
  induction l₁ with
  | nil => rw [List.nil_append, updateEnv, if_pos he, List.nil_append]
  | cons x l₁ ih =>
      obtain ⟨hx, h⟩ := List.forall_mem_cons.mp h
      rw [List.cons_append, updateEnv, if_neg hx, ih h, List.cons_append]

theorem updateEnv_of_none {name : List UInt8} (value : List UInt8)
    (h : lookupEnv l name = none) : updateEnv name value l = l := by
  induction l with
  | nil => rfl
  | cons e l ih =>
      by_cases he : e.name = name
      · simp [lookupEnv, he] at h
      · rw [updateEnv, if_neg he, ih]
        simpa [lookupEnv, he] using h

theorem lookupEnv_updateEnv_ne {name other : List UInt8} (hne : other ≠ name) (value : List UInt8)
    (l : List Envpath) : lookupEnv (updateEnv name value l) other = lookupEnv l other := by
  induction l with
  | nil => rfl
  | cons e l ih =>
      rw [updateEnv]
      by_cases he : e.name = name
      · have hother : e.name ≠ other := by rw [he]; exact hne.symm
        simp [he, lookupEnv, hne.symm]
      · unfold lookupEnv at ih ⊢
        rw [if_neg he, List.find?_cons, List.find?_cons]
        cases decide (e.name = other) with
        | true => rfl
        | false => exact ih

/-- The value of the entry that the search found is rewritten in its place. -/
theorem envpRewrite_holds {L₁ L₂ : List (ℕ × Envpath)} {p : ℕ} {e : Envpath} {name : List UInt8}
    (hseg : Seg ptr.heap ptr.envp (L₁ ++ (p, e) :: L₂) 0)
    (hcount : ptr.count = (L₁ ++ (p, e) :: L₂).length) (he : e.name = name)
    (hbefore : ∀ x ∈ L₁.map Prod.snd, x.name ≠ name) (value : List UInt8) :
    ∃ heap, envpRewrite ptr.heap p value = some heap ∧
      EnvpHolds { ptr with heap := heap }
        (updateEnv name value (L₁.map Prod.snd ++ e :: L₂.map Prod.snd)) := by
  obtain ⟨n, hn, hval⟩ := hseg.read_of_mem (p, e) (by simp)
  dsimp only at hn hval
  refine ⟨ptr.heap.insert p ⟨{ n.val with value := value }, n.next⟩, ?_, _,
    hseg.setVal hseg.nodup hn { n.val with value := value }, ?_, ?_⟩
  · rw [envpRewrite, hn, Option.map_some]
  · rw [updateEnv_middle he hbefore, hval]
    simp
  · rw [hcount, List.length_append, List.length_append, List.length_cons, List.length_cons]

/-- `_envp_set` is `_envp_add` on the store with the value rewritten. -/
theorem envpSet_eq (h : EnvpHolds ptr l) (name value : List UInt8) (m : Malloc Envpath)
    (old : Option (Node Envpath)) :
    ∃ mid, envpSet ptr name value m old = envpAdd mid name value m old ∧
      EnvpHolds mid (updateEnv name value l) ∧ mid.count = ptr.count := by
  obtain ⟨hfind, hnone⟩ | ⟨L₁, p, e, L₂, hfind, hseg, hcount, rfl, he, hbefore⟩ :=
    envpFind_cases h name
  · refine ⟨ptr, by rw [envpSet, hfind, Option.bind_some], ?_, rfl⟩
    rwa [updateEnv_of_none value hnone]
  · obtain ⟨heap, hrw, hmid⟩ := envpRewrite_holds hseg hcount he hbefore value
    refine ⟨_, ?_, hmid, rfl⟩
    rw [envpSet, hfind, Option.bind_some]
    dsimp only
    rw [hrw, Option.bind_some]

/-- `_envp_clean` of a store that holds something reads an entry after it was freed. -/
theorem envpClean_eq (h : EnvpHolds ptr l) :
    envpClean ptr = if l = [] then some (1, { ptr with count := 0 }) else none := by
  obtain ⟨L, hseg, rfl, hcount⟩ := h
  rw [envpClean, hcount]
  generalize ptr.envp = envp at hseg
  cases hseg with
  | nil => rw [List.length_nil, freeLoop, if_pos List.map_nil, Option.map_some]
  | cons hread hseg =>
      rw [List.length_cons, freeLoop_eq_none _ _ (read_ne_zero hread), if_neg (by simp)]
      rfl

theorem EnvpHolds.clean (h : EnvpHolds ptr []) : EnvpHolds { ptr with count := 0 } [] := by
  obtain ⟨L, hseg, hnil, -⟩ := h
  obtain rfl := List.map_eq_nil_iff.mp hnil
  exact ⟨[], hseg, rfl, rfl⟩

/-- An allowed call is defined, leaves the chain with the entries that it is to hold, and obeys the
laws. -/
theorem envpStep_of_allowed (h : EnvpHolds ptr l) {c : EnvpCall} (hc : EnvpAllowed l c) :
    ∃ ret ptr', envpStep ptr c = some (ret, ptr') ∧ EnvpHolds ptr' (envpAfter l c) ∧
      EnvpLaw ptr ret ptr' c := by
  cases c with
  | add name value m old =>
      cases old with
      | none => exact ⟨0, ptr, rfl, h, fun hret => absurd hret zero_ne_one⟩
      | some n =>
          obtain ⟨ptr', hadd, -, hfits, -⟩ := envpAdd_some h name value m n
          have hafter := hfits (hc n rfl)
          refine ⟨1, ptr', hadd, hafter, fun _ habsent => ?_⟩
          rw [envpGet_eq h, Option.some.injEq] at habsent
          rw [envpGet_eq hafter, lookupEnv_append, habsent, Option.none_or, if_pos rfl]
  | set name value m old =>
      obtain ⟨mid, hset, hmid, hcount⟩ := envpSet_eq h name value m old
      cases old with
      | none =>
          have hafter : EnvpHolds mid (envpAfter l (.set name value m none)) := by
            simpa [envpAfter] using hmid
          refine ⟨0, mid, hset, hafter, fun hret => absurd hret zero_ne_one, fun other hne => ?_,
            fun _ => hcount⟩
          rw [envpGet_eq hmid, envpGet_eq h, lookupEnv_updateEnv_ne hne]
      | some n =>
          obtain ⟨habsent, hfitsn⟩ := hc n rfl
          rw [updateEnv_of_none value habsent] at hmid
          obtain ⟨ptr', hadd, -, hfits, -⟩ := envpAdd_some hmid name value m n
          have hafter := hfits hfitsn
          refine ⟨1, ptr', hset.trans hadd, ?_, fun _ => ?_, fun other hne => ?_,
            fun hpresent => ?_⟩
          · rw [envpAfter, updateEnv_of_none value habsent]
            exact hafter
          · rw [envpGet_eq hafter, lookupEnv_append, habsent, Option.none_or, if_pos rfl]
          · rw [envpGet_eq hafter, lookupEnv_append, if_neg hne.symm, Option.or_none, envpGet_eq h]
          · exact absurd (by rw [envpGet_eq h, habsent]) hpresent
  | get name => exact ⟨0, ptr, by rw [envpStep, envpGet_eq h, Option.map_some], h, rfl⟩
  | clean =>
      obtain rfl : l = [] := hc
      refine ⟨1, { ptr with count := 0 }, ?_, h.clean, fun name => ?_⟩
      · exact (envpClean_eq h).trans (if_pos rfl)
      · rw [envpGet_eq h.clean]
        rfl

/-- A call that is defined, keeps the chain and obeys the laws was allowed. -/
theorem allowed_of_envpStep (h : EnvpHolds ptr l) {c : EnvpCall} {ret : ℕ}
    (hst : envpStep ptr c = some (ret, ptr')) (hchain : EnvpChained ptr')
    (hlaw : EnvpLaw ptr ret ptr' c) : EnvpAllowed l c := by
  cases c with
  | add name value m old =>
      rintro n rfl
      obtain ⟨ptr₁, hadd, -, -, hfits⟩ := envpAdd_some h name value m n
      obtain ⟨-, rfl⟩ := Prod.mk.inj (Option.some.inj (hadd.symm.trans hst))
      exact hfits hchain
  | set name value m old =>
      rintro n rfl
      obtain ⟨mid, hset, hmid, hcount⟩ := envpSet_eq h name value m (some n)
      obtain ⟨ptr₁, hadd, hcount₁, -, hfits⟩ := envpAdd_some hmid name value m n
      obtain ⟨-, rfl⟩ := Prod.mk.inj (Option.some.inj ((hset.trans hadd).symm.trans hst))
      have habsent : lookupEnv l name = none := by
        by_contra hpresent
        have hkeep := hlaw.2.2 (by rw [envpGet_eq h]; simpa using hpresent)
        rw [hcount₁, hcount] at hkeep
        unfold u32 at hkeep
        omega
      refine ⟨habsent, ?_⟩
      rw [updateEnv_of_none value habsent] at hfits
      exact hfits hchain
  | get name => trivial
  | clean =>
      have hclean := (envpClean_eq h).symm.trans hst
      split_ifs at hclean with hl
      exact hl

end

/-- **The environment store.**  For every sequence of calls, whatever the blocks hold that `malloc`
returns: all calls are defined, keep `count` and the chain, and obey the laws of a map with update,
if and only if every block that is appended to a chain happens to have `NULL` for `next`, no
`_envp_set` that gets a block names an entry that is there, `_envp_clean` finds the store empty, and
the entries stay below `2 ^ 32`. -/
theorem envpBehaves_iff (cs : List EnvpCall) :
    EnvpBehaves ZconfigServer.zero cs ↔ EnvpAllowedAll [] cs := by
  have hfrom : ∀ ptr l, EnvpHolds ptr l → (EnvpBehaves ptr cs ↔ EnvpAllowedAll l cs) := by
    induction cs with
    | nil => exact fun _ _ _ => Iff.rfl
    | cons c cs ih =>
        intro ptr l h
        constructor
        · rintro ⟨ret, ptr', hst, hchain, hlaw, hrest⟩
          have hc := allowed_of_envpStep h hst hchain hlaw
          obtain ⟨ret', ptr₁, hst', hafter, -⟩ := envpStep_of_allowed h hc
          obtain ⟨-, rfl⟩ := Prod.mk.inj (Option.some.inj (hst'.symm.trans hst))
          exact ⟨hc, (ih _ _ hafter).mp hrest⟩
        · rintro ⟨hc, hrest⟩
          obtain ⟨ret, ptr', hst, hafter, hlaw⟩ := envpStep_of_allowed h hc
          exact ⟨ret, ptr', hst, hafter.chained, hlaw, (ih _ _ hafter).mpr hrest⟩
  exact hfrom _ _ ⟨[], .nil 0, rfl, rfl⟩

/-- `_envp_set` twice with the name `"A"`: the second one appends a second entry. -/
theorem not_envpBehaves_set : ¬ EnvpBehaves ZconfigServer.zero
    [.set [0x41] [0x31] .above (some ⟨⟨[], []⟩, 0⟩),
      .set [0x41] [0x32] .above (some ⟨⟨[], []⟩, 0⟩)] := by
  rintro ⟨ret₁, ptr₁, h₁, -, -, ret₂, ptr₂, h₂, -, ⟨-, -, hkeep⟩, -⟩
  obtain ⟨rfl, rfl⟩ := Prod.mk.inj (Option.some.inj h₁)
  have hcount : ptr₂.count = 2 := by
    obtain ⟨-, rfl⟩ := Prod.mk.inj (Option.some.inj h₂)
    rfl
  rw [hkeep (by decide)] at hcount
  cases hcount

end Carroll
