import Carroll.Buffers

/-! # Strings with a length (`cstr.c`)

A `xcstring_t` has a pointer to a buffer and a length.  The operations take the address of a
variable that points to it; all but `cstring_create` and `cstring_clone`, which make a new string,
leave a variable that is `NULL` as it is.

* Every variable is `NULL` first, and no two variables point to the same string.
* `emalloc` succeeds.  It computes the size of the block in `uint32_t`, and the block holds anything
  (`old`).
* A `char *` argument is `NULL`, a C string outside, or a place inside the string of a variable,
  which the operation sees through the buffer.
* `none` stands for undefined behaviour: an access outside a buffer, through `NULL`, or to a buffer
  after it was freed, and a copy of a buffer to itself. -/

namespace Carroll
open Buffers

/-- `xcstring_t`. -/
structure Xcstring where
  buffer : Option (List UInt8)
  length : ℕ
deriving DecidableEq, Repr

/-- The variables of type `xcstring_t *`. -/
abbrev Vars := ℕ → Option Xcstring

/-- A C string. -/
structure CString where
  bytes : List UInt8
  noNul : 0 ∉ bytes

/-- A `char *` argument; `within x off` is `CCSHOW(x) + off`, or the end of the string when it is
shorter. -/
inductive CharArg where
  | null
  | text (s : CString)
  | within (x off : ℕ)

/-- The string that an argument points to. -/
def CharArg.eval (vars : Vars) : CharArg → Option (Option (List UInt8))
  | .null => some none
  | .text s => some (some s.bytes)
  | .within x off =>
      match (vars x).bind Xcstring.buffer with
      | none => some none
      | some b => (str b).map fun s => some (s.drop off)

/-- Whether an argument points into the buffer of `x`. -/
def CharArg.isWithin (x : ℕ) : CharArg → Bool
  | .within y _ => decide (y = x)
  | _ => false

/-- `emalloc`. -/
def emalloc (length : ℕ) (old : Mem) : List UInt8 := old.peek 0 (u32 (u32 length + 3))

/-- `memset(buffer, 0, length)`. -/
def memsetBuffer (ext : Xcstring) : Option (Option (List UInt8)) :=
  match ext.buffer with
  | none => if ext.length = 0 then some none else none
  | some b => (memset b ext.length).map some

/-- `cstring_create`. -/
def cstringCreate : Xcstring := ⟨none, 0⟩

/-- `cstring_clone`. -/
def cstringClone (str : Option Xcstring) (old : Mem) : Option Xcstring :=
  match str with
  | none => some cstringCreate
  | some str =>
      if str.length = 0 then some cstringCreate
      else
        match str.buffer with
        | none => some cstringCreate
        | some buffer =>
            (Buffers.str buffer).bind fun s =>
              (strcpy (emalloc (str.length + 2) old) s).map fun b => ⟨some b, str.length⟩

/-- `cstring_newadd`; with `self`, one of the two strings is `ext` itself, and its buffer is the
new one when it is copied. -/
def cstringNewadd (ext : Xcstring) (dst src : Option Xcstring) (self : Bool) (old : Mem) :
    Option Xcstring :=
  match dst, src with
  | some dst, some src =>
      match dst.buffer, src.buffer with
      | some dstBuffer, some srcBuffer =>
          if dst.length = 0 ∨ src.length = 0 then some ext
          else if self then none
          else
            let length := u32 (dst.length + src.length)
            (str dstBuffer).bind fun s =>
              (strcpy (emalloc (length + 2) old) s).bind fun b =>
                (str srcBuffer).bind fun t =>
                  (strcat b t).bind fun b =>
                    (store b length [0]).map fun b => ⟨some b, length⟩
      | _, _ => some ext
  | _, _ => some ext

/-- A new buffer for `buf`, with `slack` bytes more than its length. -/
def cstringCopy (slack : ℕ) (buf : List UInt8) (old : Mem) : Option Xcstring :=
  let length := u32 buf.length
  (strcpy (emalloc (length + slack) old) buf).bind fun b =>
    (store b length [0]).map fun b => ⟨some b, length⟩

/-- `cstring_new`; the buffer before is not freed. -/
def cstringNew (ext : Xcstring) (buf : Option (List UInt8)) (old : Mem) : Option Xcstring :=
  match buf with
  | none => some ext
  | some buf => cstringCopy 6 buf old

/-- `cstring_newpad`. -/
def cstringNewpad (ext : Xcstring) (buf pad : Option (List UInt8)) (old : Mem) : Option Xcstring :=
  match buf, pad with
  | some buf, some pad =>
      let length := u32 (buf.length + pad.length)
      (strcpy (emalloc (length + 4) old) buf).bind fun b =>
        (strcat b pad).map fun b => ⟨some b, length⟩
  | _, _ => some ext

/-- `cstring_renew`; with `self`, `buf` points into the buffer that is freed first. -/
def cstringRenew (ext : Xcstring) (buf : Option (List UInt8)) (self : Bool) (old : Mem) :
    Option Xcstring :=
  match buf with
  | none => some ext
  | some buf => if self then none else cstringCopy 2 buf old

/-- The loop of `cstring_remove`, at most `left` rounds from number `i` on. -/
def removeLoop : ℕ → ℕ → Xcstring → Option Xcstring
  | 0, _, ext => some ext
  | left + 1, i, ext =>
      ext.buffer.bind fun b =>
        (store b (u32 (ext.length + 2 ^ 32 - u32 (i + 1))) [0]).bind fun b =>
          let length := u32 (ext.length + (2 ^ 32 - 1))
          if length = 0 then some ⟨some b, length⟩ else removeLoop left (i + 1) ⟨some b, length⟩

/-- `cstring_remove`. -/
def cstringRemove (ext : Xcstring) (len : ℕ) : Option Xcstring := removeLoop len 0 ext

/-- `cstring_clear`. -/
def cstringClear (ext : Xcstring) : Option Xcstring :=
  (memsetBuffer ext).map fun buffer => ⟨buffer, 0⟩

/-- `cstring_delete`. -/
def cstringDelete (ext : Xcstring) : Option Xcstring := (memsetBuffer ext).map fun _ => ⟨none, 0⟩

/-- `cstring_restr`.  Its `CCNEW(ptr, str)` is `cstring_new(&ptr, str)` with the parameter `ptr`, which
is the address of the variable and not that of the string: the length of `str` is written behind
the variable. -/
def cstringRestr (ext : Xcstring) (str : Option (List UInt8)) : Option Xcstring :=
  (cstringDelete ext).bind fun ext =>
    match str with
    | none => some ext
    | some _ => none

/-! ### Calls on variables -/

/-- A call, with the variables it names. -/
inductive CstringCall where
  | create (x : ℕ)
  | clone (x str : ℕ) (old : Mem)
  | newadd (x dst src : ℕ) (old : Mem)
  | new (x : ℕ) (buf : CharArg) (old : Mem)
  | newpad (x : ℕ) (buf pad : CharArg) (old : Mem)
  | renew (x : ℕ) (buf : CharArg) (old : Mem)
  | remove (x len : ℕ)
  | clear (x : ℕ)
  | delete (x : ℕ)
  | restr (x : ℕ) (str : CharArg)

/-- An operation on the string of a variable, if there is one. -/
def onString (vars : Vars) (x : ℕ) (f : Xcstring → Option Xcstring) : Option Vars :=
  match vars x with
  | none => some vars
  | some ext => (f ext).map fun ext => Function.update vars x (some ext)

/-- What a call leaves. -/
def cstringStep (vars : Vars) : CstringCall → Option Vars
  | .create x => some (Function.update vars x (some cstringCreate))
  | .clone x str old =>
      (cstringClone (vars str) old).map fun ext => Function.update vars x (some ext)
  | .newadd x dst src old =>
      onString vars x fun ext =>
        cstringNewadd ext (vars dst) (vars src) (decide (dst = x ∨ src = x)) old
  | .new x buf old =>
      onString vars x fun ext => (buf.eval vars).bind fun buf => cstringNew ext buf old
  | .newpad x buf pad old =>
      onString vars x fun ext =>
        (buf.eval vars).bind fun buf => (pad.eval vars).bind fun pad => cstringNewpad ext buf pad old
  | .renew x buf old =>
      onString vars x fun ext =>
        (buf.eval vars).bind fun s => cstringRenew ext s (buf.isWithin x) old
  | .remove x len => onString vars x fun ext => cstringRemove ext len
  | .clear x => onString vars x cstringClear
  | .delete x => onString vars x cstringDelete
  | .restr x str => onString vars x fun ext => (str.eval vars).bind fun str => cstringRestr ext str

/-! ### What a string is to be -/

/-- No buffer and no length, or a buffer, its size a `uint32_t`, with a string in it and the length
of that string. -/
def Xcstring.Valid (ext : Xcstring) : Prop :=
  (ext.buffer = none ∧ ext.length = 0) ∨
  ∃ b s, ext.buffer = some b ∧ b.length < 2 ^ 32 ∧ str b = some s ∧ ext.length = s.length ∧
    ext.length < b.length

/-- All strings are valid. -/
def AllValid (vars : Vars) : Prop := ∀ x ext, vars x = some ext → ext.Valid

/-- After `cstring_new`, `cstring_renew` and `cstring_restr` the string holds their argument. -/
def CstringLaw (vars vars' : Vars) : CstringCall → Prop
  | .new x buf _ | .renew x buf _ | .restr x buf =>
      ∀ s ext, buf.eval vars = some (some s) → vars' x = some ext → ext.buffer.bind str = some s
  | _ => True

/-- All calls of the sequence are defined, leave valid strings, and obey the law. -/
def CstringBehaves (vars : Vars) : List CstringCall → Prop
  | [] => True
  | c :: cs => ∃ vars', cstringStep vars c = some vars' ∧ AllValid vars' ∧ CstringLaw vars vars' c ∧
      CstringBehaves vars' cs

/-- The calls that do not reach a defect: the size of a new buffer fits in `uint32_t`,
`cstring_newadd` does not copy the string to itself, `cstring_renew` does not get a part of the
buffer that it frees, `cstring_remove` removes nothing, one character, or the only one, and
`cstring_restr` stores nothing. -/
def CstringAllowed (vars : Vars) : CstringCall → Prop
  | .create _ | .clear _ | .delete _ => True
  | .clone _ str _ => ∀ ext, vars str = some ext → ext.length + 5 < 2 ^ 32
  | .newadd x dst src _ =>
      ∀ d s, vars x ≠ none → vars dst = some d → vars src = some s → d.length ≠ 0 →
        s.length ≠ 0 → dst ≠ x ∧ src ≠ x ∧ d.length + s.length + 5 < 2 ^ 32
  | .new x buf _ => ∀ s, vars x ≠ none → buf.eval vars = some (some s) → s.length + 9 < 2 ^ 32
  | .newpad x buf pad _ =>
      ∀ s t, vars x ≠ none → buf.eval vars = some (some s) → pad.eval vars = some (some t) →
        s.length + t.length + 7 < 2 ^ 32
  | .renew x buf _ =>
      ∀ s, vars x ≠ none → buf.eval vars = some (some s) →
        buf.isWithin x = false ∧ s.length + 5 < 2 ^ 32
  | .remove x len =>
      ∀ ext, vars x = some ext → len = 0 ∨ ext.length ≠ 0 ∧ (len = 1 ∨ ext.length = 1)
  | .restr x str => vars x = none ∨ str.eval vars = some none

/-- The same for all calls of a sequence, each in the state before it. -/
def CstringAllowedAll (vars : Vars) : List CstringCall → Prop
  | [] => True
  | c :: cs => CstringAllowed vars c ∧
      ∀ vars', cstringStep vars c = some vars' → CstringAllowedAll vars' cs

/-! ### Valid strings -/

/-- A string with the characters `s` in its buffer, and `r` behind them. -/
theorem valid_some {s r : List UInt8} (hs : 0 ∉ s) (hlen : s.length + 1 + r.length < 2 ^ 32) :
    Xcstring.Valid ⟨some (s ++ 0 :: r), s.length⟩ := by
  have hb : (s ++ 0 :: r).length = s.length + 1 + r.length := by
    rw [List.length_append, List.length_cons]
    omega
  exact .inr ⟨_, s, rfl, by rwa [hb], str_append hs r, rfl, by rw [hb]; dsimp only; omega⟩

theorem valid_none : Xcstring.Valid ⟨none, 0⟩ := .inl ⟨rfl, rfl⟩

theorem Xcstring.Valid.cases {ext : Xcstring} (h : ext.Valid) :
    ext = ⟨none, 0⟩ ∨ ∃ s r, ext = ⟨some (s ++ 0 :: r), s.length⟩ ∧ 0 ∉ s ∧
      s.length + 1 + r.length < 2 ^ 32 := by
  obtain ⟨buffer, length⟩ := ext
  rcases h with ⟨hb, hl⟩ | ⟨b, s, hb, hsize, hstr, hl, -⟩
  · left
    dsimp only at hb hl
    rw [hb, hl]
  · right
    obtain ⟨r, rfl, hs⟩ := str_eq_some_iff.mp hstr
    dsimp only at hb hl
    refine ⟨s, r, by rw [hb, hl], hs, ?_⟩
    rw [List.length_append, List.length_cons] at hsize
    omega

theorem AllValid.update {vars : Vars} (h : AllValid vars) {ext : Xcstring} (hext : ext.Valid)
    (x : ℕ) : AllValid (Function.update vars x (some ext)) := by
  intro y ext' hy
  by_cases hyx : y = x
  · subst hyx
    rw [Function.update_self, Option.some.injEq] at hy
    exact hy ▸ hext
  · rw [Function.update_of_ne hyx] at hy
    exact h y ext' hy

/-- An operation that takes a valid string to a valid one with a property `P`. -/
theorem onString_spec {vars : Vars} (h : AllValid vars) {x : ℕ} {f : Xcstring → Option Xcstring}
    {P : Xcstring → Prop}
    (hf : ∀ ext, vars x = some ext → ext.Valid → ∃ ext', f ext = some ext' ∧ ext'.Valid ∧ P ext') :
    ∃ vars', onString vars x f = some vars' ∧ AllValid vars' ∧
      ∀ ext', vars' x = some ext' → P ext' := by
  unfold onString
  cases hx : vars x with
  | none =>
      refine ⟨vars, rfl, h, ?_⟩
      intro ext' hext'
      rw [hx] at hext'
      cases hext'
  | some ext =>
      obtain ⟨ext', hfe, hvalid, hP⟩ := hf ext hx (h x ext hx)
      refine ⟨Function.update vars x (some ext'), ?_, h.update hvalid x, ?_⟩
      · show (f ext).map _ = _
        rw [hfe, Option.map_some]
      · intro ext'' hext''
        rw [Function.update_self, Option.some.injEq] at hext''
        exact hext'' ▸ hP

/-- A call without a law. -/
theorem onString_valid {vars : Vars} (h : AllValid vars) {x : ℕ} {f : Xcstring → Option Xcstring}
    (hf : ∀ ext, vars x = some ext → ext.Valid → ∃ ext', f ext = some ext' ∧ ext'.Valid) :
    ∃ vars', onString vars x f = some vars' ∧ AllValid vars' ∧ True := by
  obtain ⟨vars', hst, hvalid, -⟩ := onString_spec (P := fun _ => True) h fun ext hx hext => by
    obtain ⟨ext', hfe, hext'⟩ := hf ext hx hext
    exact ⟨ext', hfe, hext', trivial⟩
  exact ⟨vars', hst, hvalid, trivial⟩

/-- An argument is `NULL` or a string. -/
theorem CharArg.eval_spec {vars : Vars} (h : AllValid vars) (arg : CharArg) :
    ∃ o, arg.eval vars = some o ∧ ∀ s, o = some s → 0 ∉ s := by
  cases arg with
  | null => exact ⟨none, rfl, fun s hs => by cases hs⟩
  | text s => exact ⟨some s.bytes, rfl, fun t ht => Option.some.inj ht ▸ s.noNul⟩
  | within x off =>
      dsimp only [CharArg.eval]
      cases hx : vars x with
      | none => exact ⟨none, rfl, fun s hs => by cases hs⟩
      | some ext =>
          rcases (h x ext hx).cases with rfl | ⟨s, r, rfl, hs, -⟩
          · exact ⟨none, rfl, fun s hs => by cases hs⟩
          · refine ⟨some (s.drop off), ?_, ?_⟩
            · rw [Option.bind_some]
              dsimp only
              rw [str_append hs, Option.map_some]
            · intro t ht h0
              rw [Option.some.injEq] at ht
              exact hs (List.mem_of_mem_drop (ht ▸ h0))

/-- A call that is to store its argument, unless that is `NULL`. -/
theorem onString_stores {vars : Vars} (h : AllValid vars) {x : ℕ} {buf : CharArg}
    {f : Xcstring → Option Xcstring}
    (hnull : ∀ ext, ext.Valid → buf.eval vars = some none → ∃ ext', f ext = some ext' ∧ ext'.Valid)
    (hsome : ∀ s, vars x ≠ none → buf.eval vars = some (some s) → 0 ∉ s → ∀ ext,
      ∃ ext', f ext = some ext' ∧ ext'.Valid ∧ ext'.buffer.bind str = some s) :
    ∃ vars', onString vars x f = some vars' ∧ AllValid vars' ∧
      ∀ s ext, buf.eval vars = some (some s) → vars' x = some ext → ext.buffer.bind str = some s := by
  obtain ⟨o, heval, hs⟩ := buf.eval_spec h
  cases o with
  | none =>
      obtain ⟨vars', hst, hvalid, -⟩ := onString_valid h fun ext _ hext => hnull ext hext heval
      refine ⟨vars', hst, hvalid, ?_⟩
      intro s ext hs
      rw [heval] at hs
      cases hs
  | some s =>
      obtain ⟨vars', hst, hvalid, hP⟩ := onString_spec h fun ext hx _ =>
        hsome s (by rw [hx]; exact Option.some_ne_none ext) heval (hs s rfl) ext
      refine ⟨vars', hst, hvalid, ?_⟩
      intro s' ext hs' hext
      rw [heval, Option.some.injEq, Option.some.injEq] at hs'
      exact hs' ▸ hP ext hext

/-! ### New buffers -/

theorem length_emalloc {n k : ℕ} (old : Mem) (h : n + k + 3 < 2 ^ 32) :
    (emalloc (n + k) old).length = n + k + 3 := by
  have hk : n + k < 2 ^ 32 := by omega
  rw [emalloc, Mem.length_peek, u32_of_lt hk, u32_of_lt h]

/-- The copy of a string that fits. -/
theorem strcpy_emalloc {s : List UInt8} {slack : ℕ} (old : Mem)
    (hlen : s.length + slack + 3 < 2 ^ 32) :
    ∃ r, strcpy (emalloc (s.length + slack) old) s = some (s ++ 0 :: r) ∧
      s.length + 1 + r.length < 2 ^ 32 := by
  have hsize := length_emalloc old hlen
  refine ⟨_, strcpy_eq (by omega), ?_⟩
  rw [List.length_drop, hsize]
  omega

/-- The copy of two strings, one after the other. -/
theorem strcat_emalloc {s t : List UInt8} {slack : ℕ} (hs : 0 ∉ s) (old : Mem)
    (hlen : s.length + t.length + slack + 3 < 2 ^ 32) :
    ∃ b r, strcpy (emalloc (s.length + t.length + slack) old) s = some b ∧
      strcat b t = some (s ++ t ++ 0 :: r) ∧ (s ++ t).length + 1 + r.length < 2 ^ 32 := by
  have hsize := length_emalloc old hlen
  have hr : t.length ≤ ((emalloc (s.length + t.length + slack) old).drop (s.length + 1)).length := by
    rw [List.length_drop, hsize]
    omega
  refine ⟨_, _, strcpy_eq (by omega), strcat_eq hs hr, ?_⟩
  rw [List.length_append, List.length_drop, List.length_drop, hsize]
  omega

theorem not_mem_append {s t : List UInt8} (hs : 0 ∉ s) (ht : 0 ∉ t) : (0 : UInt8) ∉ s ++ t := by
  rw [List.mem_append, not_or]
  exact ⟨hs, ht⟩

/-! ### What each operation does to a valid string -/

/-- A copy that fits holds the string. -/
theorem cstringCopy_valid {buf : List UInt8} (hbuf : 0 ∉ buf) {slack : ℕ} (old : Mem)
    (hlen : buf.length + slack + 3 < 2 ^ 32) :
    ∃ ext', cstringCopy slack buf old = some ext' ∧ ext'.Valid ∧
      ext'.buffer.bind str = some buf := by
  have hu : u32 buf.length = buf.length := u32_of_lt (by omega)
  obtain ⟨r, hcopy, hr⟩ := strcpy_emalloc old hlen
  refine ⟨⟨some (buf ++ 0 :: r), buf.length⟩, ?_, valid_some hbuf hr, str_append hbuf r⟩
  unfold cstringCopy
  dsimp only
  rw [hu, hcopy, Option.bind_some, store_nul, Option.map_some]

theorem cstringClone_valid {str : Option Xcstring} (h : ∀ ext, str = some ext → ext.Valid)
    (old : Mem) (hlen : ∀ ext, str = some ext → ext.length + 5 < 2 ^ 32) :
    ∃ ext', cstringClone str old = some ext' ∧ ext'.Valid := by
  cases str with
  | none => exact ⟨_, rfl, valid_none⟩
  | some str =>
      rcases (h str rfl).cases with rfl | ⟨s, r, rfl, hs, -⟩
      · exact ⟨_, rfl, valid_none⟩
      · unfold cstringClone
        dsimp only
        split_ifs with h0
        · exact ⟨_, rfl, valid_none⟩
        · obtain ⟨r', hcopy, hr'⟩ := strcpy_emalloc old (hlen _ rfl)
          refine ⟨⟨some (s ++ 0 :: r'), s.length⟩, ?_, valid_some hs hr'⟩
          rw [str_append hs, Option.bind_some, hcopy, Option.map_some]

theorem cstringNewpad_valid {ext : Xcstring} (hext : ext.Valid) {buf pad : Option (List UInt8)}
    (hbuf : ∀ s, buf = some s → 0 ∉ s) (hpad : ∀ t, pad = some t → 0 ∉ t) (old : Mem)
    (hlen : ∀ s t, buf = some s → pad = some t → s.length + t.length + 7 < 2 ^ 32) :
    ∃ ext', cstringNewpad ext buf pad old = some ext' ∧ ext'.Valid := by
  cases buf with
  | none => exact ⟨ext, rfl, hext⟩
  | some s =>
      cases pad with
      | none => exact ⟨ext, rfl, hext⟩
      | some t =>
          have hfit : s.length + t.length + 4 + 3 < 2 ^ 32 := hlen s t rfl rfl
          have hu : u32 (s.length + t.length) = s.length + t.length := u32_of_lt (by omega)
          obtain ⟨buffer, r, hcopy, hcat, hr⟩ := strcat_emalloc (hbuf s rfl) old hfit
          refine ⟨⟨some (s ++ t ++ 0 :: r), (s ++ t).length⟩, ?_,
            valid_some (not_mem_append (hbuf s rfl) (hpad t rfl)) hr⟩
          unfold cstringNewpad
          dsimp only
          rw [hu, hcopy, Option.bind_some, hcat, Option.map_some, List.length_append]

theorem cstringNewadd_valid {ext : Xcstring} (hext : ext.Valid) {dst src : Option Xcstring}
    (hdst : ∀ d, dst = some d → d.Valid) (hsrc : ∀ s, src = some s → s.Valid) {self : Bool}
    (old : Mem)
    (hlen : ∀ d s, dst = some d → src = some s → d.length ≠ 0 → s.length ≠ 0 →
      self = false ∧ d.length + s.length + 5 < 2 ^ 32) :
    ∃ ext', cstringNewadd ext dst src self old = some ext' ∧ ext'.Valid := by
  cases dst with
  | none => exact ⟨ext, rfl, hext⟩
  | some d =>
      cases src with
      | none => exact ⟨ext, rfl, hext⟩
      | some s =>
          rcases (hdst d rfl).cases with rfl | ⟨a, r₁, rfl, ha, -⟩
          · exact ⟨ext, rfl, hext⟩
          · rcases (hsrc s rfl).cases with rfl | ⟨b, r₂, rfl, hb, -⟩
            · exact ⟨ext, rfl, hext⟩
            · unfold cstringNewadd
              dsimp only
              split_ifs with h0 hself
              · exact ⟨ext, rfl, hext⟩
              · rw [not_or] at h0
                exact absurd hself (by rw [(hlen _ _ rfl rfl h0.1 h0.2).1]; exact Bool.false_ne_true)
              · rw [not_or] at h0
                have hfit : a.length + b.length + 2 + 3 < 2 ^ 32 := (hlen _ _ rfl rfl h0.1 h0.2).2
                have hu : u32 (a.length + b.length) = a.length + b.length := u32_of_lt (by omega)
                obtain ⟨buffer, r, hcopy, hcat, hr⟩ := strcat_emalloc ha old hfit
                refine ⟨⟨some (a ++ b ++ 0 :: r), (a ++ b).length⟩, ?_,
                  valid_some (not_mem_append ha hb) hr⟩
                rw [hu, str_append ha, Option.bind_some, hcopy, Option.bind_some, str_append hb,
                  Option.bind_some, hcat, Option.bind_some, ← List.length_append, store_nul,
                  Option.map_some]

/-- `memset` of the characters of a valid string. -/
theorem memsetBuffer_eq {ext : Xcstring} (hext : ext.Valid) :
    ∃ buffer, memsetBuffer ext = some buffer ∧ Xcstring.Valid ⟨buffer, 0⟩ := by
  rcases hext.cases with rfl | ⟨s, r, rfl, -, hlen⟩
  · exact ⟨none, rfl, valid_none⟩
  · unfold memsetBuffer
    dsimp only
    refine ⟨_, by rw [memset_eq, Option.map_some], .inr ⟨_, [], rfl, ?_, str_replicate _ _, rfl, ?_⟩⟩
    · rw [List.length_append, List.length_replicate, List.length_cons]
      omega
    · rw [List.length_append, List.length_cons]
      dsimp only
      omega

theorem cstringDelete_eq {ext : Xcstring} (hext : ext.Valid) :
    cstringDelete ext = some ⟨none, 0⟩ := by
  obtain ⟨buffer, hset, -⟩ := memsetBuffer_eq hext
  rw [cstringDelete, hset, Option.map_some]

/-- The first round of `cstring_remove` takes the last character away. -/
theorem removeLoop_succ {s r : List UInt8} {a : UInt8} (hlen : s.length + 1 < 2 ^ 32) (left : ℕ) :
    removeLoop (left + 1) 0 ⟨some (s ++ [a] ++ 0 :: r), (s ++ [a]).length⟩ =
      if s.length = 0 then some ⟨some (s ++ 0 :: 0 :: r), s.length⟩
      else removeLoop left 1 ⟨some (s ++ 0 :: 0 :: r), s.length⟩ := by
  have hindex : u32 ((s ++ [a]).length + 2 ^ 32 - u32 (0 + 1)) = s.length := by
    rw [List.length_append, List.length_singleton]
    unfold u32
    omega
  have hlength : u32 ((s ++ [a]).length + (2 ^ 32 - 1)) = s.length := by
    rw [List.length_append, List.length_singleton]
    unfold u32
    omega
  rw [removeLoop]
  dsimp only
  rw [Option.bind_some, hindex, store_last, Option.bind_some, hlength]

theorem cstringRemove_valid {ext : Xcstring} (hext : ext.Valid) {len : ℕ}
    (h : len = 0 ∨ ext.length ≠ 0 ∧ (len = 1 ∨ ext.length = 1)) :
    ∃ ext', cstringRemove ext len = some ext' ∧ ext'.Valid := by
  cases len with
  | zero => exact ⟨ext, rfl, hext⟩
  | succ left =>
      obtain ⟨hne, hone⟩ := h.resolve_left (Nat.succ_ne_zero left)
      rcases hext.cases with rfl | ⟨s, r, rfl, hs, hlen⟩
      · exact absurd rfl hne
      · rcases List.eq_nil_or_concat' s with rfl | ⟨s, a, rfl⟩
        · exact absurd rfl hne
        · rw [List.length_append, List.length_singleton] at hlen
          rw [List.mem_append, not_or] at hs
          have hvalid : Xcstring.Valid ⟨some (s ++ 0 :: 0 :: r), s.length⟩ := by
            apply valid_some hs.1
            rw [List.length_cons]
            omega
          refine ⟨_, ?_, hvalid⟩
          rw [cstringRemove, removeLoop_succ (by omega)]
          split_ifs with h0
          · rfl
          · have hleft : left = 0 := by
              dsimp only at hone
              rw [List.length_append, List.length_singleton] at hone
              omega
            rw [hleft, removeLoop]

/-- An allowed call is defined, leaves valid strings, and obeys the law. -/
theorem cstringStep_of_allowed {vars : Vars} (h : AllValid vars) {c : CstringCall}
    (hc : CstringAllowed vars c) :
    ∃ vars', cstringStep vars c = some vars' ∧ AllValid vars' ∧ CstringLaw vars vars' c := by
  cases c with
  | create x => exact ⟨_, rfl, h.update valid_none x, trivial⟩
  | clone x y old =>
      obtain ⟨ext', hclone, hvalid⟩ := cstringClone_valid (h y) old hc
      refine ⟨_, ?_, h.update hvalid x, trivial⟩
      rw [cstringStep, hclone, Option.map_some]
  | newadd x dst src old =>
      refine onString_valid h fun ext hx hext => cstringNewadd_valid hext (h dst) (h src) old ?_
      intro d s hd hs hd0 hs0
      obtain ⟨hdx, hsx, hlen⟩ := hc d s (by rw [hx]; simp) hd hs hd0 hs0
      exact ⟨decide_eq_false (not_or.mpr ⟨hdx, hsx⟩), hlen⟩
  | new x buf old =>
      apply onString_stores h
      · intro ext hext heval
        rw [heval]
        exact ⟨ext, rfl, hext⟩
      · intro s hx heval hs ext
        rw [heval]
        exact cstringCopy_valid hs old (hc s hx heval)
  | newpad x buf pad old =>
      obtain ⟨s, hbuf, hs⟩ := buf.eval_spec h
      obtain ⟨t, hpad, ht⟩ := pad.eval_spec h
      refine onString_valid h fun ext hx hext => ?_
      rw [hbuf, hpad]
      apply cstringNewpad_valid hext hs ht old
      intro s' t' hs' ht'
      exact hc s' t' (by rw [hx]; simp) (hs' ▸ hbuf) (ht' ▸ hpad)
  | renew x buf old =>
      apply onString_stores h
      · intro ext hext heval
        rw [heval]
        exact ⟨ext, rfl, hext⟩
      · intro s hx heval hs ext
        obtain ⟨hself, hlen⟩ := hc s hx heval
        rw [heval, hself]
        exact cstringCopy_valid hs old hlen
  | remove x len => exact onString_valid h fun ext hx hext => cstringRemove_valid hext (hc ext hx)
  | clear x =>
      refine onString_valid h fun ext _ hext => ?_
      obtain ⟨buffer, hset, hvalid⟩ := memsetBuffer_eq hext
      exact ⟨⟨buffer, 0⟩, by rw [cstringClear, hset, Option.map_some], hvalid⟩
  | delete x => exact onString_valid h fun ext _ hext => ⟨_, cstringDelete_eq hext, valid_none⟩
  | restr x str =>
      apply onString_stores h
      · intro ext hext heval
        rw [heval, Option.bind_some, cstringRestr, cstringDelete_eq hext]
        exact ⟨_, rfl, valid_none⟩
      · intro s hx heval hs ext
        have heval' := hc.resolve_left hx
        rw [heval] at heval'
        cases heval'

/-- **The strings of `cstr.c`.**  A sequence of calls each of which is allowed in the state before it
is defined throughout, leaves valid strings after every call, and stores what `cstring_new`,
`cstring_renew` and `cstring_restr` are given. -/
theorem cstringBehaves_of_allowed {cs : List CstringCall} (h : CstringAllowedAll (fun _ => none) cs) :
    CstringBehaves (fun _ => none) cs := by
  have hfrom : ∀ vars, AllValid vars → CstringAllowedAll vars cs → CstringBehaves vars cs := by
    clear h
    induction cs with
    | nil => exact fun _ _ _ => trivial
    | cons c cs ih =>
        rintro vars hvars ⟨hc, hrest⟩
        obtain ⟨vars', hst, hvalid, hlaw⟩ := cstringStep_of_allowed hvars hc
        exact ⟨vars', hst, hvalid, hlaw, ih vars' hvalid (hrest vars' hst)⟩
  refine hfrom _ ?_ h
  intro x ext hx
  cases hx

/-- A new string, one character, and its removal. -/
theorem cstringBehaves_remove : CstringBehaves (fun _ => none)
    [.create 0, .new 0 (.text ⟨[0x61], by decide⟩) .zero, .remove 0 1] := by
  refine cstringBehaves_of_allowed ⟨trivial, ?_⟩
  intro vars₁ h₁
  obtain rfl := Option.some.inj h₁
  refine ⟨?_, ?_⟩
  · intro s _ hs
    obtain rfl := Option.some.inj (Option.some.inj hs)
    norm_num
  · intro vars₂ h₂
    refine ⟨?_, fun _ _ => trivial⟩
    intro ext hext
    obtain rfl := Option.some.inj h₂
    obtain rfl := Option.some.inj hext
    decide

/-- `cstring_remove` of one character from a new string writes through `NULL`. -/
theorem not_cstringBehaves_remove :
    ¬ CstringBehaves (fun _ => none) [.create 0, .remove 0 1] := by
  rintro ⟨vars₁, h₁, -, -, vars₂, h₂, -⟩
  obtain rfl := Option.some.inj h₁
  cases h₂

end Carroll
