import Carroll.Dispatch

/-! # Looking a module up by its certificate

`mod_getmod_func` posts `STACK_VERIFY` to every entry in turn, with a word that holds the
certificate, and returns the name of the first entry after whose post the word is not `0`.
Most modules have no case `STACK_VERIFY` and leave the word alone.  Those that have one compare the
word with their own certificate in a local variable `verify`, set it to `1` when the test
succeeds, and then store the address of `verify` in the word, whatever came of the test.  The address
has eight bytes and the word four: the other four go to what lies behind `result` in the frame of
`mod_getmod_func`, which is left out: in the shipped library that is its local `proc`, which it
never reads.

A control function with the structure that `xm_extw` returns is a `ModControl`; which pair of
pointers stands for which is the parameter `controls`. -/

namespace Carroll

/-- `STACK_VERIFY`. -/
def stackVerify : ℕ := 31

/-- `MOD_NAME_STR` and the certificate of a module with a case `STACK_VERIFY`. -/
structure VerifyCase where
  modName : List UInt8
  cert : ℕ
deriving DecidableEq, Repr

/-- A control function applied to the structure of its module: `ptr->fdev` (the structure may be
`NULL`), its case `STACK_VERIFY`, and where its local `verify` lies. -/
structure ModControl where
  ext : Option CharPtr
  verifyCase : Option VerifyCase
  frame : ℕ
deriving DecidableEq, Repr

/-- The case `STACK_VERIFY` of `mod0`, `map0` and `stk0`: `verify`, and what `*string` holds. -/
def fmodVerify (v : VerifyCase) (fdev : CharPtr) (frame string : ℕ) : Option (ℕ × ℕ) :=
  (strcmpEq v.modName fdev).map fun found =>
    let verify := u32 string
    let verify := if found && verify = v.cert then 1 else verify
    (verify, frame)

/-- `FMOD_CTRL` with `STACK_VERIFY`: the word afterwards, of which the caller has 32 bits. -/
def ModControl.post (c : ModControl) (string : ℕ) : Option ℕ :=
  match c.ext, c.verifyCase with
  | some fdev, some v => (fmodVerify v fdev c.frame string).map fun r => u32 r.2
  | _, _ => some string

/-- The module answers `STACK_VERIFY` positively for a certificate. -/
def ModControl.Positive (c : ModControl) (cert : ℕ) : Prop :=
  ∃ v, c.ext = some (.str v.modName) ∧ c.verifyCase = some v ∧ u32 cert = v.cert

section
variable (ptr : ModStack) (controls : ℕ → ℕ → ModControl) (result cert : ℕ)

/-- The word after `mod_post` of `STACK_VERIFY` under a name; `result` is its address. -/
def modVerify (name : CharPtr) : Option ℕ :=
  (modPost ptr name stackVerify result).bind fun
    | none => some cert
    | some call => (controls call.xmCtrl call.xmExtw).post cert

/-- The loop of `mod_getmod_func`. -/
def modGetmodLoop : List ModAddr → Option CharPtr
  | [] => some .null
  | prev :: next =>
      (modVerify ptr controls result cert (modGetname (some prev))).bind fun word =>
        if word ≠ 0 then some (modGetname (some prev)) else modGetmodLoop next

/-- `mod_getmod_func`. -/
def modGetmodFunc : Option CharPtr := modGetmodLoop ptr controls result cert ptr.visited

/-- A module of the stack that bears the name answers positively. -/
def Certified (name : CharPtr) : Prop :=
  ∃ m ∈ ptr.addr, m.xmName = name ∧
    ∃ xmCtrl xmExtw, m.xmCtrl = some xmCtrl ∧ m.xmExtw = some xmExtw ∧
      (controls xmCtrl xmExtw).Positive cert

/-- `mod_getmod_func` returns the name of a module that answers positively when one is loaded, and
`NULL` otherwise. -/
def FindsRole : Prop :=
  ((∃ name, Certified ptr controls cert name) →
    ∃ n, modGetmodFunc ptr controls result cert = some (.str n) ∧
      Certified ptr controls cert (.str n)) ∧
  ((¬ ∃ name, Certified ptr controls cert name) →
    modGetmodFunc ptr controls result cert = some .null)

/-- The post under the name of `m` leaves `0`, and the loop goes on. -/
def Passes (m : ModAddr) : Prop := modVerify ptr controls result cert m.xmName = some 0

/-- The post under the name of `m` leaves something else, and the loop ends. -/
def Claims (m : ModAddr) : Prop := ∃ w, modVerify ptr controls result cert m.xmName = some w ∧ w ≠ 0

end

section
variable {ptr : ModStack} {controls : ℕ → ℕ → ModControl} {result cert : ℕ}

/-- The loop returns the name of the first entry that claims the certificate. -/
theorem modGetmodLoop_eq_some_iff {l : List ModAddr} {name : CharPtr} :
    modGetmodLoop ptr controls result cert l = some name ↔
      (∃ l₁ p l₂, l = l₁ ++ p :: l₂ ∧ (∀ x ∈ l₁, Passes ptr controls result cert x) ∧
        Claims ptr controls result cert p ∧ p.xmName = name) ∨
      ((∀ x ∈ l, Passes ptr controls result cert x) ∧ name = .null) := by
  induction l with
  | nil => simp [modGetmodLoop, eq_comm]
  | cons a l ih =>
      rw [modGetmodLoop, Option.bind_eq_some_iff]
      constructor
      · rintro ⟨w, hw, h⟩
        by_cases h0 : w = 0
        · rw [if_neg (not_not.mpr h0), ih] at h
          have ha : Passes ptr controls result cert a := by rw [Passes, ← h0]; exact hw
          obtain ⟨l₁, p, l₂, rfl, hpass, hclaim, hp⟩ | ⟨hpass, hnull⟩ := h
          · exact .inl ⟨a :: l₁, p, l₂, rfl, List.forall_mem_cons.mpr ⟨ha, hpass⟩, hclaim, hp⟩
          · exact .inr ⟨List.forall_mem_cons.mpr ⟨ha, hpass⟩, hnull⟩
        · rw [if_pos h0, Option.some.injEq] at h
          exact .inl ⟨[], a, l, rfl, fun x hx => absurd hx List.not_mem_nil, ⟨w, hw, h0⟩, h⟩
      · rintro (⟨l₁, p, l₂, hl, hpass, hclaim, hp⟩ | ⟨hpass, hnull⟩)
        · cases l₁ with
          | nil =>
              obtain ⟨rfl, rfl⟩ := List.cons.inj hl
              obtain ⟨w, hw, h0⟩ := hclaim
              exact ⟨w, hw, by rw [if_pos h0, ← hp, modGetname]⟩
          | cons b l₁ =>
              obtain ⟨rfl, rfl⟩ := List.cons.inj hl
              obtain ⟨ha, hpass⟩ := List.forall_mem_cons.mp hpass
              refine ⟨0, ha, ?_⟩
              rw [if_neg (not_not.mpr rfl), ih]
              exact .inl ⟨l₁, p, l₂, rfl, hpass, hclaim, hp⟩
        · obtain ⟨ha, hpass⟩ := List.forall_mem_cons.mp hpass
          refine ⟨0, ha, ?_⟩
          rw [if_neg (not_not.mpr rfl), ih]
          exact .inr ⟨hpass, hnull⟩

/-- What a module leaves is `0` only for the certificate `0`, or when the low half of the address
it stores is `0`. -/
theorem ModControl.post_zero {c : ModControl} {string : ℕ} (h : c.post string = some 0) :
    string = 0 ∨ u32 c.frame = 0 := by
  unfold ModControl.post at h
  cases hext : c.ext with
  | none => simp_all
  | some fdev =>
      cases hv : c.verifyCase with
      | none => simp_all
      | some v =>
          simp only [hext, hv, fmodVerify, Option.map_eq_some_iff] at h
          obtain ⟨r, ⟨found, -, rfl⟩, h0⟩ := h
          exact .inr h0

/-- No entry is passed over when the certificate is not `0` and no module stores an address whose
low half is `0`. -/
theorem not_passes (hcert : cert ≠ 0) (hframe : ∀ c e, u32 (controls c e).frame ≠ 0) (m : ModAddr) :
    ¬ Passes ptr controls result cert m := by
  intro h
  rw [Passes, modVerify, Option.bind_eq_some_iff] at h
  obtain ⟨call, -, h⟩ := h
  cases call with
  | none => exact hcert (Option.some.inj h)
  | some call => exact (ModControl.post_zero h).elim hcert (hframe _ _)

/-- What decides when no post leaves `0`: the first entry, whose post must be defined, bears the name of
a module that answers positively, or has no name and there is no such module; without entries there
must be no such module. -/
def FirstDecides (ptr : ModStack) (controls : ℕ → ℕ → ModControl) (result cert : ℕ) : Prop :=
  match ptr.visited with
  | [] => ¬ ∃ name, Certified ptr controls cert name
  | p :: _ => (modVerify ptr controls result cert p.xmName).isSome ∧
      ((∃ n, p.xmName = .str n ∧ Certified ptr controls cert (.str n)) ∨
        (p.xmName = .null ∧ ¬ ∃ name, Certified ptr controls cert name))

/-- The role is found at the first entry that claims the certificate: it bears the name of a module
that answers positively, or has no name and there is no such module; or no entry claims the
certificate, and there is no such module. -/
def RoleFirst (ptr : ModStack) (controls : ℕ → ℕ → ModControl) (result cert : ℕ) : Prop :=
  (∃ l₁ p l₂, ptr.visited = l₁ ++ p :: l₂ ∧ (∀ x ∈ l₁, Passes ptr controls result cert x) ∧
    Claims ptr controls result cert p ∧
    ((∃ n, p.xmName = .str n ∧ Certified ptr controls cert (.str n)) ∨
      (p.xmName = .null ∧ ¬ ∃ name, Certified ptr controls cert name))) ∨
  ((∀ x ∈ ptr.visited, Passes ptr controls result cert x) ∧
    ¬ ∃ name, Certified ptr controls cert name)

theorem claims_iff (hcert : cert ≠ 0) (hframe : ∀ c e, u32 (controls c e).frame ≠ 0) {m : ModAddr} :
    Claims ptr controls result cert m ↔ (modVerify ptr controls result cert m.xmName).isSome := by
  rw [Option.isSome_iff_exists]
  constructor
  · rintro ⟨w, hw, -⟩
    exact ⟨w, hw⟩
  · rintro ⟨w, hw⟩
    exact ⟨w, hw, fun h0 => not_passes hcert hframe m (h0 ▸ hw)⟩

/-- With a certificate other than `0` the first entry that claims it is the first entry. -/
theorem roleFirst_iff_firstDecides (hcert : cert ≠ 0) (hframe : ∀ c e, u32 (controls c e).frame ≠ 0) :
    RoleFirst ptr controls result cert ↔ FirstDecides ptr controls result cert := by
  unfold RoleFirst FirstDecides
  simp only [claims_iff hcert hframe]
  cases hvis : ptr.visited with
  | nil => simp
  | cons p l =>
      have hpass : ∀ {l₁ : List ModAddr}, (∀ x ∈ l₁, Passes ptr controls result cert x) → l₁ = [] := by
        intro l₁ h
        cases l₁ with
        | nil => rfl
        | cons x l₁ => exact absurd (h x List.mem_cons_self) (not_passes hcert hframe x)
      constructor
      · rintro (⟨l₁, p', l₂, hl, h₁, hrest⟩ | ⟨h, -⟩)
        · obtain rfl := hpass h₁
          obtain ⟨rfl, -⟩ := List.cons.inj hl
          exact hrest
        · exact absurd (hpass h) (List.cons_ne_nil p l)
      · exact fun h => .inl ⟨[], p, l, rfl, fun x hx => absurd hx List.not_mem_nil, h⟩

theorem findsRole_iff_roleFirst :
    FindsRole ptr controls result cert ↔ RoleFirst ptr controls result cert := by
  by_cases hrole : ∃ name, Certified ptr controls cert name
  · constructor
    · rintro ⟨hpos, -⟩
      obtain ⟨n, hget, hn⟩ := hpos hrole
      obtain ⟨l₁, p, l₂, hvis, hpass, hclaim, hp⟩ | ⟨-, hnull⟩ := modGetmodLoop_eq_some_iff.mp hget
      · exact .inl ⟨l₁, p, l₂, hvis, hpass, hclaim, .inl ⟨n, hp, hn⟩⟩
      · cases hnull
    · rintro (⟨l₁, p, l₂, hvis, hpass, hclaim, ⟨n, hp, hn⟩ | ⟨-, hno⟩⟩ | ⟨-, hno⟩)
      · exact ⟨fun _ => ⟨n, modGetmodLoop_eq_some_iff.mpr
          (.inl ⟨l₁, p, l₂, hvis, hpass, hclaim, hp⟩), hn⟩, fun hno => absurd hrole hno⟩
      · exact absurd hrole hno
      · exact absurd hrole hno
  · constructor
    · rintro ⟨-, hneg⟩
      obtain ⟨l₁, p, l₂, hvis, hpass, hclaim, hp⟩ | ⟨hpass, -⟩ :=
        modGetmodLoop_eq_some_iff.mp (hneg hrole)
      · exact .inl ⟨l₁, p, l₂, hvis, hpass, hclaim, .inr ⟨hp, hrole⟩⟩
      · exact .inr ⟨hpass, hrole⟩
    · intro h
      refine ⟨fun h' => absurd h' hrole, fun _ => ?_⟩
      obtain ⟨l₁, p, l₂, hvis, hpass, hclaim, ⟨n, -, hn⟩ | ⟨hp, -⟩⟩ | ⟨hpass, -⟩ := h
      · exact absurd ⟨_, hn⟩ hrole
      · exact modGetmodLoop_eq_some_iff.mpr (.inl ⟨l₁, p, l₂, hvis, hpass, hclaim, hp⟩)
      · exact modGetmodLoop_eq_some_iff.mpr (.inr ⟨hpass, rfl⟩)

end

/-- **Role lookup.**  For every stack of modules, whatever their control functions are, and every
certificate, `mod_getmod_func` returns the name of a module that answers positively when one is
loaded and `NULL` otherwise, if and only if the first entry that claims the certificate decides
so.  With a certificate other than `0` that is the first entry of the stack, unless a module stores
an address whose low half is `0`. -/
theorem findsRole_iff (ptr : ModStack) (controls : ℕ → ℕ → ModControl) (result cert : ℕ) :
    (FindsRole ptr controls result cert ↔ RoleFirst ptr controls result cert) ∧
    (cert ≠ 0 → (∀ c e, u32 (controls c e).frame ≠ 0) →
      (FindsRole ptr controls result cert ↔ FirstDecides ptr controls result cert)) :=
  ⟨findsRole_iff_roleFirst, fun hcert hframe =>
    findsRole_iff_roleFirst.trans (roleFirst_iff_firstDecides hcert hframe)⟩

/-! ### `bcdx` before `mod0` -/

/-- `MOD_NAME_STR` of `bcdx` and of `mod0`. -/
def bcdxName : List UInt8 := [0x62, 0x63, 0x64, 0x78]

def mod0Name : List UInt8 := [0x6d, 0x6f, 0x64, 0x30]

/-- `MOD0_CERT_VERIFY_VERSION`. -/
def mod0Cert : ℕ := 0x1011

/-- The entry of a complete library whose control function and structure are at `base`. -/
def plainEntry (base : ℕ) (name : List UInt8) : ModAddr :=
  ⟨.null, 0, none, .str name, none, none, none, some base, none, some base⟩

/-- `bcdx` leaves the word alone, `mod0` has the case `STACK_VERIFY`. -/
def bcdxMod0Controls : ℕ → ℕ → ModControl
  | 1, _ => ⟨some (.str bcdxName), none, 0x7ffc0000⟩
  | _, _ => ⟨some (.str mod0Name), some ⟨mod0Name, mod0Cert⟩, 0x7ffc0000⟩

/-- `findsRole_iff` with `mod0` loaded before `bcdx`. -/
theorem findsRole_mod0First :
    FindsRole ((modAlloc.push (plainEntry 2 mod0Name)).push (plainEntry 1 bcdxName))
      bcdxMod0Controls 0 mod0Cert := by
  refine ((findsRole_iff _ _ _ _).2 (by decide) ?_).mpr ⟨by decide, .inl ⟨mod0Name, rfl,
    plainEntry 2 mod0Name, by simp, rfl, 2, 2, rfl, rfl, ⟨mod0Name, mod0Cert⟩, rfl, rfl, rfl⟩⟩
  intro c e
  unfold bcdxMod0Controls
  split <;> decide

/-- With `bcdx` loaded before `mod0`, the module certified for `mod0` is said to be `bcdx`. -/
theorem not_findsRole_mod0 :
    ¬ FindsRole ((modAlloc.push (plainEntry 1 bcdxName)).push (plainEntry 2 mod0Name))
      bcdxMod0Controls 0 mod0Cert := by
  rintro ⟨hpos, -⟩
  have hmod0 : Certified ((modAlloc.push (plainEntry 1 bcdxName)).push (plainEntry 2 mod0Name))
      bcdxMod0Controls mod0Cert (.str mod0Name) :=
    ⟨plainEntry 2 mod0Name, by simp, rfl, 2, 2, rfl, rfl, ⟨mod0Name, mod0Cert⟩, rfl, rfl, rfl⟩
  obtain ⟨n, hget, m, hm, hname, xmCtrl, xmExtw, hc, -, v, -, hv, -⟩ := hpos ⟨_, hmod0⟩
  have hbcdx : modGetmodFunc ((modAlloc.push (plainEntry 1 bcdxName)).push (plainEntry 2 mod0Name))
      bcdxMod0Controls 0 mod0Cert = some (.str bcdxName) := by decide
  obtain rfl : n = bcdxName := by
    rw [hbcdx] at hget
    exact (CharPtr.str.inj (Option.some.inj hget)).symm
  have hcases : m = plainEntry 1 bcdxName ∨ m = plainEntry 2 mod0Name := by simpa [modAlloc] using hm
  obtain rfl | rfl := hcases
  · obtain rfl := Option.some.inj hc
    cases hv
  · exact absurd hname (by decide)

end Carroll
