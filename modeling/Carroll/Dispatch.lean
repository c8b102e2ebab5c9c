import Carroll.Mod

/-! # Module dispatch

`mod_post` finds a module by its name: the first of the visited entries that bears it, unless an
entry without a name comes first, at which `mod_find` gives up.  So a module is reached by its
name when the first entry of that name, with named entries only before it, has the same control
function; a second module of the same name is not reached, nor is any module loaded after one
whose library has no `zmod_name`.

`Dispatches` says of a list of loadings that `mod_post` reaches the right module after each of
them; `dispatches_iff` says for which lists it holds. -/

namespace Carroll

/-- What dispatch reads of an entry. -/
structure Image where
  name : CharPtr
  ctrl : Option ℕ
  extw : Option ℕ
deriving DecidableEq, Repr

/-- What dispatch reads of an entry. -/
def ModAddr.image (m : ModAddr) : Image := ⟨m.xmName, m.xmCtrl, m.xmExtw⟩

namespace Loading

/-- What dispatch reads of the entry that a loading appends, if it gets one. -/
def image (ld : Loading) : Option Image :=
  ld.upd.map fun upd =>
    ⟨ld.nameAfter upd.xmName ld.rounds, (ld.dlsym (ld.rounds - 1)).ctrl,
      (ld.dlsym (ld.rounds - 1)).extw⟩

/-- `mod_update` returns `1`. -/
def Succeeds (ld : Loading) : Prop :=
  ld.upd.isSome ∧ (ld.errAfter ld.rounds = 0 ∨ ld.errAfter ld.rounds = 1)

end Loading

theorem modUpdate_isSome_iff {ptr : ModStack} {ld : Loading} :
    (modUpdate ptr ld).isSome ↔ ld.Defined := by
  unfold Loading.Defined
  cases hu : ld.upd with
  | none => simp [modUpdate, modUpdateOn, hu]
  | some upd =>
      simp only [Option.some.injEq, forall_eq']
      rw [← @Loading.runs_iff ptr.count ld upd, Option.isSome_iff_exists]
      constructor
      · rintro ⟨⟨ptr', res⟩, h⟩
        obtain ⟨r, hr, hreg, -⟩ := (modUpdateOn_snupdate hu).mp h
        exact ⟨r, hr, hreg⟩
      · rintro ⟨r, hr, hreg⟩
        exact ⟨_, (modUpdateOn_snupdate hu).mpr ⟨r, hr, hreg, rfl, rfl⟩⟩

/-- A `mod_update` leaves the stack as it is or appends the entry of the loading. -/
theorem modUpdate_spec {ptr ptr' : ModStack} {ld : Loading} {r : ℤ}
    (h : modUpdate ptr ld = some (ptr', r)) :
    ptr'.addr.map ModAddr.image = ptr.addr.map ModAddr.image ++ ld.image.toList ∧
    (r = 1 ↔ ld.Succeeds) := by
  unfold Loading.image Loading.Succeeds
  cases hu : ld.upd with
  | none =>
      simp only [modUpdate, modUpdateOn, hu, Option.some.injEq, Prod.mk.injEq] at h
      obtain ⟨rfl, rfl⟩ := h
      simp
  | some upd =>
      obtain ⟨s, hs, -, happend, rfl⟩ := (modUpdateOn_snupdate hu).mp h
      obtain rfl := Option.some.inj happend
      dsimp only [modLoadAt] at hs
      rw [Loading.modRounds_eq] at hs
      obtain ⟨hname, herr, hlast⟩ := Loading.upTo_spec hs
      obtain ⟨hctrl, hextw⟩ := hlast ld.rounds_pos
      constructor
      · simp only [Counted.addr_push, List.map_append, List.map_cons, List.map_nil,
          ModAddr.image, hname, hctrl, hextw, Option.map_some, Option.toList_some]
      · rw [herr]
        simp only [Option.isSome_some, true_and]
        split_ifs <;> omega

/-! ### Finding a module -/

/-- Every image of the list has a name, and it is not `n`. -/
def OthersNamed (n : List UInt8) (l : List Image) : Prop :=
  ∀ x ∈ l, ∃ n', x.name = .str n' ∧ n' ≠ n

/-- The first image that bears the name `n`, with named ones only before it, has the control
function of `im`, and both functions that a call needs. -/
def FirstBearer (l : List Image) (n : List UInt8) (im : Image) : Prop :=
  ∃ l₁ p l₂, l = l₁ ++ p :: l₂ ∧ OthersNamed n l₁ ∧ p.name = .str n ∧
    p.ctrl = im.ctrl ∧ im.ctrl.isSome ∧ p.extw.isSome

/-- `mod_post` under the name `find` calls `xm_ctrl` of `m`. -/
def Invokes (ptr : ModStack) (find : CharPtr) (m : ModAddr) : Prop :=
  ∀ ctrl value, ∃ xmCtrl xmExtw,
    modPost ptr find ctrl value = some (some ⟨xmCtrl, xmExtw, ctrl, value⟩) ∧
      m.xmCtrl = some xmCtrl

theorem modFindLoop_eq_some_iff {n : List UInt8} {l : List ModAddr} {proc : ModAddr} :
    modFindLoop (.str n) l = some (some proc) ↔
      ∃ l₁ l₂, l = l₁ ++ proc :: l₂ ∧ OthersNamed n (l₁.map ModAddr.image) ∧
        proc.xmName = .str n := by
  induction l with
  | nil => simp [modFindLoop]
  | cons a l ih =>
      rw [modFindLoop]
      constructor
      · intro h
        cases ha : a.xmName with
        | null => simp [ha] at h
        | wild => simp [ha] at h
        | str name =>
            simp only [ha, strcmpEq, Option.bind_some, decide_eq_true_eq] at h
            by_cases hn : name = n
            · rw [if_pos hn, Option.some.injEq, Option.some.injEq] at h
              subst h
              exact ⟨[], l, rfl, fun x hx => absurd hx List.not_mem_nil, by rw [ha, hn]⟩
            · rw [if_neg hn] at h
              obtain ⟨l₁, l₂, rfl, hothers, hproc⟩ := ih.mp h
              refine ⟨a :: l₁, l₂, rfl, fun x hx => ?_, hproc⟩
              rcases List.mem_cons.mp hx with rfl | hx
              · exact ⟨name, ha, hn⟩
              · exact hothers x hx
      · rintro ⟨l₁, l₂, hl, hothers, hproc⟩
        cases l₁ with
        | nil =>
            obtain ⟨rfl, rfl⟩ := List.cons.inj hl
            simp [hproc, strcmpEq]
        | cons b l₁ =>
            obtain ⟨rfl, rfl⟩ := List.cons.inj hl
            obtain ⟨name, ha, hn⟩ := hothers a.image List.mem_cons_self
            have hrest := ih.mpr ⟨l₁, l₂, rfl, fun x hx => hothers x (List.mem_cons_of_mem _ hx), hproc⟩
            have ha' : a.xmName = .str name := ha
            simp only [ha', strcmpEq, Option.bind_some, decide_eq_true_eq, if_neg hn]
            exact hrest

theorem call_eq_some_iff {proc : ModAddr} {ctrl value : ℕ} {c : Call} :
    proc.call ctrl value = some c ↔
      proc.xmCtrl = some c.xmCtrl ∧ proc.xmExtw = some c.xmExtw ∧ c.ctrl = ctrl ∧ c.value = value := by
  obtain ⟨xmCtrl, xmExtw, ctrl', value'⟩ := c
  unfold ModAddr.call
  cases proc.xmCtrl <;> cases proc.xmExtw <;> simp [Call.mk.injEq, eq_comm]

/-- `mod_post` reaches a module by the name `n` exactly when the first bearer of `n` among the
visited entries answers for it. -/
theorem invokes_iff {ptr : ModStack} {n : List UInt8} {m : ModAddr} :
    Invokes ptr (.str n) m ↔ FirstBearer (ptr.visited.map ModAddr.image) n m.image := by
  constructor
  · intro h
    obtain ⟨xmCtrl, xmExtw, hpost, hm⟩ := h 0 0
    simp only [modPost, Option.map_eq_some_iff] at hpost
    obtain ⟨proc, hfind, hcall⟩ := hpost
    cases proc with
    | none => cases hcall
    | some proc =>
        rw [Option.bind_some, call_eq_some_iff] at hcall
        obtain ⟨l₁, l₂, hl, hothers, hproc⟩ := modFindLoop_eq_some_iff.mp hfind
        refine ⟨l₁.map ModAddr.image, proc.image, l₂.map ModAddr.image, ?_, hothers, hproc, ?_, ?_, ?_⟩
        · rw [hl, List.map_append, List.map_cons]
        · exact hcall.1.trans hm.symm
        · show m.xmCtrl.isSome = true
          rw [hm, Option.isSome_some]
        · show proc.xmExtw.isSome = true
          rw [hcall.2.1, Option.isSome_some]
  · rintro ⟨l₁, p, l₂, hl, hothers, hname, hctrl, hsome, hextw⟩ ctrl value
    obtain ⟨k₁, t, hvis, rfl, ht⟩ := List.map_eq_append_iff.mp hl
    obtain ⟨proc, k₂, rfl, rfl, rfl⟩ := List.map_eq_cons_iff.mp ht
    obtain ⟨xmCtrl, hc⟩ := Option.isSome_iff_exists.mp hsome
    obtain ⟨xmExtw, he⟩ := Option.isSome_iff_exists.mp hextw
    refine ⟨xmCtrl, xmExtw, ?_, hc⟩
    have hfind : modFind ptr (.str n) = some (some proc) :=
      modFindLoop_eq_some_iff.mpr ⟨k₁, k₂, hvis, hothers, hname⟩
    have hcall : proc.call ctrl value = some ⟨xmCtrl, xmExtw, ctrl, value⟩ :=
      call_eq_some_iff.mpr ⟨hctrl.trans hc, he, rfl, rfl⟩
    simp only [modPost, hfind, Option.map_some, Option.bind_some, hcall]

/-! ### Lists of images -/

/-- What follows a bearer of the name does not matter. -/
theorem FirstBearer.of_append {l k : List Image} {n : List UInt8} {im : Image}
    (h : FirstBearer (l ++ k) n im) (him : im ∈ l) (hn : im.name = .str n) :
    FirstBearer l n im := by
  obtain ⟨l₁, p, l₂, hl, hothers, h⟩ := h
  rcases List.append_eq_append_iff.mp hl with ⟨t, rfl, -⟩ | ⟨t, rfl, ht⟩
  · obtain ⟨n', hn', hne⟩ := hothers im (List.mem_append_left _ him)
    rw [hn, CharPtr.str.injEq] at hn'
    exact absurd hn'.symm hne
  · cases t with
    | nil =>
        obtain ⟨n', hn', hne⟩ := hothers im (by simpa using him)
        rw [hn, CharPtr.str.injEq] at hn'
        exact absurd hn'.symm hne
    | cons q t =>
        obtain ⟨rfl, rfl⟩ := List.cons.inj ht
        exact ⟨l₁, p, t, rfl, hothers, h⟩

/-- The list starts with a named image when a name is found in it. -/
theorem FirstBearer.head {l : List Image} {n : List UInt8} {im a : Image}
    (h : FirstBearer (a :: l) n im) : ∃ n', a.name = .str n' := by
  obtain ⟨l₁, p, l₂, hl, hothers, hp, -⟩ := h
  cases l₁ with
  | nil =>
      obtain ⟨rfl, -⟩ := List.cons.inj hl
      exact ⟨n, hp⟩
  | cons b l₁ =>
      obtain ⟨rfl, -⟩ := List.cons.inj hl
      obtain ⟨n', hn', -⟩ := hothers a List.mem_cons_self
      exact ⟨n', hn'⟩

/-- Every named image is answered for by the first bearer of its name, and their number fits in
the counter. -/
def Distinguished (l : List Image) : Prop :=
  ∀ im ∈ l, ∀ n, im.name = .str n → l.length < 2 ^ 32 ∧ FirstBearer l n im

theorem distinguished_nil : Distinguished [] := fun _ h => absurd h List.not_mem_nil

theorem Distinguished.of_append {l k : List Image} (h : Distinguished (l ++ k)) :
    Distinguished l := by
  intro im him n hn
  obtain ⟨hlen, hfirst⟩ := h im (List.mem_append_left k him) n hn
  rw [List.length_append] at hlen
  exact ⟨by omega, hfirst.of_append him hn⟩

/-- `mod_post` reaches every named module of the stack by its name. -/
def AllReached (ptr : ModStack) : Prop :=
  ∀ m ∈ ptr.addr, ∀ n, m.xmName = .str n → Invokes ptr (.str n) m

theorem Distinguished.allReached {ptr : ModStack}
    (h : Distinguished (ptr.addr.map ModAddr.image)) : AllReached ptr := by
  intro m hm n hn
  obtain ⟨hlen, hfirst⟩ := h m.image (List.mem_map_of_mem hm) n hn
  rw [List.length_map] at hlen
  rw [invokes_iff, Counted.visited_of_lt hlen]
  exact hfirst

theorem not_firstBearer_nil {n : List UInt8} {im : Image} : ¬ FirstBearer [] n im := by
  rintro ⟨l₁, p, l₂, hl, -⟩
  exact absurd hl.symm (by simp)

/-- As long as the counter has not wrapped before, a named entry is reached only if it does not
wrap now: with `count = 0` nothing is visited, and one wrap further the first entry, which was
not reached then, has no name. -/
theorem length_lt_of_invokes {ptr : ModStack} {l : List Image} {x : Image}
    (hptr : ptr.addr.map ModAddr.image = l ++ [x]) (hl : Distinguished l)
    {n : List UInt8} {m : ModAddr} (h : Invokes ptr (.str n) m) : ptr.addr.length < 2 ^ 32 := by
  have hsize : ptr.addr.length = l.length + 1 := by
    rw [← List.length_map (f := ModAddr.image), hptr, List.length_append, List.length_singleton]
  have hfirst := invokes_iff.mp h
  by_contra hge
  cases hv : ptr.visited with
  | nil =>
      rw [hv] at hfirst
      exact not_firstBearer_nil hfirst
  | cons a vis =>
      rw [hv, List.map_cons] at hfirst
      obtain ⟨n', hn'⟩ := hfirst.head
      have hhead : (l ++ [x])[0]? = some a.image := by
        rw [← hptr, List.getElem?_map, Counted.visited_head hv, Option.map_some]
      cases l with
      | nil =>
          rw [List.length_nil] at hsize
          omega
      | cons b l =>
          obtain rfl : b = a.image := Option.some.inj hhead
          obtain ⟨hlen, -⟩ := hl a.image List.mem_cons_self n' hn'
          have hwrap : ptr.addr.length = 2 ^ 32 := by omega
          rw [Counted.visited_of_wrap hwrap] at hv
          cases hv

/-- With one more entry, all reached: the images are distinguished again. -/
theorem distinguished_of_allReached {ptr : ModStack} {l : List Image} {o : Option Image}
    (hptr : ptr.addr.map ModAddr.image = l ++ o.toList) (hl : Distinguished l)
    (h : AllReached ptr) : Distinguished (ptr.addr.map ModAddr.image) := by
  cases o with
  | none =>
      rw [Option.toList_none, List.append_nil] at hptr
      rwa [hptr]
  | some x =>
      intro im him n hn
      obtain ⟨m, hm, rfl⟩ := List.mem_map.mp him
      have hinv := h m hm n hn
      have hlen := length_lt_of_invokes hptr hl hinv
      have hfirst := invokes_iff.mp hinv
      rw [Counted.visited_of_lt hlen] at hfirst
      exact ⟨by rwa [List.length_map], hfirst⟩

/-! ### Runs of `mod_update` -/

/-- After a successful `mod_update`, `mod_post` under the name of `mod_object` calls `xm_ctrl` of
the last entry. -/
def LastReached (ptr : ModStack) : Prop :=
  ∃ m, ptr.addr.getLast? = some m ∧ Invokes ptr (modGetname (modObject ptr)) m

/-- Dispatch reaches the right module after each of the loadings. -/
def Dispatches (ptr : ModStack) : List Loading → Prop
  | [] => True
  | ld :: lds =>
      ∃ ptr' r, modUpdate ptr ld = some (ptr', r) ∧ (r = 1 → LastReached ptr') ∧
        AllReached ptr' ∧ Dispatches ptr' lds

theorem not_invokes_null {ptr : ModStack} {m : ModAddr} : ¬ Invokes ptr .null m := by
  intro h
  obtain ⟨xmCtrl, xmExtw, hpost, -⟩ := h 0 0
  cases hpost

theorem not_invokes_wild {ptr : ModStack} {m : ModAddr} : ¬ Invokes ptr .wild m := by
  intro h
  obtain ⟨xmCtrl, xmExtw, hpost, -⟩ := h 0 0
  simp only [modPost, modFind] at hpost
  cases hv : ptr.visited with
  | nil => simp [hv, modFindLoop] at hpost
  | cons prev next =>
      rw [hv, modFindLoop] at hpost
      cases hn : prev.xmName <;> simp [hn, strcmpEq] at hpost

theorem Invokes.named {ptr : ModStack} {find : CharPtr} {m : ModAddr} (h : Invokes ptr find m) :
    ∃ n, find = .str n := by
  cases find with
  | null => exact absurd h not_invokes_null
  | wild => exact absurd h not_invokes_wild
  | str n => exact ⟨n, rfl⟩

/-- `mod_object` is the last entry while the counter has not wrapped. -/
theorem modObject_eq {ptr : ModStack} (h : ptr.addr.length < 2 ^ 32) (hpos : 0 < ptr.addr.length) :
    modObject ptr = ptr.addr.getLast? := by
  rw [modObject, Counted.count_of_lt h, List.getLast?_eq_getElem?]
  split_ifs with hone
  · rw [hone]
  · have hstep : u32 (ptr.addr.length + (2 ^ 32 - 1)) = ptr.addr.length - 1 := by
      unfold u32
      omega
    rw [hstep]

/-- A successful loading leaves its entry at the end of the stack. -/
theorem getLast?_of_image {ptr : ModStack} {l : List Image} {im : Image}
    (hptr : ptr.addr.map ModAddr.image = l ++ [im]) :
    ∃ m, ptr.addr.getLast? = some m ∧ m.image = im := by
  have hlast : (ptr.addr.map ModAddr.image).getLast? = some im := by simp [hptr]
  rw [List.getLast?_map, Option.map_eq_some_iff] at hlast
  exact hlast

/-- The last entry is reached under the name of `mod_object` exactly when it has a name, as long
as the named entries are all reached. -/
theorem lastReached_iff {ptr : ModStack} {l : List Image} {im : Image}
    (hptr : ptr.addr.map ModAddr.image = l ++ [im]) (hl : Distinguished l) (hall : AllReached ptr) :
    LastReached ptr ↔ ∃ n, im.name = .str n := by
  obtain ⟨m, hm, rfl⟩ := getLast?_of_image hptr
  have hpos : 0 < ptr.addr.length :=
    List.length_pos_iff.mpr fun hnil => by simp [hnil] at hm
  constructor
  · rintro ⟨m', hm', hinv⟩
    obtain ⟨n, hn⟩ := hinv.named
    rw [hn] at hinv
    have hlen := length_lt_of_invokes hptr hl hinv
    rw [modObject_eq hlen hpos, hm] at hn
    exact ⟨n, hn⟩
  · rintro ⟨n, hn⟩
    have hinv := hall m (List.mem_of_getLast? hm) n hn
    have hlen := length_lt_of_invokes hptr hl hinv
    refine ⟨m, hm, ?_⟩
    have hname : modGetname (modObject ptr) = .str n := by
      rw [modObject_eq hlen hpos, hm]
      exact hn
    rwa [hname]

/-- A loading that succeeds leaves a name in its entry. -/
def Loading.Named (ld : Loading) : Prop :=
  ld.Succeeds → ∃ im n, ld.image = some im ∧ im.name = .str n

theorem dispatches_from {ptr : ModStack} (h : Distinguished (ptr.addr.map ModAddr.image))
    (lds : List Loading) :
    Dispatches ptr lds ↔ (∀ ld ∈ lds, ld.Defined ∧ ld.Named) ∧
      Distinguished (ptr.addr.map ModAddr.image ++ lds.filterMap Loading.image) := by
  induction lds generalizing ptr with
  | nil => simp [Dispatches, h]
  | cons ld lds ih =>
      have happend : ∀ ptr' : ModStack,
          ptr'.addr.map ModAddr.image = ptr.addr.map ModAddr.image ++ ld.image.toList →
          ptr.addr.map ModAddr.image ++ (ld :: lds).filterMap Loading.image =
            ptr'.addr.map ModAddr.image ++ lds.filterMap Loading.image := by
        intro ptr' hptr'
        rw [hptr', List.filterMap_cons]
        cases ld.image <;> simp
      have himage : ld.Succeeds → ∃ im, ld.image = some im := by
        rintro ⟨hs, -⟩
        obtain ⟨upd, hu⟩ := Option.isSome_iff_exists.mp hs
        exact ⟨_, by rw [Loading.image, hu, Option.map_some]⟩
      constructor
      · rintro ⟨ptr', r, hupd, hlast, hall, hrest⟩
        obtain ⟨hptr', hr⟩ := modUpdate_spec hupd
        have hdist := distinguished_of_allReached hptr' h hall
        obtain ⟨hlds, hd⟩ := (ih hdist).mp hrest
        rw [happend ptr' hptr']
        refine ⟨List.forall_mem_cons.mpr ⟨⟨?_, fun hs => ?_⟩, hlds⟩, hd⟩
        · exact modUpdate_isSome_iff.mp (by rw [hupd, Option.isSome_some])
        · obtain ⟨im, him⟩ := himage hs
          rw [him, Option.toList_some] at hptr'
          obtain ⟨n, hn⟩ := (lastReached_iff hptr' h hall).mp (hlast (hr.mpr hs))
          exact ⟨im, n, him, hn⟩
      · rintro ⟨hlds, hd⟩
        obtain ⟨⟨hfit, hnamed⟩, hlds⟩ := List.forall_mem_cons.mp hlds
        obtain ⟨⟨ptr', r⟩, hupd⟩ := Option.isSome_iff_exists.mp
          ((@modUpdate_isSome_iff ptr ld).mpr hfit)
        obtain ⟨hptr', hr⟩ := modUpdate_spec hupd
        rw [happend ptr' hptr'] at hd
        have hall := hd.of_append.allReached
        refine ⟨ptr', r, hupd, fun h1 => ?_, hall, (ih hd.of_append).mpr ⟨hlds, hd⟩⟩
        obtain ⟨im, n, him, hn⟩ := hnamed (hr.mp h1)
        rw [him, Option.toList_some] at hptr'
        exact (lastReached_iff hptr' h hall).mpr ⟨n, hn⟩

/-- **Dispatch.**  For every list of loadings, `mod_post` reaches the right module after each of them
if and only if `mod_update` is defined for each (their names fit in its buffer, and the path that it
registers was written), every successful one leaves a name in its entry, and every named entry is
answered for by the first entry of its name, with named entries only before it (and fewer than `2 ^ 32`
of them). -/
theorem dispatches_iff (lds : List Loading) :
    Dispatches modAlloc lds ↔ (∀ ld ∈ lds, ld.Defined ∧ ld.Named) ∧
      Distinguished (lds.filterMap Loading.image) :=
  @dispatches_from modAlloc distinguished_nil lds

/-! ### The modules `map0` and `stk0` -/

/-- `MOD_NAME_STR` of `map0`, and of `stk0` as well: `"map0"`. -/
def map0Name : List UInt8 := [0x6d, 0x61, 0x70, 0x30]

/-- A library that has everything at the first attempt, its functions at `base` and behind. -/
def completeLoading (base : ℕ) (name : List UInt8) : Loading where
  upd := some ⟨.null, 0, none, .null, none, none, none, none, none, none⟩
  dlopen := fun _ => some base
  dlsym := fun _ => ⟨some base, some (base + 1), some (base + 2), some (base + 3), some (base + 4),
    some (base + 5), some name⟩
  newStr := fun _ => true
  xmInit := fun _ => 0
  registers := true

/-- After `map0`, `stk0` is loaded under the same name, and `mod_post` calls `map0`. -/
theorem not_dispatches_stk0 :
    ¬ Dispatches modAlloc [completeLoading 16 map0Name, completeLoading 32 map0Name] := by
  rintro ⟨ptr₁, r₁, h₁, -, -, ptr₂, r₂, h₂, hlast, -, -⟩
  obtain ⟨rfl, rfl⟩ := Prod.mk.inj (Option.some.inj h₁)
  obtain ⟨rfl, rfl⟩ := Prod.mk.inj (Option.some.inj h₂)
  obtain ⟨m, hm, hinv⟩ := hlast rfl
  obtain ⟨xmCtrl, xmExtw, hpost, hctrl⟩ := hinv 0 0
  obtain rfl := Option.some.inj hm
  obtain rfl := Option.some.inj hctrl
  cases hpost

end Carroll
