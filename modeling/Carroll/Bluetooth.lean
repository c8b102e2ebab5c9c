import Carroll.Mem

/-! # Bluetooth devices

`libvbt_select` scans for devices and appends each to a list; `libvbt_update` takes the fields of the
device with number `p` from the list.

* What the Bluetooth library and `malloc` give to a scan comes with the scan.  A text is a C string
  without its NUL; those of the library fit their arrays.
* Before it looks at the responses a scan prints the addresses of the connections, which it reads from
  the block of `cr`; a read past the end of that block is undefined.
* `uclass` and `udesc` of an element of the list are never set; `libvbt_update` copies them as C
  strings, which is undefined when the array has no NUL.

`count` is that of the last scan, but the list begins with the devices of the first one
(`vbtSelects_iff`). -/

namespace Carroll
namespace Bluetooth

/-- What a user sees of a device. -/
structure Device where
  addr : List UInt8
  name : List UInt8
  device : List UInt8
  bdaddr : List UInt8
deriving DecidableEq

/-- `struct libvbt_list_t`. -/
structure VbtList where
  devId : ℤ
  addr : List UInt8
  name : List UInt8
  device : List UInt8
  uclass : Mem
  udesc : Mem
  bdaddr : List UInt8

/-- `struct libvbt_t`. -/
structure Vbt where
  dev : ℤ
  devId : ℤ
  bdaddr : List UInt8
  addr : List UInt8
  name : List UInt8
  device : List UInt8
  uclass : List UInt8
  udesc : List UInt8
  count : ℕ
  list : List VbtList

/-- The device of an element. -/
def VbtList.shown (d : VbtList) : Device := ⟨d.addr, d.name, d.device, d.bdaddr⟩

/-- The device that is selected. -/
def Vbt.shown (st : Vbt) : Device := ⟨st.addr, st.name, st.device, st.bdaddr⟩

/-- `struct libvbt_t` as a global variable. -/
def Vbt.init : Vbt := ⟨0, 0, List.replicate 6 0, [], [], [], [], [], 0, []⟩

/-! ### Scans -/

/-- A response: its address, the names that can be read, and `uclass` and `udesc` of the element that
`malloc` returns. -/
structure Response where
  bdaddr : List UInt8
  name : Option (List UInt8)
  device : Option (List UInt8)
  upd : Option (Mem × Mem)

/-- The responses to an inquiry, at most `max_rsp`. -/
structure Inquiry where
  responses : List Response
  le : responses.length ≤ 255

/-- What a scan meets: the device, the two allocations and the inquiry, the content of `cr`, and
`cl->conn_num`. -/
structure Scan where
  fx : ℤ
  devId : ℤ
  opened : Bool
  ii : Bool
  inquiry : Option Inquiry
  devinfo : Bool
  cr : Option Mem
  cl : Bool
  connNum : Option ℕ

/-- What a scan has when it gets to the connections. -/
def Scan.found (s : Scan) : Option (Inquiry × Mem × ℕ) := do
  guard (s.opened = true ∧ s.ii = true)
  let inquiry ← s.inquiry
  guard (s.devinfo = true)
  let cr ← s.cr
  guard (s.cl = true)
  let connNum ← s.connNum
  return (inquiry, cr, connNum)

/-- `"[unknown]"`. -/
def unknownName : List UInt8 := [0x5b, 0x75, 0x6e, 0x6b, 0x6e, 0x6f, 0x77, 0x6e, 0x5d]

/-- `"n/a"`. -/
def noDevice : List UInt8 := [0x6e, 0x2f, 0x61]

section
variable (ba2str : List UInt8 → List UInt8)

/-- The loop over the connections, `ci = cr`: an element has 16 bytes, and the address is at offset 2;
the block has 24 bytes. -/
def connections (cr : Mem) : ℕ → List UInt8 → Option (List UInt8)
  | 0, addr => some addr
  | n + 1, addr => do
      let _ ← connections cr n addr
      if 24 < 16 * n + 8 then none else return ba2str (cr.peek (16 * n + 2) 6)

/-- The loop over the responses; also whether a device was found. -/
def selectLoop (fx : ℤ) : ℕ → List Response → Vbt × Bool → Vbt × Bool
  | _, [], st => st
  | i, r :: rest, (st, flag) =>
      let st := { st with
        addr := ba2str r.bdaddr
        name := r.name.getD unknownName
        device := r.device.getD noDevice
        bdaddr := r.bdaddr }
      match r.upd with
      | none => (st, flag)
      | some (uclass, udesc) =>
          let upd := ⟨st.dev, st.addr, st.name, st.device, uclass, udesc, r.bdaddr⟩
          let st := { st with list := st.list ++ [upd], count := st.count + 1 }
          -- `namelaptop` is "ss"
          let flag := flag || decide (st.name ≠ [0x73, 0x73])
          if (i : ℤ) = fx then (st, flag) else selectLoop fx (i + 1) rest (st, flag)

/-- `libvbt_select`. -/
def libvbtSelect (st : Vbt) (s : Scan) : Option (ℤ × Vbt) :=
  let st := { st with count := 0 }
  match s.found with
  | none => some (0, st)
  | some (inquiry, cr, connNum) => do
      let addr ← connections ba2str cr connNum st.addr
      let (st, flag) := selectLoop ba2str s.fx 0 inquiry.responses
        ({ st with addr := addr, dev := s.devId }, false)
      return (if flag then inquiry.responses.length else 0, st)

/-- A sequence of scans. -/
def selects (st : Vbt) (scans : List Scan) : Option Vbt :=
  scans.foldlM (fun st s => (libvbtSelect ba2str st s).map (·.2)) st

/-! ### Selecting a device -/

/-- The loop of `libvbt_update`: the element that is number `p`. -/
def updateLoop (p : ℕ) : (i rounds : ℕ) → List VbtList → Option (Option VbtList)
  | _, 0, _ => some none
  | _, _ + 1, [] => none
  | i, rounds + 1, next :: rest =>
      if u32 (p + (2 ^ 32 - 1)) = i then some (some next) else updateLoop p (i + 1) rounds rest

/-- `strcpy` from an array of 256 bytes. -/
def copyText (m : Mem) : Option (List UInt8) :=
  if 0 ∈ m.peek 0 256 then some (cstr (m.peek 0 256)) else none

/-- `libvbt_update`. -/
def libvbtUpdate (st : Vbt) (p : ℕ) : Option Vbt := do
  match ← updateLoop p 0 st.count st.list with
  | none => return st
  | some next =>
      let uclass ← copyText next.uclass
      let udesc ← copyText next.udesc
      return { st with
        name := next.name, addr := next.addr, device := next.device
        uclass := uclass, udesc := udesc, bdaddr := next.bdaddr, devId := next.devId }

/-! ### What is reported -/

/-- The elements for the responses, up to the first that has no memory and up to number `fx`. -/
def elements (dev fx : ℤ) : ℕ → List Response → List VbtList
  | _, [] => []
  | i, r :: rest =>
      match r.upd with
      | none => []
      | some (uclass, udesc) =>
          ⟨dev, ba2str r.bdaddr, r.name.getD unknownName, r.device.getD noDevice, uclass, udesc,
            r.bdaddr⟩ :: if (i : ℤ) = fx then [] else elements dev fx (i + 1) rest

/-- The elements that a scan lists. -/
def Scan.listed (s : Scan) : List VbtList :=
  match s.found with
  | none => []
  | some (inquiry, _, _) => elements ba2str s.devId s.fx 0 inquiry.responses

/-- The elements of the latest scan. -/
def latest (scans : List Scan) : List VbtList := (scans.getLast?.map (·.listed ba2str)).getD []

/-- After the scans `count` is what the latest one listed, and `libvbt_update` with a number up to it
selects that device of this scan; with another it leaves the selected device. -/
def Selects (scans : List Scan) (p : Fin (2 ^ 32)) : Prop :=
  ∃ st st', selects ba2str .init scans = some st ∧ libvbtUpdate st p = some st' ∧
    st.count = (latest ba2str scans).length ∧
    some st'.shown = if 1 ≤ p.val ∧ p.val ≤ st.count then
      (latest ba2str scans)[p.val - 1]?.map VbtList.shown else some st.shown

/-- The block of `cr` has the addresses of two connections. -/
def Scan.Safe (s : Scan) : Prop := ∀ f ∈ s.found, f.2.2 ≤ 2

/-- An element that `libvbt_update` can copy. -/
def VbtList.Terminated (d : VbtList) : Prop := 0 ∈ d.uclass.peek 0 256 ∧ 0 ∈ d.udesc.peek 0 256

/-! ### What the scans leave -/

theorem connections_isSome_iff (cr : Mem) (n : ℕ) (addr : List UInt8) :
    (connections ba2str cr n addr).isSome ↔ n ≤ 2 := by
  induction n with
  | zero => simp [connections]
  | succ n ih =>
      cases hn : connections ba2str cr n addr with
      | none =>
          rw [hn] at ih
          have hlt : ¬ n ≤ 2 := fun h => Bool.false_ne_true (ih.mpr h)
          simp [connections, hn]
          omega
      | some a =>
          rw [hn] at ih
          have hle : n ≤ 2 := ih.mp rfl
          by_cases hend : 24 < 16 * n + 8
          · simp [connections, hn, hend]
            omega
          · simp [connections, hn, hend]
            omega

theorem elements_length_le (dev fx : ℤ) (i : ℕ) (rs : List Response) :
    (elements ba2str dev fx i rs).length ≤ rs.length := by
  induction rs generalizing i with
  | nil => exact le_rfl
  | cons r rs ih =>
      rw [elements]
      cases r.upd with
      | none => exact Nat.zero_le _
      | some junk =>
          dsimp only
          split_ifs
          · exact Nat.succ_le_succ (Nat.zero_le _)
          · exact Nat.succ_le_succ (ih (i + 1))

/-- The loop appends the elements and counts them. -/
theorem selectLoop_spec (fx : ℤ) (i : ℕ) (rs : List Response) (st : Vbt) (flag : Bool) :
    (selectLoop ba2str fx i rs (st, flag)).1.list = st.list ++ elements ba2str st.dev fx i rs ∧
    (selectLoop ba2str fx i rs (st, flag)).1.count =
      st.count + (elements ba2str st.dev fx i rs).length := by
  induction rs generalizing i st flag with
  | nil => exact ⟨(List.append_nil _).symm, rfl⟩
  | cons r rs ih =>
      rw [selectLoop, elements]
      cases r.upd with
      | none => exact ⟨(List.append_nil _).symm, rfl⟩
      | some junk =>
          dsimp only
          split_ifs
          · exact ⟨rfl, rfl⟩
          · obtain ⟨hlist, hcount⟩ := ih (i + 1) _ _
            rw [hlist, hcount, List.length_cons]
            exact ⟨List.append_assoc _ _ _, Nat.succ_add_eq_add_succ _ _⟩

theorem libvbtSelect_of_safe {s : Scan} (hs : s.Safe) (st : Vbt) : ∃ v st',
    libvbtSelect ba2str st s = some (v, st') ∧ st'.list = st.list ++ s.listed ba2str ∧
      st'.count = (s.listed ba2str).length := by
  unfold libvbtSelect Scan.listed
  cases hf : s.found with
  | none => exact ⟨_, _, rfl, (List.append_nil _).symm, rfl⟩
  | some f =>
      obtain ⟨inquiry, cr, connNum⟩ := f
      obtain ⟨addr, haddr⟩ := Option.isSome_iff_exists.mp
        ((connections_isSome_iff ba2str cr connNum st.addr).mpr (hs _ hf))
      obtain ⟨hlist, hcount⟩ := selectLoop_spec ba2str s.fx 0 inquiry.responses
        { st with count := 0, addr := addr, dev := s.devId } false
      refine ⟨_, _, by simp only [haddr]; rfl, hlist, ?_⟩
      rw [hcount, Nat.zero_add]

theorem libvbtSelect_of_not_safe {s : Scan} (hs : ¬ s.Safe) (st : Vbt) :
    libvbtSelect ba2str st s = none := by
  unfold Scan.Safe at hs
  unfold libvbtSelect
  cases hf : s.found with
  | none => exact absurd (by simp [hf]) hs
  | some f =>
      obtain ⟨inquiry, cr, connNum⟩ := f
      have hnone : connections ba2str cr connNum st.addr = none := by
        rw [← Option.not_isSome_iff_eq_none, connections_isSome_iff]
        simpa [hf] using hs
      simp [hnone]

theorem selects_concat (st : Vbt) (scans : List Scan) (s : Scan) :
    selects ba2str st (scans ++ [s]) =
      (selects ba2str st scans).bind fun st => (libvbtSelect ba2str st s).map (·.2) := by
  simp [selects, List.foldlM_append]

/-- The list has the elements of all scans, and `count` is that of the latest. -/
theorem selects_spec {scans : List Scan} (hs : ∀ s ∈ scans, s.Safe) : ∃ st,
    selects ba2str .init scans = some st ∧ st.list = scans.flatMap (·.listed ba2str) ∧
      st.count = (latest ba2str scans).length := by
  induction scans using List.reverseRecOn with
  | nil => exact ⟨_, rfl, rfl, rfl⟩
  | append_singleton scans s ih =>
      rw [List.forall_mem_append] at hs
      obtain ⟨st, hst, hlist, -⟩ := ih hs.1
      obtain ⟨v, st', hst', hlist', hcount⟩ :=
        libvbtSelect_of_safe ba2str (hs.2 s List.mem_cons_self) st
      refine ⟨st', by rw [selects_concat, hst]; simp [hst'], ?_, by simp [latest, hcount]⟩
      rw [hlist', hlist, List.flatMap_append, List.flatMap_singleton]

theorem selects_isSome_iff (scans : List Scan) :
    (selects ba2str .init scans).isSome ↔ ∀ s ∈ scans, s.Safe := by
  refine ⟨fun h => ?_, fun hs => ?_⟩
  · induction scans using List.reverseRecOn with
    | nil => exact fun s hs => absurd hs List.not_mem_nil
    | append_singleton scans s ih =>
        rw [selects_concat] at h
        obtain ⟨st', hst'⟩ := Option.isSome_iff_exists.mp h
        obtain ⟨st, hst, hsel⟩ := Option.bind_eq_some_iff.mp hst'
        rw [List.forall_mem_append, List.forall_mem_singleton]
        refine ⟨ih (hst ▸ rfl), ?_⟩
        by_contra hbad
        rw [libvbtSelect_of_not_safe ba2str hbad] at hsel
        exact absurd hsel nofun
  · obtain ⟨st, hst, -⟩ := selects_spec ba2str hs
    exact hst ▸ rfl

theorem latest_length_le (scans : List Scan) : (latest ba2str scans).length ≤ 255 := by
  unfold latest
  cases scans.getLast? with
  | none => exact Nat.zero_le _
  | some s =>
      show (s.listed ba2str).length ≤ 255
      unfold Scan.listed
      cases s.found with
      | none => exact Nat.zero_le _
      | some f => exact (elements_length_le _ _ _ _ _).trans f.1.le

/-- The elements of the latest scan are at the end of the list. -/
theorem latest_suffix (scans : List Scan) :
    latest ba2str scans <:+ scans.flatMap (·.listed ba2str) := by
  induction scans using List.reverseRecOn with
  | nil => exact List.suffix_rfl
  | append_singleton scans s ih =>
      simp only [latest, List.getLast?_concat, List.flatMap_append, List.flatMap_singleton]
      exact List.suffix_append _ _

/-! ### What is selected -/

/-- The loop finds the element with number `p`, and none when there is no such number. -/
theorem updateLoop_eq {p : ℕ} (hp : p < 2 ^ 32) {i rounds : ℕ} {l : List VbtList}
    (hl : rounds ≤ l.length) (hi : i + rounds < 2 ^ 32) :
    updateLoop p i rounds l = some (if i < p ∧ p ≤ i + rounds then l[p - 1 - i]? else none) := by
  induction rounds generalizing i l with
  | zero =>
      rw [updateLoop, if_neg]
      omega
  | succ rounds ih =>
      cases l with
      | nil => exact absurd hl (Nat.not_succ_le_zero _)
      | cons d l =>
          have htest : u32 (p + (2 ^ 32 - 1)) = i ↔ p = i + 1 := by
            unfold u32
            omega
          rw [updateLoop]
          by_cases hd : p = i + 1
          · rw [if_pos (htest.mpr hd), if_pos (by omega)]
            have hzero : p - 1 - i = 0 := by omega
            rw [hzero]
            rfl
          · rw [if_neg (fun h => hd (htest.mp h)), ih (Nat.le_of_succ_le_succ hl) (by omega)]
            by_cases hin : i + 1 < p ∧ p ≤ i + 1 + rounds
            · rw [if_pos hin, if_pos (by omega)]
              have hsucc : p - 1 - i = p - 1 - (i + 1) + 1 := by omega
              rw [hsucc, List.getElem?_cons_succ]
            · rw [if_neg hin, if_neg (by omega)]

theorem copyText_isSome_iff (m : Mem) : (copyText m).isSome ↔ 0 ∈ m.peek 0 256 := by
  unfold copyText
  split_ifs with h <;> simp [h]

/-- An element can be copied when its texts end. -/
theorem libvbtUpdate_of_found {st : Vbt} {p : ℕ} {d : VbtList}
    (h : updateLoop p 0 st.count st.list = some (some d)) (shown : Device) :
    (∃ st', libvbtUpdate st p = some st' ∧ st'.shown = shown) ↔ d.Terminated ∧ d.shown = shown := by
  unfold VbtList.Terminated
  rw [← copyText_isSome_iff, ← copyText_isSome_iff]
  unfold libvbtUpdate
  cases hclass : copyText d.uclass with
  | none => simp [h, hclass]
  | some uclass =>
      cases hdesc : copyText d.udesc with
      | none => simp [h, hclass, hdesc]
      | some udesc => simp [h, hclass, hdesc, Vbt.shown, VbtList.shown]

theorem libvbtUpdate_of_not_found {st : Vbt} {p : ℕ}
    (h : updateLoop p 0 st.count st.list = some none) : libvbtUpdate st p = some st := by
  simp [libvbtUpdate, h]

section
variable {scans : List Scan} {p : Fin (2 ^ 32)}

/-- What `libvbt_update` finds in the list that the scans leave. -/
theorem selects_updateLoop (hs : ∀ s ∈ scans, s.Safe) (p : Fin (2 ^ 32)) : ∃ st,
    selects ba2str .init scans = some st ∧ st.count = (latest ba2str scans).length ∧
      updateLoop p.val 0 st.count st.list =
        some (if 1 ≤ p.val ∧ p.val ≤ (latest ba2str scans).length then
          (scans.flatMap (·.listed ba2str))[p.val - 1]? else none) := by
  obtain ⟨st, hst, hlist, hcount⟩ := selects_spec ba2str hs
  have hlen := latest_length_le ba2str scans
  have hsuf := (latest_suffix ba2str scans).length_le
  refine ⟨st, hst, hcount, ?_⟩
  rw [hlist, hcount, updateLoop_eq p.isLt hsuf (by omega), Nat.zero_add, Nat.sub_zero]
  rfl

/-- A number of the latest scan selects that element of the whole list. -/
theorem selects_inRange_iff (hs : ∀ s ∈ scans, s.Safe) (hp : 1 ≤ p.val) {e : VbtList}
    (he : (latest ba2str scans)[p.val - 1]? = some e) :
    Selects ba2str scans p ↔ ∀ d, (scans.flatMap (·.listed ba2str))[p.val - 1]? = some d →
      d.Terminated ∧ d.shown = e.shown := by
  obtain ⟨st, hst, hcount, hfound⟩ := selects_updateLoop ba2str hs p
  obtain ⟨hple, -⟩ := List.getElem?_eq_some_iff.mp he
  have hrange : 1 ≤ p.val ∧ p.val ≤ (latest ba2str scans).length := by omega
  have hsuf := (latest_suffix ba2str scans).length_le
  have hlt : p.val - 1 < (scans.flatMap (·.listed ba2str)).length := by omega
  rw [if_pos hrange, List.getElem?_eq_getElem hlt] at hfound
  rw [List.getElem?_eq_getElem hlt]
  simp only [Option.some.injEq, forall_eq']
  rw [← libvbtUpdate_of_found hfound]
  constructor
  · rintro ⟨st₁, st', hst₁, hup, -, hshown⟩
    obtain rfl := Option.some.inj (hst.symm.trans hst₁)
    rw [hcount, if_pos hrange, he] at hshown
    exact ⟨st', hup, Option.some.inj hshown⟩
  · rintro ⟨st', hup, hshown⟩
    refine ⟨st, st', hst, hup, hcount, ?_⟩
    rw [hcount, if_pos hrange, he, hshown]
    rfl

/-- Any other number leaves everything. -/
theorem selects_outOfRange (hs : ∀ s ∈ scans, s.Safe)
    (hp : ¬ (1 ≤ p.val ∧ p.val ≤ (latest ba2str scans).length)) : Selects ba2str scans p := by
  obtain ⟨st, hst, hcount, hfound⟩ := selects_updateLoop ba2str hs p
  rw [if_neg hp] at hfound
  refine ⟨st, st, hst, libvbtUpdate_of_not_found hfound, hcount, ?_⟩
  rw [hcount, if_neg hp]

end

/-- After scans the device with number `p` is selected exactly when no scan finds more than two
connections, and, where the latest one has such a device, the device with this number among those of
all scans shows the same and can be copied. -/
theorem vbtSelects_iff (scans : List Scan) (p : Fin (2 ^ 32)) :
    Selects ba2str scans p ↔ (∀ s ∈ scans, s.Safe) ∧
      (1 ≤ p.val → ∀ e, (latest ba2str scans)[p.val - 1]? = some e →
        ∀ d, (scans.flatMap (·.listed ba2str))[p.val - 1]? = some d →
          d.Terminated ∧ d.shown = e.shown) := by
  by_cases hs : ∀ s ∈ scans, s.Safe
  swap
  · refine iff_of_false ?_ (fun h => hs h.1)
    rintro ⟨st, -, hst, -⟩
    exact hs ((selects_isSome_iff ba2str scans).mp (Option.isSome_iff_exists.mpr ⟨st, hst⟩))
  rw [and_iff_right hs]
  by_cases hp : 1 ≤ p.val ∧ p.val ≤ (latest ba2str scans).length
  · obtain ⟨e, he⟩ : ∃ e, (latest ba2str scans)[p.val - 1]? = some e :=
      ⟨_, List.getElem?_eq_getElem (by omega)⟩
    rw [selects_inRange_iff ba2str hs hp.1 he]
    refine ⟨fun h _ e' he' => ?_, fun h => h hp.1 e he⟩
    obtain rfl := Option.some.inj (he.symm.trans he')
    exact h
  · refine iff_of_true (selects_outOfRange ba2str hs hp) fun h1 e he => ?_
    obtain ⟨hlt, -⟩ := List.getElem?_eq_some_iff.mp he
    exact absurd ⟨h1, by omega⟩ hp

end

/-- A scan that finds one device without a name, and no connections. -/
def Scan.single (bdaddr : List UInt8) : Scan :=
  ⟨-1, 0, true, true, some ⟨[⟨bdaddr, none, none, some (Mem.zero, Mem.zero)⟩], Nat.le_add_left 1 254⟩,
    true, some Mem.zero, true, some 0⟩

/-- A second scan, of another device. -/
theorem not_vbtSelects_second :
    ¬ Selects id [.single [1, 0, 0, 0, 0, 0], .single [2, 0, 0, 0, 0, 0]] 1 := by
  have hs : ∀ s ∈ [Scan.single [1, 0, 0, 0, 0, 0], .single [2, 0, 0, 0, 0, 0]], s.Safe := by
    intro s hs f hf
    simp only [List.mem_cons, List.not_mem_nil, or_false] at hs
    obtain rfl | rfl := hs
    all_goals
      obtain rfl := Option.some.inj hf
      exact Nat.zero_le 2
  rw [selects_inRange_iff id hs (by decide) rfl]
  intro h
  exact absurd (congrArg Device.bdaddr (h _ rfl).2) (by decide)

end Bluetooth
end Carroll
