import Carroll.ConfCopy
import Carroll.Runs

/-! # The spaces of a value

`_anycfg_value` in memory: the pointer `data`, the places that are read or written, and the two loops
over a `length` that is taken once.  `ConfCopy` has what they do to the string (`trimEnd`,
`trimBegin`).  `trims_iff` says when the two calls trim a string and stay inside it, and
`anycfgValue_runs` that for shorter strings the value is that of `ConfCopy`.

* Place `0` is the byte in front of the string; the string begins at place `1`, and anything follows
  its NUL byte.
* Of an empty string `data[strlen(data)-1]` is place `0`.  It is read, and overwritten when it holds
  a space.
* `length` is an `unsigned int`: of a string of `2 ^ 32` bytes or more it counts the rest, and the
  loops stop early. -/

namespace Carroll
open Buffers

/-- `strlen(data)`. -/
def strlen (mem : List UInt8) (data : ℕ) : ℕ := (cstr (mem.drop data)).length

/-- The places that it reads. -/
def strlenPlaces (mem : List UInt8) (data : ℕ) : List ℕ := List.range' data (strlen mem data + 1)

/-- A round of the loop at the end: `length`, the memory, and the places touched so far. -/
def endBody (data : ℕ) :
    ℕ × List UInt8 × List ℕ → (ℕ × List UInt8 × List ℕ) ⊕ (List UInt8 × List ℕ)
  | (length, mem, touched) =>
    let last := data + strlen mem data - 1
    let touched := touched ++ strlenPlaces mem data ++ [last]
    if mem.getD last 0 = 0x20 then
      -- the second `strlen` reads the same places, and `--length` wraps at `0`
      let mem := mem.set last 0
      let length := u32 (length + 2 ^ 32 - 1)
      if length = 0 then .inr (mem, touched) else .inl (length, mem, touched)
    else .inr (mem, touched)

/-- A round of the loop at the beginning: `i`, `data`, and the places touched so far. -/
def beginBody (mem : List UInt8) (length : ℕ) : ℕ × ℕ × List ℕ → (ℕ × ℕ × List ℕ) ⊕ (ℕ × List ℕ)
  | (i, data, touched) =>
    if i < length then
      let touched := touched ++ [data]
      if mem.getD data 0 = 0x20 then .inl (u32 (i + 1), data + 1, touched)
      else .inl (u32 (i + 1), data, touched)
    else .inr (data, touched)

/-- `_anycfg_value(data, TRUE)`, which returns `data`: the memory afterwards and the places touched. -/
def AnycfgEnd (mem : List UInt8) (data : ℕ) (r : List UInt8 × List ℕ) : Prop :=
  LoopEnds (endBody data) (u32 (strlen mem data), mem, strlenPlaces mem data) r

/-- `_anycfg_value(data, FALSE)`: the pointer that it returns and the places touched. -/
def AnycfgBegin (mem : List UInt8) (data : ℕ) (r : ℕ × List ℕ) : Prop :=
  LoopEnds (beginBody mem (u32 (strlen mem data))) (0, data, strlenPlaces mem data) r

/-! ### Strings in memory -/

theorem strlen_eq {mem s rest : List UInt8} {data : ℕ} (h : mem.drop data = s ++ 0 :: rest)
    (hs : 0 ∉ s) : strlen mem data = s.length := by
  rw [strlen, h, cstr_nul, cstr_of_not_mem hs]

theorem getD_of_drop {mem : List UInt8} {data : ℕ} {x : UInt8} {l : List UInt8}
    (h : mem.drop data = x :: l) : mem.getD data 0 = x := by
  rw [List.getD_eq_getElem?_getD, ← List.head?_drop, h]
  rfl

/-- Every place is one of the first `n` from the beginning of the string on. -/
def InString (n : ℕ) (places : List ℕ) : Prop := ∀ i ∈ places, 1 ≤ i ∧ i ≤ n

theorem inString_append {n : ℕ} {as bs : List ℕ} :
    InString n (as ++ bs) ↔ InString n as ∧ InString n bs := List.forall_mem_append

theorem inString_singleton {n i : ℕ} : InString n [i] ↔ 1 ≤ i ∧ i ≤ n := List.forall_mem_singleton

theorem inString_strlenPlaces {s : List UInt8} (hs : 0 ∉ s) {n : ℕ} (h : s.length + 1 ≤ n)
    (front : UInt8) (rest : List UInt8) :
    InString n (strlenPlaces (front :: (s ++ 0 :: rest)) 1) := by
  intro i hi
  rw [strlenPlaces, strlen_eq rfl hs, List.mem_range'_1] at hi
  omega

/-! ### The loop at the end -/

/-- The rounds of `do … while(--length)` for a string of `n` bytes. -/
def trimRounds (n : ℕ) : ℕ := if u32 n = 0 then 2 ^ 32 else u32 n

/-- A round at a string that is not empty. -/
theorem endBody_concat (front c : UInt8) {w : List UInt8} (hw : 0 ∉ w ++ [c]) (rest : List UInt8)
    (length : ℕ) (touched : List ℕ) :
    endBody 1 (length, front :: (w ++ [c] ++ 0 :: rest), touched) =
      let touched :=
        touched ++ strlenPlaces (front :: (w ++ [c] ++ 0 :: rest)) 1 ++ [w.length + 1]
      if c = 0x20 then
        if u32 (length + 2 ^ 32 - 1) = 0 then .inr (front :: (w ++ 0 :: 0 :: rest), touched)
        else .inl (u32 (length + 2 ^ 32 - 1), front :: (w ++ 0 :: 0 :: rest), touched)
      else .inr (front :: (w ++ [c] ++ 0 :: rest), touched) := by
  have hlen : strlen (front :: (w ++ [c] ++ 0 :: rest)) 1 = w.length + 1 := by
    rw [strlen_eq rfl hw, List.length_append, List.length_singleton]
  have hlast : 1 + (w.length + 1) - 1 = w.length + 1 := by omega
  have hget : (front :: (w ++ [c] ++ 0 :: rest)).getD (w.length + 1) 0 = c := by
    simp [List.getD_eq_getElem?_getD]
  have hset : (front :: (w ++ [c] ++ 0 :: rest)).set (w.length + 1) 0 =
      front :: (w ++ 0 :: 0 :: rest) := by
    simp
  simp only [endBody, hlen, hlast, hget, hset]

/-- The loop takes away a space in each of its `R` rounds, while there is one, and stays inside. -/
theorem ends_endBody (front : UInt8) (rest : List UInt8) {R n : ℕ} {s : List UInt8}
    {touched : List ℕ} (hpos : 0 < R) (hR : R ≤ 2 ^ 32) (hle : R ≤ s.length) (hs : 0 ∉ s)
    (hn : s.length + 1 ≤ n) (htouched : InString n touched) :
    ∃ rest' touched', LoopEnds (endBody 1) (u32 R, front :: (s ++ 0 :: rest), touched)
      (front :: (trimEnd R s ++ 0 :: rest'), touched') ∧ InString n touched' := by
  induction R generalizing s rest touched with
  | zero => exact absurd hpos (lt_irrefl 0)
  | succ R ih =>
      obtain rfl | ⟨w, c, rfl⟩ := List.eq_nil_or_concat' s
      · exact absurd hle (by simp)
      · have hplaces := inString_strlenPlaces hs hn front rest
        rw [List.length_append, List.length_singleton] at hle hn
        have hbody := endBody_concat front c hs rest (u32 (R + 1)) touched
        have hnext : u32 (u32 (R + 1) + 2 ^ 32 - 1) = u32 R := by
          unfold u32
          omega
        have hlast : InString n [w.length + 1] := inString_singleton.mpr (by omega)
        have hin := inString_append.mpr ⟨inString_append.mpr ⟨htouched, hplaces⟩, hlast⟩
        rw [hnext] at hbody
        rw [trimEnd, List.getLast?_concat, List.dropLast_concat]
        by_cases hc : c = 0x20
        · rw [if_pos hc] at hbody
          rw [if_pos (by rw [hc])]
          obtain rfl | hRpos := Nat.eq_zero_or_pos R
          · rw [if_pos (show u32 0 = 0 from rfl)] at hbody
            exact ⟨_, _, .stop hbody, hin⟩
          · rw [if_neg (by unfold u32; omega)] at hbody
            have hw : 0 ∉ w := fun h0 => hs (List.mem_append_left _ h0)
            obtain ⟨rest', touched', hends, hin'⟩ :=
              ih _ hRpos (by omega) (by omega) hw (by omega) hin
            exact ⟨rest', touched', .next hbody hends, hin'⟩
        · rw [if_neg hc] at hbody
          rw [if_neg (by simpa using hc)]
          exact ⟨_, _, .stop hbody, hin⟩

/-! ### The loop at the beginning -/

/-- The loop steps over a space in each of its `n` rounds, while there is one, and stays inside. -/
theorem ends_beginBody {mem rest : List UInt8} {length N i n data : ℕ} {v : List UInt8}
    {touched : List ℕ} (hlength : length < 2 ^ 32) (hi : i + n = length)
    (hv : mem.drop data = v ++ 0 :: rest) (hdata : 1 ≤ data) (hN : data + v.length ≤ N)
    (htouched : InString N touched) :
    ∃ data' touched', LoopEnds (beginBody mem length) (i, data, touched) (data', touched') ∧
      mem.drop data' = trimBegin n v ++ 0 :: rest ∧ InString N touched' := by
  induction n generalizing i data v touched with
  | zero => exact ⟨data, touched, .stop (if_neg (by omega)), hv, htouched⟩
  | succ n ih =>
      have hnext : u32 (i + 1) = i + 1 := u32_of_lt (by omega)
      have hin := inString_append.mpr ⟨htouched, inString_singleton.mpr ⟨hdata, by omega⟩⟩
      rw [trimBegin]
      by_cases hspace : v.head? = some 0x20
      · obtain ⟨v, rfl⟩ := List.head?_eq_some_iff.mp hspace
        have hbody : beginBody mem length (i, data, touched) =
            .inl (i + 1, data + 1, touched ++ [data]) := by
          simp only [beginBody, if_pos (show i < length by omega), getD_of_drop hv, if_true, hnext]
        have hv' : mem.drop (data + 1) = v ++ 0 :: rest := by
          rw [← List.drop_drop, hv]
          rfl
        rw [List.length_cons] at hN
        obtain ⟨data', touched', hends, hdrop, hin'⟩ :=
          ih (i := i + 1) (by omega) hv' (by omega) (by omega) hin
        rw [if_pos hspace]
        exact ⟨data', touched', .next hbody hends, hdrop, hin'⟩
      · have hget : mem.getD data 0 ≠ 0x20 := by
          cases v with
          | nil => rw [getD_of_drop hv]; decide
          | cons b v => rw [getD_of_drop hv]; simpa using hspace
        have hbody : beginBody mem length (i, data, touched) =
            .inl (i + 1, data, touched ++ [data]) := by
          simp only [beginBody, if_pos (show i < length by omega), if_neg hget, hnext]
        obtain ⟨data', touched', hends, hdrop, hin'⟩ :=
          ih (i := i + 1) (by omega) hv hdata hN hin
        rw [if_neg hspace]
        exact ⟨data', touched', .next hbody hends, hdrop, hin'⟩

/-! ### Both -/

theorem trimEnd_prefix (n : ℕ) (s : List UInt8) : trimEnd n s <+: s := by
  induction n generalizing s with
  | zero => exact List.prefix_rfl
  | succ n ih =>
      rw [trimEnd]
      split_ifs
      · exact (ih _).trans (List.dropLast_prefix s)
      · exact List.prefix_rfl

theorem trimBegin_suffix (n : ℕ) (s : List UInt8) : trimBegin n s <:+ s := by
  induction n generalizing s with
  | zero => exact List.suffix_rfl
  | succ n ih =>
      rw [trimBegin]
      split_ifs
      · exact (ih _).trans (List.tail_suffix s)
      · exact ih s

/-- What the two calls make of a string that is not empty. -/
def trimmed (s : List UInt8) : List UInt8 :=
  let v := trimEnd (trimRounds s.length) s
  trimBegin (u32 v.length) v

theorem anycfg_runs {s : List UInt8} (hne : s ≠ []) (hs : 0 ∉ s) (front : UInt8) (rest : List UInt8) :
    ∃ mem touched ptr touched', AnycfgEnd (front :: (s ++ 0 :: rest)) 1 (mem, touched) ∧
      AnycfgBegin mem 1 (ptr, touched') ∧ str (mem.drop ptr) = some (trimmed s) ∧
      InString (s.length + 1) (touched ++ touched') := by
  have hpos := List.length_pos_of_ne_nil hne
  have hrounds : 0 < trimRounds s.length ∧ trimRounds s.length ≤ 2 ^ 32 ∧
      trimRounds s.length ≤ s.length ∧ u32 (trimRounds s.length) = u32 s.length := by
    unfold trimRounds u32
    split_ifs <;> omega
  obtain ⟨hR, hR32, hRle, hRu⟩ := hrounds
  obtain ⟨rest', touched, hend, hin⟩ := ends_endBody front rest hR hR32 hRle hs le_rfl
    (inString_strlenPlaces hs le_rfl front rest)
  have hpre := trimEnd_prefix (trimRounds s.length) s
  have hv : 0 ∉ trimEnd (trimRounds s.length) s := fun h0 => hs (hpre.subset h0)
  generalize hvdef : trimEnd (trimRounds s.length) s = v at *
  have hlen : v.length + 1 ≤ s.length + 1 := Nat.succ_le_succ hpre.length_le
  obtain ⟨ptr, touched', hbegin, hdrop, hin'⟩ := ends_beginBody (u32_lt v.length) (Nat.zero_add _)
    (show (front :: (v ++ 0 :: rest')).drop 1 = v ++ 0 :: rest' from rfl) le_rfl
    (by omega) (inString_strlenPlaces hv hlen front rest')
  refine ⟨front :: (v ++ 0 :: rest'), touched, ptr, touched', ?_, ?_, ?_, ?_⟩
  · rw [AnycfgEnd, strlen_eq rfl hs, ← hRu]
    exact hend
  · rw [AnycfgBegin, strlen_eq rfl hv]
    exact hbegin
  · have h0 : 0 ∉ trimBegin (u32 v.length) v := fun h0 => hv ((trimBegin_suffix _ v).subset h0)
    rw [hdrop, trimmed, hvdef]
    exact str_append h0 rest'
  · exact inString_append.mpr ⟨hin, hin'⟩

/-! ### When the spaces are gone -/

theorem exists_concat_of_rtakeWhile {s : List UInt8} (h : 0 < (s.rtakeWhile (· = 0x20)).length) :
    ∃ w, s = w ++ [0x20] := by
  obtain rfl | ⟨w, c, rfl⟩ := List.eq_nil_or_concat' s
  · exact absurd h (lt_irrefl 0)
  · by_cases hc : c = 0x20
    · exact ⟨w, by rw [hc]⟩
    · rw [List.rtakeWhile_concat_neg _ _ _ (by simpa using hc)] at h
      exact absurd h (lt_irrefl 0)

theorem exists_cons_of_takeWhile {s : List UInt8} (h : 0 < (s.takeWhile (· = 0x20)).length) :
    ∃ t, s = 0x20 :: t := by
  cases s with
  | nil => exact absurd h (lt_irrefl 0)
  | cons b t =>
      by_cases hb : b = 0x20
      · exact ⟨t, by rw [hb]⟩
      · rw [List.takeWhile_cons_of_neg (by simpa using hb)] at h
        exact absurd h (lt_irrefl 0)

/-- Too few rounds leave a space at the end. -/
theorem trimEnd_of_lt {n : ℕ} {s : List UInt8} (h : n < (s.rtakeWhile (· = 0x20)).length) :
    (trimEnd n s).getLast? = some 0x20 ∧ (trimEnd n s).length = s.length - n := by
  induction n generalizing s with
  | zero =>
      obtain ⟨w, rfl⟩ := exists_concat_of_rtakeWhile h
      exact ⟨List.getLast?_concat, rfl⟩
  | succ n ih =>
      obtain ⟨w, rfl⟩ := exists_concat_of_rtakeWhile (Nat.zero_lt_of_lt h)
      rw [List.rtakeWhile_concat_pos _ _ _ (by decide), List.length_append,
        List.length_singleton] at h
      rw [trimEnd, List.getLast?_concat, List.dropLast_concat, if_pos rfl, List.length_append,
        List.length_singleton, Nat.add_sub_add_right]
      exact ih (Nat.lt_of_succ_lt_succ h)

/-- Too few rounds leave a space at the beginning. -/
theorem trimBegin_of_lt {n : ℕ} {s : List UInt8} (h : n < (s.takeWhile (· = 0x20)).length) :
    (trimBegin n s).head? = some 0x20 := by
  induction n generalizing s with
  | zero =>
      obtain ⟨t, rfl⟩ := exists_cons_of_takeWhile h
      rfl
  | succ n ih =>
      obtain ⟨t, rfl⟩ := exists_cons_of_takeWhile (Nat.zero_lt_of_lt h)
      rw [List.takeWhile_cons_of_pos (by decide), List.length_cons] at h
      rw [trimBegin, List.head?_cons, if_pos rfl, List.tail_cons]
      exact ih (Nat.lt_of_succ_lt_succ h)

theorem getLast?_trimSpaces (s : List UInt8) : (trimSpaces s).getLast? ≠ some 0x20 := by
  intro h
  obtain ⟨l, hl⟩ := List.getLast?_eq_some_iff.mp h
  obtain ⟨pre, hpre⟩ := List.dropWhile_suffix (l := s.rdropWhile (· = 0x20)) (· = 0x20)
  rw [← trimSpaces, hl, ← List.append_assoc] at hpre
  have hne : s.rdropWhile (· = 0x20) ≠ [] := by
    rw [← hpre]
    simp
  refine List.rdropWhile_last_not _ s hne ?_
  simp [← hpre]

theorem head?_trimSpaces (s : List UInt8) : (trimSpaces s).head? ≠ some 0x20 := by
  intro h
  have hnot := List.head?_dropWhile_not (fun x => decide (x = 0x20)) (s.rdropWhile (· = 0x20))
  rw [← trimSpaces, h] at hnot
  simp at hnot

/-- The string has a byte, and the rounds suffice for the spaces at its end and at its beginning. -/
structure TrimFits (s : List UInt8) : Prop where
  nonempty : s ≠ []
  trailing : (s.rtakeWhile (· = 0x20)).length ≤ trimRounds s.length
  leading : ((s.rdropWhile (· = 0x20)).takeWhile (· = 0x20)).length ≤
    u32 (s.rdropWhile (· = 0x20)).length

theorem trimmed_eq_iff {s : List UInt8} (hne : s ≠ []) : trimmed s = trimSpaces s ↔ TrimFits s := by
  constructor
  · intro h
    have htrailing : (s.rtakeWhile (· = 0x20)).length ≤ trimRounds s.length := by
      by_contra hlt
      obtain ⟨hlast, hlen⟩ := trimEnd_of_lt (Nat.lt_of_not_le hlt)
      -- what is left has a multiple of `2 ^ 32` bytes, so the other loop has no round
      have hzero : u32 (trimEnd (trimRounds s.length) s).length = 0 := by
        rw [hlen]
        unfold trimRounds u32
        split_ifs <;> omega
      rw [trimmed, hzero, trimBegin] at h
      exact getLast?_trimSpaces s (h ▸ hlast)
    refine ⟨hne, htrailing, ?_⟩
    by_contra hlt
    rw [trimmed, trimEnd_eq htrailing] at h
    exact head?_trimSpaces s (h ▸ trimBegin_of_lt (Nat.lt_of_not_le hlt))
  · intro h
    rw [trimmed, trimEnd_eq h.trailing]
    exact trimBegin_eq h.leading

/-! ### Trimming inside the string -/

/-- Whatever stands around the string, the two calls return `s` without its leading and trailing
spaces, and touch only the places from its first byte to its NUL byte. -/
def Trims (s : List UInt8) : Prop :=
  ∀ front rest, ∃ mem touched ptr touched', AnycfgEnd (front :: (s ++ 0 :: rest)) 1 (mem, touched) ∧
    AnycfgBegin mem 1 (ptr, touched') ∧ str (mem.drop ptr) = some (trimSpaces s) ∧
    InString (s.length + 1) (touched ++ touched')

/-- A round touches `data[strlen(data)-1]`, and what was touched stays so. -/
theorem mem_touched {data : ℕ} {t : ℕ × List UInt8 × List ℕ} {r : List UInt8 × List ℕ}
    (h : LoopEnds (endBody data) t r) :
    ∀ i ∈ t.2.2 ++ strlenPlaces t.2.1 data ++ [data + strlen t.2.1 data - 1], i ∈ r.2 := by
  induction h with
  | @stop t r hbody =>
      obtain ⟨length, mem, touched⟩ := t
      simp only [endBody] at hbody
      split_ifs at hbody <;> obtain rfl := Sum.inr.inj hbody <;> exact fun i hi => hi
  | @next t u r hbody _ ih =>
      obtain ⟨length, mem, touched⟩ := t
      simp only [endBody] at hbody
      split_ifs at hbody
      obtain rfl := Sum.inl.inj hbody
      exact fun i hi => ih i (List.mem_append_left _ (List.mem_append_left _ hi))

/-- Of the empty string the byte in front is touched. -/
theorem front_mem_touched {front : UInt8} {rest : List UInt8} {r : List UInt8 × List ℕ}
    (h : AnycfgEnd (front :: ([] ++ 0 :: rest)) 1 r) : 0 ∈ r.2 := by
  have hlen : strlen (front :: ([] ++ 0 :: rest)) 1 = 0 := strlen_eq rfl List.not_mem_nil
  refine mem_touched h 0 (List.mem_append_right _ ?_)
  rw [hlen]
  exact List.mem_singleton_self 0

/-- The two calls do what they are for exactly with the strings of a byte or more whose spaces the
loops have rounds for; of fewer than `2 ^ 32` bytes, all but the empty one. -/
theorem trims_iff (s : CString) : Trims s.bytes ↔ TrimFits s.bytes := by
  constructor
  · intro h
    have hne : s.bytes ≠ [] := by
      intro hnil
      rw [hnil] at h
      obtain ⟨_, _, _, _, hend, -, -, hin⟩ := h 0 []
      exact absurd (hin 0 (List.mem_append_left _ (front_mem_touched hend))).1 (by norm_num)
    obtain ⟨mem, _, ptr, _, hend, hbegin, hstr, -⟩ := h 0 []
    obtain ⟨mem', _, ptr', _, hend', hbegin', hstr', -⟩ := anycfg_runs hne s.noNul 0 []
    obtain ⟨rfl, -⟩ := Prod.mk.inj (LoopEnds.unique hend hend')
    obtain ⟨rfl, -⟩ := Prod.mk.inj (LoopEnds.unique hbegin hbegin')
    rw [hstr', Option.some.injEq] at hstr
    exact (trimmed_eq_iff hne).mp hstr
  · intro h front rest
    have hruns := anycfg_runs h.nonempty s.noNul front rest
    rwa [(trimmed_eq_iff h.nonempty).mpr h] at hruns

/-- The value of the line `temp=`. -/
theorem not_trims_nil : ¬Trims [] := by
  intro h
  obtain ⟨_, _, _, _, hend, -, -, hin⟩ := h 0x3d []
  exact absurd (hin 0 (List.mem_append_left _ (front_mem_touched hend))).1 (by norm_num)

/-! ### The value alone -/

theorem trimFits_of_length_lt {s : List UInt8} (hne : s ≠ []) (hlt : s.length < 2 ^ 32) : TrimFits s := by
  have hpos := List.length_pos_of_ne_nil hne
  have hsuffix := (List.rtakeWhile_suffix (fun x => decide (x = 0x20)) s).length_le
  have hpre := (List.rdropWhile_prefix (fun x => decide (x = 0x20)) s).length_le
  refine ⟨hne, ?_, ?_⟩
  · rw [trimRounds, u32_of_lt hlt, if_neg (by omega)]
    exact hsuffix
  · rw [u32_of_lt (by omega)]
    exact (List.takeWhile_prefix _).length_le

/-- A round at the empty string. -/
theorem endBody_nil (front : UInt8) (rest : List UInt8) (length : ℕ) (touched : List ℕ) :
    endBody 1 (length, front :: 0 :: rest, touched) =
      let touched := touched ++ [1] ++ [0]
      if front = 0x20 then
        if u32 (length + 2 ^ 32 - 1) = 0 then .inr (0 :: 0 :: rest, touched)
        else .inl (u32 (length + 2 ^ 32 - 1), 0 :: 0 :: rest, touched)
      else .inr (front :: 0 :: rest, touched) := by
  have hlen : strlen (front :: 0 :: rest) 1 = 0 := strlen_eq (s := []) rfl List.not_mem_nil
  simp only [endBody, strlenPlaces, hlen]
  rfl

/-- A space in front of the empty string makes one more round, which stops at the NUL written. -/
theorem anycfgEnd_nil (front : UInt8) (rest : List UInt8) : ∃ front' touched,
    AnycfgEnd (front :: ([] ++ 0 :: rest)) 1 (front' :: 0 :: rest, touched) := by
  have hfirst := endBody_nil front rest (u32 0) (strlenPlaces (front :: 0 :: rest) 1)
  simp only [AnycfgEnd, List.nil_append]
  by_cases hfront : front = 0x20
  · rw [if_pos hfront, if_neg (show u32 (u32 0 + 2 ^ 32 - 1) ≠ 0 by decide)] at hfirst
    exact ⟨0, _, .next hfirst (.stop (endBody_nil 0 rest _ _))⟩
  · rw [if_neg hfront] at hfirst
    exact ⟨front, _, .stop hfirst⟩

/-- What the two calls return is what `anycfgValue` says, also of the empty string. -/
theorem anycfgValue_runs (s : CString) (hlt : s.bytes.length < 2 ^ 32) (front : UInt8)
    (rest : List UInt8) : ∃ mem touched ptr touched',
    AnycfgEnd (front :: (s.bytes ++ 0 :: rest)) 1 (mem, touched) ∧
      AnycfgBegin mem 1 (ptr, touched') ∧
      str (mem.drop ptr) = some (anycfgValue (anycfgValue s.bytes true) false) := by
  rw [anycfgValue_eq]
  by_cases hne : s.bytes = []
  · obtain ⟨front', touched, hend⟩ := anycfgEnd_nil front rest
    have hlen : strlen (front' :: 0 :: rest) 1 = 0 := strlen_eq (s := []) rfl List.not_mem_nil
    rw [hne]
    refine ⟨front' :: 0 :: rest, touched, 1, strlenPlaces (front' :: 0 :: rest) 1, hend, ?_,
      str_append List.not_mem_nil rest⟩
    rw [AnycfgBegin, hlen]
    exact .stop rfl
  · obtain ⟨mem, touched, ptr, touched', hend, hbegin, hstr, -⟩ := anycfg_runs hne s.noNul front rest
    rw [(trimmed_eq_iff hne).mpr (trimFits_of_length_lt hne hlt)] at hstr
    exact ⟨mem, touched, ptr, touched', hend, hbegin, hstr⟩

end Carroll
