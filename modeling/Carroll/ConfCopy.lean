import Carroll.Cstring
import Mathlib.Data.List.DropRight

/-! # One line of a configuration

`_conf_copy` compares the beginning of a line with nine names, in their order, takes what stands
behind the name and one more byte for the value, removes the spaces at its ends, and hands it to
`cstring_new` for the field of the name.

* That the byte behind the name is a `=` is not asked for, so a key that only begins with a name is
  taken for it.
* `strncmp(buffer, name, strlen(name)) == 0` is `name <+: buffer`: a name has no NUL byte.
* Of an empty value `_anycfg_value` reads the byte in front of it, which the block has and which
  makes no difference to the value (`anycfgValue_runs`).
* A field is a pointer to its string, or `NULL` when that could not be created.  `none` stands for
  undefined behaviour, as in `Cstring`. -/

namespace Carroll
open Buffers

/-- The fields of `zconfig_server_t` that `_conf_copy` can set. -/
inductive ConfField where
  | modules
  | mydata
  | temp
  | logs
  | address
  | port
  | listen
  | timeout
deriving DecidableEq, Repr

/-- `_server_variables`, each with the field that `_conf_copy` sets for it. -/
def serverVariables : List (List UInt8 × ConfField) :=
  [([0x6d, 0x6f, 0x64, 0x75, 0x6c, 0x65], .modules),
    ([0x6d, 0x79, 0x64, 0x61, 0x74, 0x61], .mydata),
    ([0x74, 0x65, 0x6d, 0x70], .temp),
    ([0x6c, 0x6f, 0x67, 0x73], .logs),
    ([0x73, 0x65, 0x72, 0x76, 0x65, 0x72], .address),
    ([0x63, 0x6c, 0x69, 0x65, 0x6e, 0x74], .address),
    ([0x70, 0x6f, 0x72, 0x74], .port),
    ([0x6c, 0x69, 0x73, 0x74, 0x65, 0x6e], .listen),
    ([0x74, 0x69, 0x6d, 0x65, 0x6f, 0x75, 0x74], .timeout)]

/-- `zconfig_server_t`. -/
abbrev ServerConfig := ConfField → Option Xcstring

/-- The rounds of `_anycfg_value(data, TRUE)`. -/
def trimEnd : ℕ → List UInt8 → List UInt8
  | 0, data => data
  | left + 1, data => if data.getLast? = some 0x20 then trimEnd left data.dropLast else data

/-- The rounds of `_anycfg_value(data, FALSE)`. -/
def trimBegin : ℕ → List UInt8 → List UInt8
  | 0, data => data
  | left + 1, data => if data.head? = some 0x20 then trimBegin left data.tail else trimBegin left data

/-- `_anycfg_value(data, seek_flags)`. -/
def anycfgValue (data : List UInt8) (seekFlags : Bool) : List UInt8 :=
  if seekFlags then trimEnd data.length data else trimBegin data.length data

/-- `CCNEW(field, buf)`, with the block that `emalloc` returns. -/
def ccnew (field : Option Xcstring) (buf : List UInt8) (block : Option Mem) :
    Option (Option Xcstring) :=
  match field with
  | none => some none
  | some ext =>
      match block with
      | none => some (some ⟨none, u32 buf.length⟩)
      | some old => (cstringNew ext (some buf) old).map some

/-- The blocks that `emalloc` returns for `buffer` and for the string of the field. -/
structure ConfCopyEnv where
  buffer : Option Mem
  value : Option Mem

/-- `_conf_copy(info, buff)`: the configuration afterwards and the return value. -/
def confCopy (env : ConfCopyEnv) (server : ServerConfig) (buff : List UInt8) :
    Option (ServerConfig × ℕ) :=
  match env.buffer with
  | none => some (server, 0)
  | some old =>
      (strcpy (emalloc (u32 buff.length) old) buff).bind fun buffer =>
        match serverVariables.find? fun x => x.1.isPrefixOf buff with
        | none => some (server, 1)
        | some (name, field) =>
            (str (buffer.drop (name.length + 1))).bind fun data =>
              let value := anycfgValue (anycfgValue data true) false
              (ccnew (server field) value env.value).map fun ext =>
                (Function.update server field ext, 1)

/-! ### The value -/

/-- The value of a line, without the spaces at its ends. -/
def trimSpaces (v : List UInt8) : List UInt8 := (v.rdropWhile (· = 0x20)).dropWhile (· = 0x20)

theorem trimEnd_eq {n : ℕ} {data : List UInt8} (h : (data.rtakeWhile (· = 0x20)).length ≤ n) :
    trimEnd n data = data.rdropWhile (· = 0x20) := by
  induction n generalizing data with
  | zero =>
      have hnil := List.eq_nil_of_length_eq_zero (Nat.le_zero.mp h)
      have happ := List.rdropWhile_append_rtakeWhile (p := fun x => decide (x = 0x20)) (l := data)
      rw [hnil, List.append_nil] at happ
      exact happ.symm
  | succ n ih =>
      rcases List.eq_nil_or_concat' data with rfl | ⟨d, b, rfl⟩
      · rfl
      · rw [trimEnd, List.getLast?_concat, List.dropLast_concat]
        by_cases hb : b = 0x20
        · rw [List.rtakeWhile_concat_pos _ _ _ (by simpa using hb), List.length_append,
            List.length_singleton] at h
          rw [hb, if_pos rfl, ih (Nat.le_of_succ_le_succ h), List.rdropWhile_concat_pos _ _ _ (by decide)]
        · rw [if_neg (by simpa using hb), List.rdropWhile_concat_neg _ _ _ (by simpa using hb)]

theorem trimBegin_of_head {data : List UInt8} (h : data.head? ≠ some 0x20) (n : ℕ) :
    trimBegin n data = data := by
  induction n with
  | zero => rfl
  | succ n ih => rw [trimBegin, if_neg h, ih]

theorem trimBegin_eq {n : ℕ} {data : List UInt8} (h : (data.takeWhile (· = 0x20)).length ≤ n) :
    trimBegin n data = data.dropWhile (· = 0x20) := by
  induction n generalizing data with
  | zero =>
      have hnil := List.eq_nil_of_length_eq_zero (Nat.le_zero.mp h)
      have happ := List.takeWhile_append_dropWhile (p := fun x => decide (x = 0x20)) (l := data)
      rw [hnil, List.nil_append] at happ
      exact happ.symm
  | succ n ih =>
      cases data with
      | nil => exact ih (Nat.zero_le n)
      | cons b data =>
          rw [trimBegin, List.head?_cons, List.tail_cons]
          by_cases hb : b = 0x20
          · rw [List.takeWhile_cons_of_pos (by simpa using hb), List.length_cons] at h
            rw [hb, if_pos rfl, ih (Nat.le_of_succ_le_succ h), List.dropWhile_cons_of_pos (by decide)]
          · rw [if_neg (by simpa using hb), List.dropWhile_cons_of_neg (by simpa using hb)]
            exact trimBegin_of_head (by simpa using hb) n

theorem anycfgValue_eq (data : List UInt8) :
    anycfgValue (anycfgValue data true) false = trimSpaces data := by
  unfold anycfgValue trimSpaces
  rw [if_pos rfl, if_neg Bool.false_ne_true, trimEnd_eq (List.rtakeWhile_suffix _ _).length_le,
    trimBegin_eq (List.takeWhile_prefix _).length_le]

theorem isInfix_trimSpaces (v : List UInt8) : trimSpaces v <:+: v :=
  (List.dropWhile_suffix _).isInfix.trans (List.rdropWhile_prefix _ _).isInfix

/-- A byte that is no space stays. -/
theorem trimSpaces_ne_nil {v : List UInt8} {b : UInt8} (hmem : b ∈ v) (hb : b ≠ 0x20) :
    trimSpaces v ≠ [] := by
  intro hnil
  rw [trimSpaces, List.dropWhile_eq_nil_iff] at hnil
  have hall : ∀ x ∈ v, x = 0x20 := by
    intro x hx
    rw [← List.rdropWhile_append_rtakeWhile (p := fun x => decide (x = 0x20)) (l := v),
      List.mem_append] at hx
    rcases hx with hx | hx
    · simpa using hnil x hx
    · simpa using List.mem_rtakeWhile_imp hx
  exact hb (hall b hmem)

/-! ### The name -/

/-- The field whose name is `k`. -/
def fieldOf (k : List UInt8) : Option ConfField := serverVariables.lookup k

/-- No name has a `=`, and none is the beginning of another. -/
theorem serverVariables_names : (∀ x ∈ serverVariables, 0x3d ∉ x.1) ∧
    ∀ x ∈ serverVariables, ∀ y ∈ serverVariables, x.1 <+: y.1 → x = y := by
  decide

theorem fieldOf_eq_some_iff {k : List UInt8} {f : ConfField} :
    fieldOf k = some f ↔ (k, f) ∈ serverVariables := by
  constructor
  · intro h
    obtain ⟨l₁, l₂, hsplit, -⟩ := List.lookup_eq_some_iff.mp h
    rw [hsplit]
    exact List.mem_append_right _ List.mem_cons_self
  · have hall : ∀ x ∈ serverVariables, fieldOf x.1 = some x.2 := by decide
    exact hall (k, f)

/-- A name is the beginning of a line when it is that of the key. -/
theorem prefix_line_iff {x : List UInt8 × ConfField} (hx : x ∈ serverVariables) (k v : List UInt8) :
    x.1 <+: k ++ 0x3d :: v ↔ x.1 <+: k := by
  constructor
  · intro h
    by_cases hle : x.1.length ≤ k.length
    · exact List.prefix_of_prefix_length_le h (List.prefix_append k _) hle
    · have hk : k ++ [0x3d] <+: x.1 := by
        have hline : k ++ [0x3d] <+: k ++ 0x3d :: v := ⟨v, by simp⟩
        apply List.prefix_of_prefix_length_le hline h
        rw [List.length_append, List.length_singleton]
        omega
      exact absurd (hk.subset (by simp)) (serverVariables_names.1 x hx)
  · exact fun h => h.trans (List.prefix_append k _)

/-- The entry that `_conf_copy` takes for a line, when a name begins it. -/
theorem find?_line {x : List UInt8 × ConfField} (hx : x ∈ serverVariables) {k : List UInt8}
    (hk : x.1 <+: k) (v : List UInt8) :
    (serverVariables.find? fun y => y.1.isPrefixOf (k ++ 0x3d :: v)) = some x := by
  cases hfind : serverVariables.find? fun y => y.1.isPrefixOf (k ++ 0x3d :: v) with
  | none =>
      rw [List.find?_eq_none] at hfind
      exact absurd (List.isPrefixOf_iff_prefix.mpr ((prefix_line_iff hx k v).mpr hk)) (hfind x hx)
  | some y =>
      have hy := List.mem_of_find?_eq_some hfind
      have hpre : y.1.isPrefixOf (k ++ 0x3d :: v) = true := by simpa using List.find?_some hfind
      have hyk : y.1 <+: k := (prefix_line_iff hy k v).mp (List.isPrefixOf_iff_prefix.mp hpre)
      have hnames := serverVariables_names.2
      rcases Nat.le_total x.1.length y.1.length with hle | hle
      · rw [hnames x hx y hy (List.prefix_of_prefix_length_le hk hyk hle)]
      · rw [hnames y hy x hx (List.prefix_of_prefix_length_le hyk hk hle)]

theorem find?_line_none {k : List UInt8} (h : ∀ x ∈ serverVariables, ¬ x.1 <+: k) (v : List UInt8) :
    (serverVariables.find? fun y => y.1.isPrefixOf (k ++ 0x3d :: v)) = none := by
  rw [List.find?_eq_none]
  intro x hx hpre
  exact h x hx ((prefix_line_iff hx k v).mp (List.isPrefixOf_iff_prefix.mp hpre))

/-! ### The blocks -/

theorem strcpy_isSome_iff {b s : List UInt8} : (strcpy b s).isSome ↔ s.length < b.length := by
  unfold strcpy store
  rw [List.length_append, List.length_singleton, Nat.zero_add]
  split_ifs with h
  · exact iff_of_true rfl h
  · exact iff_of_false Bool.false_ne_true h

/-- The copy of a line fits when the size of its block does not wrap. -/
theorem strcpy_line_isSome_iff (old : Mem) (line : List UInt8) :
    (strcpy (emalloc (u32 line.length) old) line).isSome ↔ line.length + 3 < 2 ^ 32 := by
  rw [strcpy_isSome_iff, emalloc, Mem.length_peek]
  unfold u32
  omega

theorem strcpy_line {line : List UInt8} (hlen : line.length + 3 < 2 ^ 32) (old : Mem) :
    ∃ r, strcpy (emalloc (u32 line.length) old) line = some (line ++ 0 :: r) := by
  obtain ⟨r, hr, -⟩ := @strcpy_emalloc line 0 old hlen
  rw [u32_of_lt (by omega)]
  exact ⟨r, hr⟩

theorem cstringCopy_isSome (buf : List UInt8) (old : Mem) (h : (cstringCopy 6 buf old).isSome) :
    buf.length + 9 < 2 ^ 32 := by
  unfold cstringCopy at h
  have hcopy : (strcpy (emalloc (u32 buf.length + 6) old) buf).isSome := by
    cases hc : strcpy (emalloc (u32 buf.length + 6) old) buf with
    | none => simp [hc] at h
    | some b => rfl
  rw [strcpy_isSome_iff, emalloc, Mem.length_peek] at hcopy
  unfold u32 at hcopy
  omega

/-! ### A line -/

section
variable {env : ConfCopyEnv} {k v : List UInt8} (server : ServerConfig)

theorem confCopy_length {old : Mem} (hbuffer : env.buffer = some old) {buff : List UInt8}
    (h : (confCopy env server buff).isSome) : buff.length + 3 < 2 ^ 32 := by
  rw [← strcpy_line_isSome_iff old]
  unfold confCopy at h
  rw [hbuffer] at h
  dsimp only at h
  cases hc : strcpy (emalloc (u32 buff.length) old) buff with
  | none => simp [hc] at h
  | some b => rfl

/-- A line that no name begins. -/
theorem confCopy_unnamed {old : Mem} (hbuffer : env.buffer = some old)
    (hlen : (k ++ 0x3d :: v).length + 3 < 2 ^ 32) (h : ∀ x ∈ serverVariables, ¬ x.1 <+: k) :
    confCopy env server (k ++ 0x3d :: v) = some (server, 1) := by
  obtain ⟨r, hcopy⟩ := strcpy_line hlen old
  unfold confCopy
  rw [hbuffer]
  dsimp only
  rw [hcopy, Option.bind_some, find?_line_none h]

/-- A line that a name begins. -/
theorem confCopy_named {old : Mem} (hbuffer : env.buffer = some old) (hk : 0 ∉ k) (hv : 0 ∉ v)
    (hlen : (k ++ 0x3d :: v).length + 3 < 2 ^ 32) {x : List UInt8 × ConfField}
    (hx : x ∈ serverVariables) (hpre : x.1 <+: k) :
    confCopy env server (k ++ 0x3d :: v) =
      (ccnew (server x.2) (trimSpaces ((k ++ 0x3d :: v).drop (x.1.length + 1))) env.value).map
        fun ext => (Function.update server x.2 ext, 1) := by
  have hnul : 0 ∉ k ++ 0x3d :: v := by
    rw [List.mem_append, List.mem_cons, not_or, not_or]
    exact ⟨hk, by decide, hv⟩
  have hle : x.1.length + 1 ≤ (k ++ 0x3d :: v).length := by
    rw [List.length_append, List.length_cons]
    have := hpre.length_le
    omega
  obtain ⟨r, hcopy⟩ := strcpy_line hlen old
  have hdata : str ((k ++ 0x3d :: v ++ 0 :: r).drop (x.1.length + 1)) =
      some ((k ++ 0x3d :: v).drop (x.1.length + 1)) := by
    rw [List.drop_append_of_le_length hle]
    exact str_append (fun hmem => hnul (List.mem_of_mem_drop hmem)) r
  unfold confCopy
  rw [hbuffer]
  dsimp only
  rw [hcopy, Option.bind_some, find?_line hx hpre]
  dsimp only
  rw [hdata, Option.bind_some, anycfgValue_eq]

end

/-! ### Exactly the named field -/

/-- The string of a field holds `s`. -/
def Xcstring.Holds (ext : Xcstring) (s : List UInt8) : Prop :=
  ext.buffer.bind str = some s ∧ ext.length = s.length

/-- The fields that have a string in `server`. -/
def ServerConfig.strings (server : ServerConfig) (field : ConfField) : Bool := (server field).isSome

/-- From every configuration whose strings are those of `strings` the line `k=v` sets the field whose
name is `k`, and leaves the others; a key that is no name changes nothing. -/
def SetsNamed (env : ConfCopyEnv) (strings : ConfField → Bool) (k v : List UInt8) : Prop :=
  ∀ server : ServerConfig, server.strings = strings → ∃ server' ret,
    confCopy env server (k ++ 0x3d :: v) = some (server', ret) ∧
    match fieldOf k with
    | none => server' = server
    | some field =>
        (∃ ext', server' field = some ext' ∧ ext'.Holds (trimSpaces v)) ∧
        ∀ other ≠ field, server' other = server other

/-- A name that is the beginning of a longer key is that of a field without a string; the field that
the key names has one, and the blocks are large enough. -/
structure CopiesLine (env : ConfCopyEnv) (strings : ConfField → Bool) (k v : List UInt8) : Prop where
  line : (k ++ 0x3d :: v).length + 3 < 2 ^ 32
  names : ∀ x ∈ serverVariables, x.1 <+: k → x.1 = k ∨ strings x.2 = false
  value : ∀ f, fieldOf k = some f →
    strings f = true ∧ env.value ≠ none ∧ (trimSpaces v).length + 9 < 2 ^ 32

/-- A configuration whose strings were just created. -/
def createdConfig (strings : ConfField → Bool) : ServerConfig := fun f =>
  if strings f then some cstringCreate else none

theorem createdConfig_strings (strings : ConfField → Bool) :
    ServerConfig.strings (createdConfig strings) = strings := by
  funext f
  unfold ServerConfig.strings createdConfig
  cases strings f <;> rfl

theorem createdConfig_of_true {strings : ConfField → Bool} {f : ConfField} (h : strings f = true) :
    createdConfig strings f = some cstringCreate := if_pos h

theorem drop_named (x : List UInt8) (v : List UInt8) : (x ++ 0x3d :: v).drop (x.length + 1) = v := by
  rw [← List.singleton_append, ← List.append_assoc, List.drop_left']
  rw [List.length_append, List.length_singleton]

/-- What `cstring_new` leaves of a field that has a string. -/
theorem ccnew_some {ext : Xcstring} {buf : List UInt8} {block : Option Mem} {r : Option Xcstring}
    (h : ccnew (some ext) buf block = some r) (hlen : buf.length < 2 ^ 32) :
    ∃ ext', r = some ext' ∧ ext'.length = buf.length ∧
      (ext'.buffer ≠ none → block ≠ none ∧ buf.length + 9 < 2 ^ 32) := by
  unfold ccnew at h
  cases block with
  | none =>
      obtain rfl := Option.some.inj h
      exact ⟨_, rfl, u32_of_lt hlen, fun hne => absurd rfl hne⟩
  | some old =>
      obtain ⟨ext', hext', rfl⟩ := Option.map_eq_some_iff.mp h
      have hfit := cstringCopy_isSome buf old (Option.isSome_iff_exists.mpr ⟨ext', hext'⟩)
      refine ⟨ext', rfl, ?_, fun _ => ⟨Option.some_ne_none old, hfit⟩⟩
      simp only [cstringNew, cstringCopy, Option.bind_eq_some_iff, Option.map_eq_some_iff] at hext'
      obtain ⟨-, -, b, -, rfl⟩ := hext'
      exact u32_of_lt hlen

theorem ccnew_holds {ext : Xcstring} {buf : List UInt8} (hbuf : 0 ∉ buf) (old : Mem)
    (hlen : buf.length + 9 < 2 ^ 32) :
    ∃ ext', ccnew (some ext) buf (some old) = some (some ext') ∧ ext'.Holds buf := by
  obtain ⟨ext', hcopy, -, hstr⟩ := @cstringCopy_valid buf hbuf 6 old hlen
  have hnew : ccnew (some ext) buf (some old) = some (some ext') := by
    rw [ccnew, cstringNew, hcopy, Option.map_some]
  obtain ⟨ext'', hr, hlength, -⟩ := ccnew_some hnew (by omega)
  obtain rfl := Option.some.inj hr
  exact ⟨ext', hnew, hstr, hlength⟩

/-- A longer key is no name. -/
theorem fieldOf_of_longer {x : List UInt8 × ConfField} (hx : x ∈ serverVariables)
    {k : List UInt8} (hpre : x.1 <+: k) (hne : x.1 ≠ k) : fieldOf k = none := by
  rw [Option.eq_none_iff_forall_ne_some]
  intro f hf
  have := serverVariables_names.2 x hx _ (fieldOf_eq_some_iff.mp hf) hpre
  exact hne (congrArg Prod.fst this)

theorem copiesLine_of_setsNamed {env : ConfCopyEnv} {strings : ConfField → Bool} {k v : List UInt8}
    (hk : 0 ∉ k) (hv : 0 ∉ v) {old : Mem} (hbuffer : env.buffer = some old)
    (h : SetsNamed env strings k v) : CopiesLine env strings k v := by
  obtain ⟨server', ret, hcopy, hset⟩ := h (createdConfig strings) (createdConfig_strings strings)
  have hlen := confCopy_length (createdConfig strings) hbuffer
    (Option.isSome_iff_exists.mpr ⟨_, hcopy⟩)
  have hlen' : k.length + (v.length + 1) + 3 < 2 ^ 32 := by simpa using hlen
  refine ⟨hlen, fun x hx hpre => ?_, fun f hf => ?_⟩
  · by_contra hbad
    obtain ⟨hne, hstring⟩ := not_or.mp hbad
    have hstring : strings x.2 = true := by simpa using hstring
    rw [fieldOf_of_longer hx hpre hne] at hset
    -- the value begins inside of the key, and has at least the `=`
    obtain ⟨t, rfl⟩ := hpre
    rw [confCopy_named _ hbuffer hk hv hlen hx (List.prefix_append _ _),
      createdConfig_of_true hstring] at hcopy
    obtain ⟨r, hr, heq⟩ := Option.map_eq_some_iff.mp hcopy
    obtain ⟨c, t, rfl⟩ : ∃ c t', t = c :: t' := by
      apply List.exists_cons_of_ne_nil
      rintro rfl
      exact hne (List.append_nil _).symm
    have hdrop : (x.1 ++ c :: t ++ 0x3d :: v).drop (x.1.length + 1) = t ++ 0x3d :: v := by
      rw [List.append_assoc, List.cons_append, ← List.singleton_append, ← List.append_assoc,
        List.drop_left']
      rw [List.length_append, List.length_singleton]
    rw [hdrop] at hr
    have hshort : (trimSpaces (t ++ 0x3d :: v)).length ≤ (t ++ 0x3d :: v).length :=
      (isInfix_trimSpaces _).length_le
    have hpos : 0 < (trimSpaces (t ++ 0x3d :: v)).length := by
      rw [List.length_pos_iff]
      exact trimSpaces_ne_nil (b := 0x3d) (by simp) (by decide)
    obtain ⟨ext', rfl, hlength, -⟩ := ccnew_some hr (by simp at *; omega)
    obtain ⟨rfl, -⟩ := Prod.mk.inj heq
    have hfield := congrFun hset x.2
    rw [Function.update_self, createdConfig_of_true hstring] at hfield
    have : ext'.length = 0 := congrArg Xcstring.length (Option.some.inj hfield)
    omega
  · rw [hf] at hset
    obtain ⟨⟨ext', hext', hholds, -⟩, -⟩ := hset
    rw [confCopy_named _ hbuffer hk hv hlen (fieldOf_eq_some_iff.mp hf) List.prefix_rfl,
      drop_named] at hcopy
    obtain ⟨r, hr, heq⟩ := Option.map_eq_some_iff.mp hcopy
    have hshort : (trimSpaces v).length ≤ v.length := (isInfix_trimSpaces _).length_le
    obtain ⟨rfl, -⟩ := Prod.mk.inj heq
    rw [Function.update_self] at hext'
    subst hext'
    cases hstring : strings f with
    | false =>
        -- without a string the field stays `NULL`
        rw [createdConfig, hstring, if_neg Bool.false_ne_true, ccnew] at hr
        cases hr
    | true =>
        rw [createdConfig_of_true hstring] at hr
        obtain ⟨ext'', hext'', -, hne⟩ := ccnew_some hr (by omega)
        obtain rfl := Option.some.inj hext''
        refine ⟨rfl, hne ?_⟩
        rintro hnone
        rw [hnone] at hholds
        exact nomatch hholds

theorem setsNamed_of_copiesLine {env : ConfCopyEnv} {strings : ConfField → Bool} {k v : List UInt8}
    (hk : 0 ∉ k) (hv : 0 ∉ v) {old : Mem} (hbuffer : env.buffer = some old)
    (h : CopiesLine env strings k v) : SetsNamed env strings k v := by
  intro server hserver
  have hstring : ∀ f, (server f).isSome = strings f := congrFun hserver
  cases hf : fieldOf k with
  | none =>
      by_cases hpre : ∃ x ∈ serverVariables, x.1 <+: k
      · -- taken for a name whose field has no string
        obtain ⟨x, hx, hpre⟩ := hpre
        have hnull : server x.2 = none := by
          rcases h.names x hx hpre with heq | hfalse
          · rw [fieldOf_eq_some_iff.mpr (heq ▸ hx : (k, x.2) ∈ serverVariables)] at hf
            exact nomatch hf
          · rwa [← hstring, Option.isSome_eq_false_iff, Option.isNone_iff_eq_none] at hfalse
        refine ⟨server, 1, ?_, rfl⟩
        rw [confCopy_named server hbuffer hk hv h.line hx hpre, hnull, ccnew, Option.map_some,
          ← hnull, Function.update_eq_self]
      · exact ⟨server, 1, confCopy_unnamed server hbuffer h.line fun x hx hp => hpre ⟨x, hx, hp⟩, rfl⟩
  | some f =>
      obtain ⟨htrue, hvalue, hfit⟩ := h.value f hf
      obtain ⟨block, hblock⟩ := Option.ne_none_iff_exists'.mp hvalue
      obtain ⟨ext, hext⟩ := Option.isSome_iff_exists.mp ((hstring f).trans htrue)
      have hnul : 0 ∉ trimSpaces v := fun hmem => hv ((isInfix_trimSpaces v).subset hmem)
      obtain ⟨r, hr, hholds⟩ := @ccnew_holds ext _ hnul block hfit
      refine ⟨Function.update server f (some r), 1, ?_, ⟨r, Function.update_self .., hholds⟩, ?_⟩
      · rw [confCopy_named server hbuffer hk hv h.line (fieldOf_eq_some_iff.mp hf) List.prefix_rfl,
          drop_named, hblock, hext, hr, Option.map_some]
      · intro other hother
        exact Function.update_of_ne hother _ server

/-- Without its work buffer `_conf_copy` changes nothing. -/
theorem setsNamed_null_iff {env : ConfCopyEnv} (strings : ConfField → Bool) (k v : List UInt8)
    (hbuffer : env.buffer = none) : SetsNamed env strings k v ↔ fieldOf k = none := by
  have hcopy : ∀ server, confCopy env server (k ++ 0x3d :: v) = some (server, 0) := by
    intro server
    rw [confCopy, hbuffer]
  constructor
  · intro h
    obtain ⟨server', ret, heq, hset⟩ := h (createdConfig strings) (createdConfig_strings strings)
    cases hf : fieldOf k with
    | none => rfl
    | some f =>
        rw [hf] at hset
        obtain ⟨⟨ext', hext', hholds, -⟩, -⟩ := hset
        obtain ⟨rfl, -⟩ := Prod.mk.inj (Option.some.inj ((hcopy _).symm.trans heq))
        unfold createdConfig at hext'
        split_ifs at hext'
        obtain rfl := Option.some.inj hext'
        exact nomatch hholds
  · intro hf server _
    refine ⟨server, 0, hcopy server, ?_⟩
    rw [hf]

/-- A line is copied to exactly the field that it names when that field has a string and no name of a
field with a string is the beginning of a longer key, as far as the blocks are there. -/
theorem setsNamed_iff (env : ConfCopyEnv) (strings : ConfField → Bool) (k v : CString) :
    SetsNamed env strings k.bytes v.bytes ↔
      (env.buffer = none ∧ fieldOf k.bytes = none) ∨
      (env.buffer ≠ none ∧ CopiesLine env strings k.bytes v.bytes) := by
  cases hbuffer : env.buffer with
  | none =>
      rw [setsNamed_null_iff strings k.bytes v.bytes hbuffer]
      simp
  | some old =>
      rw [or_iff_right fun h => Option.some_ne_none old h.1, and_iff_right (Option.some_ne_none old)]
      exact ⟨copiesLine_of_setsNamed k.noNul v.noNul hbuffer,
        setsNamed_of_copiesLine k.noNul v.noNul hbuffer⟩

/-- `portx=1` is taken for `port`, in a configuration whose fields all have a string. -/
theorem not_setsNamed_portx : ¬ SetsNamed ⟨some Mem.zero, some Mem.zero⟩ (fun _ => true)
    [0x70, 0x6f, 0x72, 0x74, 0x78] [0x31] := by
  intro h
  have hcopies := copiesLine_of_setsNamed (by decide) (by decide) rfl h
  have hport : ([0x70, 0x6f, 0x72, 0x74], ConfField.port) ∈ serverVariables := by decide
  exact absurd (hcopies.names _ hport (by decide)) (by decide)

end Carroll
