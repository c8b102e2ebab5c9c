import Carroll.Damaged
import Carroll.RoundTrip

/-! # Converting files in place

`crdeconf`, `crenconf` and `libmsx_encode_file` read a file, convert its content in memory, truncate
the file to nothing and write the result.  Up to the truncation every failed step leaves the file
alone.  From there on the content is lost when

* a write fails or is short,
* something inside `libc0_encrypt` or `libc0_decrypt` failed, which `libmsx_encode` and
  `libmsx_decode` do not report,
* `crenconf` read a part of the file only,
* there were bytes before the seek offset.

An access that left its block before could have spoiled what is written, so a run that truncates
has to keep to its blocks as well.  `conversion_all_or_nothing` has the condition for a run, and
that without a bound on what can fail only the files that are not converted at all are safe.  The
variables `length` and `size` of the two programs are of type `int`, so a `read` or `write` of
`2^31` bytes or more fails. -/

namespace Carroll

/-- `[settings]`. -/
def settingsMark : List UInt8 := [0x5b, 0x73, 0x65, 0x74, 0x74, 0x69, 0x6e, 0x67, 0x73, 0x5d]

/-- `read` with a count of type `int`. -/
def freadInt (file : List UInt8) (off n : ℕ) (t : Transfer) : Option (List UInt8) :=
  if 2 ^ 31 ≤ n then none else fread file off n t

/-- `write` of `n` bytes of a block to an empty file, with a count of type `int`: the file
afterwards. -/
def fwriteInt (b : Mem) (n : ℕ) (t : Transfer) : List UInt8 :=
  if 2 ^ 31 ≤ n then [] else (fwrite [] 0 (b.peek 0 n) t).1

/-- Outcome of the steps of `crdeconf`. -/
structure CrdeconfEnv where
  opened : Bool
  size : Bool
  buffer : Option Mem
  read : Transfer
  load : LoadEnv
  decode : MsxDecodeEnv
  fchmod : Bool
  fstat : Bool
  ftruncate : Bool
  write : Transfer

/-- `main` of `crdeconf`, from the opening of the file on: the file afterwards. -/
def crdeconf (P : Prims) (env : CrdeconfEnv) (file : List UInt8) (keys : Mem) : List UInt8 :=
  if !env.opened then file
  else
    let length := getFilesize env.size file
    match env.buffer, freadInt file 0 length env.read with
    | some buffer, some data =>
        if strstr ((buffer.poke 0 data).peek 0 (length + 3)) settingsMark then file
        else
          match loadContainer env.load file 0 with
          | none => file
          | some c =>
              match libmsxDecode P env.decode c keys length with
              | (none, _) => file
              | (some buffer, length) =>
                  if length = 0 then file
                  else if !env.fchmod then file
                  else if !env.fstat then file
                  else if !env.ftruncate then file
                  else fwriteInt buffer length env.write
    | _, _ => file

/-- The accesses of `crdeconf` to its blocks. -/
def crdeconfAccesses (P : Prims) (env : CrdeconfEnv) (file : List UInt8) (keys : Mem) : List Access :=
  let length := getFilesize env.size file
  match env.opened, env.buffer, freadInt file 0 length env.read with
  | true, some buffer, some data =>
      let buffer := buffer.poke 0 data
      ⟨emallocSize length, 0, data.length⟩ ::
        if strstr (buffer.peek 0 (length + 3)) settingsMark then []
        else
          Access.string (emallocSize length) buffer ::
            match loadContainer env.load file 0 with
            | none => []
            | some c => decodeAccesses P env.decode c keys
  | _, _, _ => []

/-- Outcome of the steps of `crenconf`. -/
structure CrenconfEnv where
  opened : Bool
  size : Bool
  buffer : Option Mem
  read : Transfer
  encode : EncodeEnv
  fchmod : Bool
  fstat : Bool
  store : StoreEnv

/-- `main` of `crenconf`, from the opening of the file on: the file afterwards. -/
def crenconf (P : Prims) (env : CrenconfEnv) (file : List UInt8) (keys : Mem) : List UInt8 :=
  if !env.opened then file
  else
    let length := getFilesize env.size file
    match env.buffer, freadInt file 0 length env.read with
    | some buffer, some data =>
        if !strstr ((buffer.poke 0 data).peek 0 (length + 3)) settingsMark then file
        else
          match libmsxEncode P env.encode data keys length with
          | (none, _) => file
          | (some c, length) =>
              if length = 0 then file
              else if !env.fchmod then file
              else if !env.fstat then file
              else (storeContainer env.store file c 0).1
    | _, _ => file

/-! ### The converted forms -/

/-- `x` is the plaintext of the container that `file` starts with: its body, which is complete, is
intact and inflates to `x`. -/
def PlaintextOf (P : Prims) (file x : List UInt8) : Prop :=
  x ≠ [] ∧ ∃ c work, c.bytes <+: file ∧ HasTrailer P c work ∧ InflatesFully P true c work ∧
    x = (bodyInflated P c work).out

/-- `file'` holds a complete container of `inp` at `seek`, behind the bytes of `file`. -/
def HoldsContainer (P : Prims) (inp : List UInt8) (keys : Mem) (seek : ℕ)
    (file file' : List UInt8) : Prop :=
  Recovers P inp ∧ ∃ c pre post, Made P inp keys c ∧ file' = pre ++ c.bytes ++ post ∧
    pre.length = seek ∧ file.take seek <+: pre

theorem HoldsContainer.length_le {P : Prims} {inp : List UInt8} {keys : Mem} {seek : ℕ}
    {file file' : List UInt8} (h : HoldsContainer P inp keys seek file file') :
    seek + Libc0.size ≤ file'.length := by
  obtain ⟨-, c, pre, post, -, rfl, rfl, -⟩ := h
  rw [List.length_append, List.length_append, length_bytes]
  omega

/-! ### `crdeconf` -/

/-- `crdeconf` gets through `ftruncate`, with the container `c`. -/
structure CrdeconfTruncates (P : Prims) (env : CrdeconfEnv) (file : List UInt8) (keys : Mem)
    (c : Libc0) : Prop where
  opened : env.opened = true
  searched : ∃ buffer data, env.buffer = some buffer ∧
    freadInt file 0 (getFilesize env.size file) env.read = some data ∧
    strstr ((buffer.poke 0 data).peek 0 (getFilesize env.size file + 3)) settingsMark = false
  loaded : loadContainer env.load file 0 = some c
  admitted : Admitted P env.decode c keys
  maxinum : c.maxinum ≠ 0
  fchmod : env.fchmod = true
  fstat : env.fstat = true
  ftruncate : env.ftruncate = true

theorem freadInt_ne_nil {file data : List UInt8} {off n : ℕ} {t : Transfer}
    (h : freadInt file off n t = some data) : file ≠ [] := by
  rintro rfl
  cases t <;> simp [freadInt, fread] at h

theorem libmsxDecode_snd {P : Prims} {env : MsxDecodeEnv} {c : Libc0} {keys b : Mem} {length n : ℕ}
    (h : libmsxDecode P env c keys length = (some b, n)) : Admitted P env c keys ∧ n = c.maxinum := by
  rcases libmsxDecode_cases P env c keys length with ⟨-, h'⟩ | ⟨hadm, ptr, -, h'⟩
  · rw [h'] at h
    exact nomatch h
  · rw [h'] at h
    exact ⟨hadm, (congrArg Prod.snd h).symm⟩

theorem crdeconf_truncates {P : Prims} {env : CrdeconfEnv} {file : List UInt8} {keys : Mem}
    {c : Libc0} (h : CrdeconfTruncates P env file keys c) :
    ∃ b length, (libmsxDecode P env.decode c keys length).1 = some b ∧
      crdeconf P env file keys = fwriteInt b c.maxinum env.write := by
  obtain ⟨buffer, data, hbuf, hread, hstr⟩ := h.searched
  obtain ⟨b, hb⟩ := Option.isSome_iff_exists.mp
    ((libmsxDecode_isSome_iff P env.decode c keys (getFilesize env.size file)).mpr h.admitted)
  obtain ⟨n, hdec⟩ : ∃ n, libmsxDecode P env.decode c keys (getFilesize env.size file) = (some b, n) :=
    ⟨_, Prod.ext hb rfl⟩
  obtain ⟨-, rfl⟩ := libmsxDecode_snd hdec
  refine ⟨b, _, hb, ?_⟩
  simp only [crdeconf, h.opened, hbuf, hread, hstr, h.loaded, hdec, h.maxinum, h.fchmod, h.fstat,
    h.ftruncate, Bool.not_true, Bool.false_eq_true, ↓reduceIte]

/-- Before the truncation every exit leaves the file alone. -/
theorem crdeconf_untouched {P : Prims} {env : CrdeconfEnv} {file : List UInt8} {keys : Mem}
    (h : ∀ c, ¬ CrdeconfTruncates P env file keys c) : crdeconf P env file keys = file := by
  unfold crdeconf
  cases hopen : env.opened with
  | false => rfl
  | true =>
  cases hbuf : env.buffer with
  | none => rfl
  | some buffer =>
  cases hread : freadInt file 0 (getFilesize env.size file) env.read with
  | none => simp [hread]
  | some data =>
  cases hstr : strstr ((buffer.poke 0 data).peek 0 (getFilesize env.size file + 3)) settingsMark with
  | true => simp [hread, hstr]
  | false =>
  cases hload : loadContainer env.load file 0 with
  | none => simp [hread, hstr]
  | some c =>
  cases hdec : libmsxDecode P env.decode c keys (getFilesize env.size file) with
  | mk b n =>
  cases b with
  | none => simp [hread, hstr, hdec]
  | some b =>
  obtain ⟨hadm, rfl⟩ := libmsxDecode_snd hdec
  have hno : ¬ (c.maxinum ≠ 0 ∧ env.fchmod = true ∧ env.fstat = true ∧ env.ftruncate = true) :=
    fun ⟨hmax, hchmod, hstat, hcut⟩ =>
      h c ⟨hopen, ⟨buffer, data, hbuf, hread, hstr⟩, hload, hadm, hmax, hchmod, hstat, hcut⟩
  simp only [hread, hstr, hdec, Bool.not_true, Bool.false_eq_true, ↓reduceIte]
  split_ifs with hmax hchmod hstat hcut
  · rfl
  · rfl
  · rfl
  · rfl
  · exact absurd ⟨hmax, by simpa using hchmod, by simpa using hstat, by simpa using hcut⟩ hno

/-- The file holds its plaintext or its initial bytes; and a run that truncates it has kept to its
blocks. -/
def CrdeconfAllOrNothing (P : Prims) (env : CrdeconfEnv) (file : List UInt8) (keys : Mem) : Prop :=
  (∀ c, CrdeconfTruncates P env file keys c → InBounds (crdeconfAccesses P env file keys)) ∧
    (crdeconf P env file keys = file ∨ PlaintextOf P file (crdeconf P env file keys))

/-- The lengths in the header agree with the sizes of the blocks made for them. -/
def HeaderFits (c : Libc0) : Prop :=
  16 ≤ c.number ∧ c.number + 7 < 2 ^ 32 ∧ c.length ≤ c.number + 4 ∧ c.mininum ≤ c.number + 4

/-- What a run of `crdeconf` that truncates needs: the search for `[settings]` met a NUL byte, the
container was read in whole, its header fits, it is intact, the allocations of `libc0_decrypt`
succeed, and the write, of less than `2^31` bytes, is complete. -/
structure CrdeconfSafe (P : Prims) (env : CrdeconfEnv) (file : List UInt8) (c : Libc0) : Prop where
  searched : ∀ buffer data, env.buffer = some buffer →
    freadInt file 0 (getFilesize env.size file) env.read = some data →
    0 ∈ (buffer.poke 0 data).peek 0 (getFilesize env.size file + 3)
  whole : c.bytes <+: file
  fits : HeaderFits c
  zcone : env.decode.decrypt.zcone.isSome
  intact : Intact P env.decode.decrypt c
  maxinum : c.maxinum < 2 ^ 31
  write : env.write.Covers c.maxinum

theorem freadInt_some {file data : List UInt8} {off n : ℕ} {t : Transfer}
    (h : freadInt file off n t = some data) : n < 2 ^ 31 ∧ data.length ≤ n := by
  unfold freadInt at h
  split_ifs at h with hn
  exact ⟨not_le.mp hn, length_fread_le h⟩

theorem crdeconf_inBounds {P : Prims} {env : CrdeconfEnv} {file : List UInt8} {keys : Mem} {c : Libc0}
    (h : CrdeconfTruncates P env file keys c) (hsafe : CrdeconfSafe P env file c) :
    InBounds (crdeconfAccesses P env file keys) := by
  obtain ⟨buffer, data, hbuf, hread, hstr⟩ := h.searched
  obtain ⟨hn, hdata⟩ := freadInt_some hread
  obtain ⟨h4, hnumber, hlength, hmininum⟩ := hsafe.fits
  obtain ⟨work, hwork, htrailer, -⟩ := hsafe.intact
  obtain ⟨zcone, hzcone⟩ := Option.isSome_iff_exists.mp hsafe.zcone
  have henv : env.decode.decrypt =
      ⟨some work, some zcone, env.decode.decrypt.zlib, env.decode.decrypt.unset⟩ := by
    rw [← hwork, ← hzcone]
  have hsize : emallocSize (getFilesize env.size file) = getFilesize env.size file + 3 :=
    emallocSize_eq (by omega)
  have hbody : emallocSize (c.number + 4) = c.number + 7 := emallocSize_eq (by omega)
  have hmax := hsafe.maxinum
  have hnul := hsafe.searched buffer data hbuf hread
  have hadm : (libmsxDecode P env.decode c keys 0).1.isNone = false := by
    rw [Option.isNone_eq_false_iff]
    exact (libmsxDecode_isSome_iff P env.decode c keys 0).mpr h.admitted
  have hdec : InBounds (libc0DecryptAccesses P env.decode.decrypt c (c.number + 7)) := by
    rw [henv, libc0Decrypt_inBounds_iff]
    exact ⟨h4, by omega, hlength, by omega, by omega, fun _ => hmininum, fun hno => absurd htrailer hno⟩
  simp only [crdeconfAccesses, h.opened, hbuf, hread, hstr, h.loaded, decodeAccesses, hadm, hsize, hbody,
    Bool.false_eq_true, ↓reduceIte]
  rw [inBounds_cons, inBounds_string, inBounds_cons]
  exact ⟨by simpa using hdata.trans (Nat.le_add_right _ 3), hnul, by simp, hdec⟩

theorem crdeconf_safe {P : Prims} {env : CrdeconfEnv} {file : List UInt8} {keys : Mem}
    (h : ∀ c, CrdeconfTruncates P env file keys c → CrdeconfSafe P env file c) :
    CrdeconfAllOrNothing P env file keys := by
  by_cases htr : ∃ c, CrdeconfTruncates P env file keys c
  · obtain ⟨c, hc⟩ := htr
    have hsafe := h c hc
    obtain ⟨b, length, hb, hrun⟩ := crdeconf_truncates hc
    obtain ⟨-, work, -, ht, hfull, hpeek⟩ := (delivers_iff P env.decode c hc.admitted hb).mpr
      ⟨hsafe.zcone, hsafe.intact⟩
    obtain ⟨k, hk, hle⟩ := hsafe.write
    have hne : (bodyInflated P c work).out ≠ [] := by
      rw [← List.length_pos_iff, hfull.2.2]
      exact Nat.pos_of_ne_zero hc.maxinum
    have hout : crdeconf P env file keys = (bodyInflated P c work).out := by
      rw [hrun, fwriteInt, if_neg (not_le.mpr hsafe.maxinum), hpeek,
        fwrite_full [] 0 ⟨k, hk, hfull.2.2.trans_le hle⟩ hne, writeAt_nil 0 hne]
      rfl
    exact ⟨fun c' hc' => crdeconf_inBounds hc' (h c' hc'),
      .inr ⟨hout ▸ hne, c, work, hsafe.whole, ht, ⟨rfl, hfull.2⟩, hout⟩⟩
  · exact ⟨fun c hc => absurd ⟨c, hc⟩ htr, .inl (crdeconf_untouched (not_exists.mp htr))⟩

/-- Over all outcomes of the steps, `crdeconf` is all or nothing on the files it never gets to
truncate. -/
theorem crdeconf_always_iff (P : Prims) (file : List UInt8) (keys : Mem) :
    (∀ env, CrdeconfAllOrNothing P env file keys) ↔
      ∀ env c, ¬ CrdeconfTruncates P env file keys c := by
  constructor
  · intro h env c hc
    -- the same run with a write that fails
    have hc' : CrdeconfTruncates P { env with write := none } file keys c :=
      ⟨hc.opened, hc.searched, hc.loaded, hc.admitted, hc.maxinum, hc.fchmod, hc.fstat, hc.ftruncate⟩
    obtain ⟨b, length, -, hrun⟩ := crdeconf_truncates hc'
    obtain ⟨buffer, data, -, hread, -⟩ := hc.searched
    have hnil : crdeconf P { env with write := none } file keys = [] := by
      rw [hrun, fwriteInt]
      split_ifs <;> rfl
    rcases (h { env with write := none }).2 with hfile | ⟨hne, -⟩
    · exact freadInt_ne_nil hread (hfile.symm.trans hnil)
    · exact hne hnil
  · exact fun h env => ⟨fun c hc => absurd hc (h env c), .inl (crdeconf_untouched (h env))⟩

/-! ### Storing a new container -/

/-- Everything inside `libc0_encrypt` succeeds. -/
def EncryptEnv.Succeeds (env : EncryptEnv) : Prop :=
  env.zctwo.isSome ∧ env.zlib = true ∧ env.rbuf.isSome

/-- What it takes to store a container of `inp` at `seek` once the file is truncated. -/
def StoreSafe (P : Prims) (encode : EncodeEnv) (store : StoreEnv) (file inp : List UInt8) (c : Libc0)
    (seek : ℕ) : Prop :=
  inp ≠ [] ∧ FitsBlocks P inp ∧ encode.encrypt.Succeeds ∧ Recovers P inp ∧
    store.header.Covers Libc0.size ∧ store.body.Covers c.number ∧ ∀ x ∈ file.take seek, x = 0

theorem libmsxEncode_made {P : Prims} (hP : P.Lawful) {env : EncodeEnv} {inp : List UInt8}
    {keys : Mem} {length n : ℕ} {c : Libc0} (h : libmsxEncode P env inp keys length = (some c, n))
    (henv : env.encrypt.Succeeds) (hne : inp ≠ []) (hlen : inp.length < 2 ^ 32) :
    Made P inp keys c := by
  obtain ⟨ctx, buffer, zctwo, zlib, rbuf, unset⟩ := env
  obtain ⟨hz, rfl, hr⟩ := henv
  obtain ⟨zctwo, rfl⟩ := Option.isSome_iff_exists.mp hz
  obtain ⟨rbuf, rfl⟩ := Option.isSome_iff_exists.mp hr
  cases ctx with
  | none => exact nomatch h
  | some ctx =>
      cases buffer with
      | none => exact nomatch h
      | some b =>
          obtain ⟨c', hc', hrun⟩ := libmsxEncode_ok hP ctx b.1 b.2 zctwo rbuf unset keys length hne hlen
          obtain rfl := Option.some.inj (congrArg Prod.fst (hrun.symm.trans h))
          exact hc'

theorem storeContainer_safe {P : Prims} (hP : P.Lawful) {encode : EncodeEnv} {store : StoreEnv}
    {file inp : List UInt8} {keys : Mem} {length n seek : ℕ} {c : Libc0}
    (henc : libmsxEncode P encode inp keys length = (some c, n)) (hcut : store.ftruncate = true)
    (h : StoreSafe P encode store file inp c seek) :
    HoldsContainer P inp keys seek file (storeContainer store file c seek).1 := by
  obtain ⟨hne, hfits, hsucc, hrec, hheader, hbody, hzero⟩ := h
  have hmade := libmsxEncode_made hP henc hsucc hne hfits.length_lt
  refine ⟨hrec, c, List.replicate seek 0, [], hmade, ?_, List.length_replicate, ?_⟩
  · rw [storeContainer_full hcut hheader hbody file seek hmade.number_pos, List.append_nil]
  · have htake := List.eq_replicate_of_mem hzero
    obtain ⟨k, hk⟩ := Nat.exists_eq_add_of_le (List.length_take_le seek file)
    rw [htake]
    nth_rewrite 2 [hk]
    rw [List.replicate_add]
    exact List.prefix_append _ _

theorem storeSafe_inBounds {P : Prims} (hP : P.Lawful) {encode : EncodeEnv} {store : StoreEnv}
    {file inp : List UInt8} {keys : Mem} {length n seek : ℕ} {c : Libc0}
    (henc : libmsxEncode P encode inp keys length = (some c, n))
    (h : StoreSafe P encode store file inp c seek) : InBounds (libmsxEncodeAccesses P encode inp c) := by
  obtain ⟨hne, hfits, hsucc, -⟩ := h
  have hmade := libmsxEncode_made hP henc hsucc hne hfits.length_lt
  obtain ⟨hz, hzlib, hr⟩ := hsucc
  obtain ⟨zctwo, hzctwo⟩ := Option.isSome_iff_exists.mp hz
  obtain ⟨rbuf, hrbuf⟩ := Option.isSome_iff_exists.mp hr
  have henv : encode.encrypt = ⟨some zctwo, true, some rbuf, encode.encrypt.unset⟩ := by
    rw [← hzctwo, ← hzlib, ← hrbuf]
  exact (hmade.encode_inBounds_iff henv hne hfits.length_lt).mpr hfits

/-! ### `crenconf` -/

/-- `crenconf` gets through `ftruncate`: it read `inp` and made the container `c`. -/
structure CrenconfTruncates (P : Prims) (env : CrenconfEnv) (file : List UInt8) (keys : Mem)
    (inp : List UInt8) (c : Libc0) : Prop where
  opened : env.opened = true
  searched : ∃ buffer, env.buffer = some buffer ∧
    freadInt file 0 (getFilesize env.size file) env.read = some inp ∧
    strstr ((buffer.poke 0 inp).peek 0 (getFilesize env.size file + 3)) settingsMark = true
  encoded : ∃ n, libmsxEncode P env.encode inp keys (getFilesize env.size file) = (some c, n) ∧ n ≠ 0
  fchmod : env.fchmod = true
  fstat : env.fstat = true
  ftruncate : env.store.ftruncate = true

theorem crenconf_truncates {P : Prims} {env : CrenconfEnv} {file inp : List UInt8} {keys : Mem}
    {c : Libc0} (h : CrenconfTruncates P env file keys inp c) :
    crenconf P env file keys = (storeContainer env.store file c 0).1 := by
  obtain ⟨buffer, hbuf, hread, hstr⟩ := h.searched
  obtain ⟨n, henc, hn⟩ := h.encoded
  simp only [crenconf, h.opened, hbuf, hread, hstr, henc, hn, h.fchmod, h.fstat, Bool.not_true,
    Bool.false_eq_true, ↓reduceIte]

/-- Before the truncation every exit leaves the file alone. -/
theorem crenconf_untouched {P : Prims} {env : CrenconfEnv} {file : List UInt8} {keys : Mem}
    (h : ∀ inp c, ¬ CrenconfTruncates P env file keys inp c) : crenconf P env file keys = file := by
  unfold crenconf
  cases hopen : env.opened with
  | false => rfl
  | true =>
  cases hbuf : env.buffer with
  | none => rfl
  | some buffer =>
  cases hread : freadInt file 0 (getFilesize env.size file) env.read with
  | none => simp [hread]
  | some inp =>
  cases hstr : strstr ((buffer.poke 0 inp).peek 0 (getFilesize env.size file + 3)) settingsMark with
  | false => simp [hread, hstr]
  | true =>
  cases henc : libmsxEncode P env.encode inp keys (getFilesize env.size file) with
  | mk c n =>
  cases c with
  | none => simp [hread, hstr, henc]
  | some c =>
  simp only [hread, hstr, henc, Bool.not_true, Bool.false_eq_true, ↓reduceIte]
  split_ifs with hn hchmod hstat
  · rfl
  · rfl
  · rfl
  · cases hcut : env.store.ftruncate with
    | false => simp [storeContainer, hcut]
    | true =>
        exact absurd ⟨hopen, ⟨buffer, hbuf, hread, hstr⟩, ⟨n, henc, hn⟩, by simpa using hchmod,
          by simpa using hstat, hcut⟩ (h inp c)

/-- The file holds a complete container of its initial content, or its initial bytes; and a run that
truncates it has kept to its blocks. -/
def CrenconfAllOrNothing (P : Prims) (env : CrenconfEnv) (file : List UInt8) (keys : Mem) : Prop :=
  (∀ inp c, CrenconfTruncates P env file keys inp c → InBounds (libmsxEncodeAccesses P env.encode inp c)) ∧
    (crenconf P env file keys = file ∨ HoldsContainer P file keys 0 file (crenconf P env file keys))

theorem crenconf_safe {P : Prims} (hP : P.Lawful) {env : CrenconfEnv} {file : List UInt8} {keys : Mem}
    (h : ∀ inp c, CrenconfTruncates P env file keys inp c →
      inp = file ∧ StoreSafe P env.encode env.store file file c 0) :
    CrenconfAllOrNothing P env file keys := by
  by_cases htr : ∃ inp c, CrenconfTruncates P env file keys inp c
  · obtain ⟨inp, c, hc⟩ := htr
    obtain ⟨rfl, hsafe⟩ := h inp c hc
    obtain ⟨n, henc, -⟩ := hc.encoded
    refine ⟨fun inp' c' hc' => ?_, .inr ?_⟩
    · obtain ⟨rfl, hsafe'⟩ := h inp' c' hc'
      obtain ⟨n', henc', -⟩ := hc'.encoded
      exact storeSafe_inBounds hP henc' hsafe'
    · rw [crenconf_truncates hc]
      exact storeContainer_safe hP henc hc.ftruncate hsafe
  · exact ⟨fun inp c hc => absurd ⟨inp, c, hc⟩ htr,
      .inl (crenconf_untouched fun inp c hc => htr ⟨inp, c, hc⟩)⟩

/-- Over all outcomes of the steps, `crenconf` is all or nothing on the files it never gets to
truncate. -/
theorem crenconf_always_iff (P : Prims) (file : List UInt8) (keys : Mem) :
    (∀ env, CrenconfAllOrNothing P env file keys) ↔
      ∀ env inp c, ¬ CrenconfTruncates P env file keys inp c := by
  constructor
  · intro h env inp c hc
    -- the same run with a write that fails
    have hc' : CrenconfTruncates P { env with store := ⟨true, none, none⟩ } file keys inp c :=
      ⟨hc.opened, hc.searched, hc.encoded, hc.fchmod, hc.fstat, rfl⟩
    have hnil : crenconf P { env with store := ⟨true, none, none⟩ } file keys = [] :=
      crenconf_truncates hc'
    obtain ⟨buffer, -, hread, -⟩ := hc.searched
    rcases (h { env with store := ⟨true, none, none⟩ }).2 with hfile | hholds
    · exact freadInt_ne_nil hread (hfile.symm.trans hnil)
    · have hle := hholds.length_le
      rw [hnil] at hle
      exact absurd hle (by norm_num [Libc0.size])
  · exact fun h env => ⟨fun inp c hc => absurd hc (h env inp c), .inl (crenconf_untouched (h env))⟩

/-! ### `libmsx_encode_file` -/

/-- `libmsx_encode_file` gets through `ftruncate`, with the container `c`. -/
structure EncodeFileTruncates (P : Prims) (env : EncodeFileEnv) (inp : List UInt8) (keys : Mem)
    (c : Libc0) : Prop where
  opened : env.opened = true
  encoded : ∃ n, libmsxEncode P env.encode inp keys 0 = (some c, n) ∧ n ≠ 0
  fchmod : env.fchmod = true
  fstat : env.fstat = true
  ftruncate : env.store.ftruncate = true

theorem encodeFile_truncates {P : Prims} {env : EncodeFileEnv} {inp : List UInt8} {keys : Mem}
    {c : Libc0} (h : EncodeFileTruncates P env inp keys c) (file : List UInt8) (seek : ℕ) :
    libmsxEncodeFile P env file inp keys seek = storeContainer env.store file c seek := by
  obtain ⟨n, henc, hn⟩ := h.encoded
  simp only [libmsxEncodeFile, h.opened, henc, hn, h.fchmod, h.fstat, Bool.not_true,
    Bool.false_eq_true, ↓reduceIte]

theorem encodeFile_untouched {P : Prims} {env : EncodeFileEnv} {inp : List UInt8} {keys : Mem}
    (h : ∀ c, ¬ EncodeFileTruncates P env inp keys c) (file : List UInt8) (seek : ℕ) :
    (libmsxEncodeFile P env file inp keys seek).1 = file := by
  unfold libmsxEncodeFile
  cases hopen : env.opened with
  | false => rfl
  | true =>
  cases henc : libmsxEncode P env.encode inp keys 0 with
  | mk c n =>
  cases c with
  | none => simp
  | some c =>
  simp only [Bool.not_true, Bool.false_eq_true, ↓reduceIte]
  split_ifs with hn hchmod hstat
  · rfl
  · rfl
  · rfl
  · cases hcut : env.store.ftruncate with
    | false => simp [storeContainer, hcut]
    | true =>
        exact absurd ⟨hopen, ⟨n, henc, hn⟩, by simpa using hchmod, by simpa using hstat, hcut⟩ (h c)

/-- The file holds a complete container of `inp` at `seek` behind its initial bytes, or its initial
bytes; and a run that truncates it has kept to its blocks. -/
def EncodeFileAllOrNothing (P : Prims) (env : EncodeFileEnv) (file inp : List UInt8) (keys : Mem)
    (seek : ℕ) : Prop :=
  (∀ c, EncodeFileTruncates P env inp keys c → InBounds (libmsxEncodeAccesses P env.encode inp c)) ∧
    ((libmsxEncodeFile P env file inp keys seek).1 = file ∨
      HoldsContainer P inp keys seek file (libmsxEncodeFile P env file inp keys seek).1)

theorem encodeFile_safe {P : Prims} (hP : P.Lawful) {env : EncodeFileEnv} {file inp : List UInt8}
    {keys : Mem} {seek : ℕ}
    (h : ∀ c, EncodeFileTruncates P env inp keys c → StoreSafe P env.encode env.store file inp c seek) :
    EncodeFileAllOrNothing P env file inp keys seek := by
  by_cases htr : ∃ c, EncodeFileTruncates P env inp keys c
  · obtain ⟨c, hc⟩ := htr
    obtain ⟨n, henc, -⟩ := hc.encoded
    refine ⟨fun c' hc' => ?_, .inr ?_⟩
    · obtain ⟨n', henc', -⟩ := hc'.encoded
      exact storeSafe_inBounds hP henc' (h c' hc')
    · rw [encodeFile_truncates hc]
      exact storeContainer_safe hP henc hc.ftruncate (h c hc)
  · exact ⟨fun c hc => absurd ⟨c, hc⟩ htr, .inl (encodeFile_untouched (not_exists.mp htr) file seek)⟩

/-- What the truncation and the two writes leave before the seek offset: nothing, or zeros. -/
theorem storeContainer_take (env : StoreEnv) (hcut : env.ftruncate = true) (file : List UInt8)
    (c : Libc0) (seek : ℕ) :
    (storeContainer env file c seek).1 = [] ∨
      (storeContainer env file c seek).1.take seek = List.replicate seek 0 := by
  have hbefore : ∀ data : List UInt8, (List.replicate seek 0 ++ data).take seek = List.replicate seek 0 :=
    fun data => List.take_left' List.length_replicate
  unfold storeContainer
  rw [hcut]
  unfold fwrite
  cases env.header with
  | none => exact .inl rfl
  | some k =>
  by_cases hdata : (c.img.peek 0 Libc0.size).take k = []
  · simp [hdata, writeAt]
  · refine .inr ?_
    simp only [hdata, writeAt_nil seek hdata, Bool.not_true, Bool.false_eq_true, ↓reduceIte, ne_eq,
      not_false_eq_true, decide_true]
    cases env.body with
    | none => exact hbefore _
    | some l =>
        rw [writeAt_take (by omega) (by simp), hbefore]

/-- A run of `libmsx_encode_file` that truncates loses every byte before the seek offset that is not
zero. -/
theorem encodeFile_zero_before {P : Prims} {env : EncodeFileEnv} {file inp : List UInt8} {keys : Mem}
    {seek : ℕ} {c : Libc0} (hc : EncodeFileTruncates P env inp keys c)
    (h : (libmsxEncodeFile P env file inp keys seek).1 = file ∨
      HoldsContainer P inp keys seek file (libmsxEncodeFile P env file inp keys seek).1) :
    ∀ x ∈ file.take seek, x = 0 := by
  intro x hx
  rw [encodeFile_truncates hc] at h
  rcases storeContainer_take env.store hc.ftruncate file c seek with hnil | htake
  · rw [hnil] at h
    rcases h with hfile | hholds
    · rw [← hfile] at hx
      simp at hx
    · exact absurd hholds.length_le (by norm_num [Libc0.size])
  · rcases h with hfile | ⟨-, c', pre, post, -, hres, hlen, hpre⟩
    · rw [hfile] at htake
      rw [htake] at hx
      exact List.eq_of_mem_replicate hx
    · have hzero : pre = List.replicate seek 0 := by
        rw [← htake, hres, List.append_assoc, List.take_left' hlen]
      rw [hzero] at hpre
      exact List.eq_of_mem_replicate (hpre.subset hx)

/-- For every file and content there are outcomes of the steps with which `libmsx_encode_file`
leaves something else. -/
theorem encodeFile_not_always {P : Prims} (hP : P.Lawful) (file inp : List UInt8) (keys : Mem)
    (seek : ℕ) : ∃ env, ¬ EncodeFileAllOrNothing P env file inp keys seek := by
  obtain ⟨c, hc, -, -⟩ := libmsxEncode_noZctwo hP inp keys
  have htr : ∀ store : StoreEnv, store.ftruncate = true →
      EncodeFileTruncates P { EncodeFileEnv.noZctwo with store := store } inp keys c :=
    fun store hcut => ⟨rfl, ⟨273, hc, by norm_num⟩, rfl, rfl, hcut⟩
  by_cases hfile : file = []
  · -- one byte of the header is written to the empty file
    refine ⟨{ EncodeFileEnv.noZctwo with store := ⟨true, some 1, none⟩ }, fun h => ?_⟩
    replace h := h.2
    rw [encodeFile_truncates (htr _ rfl)] at h
    have hone : (c.img.peek 0 Libc0.size).take 1 = [c.img 0] := by
      rw [Mem.take_peek _ _ (by norm_num [Libc0.size])]
      rfl
    have hrun : (storeContainer ⟨true, some 1, none⟩ file c seek).1 =
        List.replicate seek 0 ++ [c.img 0] := by
      simp [storeContainer, fwrite, hone, writeAt_nil]
    rw [hrun] at h
    rcases h with h | h
    · exact absurd (h.trans hfile) (by simp)
    · exact absurd h.length_le (by simp [Libc0.size])
  · refine ⟨{ EncodeFileEnv.noZctwo with store := ⟨true, none, none⟩ }, fun h => ?_⟩
    replace h := h.2
    rw [encodeFile_truncates (htr _ rfl)] at h
    rcases h with h | h
    · exact hfile h.symm
    · exact absurd h.length_le (by simp [Libc0.size, storeContainer, fwrite])

/-! ### The theorem -/

/-- **All or nothing.**  A run of `crdeconf`, `crenconf` or `libmsx_encode_file` is all or nothing
when it does not truncate the file, or meets `CrdeconfSafe` or `StoreSafe` (`crenconf`: on the whole
file).  Over all outcomes of the steps the two programs are so exactly on the files they never
truncate, and `libmsx_encode_file` on none; each of its runs that truncates loses the bytes before
the seek offset. -/
theorem conversion_all_or_nothing (P : Prims) (hP : P.Lawful) :
    (∀ env file keys, (∀ c, CrdeconfTruncates P env file keys c → CrdeconfSafe P env file c) →
      CrdeconfAllOrNothing P env file keys) ∧
    (∀ file keys, (∀ env, CrdeconfAllOrNothing P env file keys) ↔
      ∀ env c, ¬ CrdeconfTruncates P env file keys c) ∧
    (∀ env file keys, (∀ inp c, CrenconfTruncates P env file keys inp c →
        inp = file ∧ StoreSafe P env.encode env.store file file c 0) →
      CrenconfAllOrNothing P env file keys) ∧
    (∀ file keys, (∀ env, CrenconfAllOrNothing P env file keys) ↔
      ∀ env inp c, ¬ CrenconfTruncates P env file keys inp c) ∧
    (∀ env file inp keys seek, (∀ c, EncodeFileTruncates P env inp keys c →
        StoreSafe P env.encode env.store file inp c seek) →
      EncodeFileAllOrNothing P env file inp keys seek) ∧
    (∀ env file inp keys seek c, EncodeFileTruncates P env inp keys c →
      EncodeFileAllOrNothing P env file inp keys seek → ∀ x ∈ file.take seek, x = 0) ∧
    ∀ file inp keys seek, ∃ env, ¬ EncodeFileAllOrNothing P env file inp keys seek :=
  ⟨fun _ _ _ => crdeconf_safe, crdeconf_always_iff P, fun _ _ _ => crenconf_safe hP,
    crenconf_always_iff P, fun _ _ _ _ _ => encodeFile_safe hP,
    fun _ _ _ _ _ _ hc h => encodeFile_zero_before hc h.2, encodeFile_not_always hP⟩

theorem encodeFile_full_truncates {P : Prims} (hP : P.Lawful) {inp : List UInt8} {keys : Mem}
    {c : Libc0} (hne : inp ≠ []) (hlen : inp.length < 2 ^ 32)
    (h : (libmsxEncode P EncodeEnv.zero inp keys 0).1 = some c) :
    EncodeFileTruncates P EncodeFileEnv.full inp keys c := by
  obtain ⟨n, hn⟩ : ∃ n, libmsxEncode P EncodeEnv.zero inp keys 0 = (some c, n) := ⟨_, Prod.ext h rfl⟩
  refine ⟨rfl, ⟨n, hn, ?_⟩, rfl, rfl, rfl⟩
  obtain ⟨c', hc', hrun⟩ := libmsxEncode_ok hP Mem.zero (Vector.replicate 8 0) Mem.zero Mem.zero Mem.zero
    (0, 0) keys 0 hne hlen
  have hlength : n = u32 (c'.number + Libc0.size) := congrArg Prod.snd (hn.symm.trans hrun)
  rw [hlength]
  exact hc'.length_ne_zero

/-- `conversion_all_or_nothing` for `sampleText` stored at the start of a file of one byte. -/
theorem conversion_all_or_nothing_sampleText : EncodeFileAllOrNothing samplePrims EncodeFileEnv.full
    [0x41] sampleText (passphrase samplePassword Mem.zero) 0 := by
  refine (conversion_all_or_nothing samplePrims samplePrims_lawful).2.2.2.2.1 _ _ _ _ _ fun c hc => ?_
  obtain ⟨n, henc, -⟩ := hc.encoded
  have hmade := libmsxEncode_made samplePrims_lawful henc ⟨rfl, rfl, rfl⟩
    (show sampleText ≠ [] by decide) (by decide)
  have hfull : Transfer.Full (some maxTransfer) := ⟨_, rfl, le_rfl⟩
  exact ⟨by decide, sampleText_fitsBlocks, ⟨rfl, rfl, rfl⟩, recovers_of_fits samplePrims_lawful (by decide),
    hfull.header, hmade.covers hfull, by simp⟩

/-- With every step successful, a container stored at offset `1` destroys the byte before it. -/
theorem encodeFile_loses_prefix :
    EncodeInBounds samplePrims EncodeEnv.zero sampleText (passphrase samplePassword Mem.zero) ∧
    ¬ ((libmsxEncodeFile samplePrims EncodeFileEnv.full [0x41] sampleText
        (passphrase samplePassword Mem.zero) 1).1 = [0x41] ∨
      HoldsContainer samplePrims sampleText (passphrase samplePassword Mem.zero) 1 [0x41]
        (libmsxEncodeFile samplePrims EncodeFileEnv.full [0x41] sampleText
          (passphrase samplePassword Mem.zero) 1).1) := by
  obtain ⟨c, hc⟩ := libmsxEncode_zero samplePrims sampleText (passphrase samplePassword Mem.zero)
  have htr := encodeFile_full_truncates samplePrims_lawful
    (show sampleText ≠ [] by decide) (by decide) hc
  have hbounds := encodeInBounds_iff samplePrims_lawful EncodeFileEnv.full_succeeds.encode
    (passphrase samplePassword Mem.zero) (show sampleText ≠ [] by decide) (by decide)
  exact ⟨hbounds.mpr sampleText_fitsBlocks,
    fun h => absurd (encodeFile_zero_before htr h 0x41 (by simp)) (by decide)⟩

end Carroll
