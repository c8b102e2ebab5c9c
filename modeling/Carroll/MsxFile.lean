import Carroll.File
import Carroll.Msx

/-! # Containers in files

`libmsx_encode_file` and `libmsx_decode_file` of `zfile.c`.  A container in a file is the image of
its `libc0_t` at the seek offset, followed by the `number` bytes of its body.

`libmsx_encode_file` truncates the file to nothing before it writes, so that the bytes before the
seek offset become zeros.  `libmsx_decode_file` first reads the whole file into a block and looks
for `MSX` in it; when that fails it jumps to the end with the block still in `buffer`, and
returns it (`libmsxDecodeFile_cases`). -/

namespace Carroll

/-- Outcome of the steps that store a container: `ftruncate` and the two writes. -/
structure StoreEnv where
  ftruncate : Bool
  header : Transfer
  body : Transfer

/-- Truncate the file and write the container `c` at `seek`: the file afterwards, and whether all
steps succeeded. -/
def storeContainer (env : StoreEnv) (file : List UInt8) (c : Libc0) (seek : ℕ) : List UInt8 × Bool :=
  if !env.ftruncate then (file, false)
  else
    match fwrite [] seek (c.img.peek 0 Libc0.size) env.header with
    | (file, false) => (file, false)
    | (file, true) => fwrite file (seek + Libc0.size) (c.buffer.peek 0 c.number) env.body

/-- Outcome of the steps that load a container: two allocations and two reads. -/
structure LoadEnv where
  ctx : Option Mem
  header : Transfer
  body : Option Mem
  content : Transfer

/-- Read a container at `seek`. -/
def loadContainer (env : LoadEnv) (file : List UInt8) (seek : ℕ) : Option Libc0 :=
  match env.ctx, fread file seek Libc0.size env.header, env.body with
  | some ctx, some header, some body =>
      let img := ctx.poke 0 header
      let number := img.get32 232
      match fread file (seek + Libc0.size) number env.content with
      | some content => some ⟨img, body.poke 0 content⟩
      | none => none
  | _, _, _ => none

/-- Outcome of the steps of `libmsx_encode_file`. -/
structure EncodeFileEnv where
  opened : Bool
  encode : EncodeEnv
  fchmod : Bool
  fstat : Bool
  store : StoreEnv

/-- All steps of `libmsx_encode_file` succeed, with zeroed blocks. -/
def EncodeFileEnv.full : EncodeFileEnv :=
  ⟨true, EncodeEnv.zero, true, true, ⟨true, some maxTransfer, some maxTransfer⟩⟩

/-- `libmsx_encode_file(file, buf, len, keys, seek)`: the file afterwards and the return value. -/
def libmsxEncodeFile (P : Prims) (env : EncodeFileEnv) (file inp : List UInt8) (keys : Mem)
    (seek : ℕ) : List UInt8 × Bool :=
  if !env.opened then (file, false)
  else
    match libmsxEncode P env.encode inp keys 0 with
    | (none, _) => (file, false)
    | (some c, length) =>
        if length = 0 then (file, false)
        else if !env.fchmod then (file, false)
        else if !env.fstat then (file, false)
        else storeContainer env.store file c seek

/-- Outcome of the steps of `libmsx_decode_file`. -/
structure DecodeFileEnv where
  opened : Bool
  fstat : Bool
  buffer : Option Mem
  read : Transfer
  load : LoadEnv
  decode : MsxDecodeEnv
  fchmod : Bool

/-- `get_filesize(fd)`. -/
def getFilesize (fstat : Bool) (file : List UInt8) : ℕ := if fstat then u32 file.length else 0

/-- `libmsx_decode_file(file, len, keys, seek)`: the returned block and `*len`, which held `len`
before.  The block of `length` bytes has three more at its end (`emalloc`). -/
def libmsxDecodeFile (P : Prims) (env : DecodeFileEnv) (file : List UInt8) (len : ℕ) (keys : Mem)
    (seek : ℕ) : Option Mem × ℕ :=
  if !env.opened then (none, len)
  else
    let length := getFilesize env.fstat file
    match env.buffer with
    | none => (none, len)
    | some buffer =>
        match fread file seek length env.read with
        | none => (some buffer, len)
        | some data =>
            let buffer := buffer.poke 0 data
            if !strstr (buffer.peek 0 (length + 3)) msxMagic then (some buffer, len)
            else
              match loadContainer env.load file seek with
              | none => (none, len)
              | some c =>
                  match libmsxDecode P env.decode c keys length with
                  | (none, _) => (none, len)
                  | (some buffer, length) =>
                      if length = 0 then (some buffer, len)
                      else if !env.fchmod then (some buffer, len)
                      else (some buffer, c.maxinum)

/-- The accesses of reading the body of `c` into a block of `number + 4` bytes and of decoding it. -/
def decodeAccesses (P : Prims) (env : MsxDecodeEnv) (c : Libc0) (keys : Mem) : List Access :=
  let body := emallocSize (c.number + 4)
  ⟨body, 0, c.number⟩ ::
    if (libmsxDecode P env c keys 0).1.isNone then [] else libc0DecryptAccesses P env.decrypt c body

/-- `CLEAN(ctx->buffer)` at the end of `libmsx_decode_file` when no container was loaded: without a
header the address is whatever the block held. -/
def loadCleanup (env : LoadEnv) (file : List UInt8) (seek : ℕ) : List Access :=
  match env.ctx, fread file seek Libc0.size env.header with
  | some ctx, none => Access.cleanUnset (Libc0.bufferAddr ctx)
  | _, _ => []

/-- The accesses of `libmsx_decode_file` to its blocks. -/
def libmsxDecodeFileAccesses (P : Prims) (env : DecodeFileEnv) (file : List UInt8) (keys : Mem)
    (seek : ℕ) : List Access :=
  let length := getFilesize env.fstat file
  match env.opened, env.buffer, fread file seek length env.read with
  | true, some buffer, some data =>
      let buffer := buffer.poke 0 data
      ⟨emallocSize length, 0, data.length⟩ ::
        if !strstr (buffer.peek 0 (length + 3)) msxMagic then
          [Access.string (emallocSize length) buffer]
        else
          match loadContainer env.load file seek with
          | none => loadCleanup env.load file seek
          | some c => decodeAccesses P env.decode c keys
  | _, _, _ => []

/-! ### Stored containers -/

/-- The header and the body of a container, as they are stored. -/
def Libc0.bytes (c : Libc0) : List UInt8 := c.img.peek 0 Libc0.size ++ c.buffer.peek 0 c.number

theorem storeContainer_full {env : StoreEnv} {c : Libc0} (hcut : env.ftruncate = true)
    (hh : env.header.Covers Libc0.size) (hb : env.body.Covers c.number) (file : List UInt8) (seek : ℕ)
    (hpos : 0 < c.number) :
    storeContainer env file c seek = (List.replicate seek 0 ++ c.bytes, true) := by
  have hhead : c.img.peek 0 Libc0.size ≠ [] := c.img.peek_ne_nil 0 (Nat.succ_pos _)
  have hbody : c.buffer.peek 0 c.number ≠ [] := c.buffer.peek_ne_nil 0 hpos
  have hlen : (List.replicate seek 0 ++ c.img.peek 0 Libc0.size).length = seek + Libc0.size := by
    simp
  have hfirst := fwrite_full [] seek (by simpa using hh) hhead
  have hsecond := fwrite_full (List.replicate seek 0 ++ c.img.peek 0 Libc0.size)
    (seek + Libc0.size) (by simpa using hb) hbody
  unfold storeContainer
  rw [hcut, hfirst, writeAt_nil _ hhead]
  dsimp only
  rw [hsecond, ← hlen, writeAt_end, Libc0.bytes, List.append_assoc]
  rfl

theorem length_bytes (c : Libc0) : c.bytes.length = Libc0.size + c.number := by
  rw [Libc0.bytes, List.length_append, Mem.length_peek, Mem.length_peek]

theorem bytes_ne_nil (c : Libc0) : c.bytes ≠ [] := by
  rw [← List.length_pos_iff, length_bytes]
  exact Nat.add_pos_left (Nat.succ_pos _) _

/-- A stored container is loaded again. -/
theorem loadContainer_full (ctx body : Mem) {header content : Transfer} {c : Libc0}
    (hh : header.Covers Libc0.size) (hc : content.Covers c.number) (seek : ℕ) (hpos : 0 < c.number) :
    ∃ c', loadContainer ⟨some ctx, header, some body, content⟩
      (List.replicate seek 0 ++ c.bytes) seek = some c' ∧ SameContainer c c' := by
  have hhead : c.img.peek 0 Libc0.size ≠ [] := c.img.peek_ne_nil 0 (Nat.succ_pos _)
  have hbody : c.buffer.peek 0 c.number ≠ [] := c.buffer.peek_ne_nil 0 hpos
  have hread₁ : fread (List.replicate seek 0 ++ c.bytes) seek Libc0.size header =
      some (c.img.peek 0 Libc0.size) := by
    have := fread_part (List.replicate seek 0) (c.buffer.peek 0 c.number) (by simpa using hh) hhead
    rwa [List.length_replicate, Mem.length_peek, List.append_assoc] at this
  have hread₂ : fread (List.replicate seek 0 ++ c.bytes) (seek + Libc0.size) c.number content =
      some (c.buffer.peek 0 c.number) := by
    have := fread_part (List.replicate seek 0 ++ c.img.peek 0 Libc0.size) [] (by simpa using hc) hbody
    rwa [List.length_append, List.length_replicate, Mem.length_peek, Mem.length_peek,
      List.append_nil, List.append_assoc] at this
  have hsame := SameContainer.poke c ctx body
  have hget : (ctx.poke 0 (c.img.peek 0 Libc0.size)).get32 232 = c.number := hsame.number
  refine ⟨_, ?_, hsame⟩
  unfold loadContainer
  rw [hread₁]
  dsimp only
  rw [hget, hread₂]

theorem Transfer.Covers.header {t : Transfer} (h : t.Full) : t.Covers Libc0.size :=
  h.mono (by norm_num [Libc0.size, maxTransfer])

section made
variable {P : Prims} {inp : List UInt8} {keys : Mem} {c : Libc0}

theorem Made.covers (h : Made P inp keys c) {t : Transfer} (ht : t.Full) : t.Covers c.number :=
  ht.mono (h.number_bounds.2.trans (by norm_num [maxTransfer]))

theorem Made.storeContainer (h : Made P inp keys c) {header body : Transfer} (hh : header.Full)
    (hb : body.Full) (file : List UInt8) (seek : ℕ) :
    storeContainer ⟨true, header, body⟩ file c seek = (List.replicate seek 0 ++ c.bytes, true) :=
  storeContainer_full rfl hh.header (h.covers hb) file seek h.number_pos

end made

/-! ### The exits of `libmsx_decode_file` -/

/-- The whole file was read into the block and holds the magic. -/
def ReadsMagic (env : DecodeFileEnv) (file : List UInt8) (seek : ℕ) : Prop :=
  ∃ buffer data, env.buffer = some buffer ∧
    fread file seek (getFilesize env.fstat file) env.read = some data ∧
    strstr ((buffer.poke 0 data).peek 0 (getFilesize env.fstat file + 3)) msxMagic = true

/-- The four ways through `libmsx_decode_file`. -/
theorem libmsxDecodeFile_cases (P : Prims) (env : DecodeFileEnv) (file : List UInt8) (n₀ : ℕ)
    (keys : Mem) (seek : ℕ) :
    (¬ (env.opened = true ∧ env.buffer.isSome) ∧
      libmsxDecodeFile P env file n₀ keys seek = (none, n₀)) ∨
    (env.opened = true ∧ env.buffer.isSome ∧ ¬ ReadsMagic env file seek ∧
      ∃ b, libmsxDecodeFile P env file n₀ keys seek = (some b, n₀)) ∨
    (env.opened = true ∧ ReadsMagic env file seek ∧ loadContainer env.load file seek = none ∧
      libmsxDecodeFile P env file n₀ keys seek = (none, n₀)) ∨
    (env.opened = true ∧ ReadsMagic env file seek ∧ ∃ c, loadContainer env.load file seek = some c ∧
      (libmsxDecodeFile P env file n₀ keys seek).1 =
        (libmsxDecode P env.decode c keys (getFilesize env.fstat file)).1 ∧
      ((libmsxDecodeFile P env file n₀ keys seek).2 = n₀ ∨
        (libmsxDecodeFile P env file n₀ keys seek).2 = c.maxinum)) := by
  unfold libmsxDecodeFile
  dsimp only
  cases hopen : env.opened with
  | false => exact .inl ⟨by simp, by simp⟩
  | true =>
  simp only [Bool.not_true, Bool.false_eq_true, ↓reduceIte, true_and]
  cases hbuf : env.buffer with
  | none => exact .inl ⟨by simp, rfl⟩
  | some buffer =>
  refine .inr ?_
  simp only [Option.isSome_some, true_and]
  cases hread : fread file seek (getFilesize env.fstat file) env.read with
  | none =>
      exact .inl ⟨fun ⟨_, data, _, hdata, _⟩ => by simp [hread] at hdata, buffer, rfl⟩
  | some data =>
  dsimp only
  cases hstr : strstr ((buffer.poke 0 data).peek 0 (getFilesize env.fstat file + 3)) msxMagic with
  | false =>
      refine .inl ⟨?_, buffer.poke 0 data, by simp⟩
      rintro ⟨buffer', data', hb', hd', hs'⟩
      obtain rfl := Option.some.inj (hbuf.symm.trans hb')
      obtain rfl := Option.some.inj (hread.symm.trans hd')
      exact absurd (hstr.symm.trans hs') Bool.false_ne_true
  | true =>
  have hmagic : ReadsMagic env file seek := ⟨buffer, data, hbuf, hread, hstr⟩
  refine .inr ?_
  simp only [hmagic, Bool.not_true, Bool.false_eq_true, ↓reduceIte, true_and]
  cases hload : loadContainer env.load file seek with
  | none => exact .inl ⟨rfl, rfl⟩
  | some c =>
  refine .inr ⟨c, rfl, ?_⟩
  dsimp only
  cases hdec : libmsxDecode P env.decode c keys (getFilesize env.fstat file) with
  | mk b length =>
  cases b with
  | none => exact ⟨rfl, .inl rfl⟩
  | some b =>
  dsimp only
  split_ifs
  · exact ⟨rfl, .inl rfl⟩
  · exact ⟨rfl, .inl rfl⟩
  · exact ⟨rfl, .inr rfl⟩

end Carroll
