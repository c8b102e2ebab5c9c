import Carroll.Alloc
import Carroll.Cstring
import Carroll.Search

/-! # Setting up and unloading a module (`bcdx` and `dbi0`)

A module is a template: `FMOD_ALLOC` makes a `struct mod_struct_t` with the configured directory,
`FMOD_INIT` makes a path from it and assigns seven function pointers, `FMOD_CTRL` and `FMOD_EXIT` call
some of these when they are not `NULL`, and `FMOD_EXIT` frees the struct.

* A `void *` that is only stored is a number, and so is a service.
* `char szdir[256]` of `FMOD_INIT` holds anything at first; the byte in front of it is read when the
  string in it is empty.
* What is called of the rest of the program is a list of events: `libcrt_snupdate`, the thread of
  `bcdx`, `mod_post`, and `search` with the files that it gives to its callback, which does nothing.
  To search a directory that cannot be opened is undefined: `find_init` returns no value, and
  `find_next` reads from what was in the register.  The allocations of `search` succeed.
* A control comes with the argument that its flag is for.
* The digest of the time, the `path_file` of `bcdx`, which nothing writes, and what the thread does
  while the module is unloaded are left out. -/

namespace Carroll
open Alloc Buffers

namespace ModSetup

/-- The functions of the two libraries, by library: a pointer `exit` to `bcd` is `bcd_libmod_exit`. -/
inductive Libmod where
  | bcd
  | d00
deriving DecidableEq, Repr

/-- The directories of a `zconfig_server_t`; a string is `NULL`, without a buffer, or set. -/
structure DirConfig where
  szdir : Option (Option CString)
  mydata : Option (Option CString)

/-- `struct mod_struct_t`. -/
structure ModStruct where
  fdev : CPtr ℕ
  name : CPtr ℕ
  szdir : CPtr ℕ
  object : ℕ
  handle : ℕ
  process : ℕ
  system : ℕ
  service : ℕ
  config : CPtr DirConfig
  init : CPtr Libmod
  exit : CPtr Libmod
  find : CPtr Libmod
  xread : CPtr Libmod
  xwrite : CPtr Libmod
  xfree : CPtr Libmod
  update : CPtr Libmod

/-- `struct data_struct_t`. -/
structure DataStruct where
  xdev : CPtr ℕ
  stack : CPtr ℕ
  nbase : ℕ
  addr : CPtr ℕ

/-- A block of memory. -/
inductive ModBlock where
  | mod (b : ModStruct)
  | data (b : DataStruct)
  | str (s : List UInt8)
  | zeros

/-- The blocks that are a `struct mod_struct_t`. -/
def modKind : Kind ModBlock ModStruct where
  get | .mod b => some b | _ => none
  put := .mod
  get_put _ := rfl

/-- The blocks that are a `struct data_struct_t`. -/
def dataKind : Kind ModBlock DataStruct where
  get | .data b => some b | _ => none
  put := .data
  get_put _ := rfl

/-- The blocks that hold a string. -/
def strKind : Kind ModBlock (List UInt8) where
  get | .str s => some s | _ => none
  put := .str
  get_put _ := rfl

namespace ModStruct

/-- A `struct mod_struct_t` as `malloc` returns it. -/
def ofWords (w : ℕ → ℕ) : ModStruct :=
  ⟨.ofWord (w 0), .ofWord (w 1), .ofWord (w 2), w 3, w 4, w 5, w 6, w 7 % 256, .ofWord (w 8),
    .ofWord (w 9), .ofWord (w 10), .ofWord (w 11), .ofWord (w 12), .ofWord (w 13), .ofWord (w 14),
    .ofWord (w 15)⟩

/-- `ptr->szdir`. -/
def szdirField : PtrField ModStruct := ⟨szdir, fun q b => { b with szdir := q }, fun _ => rfl⟩

/-- `ptr->name`. -/
def nameField : PtrField ModStruct := ⟨name, fun q b => { b with name := q }, fun _ => rfl⟩

/-- `ptr->fdev`. -/
def fdevField : PtrField ModStruct := ⟨fdev, fun q b => { b with fdev := q }, fun _ => rfl⟩

/-- `HANDLE_MOD_INIT`. -/
def handleModInit (stack : ℕ) (p : ModStruct) : ModStruct :=
  { p with
    szdir := .null, name := .null, fdev := .null, handle := stack, object := 0, process := 0,
    system := 0, service := 0 }

/-- The seven assignments of `FMOD_INIT`. -/
def setLibmod (lib : Libmod) (p : ModStruct) : ModStruct :=
  { p with
    init := .ref lib, exit := .ref lib, update := .ref lib, find := .ref lib, xread := .ref lib,
    xwrite := .ref lib, xfree := .ref lib }

end ModStruct

namespace DataStruct

/-- `data_ext->stack`. -/
def stackField : PtrField DataStruct := ⟨stack, fun q b => { b with stack := q }, fun _ => rfl⟩

/-- `data_ext->addr`. -/
def addrField : PtrField DataStruct := ⟨addr, fun q b => { b with addr := q }, fun _ => rfl⟩

/-- `data_ext->xdev`. -/
def xdevField : PtrField DataStruct := ⟨xdev, fun q b => { b with xdev := q }, fun _ => rfl⟩

/-- A `struct data_struct_t` as `malloc` returns it. -/
def ofWords (w : ℕ → ℕ) : DataStruct := ⟨.ofWord (w 0), .ofWord (w 1), u32 (w 2), .ofWord (w 3)⟩

end DataStruct

/-- What a module calls of the rest of the program. -/
inductive ModEvent where
  | snupdate (name : Option (List UInt8))
  | threadCreate
  | threadUpdate (stack pid : ℕ)
  | threadClose (stack pid : ℕ)
  | search (path : List UInt8) (calls : List Search.Visit)
  | modPost (stack : ℕ) (find : String) (ctrl : ℕ)
deriving DecidableEq, Repr

/-- The heap, the global variables of a module, and what it called. -/
structure ModSystem where
  heap : Store ModBlock
  modExt : CPtr ℕ
  dataExt : CPtr ℕ
  pathFile : CharArray 256
  bcdxState : ℕ
  stackCoreState : ℕ
  events : List ModEvent

/-- What the program finds: the allocator, `char szdir[256]` and the byte in front of it, the directory
at a path with what is below it, unless it cannot be opened, and what `old_dir` of `search` holds. -/
structure ModEnv extends Allocator where
  szdir : CharArray 256
  before : UInt8
  dir : Search.Path → Option (Search.DirMode × Search.Entries)
  oldDir : Search.Path → Search.Path

/-- `search(path, …)`: the files that are given to the callback. -/
def ModEnv.search (e : ModEnv) (path : List UInt8) : Option (List Search.Visit) :=
  (e.dir path).bind fun d => Search.search e.oldDir path d.1 d.2

namespace ModSystem

/-- A call of the rest of the program. -/
def call (s : ModSystem) (e : ModEvent) : ModSystem := { s with events := s.events ++ [e] }

end ModSystem

/-- `libcrt_new_str(str)`. -/
def libcrtNewStr (a : Allocator) (str : Option (List UInt8)) (h : Store ModBlock) :
    CPtr ℕ × Store ModBlock :=
  match str with
  | none => (.null, h)
  | some s => h.malloc a fun _ => .str s

/-- `cstring_str(ptr)`. -/
def cstringStr (ptr : Option (Option CString)) : Option (Option (List UInt8)) :=
  ptr.map fun buffer => buffer.map CString.bytes

/-- The string at `p`, or `NULL`. -/
def readStr (h : Store ModBlock) (p : CPtr ℕ) : Option (Option (List UInt8)) :=
  if p = .null then some none else (h.get strKind p).map some

/-! ### The libraries -/

/-- `BCDX_CERT_VERIFY_VERSION`. -/
def bcdxCertVerifyVersion : ℕ := 0x1000

/-- `bcd_libmod_init`. -/
def bcdLibmodInit (extPtr : CPtr ℕ) (s : ModSystem) : Option ModSystem :=
  if extPtr = .null then some s
  else
    (s.heap.get modKind extPtr).map fun ext =>
      ({ s with bcdxState := 1 }.call .threadCreate).call
        (.threadUpdate ext.handle bcdxCertVerifyVersion)

/-- `bcd_libmod_exit`. -/
def bcdLibmodExit (extPtr : CPtr ℕ) (s : ModSystem) : Option ModSystem := do
  let s ← if extPtr = .null then some s
    else (s.heap.get modKind extPtr).map fun ext =>
      s.call (.threadClose ext.handle bcdxCertVerifyVersion)
  return { s with bcdxState := 0 }

/-- `d00_libmod_exit`. -/
def d00LibmodExit (s : ModSystem) : Option ModSystem := do
  if s.dataExt = .null then return s
  let h ← s.heap.release dataKind s.dataExt DataStruct.stackField
  let h ← h.release dataKind s.dataExt DataStruct.addrField
  let h ← h.free s.dataExt
  return { s with heap := h, dataExt := .null }

/-- `"/base/proc/0"`. -/
def baseProc : List UInt8 := [0x2f, 0x62, 0x61, 0x73, 0x65, 0x2f, 0x70, 0x72, 0x6f, 0x63, 0x2f, 0x30]

/-- The allocations of `d00_libmod_init`. -/
def d00Alloc (a : Allocator) (s : ModSystem) : Option ModSystem := do
  let (dataExt, h) := s.heap.malloc a fun w => .data (.ofWords w)
  let s := { s with heap := h, dataExt := dataExt }
  if dataExt = .null then d00LibmodExit s
  else
    let h ← h.modify dataKind dataExt fun _ => ⟨.null, .null, 0, .null⟩
    let (xdev, h) := libcrtNewStr a (some baseProc) h
    let h ← h.modify dataKind dataExt (DataStruct.xdevField.set xdev)
    let (stack, h) := h.malloc a fun _ => .zeros
    let h ← h.modify dataKind dataExt (DataStruct.stackField.set stack)
    if stack = .null then d00LibmodExit { s with heap := h }
    else
      let (addr, h) := h.malloc a fun _ => .zeros
      let h ← h.modify dataKind dataExt (DataStruct.addrField.set addr)
      if addr = .null then d00LibmodExit { s with heap := h } else some { s with heap := h }

/-- `d00_libmod_init`. -/
def d00LibmodInit (e : ModEnv) (pathDev : CharArray 256) (s : ModSystem) : Option ModSystem := do
  let path ← pathDev.str
  let pathFile ← s.pathFile.strcpy path
  let calls ← e.search path
  d00Alloc e.toAllocator ({ s with pathFile := pathFile }.call (.search path calls))

namespace Libmod

/-- The functions that an `init` points to. -/
def init (e : ModEnv) (pathDev : CharArray 256) (extPtr : CPtr ℕ) (s : ModSystem) :
    Libmod → Option ModSystem
  | .bcd => bcdLibmodInit extPtr s
  | .d00 => d00LibmodInit e pathDev s

/-- The functions that an `exit` points to. -/
def exit (extPtr : CPtr ℕ) (s : ModSystem) : Libmod → Option ModSystem
  | .bcd => bcdLibmodExit extPtr s
  | .d00 => d00LibmodExit s

/-- The functions that an `update` points to do nothing. -/
def update (_buffer : List UInt8) (s : ModSystem) : Libmod → ModSystem
  | .bcd => s
  | .d00 => s

end Libmod

/-! ### The template -/

/-- `FMOD_ALLOC`. -/
def fmodAlloc (name : List UInt8) (a : Allocator) (stack : ℕ) (config : DirConfig)
    (s : ModSystem) : Option (CPtr ℕ × ModSystem) := do
  let (ptr, h) := s.heap.malloc a fun w => .mod (.ofWords w)
  if ptr = .null then return (ptr, { s with heap := h })
  let h ← h.modify modKind ptr (ModStruct.handleModInit stack)
  let h ← h.modify modKind ptr fun p => { p with config := .ref config }
  let dir ← cstringStr config.szdir
  let (szdir, h) := libcrtNewStr a dir h
  let h ← h.modify modKind ptr (ModStruct.szdirField.set szdir)
  let (name, h) := libcrtNewStr a (some name) h
  let h ← h.modify modKind ptr (ModStruct.nameField.set name)
  return (ptr, { s with heap := h })

/-- `FMOD_INIT`, with the path that is made for the library. -/
def fmodInit (lib : Libmod) (path : ModStruct → ModSystem → Option (CharArray 256)) (e : ModEnv)
    (ptr : CPtr ℕ) (s : ModSystem) : Option ModSystem := do
  let s := { s with modExt := ptr }
  if s.modExt = .null then return s
  let p ← s.heap.get modKind ptr
  if p.szdir = .null then return s
  let szdir ← path p s
  let h ← s.heap.modify modKind s.modExt (ModStruct.setLibmod lib)
  let s := { s with heap := h }
  let ext ← s.heap.get modKind s.modExt
  let s ← if ext.init = .null then some s
    else ext.init.deref.bind fun lib => lib.init e szdir ptr s
  let p ← s.heap.get modKind ptr
  let name ← readStr s.heap p.name
  return s.call (.snupdate name)

/-- `HANDLE_MOD_EXIT`. -/
def handleModExit (p : CPtr ℕ) (h : Store ModBlock) : Option (Store ModBlock) := do
  if p = .null then return h
  let h ← h.release modKind p ModStruct.szdirField
  let h ← h.release modKind p ModStruct.nameField
  let h ← h.release modKind p ModStruct.fdevField
  h.free p

/-- `FMOD_EXIT`. -/
def fmodExit (ptr : CPtr ℕ) (s : ModSystem) : Option ModSystem := do
  let s ← if ptr = .null then some s
    else (s.heap.get modKind ptr).bind fun p =>
      if p.exit = .null then some s else p.exit.deref.bind fun lib => lib.exit ptr s
  let h ← handleModExit ptr s.heap
  return { s with heap := h }

/-! ### Controls -/

/-- `struct cargv_stack_t`, with its pointers as numbers. -/
structure Cargv where
  code : ℕ
  core : ℕ
  object : ℕ
deriving DecidableEq, Repr

/-- `struct mod_desc_t`. -/
structure ModDesc where
  name : String
  desc : String
  interface : String
  service : ℕ
  hardware : ℕ
  bus : ℕ
  serial : ℕ
deriving DecidableEq, Repr

/-- The flag of a control, and what its argument points to (`none` for `NULL`). -/
inductive Ctrl where
  | read
  | write
  | update (hdc : Option Cargv)
  | append (buffer : Option (List UInt8))
  | search (argv1 : ℕ)
  | result (str : Option Cargv)
  | send (hdc : Option Cargv)
  | insert (argv2 : ℕ)
  | desc (mod : Option ModDesc)
  | service (argv0 : ℕ)
  | other (flags : ℕ)
deriving DecidableEq, Repr

/-- `STACK_UPDATE`. -/
def stackUpdate : ℕ := 3

/-- `STACK_SEARCH`. -/
def stackSearch : ℕ := 5

/-- `STACK_RESULT`. -/
def stackResult : ℕ := 6

/-- `STACK_SEND`. -/
def stackSend : ℕ := 7

/-- `mod_new(mod, &mod_desc)`. -/
def modNew (mod : Option ModDesc) (str : ModDesc) : Option ModDesc := mod.map fun _ => str

namespace Bcdx

/-- `mod_desc`. -/
def modDesc : ModDesc := ⟨"bcdx", "brain", "interfaces/bcd/00", 0x0000, 0x0032, 0x00, 0x000000bc⟩

/-- `"/cache.dat"`. -/
def cacheDat : List UInt8 := [0x2f, 0x63, 0x61, 0x63, 0x68, 0x65, 0x2e, 0x64, 0x61, 0x74]

/-- `"/bcdx/handle"`. -/
def handleName : List UInt8 := [0x2f, 0x62, 0x63, 0x64, 0x78, 0x2f, 0x68, 0x61, 0x6e, 0x64, 0x6c, 0x65]

/-- `FMOD_ALLOC`. -/
def alloc (e : ModEnv) (stack : ℕ) (config : DirConfig) (s : ModSystem) :
    Option (CPtr ℕ × ModSystem) :=
  fmodAlloc handleName e.toAllocator stack config s

/-- The path of `FMOD_INIT`: the directory and `/cache.dat`. -/
def path (e : ModEnv) (p : ModStruct) (s : ModSystem) : Option (CharArray 256) := do
  let dir ← s.heap.get strKind p.szdir
  let szdir ← e.szdir.strcpy dir
  szdir.strcat cacheDat

/-- `FMOD_INIT`. -/
def init (e : ModEnv) (ptr : CPtr ℕ) (s : ModSystem) : Option ModSystem :=
  fmodInit .bcd (path e) e ptr s

/-- `FMOD_EXIT`. -/
def exit (ptr : CPtr ℕ) (s : ModSystem) : Option ModSystem := fmodExit ptr s

/-- Rewrite the struct. -/
def setMod (ptr : CPtr ℕ) (c : Ctrl) (s : ModSystem) (f : ModStruct → ModStruct) :
    Option (ℕ × Ctrl × ModSystem) :=
  (s.heap.modify modKind ptr f).map fun h => (0, c, { s with heap := h })

/-- `FMOD_CTRL`: the result, the control with its argument afterwards, and the state. -/
def ctrl (ptr : CPtr ℕ) (c : Ctrl) (s : ModSystem) : Option (ℕ × Ctrl × ModSystem) :=
  if ptr = .null then some (0, c, s)
  else
    match c with
    | .service argv0 => setMod ptr c s fun p => { p with service := argv0 % 256 }
    | .append buffer => do
        let p ← s.heap.get modKind ptr
        if p.update = .null then return (0, c, s)
        let lib ← p.update.deref
        -- the length of the string is computed before the call
        let buffer ← buffer
        return (0, c, lib.update buffer s)
    | .insert argv2 => setMod ptr c s fun p => { p with system := argv2 }
    | .search argv1 => setMod ptr c s fun p => { p with process := argv1 }
    | .update (some hdc) =>
        some (0, c, (((s.call (.modPost hdc.object "cor0" stackUpdate)).call
          (.modPost hdc.object "cor0" stackResult)).call
          (.modPost hdc.object "dbi0" stackSearch)).call (.modPost hdc.object "dbi0" stackResult))
    | .send (some hdc) =>
        some (0, c, ((s.call (.modPost hdc.object "dbo0" stackSearch)).call
          (.modPost hdc.object "dbo0" stackResult)).call (.modPost hdc.object "dbo0" stackSend))
    | .desc mod => some (0, .desc (modNew mod modDesc), s)
    | _ => some (0, c, s)

end Bcdx

namespace Dbi0

/-- `mod_desc`. -/
def modDesc : ModDesc :=
  ⟨"dbi", "controls database input", "interfaces/dbi/00", 0x0000, 0x0032, 0x00, 0x000000bc⟩

/-- `"input"`. -/
def inputDir : List UInt8 := [0x69, 0x6e, 0x70, 0x75, 0x74]

/-- `"/data/input"`. -/
def handleName : List UInt8 := [0x2f, 0x64, 0x61, 0x74, 0x61, 0x2f, 0x69, 0x6e, 0x70, 0x75, 0x74]

/-- `FMOD_ALLOC`. -/
def alloc (e : ModEnv) (stack : ℕ) (config : DirConfig) (s : ModSystem) :
    Option (CPtr ℕ × ModSystem) :=
  fmodAlloc handleName e.toAllocator stack config s

/-- `szdir[strlen(szdir)-1] != '/'`. -/
def lacksSlash (e : ModEnv) (dir : List UInt8) : Bool := dir.getLast?.getD e.before ≠ 0x2f

/-- A slash at the end, unless there is one. -/
def addSlash (e : ModEnv) (szdir : CharArray 256) : Option (CharArray 256) :=
  szdir.str.bind fun dir => if lacksSlash e dir then szdir.strcat [0x2f] else some szdir

/-- The path of `FMOD_INIT`: the data directory with a slash, and `input`. -/
def path (e : ModEnv) (p : ModStruct) (_s : ModSystem) : Option (CharArray 256) := do
  let config ← p.config.deref
  let mydata ← cstringStr config.mydata
  -- `strcpy` reads the string
  let dir ← mydata
  let szdir ← e.szdir.strcpy dir
  let szdir ← addSlash e szdir
  szdir.strcat inputDir

/-- `FMOD_INIT`. -/
def init (e : ModEnv) (ptr : CPtr ℕ) (s : ModSystem) : Option ModSystem :=
  fmodInit .d00 (path e) e ptr s

/-- `FMOD_EXIT`, which calls `libdbi_poweroff` first. -/
def exit (ptr : CPtr ℕ) (s : ModSystem) : Option ModSystem := fmodExit ptr { s with stackCoreState := 0 }

/-- `FMOD_CTRL`: the result, the control with its argument afterwards, and the state. -/
def ctrl (ptr : CPtr ℕ) (c : Ctrl) (s : ModSystem) : Option (ℕ × Ctrl × ModSystem) :=
  if ptr = .null then some (0, c, s)
  else
    match c with
    | .result (some str) =>
        some (1, .result (some (if str.code ≠ 0 then { str with core := str.code } else str)), s)
    | .desc mod => some (0, .desc (modNew mod modDesc), s)
    | _ => some (0, c, s)

end Dbi0

/-! ### From `FMOD_ALLOC` to `FMOD_EXIT` -/

/-- The two modules. -/
inductive ModId where
  | bcdx
  | dbi0
deriving DecidableEq, Repr

namespace ModId

/-- `FMOD_ALLOC` of a module. -/
def alloc (e : ModEnv) (stack : ℕ) (config : DirConfig) (s : ModSystem) :
    ModId → Option (CPtr ℕ × ModSystem)
  | bcdx => Bcdx.alloc e stack config s
  | dbi0 => Dbi0.alloc e stack config s

/-- `FMOD_INIT` of a module. -/
def init (e : ModEnv) (ptr : CPtr ℕ) (s : ModSystem) : ModId → Option ModSystem
  | bcdx => Bcdx.init e ptr s
  | dbi0 => Dbi0.init e ptr s

/-- `FMOD_CTRL` of a module. -/
def ctrl (ptr : CPtr ℕ) (c : Ctrl) (s : ModSystem) : ModId → Option (ℕ × Ctrl × ModSystem)
  | bcdx => Bcdx.ctrl ptr c s
  | dbi0 => Dbi0.ctrl ptr c s

/-- `FMOD_EXIT` of a module. -/
def exit (ptr : CPtr ℕ) (s : ModSystem) : ModId → Option ModSystem
  | bcdx => Bcdx.exit ptr s
  | dbi0 => Dbi0.exit ptr s

/-- Controls, one after the other. -/
def ctrls (k : ModId) (ptr : CPtr ℕ) : List Ctrl → ModSystem → Option ModSystem
  | [], s => some s
  | c :: cs, s => (k.ctrl ptr c s).bind fun r => k.ctrls ptr cs r.2.2

/-- `FMOD_ALLOC`, `FMOD_INIT`, controls, `FMOD_EXIT`. -/
def drive (k : ModId) (e : ModEnv) (stack : ℕ) (config : DirConfig) (cs : List Ctrl)
    (s : ModSystem) : Option ModSystem :=
  (k.alloc e stack config s).bind fun r =>
    (k.init e r.1 r.2).bind fun s => (k.ctrls r.1 cs s).bind fun s => k.exit r.1 s

end ModId

/-- The module is driven and unloaded without undefined behaviour, and every block that it allocated
is freed, each once. -/
def DrivenClean (k : ModId) (e : ModEnv) (stack : ℕ) (config : DirConfig) (cs : List Ctrl)
    (s : ModSystem) : Prop :=
  ∃ s', k.drive e stack config cs s = some s' ∧ s'.heap.block = s.heap.block

end ModSetup

end Carroll
