import Carroll.Mem

/-! # The directory search

`search` of `libcrt0.c` walks a directory tree and gives the path of every file that it can open for
reading and writing to a callback.

* The tree is what the system calls show of it: `stat` and `open` follow symbolic links, and `open` for
  writing fails for a directory.  An entry is `lost` when its `stat` fails: a dangling link, or an
  entry of a directory without search permission.  Nothing under it can be opened.
* `st` keeps its value when `stat` fails, and `old_dir` is not initialised: `junk path` is what it
  holds when `search(path, …)` begins.
* The first round of the loop, and those for `.` and `..`, are about the directory itself: they set
  `st` and do nothing else.
* To read a directory that could not be opened is undefined.  Allocations succeed, and a path is
  shorter than its buffers.

A subdirectory is entered by the bits 8 to 15 of its mode, so not all are (`searchVisits_iff`). -/

namespace Carroll
namespace Search

/-- A path, without its NUL. -/
abbrev Path := List UInt8

/-- `"%s/%s"`. -/
def join (path : Path) (name : List UInt8) : Path := path ++ 0x2f :: name

/-- The mode of a directory. -/
structure DirMode where
  bits : ℕ
  isDir : bits / 4096 = 4

/-- The mode of anything else. -/
structure FileMode where
  bits : ℕ
  lt : bits < 65536
  notDir : bits / 4096 ≠ 4

/-- The entries of a directory in the order of `readdir`; `opens` is whether a file can be opened for
reading and writing. -/
inductive Entries where
  | nil
  | dots (rest : Entries)
  | file (name : List UInt8) (mode : FileMode) (opens : Bool) (rest : Entries)
  | lost (name : List UInt8) (rest : Entries)
  | dir (name : List UInt8) (mode : DirMode) (entries rest : Entries)

/-- A call of the callback: the path, and the mode of the file that is open. -/
structure Visit where
  path : Path
  mode : ℕ
deriving DecidableEq, Repr

/-- `((st.st_mode >> 8) & 0xff)-1 == ((S_IFDIR >> 8) & 0xff)`. -/
def dirTest (mode : ℕ) : Bool :=
  decide (u32 (((mode >>> 8) &&& 0xff) + (2 ^ 32 - 1)) = (0x4000 >>> 8) &&& 0xff)

/-- The test for a directory to go into. -/
def goesDown (path root oldDir : Path) (st : ℕ) : Bool :=
  dirTest st && decide (oldDir ≠ root) && decide (path ≠ root)

/-- The rounds of `search(path, …)` for the entries, in a directory of mode `own`. -/
def searchLoop (junk : Path → Path) (path : Path) (own st : ℕ) (oldDir : Path) :
    Entries → Option (List Visit)
  | .nil => some []
  | .dots rest => searchLoop junk path own own oldDir rest
  | .file name mode opens rest =>
      if goesDown path (join path name) oldDir mode.bits then none
      else
        (searchLoop junk path own mode.bits oldDir rest).map fun calls =>
          if opens then ⟨join path name, mode.bits⟩ :: calls else calls
  | .lost name rest =>
      if goesDown path (join path name) oldDir st then none
      else searchLoop junk path own st oldDir rest
  | .dir name mode entries rest =>
      let root := join path name
      if goesDown path root oldDir mode.bits then do
        let below ← searchLoop junk root mode.bits mode.bits (junk root) entries
        let after ← searchLoop junk path own mode.bits root rest
        return below ++ after
      else searchLoop junk path own mode.bits oldDir rest

/-- `search(path, callback_thread)` of a directory. -/
def search (junk : Path → Path) (path : Path) (mode : DirMode) (entries : Entries) :
    Option (List Visit) :=
  searchLoop junk path mode.bits mode.bits (junk path) entries

/-- A regular file. -/
def regular (mode : ℕ) : Bool := decide (mode / 4096 = 8)

/-- The regular files below `path` that can be opened for reading and writing. -/
def Entries.files (path : Path) : Entries → List Path
  | .nil => []
  | .dots rest => rest.files path
  | .file name mode opens rest =>
      if opens && regular mode.bits then join path name :: rest.files path else rest.files path
  | .lost _ rest => rest.files path
  | .dir name _ entries rest => entries.files (join path name) ++ rest.files path

/-- The regular files among the calls. -/
def files (calls : List Visit) : List Path := (calls.filter (regular ·.mode)).map (·.path)

/-- The callback is called once for each of the files, and for no directory. -/
def Visits (junk : Path → Path) (path : Path) (mode : DirMode) (entries : Entries) : Prop :=
  ∃ calls, search junk path mode entries = some calls ∧
    (∀ c ∈ calls, c.mode / 4096 ≠ 4) ∧ (files calls).Perm (entries.files path)

/-- No entry that is lost comes when `st` shows a directory, and every subdirectory that is not entered
has no files. -/
def Reaches (junk : Path → Path) (path : Path) (own st : ℕ) (oldDir : Path) : Entries → Prop
  | .nil => True
  | .dots rest => Reaches junk path own own oldDir rest
  | .file _ mode _ rest => Reaches junk path own mode.bits oldDir rest
  | .lost name rest =>
      (dirTest st = true → oldDir = join path name) ∧ Reaches junk path own st oldDir rest
  | .dir name mode entries rest =>
      let root := join path name
      if dirTest mode.bits ∧ oldDir ≠ root then
        Reaches junk root mode.bits mode.bits (junk root) entries ∧
          Reaches junk path own mode.bits root rest
      else entries.files root = [] ∧ Reaches junk path own mode.bits oldDir rest

/-- In each directory that is entered no entry is lost while `st` shows a directory, so that the loop
opens directories only. -/
def Enterable (junk : Path → Path) (path : Path) (own st : ℕ) (oldDir : Path) : Entries → Prop
  | .nil => True
  | .dots rest => Enterable junk path own own oldDir rest
  | .file _ mode _ rest => Enterable junk path own mode.bits oldDir rest
  | .lost name rest =>
      (dirTest st = true → oldDir = join path name) ∧ Enterable junk path own st oldDir rest
  | .dir name mode entries rest =>
      let root := join path name
      if dirTest mode.bits ∧ oldDir ≠ root then
        Enterable junk root mode.bits mode.bits (junk root) entries ∧
          Enterable junk path own mode.bits root rest
      else Enterable junk path own mode.bits oldDir rest

/-! ### The mode -/

theorem dirTest_iff {mode : ℕ} : dirTest mode = true ↔ mode / 256 % 256 = 0x41 := by
  have hmask : (mode >>> 8) &&& 0xff = mode / 256 % 256 := by
    rw [Nat.shiftRight_eq_div_pow]
    exact Nat.and_two_pow_sub_one_eq_mod _ 8
  have hdir : (0x4000 >>> 8) &&& 0xff = 0x40 := rfl
  rw [dirTest, decide_eq_true_iff, hmask, hdir, u32]
  omega

theorem FileMode.not_dirTest (m : FileMode) : dirTest m.bits = false := by
  have hlt := m.lt
  have hdir := m.notDir
  rw [← Bool.not_eq_true, Search.dirTest_iff]
  omega

theorem ne_join (path : Path) (name : List UInt8) : path ≠ join path name := by
  intro h
  have hlen := congrArg List.length h
  simp [join] at hlen

theorem goesDown_join {path oldDir : Path} {name : List UInt8} {st : ℕ} :
    goesDown path (join path name) oldDir st = true ↔ dirTest st ∧ oldDir ≠ join path name := by
  simp [goesDown, ne_join]

/-! ### The files that are reached -/

/-- Two parts fill two lists only when each fills its own. -/
theorem append_eq_append_iff_of_sublist {α : Type*} {a b c d : List α} (hac : a.Sublist c)
    (hbd : b.Sublist d) : a ++ b = c ++ d ↔ a = c ∧ b = d := by
  refine ⟨fun h => ?_, fun ⟨h₁, h₂⟩ => h₁ ▸ h₂ ▸ rfl⟩
  have hlen := congrArg List.length h
  rw [List.length_append, List.length_append] at hlen
  have hac' := hac.length_le
  have hbd' := hbd.length_le
  exact ⟨hac.eq_of_length (by omega), hbd.eq_of_length (by omega)⟩

theorem files_append (as bs : List Visit) : files (as ++ bs) = files as ++ files bs := by
  simp [files]

section
variable {junk : Path → Path} {path oldDir : Path} {own st : ℕ} {name : List UInt8} {rest : Entries}

/-- A file is visited when it opens. -/
theorem searchLoop_file (mode : FileMode) (opens : Bool) :
    searchLoop junk path own st oldDir (.file name mode opens rest) =
      (searchLoop junk path own mode.bits oldDir rest).map
        ((if opens then [⟨join path name, mode.bits⟩] else []) ++ ·) := by
  rw [searchLoop, goesDown, mode.not_dirTest]
  cases opens <;> rfl

theorem searchLoop_lost : searchLoop junk path own st oldDir (.lost name rest) =
    if dirTest st = true → oldDir = join path name then searchLoop junk path own st oldDir rest
    else none := by
  rw [searchLoop]
  by_cases h : goesDown path (join path name) oldDir st = true
  · obtain ⟨htest, hne⟩ := goesDown_join.mp h
    rw [if_pos h, if_neg fun himp => hne (himp htest)]
  · have himp : dirTest st = true → oldDir = join path name := fun htest => by
      by_contra hne
      exact h (goesDown_join.mpr ⟨htest, hne⟩)
    rw [if_neg h, if_pos himp]

/-- A subdirectory is entered or skipped. -/
theorem searchLoop_dir (mode : DirMode) (entries : Entries) :
    searchLoop junk path own st oldDir (.dir name mode entries rest) =
      if dirTest mode.bits ∧ oldDir ≠ join path name then do
        let below ← search junk (join path name) mode entries
        let after ← searchLoop junk path own mode.bits (join path name) rest
        return below ++ after
      else searchLoop junk path own mode.bits oldDir rest := by
  rw [searchLoop, search]
  simp only [goesDown_join]

theorem entries_files_file (mode : FileMode) (opens : Bool) :
    (Entries.file name mode opens rest).files path =
      files (if opens then [⟨join path name, mode.bits⟩] else []) ++ rest.files path := by
  rw [Entries.files]
  cases opens with
  | false => rfl
  | true => cases hreg : regular mode.bits <;> simp [files, hreg]

/-- Induction over the rounds of a loop that is defined: what each kind of entry adds to the calls. -/
theorem searchLoop_induction {M : Path → Entries → List Visit → Prop}
    (nil : ∀ path, M path .nil [])
    (dots : ∀ path rest calls, M path rest calls → M path (.dots rest) calls)
    (file : ∀ path name mode opens rest calls, M path rest calls →
      M path (.file name mode opens rest)
        ((if opens then [⟨join path name, mode.bits⟩] else []) ++ calls))
    (lost : ∀ path name rest calls, M path rest calls → M path (.lost name rest) calls)
    (entered : ∀ path name mode entries rest below after, M (join path name) entries below →
      M path rest after → M path (.dir name mode entries rest) (below ++ after))
    (skipped : ∀ path name mode entries rest calls, M path rest calls →
      M path (.dir name mode entries rest) calls)
    (es : Entries) {path : Path} {own st : ℕ} {oldDir : Path} {calls : List Visit}
    (h : searchLoop junk path own st oldDir es = some calls) : M path es calls := by
  induction es generalizing path own st oldDir calls with
  | nil =>
      obtain rfl := Option.some.inj h
      exact nil path
  | dots rest ih => exact dots path rest calls (ih h)
  | file name mode opens rest ih =>
      rw [searchLoop_file, Option.map_eq_some_iff] at h
      obtain ⟨after, hafter, rfl⟩ := h
      exact file path name mode opens rest after (ih hafter)
  | lost name rest ih =>
      rw [searchLoop_lost] at h
      split_ifs at h
      exact lost path name rest calls (ih h)
  | dir name mode entries rest ihe ih =>
      rw [searchLoop_dir] at h
      split_ifs at h
      · obtain ⟨below, hbelow, h⟩ := Option.bind_eq_some_iff.mp h
        obtain ⟨after, hafter, h⟩ := Option.bind_eq_some_iff.mp h
        obtain rfl := Option.some.inj h
        exact entered path name mode entries rest below after (ihe hbelow) (ih hafter)
      · exact skipped path name mode entries rest calls (ih h)

/-- The loop is defined when it enters directories only. -/
theorem searchLoop_isSome_iff (es : Entries) :
    (searchLoop junk path own st oldDir es).isSome ↔ Enterable junk path own st oldDir es := by
  induction es generalizing path own st oldDir with
  | nil => exact iff_of_true rfl trivial
  | dots rest ih => exact ih
  | file name mode opens rest ih => rw [searchLoop_file, Option.isSome_map, ih, Enterable]
  | lost name rest ih =>
      rw [searchLoop_lost, Enterable, ← ih]
      split_ifs with hst
      · exact (and_iff_right hst).symm
      · exact iff_of_false nofun fun h => hst h.1
  | dir name mode entries rest ihe ih =>
      rw [searchLoop_dir, Enterable]
      by_cases hdown : dirTest mode.bits ∧ oldDir ≠ join path name
      · rw [if_pos hdown, if_pos hdown, ← ihe, ← ih, search]
        cases searchLoop junk (join path name) mode.bits mode.bits (junk (join path name)) entries with
        | none => simp
        | some below => cases searchLoop junk path own mode.bits (join path name) rest <;> simp
      · rw [if_neg hdown, if_neg hdown, ih]

/-- The files of the calls are files of the tree, in its order. -/
theorem files_sublist (es : Entries) {calls : List Visit}
    (h : searchLoop junk path own st oldDir es = some calls) :
    (files calls).Sublist (es.files path) := by
  refine searchLoop_induction (M := fun path es calls => (files calls).Sublist (es.files path))
    (fun _ => List.Sublist.slnil) (fun _ _ _ ih => ih) ?_ (fun _ _ _ _ ih => ih) ?_ ?_ es h
  · intro path name mode opens rest calls ih
    rw [files_append, entries_files_file]
    exact ih.append_left _
  · intro path name mode entries rest below after ihe ih
    rw [files_append]
    exact ihe.append ih
  · intro path name mode entries rest calls ih
    exact ih.trans (List.sublist_append_right _ _)

/-- No call is for a directory. -/
theorem calls_not_dir (es : Entries) {calls : List Visit}
    (h : searchLoop junk path own st oldDir es = some calls) : ∀ c ∈ calls, c.mode / 4096 ≠ 4 := by
  refine searchLoop_induction (M := fun _ _ calls => ∀ c ∈ calls, c.mode / 4096 ≠ 4)
    (fun _ _ hc => absurd hc List.not_mem_nil) (fun _ _ _ ih => ih) ?_ (fun _ _ _ _ ih => ih)
    (fun _ _ _ _ _ _ _ ihe ih => List.forall_mem_append.mpr ⟨ihe, ih⟩) (fun _ _ _ _ _ _ ih => ih) es h
  intro path name mode opens rest calls ih
  rw [List.forall_mem_append]
  refine ⟨fun c hc => ?_, ih⟩
  obtain rfl : c = ⟨join path name, mode.bits⟩ := by
    cases opens with
    | false => exact absurd hc List.not_mem_nil
    | true => exact List.mem_singleton.mp hc
  exact mode.notDir

/-- The loop finds all files. -/
def Finds (junk : Path → Path) (path : Path) (own st : ℕ) (oldDir : Path) (es : Entries) : Prop :=
  ∃ calls, searchLoop junk path own st oldDir es = some calls ∧ files calls = es.files path

theorem finds_file_iff (mode : FileMode) (opens : Bool) :
    Finds junk path own st oldDir (.file name mode opens rest) ↔
      Finds junk path own mode.bits oldDir rest := by
  unfold Finds
  rw [searchLoop_file, entries_files_file]
  cases searchLoop junk path own mode.bits oldDir rest with
  | none => simp
  | some after => simp [files_append]

theorem finds_lost_iff : Finds junk path own st oldDir (.lost name rest) ↔
    (dirTest st = true → oldDir = join path name) ∧ Finds junk path own st oldDir rest := by
  unfold Finds
  rw [searchLoop_lost, Entries.files]
  split_ifs with h
  · exact (and_iff_right h).symm
  · exact iff_of_false (by simp) (fun hn => h hn.1)

theorem finds_entered_iff {mode : DirMode} {entries : Entries}
    (hdown : dirTest mode.bits ∧ oldDir ≠ join path name) :
    Finds junk path own st oldDir (.dir name mode entries rest) ↔
      Finds junk (join path name) mode.bits mode.bits (junk (join path name)) entries ∧
        Finds junk path own mode.bits (join path name) rest := by
  unfold Finds
  rw [searchLoop_dir, if_pos hdown, search, Entries.files]
  cases hbelow : searchLoop junk (join path name) mode.bits mode.bits (junk (join path name)) entries with
  | none => simp
  | some below =>
      cases hafter : searchLoop junk path own mode.bits (join path name) rest with
      | none => simp
      | some after =>
          have happend := append_eq_append_iff_of_sublist (files_sublist entries hbelow)
            (files_sublist rest hafter)
          simp [files_append, happend]

theorem finds_skipped_iff {mode : DirMode} {entries : Entries}
    (hdown : ¬ (dirTest mode.bits ∧ oldDir ≠ join path name)) :
    Finds junk path own st oldDir (.dir name mode entries rest) ↔
      entries.files (join path name) = [] ∧ Finds junk path own mode.bits oldDir rest := by
  unfold Finds
  rw [searchLoop_dir, if_neg hdown, Entries.files]
  cases hafter : searchLoop junk path own mode.bits oldDir rest with
  | none => simp
  | some after =>
      have happend := append_eq_append_iff_of_sublist
        (List.nil_sublist (entries.files (join path name))) (files_sublist rest hafter)
      rw [List.nil_append] at happend
      constructor
      · rintro ⟨calls, hcalls, heq⟩
        obtain rfl := Option.some.inj hcalls
        exact ⟨(happend.mp heq).1.symm, after, rfl, (happend.mp heq).2⟩
      · rintro ⟨hnil, calls, hcalls, heq⟩
        obtain rfl := Option.some.inj hcalls
        exact ⟨after, rfl, happend.mpr ⟨hnil.symm, heq⟩⟩

theorem finds_iff (es : Entries) :
    Finds junk path own st oldDir es ↔ Reaches junk path own st oldDir es := by
  induction es generalizing path own st oldDir with
  | nil => exact iff_of_true ⟨[], rfl, rfl⟩ trivial
  | dots rest ih => exact ih
  | file name mode opens rest ih => rw [finds_file_iff, ih, Reaches]
  | lost name rest ih => rw [finds_lost_iff, ih, Reaches]
  | dir name mode entries rest ihe ih =>
      rw [Reaches]
      by_cases hdown : dirTest mode.bits ∧ oldDir ≠ join path name
      · rw [if_pos hdown, finds_entered_iff hdown, ihe, ih]
      · rw [if_neg hdown, finds_skipped_iff hdown, ih]

/-- The calls are for the files of the tree, whatever their order, when they are all of them. -/
theorem visits_iff_finds (mode : DirMode) (entries : Entries) :
    Visits junk path mode entries ↔ Finds junk path mode.bits mode.bits (junk path) entries := by
  constructor
  · rintro ⟨calls, hcalls, -, hperm⟩
    exact ⟨calls, hcalls, (files_sublist entries hcalls).eq_of_length hperm.length_eq⟩
  · rintro ⟨calls, hcalls, heq⟩
    exact ⟨calls, hcalls, calls_not_dir entries hcalls, .of_eq heq⟩

end

/-- `search` visits every file once, and no directory, exactly when in each directory that it enters no
entry is lost while `st` shows a directory, and the subdirectories that it does not enter, by their
mode or by what `old_dir` holds, have no files. -/
theorem searchVisits_iff (junk : Path → Path) (path : Path) (mode : DirMode) (entries : Entries) :
    Visits junk path mode entries ↔
      Reaches junk path mode.bits mode.bits (junk path) entries := by
  rw [visits_iff_finds, finds_iff]

/-- A sticky directory with one file. -/
def stickyTree : Entries :=
  .dir [0x74] ⟨0o041777, by decide⟩ (.file [0x66] ⟨0o100644, by decide, by decide⟩ true .nil) .nil

theorem not_searchVisits_sticky :
    ¬ Visits (fun _ => []) [0x72] ⟨0o040755, by decide⟩ stickyTree := by
  rw [visits_iff_finds, finds_iff, stickyTree, Reaches]
  dsimp only
  rw [if_neg (by decide)]
  exact fun h => absurd h.1 (by decide)

end Search
end Carroll
