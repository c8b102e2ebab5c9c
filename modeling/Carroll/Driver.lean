import Carroll.Mem
import Carroll.Runs

/-! # The device driver

The module `ctl10` keeps a text that `write` stores and `read` hands out, and two words that `ioctl`
sets and reports.

* User memory is the bytes that can be read, or the number of bytes that can be written, from an
  address on; an access of the driver itself to any other byte is undefined.
* `copy_from_user` and `copy_to_user` copy what can be copied and return the number of bytes left;
  `copy_from_user` stores zeros for these.
* The file position is an argument of a call: a program may have the device open more than once.

`read` always stores a terminator behind the text, and returns 1 or 0 (`driverReads_iff`).  `RESTART`
takes the value 1 for an address (`driverControl_iff`). -/

namespace Carroll
namespace Driver

/-- `PAGE_SIZE`. -/
def pageSize : ℕ := 2048

/-- `copy_from_user` of `n` bytes: what it stores and what it returns. -/
def copyFromUser (src : List UInt8) (n : ℕ) : List UInt8 × ℕ :=
  (src.take n ++ List.replicate (n - src.length) 0, n - src.length)

/-- `copy_to_user` of the bytes `bs`: what it stores and what it returns. -/
def copyToUser (writable : ℕ) (bs : List UInt8) : List UInt8 × ℕ :=
  (bs.take writable, bs.length - writable)

/-! ### The text -/

/-- `struct unicode_cstring`; the buffer has `PAGE_SIZE` bytes. -/
structure UnicodeCstring where
  buf : Mem
  len : ℕ

/-- `mcstr` after `ctl_init`: the buffer holds what `kmalloc` gave. -/
def ctlInit (block : Mem) : Option UnicodeCstring := some ⟨block, 0⟩

/-- The arguments of `lsbc_read`. -/
structure ReadArgs where
  null : Bool
  writable : ℕ
  count : ℕ
  pos : ℤ

/-- What `lsbc_read` returns, the bytes that it stores from `buf` on, and `*f_pos`. -/
structure ReadReply where
  value : ℤ
  stored : List UInt8
  pos : ℤ

/-- `lsbc_read`. -/
def lsbcRead (mcstr : Option UnicodeCstring) (r : ReadArgs) : Option ReadReply :=
  if r.null ∨ r.count = 0 then some ⟨-1, [], r.pos⟩
  -- `sprintf` into `char buffer[10]`
  else if 10 ≤ (decimalInt r.count).length then none
  else
    -- `sizeof( buffer )`, which is not above `PAGE_SIZE`
    let count := 10
    match mcstr with
    | none => some ⟨-1, [], r.pos⟩
    | some c =>
        let size := if count < c.len then count else c.len
        let (copied, left) := copyToUser r.writable (c.buf.peek 0 size)
        if left ≠ 0 then some ⟨-14, copied, r.pos⟩
        -- `buf[size]='\0'`
        else if r.writable ≤ size then none
        else if r.pos = 0 then some ⟨1, copied ++ [0], r.pos + 1⟩
        else some ⟨0, copied ++ [0], r.pos⟩

/-- `lsbc_write` with `buf` at the bytes `src`: what it returns and `mcstr`. -/
def lsbcWrite (mcstr : Option UnicodeCstring) (src : List UInt8) (count : ℕ) :
    Option (ℤ × Option UnicodeCstring) :=
  -- the message and `strlen` read up to a NUL byte
  if 0 ∉ src then none
  else if pageSize < count ∨ pageSize < (cstr src).length then some (-1, mcstr)
  else
    match mcstr with
    | none => some (-1, none)
    | some c =>
        let buf : Mem := fun i => if i < pageSize then 0 else c.buf i
        some (count, some ⟨buf.poke 0 (copyFromUser src count).1, count⟩)

/-- A call of the driver. -/
inductive Call where
  | read (r : ReadArgs)
  | write (src : List UInt8) (count : ℕ)

/-- The driver, and the bytes that the last successful `write` was given. -/
structure Text where
  mcstr : Option UnicodeCstring
  last : List UInt8

/-- One call. -/
def Text.step (s : Text) : Call → Option Text
  | .read r => (lsbcRead s.mcstr r).map fun _ => s
  | .write src count => (lsbcWrite s.mcstr src count).map fun w =>
      ⟨w.2, if 0 ≤ w.1 then src.take count else s.last⟩

/-- What a call of `read` is to do: store at most `count` bytes, which begin what was written last,
and return their number, or an error. -/
def ReadMeets (last : List UInt8) (r : ReadArgs) (reply : ReadReply) : Prop :=
  reply.stored.length ≤ r.count ∧ reply.stored <+: last ∧
    (0 ≤ reply.value → reply.value = reply.stored.length ∧
      ((last.length : ℤ) ≤ r.pos → reply.value = 0))

/-- A call is defined, and does what it is to do. -/
def Text.Meets (s : Text) : Call → Prop
  | .read r => ∃ reply, lsbcRead s.mcstr r = some reply ∧ ReadMeets s.last r reply
  | .write src count => (lsbcWrite s.mcstr src count).isSome

/-- A `read` is refused, or its copy stops at a byte that cannot be written, before `count` and before
the end of what was written last; a `write` is of a string. -/
def Text.StopsShort (s : Text) : Call → Prop
  | .read r => r.null = true ∨ r.count = 0 ∨
      ((u32 r.count < 10 ^ 9 ∨ 2 ^ 32 - 10 ^ 8 < u32 r.count) ∧
        ∀ c ∈ s.mcstr, r.writable < min c.len 10 ∧ r.writable ≤ r.count ∧
          r.writable ≤ s.last.length)
  | .write src _ => 0 ∈ src

/-- The buffer holds what was written last, and zeros for what could not be read of it. -/
def Text.Keeps (s : Text) : Prop :=
  ∀ c ∈ s.mcstr, c.buf.peek 0 c.len = s.last ++ List.replicate (c.len - s.last.length) 0

section
variable {s : Text}

theorem length_copyFromUser (src : List UInt8) (n : ℕ) : (copyFromUser src n).1.length = n := by
  simp only [copyFromUser, List.length_append, List.length_take, List.length_replicate]
  omega

theorem Text.Keeps.last_le (hs : s.Keeps) {c : UnicodeCstring} (hc : s.mcstr = some c) :
    s.last.length ≤ c.len := by
  have hlen := congrArg List.length (hs c hc)
  simp only [Mem.length_peek, List.length_append, List.length_replicate] at hlen
  omega

/-- Less than the text can be read off what was written as long as that goes. -/
theorem Text.Keeps.peek_prefix_iff (hs : s.Keeps) {c : UnicodeCstring} (hc : s.mcstr = some c)
    {n : ℕ} (hn : n ≤ c.len) : c.buf.peek 0 n <+: s.last ↔ n ≤ s.last.length := by
  refine ⟨fun hp => by simpa using hp.length_le, fun hle => ?_⟩
  rw [← Mem.take_peek c.buf 0 hn, hs c hc, List.take_append_of_le_length hle]
  exact List.take_prefix n s.last

/-- A `write` keeps what it was given. -/
theorem Text.Keeps.step (hs : s.Keeps) {a : Call} {s' : Text} (hst : s.step a = some s') :
    s'.Keeps := by
  cases a with
  | read r =>
      obtain ⟨reply, -, rfl⟩ := Option.map_eq_some_iff.mp hst
      exact hs
  | write src count =>
      obtain ⟨⟨value, mcstr⟩, hw, rfl⟩ := Option.map_eq_some_iff.mp hst
      unfold lsbcWrite at hw
      split_ifs at hw with h0 hmax
      · obtain ⟨rfl, rfl⟩ : -1 = value ∧ s.mcstr = mcstr := by simpa using hw
        exact hs
      · cases hm : s.mcstr with
        | none =>
            rw [hm] at hw
            obtain ⟨rfl, rfl⟩ : -1 = value ∧ none = mcstr := by simpa using hw
            exact nofun
        | some c =>
            rw [hm] at hw
            obtain ⟨rfl, rfl⟩ : (count : ℤ) = value ∧ _ = mcstr := by simpa using hw
            rintro c' ⟨⟩
            dsimp only
            rw [if_pos (Int.natCast_nonneg count),
              Mem.peek_poke_of_length _ _ (length_copyFromUser _ _), copyFromUser, List.length_take]
            have hleft : count - src.length = count - min count src.length := by omega
            rw [hleft]

theorem lsbcWrite_isSome_iff (mcstr : Option UnicodeCstring) (src : List UInt8) (count : ℕ) :
    (lsbcWrite mcstr src count).isSome ↔ 0 ∈ src := by
  unfold lsbcWrite
  by_cases h0 : 0 ∈ src
  · rw [if_neg (not_not.mpr h0)]
    refine iff_of_true ?_ h0
    split_ifs
    · rfl
    · cases mcstr <;> rfl
  · rw [if_pos h0]
    exact iff_of_false Bool.false_ne_true h0

/-- A `read` that stores its terminator does not meet what it is to do. -/
theorem not_readMeets_terminated {last bs : List UInt8} {len : ℕ} (hlast : last.length ≤ len)
    (hbs : bs.length = min len 10) {r : ReadArgs} {reply : ReadReply}
    (hstored : reply.stored = bs ++ [0]) (hvalue : reply.value = if r.pos = 0 then 1 else 0) :
    ¬ ReadMeets last r reply := by
  rintro ⟨-, hprefix, hreturn⟩
  have hlen := hprefix.length_le
  have hpos : 0 ≤ reply.value := by
    rw [hvalue]
    split_ifs <;> decide
  have hcount := (hreturn hpos).1
  rw [hstored, List.length_append, List.length_singleton] at hlen hcount
  split_ifs at hvalue <;> omega

/-- What a `read` with good arguments does: its copy stops, the terminator cannot be written, or it
stores the text and the terminator. -/
theorem lsbcRead_some (c : UnicodeCstring) {r : ReadArgs} (hargs : ¬ (r.null = true ∨ r.count = 0))
    (hfits : (decimalInt r.count).length < 10) : lsbcRead (some c) r =
      if r.writable < min c.len 10 then some ⟨-14, c.buf.peek 0 r.writable, r.pos⟩
      else if r.writable = min c.len 10 then none
      else some ⟨if r.pos = 0 then 1 else 0, c.buf.peek 0 (min c.len 10) ++ [0],
        if r.pos = 0 then r.pos + 1 else r.pos⟩ := by
  have hsize : (if 10 < c.len then 10 else c.len) = min c.len 10 := by
    split_ifs <;> omega
  rw [lsbcRead, if_neg hargs, if_neg (not_le.mpr hfits)]
  simp only [copyToUser, hsize, Mem.length_peek]
  by_cases hleft : r.writable < min c.len 10
  · rw [if_pos (Nat.sub_ne_zero_of_lt hleft), if_pos hleft, Mem.take_peek _ _ hleft.le]
  rw [if_neg (by omega), if_neg hleft]
  by_cases hterm : r.writable = min c.len 10
  · rw [if_pos hterm.le, if_pos hterm]
  rw [if_neg (by omega), if_neg hterm, List.take_of_length_le (by rw [Mem.length_peek]; omega)]
  split_ifs <;> rfl

theorem Text.Keeps.meets_read_iff (hs : s.Keeps) (r : ReadArgs) :
    s.Meets (.read r) ↔ s.StopsShort (.read r) := by
  have hrefused : ReadMeets s.last r ⟨-1, [], r.pos⟩ :=
    ⟨Nat.zero_le _, List.nil_prefix, fun h => absurd h nofun⟩
  rw [Text.Meets, Text.StopsShort, ← length_decimalInt_lt_iff]
  by_cases hargs : r.null = true ∨ r.count = 0
  · exact iff_of_true ⟨_, if_pos hargs, hrefused⟩ (or_assoc.mp (.inl hargs))
  rw [← or_assoc, or_iff_right hargs]
  by_cases hfits : (decimalInt r.count).length < 10
  swap
  · rw [lsbcRead, if_neg hargs, if_pos (not_lt.mp hfits)]
    exact iff_of_false (by simp) (fun h => hfits h.1)
  rw [and_iff_right hfits]
  cases hm : s.mcstr with
  | none =>
      rw [lsbcRead, if_neg hargs, if_neg (not_le.mpr hfits)]
      exact iff_of_true ⟨_, rfl, hrefused⟩ nofun
  | some c =>
      rw [lsbcRead_some c hargs hfits]
      simp only [Option.mem_def, Option.some.injEq, forall_eq']
      by_cases hleft : r.writable < min c.len 10
      · have hprefix := hs.peek_prefix_iff hm (n := r.writable) (by omega)
        rw [if_pos hleft, and_iff_right hleft]
        simp [ReadMeets, hprefix]
      · rw [if_neg hleft]
        refine iff_of_false ?_ (fun h => hleft h.1)
        rintro ⟨reply, hreply, hmeets⟩
        by_cases hterm : r.writable = min c.len 10
        · rw [if_pos hterm] at hreply
          exact absurd hreply nofun
        rw [if_neg hterm] at hreply
        obtain rfl := Option.some.inj hreply
        exact not_readMeets_terminated (hs.last_le hm) (Mem.length_peek _ _ _) rfl rfl hmeets

theorem Text.Keeps.meets_iff (hs : s.Keeps) (a : Call) : s.Meets a ↔ s.StopsShort a := by
  cases a with
  | read r => exact hs.meets_read_iff r
  | write src count => exact lsbcWrite_isSome_iff s.mcstr src count

end

theorem keeps_ctlInit (block : Mem) : Text.Keeps ⟨ctlInit block, []⟩ := by
  rintro c ⟨⟩
  rfl

/-- All calls of a run are defined and do what they are to do exactly when no `read` gets as far as its
terminator, and what could be copied before that is at most `count` bytes and part of the text. -/
theorem driverReads_iff (block : Mem) (calls : List Call) :
    Along Text.step Text.Meets ⟨ctlInit block, []⟩ calls ↔
      Along Text.step Text.StopsShort ⟨ctlInit block, []⟩ calls :=
  Along.congr_of_invariant (I := Text.Keeps) (fun _ a hs => hs.meets_iff a)
    (fun _ _ _ hs _ hst => hs.step hst) (keeps_ctlInit block) calls

/-- Five letters are written, and read into a buffer of 64 bytes. -/
theorem not_driverReads_hello : ¬ Along Text.step Text.Meets ⟨ctlInit Mem.zero, []⟩
    [.write [0x68, 0x65, 0x6c, 0x6c, 0x6f, 0] 5, .read ⟨false, 64, 64, 0⟩] := by
  rintro ⟨-, hall⟩
  obtain ⟨⟨reply, hread, hmeets⟩, -⟩ := hall _ rfl
  obtain rfl := Option.some.inj hread
  exact absurd (hmeets.2.2 (by decide)).1 (by decide)

/-! ### The control words -/

/-- The commands of `lsbc_ioctl2`. -/
def ctl10Devinit : ℕ := 0x10
def ctl10Progwrite : ℕ := 0x20
def ctl10Progread : ℕ := 0x30
def ctl10Restart : ℕ := 0x40
def ctl10Poweroff : ℕ := 0x50
def ctl10Stateoff : ℕ := 0x60

/-- `progress_value` and `poweroff_value`, with the bits of an `int`. -/
structure Words where
  progress : ℕ
  poweroff : ℕ
deriving DecidableEq

/-- The words of the module when it is loaded. -/
def Words.start : Words := ⟨2 ^ 32 - 1, 1⟩

/-- The four bytes of a word. -/
def word (bs : List UInt8) : ℕ := (Mem.zero.poke 0 bs).get32 0

/-- The arguments of `lsbc_ioctl2`: what can be read and written at the address `value`, and what can
be read at the address 1. -/
structure Ioctl where
  flags : ℕ
  readable : List UInt8
  writable : ℕ
  readableAtOne : List UInt8

/-- `lsbc_ioctl2`: what it returns, what it stores at `value`, and the words. -/
def lsbcIoctl2 (w : Words) (c : Ioctl) : ℤ × List UInt8 × Words :=
  if c.flags = ctl10Devinit then (0, [], w)
  else if c.flags = ctl10Progwrite then (0, [], { w with progress := word (copyFromUser c.readable 4).1 })
  else if c.flags = ctl10Progread then (0, (copyToUser c.writable (Mem.bytes32 w.progress)).1, w)
  else if c.flags = ctl10Restart then
    let poweroff := word (copyFromUser c.readable 4).1
    if poweroff ≠ 1 then (0, [], { w with poweroff := word (copyFromUser c.readableAtOne 4).1 })
    else (0, [], { w with poweroff := poweroff })
  else if c.flags = ctl10Poweroff then (0, [], { w with poweroff := word (copyFromUser c.readable 4).1 })
  else if c.flags = ctl10Stateoff then (0, (copyToUser c.writable (Mem.bytes32 w.poweroff)).1, w)
  else (0, [], w)

/-- A copy of the command leaves bytes. -/
def Ioctl.Faults (c : Ioctl) : Prop :=
  ((c.flags = ctl10Progwrite ∨ c.flags = ctl10Restart ∨ c.flags = ctl10Poweroff) ∧ c.readable.length < 4) ∨
    ((c.flags = ctl10Progread ∨ c.flags = ctl10Stateoff) ∧ c.writable < 4) ∨
    (c.flags = ctl10Restart ∧ word (copyFromUser c.readable 4).1 ≠ 1 ∧ c.readableAtOne.length < 4)

instance (c : Ioctl) : Decidable c.Faults := by unfold Ioctl.Faults; infer_instance

/-- The words that the successful commands have given. -/
def Words.given (g : Words) (c : Ioctl) : Words :=
  if c.Faults then g
  else if c.flags = ctl10Progwrite then { g with progress := word (c.readable.take 4) }
  else if c.flags = ctl10Poweroff then { g with poweroff := word (c.readable.take 4) }
  else if c.flags = ctl10Restart then { g with poweroff := 1 }
  else g

/-- The words of the driver, and those that it is to report. -/
structure Control where
  words : Words
  given : Words

/-- One command. -/
def Control.step (s : Control) (c : Ioctl) : Option Control :=
  some ⟨(lsbcIoctl2 s.words c).2.2, s.given.given c⟩

/-- What a command is to do. -/
def Control.Meets (s : Control) (c : Ioctl) : Prop :=
  (c.Faults → (lsbcIoctl2 s.words c).1 < 0 ∧ (lsbcIoctl2 s.words c).2.2 = s.words) ∧
  (¬ c.Faults →
    (c.flags = ctl10Restart → (lsbcIoctl2 s.words c).2.2.poweroff = 1) ∧
    (c.flags = ctl10Progread → (lsbcIoctl2 s.words c).2.1 = Mem.bytes32 s.given.progress) ∧
    (c.flags = ctl10Stateoff → (lsbcIoctl2 s.words c).2.1 = Mem.bytes32 s.given.poweroff))

/-- Every copy succeeds, and `RESTART` finds a 1, at its address or at the address 1. -/
def Ioctl.Fine (c : Ioctl) : Prop :=
  ¬ c.Faults ∧ (c.flags = ctl10Restart →
    word (c.readable.take 4) = 1 ∨ word (c.readableAtOne.take 4) = 1)

instance (c : Ioctl) : Decidable c.Fine := by unfold Ioctl.Fine; infer_instance

theorem copyFromUser_of_le {src : List UInt8} {n : ℕ} (h : n ≤ src.length) :
    (copyFromUser src n).1 = src.take n := by
  rw [copyFromUser, Nat.sub_eq_zero_of_le h]
  exact List.append_nil _

theorem copyToUser_word {writable : ℕ} (h : 4 ≤ writable) (n : ℕ) :
    (copyToUser writable (Mem.bytes32 n)).1 = Mem.bytes32 n := List.take_of_length_le h

theorem lsbcIoctl2_value (w : Words) (c : Ioctl) : (lsbcIoctl2 w c).1 = 0 := by
  unfold lsbcIoctl2
  dsimp only
  split_ifs <;> rfl

section
variable {s : Control} {c : Ioctl}

/-- What a `RESTART` without a fault leaves. -/
theorem lsbcIoctl2_restart (w : Words) (hf : ¬ c.Faults) (hc : c.flags = ctl10Restart) :
    (lsbcIoctl2 w c).2.2 = ⟨w.progress,
      if word (c.readable.take 4) = 1 then 1 else word (c.readableAtOne.take 4)⟩ := by
  have hread : 4 ≤ c.readable.length := by
    by_contra hlt
    exact hf (.inl ⟨.inr (.inl hc), not_le.mp hlt⟩)
  have htake := copyFromUser_of_le hread
  by_cases hone : word (c.readable.take 4) = 1
  · simp [lsbcIoctl2, hc, htake, hone, ctl10Restart, ctl10Devinit, ctl10Progwrite, ctl10Progread]
  · have hread' : 4 ≤ c.readableAtOne.length := by
      by_contra hlt
      exact hf (.inr (.inr ⟨hc, htake ▸ hone, not_le.mp hlt⟩))
    simp [lsbcIoctl2, hc, htake, hone, copyFromUser_of_le hread', ctl10Restart, ctl10Devinit,
      ctl10Progwrite, ctl10Progread]

/-- A command without a fault, other than `RESTART`, gives the words that it is to give. -/
theorem lsbcIoctl2_given (w : Words) (hf : ¬ c.Faults) (hc : c.flags ≠ ctl10Restart) :
    (lsbcIoctl2 w c).2.2 = w.given c := by
  have hread : c.flags = ctl10Progwrite ∨ c.flags = ctl10Poweroff →
      word (copyFromUser c.readable 4).1 = word (c.readable.take 4) := by
    intro h
    rw [copyFromUser_of_le]
    by_contra hlt
    exact hf (.inl ⟨h.imp_right .inr, not_le.mp hlt⟩)
  unfold lsbcIoctl2 Words.given
  rw [if_neg hf]
  split_ifs <;>
    simp_all [ctl10Devinit, ctl10Progwrite, ctl10Progread, ctl10Restart, ctl10Poweroff, ctl10Stateoff]

theorem lsbcIoctl2_progread (w : Words) (hf : ¬ c.Faults) (hc : c.flags = ctl10Progread) :
    (lsbcIoctl2 w c).2.1 = Mem.bytes32 w.progress := by
  have hwrite : 4 ≤ c.writable := by
    by_contra hlt
    exact hf (.inr (.inl ⟨.inl hc, not_le.mp hlt⟩))
  simp [lsbcIoctl2, hc, copyToUser_word hwrite, ctl10Devinit, ctl10Progwrite, ctl10Progread]

theorem lsbcIoctl2_stateoff (w : Words) (hf : ¬ c.Faults) (hc : c.flags = ctl10Stateoff) :
    (lsbcIoctl2 w c).2.1 = Mem.bytes32 w.poweroff := by
  have hwrite : 4 ≤ c.writable := by
    by_contra hlt
    exact hf (.inr (.inl ⟨.inr hc, not_le.mp hlt⟩))
  simp [lsbcIoctl2, hc, copyToUser_word hwrite, ctl10Devinit, ctl10Progwrite, ctl10Progread,
    ctl10Restart, ctl10Poweroff, ctl10Stateoff]

theorem Control.meets_iff (hs : s.words = s.given) (c : Ioctl) : s.Meets c ↔ c.Fine := by
  unfold Control.Meets Ioctl.Fine
  rw [lsbcIoctl2_value]
  by_cases hf : c.Faults
  · exact iff_of_false (fun h => absurd (h.1 hf).1 (lt_irrefl 0)) (fun h => h.1 hf)
  rw [and_iff_right (fun h => absurd h hf), forall_prop_of_true hf, and_iff_right hf]
  have hread : c.flags = ctl10Progread → (lsbcIoctl2 s.words c).2.1 = Mem.bytes32 s.given.progress :=
    fun hc => hs ▸ lsbcIoctl2_progread s.words hf hc
  have hstate : c.flags = ctl10Stateoff → (lsbcIoctl2 s.words c).2.1 = Mem.bytes32 s.given.poweroff :=
    fun hc => hs ▸ lsbcIoctl2_stateoff s.words hf hc
  rw [and_iff_left (And.intro hread hstate)]
  refine forall_congr' fun hc => ?_
  rw [lsbcIoctl2_restart s.words hf hc]
  by_cases hone : word (c.readable.take 4) = 1 <;> simp [hone]

/-- Commands that do what they are to do keep the words that were given. -/
theorem Control.step_words (hs : s.words = s.given) (hm : s.Meets c) :
    (lsbcIoctl2 s.words c).2.2 = s.given.given c := by
  obtain ⟨hf, hone⟩ := (Control.meets_iff hs c).mp hm
  by_cases hc : c.flags = ctl10Restart
  · rw [lsbcIoctl2_restart s.words hf hc, Words.given, if_neg hf, hc, hs]
    have hpower : (if word (c.readable.take 4) = 1 then 1 else word (c.readableAtOne.take 4)) = 1 := by
      split_ifs with h
      · rfl
      · exact (hone hc).resolve_left h
    rw [hpower]
    rfl
  · rw [lsbcIoctl2_given s.words hf hc, hs]

end

/-- All commands of a run do what they are to do exactly when all their copies succeed, and every
`RESTART` finds a 1, at its address or at the address 1. -/
theorem driverControl_iff (cs : List Ioctl) :
    Along Control.step Control.Meets ⟨.start, .start⟩ cs ↔ ∀ c ∈ cs, c.Fine := by
  rw [Along.congr_of_invariant (I := fun s : Control => s.words = s.given)
    (Q := fun _ c => c.Fine) (fun _ c hs => Control.meets_iff hs c) ?_ rfl]
  · exact Along.iff_forall_mem fun s c _ => ⟨_, rfl⟩
  · rintro s c t hs hm ⟨⟩
    exact Control.step_words hs hm

/-- `croffw` gives the progress that it read last to its `RESTART`, here 99. -/
theorem not_driverControl_progress : ¬ Along Control.step Control.Meets ⟨.start, .start⟩
    [⟨ctl10Poweroff, Mem.bytes32 2, 4, []⟩, ⟨ctl10Progwrite, Mem.bytes32 99, 4, []⟩,
      ⟨ctl10Progread, Mem.bytes32 0, 4, []⟩, ⟨ctl10Restart, Mem.bytes32 99, 4, []⟩] := by
  intro h
  obtain ⟨-, h⟩ := h.2 _ rfl
  obtain ⟨-, h⟩ := h _ rfl
  obtain ⟨hrestart, -⟩ := h _ rfl
  exact absurd (hrestart.1 (by decide)).1 (by decide)

end Driver
end Carroll
