import Carroll.MsxFile

/-! # Damaged containers

When `libc0_decrypt` returns `1`, and `libmsx_decode` and `libmsx_decode_file` a block, although
the container is damaged.  `decrypt_sound_iff` and `decode_sound_iff` and `decodeFile_sound_iff`
give the conditions:

* `libc0_decrypt` does not notice that `inflate` stopped before the end of the stream;
* `libmsx_decode` returns the block whatever `libc0_decrypt` says;
* `libmsx_decode_file` returns the block with the raw file when it finds no `MSX` there. -/

namespace Carroll

/-- The body ends in the trailer and inflates to exactly `maxinum` bytes. -/
def Intact (P : Prims) (env : DecryptEnv) (c : Libc0) : Prop :=
  ∃ work, env.ptr = some work ∧ HasTrailer P c work ∧ InflatesFully P env.zlib c work

/-- `libc0_decrypt` returns `1` on an intact body only. -/
def DecryptSound (P : Prims) (env : DecryptEnv) (c : Libc0) (buffer : Option Mem) (length : ℕ) :
    Prop := (libc0Decrypt P env c buffer length).ret = true → Intact P env c

/-- `inflateInit` fails or `inflate` does not reach the end of the stream, behind a good trailer. -/
def StopsEarly (P : Prims) (env : DecryptEnv) (c : Libc0) : Prop :=
  env.zcone.isSome ∧ ∃ work, env.ptr = some work ∧ HasTrailer P c work ∧
    ¬ (env.zlib = true ∧ (bodyInflated P c work).streamEnd = true)

theorem looksInflated_iff (P : Prims) (zlib : Bool) (c : Libc0) (work : Mem) :
    LooksInflated P zlib c work ↔ InflatesFully P zlib c work ∨
      ¬ (zlib = true ∧ (bodyInflated P c work).streamEnd = true) := by
  unfold LooksInflated InflatesFully
  tauto

/-- When `libc0_decrypt` returns `1`, and what is then in the block. -/
theorem libc0Decrypt_ret_iff (P : Prims) (env : DecryptEnv) (c : Libc0) (buffer : Option Mem)
    (length : ℕ) :
    (libc0Decrypt P env c buffer length).ret = true ↔
      buffer.isSome ∧ length = c.maxinum ∧ ((env.zcone.isSome ∧ Intact P env c) ∨ StopsEarly P env c) := by
  obtain ⟨ptr, zcone, zlib, unset⟩ := env
  cases ptr with
  | none => simp [libc0Decrypt, Intact, StopsEarly]
  | some work =>
  cases zcone with
  | none => simp [libc0Decrypt, StopsEarly]
  | some zcone =>
  have hlooks := looksInflated_iff P zlib c work
  rcases libc0Decrypt_some P c work zcone zlib unset buffer length with
    ⟨ht, hz, hl, b, rfl, heq⟩ | ⟨hno, heq⟩
  · rw [heq]
    simp only [Intact, StopsEarly, Option.isSome_some, Option.some.injEq, exists_eq_left',
      true_and, ht, hl]
    exact ⟨fun _ => hlooks.mp hz, fun _ => trivial⟩
  · rw [heq]
    simp only [Intact, StopsEarly, Option.isSome_some, Option.some.injEq, exists_eq_left',
      true_and, Bool.false_eq_true, false_iff]
    rintro ⟨hb, hl, hor⟩
    exact hno ⟨hor.elim And.left And.left, hlooks.mpr (hor.imp And.right And.right), hl, hb⟩

theorem decrypt_sound_iff (P : Prims) (env : DecryptEnv) (c : Libc0) (buffer : Option Mem)
    (length : ℕ) :
    DecryptSound P env c buffer length ↔
      ¬ (buffer.isSome ∧ length = c.maxinum ∧ StopsEarly P env c) := by
  rw [DecryptSound, libc0Decrypt_ret_iff]
  constructor
  · rintro h ⟨hb, hl, hstop⟩
    obtain ⟨work, hwork, -, hz, hend, -⟩ := h ⟨hb, hl, .inr hstop⟩
    obtain ⟨-, work', hwork', -, hnot⟩ := hstop
    obtain rfl := Option.some.inj (hwork.symm.trans hwork')
    exact hnot ⟨hz, hend⟩
  · rintro hno ⟨hb, hl, ⟨-, hint⟩ | hstop⟩
    · exact hint
    · exact absurd ⟨hb, hl, hstop⟩ hno

/-! ### `libmsx_decode` -/

/-- `libc0_decrypt` returns `1` for the container, which is intact, and `b` holds what inflating
its body gave. -/
def Delivers (P : Prims) (env : MsxDecodeEnv) (c : Libc0) (b : Mem) : Prop :=
  (libc0Decrypt P env.decrypt c env.ptr c.maxinum).ret = true ∧
    ∃ work, env.decrypt.ptr = some work ∧ HasTrailer P c work ∧
      InflatesFully P env.decrypt.zlib c work ∧ b.peek 0 c.maxinum = (bodyInflated P c work).out

/-- `libmsx_decode` returns a block with the inflated body only. -/
def DecodeSound (P : Prims) (env : MsxDecodeEnv) (c : Libc0) (keys : Mem) (length : ℕ) : Prop :=
  ∀ b, (libmsxDecode P env c keys length).1 = some b → Delivers P env c b

theorem delivers_iff (P : Prims) (env : MsxDecodeEnv) (c : Libc0) {keys : Mem}
    (h : Admitted P env c keys) {length : ℕ} {b : Mem}
    (hb : (libmsxDecode P env c keys length).1 = some b) :
    Delivers P env c b ↔ env.decrypt.zcone.isSome ∧ Intact P env.decrypt c := by
  rcases libmsxDecode_cases P env c keys length with ⟨hno, -⟩ | ⟨-, ptr, hptr, hrun⟩
  · exact absurd h hno
  constructor
  · rintro ⟨hret, work, hwork, ht, hfull, -⟩
    obtain ⟨-, -, ⟨hz, -⟩ | ⟨hz, -⟩⟩ := (libc0Decrypt_ret_iff P _ c env.ptr c.maxinum).mp hret
    · exact ⟨hz, work, hwork, ht, hfull⟩
    · exact ⟨hz, work, hwork, ht, hfull⟩
  · rintro ⟨hz, work, hwork, ht, hfull⟩
    have hret := (libc0Decrypt_ret_iff P env.decrypt c env.ptr c.maxinum).mpr
      ⟨by simp [hptr], rfl, .inl ⟨hz, work, hwork, ht, hfull⟩⟩
    refine ⟨hret, work, hwork, ht, hfull, ?_⟩
    obtain ⟨zcone, hzcone⟩ := Option.isSome_iff_exists.mp hz
    have henv : env.decrypt = ⟨some work, some zcone, env.decrypt.zlib, env.decrypt.unset⟩ := by
      rw [← hwork, ← hzcone]
    rw [hrun, henv] at hb
    rcases libc0Decrypt_some P c work zcone env.decrypt.zlib env.decrypt.unset (some ptr)
      c.maxinum with
      ⟨-, -, -, b', -, heq⟩ | ⟨hno, -⟩
    · rw [heq] at hb
      rw [← Option.some.inj hb, Mem.peek_poke_of_length _ _ (Mem.length_peek _ _ _)]
      exact peek_inflatedBuffer hfull
    · exact absurd ⟨ht, hfull.looksInflated, rfl, rfl⟩ hno

theorem decode_sound_iff (P : Prims) (env : MsxDecodeEnv) (c : Libc0) (keys : Mem) (length : ℕ) :
    DecodeSound P env c keys length ↔
      (Admitted P env c keys → env.decrypt.zcone.isSome ∧ Intact P env.decrypt c) := by
  constructor
  · intro h hadm
    obtain ⟨b, hb⟩ := Option.isSome_iff_exists.mp
      ((libmsxDecode_isSome_iff P env c keys length).mpr hadm)
    exact (delivers_iff P env c hadm hb).mp (h b hb)
  · intro h b hb
    have hadm := (libmsxDecode_isSome_iff P env c keys length).mp (by simp [hb])
    exact (delivers_iff P env c hadm hb).mpr (h hadm)

/-! ### `libmsx_decode_file` -/

/-- `libmsx_decode_file` gets to decoding the container `c`. -/
def Reaches (env : DecodeFileEnv) (file : List UInt8) (seek : ℕ) (c : Libc0) : Prop :=
  env.opened = true ∧ ReadsMagic env file seek ∧ loadContainer env.load file seek = some c

/-- `libmsx_decode_file` returns a block with an inflated body only. -/
def DecodeFileSound (P : Prims) (env : DecodeFileEnv) (file : List UInt8) (n₀ : ℕ) (keys : Mem)
    (seek : ℕ) : Prop :=
  ∀ b, (libmsxDecodeFile P env file n₀ keys seek).1 = some b →
    ∃ c, Reaches env file seek c ∧ Delivers P env.decode c b

theorem decodeFile_sound_iff (P : Prims) (env : DecodeFileEnv) (file : List UInt8) (n₀ : ℕ)
    (keys : Mem) (seek : ℕ) :
    DecodeFileSound P env file n₀ keys seek ↔
      (env.opened = true → env.buffer.isSome → ReadsMagic env file seek) ∧
      ∀ c, Reaches env file seek c → Admitted P env.decode c keys →
        env.decode.decrypt.zcone.isSome ∧ Intact P env.decode.decrypt c := by
  unfold DecodeFileSound
  rcases libmsxDecodeFile_cases P env file n₀ keys seek with
    ⟨hno, h⟩ | ⟨hopen, hbuf, hmagic, b, h⟩ | ⟨hopen, hmagic, hload, h⟩ | ⟨hopen, hmagic, c, hload, h, -⟩
  · rw [h]
    refine ⟨fun _ => ⟨fun h₁ h₂ => absurd ⟨h₁, h₂⟩ hno, ?_⟩, fun _ b hb => nomatch hb⟩
    rintro c ⟨hopen, ⟨buffer, data, hbuf, -⟩, -⟩ -
    exact absurd ⟨hopen, by simp [hbuf]⟩ hno
  · rw [h]
    refine ⟨fun hsound => ?_, fun hcond => absurd (hcond.1 hopen hbuf) hmagic⟩
    obtain ⟨c, ⟨-, hm, -⟩, -⟩ := hsound b rfl
    exact absurd hm hmagic
  · rw [h]
    refine ⟨fun _ => ⟨fun _ _ => hmagic, ?_⟩, fun _ b hb => nomatch hb⟩
    rintro c ⟨-, -, hsome⟩ -
    exact nomatch hload.symm.trans hsome
  · have hreach : ∀ c', Reaches env file seek c' ↔ c' = c := fun c' =>
      ⟨fun h => Option.some.inj (h.2.2.symm.trans hload), fun h => h ▸ ⟨hopen, hmagic, hload⟩⟩
    have hiff := decode_sound_iff P env.decode c keys (getFilesize env.fstat file)
    unfold DecodeSound at hiff
    rw [h]
    simp only [hreach, exists_eq_left, forall_eq, hmagic, implies_true, true_and]
    exact hiff

/-- **Damaged containers.**  For every container, passphrase, outcome of the steps and content of
the blocks: `libc0_decrypt` returns `1` on intact bodies only, unless `inflate` stops early behind
a good trailer; `libmsx_decode` returns inflated bodies only, exactly when the container is refused
by the checks of its header or is intact; and `libmsx_decode_file` does so exactly when it finds
the magic in the block it allocates and the container, if it gets to decoding one, is refused or
intact.  Last, when the lengths in a header keep `libc0_decrypt` inside its blocks. -/
theorem damaged_containers (P : Prims) :
    (∀ (env : DecryptEnv) (c : Libc0) (buffer : Option Mem) (length : ℕ),
      DecryptSound P env c buffer length ↔
        ¬ (buffer.isSome ∧ length = c.maxinum ∧ StopsEarly P env c)) ∧
    (∀ (env : MsxDecodeEnv) (c : Libc0) (keys : Mem) (length : ℕ),
      DecodeSound P env c keys length ↔
        (Admitted P env c keys → env.decrypt.zcone.isSome ∧ Intact P env.decrypt c)) ∧
    (∀ (env : DecodeFileEnv) (file : List UInt8) (n₀ : ℕ) (keys : Mem) (seek : ℕ),
      DecodeFileSound P env file n₀ keys seek ↔
        (env.opened = true → env.buffer.isSome → ReadsMagic env file seek) ∧
        ∀ c, Reaches env file seek c → Admitted P env.decode c keys →
          env.decode.decrypt.zcone.isSome ∧ Intact P env.decode.decrypt c) ∧
    ∀ (c : Libc0) (work zcone : Mem) (zlib : Bool) (unset size : ℕ),
      InBounds (libc0DecryptAccesses P ⟨some work, some zcone, zlib, unset⟩ c size) ↔
        16 ≤ c.number ∧ c.number + 4 < 2 ^ 32 ∧ c.length ≤ c.number + 4 ∧ c.number ≤ size ∧
        c.maxinum + 4 < 2 ^ 32 ∧ (HasTrailer P c work → c.mininum ≤ c.number + 4) ∧
        (¬ HasTrailer P c work → 0 ∈ (libc0Body P c work).peek 0 (c.number + 4)) :=
  ⟨decrypt_sound_iff P, decode_sound_iff P, decodeFile_sound_iff P, libc0Decrypt_inBounds_iff P⟩

/-- A container of `sampleText` whose `mininum` was changed to `0`: `libc0_decrypt` returns `1` and
`libmsx_decode` returns a block of zeros. -/
theorem damaged_mininum : ∃ c,
    Made samplePrims sampleText (passphrase samplePassword Mem.zero) c ∧
    (libc0Decrypt samplePrims MsxDecodeEnv.zero.decrypt (c.store32 252 0) (some Mem.zero)
      sampleText.length).ret =
      true ∧
    InBounds (libc0DecryptAccesses samplePrims MsxDecodeEnv.zero.decrypt (c.store32 252 0) c.number) ∧
    ¬ DecryptSound samplePrims MsxDecodeEnv.zero.decrypt (c.store32 252 0) (some Mem.zero)
      sampleText.length ∧
    ¬ DecodeSound samplePrims MsxDecodeEnv.zero (c.store32 252 0)
      (passphrase samplePassword Mem.zero) 0 := by
  obtain ⟨c, hc, -⟩ := libmsxEncode_ok samplePrims_lawful Mem.zero (Vector.replicate 8 0) Mem.zero
    Mem.zero Mem.zero (0, 0) (passphrase samplePassword Mem.zero) 0 (show sampleText ≠ [] by decide)
    (by decide)
  obtain ⟨c₀, henc⟩ := hc.encrypted
  have hpeek : ∀ off n, off + n ≤ 252 → (c.store32 252 0).img.peek off n = c.img.peek off n :=
    fun off n h => Mem.peek_put32_disjoint _ _ (.inl h)
  have hmax : (c.store32 252 0).maxinum = sampleText.length :=
    (Mem.get32_congr (hpeek 248 4 (by norm_num))).trans henc.maxinum
  have hmin : (c.store32 252 0).mininum = 0 := Mem.get32_put32 _ _ _
  have hnum : (c.store32 252 0).number = c.number := Mem.get32_congr (hpeek 232 4 (by norm_num))
  have hbody : libc0Body samplePrims (c.store32 252 0) Mem.zero = libc0Body samplePrims c Mem.zero := by
    have hhash : (c.store32 252 0).hash = c.hash := hpeek 92 64 (by norm_num)
    have hkey : (c.store32 252 0).key = c.key := hpeek 160 32 (by norm_num)
    have hlen : (c.store32 252 0).length = c.length := Mem.get32_congr (hpeek 244 4 (by norm_num))
    rw [libc0Body, hhash, hkey, hlen, hnum]
    rfl
  have htrailer : HasTrailer samplePrims (c.store32 252 0) Mem.zero := by
    have := henc.hasTrailer samplePrims_lawful (SameContainer.refl c) Mem.zero
    rwa [HasTrailer, hnum, hbody]
  have hinf : bodyInflated samplePrims (c.store32 252 0) Mem.zero = ⟨false, []⟩ := by
    rw [bodyInflated, hmin]
    rfl
  have hstop : StopsEarly samplePrims MsxDecodeEnv.zero.decrypt (c.store32 252 0) :=
    ⟨rfl, Mem.zero, rfl, htrailer, by simp [hinf]⟩
  have hnot : ¬ Intact samplePrims MsxDecodeEnv.zero.decrypt (c.store32 252 0) := by
    rintro ⟨work, hwork, -, -, hend, -⟩
    obtain rfl : Mem.zero = work := Option.some.inj hwork
    rw [hinf] at hend
    exact Bool.false_ne_true hend
  refine ⟨c, hc, (libc0Decrypt_ret_iff _ _ _ _ _).mpr ⟨rfl, hmax.symm, .inr hstop⟩, ?_, ?_, ?_⟩
  · have hlen : (c.store32 252 0).length = c.number :=
      (Mem.get32_congr (hpeek 244 4 (by norm_num))).trans henc.length
    have hle := hc.number_bounds
    unfold MsxDecodeEnv.zero
    rw [libc0Decrypt_inBounds_iff, hnum, hlen, hmax, hmin]
    exact ⟨by omega, by omega, by omega, le_rfl, by decide, fun _ => Nat.zero_le _,
      fun hno => absurd htrailer hno⟩
  · rw [decrypt_sound_iff]
    exact not_not.mpr ⟨rfl, hmax.symm, hstop⟩
  · rw [decode_sound_iff]
    have hadm : Admitted samplePrims MsxDecodeEnv.zero (c.store32 252 0)
        (passphrase samplePassword Mem.zero) := by
      have hpub : (c.store32 252 0).publicKey = c.publicKey := hpeek 52 32 (by norm_num)
      have hpriv : (c.store32 252 0).privateKey = c.privateKey := hpeek 12 32 (by norm_num)
      have hmagic : (c.store32 252 0).magic = c.magic := hpeek 0 3 (by norm_num)
      rw [Admitted, KeyChecks, hpub, hpriv, hmagic, hc.publicKey, hc.privateKey]
      exact ⟨⟨strnEq_self _, strnEq_self _⟩, hc.magic, rfl⟩
    exact fun h => hnot (h hadm).2

end Carroll
