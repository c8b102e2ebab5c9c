import Carroll.Msx

/-! # Segments over a socket

The client side and the server side of `libsck.c`: `libsck_client`, the calls of `cwrite` that
`crmicp` makes for its segments, `cread`, and the loop of `libsck_callback`.

* `libsck_client` stores the result of `connect`, which is `0`, in `fdc`, and `cwrite` sends to
  `fdc`: not to the socket, whose descriptor is in `fds`.  Descriptor `0` is in use when `socket`
  is called, since `main` has opened the device before.
* `cwrite` keeps the result of `send` in an unsigned variable and compares it with `-1`
  (`cwriteSends_iff`).
* `cread` reads one byte at a time, so the ways in which the bytes arrive make no difference
  (`cread_flatten`).
* `libsck_callback` hands the address of its parameter `ctx` to `libmsx_decode`, not the buffer it
  has read.

The replies `+OK` of the server are left out.  Main result: `segment_delivery`. -/

namespace Carroll

/-! ### The client -/

/-- What a descriptor refers to: the connection to the server, or anything else. -/
inductive Descriptor
  | connection
  | other
  deriving DecidableEq

/-- The open descriptors of a process in which `0` is in use. -/
structure Process where
  table : ℕ → Option Descriptor
  zero : table 0 = some .other

/-- The descriptors in `zconfig_server_t`. -/
structure ServerFds where
  fds : ℤ
  fdc : ℤ

/-- `connect`. -/
def connectResult (ok : Bool) : ℤ := if ok then 0 else -1

/-- `libsck_client`: `socket` returns a free descriptor or fails.  The open descriptors and the
configuration after it returned `1`. -/
def libsckClient (p : Process) (socket : Option {n // p.table n = none}) (pton connect : Bool) :
    Option ((ℕ → Option Descriptor) × ServerFds) :=
  match socket with
  | none => none
  | some fds =>
      if !pton then none
      else if connectResult connect = -1 then none
      else some (Function.update p.table fds.1 (some .connection), ⟨fds.1, connectResult connect⟩)

/-- A `send` to descriptor `fd` enters the connection. -/
def IsConnection (table : ℕ → Option Descriptor) (fd : ℤ) : Prop :=
  0 ≤ fd ∧ table fd.toNat = some .connection

instance (table : ℕ → Option Descriptor) (fd : ℤ) : Decidable (IsConnection table fd) :=
  inferInstanceAs (Decidable (_ ∧ _))

/-- The value of `-1` in the variable `sent_bytes`, which is unsigned. -/
def sendError : ℕ := 2 ^ 32 - 1

/-- The loop of `cwrite`: the bytes that `send` took and the return value.  A result `none` of
`send` is `-1`; without a further result the call does not return. -/
def cwriteLoop (length : ℕ) : List (Option ℕ) → ℕ → List UInt8 → List UInt8 × Option ℕ
  | results, sentBytes, buffer =>
      if buffer = [] then ([], some 1)
      else if length ≤ sentBytes then ([], some 1)
      else
        match results with
        | [] => ([], none)
        | none :: _ => ([], some 0)
        | some k :: results =>
            let sentBytes := min k buffer.length
            if sentBytes = sendError then (buffer.take k, some 0)
            else
              let r := cwriteLoop length results sentBytes (buffer.drop k)
              (buffer.take k ++ r.1, r.2)

/-- `cwrite(s, buffer, length)`: the bytes that enter the connection and the return value. -/
def cwrite (table : ℕ → Option Descriptor) (s : ServerFds) (results : List (Option ℕ))
    (buffer : List UInt8) : List UInt8 × Option ℕ :=
  let r := cwriteLoop buffer.length results 0 buffer
  (if IsConnection table s.fdc then r.1 else [], r.2)

/-- The calls of `sound_callback_threads_ctx`, one for each segment, with the results of their
`send`s: the bytes that enter the connection. -/
def soundCallbacks (table : ℕ → Option Descriptor) (s : ServerFds) :
    List (List UInt8 × List (Option ℕ)) → List UInt8
  | [] => []
  | (segment, results) :: rest =>
      match cwrite table s results segment with
      | (bytes, none) => bytes
      | (bytes, some _) => bytes ++ soundCallbacks table s rest

/-! ### The server -/

/-- `ZSEOL`. -/
def zseol : ℕ → UInt8
  | 0 => 0x0d
  | _ => 0x0a

/-- What `cread` leaves: its result, the buffer, and what has not been read. -/
structure Received (α : Type) where
  ret : ℕ
  buffer : Mem
  rest : α

/-- The loop of `cread` over the pieces in which the bytes arrive. -/
def creadLoop (length : ℕ) (buffer : Mem) (count eolMatched : ℕ) :
    List (List UInt8) → Received (List (List UInt8))
  | [] => ⟨0, buffer, []⟩
  | [] :: chunks => creadLoop length buffer count eolMatched chunks
  | (b :: chunk) :: chunks =>
      let buffer := buffer.poke count [b]
      if length ≤ count then ⟨0, buffer, chunk :: chunks⟩
      else if b = zseol eolMatched then
        if eolMatched + 1 = 2 then
          let buffer := buffer.poke (count - 1) [0]
          ⟨(cstr (buffer.peek 0 (count + 1))).length, buffer, chunk :: chunks⟩
        else creadLoop length buffer (count + 1) (eolMatched + 1) (chunk :: chunks)
      else creadLoop length buffer (count + 1) 0 (chunk :: chunks)
  termination_by chunks => chunks.flatten.length + chunks.length

/-- `cread(s, buffer, length)`. -/
def cread (length : ℕ) (buffer : Mem) (chunks : List (List UInt8)) : Received (List (List UInt8)) :=
  creadLoop length buffer 0 0 chunks

/-- The same loop over the bytes, however they arrive. -/
def readLine (length : ℕ) : Mem → ℕ → ℕ → List UInt8 → Received (List UInt8)
  | buffer, _, _, [] => ⟨0, buffer, []⟩
  | buffer, count, eolMatched, b :: bytes =>
      let buffer := buffer.poke count [b]
      if length ≤ count then ⟨0, buffer, bytes⟩
      else if b = zseol eolMatched then
        if eolMatched + 1 = 2 then
          let buffer := buffer.poke (count - 1) [0]
          ⟨(cstr (buffer.peek 0 (count + 1))).length, buffer, bytes⟩
        else readLine length buffer (count + 1) (eolMatched + 1) bytes
      else readLine length buffer (count + 1) 0 bytes

/-- `cread` does not depend on how the bytes are split. -/
theorem creadLoop_flatten (length : ℕ) (buffer : Mem) (count eolMatched : ℕ)
    (chunks : List (List UInt8)) :
    (creadLoop length buffer count eolMatched chunks).ret =
      (readLine length buffer count eolMatched chunks.flatten).ret ∧
    (creadLoop length buffer count eolMatched chunks).buffer =
      (readLine length buffer count eolMatched chunks.flatten).buffer ∧
    (creadLoop length buffer count eolMatched chunks).rest.flatten =
      (readLine length buffer count eolMatched chunks.flatten).rest := by
  fun_induction creadLoop length buffer count eolMatched chunks with
  | case1 buffer count eolMatched => simp [readLine]
  | case2 buffer count eolMatched chunks ih => simpa using ih
  | case3 buffer count eolMatched b chunk chunks buf h =>
      simp [readLine, h, buf]
  | case4 buffer count eolMatched chunk chunks h htwo buf buf' =>
      simp [readLine, h, htwo, buf, buf']
  | case5 buffer count eolMatched chunk chunks h htwo buf ih =>
      simpa [readLine, h, htwo, buf] using ih
  | case6 buffer count eolMatched b chunk chunks buf h heol ih =>
      simpa [readLine, h, heol, buf] using ih

theorem readLine_rest_le (length : ℕ) (buffer : Mem) (count eolMatched : ℕ) (bytes : List UInt8) :
    (readLine length buffer count eolMatched bytes).rest.length ≤ bytes.length := by
  fun_induction readLine length buffer count eolMatched bytes with
  | case1 buffer count eolMatched => simp
  | case2 buffer count eolMatched b bytes buf h => simp
  | case3 buffer count eolMatched bytes h htwo buf buf' => simp
  | case4 buffer count eolMatched bytes h htwo buf ih => exact ih.trans (Nat.le_succ _)
  | case5 buffer count eolMatched b bytes buf h heol ih => exact ih.trans (Nat.le_succ _)

/-- A line that is returned was read. -/
theorem readLine_rest_lt (length : ℕ) {buffer : Mem} {count eolMatched : ℕ} {bytes : List UInt8}
    (h : 0 < (readLine length buffer count eolMatched bytes).ret) :
    (readLine length buffer count eolMatched bytes).rest.length < bytes.length := by
  cases bytes with
  | nil => exact absurd h (lt_irrefl 0)
  | cons b bytes =>
      rw [readLine] at h ⊢
      dsimp only at h ⊢
      split_ifs
      · exact Nat.lt_succ_self _
      · exact Nat.lt_succ_self _
      · exact Nat.lt_succ_of_le (readLine_rest_le _ _ _ _ _)
      · exact Nat.lt_succ_of_le (readLine_rest_le _ _ _ _ _)

theorem cread_rest_lt {length : ℕ} {buffer : Mem} {chunks : List (List UInt8)}
    (h : 0 < (cread length buffer chunks).ret) :
    (cread length buffer chunks).rest.flatten.length < chunks.flatten.length := by
  obtain ⟨hret, -, hrest⟩ := creadLoop_flatten length buffer 0 0 chunks
  rw [cread] at h ⊢
  rw [hrest]
  rw [hret] at h
  exact readLine_rest_lt length h

/-- The memory at `&ctx` and the outcome of the steps of `libmsx_decode`, for each call, and the
memory at the string `hello lexne`. -/
structure ServerEnv where
  ctx : ℕ → Libc0
  decode : ℕ → MsxDecodeEnv
  helloLexne : Mem

/-- `SSC_STREAM_BLOCK*MGC_SEEK1`. -/
def bufferLength : ℕ := 24 * 22048

/-- The loop of `libsck_callback` from the `i`-th call of `libmsx_decode` on: the arguments with
which the callback is called. -/
def callbackLoop (P : Prims) (env : ServerEnv) (i len : ℕ) (buffer : Mem)
    (chunks : List (List UInt8)) : List (Option Mem × ℕ) :=
  let r := cread bufferLength buffer chunks
  if _h : 0 < r.ret then
    let d := libmsxDecode P (env.decode i) (env.ctx i) env.helloLexne len
    d :: callbackLoop P env (i + 1) d.2 r.buffer r.rest
  else []
  termination_by chunks.flatten.length
  decreasing_by exact cread_rest_lt _h

/-- `libsck_callback` on one connection. -/
def libsckCallback (P : Prims) (env : ServerEnv) (accepted ready : Bool) (buffer : Mem)
    (chunks : List (List UInt8)) : List (Option Mem × ℕ) :=
  if !accepted then []
  else if !ready then []
  else callbackLoop P env 0 0 buffer chunks

/-! ### What `cwrite` sends -/

/-- Results of `send` for `n` bytes to send: each is `-1` or between 1 and what is left. -/
def Sends : ℕ → List (Option ℕ) → Prop
  | _, [] => True
  | _, none :: _ => True
  | n, some k :: results => n = 0 ∨ 0 < k ∧ k ≤ n ∧ Sends (n - k) results

theorem Sends.some {n k : ℕ} {results : List (Option ℕ)} (h : Sends n (some k :: results))
    (hn : n ≠ 0) : 0 < k ∧ k ≤ n ∧ Sends (n - k) results :=
  h.resolve_left hn

/-- No byte is left out or sent twice. -/
theorem cwriteLoop_stored (length : ℕ) (results : List (Option ℕ)) (sentBytes : ℕ)
    (buffer : List UInt8) : (cwriteLoop length results sentBytes buffer).1 <+: buffer := by
  fun_induction cwriteLoop length results sentBytes buffer with
  | case1 => exact List.nil_prefix
  | case2 => exact List.nil_prefix
  | case3 => exact List.nil_prefix
  | case4 => exact List.nil_prefix
  | case5 sentBytes buffer hne hlt k results sent hsent => exact List.take_prefix k buffer
  | case6 sentBytes buffer hne hlt k results sent hsent r ih =>
      obtain ⟨rest, hrest⟩ := ih
      refine ⟨rest, ?_⟩
      rw [List.append_assoc, hrest, List.take_append_drop]

/-- The first `send` takes 2^32 - 1 bytes, which `cwrite` takes for `-1`. -/
def TakenForError (buffer : List UInt8) (results : List (Option ℕ)) : Prop :=
  buffer.length = sendError ∧ results.head? = some (some sendError)

/-- Otherwise the result is 1 exactly when all is sent, and every `send` brings the end nearer. -/
theorem cwriteLoop_complete {length : ℕ} {results : List (Option ℕ)} {sentBytes : ℕ}
    {buffer : List UInt8} (hresults : Sends buffer.length results)
    (hsent : buffer = [] ∨ sentBytes < length) (hle : buffer.length ≤ length)
    (hlength : length ≤ sendError) (htaken : ¬ TakenForError buffer results) :
    ((cwriteLoop length results sentBytes buffer).2 = some 1 ↔
      (cwriteLoop length results sentBytes buffer).1 = buffer) ∧
    (buffer.length ≤ results.length → (cwriteLoop length results sentBytes buffer).2 ≠ none) := by
  fun_induction cwriteLoop length results sentBytes buffer with
  | case1 results sentBytes => simp
  | case2 results sentBytes buffer hne hlen => exact absurd (hsent.resolve_left hne) (not_lt.mpr hlen)
  | case3 sentBytes buffer hne hlt => simp [hne, Ne.symm hne]
  | case4 sentBytes buffer hne hlt results => simp [Ne.symm hne]
  | case5 sentBytes buffer hne hlt k results sent hmax =>
      obtain ⟨-, hk, -⟩ := hresults.some (mt List.eq_nil_of_length_eq_zero hne)
      have hkmax : k = sendError := (min_eq_left hk).symm.trans hmax
      refine absurd ⟨?_, congrArg (some ∘ some) hkmax⟩ htaken
      omega
  | case6 sentBytes buffer hne hlt k results sent hmax r ih =>
      obtain ⟨hpos, hk, hrest⟩ := hresults.some (mt List.eq_nil_of_length_eq_zero hne)
      have hsentk : sent = k := min_eq_left hk
      have hdrop : (buffer.drop k).length = buffer.length - k := List.length_drop
      obtain ⟨hall, hend⟩ := ih (hdrop ▸ hrest)
        (by
          rw [List.drop_eq_nil_iff, hsentk]
          omega)
        (by omega)
        (fun htaken' => by
          have := htaken'.1
          omega)
      refine ⟨hall.trans ?_, fun hlen => hend ?_⟩
      · have hsplit := List.take_append_drop k buffer
        constructor
        · intro hr
          exact (congrArg (buffer.take k ++ ·) hr).trans hsplit
        · intro hr
          exact List.append_cancel_left (hr.trans hsplit.symm)
      · rw [List.length_cons] at hlen
        omega

/-- What is sent is a prefix of the buffer, the result is 1 exactly when it is all of it, and a
result for each byte is enough for `cwrite` to return. -/
def CwriteSends (results : List (Option ℕ)) (buffer : List UInt8) : Prop :=
  (cwriteLoop buffer.length results 0 buffer).1 <+: buffer ∧
  ((cwriteLoop buffer.length results 0 buffer).2 = some 1 ↔
    (cwriteLoop buffer.length results 0 buffer).1 = buffer) ∧
  (buffer.length ≤ results.length → (cwriteLoop buffer.length results 0 buffer).2 ≠ none)

/-- All is sent, and `cwrite` returns 0. -/
theorem TakenForError.cwriteLoop_eq {buffer : List UInt8} {results : List (Option ℕ)}
    (h : TakenForError buffer results) :
    cwriteLoop buffer.length results 0 buffer = (buffer, some 0) := by
  obtain ⟨hlen, hhead⟩ := h
  have hpos : 0 < buffer.length := by
    rw [hlen]
    norm_num [sendError]
  obtain ⟨rest, rfl⟩ := List.head?_eq_some_iff.mp hhead
  rw [cwriteLoop, if_neg (List.length_pos_iff.mp hpos), if_neg (not_le.mpr hpos)]
  dsimp only
  rw [← hlen, min_self, hlen, if_pos rfl, ← hlen, List.take_length]

/-- `cwrite` sends all or reports, except when one `send` takes 2^32 - 1 bytes. -/
theorem cwriteSends_iff {buffer : List UInt8} {results : List (Option ℕ)}
    (hlength : buffer.length < 2 ^ 32) (hresults : Sends buffer.length results) :
    CwriteSends results buffer ↔ ¬ TakenForError buffer results := by
  constructor
  · rintro ⟨-, hall, -⟩ htaken
    rw [htaken.cwriteLoop_eq] at hall
    exact absurd (hall.mpr rfl) (by simp)
  · intro htaken
    have hstart : buffer = [] ∨ 0 < buffer.length := by
      rw [List.length_pos_iff]
      exact em _
    have hmax : buffer.length ≤ sendError := Nat.le_of_lt_succ hlength
    exact ⟨cwriteLoop_stored _ _ _ _,
      cwriteLoop_complete hresults hstart le_rfl hmax htaken⟩

/-- Three bytes, sent in two parts. -/
theorem cwriteSends_two : CwriteSends [some 2, some 1] [1, 2, 3] :=
  (cwriteSends_iff (by decide) (by simp [Sends])).mpr fun h => absurd h.1 (by decide)

/-- A buffer of 2^32 - 1 bytes, taken by one `send`. -/
theorem not_cwriteSends_max : ¬ CwriteSends [some sendError] (List.replicate sendError 0) := by
  have htaken : TakenForError (List.replicate sendError 0) [some sendError] :=
    ⟨List.length_replicate, rfl⟩
  rintro ⟨-, hall, -⟩
  rw [htaken.cwriteLoop_eq] at hall
  exact absurd (hall.mpr rfl) (by decide)

/-! ### Delivery -/

/-- The callback was called once for each segment, in order, with its bytes and its length. -/
def Delivered (calls : List (Option Mem × ℕ)) (segments : List (List UInt8)) : Prop :=
  List.Forall₂ (fun call segment => ∃ b, call = (some b, segment.length) ∧
    b.peek 0 segment.length = segment) calls segments

/-- After `libsck_client` returned `1`, `fdc` is not the connection. -/
theorem libsckClient_fdc {p : Process} {socket : Option {n // p.table n = none}} {pton connect : Bool}
    {table : ℕ → Option Descriptor} {s : ServerFds}
    (h : libsckClient p socket pton connect = some (table, s)) : ¬ IsConnection table s.fdc := by
  cases socket with
  | none => exact nomatch h
  | some fds =>
      rw [libsckClient] at h
      split_ifs at h with hpton hconn
      cases connect with
      | false => exact absurd rfl hconn
      | true =>
          obtain ⟨rfl, rfl⟩ := Prod.mk.inj (Option.some.inj h)
          have hne : (0 : ℕ) ≠ fds.1 := fun h0 => by
            have := fds.2
            rw [← h0, p.zero] at this
            exact nomatch this
          rintro ⟨-, hcon⟩
          have hzero : Function.update p.table fds.1 (some .connection) 0 = some .other := by
            rw [Function.update_of_ne hne, p.zero]
          exact nomatch hzero.symm.trans hcon

/-- A `cwrite` to anything else puts nothing in the connection. -/
theorem cwrite_other {table : ℕ → Option Descriptor} {s : ServerFds} (h : ¬ IsConnection table s.fdc)
    (results : List (Option ℕ)) (buffer : List UInt8) : (cwrite table s results buffer).1 = [] :=
  if_neg h

theorem soundCallbacks_other {table : ℕ → Option Descriptor} {s : ServerFds}
    (h : ¬ IsConnection table s.fdc) (segments : List (List UInt8 × List (Option ℕ))) :
    soundCallbacks table s segments = [] := by
  induction segments with
  | nil => rfl
  | cons segment segments ih =>
      obtain ⟨bytes, results⟩ := segment
      have hbytes : (cwrite table s results bytes).1 = [] := cwrite_other h results bytes
      rw [soundCallbacks]
      generalize cwrite table s results bytes = r at hbytes
      obtain ⟨sent, ret⟩ := r
      cases ret with
      | none => exact hbytes
      | some ret => exact (congrArg₂ (· ++ ·) hbytes ih)

/-- The callback is called for lines that arrive only. -/
theorem libsckCallback_nil (P : Prims) (env : ServerEnv) (accepted ready : Bool) (buffer : Mem)
    {chunks : List (List UInt8)} (h : chunks.flatten = []) :
    libsckCallback P env accepted ready buffer chunks = [] := by
  have hret : (cread bufferLength buffer chunks).ret = 0 := by
    rw [cread, (creadLoop_flatten bufferLength buffer 0 0 chunks).1, h]
    rfl
  rw [libsckCallback, callbackLoop, hret]
  split_ifs <;> simp_all

/-- The calls that `libmsx_decode` makes of the memory at `&ctx`. -/
def decodeCalls (P : Prims) (env : ServerEnv) : ℕ → ℕ → ℕ → List (Option Mem × ℕ)
  | _, _, 0 => []
  | i, len, n + 1 =>
      let d := libmsxDecode P (env.decode i) (env.ctx i) env.helloLexne len
      d :: decodeCalls P env (i + 1) d.2 n

/-- Whatever arrives, the arguments of the callback come from the memory at `&ctx`; what arrives
decides how many calls there are. -/
theorem callbackLoop_eq (P : Prims) (env : ServerEnv) (i len : ℕ) (buffer : Mem)
    (chunks : List (List UInt8)) :
    ∃ n, callbackLoop P env i len buffer chunks = decodeCalls P env i len n := by
  fun_induction callbackLoop P env i len buffer chunks with
  | case1 i len buffer chunks r h d ih =>
      obtain ⟨n, hn⟩ := ih
      exact ⟨n + 1, congrArg (d :: ·) hn⟩
  | case2 => exact ⟨0, rfl⟩

theorem delivered_nil_iff {segments : List (List UInt8 × List (Option ℕ))} :
    Delivered [] (segments.map Prod.fst) ↔ segments = [] := by
  rw [Delivered, List.forall₂_nil_left_iff, List.map_eq_nil_iff]

/-- Nothing that the client sends after `libsck_client` returned `1` is delivered. -/
theorem not_delivered {p : Process} {socket : Option {n // p.table n = none}} {pton connect : Bool}
    {table : ℕ → Option Descriptor} {s : ServerFds}
    (h : libsckClient p socket pton connect = some (table, s))
    (segments : List (List UInt8 × List (Option ℕ))) {chunks : List (List UInt8)}
    (hchunks : chunks.flatten <+: soundCallbacks table s segments) (P : Prims) (env : ServerEnv)
    (accepted ready : Bool) (buffer : Mem) :
    libsckCallback P env accepted ready buffer chunks = [] := by
  rw [soundCallbacks_other (libsckClient_fdc h)] at hchunks
  exact libsckCallback_nil P env accepted ready buffer (List.prefix_nil.mp hchunks)

/-- **Segment delivery.**  After `libsck_client` returned `1`, with any results of `send`, any part
of the bytes arriving in any pieces and any memory in the server: the segments handed to `cwrite`
are delivered exactly when there are none.  And the server alone never hands on what it received:
the arguments of its callback come from the memory at `&ctx`. -/
theorem segment_delivery (P : Prims) :
    (∀ (p : Process) (socket : Option {n // p.table n = none}) (pton connect : Bool)
      (table : ℕ → Option Descriptor) (s : ServerFds)
      (segments : List (List UInt8 × List (Option ℕ))) (chunks : List (List UInt8))
      (env : ServerEnv) (accepted ready : Bool) (buffer : Mem),
      libsckClient p socket pton connect = some (table, s) →
      chunks.flatten <+: soundCallbacks table s segments →
      (Delivered (libsckCallback P env accepted ready buffer chunks) (segments.map Prod.fst) ↔
        segments = [])) ∧
    ∀ (env : ServerEnv) (accepted ready : Bool) (buffer : Mem) (chunks : List (List UInt8)),
      ∃ n, libsckCallback P env accepted ready buffer chunks = decodeCalls P env 0 0 n := by
  constructor
  · intro p socket pton connect table s segments chunks env accepted ready buffer h hchunks
    rw [not_delivered h segments hchunks P env accepted ready buffer, delivered_nil_iff]
  · intro env accepted ready buffer chunks
    rw [libsckCallback]
    split_ifs
    · exact ⟨0, rfl⟩
    · exact ⟨0, rfl⟩
    · exact callbackLoop_eq P env 0 0 buffer chunks

/-- A process with descriptors `0` to `3` in use. -/
def sampleProcess : Process := ⟨fun n => if n ≤ 3 then some .other else none, rfl⟩

/-- The memory of a server, all zero. -/
def sampleServer : ServerEnv := ⟨fun _ => ⟨Mem.zero, Mem.zero⟩, fun _ => MsxDecodeEnv.zero, Mem.zero⟩

theorem libsckClient_sample : ∃ table s,
    libsckClient sampleProcess (some ⟨4, rfl⟩) true true = some (table, s) := ⟨_, _, rfl⟩

/-- `segment_delivery` for no segments. -/
theorem segment_delivery_none :
    Delivered (libsckCallback samplePrims sampleServer true true Mem.zero []) [] := by
  obtain ⟨table, s, h⟩ := libsckClient_sample
  exact ((segment_delivery samplePrims).1 sampleProcess (some ⟨4, rfl⟩) true true table s [] []
    sampleServer true true Mem.zero h (List.prefix_refl _)).mpr rfl

/-- One segment, sent in full as far as `send` says: the server calls nothing. -/
theorem segment_not_delivered : ∃ table s,
    libsckClient sampleProcess (some ⟨4, rfl⟩) true true = some (table, s) ∧
    ∀ chunks, chunks.flatten = soundCallbacks table s [(sampleText, [some 39])] →
      ¬ Delivered (libsckCallback samplePrims sampleServer true true Mem.zero chunks) [sampleText] := by
  obtain ⟨table, s, h⟩ := libsckClient_sample
  refine ⟨table, s, h, fun chunks hchunks => ?_⟩
  rw [not_delivered h [(sampleText, [some 39])] (hchunks ▸ List.prefix_refl _) samplePrims sampleServer
    true true Mem.zero]
  exact fun hdel => nomatch hdel

end Carroll
