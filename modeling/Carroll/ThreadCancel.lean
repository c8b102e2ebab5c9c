import Carroll.ModHeap

/-! # Cancelling the threads of a module stack (`mod.c`)

`mod_thread_update` registers a thread, `mod_thread_close` cancels those of one `pid`, and
`mod_thread_exit` cancels the rest and frees all entries; the modules that are unloaded after it call
`mod_thread_close` again.

* An entry is its address.  No entry is freed before `mod_thread_exit`, so no address is used twice.
* What is called of the outside, `pthread_cancel` and `free`, is a list of `events`; `registered` are
  the entries as they were registered.
* `prev = next->next` after `free(prev)` reads what was there before.
* `thcount` is a `uint32_t`, and only so many entries are visited. -/

namespace Carroll
open Links

/-- A call of `pthread_cancel` or `free` for an entry. -/
inductive ThreadEvent where
  | cancel (entry tid : ℕ)
  | free (entry : ℕ)
deriving DecidableEq, Repr

namespace ModThread

/-- `prev->tid != NULL && pthread_cancel(prev->tid) == -1`. -/
def cancel (entry : ℕ) (prev : ModThread) : List ThreadEvent :=
  if prev.tid = 0 then [] else [.cancel entry prev.tid]

/-- What the loop of `mod_thread_close` calls for an entry. -/
def closeEvents (pid entry : ℕ) (prev : ModThread) : List ThreadEvent :=
  if prev.pid = pid then prev.cancel entry else []

/-- What the loop of `mod_thread_exit` calls for an entry. -/
def exitEvents (entry : ℕ) (prev : ModThread) : List ThreadEvent := prev.cancel entry ++ [.free entry]

end ModThread

/-- The thread list of a stack, with what was registered in it and what was called. -/
structure ThreadLog where
  threads : Queue ModThread
  registered : List (ℕ × ModThread)
  events : List ThreadEvent

/-- A call before the exit; `malloc` fails when there is no allocator. -/
inductive ThreadCall where
  | update (thread addr pid : ℕ) (m : Option (Malloc ModThread))
  | close (pid : ℕ)

/-- The call registers an entry. -/
def ThreadCall.registers : ThreadCall → Bool
  | .update _ _ _ m => m.isSome
  | .close _ => false

namespace ThreadLog

/-- `mod_thread_init`. -/
def init : ThreadLog := ⟨.empty, [], []⟩

/-- `mod_thread_update`. -/
def modThreadUpdate (s : ThreadLog) (thread addr pid : ℕ) (m : Option (Malloc ModThread)) :
    Option ThreadLog :=
  match m with
  | none => some s
  | some m =>
      (s.threads.append m ⟨pid, addr, thread⟩).map fun threads =>
        { s with threads := threads
                 registered := s.registered ++ [(m.addr s.threads.heap, ⟨pid, addr, thread⟩)] }

/-- `mod_thread_close`. -/
def modThreadClose (s : ThreadLog) (pid : ℕ) : Option ThreadLog :=
  (s.threads.visit (fun prev => some (prev.close pid)) (ModThread.closeEvents pid)).map fun r =>
    { s with threads := r.1, events := s.events ++ r.2 }

/-- `mod_thread_exit`. -/
def modThreadExit (s : ThreadLog) : Option ThreadLog :=
  (s.threads.visit (fun _ => none) ModThread.exitEvents).map fun r =>
    { s with threads := { r.1 with count := 0 }, events := s.events ++ r.2 }

/-- One call. -/
def step (s : ThreadLog) : ThreadCall → Option ThreadLog
  | .update thread addr pid m => s.modThreadUpdate thread addr pid m
  | .close pid => s.modThreadClose pid

/-- Calls, one after the other. -/
def steps : ThreadLog → List ThreadCall → Option ThreadLog
  | s, [] => some s
  | s, c :: cs => (s.step c).bind fun s => s.steps cs

/-- The calls of `pthread_cancel` for the entries with one of these `pid`s that are not yet
cancelled. -/
def pending (s : ThreadLog) (pids : ℕ → Bool) : List ThreadEvent :=
  (s.registered.filter fun r =>
    pids r.2.pid && decide (r.2.tid ≠ 0 ∧ .cancel r.1 r.2.tid ∉ s.events)).map
    fun r => .cancel r.1 r.2.tid

end ThreadLog

/-- No entry is cancelled after it was freed. -/
def NoCancelAfterFree (events : List ThreadEvent) : Prop :=
  events.Pairwise fun e e' => ∀ entry tid, e = .free entry → e' ≠ .cancel entry tid

/-- After the calls, an exit and further closes, every thread that was registered with a `tid` was
cancelled once and nothing else was, every close before the exit cancelled what was pending with its
`pid`, and no entry was cancelled after it was freed. -/
def CancelsOnce (calls : List ThreadCall) (pids : List ℕ) : Prop :=
  ∃ s₁ s₂ s, ThreadLog.init.steps calls = some s₁ ∧ s₁.modThreadExit = some s₂ ∧
    s₂.steps (pids.map .close) = some s ∧ s.registered = s₁.registered ∧
    (∀ r ∈ s.registered, r.2.tid ≠ 0 → s.events.count (.cancel r.1 r.2.tid) = 1) ∧
    (∀ entry tid, .cancel entry tid ∈ s.events →
      ∃ r ∈ s.registered, r.1 = entry ∧ r.2.tid = tid ∧ tid ≠ 0) ∧
    NoCancelAfterFree s.events ∧
    ∀ before pid after, calls = before ++ .close pid :: after →
      ∃ a b, ThreadLog.init.steps before = some a ∧ a.modThreadClose pid = some b ∧
        b.events = a.events ++ a.pending (· = pid)

namespace ThreadLog

/-! ### What is kept -/

/-- The entry `x` is what was registered as `r`, and its `tid` was cleared when it was cancelled. -/
structure Tracks (events : List ThreadEvent) (x r : ℕ × ModThread) : Prop where
  entry : x.1 = r.1
  pid : x.2.pid = r.2.pid
  tid : (x.2.tid = r.2.tid ∧ .cancel r.1 r.2.tid ∉ events) ∨
    (x.2.tid = 0 ∧ r.2.tid ≠ 0 ∧ events.count (.cancel r.1 r.2.tid) = 1)

/-- The list consists of the registered entries, and what was called are their cancellations. -/
structure Inv (s : ThreadLog) (L : List (ℕ × ModThread)) : Prop where
  seg : Seg s.threads.heap s.threads.head L 0
  count : s.threads.count = L.length
  tracks : List.Forall₂ (Tracks s.events) L s.registered
  events : ∀ e ∈ s.events, ∃ r ∈ s.registered, r.2.tid ≠ 0 ∧ e = .cancel r.1 r.2.tid

theorem map_fst_of_tracks {events : List ThreadEvent} {L R : List (ℕ × ModThread)}
    (h : List.Forall₂ (Tracks events) L R) : L.map Prod.fst = R.map Prod.fst := by
  induction h with
  | nil => rfl
  | cons hx _ ih => rw [List.map_cons, List.map_cons, hx.entry, ih]

theorem Inv.nodup {s : ThreadLog} {L : List (ℕ × ModThread)} (h : s.Inv L) :
    (s.registered.map Prod.fst).Nodup := by
  rw [← map_fst_of_tracks h.tracks]
  exact h.seg.nodup

/-- What a loop over the list cancels is what is pending. -/
theorem flatMap_cancel {events : List ThreadEvent} {L R : List (ℕ × ModThread)} (pids : ℕ → Bool)
    (h : List.Forall₂ (Tracks events) L R) :
    (L.flatMap fun x => if pids x.2.pid then x.2.cancel x.1 else []) =
      (R.filter fun r =>
        pids r.2.pid && decide (r.2.tid ≠ 0 ∧ .cancel r.1 r.2.tid ∉ events)).map
        fun r => .cancel r.1 r.2.tid := by
  induction h with
  | nil => rfl
  | @cons x r L R hx _ ih =>
      rw [List.flatMap_cons, List.filter_cons, ih, hx.pid, hx.entry, ModThread.cancel]
      cases hp : pids r.2.pid with
      | false => rfl
      | true =>
          rcases hx.tid with ⟨htid, hnot⟩ | ⟨htid, hne, hone⟩
          · rw [htid]
            by_cases h0 : r.2.tid = 0
            · simp [h0]
            · simp [h0, hnot]
          · have hmem : .cancel r.1 r.2.tid ∈ events := List.count_pos_iff.mp (by omega)
            simp [htid, hmem]

section
variable {s : ThreadLog} {L : List (ℕ × ModThread)}

/-- Whether the entry is pending. -/
def IsPending (s : ThreadLog) (pids : ℕ → Bool) (r : ℕ × ModThread) : Prop :=
  pids r.2.pid = true ∧ r.2.tid ≠ 0 ∧ .cancel r.1 r.2.tid ∉ s.events

theorem mem_pending {pids : ℕ → Bool} {e : ThreadEvent} :
    e ∈ s.pending pids ↔ ∃ r ∈ s.registered, s.IsPending pids r ∧ e = .cancel r.1 r.2.tid := by
  unfold pending IsPending
  simp only [List.mem_map, List.mem_filter, Bool.and_eq_true, decide_eq_true_eq]
  constructor
  · rintro ⟨r, ⟨hr, hp⟩, rfl⟩
    exact ⟨r, hr, hp, rfl⟩
  · rintro ⟨r, hr, hp, rfl⟩
    exact ⟨r, ⟨hr, hp⟩, rfl⟩

/-- The entry of an event. -/
def entryOf : ThreadEvent → ℕ
  | .cancel entry _ => entry
  | .free entry => entry

theorem Inv.pending_nodup (h : s.Inv L) (pids : ℕ → Bool) : (s.pending pids).Nodup := by
  apply List.Nodup.of_map entryOf
  unfold pending
  rw [List.map_map]
  exact h.nodup.sublist (List.Sublist.map _ List.filter_sublist)

/-- An entry is cancelled once if it is pending, else not at all. -/
theorem Inv.count_pending (h : s.Inv L) (pids : ℕ → Bool) {r : ℕ × ModThread}
    (hr : r ∈ s.registered) :
    (s.IsPending pids r → (s.pending pids).count (.cancel r.1 r.2.tid) = 1) ∧
      (¬ s.IsPending pids r → (s.pending pids).count (.cancel r.1 r.2.tid) = 0) := by
  constructor
  · intro hp
    exact List.count_eq_one_of_mem (h.pending_nodup pids) (mem_pending.mpr ⟨r, hr, hp, rfl⟩)
  · intro hp
    rw [List.count_eq_zero]
    intro hmem
    obtain ⟨r', hr', hp', heq⟩ := mem_pending.mp hmem
    have hentry : r.1 = r'.1 := congrArg entryOf heq
    rw [List.inj_on_of_nodup_map h.nodup hr hr' hentry] at hp
    exact hp hp'

theorem forall₂_imp_mem {α β : Type} {P Q : α → β → Prop} {l : List α} {l' : List β}
    (h : List.Forall₂ P l l') (hPQ : ∀ a, ∀ b ∈ l', P a b → Q a b) : List.Forall₂ Q l l' := by
  induction h with
  | nil => exact .nil
  | cons hab _ ih =>
      refine .cons (hPQ _ _ List.mem_cons_self hab) (ih fun a b hb => hPQ a b ?_)
      exact List.mem_cons_of_mem _ hb

/-- After what was pending is cancelled, an entry is tracked with its `tid` cleared. -/
theorem Inv.tracks_close (h : s.Inv L) (pid : ℕ) :
    List.Forall₂ (Tracks (s.events ++ s.pending (· = pid)))
      (L.map fun x => (x.1, x.2.close pid)) s.registered := by
  rw [List.forall₂_map_left_iff]
  refine forall₂_imp_mem h.tracks fun x r hr hx => ?_
  obtain ⟨hone, hzero⟩ := h.count_pending (· = pid) hr
  have hclose : (x.2.close pid).pid = r.2.pid := by
    rw [← hx.pid, ModThread.close]
    split_ifs <;> rfl
  refine ⟨hx.entry, hclose, ?_⟩
  rw [List.count_append, List.mem_append, not_or]
  rcases hx.tid with ⟨htid, hnot⟩ | ⟨htid, hne, hcount⟩
  · by_cases hp : s.IsPending (· = pid) r
    · have hpid : x.2.pid = pid := hx.pid.trans (of_decide_eq_true hp.1)
      refine .inr ⟨?_, hp.2.1, ?_⟩
      · rw [ModThread.close, if_pos hpid]
      · rw [List.count_eq_zero.mpr hnot, hone hp]
    · refine .inl ⟨?_, hnot, List.count_eq_zero.mp (hzero hp)⟩
      unfold ModThread.close
      split_ifs with hpid
      · by_contra h0
        exact hp ⟨decide_eq_true (hx.pid.symm.trans hpid), Ne.symm h0, hnot⟩
      · exact htid
  · have hp : ¬ s.IsPending (· = pid) r := by
      rintro ⟨-, -, hnot⟩
      exact hnot (List.count_pos_iff.mp (by omega))
    refine .inr ⟨?_, hne, by rw [hcount, hzero hp]⟩
    unfold ModThread.close
    split_ifs
    · rfl
    · exact htid

/-! ### One call -/

theorem Inv.close (h : s.Inv L) (pid : ℕ) :
    ∃ s' L', s.modThreadClose pid = some s' ∧ s'.Inv L' ∧ L'.length = L.length ∧
      s'.registered = s.registered ∧ s'.events = s.events ++ s.pending (· = pid) := by
  obtain ⟨c, hvisit, hseg, hcount⟩ :=
    Queue.visit_map (ModThread.close pid) (ModThread.closeEvents pid) h.seg h.count
  have hevents : (L.flatMap fun x => ModThread.closeEvents pid x.1 x.2) = s.pending (· = pid) := by
    rw [pending, ← flatMap_cancel (fun p => decide (p = pid)) h.tracks]
    simp only [decide_eq_true_eq]
    rfl
  rw [hevents] at hvisit
  refine ⟨{ s with threads := c, events := s.events ++ s.pending (· = pid) }, _, ?_,
    ⟨hseg, ?_, h.tracks_close pid, ?_⟩, List.length_map _, rfl, rfl⟩
  · rw [modThreadClose, hvisit, Option.map_some]
  · rw [List.length_map]
    exact hcount
  · intro e he
    rcases List.mem_append.mp he with he | he
    · exact h.events e he
    · obtain ⟨r, hr, hp, rfl⟩ := mem_pending.mp he
      exact ⟨r, hr, hp.2.1, rfl⟩

theorem Inv.update (h : s.Inv L) (thread addr pid : ℕ) (m : Malloc ModThread)
    (hlt : L.length + 1 < 2 ^ 32) :
    ∃ s' L', s.modThreadUpdate thread addr pid (some m) = some s' ∧ s'.Inv L' ∧
      L'.length = L.length + 1 := by
  obtain ⟨c, happend, hseg, hcount⟩ := Queue.append_seg h.seg m ⟨pid, addr, thread⟩
  have hnew : m.addr s.threads.heap ∉ s.registered.map Prod.fst := by
    rw [← map_fst_of_tracks h.tracks]
    intro hmem
    obtain ⟨x, hx, hxp⟩ := List.mem_map.mp hmem
    obtain ⟨n, hn, -⟩ := h.seg.read_of_mem x hx
    exact m.fresh _ (hxp ▸ mem_of_read hn)
  refine ⟨_, _, by rw [modThreadUpdate, happend, Option.map_some], ⟨hseg, ?_, ?_, ?_⟩,
    by rw [List.length_append, List.length_singleton]⟩
  · rw [List.length_append, List.length_singleton]
    exact hcount.trans (by rw [h.count, Nat.mod_eq_of_lt hlt])
  · refine List.rel_append h.tracks (.cons ⟨rfl, rfl, .inl ⟨rfl, fun hmem => ?_⟩⟩ .nil)
    obtain ⟨r, hr, -, heq⟩ := h.events _ hmem
    exact hnew (List.mem_map.mpr ⟨r, hr, (congrArg entryOf heq).symm⟩)
  · intro e he
    obtain ⟨r, hr, hne, rfl⟩ := h.events e he
    exact ⟨r, List.mem_append_left _ hr, hne, rfl⟩

/-- One call keeps the invariant, and registers what it says. -/
theorem Inv.step (h : s.Inv L) (c : ThreadCall) (hlt : L.length + c.registers.toNat < 2 ^ 32) :
    ∃ s' L', s.step c = some s' ∧ s'.Inv L' ∧ L'.length = L.length + c.registers.toNat := by
  cases c with
  | update thread addr pid m =>
      cases m with
      | none => exact ⟨s, L, rfl, h, rfl⟩
      | some m => exact h.update thread addr pid m hlt
  | close pid =>
      obtain ⟨s', L', hclose, hinv, hlen, -⟩ := h.close pid
      exact ⟨s', L', hclose, hinv, hlen⟩

end

theorem inv_init : init.Inv [] := ⟨.nil 0, rfl, .nil, fun _ he => absurd he List.not_mem_nil⟩

/-- All calls, as long as fewer than `2 ^ 32` entries are registered. -/
theorem Inv.steps {s : ThreadLog} {L : List (ℕ × ModThread)} (h : s.Inv L) {cs : List ThreadCall}
    (hlt : L.length + cs.countP ThreadCall.registers < 2 ^ 32) :
    ∃ s' L', s.steps cs = some s' ∧ s'.Inv L' := by
  induction cs generalizing s L with
  | nil => exact ⟨s, L, rfl, h⟩
  | cons c cs ih =>
      have hcount : (c :: cs).countP ThreadCall.registers =
          c.registers.toNat + cs.countP ThreadCall.registers := by
        rw [List.countP_cons]
        cases c.registers <;> simp [Nat.add_comm]
      rw [hcount] at hlt
      obtain ⟨s₁, L₁, hstep, h₁, hlen⟩ := h.step c (by omega)
      obtain ⟨s', L', hsteps, h'⟩ := ih h₁ (by omega)
      exact ⟨s', L', by rw [ThreadLog.steps, hstep, Option.bind_some, hsteps], h'⟩

/-! ### The exit -/

section
variable {s : ThreadLog} {L : List (ℕ × ModThread)}

/-- The exit cancels what is still pending and frees every entry. -/
theorem Inv.exit (h : s.Inv L) :
    ∃ s', s.modThreadExit = some s' ∧ s'.threads.count = 0 ∧ s'.registered = s.registered ∧
      s'.events = s.events ++ L.flatMap fun x => ModThread.exitEvents x.1 x.2 := by
  obtain ⟨c, hvisit⟩ := Queue.visit_events (fun _ => none) ModThread.exitEvents h.seg h.count
  refine ⟨{ s with threads := { c with count := 0 }, events := _ }, ?_, rfl, rfl, rfl⟩
  rw [modThreadExit, hvisit, Option.map_some]

/-- The cancellations of the exit. -/
def isCancel : ThreadEvent → Bool
  | .cancel _ _ => true
  | .free _ => false

theorem Inv.filter_exit (h : s.Inv L) :
    (L.flatMap fun x => ModThread.exitEvents x.1 x.2).filter isCancel = s.pending fun _ => true := by
  have hone : ∀ x : ℕ × ModThread, (ModThread.exitEvents x.1 x.2).filter isCancel = x.2.cancel x.1 := by
    intro x
    unfold ModThread.exitEvents ModThread.cancel
    split_ifs <;> rfl
  rw [pending, ← flatMap_cancel (fun _ => true) h.tracks, List.filter_flatMap]
  simp only [hone, if_true]

theorem Inv.exists_tracks (h : s.Inv L) {r : ℕ × ModThread} (hr : r ∈ s.registered) :
    ∃ x, Tracks s.events x r := by
  obtain ⟨i, hi, rfl⟩ := List.mem_iff_getElem.mp hr
  have hlen : i < L.length := by rwa [h.tracks.length_eq]
  exact ⟨_, (List.forall₂_iff_get.mp h.tracks).2 i hlen hi⟩

/-- With the exit every thread is cancelled once. -/
theorem Inv.count_exit (h : s.Inv L) {r : ℕ × ModThread} (hr : r ∈ s.registered)
    (hne : r.2.tid ≠ 0) :
    (s.events ++ L.flatMap fun x => ModThread.exitEvents x.1 x.2).count (.cancel r.1 r.2.tid) = 1 := by
  obtain ⟨hone, hzero⟩ := h.count_pending (fun _ => true) hr
  rw [List.count_append, ← List.count_filter (p := isCancel) (l := L.flatMap _) rfl, h.filter_exit]
  by_cases hmem : ThreadEvent.cancel r.1 r.2.tid ∈ s.events
  · obtain ⟨x, hx⟩ := h.exists_tracks hr
    rcases hx.tid with ⟨-, hnot⟩ | ⟨-, -, hcount⟩
    · exact absurd hmem hnot
    · rw [hzero fun hp => hp.2.2 hmem, hcount]
  · rw [hone ⟨rfl, hne, hmem⟩, List.count_eq_zero.mpr hmem]

theorem Inv.only_exit (h : s.Inv L) {entry tid : ℕ}
    (he : .cancel entry tid ∈ s.events ++ L.flatMap fun x => ModThread.exitEvents x.1 x.2) :
    ∃ r ∈ s.registered, r.1 = entry ∧ r.2.tid = tid ∧ tid ≠ 0 := by
  have hall : ∃ r ∈ s.registered, r.2.tid ≠ 0 ∧ ThreadEvent.cancel entry tid = .cancel r.1 r.2.tid := by
    rcases List.mem_append.mp he with he | he
    · exact h.events _ he
    · have hmem : .cancel entry tid ∈ s.pending fun _ => true := by
        rw [← h.filter_exit, List.mem_filter]
        exact ⟨he, rfl⟩
      obtain ⟨r, hr, hp, heq⟩ := mem_pending.mp hmem
      exact ⟨r, hr, hp.2.1, heq⟩
  obtain ⟨r, hr, hne, heq⟩ := hall
  obtain ⟨rfl, rfl⟩ := ThreadEvent.cancel.inj heq
  exact ⟨r, hr, rfl, rfl, hne⟩

/-- The exit frees an entry after it cancelled it, and each entry once. -/
theorem Inv.noCancelAfterFree (h : s.Inv L) :
    NoCancelAfterFree (s.events ++ L.flatMap fun x => ModThread.exitEvents x.1 x.2) := by
  have hbefore : ∀ e ∈ s.events, ∀ entry, e ≠ .free entry := by
    rintro e he entry rfl
    obtain ⟨r, -, -, heq⟩ := h.events _ he
    exact nomatch heq
  have hentry : ∀ x : ℕ × ModThread, ∀ e ∈ ModThread.exitEvents x.1 x.2, entryOf e = x.1 := by
    intro x e he
    unfold ModThread.exitEvents ModThread.cancel at he
    split_ifs at he <;> simp at he
    · rw [he]
      rfl
    · rcases he with rfl | rfl <;> rfl
  unfold NoCancelAfterFree
  rw [List.pairwise_append, List.pairwise_flatMap]
  refine ⟨?_, ⟨?_, ?_⟩, ?_⟩
  · refine List.pairwise_of_forall_mem_list fun e he e' _ entry tid hfree => ?_
    exact absurd hfree (hbefore e he entry)
  · intro x _
    unfold ModThread.exitEvents ModThread.cancel
    split_ifs <;> simp
  · have hnd := h.seg.nodup
    rw [List.nodup_iff_pairwise_ne, List.pairwise_map] at hnd
    refine hnd.imp fun {x y} hxy e he e' he' entry tid hfree hcancel => hxy ?_
    rw [← hentry x e he, ← hentry y e' he', hfree, hcancel]
    rfl
  · intro e he e' _ entry tid hfree
    exact absurd hfree (hbefore e he entry)

end

/-- With an empty counter a close does nothing. -/
theorem steps_close_of_count {s : ThreadLog} (h : s.threads.count = 0) (pids : List ℕ) :
    s.steps (pids.map .close) = some s := by
  induction pids with
  | nil => rfl
  | cons pid pids ih =>
      have hclose : s.modThreadClose pid = some s := by
        rw [modThreadClose, Queue.visit_zero _ _ h, Option.map_some, List.append_nil]
      rw [List.map_cons, steps, step, hclose, Option.bind_some, ih]

end ThreadLog

/-! ### Once -/

/-- **Cancellation.**  As long as fewer than `2 ^ 32` threads are registered, every sequence of updates
and closes, then the exit, then any closes, cancels every thread exactly once. -/
theorem cancelsOnce {calls : List ThreadCall} (hlt : calls.countP ThreadCall.registers < 2 ^ 32)
    (pids : List ℕ) : CancelsOnce calls pids := by
  have hstart : ([] : List (ℕ × ModThread)).length + calls.countP ThreadCall.registers < 2 ^ 32 := by
    rwa [List.length_nil, Nat.zero_add]
  obtain ⟨s₁, L, hsteps, hinv⟩ := ThreadLog.inv_init.steps hstart
  obtain ⟨s₂, hexit, hcount, hreg, hevents⟩ := hinv.exit
  refine ⟨s₁, s₂, s₂, hsteps, hexit, ThreadLog.steps_close_of_count hcount pids, hreg, ?_, ?_, ?_, ?_⟩
  · intro r hr hne
    rw [hevents]
    exact hinv.count_exit (hreg ▸ hr) hne
  · intro entry tid he
    rw [hevents] at he
    rw [hreg]
    exact hinv.only_exit he
  · rw [hevents]
    exact hinv.noCancelAfterFree
  · rintro before pid after rfl
    have hstart' : ([] : List (ℕ × ModThread)).length + before.countP ThreadCall.registers < 2 ^ 32 := by
      rw [List.countP_append] at hlt
      rw [List.length_nil]
      omega
    obtain ⟨a, L', hbefore, hinv'⟩ := ThreadLog.inv_init.steps hstart'
    obtain ⟨b, -, hclose, -, -, -, hb⟩ := hinv'.close pid
    exact ⟨a, b, hbefore, hclose, hb⟩

/-- Two threads of one `pid`, closed before the exit and again after it. -/
theorem cancelsOnce_two : CancelsOnce
    [.update 7 0 1 (some .above), .update 8 0 1 (some .above), .close 1, .update 9 0 2 none] [1, 2] :=
  cancelsOnce (by decide) [1, 2]

/-! ### A full turn of the counter -/

/-- The registration of a thread with the `tid` 1. -/
def registerOne : ThreadCall := .update 1 0 0 (some .above)

namespace ThreadLog

theorem steps_append (s : ThreadLog) (cs : List ThreadCall) (c : ThreadCall) :
    s.steps (cs ++ [c]) = (s.steps cs).bind fun s => s.step c := by
  induction cs generalizing s with
  | nil =>
      rw [List.nil_append, steps, steps, Option.bind_some]
      cases s.step c <;> rfl
  | cons c' cs ih =>
      rw [List.cons_append, steps, steps, Option.bind_assoc]
      simp only [ih]

theorem steps_replicate (n : ℕ) :
    ∃ s L, init.steps (List.replicate n registerOne) = some s ∧
      Seg s.threads.heap s.threads.head L 0 ∧ s.threads.count = n % 2 ^ 32 ∧ s.events = [] ∧
      s.registered.length = n ∧ ∀ r ∈ s.registered, r.2.tid = 1 := by
  induction n with
  | zero => exact ⟨init, [], rfl, .nil 0, rfl, rfl, rfl, fun r hr => absurd hr List.not_mem_nil⟩
  | succ n ih =>
      obtain ⟨s, L, hsteps, hseg, hcount, hevents, hlen, htid⟩ := ih
      obtain ⟨c, happend, hseg', hcount'⟩ := Queue.append_seg hseg .above ⟨0, 0, 1⟩
      let new : ℕ × ModThread := (Malloc.above.addr s.threads.heap, ⟨0, 0, 1⟩)
      refine ⟨{ s with threads := c, registered := s.registered ++ [new] }, _, ?_, hseg', ?_, hevents,
        ?_, ?_⟩
      · rw [List.replicate_succ', steps_append, hsteps, Option.bind_some]
        exact congrArg (Option.map _) happend
      · rw [hcount', hcount, Nat.mod_add_mod]
      · rw [List.length_append, hlen, List.length_singleton]
      · intro r hr
        rcases List.mem_append.mp hr with hr | hr
        · exact htid r hr
        · rw [List.mem_singleton.mp hr]

end ThreadLog

/-- After `2 ^ 32` registrations `thcount` is 0, and the exit cancels nothing. -/
theorem not_cancelsOnce_turn : ¬ CancelsOnce (List.replicate (2 ^ 32) registerOne) [] := by
  rintro ⟨s₁, s₂, s, hsteps, hexit, hafter, hreg, honce, -⟩
  obtain ⟨s₁', L, hsteps', -, hcount, hevents, hlen, htid⟩ := ThreadLog.steps_replicate (2 ^ 32)
  obtain rfl := Option.some.inj (hsteps.symm.trans hsteps')
  rw [Nat.mod_self] at hcount
  rw [ThreadLog.modThreadExit, Queue.visit_zero _ _ hcount, Option.map_some, Option.some.injEq] at hexit
  obtain rfl : s₂ = s := Option.some.inj hafter
  have hnil : s₂.events = [] := by
    rw [← hexit, List.append_nil, hevents]
  have hpos : 0 < s₁.registered.length := by
    rw [hlen]
    exact Nat.two_pow_pos 32
  obtain ⟨r, hr⟩ := List.exists_mem_of_length_pos hpos
  have hone := honce r (hreg ▸ hr) (by rw [htid r hr]; exact Nat.one_ne_zero)
  rw [hnil] at hone
  exact nomatch hone

end Carroll
