import Carroll.Rmc

/-! # What `get_time_final` counts

`get_time_final` has no clock that goes on: from the minute and second of a start and of now, in the
local time of the day, it counts up until one of its exits applies.  `countsPast_iff` says when
the count goes past 15, for any content of the two fields of the start, and
`countsPast_clock` what that means for two times that are less than an hour apart.

`clock t` is the reading of the clock at the local time `t` in seconds. -/

namespace Carroll

namespace Elapsed
variable {start now : LibrmcTime}

/-- A round of the loop advances the count. -/
def Counts (start now : LibrmcTime) : Prop :=
  start.sec < now.sec ∨ (now.sec < start.sec ∧ start.min < now.min)

/-- The exits of the loop that depend on the count. -/
def Ends (start now : LibrmcTime) (e : Elapsed) : Prop :=
  (u32 (e.utime + start.sec) = now.sec ∧ now.min = start.min) ∨
  (60 < u32 (e.utime + start.sec) ∧ now.min = u32 (start.min + 1)) ∨
  (e.cmin = now.min ∧ e.csec = now.sec)

/-- The exits of the loop. -/
def Exits (start now : LibrmcTime) (e : Elapsed) : Prop :=
  (start.min = 0 ∧ start.sec = 0) ∨ (start.min = now.min ∧ start.sec = now.sec) ∨
  Ends start now e ∨ 60 ≤ e.utime ∨ 60 < e.i

theorem loop_of_exits {e : Elapsed} (h : Exits start now e) (n : ℕ) :
    getTimeFinalLoop start now n e = e := by
  cases n with
  | zero => rfl
  | succ n =>
      rw [getTimeFinalLoop]
      unfold Exits Ends at h
      split_ifs <;> first | rfl | simp_all

theorem loop_of_not_exits {e : Elapsed} (h : ¬ Exits start now e) (n : ℕ) :
    getTimeFinalLoop start now (n + 1) e = getTimeFinalLoop start now n (e.advance start now) := by
  unfold Exits Ends at h
  simp only [not_or] at h
  obtain ⟨hz, hs, ⟨h₁, h₂, h₃⟩, hu, hi⟩ := h
  rw [getTimeFinalLoop, if_neg hz, if_neg hs, if_neg h₁, if_neg h₂, if_neg h₃, if_neg hu, if_neg hi]

/-- The variables after `k` rounds that count. -/
def after (start now : LibrmcTime) (k : ℕ) : Elapsed :=
  ⟨k, 0, if start.sec < now.sec then k else 0, if k = 0 then 1 else 2⟩

theorem utime_advance_of_counts (h : Counts start now) (e : Elapsed) :
    (advance start now e).utime = e.utime + 1 := by
  unfold advance
  dsimp only
  rcases h with h | ⟨h, hmin⟩
  · rw [if_neg (fun hlt => Nat.lt_asymm h hlt.1), if_pos h]
    split_ifs <;> rfl
  · rw [if_pos ⟨h, hmin⟩, if_neg (Nat.lt_asymm h)]
    split_ifs <;> rfl

theorem utime_advance_of_not_counts (h : ¬ Counts start now) (e : Elapsed) :
    (advance start now e).utime = e.utime := by
  unfold Counts at h
  rw [not_or] at h
  unfold advance
  dsimp only
  rw [if_neg h.2, if_neg h.1]
  split_ifs <;> rfl

theorem advance_after (h : Counts start now) {k : ℕ} (hk : k < 60) :
    advance start now (after start now k) = after start now (k + 1) := by
  unfold advance after
  unfold Counts at h
  rcases h with h | ⟨h, hmin⟩
  · have hno : ¬ (now.sec < start.sec ∧ start.min < now.min) := by omega
    have h60 : ¬ 60 ≤ k := by omega
    by_cases hk0 : k = 0 <;> simp [h, hno, h60, hk0]
  · have hno : ¬ start.sec < now.sec := by omega
    by_cases hk0 : k = 0 <;> simp [h, hno, hmin, hk0]

theorem utime_le_advance (e : Elapsed) : e.utime ≤ (advance start now e).utime := by
  by_cases h : Counts start now
  · rw [utime_advance_of_counts h]
    exact Nat.le_succ _
  · rw [utime_advance_of_not_counts h]

/-- The count never goes back. -/
theorem utime_le_loop (n : ℕ) (e : Elapsed) :
    e.utime ≤ (getTimeFinalLoop start now n e).utime := by
  induction n generalizing e with
  | zero => exact le_rfl
  | succ n ih =>
      have hadv := (@utime_le_advance start now e).trans (ih _)
      rw [getTimeFinalLoop]
      split_ifs <;> first | exact le_rfl | exact hadv

/-- When no round counts, nothing is counted. -/
theorem utime_loop_of_not_counts (h : ¬ Counts start now) (n : ℕ) (e : Elapsed) :
    (getTimeFinalLoop start now n e).utime = e.utime := by
  induction n generalizing e with
  | zero => rfl
  | succ n ih =>
      rw [getTimeFinalLoop]
      split_ifs <;> first | rfl | rw [ih, utime_advance_of_not_counts h]

theorem i_advance {e : Elapsed} (h : e.utime = 0) : (advance start now e).i = e.i + 1 := by
  unfold advance
  rw [if_pos h]
  dsimp only
  split_ifs <;> rfl

/-- Rounds that count come to an exit. -/
theorem exits_of_counts (hc : Counts start now) {n : ℕ} {e : Elapsed} (h : 60 < e.utime + n) :
    Exits start now (getTimeFinalLoop start now n e) := by
  induction n generalizing e with
  | zero => exact .inr (.inr (.inr (.inl h.le)))
  | succ n ih =>
      by_cases hex : Exits start now e
      · rwa [loop_of_exits hex]
      · rw [loop_of_not_exits hex]
        apply ih
        rw [utime_advance_of_counts hc]
        omega

/-- And so do rounds that do not. -/
theorem exits_of_not_counts (hc : ¬ Counts start now) {n : ℕ} {e : Elapsed} (h₀ : e.utime = 0)
    (h : 60 < e.i + n) : Exits start now (getTimeFinalLoop start now n e) := by
  induction n generalizing e with
  | zero => exact .inr (.inr (.inr (.inr h)))
  | succ n ih =>
      by_cases hex : Exits start now e
      · rwa [loop_of_exits hex]
      · rw [loop_of_not_exits hex]
        apply ih
        · rw [utime_advance_of_not_counts hc, h₀]
        · rw [i_advance h₀]
          omega

/-- `get_time_final` returns, whatever the two times are. -/
theorem getTimeFinalLoop_exits (start now : LibrmcTime) :
    Exits start now (getTimeFinalLoop start now 64 ⟨0, 0, 0, 1⟩) := by
  by_cases hc : Counts start now
  · exact exits_of_counts hc (by norm_num)
  · exact exits_of_not_counts hc rfl (by norm_num)

section
variable (hz : ¬ (start.min = 0 ∧ start.sec = 0)) (hs : ¬ (start.min = now.min ∧ start.sec = now.sec))

include hz hs

/-- Without an exit a round that counts goes on to the next. -/
theorem loop_after_succ (hc : Counts start now) {k : ℕ} (hk : k < 60)
    (he : ¬ Ends start now (after start now k)) (n : ℕ) :
    getTimeFinalLoop start now (n + 1) (after start now k) =
      getTimeFinalLoop start now n (after start now (k + 1)) := by
  have hi : ¬ 60 < (after start now k).i := by
    show ¬ 60 < if k = 0 then 1 else 2
    split_ifs <;> omega
  have hu : ¬ 60 ≤ (after start now k).utime := Nat.not_le.mpr hk
  rw [loop_of_not_exits, advance_after hc hk]
  rintro (h | h | h | h | h)
  · exact hz h
  · exact hs h
  · exact he h
  · exact hu h
  · exact hi h

theorem loop_after (hc : Counts start now) {m : ℕ} (hm : m ≤ 60)
    (he : ∀ j < m, ¬ Ends start now (after start now j)) (n : ℕ) :
    getTimeFinalLoop start now (n + m) (after start now 0) =
      getTimeFinalLoop start now n (after start now m) := by
  induction m generalizing n with
  | zero => rfl
  | succ m ih =>
      obtain ⟨he, hem⟩ := Nat.forall_lt_succ_right.mp he
      rw [Nat.add_succ, ← Nat.succ_add, ih (Nat.le_of_succ_le hm) he (n + 1)]
      exact loop_after_succ hz hs hc hm hem n

/-- The count is the number of the first round with an exit, and 60 at most. -/
theorem utime_loop (hc : Counts start now) {k : ℕ} (hk : k ≤ 60)
    (hbefore : ∀ j < k, ¬ Ends start now (after start now j))
    (hexit : k = 60 ∨ Ends start now (after start now k)) :
    (getTimeFinalLoop start now 64 (after start now 0)).utime = k := by
  have hex : Exits start now (after start now k) := by
    rcases hexit with rfl | hend
    · exact .inr (.inr (.inr (.inl le_rfl)))
    · exact .inr (.inr (.inl hend))
  obtain ⟨n, hn⟩ := Nat.exists_eq_add_of_le' (show k ≤ 64 by omega)
  rw [hn, loop_after hz hs hc hk hbefore, loop_of_exits hex]
  rfl

/-- The count goes past 15 when no exit applies up to there. -/
theorem loop_past_iff (hc : Counts start now) :
    15 < (getTimeFinalLoop start now 64 (after start now 0)).utime ↔
      ∀ j < 16, ¬ Ends start now (after start now j) := by
  constructor
  · intro hpast j hj hend
    -- the first exit ends the count
    have hex : ∃ j, Ends start now (after start now j) := ⟨j, hend⟩
    classical
    have hfirst := Nat.find_spec hex
    have hle : Nat.find hex ≤ j := Nat.find_min' hex hend
    have hbefore : ∀ k < Nat.find hex, ¬ Ends start now (after start now k) :=
      fun k hk => Nat.find_min hex hk
    obtain ⟨n, hn⟩ := Nat.exists_eq_add_of_le' (show Nat.find hex ≤ 64 by omega)
    rw [hn, loop_after hz hs hc (by omega) hbefore, loop_of_exits (.inr (.inr (.inl hfirst)))] at hpast
    have : (after start now (Nat.find hex)).utime = Nat.find hex := rfl
    omega
  · intro hbefore
    have := @utime_le_loop start now 48 (after start now 16)
    rw [← loop_after hz hs hc (by norm_num) hbefore 48] at this
    exact this

end

end Elapsed

/-! ### When more than 15 seconds are counted -/

/-- The count goes past 15: in the minute of the start, the seconds differ by more; in another one,
the count to the end of the minute of the start is more, if now is in the next, and so are the
seconds of now, if now is in minute 0. -/
def CountsPast (start now : LibrmcTime) : Prop :=
  ¬ (start.min = 0 ∧ start.sec = 0) ∧
  if start.sec < now.sec then
    if now.min = start.min then start.sec + 15 < now.sec
    else (now.min = u32 (start.min + 1) → start.sec ≤ 45) ∧ (now.min = 0 → 15 < now.sec)
  else
    now.sec < start.sec ∧ start.min < now.min ∧
      (now.min = u32 (start.min + 1) → u32 start.sec ≤ 45)

open Elapsed in
/-- The exits of the first 16 rounds, when the seconds of now are greater. -/
theorem ends_of_sec_lt {start now : LibrmcTime} (hlt : start.sec < now.sec) (hsec : now.sec ≤ 60)
    {j : ℕ} (hj : j < 16) : Ends start now (after start now j) ↔
      (j + start.sec = now.sec ∧ now.min = start.min) ∨
      (60 < j + start.sec ∧ now.min = u32 (start.min + 1)) ∨ (0 = now.min ∧ j = now.sec) := by
  have hu : u32 (j + start.sec) = j + start.sec := u32_of_lt (by omega)
  unfold Ends after
  dsimp only
  rw [hu, if_pos hlt]

open Elapsed in
/-- The exits, when now is in a later minute. -/
theorem ends_of_min_lt {start now : LibrmcTime} (hltmin : start.min < now.min) (j : ℕ) :
    Ends start now (after start now j) ↔
      60 < u32 (j + start.sec) ∧ now.min = u32 (start.min + 1) := by
  have hsame : now.min ≠ start.min := Nat.ne_of_gt hltmin
  have hpos : ¬ 0 = now.min := by omega
  unfold Ends after
  dsimp only
  simp [hsame, hpos]

open Elapsed in
/-- No exit applies in the first 16 rounds. -/
theorem not_ends_iff {start now : LibrmcTime} (hz : ¬ (start.min = 0 ∧ start.sec = 0))
    (hc : Counts start now) (hsec : now.sec ≤ 60) :
    (∀ j < 16, ¬ Ends start now (after start now j)) ↔ CountsPast start now := by
  have hmin : start.min ≠ u32 (start.min + 1) := by
    unfold u32
    omega
  unfold CountsPast
  rw [and_iff_right hz]
  rcases hc with hlt | ⟨hlt, hltmin⟩
  · rw [if_pos hlt]
    have hends := fun j (hj : j < 16) => ends_of_sec_lt hlt hsec hj
    split_ifs with hsame
    · constructor
      · intro h
        by_contra hle
        refine h (now.sec - start.sec) (by omega) ((hends _ (by omega)).mpr (.inl ⟨?_, hsame⟩))
        omega
      · intro h j hj hend
        rcases (hends j hj).mp hend with ⟨hj', -⟩ | ⟨-, hm⟩ | ⟨-, hj'⟩
        · omega
        · exact hmin (hsame.symm.trans hm)
        · omega
    · constructor
      · intro h
        refine ⟨fun hm => ?_, fun hm => ?_⟩
        · by_contra hle
          exact h 15 (by norm_num) ((hends 15 (by norm_num)).mpr (.inr (.inl ⟨by omega, hm⟩)))
        · by_contra hle
          exact h now.sec (by omega) ((hends _ (by omega)).mpr (.inr (.inr ⟨hm.symm, rfl⟩)))
      · rintro ⟨hnext, hzero⟩ j hj hend
        rcases (hends j hj).mp hend with ⟨-, hm⟩ | ⟨hj', hm⟩ | ⟨hm, hj'⟩
        · exact hsame hm
        · have := hnext hm
          omega
        · have := hzero hm.symm
          omega
  · have hno : ¬ start.sec < now.sec := Nat.lt_asymm hlt
    have hends := ends_of_min_lt hltmin
    rw [if_neg hno, and_iff_right hlt, and_iff_right hltmin]
    constructor
    · intro h hm
      by_contra hle
      have hbound : ∀ j < 16, u32 (j + start.sec) ≤ 60 := fun j hj =>
        Nat.not_lt.mp fun hlt => h j hj ((hends j).mpr ⟨hlt, hm⟩)
      have h0 := hbound 0 (by norm_num)
      have h1 := hbound (61 - u32 start.sec) (by omega)
      unfold u32 at h0 h1 hle
      omega
    · intro h j hj hend
      obtain ⟨hj', hm⟩ := (hends j).mp hend
      have := h hm
      unfold u32 at hj' this
      omega

theorem getTimeFinal_fst (start now : LibrmcTime) :
    (getTimeFinal start now).1 =
      (getTimeFinalLoop start now 64 (Elapsed.after start now 0)).utime := by
  unfold Elapsed.after
  rw [if_pos rfl, ite_self]
  rfl

/-- `get_time_final` counts more than 15. -/
theorem countsPast_iff {start now : LibrmcTime} (hsec : now.sec ≤ 60) :
    15 < (getTimeFinal start now).1 ↔ CountsPast start now := by
  have hcount := getTimeFinal_fst start now
  have hpast : CountsPast start now → ¬ (start.min = 0 ∧ start.sec = 0) ∧ Elapsed.Counts start now := by
    rintro ⟨hz, h⟩
    split_ifs at h with hlt
    · exact ⟨hz, .inl hlt⟩
    · exact ⟨hz, .inl hlt⟩
    · exact ⟨hz, .inr ⟨h.1, h.2.1⟩⟩
  by_cases hc : Elapsed.Counts start now
  · by_cases hz : start.min = 0 ∧ start.sec = 0
    · have hstop : (getTimeFinal start now).1 = 0 := by
        rw [hcount, getTimeFinalLoop, if_pos hz]
        rfl
      rw [hstop]
      exact iff_of_false (by norm_num) fun h => (hpast h).1 hz
    · have hs : ¬ (start.min = now.min ∧ start.sec = now.sec) := by
        unfold Elapsed.Counts at hc
        omega
      rw [hcount, Elapsed.loop_past_iff hz hs hc, not_ends_iff hz hc hsec]
  · rw [hcount, Elapsed.utime_loop_of_not_counts hc]
    exact iff_of_false (by norm_num [Elapsed.after]) fun h => hc (hpast h).2

/-! ### The time of the day -/

/-- `tm_min` and `tm_sec` of the local time `t`, in seconds. -/
def clock (t : ℕ) : LibrmcTime := ⟨t / 60 % 60, t % 60⟩

/-- The count is short: the start is at minute 0 and second 0, the seconds agree, now is in the next
minute and the start was in the last 14 seconds of its own, or an hour has turned. -/
def CountsShort (first now : LibrmcTime) : Prop :=
  (first.min = 0 ∧ first.sec = 0) ∨ now.sec = first.sec ∨
  (now.min = first.min + 1 ∧ 45 < first.sec) ∨
  (now.min = 0 ∧ first.sec < now.sec ∧ now.sec ≤ 15) ∨
  (now.sec < first.sec ∧ now.min ≤ first.min)

/-- The count is long: it is 16 from second 45 to the beginning of the next minute. -/
def CountsLong (first now : LibrmcTime) : Prop :=
  first.sec = 45 ∧ now.sec = 0 ∧ now.min = first.min + 1

/-- Within an hour the count goes past 15 when more than 15 seconds have passed, unless it is short;
and before when it is long. -/
theorem countsPast_clock {t₀ t : ℕ} (hle : t₀ ≤ t) (hlt : t < t₀ + 3600) :
    CountsPast (clock t₀) (clock t) ↔
      if 15 < t - t₀ then ¬ CountsShort (clock t₀) (clock t) else CountsLong (clock t₀) (clock t) := by
  have hu : ∀ n, n % 60 + 1 = u32 (n % 60 + 1) := fun n => (u32_of_lt (by omega)).symm
  have hs : u32 (t₀ % 60) = t₀ % 60 := u32_of_lt (by omega)
  unfold CountsPast CountsShort CountsLong clock
  dsimp only
  rw [← hu, hs]
  split_ifs <;> omega

/-! ### When the seconds are counted right -/

/-- What is counted between two readings of a clock: up to the seconds of now in the minute of the
start and in minute 0, up to second 61 of the minute of the start in the next, and 60 in any other. -/
def counted (start now : LibrmcTime) : ℕ :=
  if start.sec < now.sec ∧ now.min = start.min then now.sec - start.sec
  else if now.min = start.min + 1 then min 60 (61 - start.sec)
  else if start.sec < now.sec ∧ now.min = 0 then now.sec
  else 60

open Elapsed in
theorem getTimeFinal_counted {start now : LibrmcTime} (hz : ¬ (start.min = 0 ∧ start.sec = 0))
    (hc : Counts start now) (hmin : start.min < 60) (hsec : start.sec < 60) (hnow : now.sec < 60) :
    (getTimeFinal start now).1 = counted start now := by
  have hs : ¬ (start.min = now.min ∧ start.sec = now.sec) := by
    unfold Counts at hc
    omega
  have hends : ∀ j ≤ 60, Ends start now (after start now j) ↔
      (j + start.sec = now.sec ∧ now.min = start.min) ∨
      (60 < j + start.sec ∧ now.min = start.min + 1) ∨
      (start.sec < now.sec ∧ 0 = now.min ∧ j = now.sec) := by
    intro j hj
    unfold Ends after
    dsimp only
    rw [u32_of_lt (by omega), u32_of_lt (by omega)]
    unfold Counts at hc
    split_ifs <;> omega
  rw [getTimeFinal_fst]
  unfold Counts at hc
  apply utime_loop hz hs hc
  · unfold counted
    split_ifs <;> omega
  · intro j hj hend
    unfold counted at hj
    rw [hends j (by split_ifs at hj <;> omega)] at hend
    split_ifs at hj <;> omega
  · unfold counted
    rw [hends _ (by split_ifs <;> omega)]
    split_ifs <;> omega

/-- `get_time_final` at the local time `t` returns, with the seconds since `t₀`. -/
def MeasuresElapsed (t₀ t : ℕ) : Prop :=
  Elapsed.Exits (clock t₀) (clock t) (getTimeFinalLoop (clock t₀) (clock t) 64 ⟨0, 0, 0, 1⟩) ∧
    (getTimeFinal (clock t₀) (clock t)).1 = t - t₀

/-- The count is right: the two readings agree, or the minute is the same and the start was not at
minute 0 and second 0, or now is second 1 of the next minute and the start was after second 1. -/
def CountsRight (first now : LibrmcTime) : Prop :=
  (now.min = first.min ∧ now.sec = first.sec) ∨
  (now.min = first.min ∧ first.sec < now.sec ∧ ¬ (first.min = 0 ∧ first.sec = 0)) ∨
  (now.min = first.min + 1 ∧ now.sec = 1 ∧ 1 < first.sec)

/-- Within an hour, `get_time_final` always returns, and measures the time exactly then. -/
theorem measuresElapsed_iff {t₀ t : ℕ} (hle : t₀ ≤ t) (hlt : t < t₀ + 3600) :
    MeasuresElapsed t₀ t ↔ CountsRight (clock t₀) (clock t) := by
  rw [MeasuresElapsed, and_iff_right (Elapsed.getTimeFinalLoop_exits _ _)]
  by_cases hz : (clock t₀).min = 0 ∧ (clock t₀).sec = 0
  · have hzero : (getTimeFinal (clock t₀) (clock t)).1 = 0 := by
      rw [getTimeFinal_fst, Elapsed.loop_of_exits (.inl hz)]
      rfl
    rw [hzero]
    unfold CountsRight clock at *
    dsimp only at *
    omega
  · by_cases hc : Elapsed.Counts (clock t₀) (clock t)
    · rw [getTimeFinal_counted hz hc (Nat.mod_lt _ (by norm_num)) (Nat.mod_lt _ (by norm_num))
        (Nat.mod_lt _ (by norm_num))]
      unfold CountsRight counted Elapsed.Counts clock at *
      dsimp only at *
      split_ifs <;> omega
    · rw [getTimeFinal_fst, Elapsed.utime_loop_of_not_counts hc]
      unfold CountsRight Elapsed.Counts Elapsed.after clock at *
      dsimp only at *
      omega

/-- Twenty seconds later, in the same minute. -/
theorem measuresElapsed_twenty : MeasuresElapsed 25 45 :=
  (measuresElapsed_iff (by norm_num) (by norm_num)).mpr (.inr (.inl ⟨rfl, by decide, by decide⟩))

/-- From minute 0 and second 0 on nothing is counted. -/
theorem not_measuresElapsed_zero : ¬ MeasuresElapsed 0 1 := by
  rintro ⟨-, h⟩
  exact absurd h (by decide)

end Carroll
