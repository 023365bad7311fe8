import BinaryReport.Proofs.Binary64.Order
import BinaryReport.Proofs.Decompiler.Call
import Mathlib.Algebra.Order.Floor.Semiring

/-!
# Supervised calls in time

The decompiler of a loaded program sets its timer to the latency of the function, or to the time limit if
that is shorter; the backstop comes a grace period after the limit. Delays that are out of range act as
one millisecond, but a backstop in range is later than that, too, so it never comes first
(`dueAt_lt_backstop`). Out of range there is no backstop. So whatever the latency and the limit are, the
timer of the decompiler settles the call, and the backstop is all that is left to remove
(`exists_answered_supervise`).
-/

namespace BinaryReport

open Binary64

namespace Clock

/-- The timer that stands last is taken first if it is due before all others. -/
theorem takeEarliest_append {α : Type} {timers : List (Timer α)} {x : Timer α}
    (h : ∀ t ∈ timers, x.due < t.due) : takeEarliest (timers ++ [x]) = some (x, timers) := by
  induction timers with
  | nil => rfl
  | cons t timers ih =>
    have hrest := ih fun u hu => h u (List.mem_cons_of_mem t hu)
    rw [List.cons_append, takeEarliest, hrest]
    dsimp only
    rw [if_pos (h t List.mem_cons_self)]

/-- A timer that is due before all others of its clock fires first. -/
theorem next?_schedule {α : Type} {c : Clock α} {delay : Binary64} (label : α)
    (h : ∀ t ∈ c.timers, dueAt c.now delay < t.due) :
    (c.schedule delay label).next? = some (label, ⟨dueAt c.now delay, c.timers⟩) := by
  have hfirst : takeEarliest (c.schedule delay label).timers =
      some (⟨dueAt c.now delay, label⟩, c.timers) :=
    takeEarliest_append (x := ⟨dueAt c.now delay, label⟩) h
  rw [next?, hfirst]
  rfl

/-! ## Delays -/

theorem ofNat_longestDelay : Binary64.ofNat longestDelay = .finite longestDelay :=
  ofNat_eq (by decide)

/-- A delay is in range and acts as it is, or it acts as one millisecond. -/
theorem effectiveDelay_cases (delay : Binary64) :
    (∃ w : Rat, delay = .finite w ∧ 1 ≤ w ∧ w ≤ longestDelay ∧ effectiveDelay delay = w) ∨
      effectiveDelay delay = 1 := by
  unfold effectiveDelay
  rw [ofNat_longestDelay]
  split
  · next hrange =>
    obtain ⟨hlow, hhigh⟩ := Bool.and_eq_true_iff.1 hrange
    obtain ⟨w, rfl, hw, hw'⟩ := exists_finite_between hlow hhigh
    exact Or.inl ⟨w, rfl, hw, hw', rfl⟩
  · exact Or.inr rfl

theorem effectiveDelay_finite {w : Rat} (hlow : 1 ≤ w) (hhigh : w ≤ longestDelay) :
    effectiveDelay (.finite w) = w := by
  have hrange : (Binary64.le (.finite 1) (.finite w) &&
      Binary64.le (.finite w) (.finite longestDelay)) = true :=
    Bool.and_eq_true_iff.2 ⟨decide_eq_true hlow, decide_eq_true hhigh⟩
  unfold effectiveDelay
  rw [ofNat_longestDelay, if_pos hrange]
  rfl

/-- A delay between small integers ends between them. -/
theorem dueAt_zero_between {delay : Binary64} {m n : Nat} (hn : n ≤ exactLimit)
    (hlow : m ≤ effectiveDelay delay) (hhigh : effectiveDelay delay ≤ n) :
    m ≤ dueAt 0 delay ∧ dueAt 0 delay ≤ n := by
  obtain ⟨r, hround, hmr, hrn⟩ := exists_round_between hn hlow hhigh
  unfold dueAt
  rw [zero_add, hround]
  exact ⟨hmr, hrn⟩

theorem dueAt_zero_le {w : Rat} {n : Nat} (hn : 1 ≤ n) (hlimit : n ≤ exactLimit) (h : w ≤ n) :
    dueAt 0 (.finite w) ≤ n := by
  have hone : ((1 : Nat) : Rat) ≤ n := Nat.cast_le.2 hn
  have hbounds : ((1 : Nat) : Rat) ≤ effectiveDelay (.finite w) ∧ effectiveDelay (.finite w) ≤ n := by
    rw [Nat.cast_one] at hone ⊢
    rcases effectiveDelay_cases (.finite w) with ⟨w', hw', hlow, -, heq⟩ | heq
    · obtain rfl := Binary64.finite.inj hw'
      rw [heq]
      exact ⟨hlow, h⟩
    · rw [heq]
      exact ⟨le_rfl, hone⟩
  exact (dueAt_zero_between hlimit hbounds.1 hbounds.2).2

theorem le_dueAt_zero {w : Rat} {n : Nat} (hn : 1 ≤ n) (hlow : n ≤ w) (hhigh : w ≤ longestDelay) :
    n ≤ dueAt 0 (.finite w) := by
  have hone : ((1 : Nat) : Rat) ≤ n := Nat.cast_le.2 hn
  rw [Nat.cast_one] at hone
  have heq := effectiveDelay_finite (hone.trans hlow) hhigh
  have hlimit : longestDelay ≤ exactLimit := by decide
  rw [← heq] at hlow hhigh
  exact (dueAt_zero_between hlimit hlow hhigh).1

end Clock

theorem Decompiler.nonneg_milliseconds {limit : Binary64} (h : 0 < limit) :
    0 ≤ milliseconds limit := by
  have hzero : (0 : Binary64) = .finite (0 : Nat) := ofNat_eq (by decide)
  have hfactor : (1000 : Binary64) = .finite (1000 : Nat) := ofNat_eq (by decide)
  unfold milliseconds
  rw [hzero] at h ⊢
  rw [hfactor]
  cases limit with
  | finite q =>
    have hq : ((0 : Nat) : Rat) < q := of_decide_eq_true h
    refine le_round (by decide) ?_
    rw [Nat.cast_zero] at hq ⊢
    exact mul_nonneg (le_of_lt hq) (Nat.cast_nonneg 1000)
  | infinite negative =>
    cases negative
    · decide
    · cases h
  | nan => cases h

namespace Call

variable {limit delay : Binary64} {f : Function}

/-- The delay of a backstop in range lies a grace period behind the time limit, up to rounding. -/
theorem exists_round_backstop {v : Rat} (hv : 0 ≤ v)
    (harmed : Binary64.round (v + (1000 : Nat)) ≤ .finite Clock.longestDelay) :
    ∃ (n : Nat) (r : Rat), 1 ≤ n ∧ v ≤ n ∧ ((n + 1 : Nat) : Rat) ≤ r ∧ r ≤ Clock.longestDelay ∧
      Binary64.round (v + (1000 : Nat)) = .finite r := by
  -- The limit in whole milliseconds, rounded up.
  let n := max 1 ⌈v⌉₊
  have hceil : v ≤ n := (Nat.le_ceil v).trans (Nat.cast_le.2 (le_max_right 1 ⌈v⌉₊))
  have hn : (n : Rat) ≤ v + 1 := by
    rw [Nat.cast_max, Nat.cast_one]
    exact max_le (by linarith) (le_of_lt (Nat.ceil_lt_add_one hv))
  have hsmall : v + (1000 : Nat) < (Clock.longestDelay + 1 : Nat) := by
    by_contra hlarge
    have hbeyond : Binary64.finite (Clock.longestDelay + 1 : Nat) ≤ .finite Clock.longestDelay :=
      Binary64.le_trans (le_round (by decide) (not_lt.1 hlarge)) harmed
    have hcast := finite_le_finite_iff.1 hbeyond
    exact absurd (Nat.cast_le.1 hcast) (by omega)
  have hgrace : ((n + 1 : Nat) : Rat) ≤ v + (1000 : Nat) := by
    push_cast
    linarith
  obtain ⟨r, hround, hlow, -⟩ := exists_round_between (by decide) hgrace (le_of_lt hsmall)
  rw [hround] at harmed
  exact ⟨n, r, le_max_left 1 ⌈v⌉₊, hceil, hlow, finite_le_finite_iff.1 harmed, hround⟩

/-- A timer that is set to the time limit at the latest comes before the backstop. -/
theorem dueAt_lt_backstop (hnonneg : 0 ≤ delay) (hle : delay ≤ Decompiler.milliseconds limit)
    (harmed : backstopDelay limit ≤ .ofNat Clock.longestDelay) :
    Clock.dueAt 0 delay < Clock.dueAt 0 (backstopDelay limit) := by
  have hgrace : Binary64.ofNat graceMs = .finite (1000 : Nat) := ofNat_eq (by decide)
  have hzero : (0 : Binary64) = .finite (0 : Nat) := ofNat_eq (by decide)
  have hms := Binary64.le_trans hnonneg hle
  unfold backstopDelay at harmed ⊢
  rw [hgrace] at harmed ⊢
  rw [hzero] at hnonneg hms
  rw [Clock.ofNat_longestDelay] at harmed
  cases hlimit : Decompiler.milliseconds limit with
  | finite v =>
    -- The whole milliseconds from the limit up separate the two.
    rw [hlimit] at hle harmed
    obtain ⟨w, rfl, hw, hwv⟩ := exists_finite_between hnonneg hle
    rw [Nat.cast_zero] at hw
    obtain ⟨n, r, hn, hvn, hnr, hr, hround⟩ := exists_round_backstop (hw.trans hwv) harmed
    have hbackstop : Binary64.finite v + .finite (1000 : Nat) = .finite r := hround
    have hrange : n + 1 ≤ Clock.longestDelay := Nat.cast_le.1 (hnr.trans hr)
    have hlongest : Clock.longestDelay ≤ exactLimit := by decide
    rw [hbackstop]
    calc Clock.dueAt 0 (.finite w) ≤ n := Clock.dueAt_zero_le hn (by omega) (hwv.trans hvn)
      _ < (n + 1 : Nat) := Nat.cast_lt.2 (Nat.lt_succ_self n)
      _ ≤ Clock.dueAt 0 (.finite r) := Clock.le_dueAt_zero (by omega) hnr hr
  | infinite negative =>
    rw [hlimit] at hms harmed
    cases negative
    · -- There is no backstop in range.
      cases harmed
    · cases hms
  | nan =>
    rw [hlimit] at hms
    cases hms

/-- What is left when the decompiler's timer has settled a call. -/
structure Answered (c : Call) (answer : Decompilation) : Prop where
  result : c.result? = some answer
  notAborted : c.abortedAt? = none
  /-- Nothing listens to an abort. -/
  unheard : c.listening = false
  /-- Without the backstop there is no timer of the call. -/
  released : (c.clock.cancel .abort).timers = []

/-- A call that has just begun has no timer but the backstop, and that only if it is in range. -/
theorem eq_of_mem_backstop {t : Timer Alarm} (ht : t ∈ (backstop .start limit).timers) :
    backstopDelay limit ≤ .ofNat Clock.longestDelay ∧
      t = ⟨Clock.dueAt 0 (backstopDelay limit), .abort⟩ := by
  unfold backstop at ht
  dsimp only at ht
  split at ht
  · next harmed => exact ⟨harmed, List.mem_singleton.1 ht⟩
  · cases ht

/-- The backstop, if there is one, is behind a timer that is set to the time limit at the latest. -/
theorem mem_backstop (hnonneg : 0 ≤ delay) (hle : delay ≤ Decompiler.milliseconds limit)
    {t : Timer Alarm} (ht : t ∈ (backstop .start limit).timers) :
    t.label = .abort ∧ Clock.dueAt 0 delay < t.due := by
  obtain ⟨harmed, rfl⟩ := eq_of_mem_backstop ht
  exact ⟨rfl, dueAt_lt_backstop hnonneg hle harmed⟩

theorem now_backstop (clock : Clock Alarm) (limit : Binary64) :
    (backstop clock limit).now = clock.now := by
  unfold backstop
  dsimp only
  split <;> rfl

/-- A call whose own timer is set to the time limit at the latest is settled by that timer. -/
theorem answered_begin (hnonneg : 0 ≤ delay) (hle : delay ≤ Decompiler.milliseconds limit)
    {call : PendingCall} (hunlistens : call.unlistens = true) :
    (begin (backstop .start limit) (.pending (some delay) call)).step.Answered call.answer := by
  have hnow : (backstop .start limit).now = 0 := now_backstop .start limit
  have hlater : ∀ t ∈ (backstop .start limit).timers,
      Clock.dueAt (backstop .start limit).now delay < t.due := by
    intro t ht
    rw [hnow]
    exact (mem_backstop hnonneg hle ht).2
  have hnext := Clock.next?_schedule Alarm.answer hlater
  have hstep : (begin (backstop .start limit) (.pending (some delay) call)).step =
      ⟨⟨Clock.dueAt (backstop .start limit).now delay, (backstop .start limit).timers⟩, some call,
        !call.unlistens, some call.answer, none⟩ := by
    unfold begin step
    dsimp only
    rw [hnext]
    rfl
  rw [hstep, hunlistens]
  refine ⟨rfl, rfl, rfl, List.filter_eq_nil_iff.2 fun t ht => ?_⟩
  rw [decide_eq_true_iff, not_not]
  exact (mem_backstop hnonneg hle ht).1

/-- The answer of the stored code under a time limit. -/
def storedAnswer (f : Function) (limit : Binary64) : Decompilation :=
  if f.latency ≤ Decompiler.milliseconds limit then .complete f.code? else .timedOut limit

/-- The decompiler of a loaded program answers a supervised call by itself, whatever the latency and the
limit are. -/
theorem exists_answered_supervise (hlatency : 0 ≤ f.latency) (hlimit : 0 < limit) :
    ∃ call, supervise (Decompiler.stored true) f limit = .ok call ∧
      call.step.Answered (storedAnswer f limit) := by
  have hms := Decompiler.nonneg_milliseconds hlimit
  have hcompare : ¬ Decompiler.milliseconds limit < f.latency ↔
      f.latency ≤ Decompiler.milliseconds limit :=
    not_lt_iff_le (ne_nan_of_le hms).2 (ne_nan_of_le hlatency).2
  refine ⟨begin (backstop .start limit) (Decompiler.serve f limit), rfl, ?_⟩
  unfold Decompiler.serve storedAnswer
  dsimp only
  by_cases hlt : Decompiler.milliseconds limit < f.latency
  · rw [if_pos hlt, if_neg (mt hcompare.2 (not_not.2 hlt))]
    exact answered_begin hms (Binary64.le_refl (ne_nan_of_le hms).2) rfl
  · rw [if_neg hlt, if_pos (hcompare.1 hlt)]
    exact answered_begin hlatency (hcompare.1 hlt) rfl

end Call

end BinaryReport
