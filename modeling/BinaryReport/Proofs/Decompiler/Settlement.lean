import BinaryReport.Proofs.Decompiler.Timing

/-!
# How a call is settled

A call that waits has two alarms, and the first one settles it. Here the caller may do what it likes
while the call is pending and when it is settled: it aborts the call, or sets timers to abort it, at any
time, and timers fire after the settlement, too (`CallEvent`). `Call.answers` lists every answer that a
handler of the call gives along the way, also one that comes too late.

`firstAlarm?` tells from the times alone which alarm comes first. It settles the call. Its handler has
removed the other one, so no other answer is given, and neither the call's own timer nor its listener is
left (`Call.settles_waiting`).
-/

namespace BinaryReport

/-! ## Timers -/

namespace Clock

variable {α : Type}

/-- The timer that is taken stands before those that are due as early, and after those due later only. -/
theorem takeEarliest_eq_append {timers rest : List (Timer α)} {t : Timer α}
    (h : takeEarliest timers = some (t, rest)) :
    ∃ older newer, timers = older ++ t :: newer ∧ rest = older ++ newer ∧
      (∀ u ∈ older, t.due < u.due) ∧ ∀ u ∈ newer, t.due ≤ u.due := by
  induction timers generalizing t rest with
  | nil => cases h
  | cons v timers ih =>
    rw [takeEarliest] at h
    cases hearliest : takeEarliest timers with
    | none =>
      rw [hearliest] at h
      obtain ⟨rfl, rfl⟩ := Prod.mk.inj (Option.some.inj h)
      have hnil : timers = [] := by
        by_contra hne
        obtain ⟨label, clock, hnext⟩ := Call.exists_next? (c := ⟨0, timers⟩) hne
        rw [next?, hearliest] at hnext
        cases hnext
      exact ⟨[], [], by rw [hnil]; rfl, rfl, by simp, by simp⟩
    | some found =>
      obtain ⟨u, others⟩ := found
      rw [hearliest] at h
      obtain ⟨older, newer, rfl, rfl, holder, hnewer⟩ := ih hearliest
      dsimp only at h
      split at h
      · next hlt =>
        obtain ⟨rfl, rfl⟩ := Prod.mk.inj (Option.some.inj h)
        refine ⟨v :: older, newer, rfl, rfl, fun w hw => ?_, hnewer⟩
        rcases List.mem_cons.1 hw with rfl | hw
        · exact hlt
        · exact holder w hw
      · next hle =>
        obtain ⟨rfl, rfl⟩ := Prod.mk.inj (Option.some.inj h)
        refine ⟨[], _, rfl, rfl, by simp, fun w hw => ?_⟩
        have hfirst : v.due ≤ u.due := not_lt.1 hle
        rcases List.mem_append.1 hw with hw | hw
        · exact hfirst.trans (le_of_lt (holder w hw))
        · rcases List.mem_cons.1 hw with rfl | hw
          · exact hfirst
          · exact hfirst.trans (hnewer w hw)

theorem exists_mem_of_next? {c c' : Clock α} {label : α} (h : c.next? = some (label, c')) :
    ∃ t ∈ c.timers, t.label = label := by
  unfold next? at h
  rw [Option.map_eq_some_iff] at h
  obtain ⟨⟨t, rest⟩, hearliest, heq⟩ := h
  obtain ⟨rfl, -⟩ := Prod.mk.inj heq
  obtain ⟨older, newer, hall, -, -, -⟩ := takeEarliest_eq_append hearliest
  exact ⟨t, by rw [hall]; exact List.mem_append_right _ List.mem_cons_self, rfl⟩

theorem mem_of_next? {c c' : Clock α} {label : α} (h : c.next? = some (label, c')) :
    ∀ t ∈ c'.timers, t ∈ c.timers := by
  unfold next? at h
  rw [Option.map_eq_some_iff] at h
  obtain ⟨⟨t, rest⟩, hearliest, heq⟩ := h
  obtain ⟨-, rfl⟩ := Prod.mk.inj heq
  obtain ⟨older, newer, hall, rfl, -, -⟩ := takeEarliest_eq_append hearliest
  intro u hu
  rw [hall]
  rcases List.mem_append.1 hu with hu | hu
  · exact List.mem_append_left _ hu
  · exact List.mem_append_right _ (List.mem_cons_of_mem t hu)

end Clock

/-! ## Events -/

/-- What happens to a call, or to the clock that it runs against. -/
inductive CallEvent where
  /-- The timer that is due first fires. -/
  | fire
  /-- The caller aborts the call. -/
  | abort
  /-- The caller sets a timer to abort the call. -/
  | arm (delay : Binary64)
  /-- Other timers of the host fire, and the time is another one. -/
  | pass (now : Rat)
deriving DecidableEq

namespace Call

/-- The alarm that an event brings. -/
def alarm? (c : Call) : CallEvent → Option Alarm
  | .fire => c.clock.next?.map Prod.fst
  | .abort => some .abort
  | .arm _ => none
  | .pass _ => none

/-- The call after an event. Timers fire whether the call is settled or not. -/
def after (c : Call) : CallEvent → Call
  | .fire =>
    match c.clock.next? with
    | some (alarm, clock) => { c with clock := clock }.handle alarm
    | none => c
  | .abort => c.handle .abort
  | .arm delay => { c with clock := c.clock.schedule delay .abort }
  | .pass now => { c with clock := { c.clock with now := now } }

/-- The call after a list of events. -/
def afterAll (c : Call) (events : List CallEvent) : Call := events.foldl after c

/-- The answers that handlers of the call give along a list of events, whether it is settled or not. -/
def answers (c : Call) : List CallEvent → List Decompilation
  | [] => []
  | x :: events => ((c.alarm? x).bind c.answer?).toList ++ answers (c.after x) events

/-- Until a call is settled, its step is that the next timer fires. -/
theorem step_eq_after {c : Call} (h : c.result? = none) : c.step = c.after .fire := by
  unfold step after
  rw [h]
  cases hnext : c.clock.next? with
  | none => rfl
  | some fired => rfl

/-! ## Settled calls -/

/-- The call is settled, nothing listens any more, and the call's own timer is gone. -/
structure SettledAs (c : Call) (d : Decompilation) : Prop where
  result : c.result? = some d
  unheard : c.listening = false
  disarmed : ∀ t ∈ c.clock.timers, t.label = .abort

variable {c : Call} {d : Decompilation}

theorem answer?_abort_of_unheard (h : c.listening = false) : c.answer? .abort = none := by
  rw [answer?, h]
  rfl

/-- The own timer of a settled call is gone, so an abort is all that can reach it. -/
theorem SettledAs.alarm?_eq (h : c.SettledAs d) {x : CallEvent} {alarm : Alarm}
    (halarm : c.alarm? x = some alarm) : alarm = .abort := by
  cases x with
  | fire =>
    obtain ⟨⟨fired, clock⟩, hnext, rfl⟩ := Option.map_eq_some_iff.1 halarm
    obtain ⟨t, ht, rfl⟩ := Clock.exists_mem_of_next? hnext
    exact h.disarmed t ht
  | abort => exact (Option.some.inj halarm).symm
  | arm delay => cases halarm
  | pass now => cases halarm

/-- Nothing answers a settled call. -/
theorem SettledAs.unanswered (h : c.SettledAs d) (x : CallEvent) :
    (c.alarm? x).bind c.answer? = none := by
  cases halarm : c.alarm? x with
  | none => rfl
  | some alarm =>
    obtain rfl := h.alarm?_eq halarm
    exact answer?_abort_of_unheard h.unheard

/-- An abort of a settled call has no effect but to be noted. -/
theorem SettledAs.abort (h : c.SettledAs d) : (c.handle .abort).SettledAs d := by
  unfold handle disarm
  rw [answer?_abort_of_unheard h.unheard]
  dsimp only
  split
  · exact h
  · exact ⟨h.result, rfl, h.disarmed⟩

theorem SettledAs.after (h : c.SettledAs d) (x : CallEvent) : (c.after x).SettledAs d := by
  cases x with
  | fire =>
    unfold Call.after
    cases hnext : c.clock.next? with
    | none => exact h
    | some fired =>
      obtain ⟨alarm, clock⟩ := fired
      have hfewer : ∀ t ∈ clock.timers, t ∈ c.clock.timers := Clock.mem_of_next? hnext
      have hsettled : ({ c with clock := clock } : Call).SettledAs d :=
        ⟨h.result, h.unheard, fun t ht => h.disarmed t (hfewer t ht)⟩
      obtain rfl : alarm = .abort := h.alarm?_eq (x := .fire) (by rw [alarm?, hnext]; rfl)
      exact hsettled.abort
  | abort => exact h.abort
  | arm delay =>
    refine ⟨h.result, h.unheard, fun t ht => ?_⟩
    rcases List.mem_append.1 ht with ht | ht
    · exact h.disarmed t ht
    · rw [List.mem_singleton.1 ht]
  | pass now => exact ⟨h.result, h.unheard, h.disarmed⟩

/-- What comes later has no effect. -/
theorem SettledAs.afterAll (h : c.SettledAs d) (events : List CallEvent) :
    (c.afterAll events).SettledAs d ∧ c.answers events = [] := by
  induction events generalizing c with
  | nil => exact ⟨h, rfl⟩
  | cons x events ih =>
    obtain ⟨hlater, hnone⟩ := ih (h.after x)
    exact ⟨hlater, by rw [answers, h.unanswered, hnone]; rfl⟩

/-- An event that settles a call with an answer: nothing else answers it. -/
theorem settles_cons {x : CallEvent} {alarm : Alarm} (halarm : c.alarm? x = some alarm)
    (hanswer : c.answer? alarm = some d) (hsettled : (c.after x).SettledAs d)
    (events : List CallEvent) :
    c.answers (x :: events) = [d] ∧ (c.afterAll (x :: events)).SettledAs d := by
  obtain ⟨hlater, hnone⟩ := hsettled.afterAll events
  rw [answers, halarm, Option.bind_some, hanswer, hnone]
  exact ⟨rfl, hlater⟩

/-! ## Calls that wait -/

/-- Of the call's own timer, the timers that were set before it, and those set since then, the label of
the one that is due first; of timers due together it is the one set first. -/
def dueFirst (own : Rat) (before since : List (Timer Alarm)) : Alarm :=
  if before.any (·.due ≤ own) || since.any (·.due < own) then .abort else .answer

/-- The first alarm that reaches a call with a timer of its own. -/
def firstAlarm? (own : Rat) (before : List (Timer Alarm)) (since : Clock Alarm) :
    List CallEvent → Option Alarm
  | [] => none
  | .fire :: _ => some (dueFirst own before since.timers)
  | .abort :: _ => some .abort
  | .arm delay :: events => firstAlarm? own before (since.schedule delay .abort) events
  | .pass now :: events => firstAlarm? own before { since with now := now } events

/-- A call that waits for its own timer or an abort, and the answer to either alarm. -/
def waiting (verdict : Alarm → Decompilation) (own : Rat) (before : List (Timer Alarm))
    (since : Clock Alarm) : Call :=
  ⟨⟨since.now, before ++ ⟨own, .answer⟩ :: since.timers⟩,
    some ⟨verdict .answer, true, some (verdict .abort), true⟩, true, none, none⟩

theorem firstAlarm?_eq_none_iff {own : Rat} {before : List (Timer Alarm)} {since : Clock Alarm}
    {events : List CallEvent} :
    firstAlarm? own before since events = none ↔ .fire ∉ events ∧ .abort ∉ events := by
  induction events generalizing since with
  | nil => simp [firstAlarm?]
  | cons x events ih =>
    cases x with
    | fire => simp [firstAlarm?]
    | abort => simp [firstAlarm?]
    | arm delay => simp [firstAlarm?, ih]
    | pass now => simp [firstAlarm?, ih]

section

variable {verdict : Alarm → Decompilation} {own : Rat} {before : List (Timer Alarm)}
  {since : Clock Alarm}

/-- The own timer of a call is taken when no abort is due earlier, or as early and set before it. -/
theorem takeEarliest_waiting {rest : List (Timer Alarm)} {t : Timer Alarm}
    (hbefore : ∀ u ∈ before, u.label = .abort) (hsince : ∀ u ∈ since.timers, u.label = .abort)
    (h : Clock.takeEarliest (before ++ ⟨own, .answer⟩ :: since.timers) = some (t, rest)) :
    t.label = dueFirst own before since.timers ∧
      (t.label = .answer → rest = before ++ since.timers) := by
  obtain ⟨older, newer, hall, rfl, holder, hnewer⟩ := Clock.takeEarliest_eq_append h
  have hown : t = ⟨own, .answer⟩ → before = older → since.timers = newer →
      t.label = dueFirst own before since.timers ∧
        (t.label = .answer → older ++ newer = before ++ since.timers) := by
    rintro rfl rfl hnew
    rw [hnew]
    have hnot : ¬ (before.any (·.due ≤ own) || newer.any (·.due < own)) = true := by
      simp only [Bool.or_eq_true, List.any_eq_true, decide_eq_true_eq, not_or, not_exists, not_and,
        not_le, not_lt]
      exact ⟨holder, hnewer⟩
    rw [dueFirst, if_neg hnot]
    exact ⟨rfl, fun _ => rfl⟩
  have habort : t.label = .abort →
      ((∃ u ∈ before, u.due ≤ own) ∨ ∃ u ∈ since.timers, u.due < own) →
      t.label = dueFirst own before since.timers ∧
        (t.label = .answer → older ++ newer = before ++ since.timers) := by
    intro hlabel hearlier
    have hdue : (before.any (·.due ≤ own) || since.timers.any (·.due < own)) = true := by
      simpa only [Bool.or_eq_true, List.any_eq_true, decide_eq_true_eq] using hearlier
    rw [dueFirst, if_pos hdue, hlabel]
    exact ⟨rfl, nofun⟩
  rcases List.append_eq_append_iff.1 hall with ⟨between, rfl, hrest⟩ | ⟨between, rfl, hrest⟩
  · cases between with
    | nil =>
      obtain ⟨hhead, htail⟩ := List.cons.inj hrest
      exact hown hhead.symm (List.append_nil _).symm htail
    | cons u between =>
      obtain ⟨rfl, htail⟩ := List.cons.inj hrest
      have hlabel : t.label = .abort := hsince t (by rw [htail]; simp)
      exact habort hlabel (Or.inr ⟨t, by rw [htail]; simp, holder ⟨own, .answer⟩ (by simp)⟩)
  · cases between with
    | nil =>
      obtain ⟨hhead, htail⟩ := List.cons.inj hrest
      exact hown hhead (List.append_nil _) htail.symm
    | cons u between =>
      obtain ⟨rfl, htail⟩ := List.cons.inj hrest
      have hlabel : t.label = .abort := hbefore t (by simp)
      exact habort hlabel (Or.inl ⟨t, by simp, hnewer ⟨own, .answer⟩ (by rw [htail]; simp)⟩)

theorem label_of_mem_cancel {clock : Clock Alarm} {t : Timer Alarm}
    (h : t ∈ (clock.cancel .answer).timers) : t.label = .abort := by
  have hother : t.label ≠ .answer := of_decide_eq_true (List.mem_filter.1 h).2
  cases hlabel : t.label with
  | abort => rfl
  | answer => exact absurd hlabel hother

theorem answer?_waiting (alarm : Alarm) :
    (waiting verdict own before since).answer? alarm = some (verdict alarm) := by
  cases alarm <;> rfl

/-- An abort settles a waiting call and removes the call's own timer. -/
theorem settledAs_abort :
    ((waiting verdict own before since).handle .abort).SettledAs (verdict .abort) :=
  ⟨rfl, rfl, fun _ ht => label_of_mem_cancel ht⟩

/-- The next timer settles a waiting call, with the answer to the timer that is due first. -/
theorem settledAs_fire (verdict : Alarm → Decompilation) (own : Rat)
    (hbefore : ∀ u ∈ before, u.label = .abort) (hsince : ∀ u ∈ since.timers, u.label = .abort) :
    (waiting verdict own before since).alarm? .fire = some (dueFirst own before since.timers) ∧
      ((waiting verdict own before since).after .fire).SettledAs
        (verdict (dueFirst own before since.timers)) := by
  have hsome : (waiting verdict own before since).clock.timers ≠ [] := by simp [waiting]
  obtain ⟨label, clock, hnext⟩ := exists_next? hsome
  have htaken := hnext
  unfold Clock.next? at htaken
  rw [Option.map_eq_some_iff] at htaken
  obtain ⟨⟨t, rest⟩, hearliest, heq⟩ := htaken
  obtain ⟨rfl, rfl⟩ := Prod.mk.inj heq
  obtain ⟨hlabel, hrest⟩ := takeEarliest_waiting hbefore hsince hearliest
  unfold alarm? after
  rw [hnext, ← hlabel]
  refine ⟨rfl, ?_⟩
  dsimp only
  cases hfired : t.label with
  | abort => exact ⟨rfl, rfl, fun u hu => label_of_mem_cancel hu⟩
  | answer =>
    refine ⟨rfl, rfl, fun u hu => ?_⟩
    rw [show _ = before ++ since.timers from hrest hfired] at hu
    rcases List.mem_append.1 hu with hu | hu
    · exact hbefore u hu
    · exact hsince u hu

/-- Whoever runs a waiting call lets one timer fire. -/
theorem run_waiting (hbefore : ∀ u ∈ before, u.label = .abort)
    (hsince : ∀ u ∈ since.timers, u.label = .abort) :
    (waiting verdict own before since).run = (waiting verdict own before since).after .fire := by
  have hstep : (waiting verdict own before since).step = (waiting verdict own before since).after .fire :=
    step_eq_after rfl
  obtain ⟨-, hsettled⟩ := settledAs_fire verdict own hbefore hsince
  rw [← hstep] at hsettled ⊢
  refine run_eq_step ?_
  rw [hsettled.result]
  rfl

/-- The alarm that comes first settles a waiting call; it is the only one that gives an answer. -/
theorem settles_waiting (verdict : Alarm → Decompilation) (own : Rat)
    (hbefore : ∀ u ∈ before, u.label = .abort) (hsince : ∀ u ∈ since.timers, u.label = .abort)
    (events : List CallEvent) :
    (waiting verdict own before since).answers events =
        ((firstAlarm? own before since events).map verdict).toList ∧
      ((waiting verdict own before since).afterAll events).result? =
        (firstAlarm? own before since events).map verdict ∧
      ∀ alarm, firstAlarm? own before since events = some alarm →
        ((waiting verdict own before since).afterAll events).SettledAs (verdict alarm) := by
  induction events generalizing since with
  | nil => exact ⟨rfl, rfl, nofun⟩
  | cons x events ih =>
    cases x with
    | fire =>
      obtain ⟨halarm, hsettled⟩ := settledAs_fire verdict own hbefore hsince
      obtain ⟨honce, hfinal⟩ := settles_cons halarm (answer?_waiting _) hsettled events
      refine ⟨honce, hfinal.result, fun alarm hfirst => ?_⟩
      obtain rfl := Option.some.inj hfirst
      exact hfinal
    | abort =>
      obtain ⟨honce, hfinal⟩ :=
        settles_cons (x := .abort) rfl (answer?_waiting .abort) settledAs_abort events
      refine ⟨honce, hfinal.result, fun alarm hfirst => ?_⟩
      obtain rfl := Option.some.inj hfirst
      exact hfinal
    | arm delay =>
      have hlater : ∀ u ∈ (since.schedule delay .abort).timers, u.label = .abort := by
        intro u hu
        rcases List.mem_append.1 hu with hu | hu
        · exact hsince u hu
        · rw [List.mem_singleton.1 hu]
      have hstill : (waiting verdict own before since).after (.arm delay) =
          waiting verdict own before (since.schedule delay .abort) := by
        simp [after, waiting, Clock.schedule]
      have hrest := ih hlater
      rw [← hstill] at hrest
      exact hrest
    | pass now => exact @ih { since with now := now } hsince

end

end Call

end BinaryReport
