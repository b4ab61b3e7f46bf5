import Mathlib.Data.Nat.Find
import N8n.Collections.Cycles
import N8n.Transition.Runs

/-!
# Firings of the schedule trigger

Hours, days, weeks and months are counted from a point in the past, and the calendar gives the
readings of each of them. The days have 24 hours, as in a time zone that does not change its clocks.
Cron fires at all times of the expression, and each firing is checked with the readings of its time.
See `trigger` of `packages/nodes-base/nodes/Schedule/ScheduleTrigger.node.ts`.
-/

namespace N8n.Schedule

open Collections Transition

/-! ## Rules of the schedule trigger

A rule has an interval, which becomes a cron expression and a recurrence. Cron fires more often than
some rules say, and `recurrenceCheck` accepts a firing by a calendar reading of the current time and
the reading of the last firing that it accepted. See
`packages/nodes-base/nodes/Schedule/GenericFunctions.ts`.
-/

/-- A field of a cron expression: `*`, `*/step`, or a list of values. -/
inductive CronField where
  | all
  | every (step : Nat)
  | values (values : List Nat)
  deriving DecidableEq

structure CronExpression where
  second : CronField
  minute : CronField
  hour : CronField
  dayOfMonth : CronField
  month : CronField
  dayOfWeek : CronField
  deriving DecidableEq

/-- `ScheduleInterval`. -/
inductive ScheduleInterval where
  | cronExpression (expression : CronExpression)
  | seconds (secondsInterval : Nat)
  | minutes (minutesInterval : Nat)
  | hours (hoursInterval : Nat) (triggerAtMinute : Option Nat)
  | days (daysInterval : Nat) (triggerAtHour triggerAtMinute : Option Nat)
  | weeks (weeksInterval : Nat) (triggerAtDay : List Nat)
      (triggerAtHour triggerAtMinute : Option Nat)
  | months (monthsInterval : Nat) (triggerAtDayOfMonth triggerAtHour triggerAtMinute : Option Nat)

/-- What `randomInt` gives for what is left open. -/
structure RandomInts where
  second : Nat
  minute : Nat
  hour : Nat
  dayOfMonth : Nat

/-- `toCronExpression(interval)`. -/
def toCronExpression (random : RandomInts) : ScheduleInterval → CronExpression
  | .cronExpression expression => expression
  | .seconds secondsInterval =>
    { second := .every secondsInterval, minute := .all, hour := .all, dayOfMonth := .all,
      month := .all, dayOfWeek := .all }
  | .minutes minutesInterval =>
    { second := .values [random.second], minute := .every minutesInterval, hour := .all,
      dayOfMonth := .all, month := .all, dayOfWeek := .all }
  | .hours hoursInterval triggerAtMinute =>
    { second := .values [random.second], minute := .values [triggerAtMinute.getD random.minute],
      hour := .every hoursInterval, dayOfMonth := .all, month := .all, dayOfWeek := .all }
  | .days _ triggerAtHour triggerAtMinute =>
    { second := .values [random.second], minute := .values [triggerAtMinute.getD random.minute],
      hour := .values [triggerAtHour.getD random.hour], dayOfMonth := .all, month := .all,
      dayOfWeek := .all }
  | .weeks _ triggerAtDay triggerAtHour triggerAtMinute =>
    { second := .values [random.second], minute := .values [triggerAtMinute.getD random.minute],
      hour := .values [triggerAtHour.getD random.hour], dayOfMonth := .all, month := .all,
      dayOfWeek := if triggerAtDay.isEmpty then .all else .values triggerAtDay }
  | .months monthsInterval triggerAtDayOfMonth triggerAtHour triggerAtMinute =>
    { second := .values [random.second], minute := .values [triggerAtMinute.getD random.minute],
      hour := .values [triggerAtHour.getD random.hour],
      dayOfMonth := .values [triggerAtDayOfMonth.getD random.dayOfMonth],
      month := .every monthsInterval, dayOfWeek := .all }

inductive TypeInterval where
  | hours
  | days
  | weeks
  | months
  deriving DecidableEq

/-- `IRecurrenceRule`. -/
inductive IRecurrenceRule where
  | inactive
  | activated (index intervalSize : Nat) (typeInterval : TypeInterval)
  deriving DecidableEq

/-- `intervalToRecurrence(interval, index)`. -/
def intervalToRecurrence (interval : ScheduleInterval) (index : Nat) : IRecurrenceRule :=
  match interval with
  | .hours hoursInterval _ =>
    if hoursInterval ≠ 1 then .activated index hoursInterval .hours else .inactive
  | .days daysInterval _ _ =>
    if daysInterval ≠ 1 then .activated index daysInterval .days else .inactive
  | .weeks weeksInterval _ _ _ =>
    if weeksInterval ≠ 1 then .activated index weeksInterval .weeks else .inactive
  | .months monthsInterval _ _ _ =>
    if monthsInterval ≠ 1 then .activated index monthsInterval .months else .inactive
  | .cronExpression _ | .seconds _ | .minutes _ => .inactive

/-- The readings of a time in the time zone: `hour()`, `dayOfYear()`, `week()` and `month()`. -/
def Moment : Type := TypeInterval → Nat

/-- `recurrenceRules`: the reading of the last accepted firing of each rule. -/
def RecurrenceRules : Type := Nat → Option Nat

/-- Does a reading fit the one of the last execution? -/
def fits (typeInterval : TypeInterval) (intervalSize lastExecution reading : Nat) : Bool :=
  match typeInterval with
  | .hours => reading = (intervalSize + lastExecution) % 24
  | .days => reading = (intervalSize + lastExecution) % 365
  | .weeks => reading = (intervalSize + lastExecution) % 52 || reading = lastExecution
  | .months => reading = (intervalSize + lastExecution) % 12

/-- `recurrenceCheck(recurrence, recurrenceRules, timezone)`, with the rules after it. -/
def recurrenceCheck (recurrence : IRecurrenceRule) (recurrenceRules : RecurrenceRules)
    (momentTz : Moment) : Bool × RecurrenceRules :=
  match recurrence with
  | .inactive => (true, recurrenceRules)
  | .activated index intervalSize typeInterval =>
    if intervalSize = 0 then (false, recurrenceRules)
    else
      let reading := momentTz typeInterval
      if (recurrenceRules index).all (fits typeInterval intervalSize · reading) then
        (true, fun other => if other = index then some reading else recurrenceRules other)
      else (false, recurrenceRules)

/-- The unit that an interval counts, and how many of them it has. -/
def ScheduleInterval.unit : ScheduleInterval → Option (TypeInterval × Nat)
  | .hours hoursInterval _ => some (.hours, hoursInterval)
  | .days daysInterval _ _ => some (.days, daysInterval)
  | .weeks weeksInterval _ _ _ => some (.weeks, weeksInterval)
  | .months monthsInterval _ _ _ => some (.months, monthsInterval)
  | .cronExpression _ | .seconds _ | .minutes _ => none

theorem intervalToRecurrence_eq (interval : ScheduleInterval) (index : Nat) :
    intervalToRecurrence interval index =
      match interval.unit with
      | some (typeInterval, intervalSize) =>
        if intervalSize ≠ 1 then .activated index intervalSize typeInterval else .inactive
      | none => .inactive := by
  cases interval <;> rfl

/-! ## Firings of the schedule trigger -/

/-- A calendar: the days of the years and the weeks of the years. There are long and short years of
both kinds. -/
structure Calendar where
  days : Nat → Nat
  weeks : Nat → Nat
  days_eq : ∀ year, days year = 365 ∨ days year = 366
  weeks_eq : ∀ year, weeks year = 52 ∨ weeks year = 53
  short_year : ∃ year, days year = 365
  short_weeks : ∃ year, weeks year = 52
  long_weeks : ∃ year, weeks year = 53

namespace Calendar

variable (calendar : Calendar)

/-- The reading of an hour, day, week or month. -/
def reading : TypeInterval → Nat → Nat
  | .hours, hour => hour % 24
  | .days, day => (position calendar.days day).2
  | .weeks, week => (position calendar.weeks week).2
  | .months, month => month % 12

/-- The days of a month. -/
def monthDays (month : Nat) : Nat :=
  if month % 12 = 1 then calendar.days (month / 12) - 337
  else if month % 12 ∈ [3, 5, 8, 10] then 30
  else 31

end Calendar

/-- The values that a field of a cron expression matches; `*/step` counts from the lowest value. -/
def CronField.Matches (lowest : Nat) (field : CronField) (value : Nat) : Prop :=
  match field with
  | .all => True
  | .every step => (value - lowest) % step = 0
  | .values listed => value ∈ listed

/-- The intervals that the node accepts: there is at least one unit, and days of the week and of the
month exist. -/
def ScheduleInterval.Accepted (random : RandomInts) : ScheduleInterval → Prop
  | .hours hoursInterval _ => 1 ≤ hoursInterval
  | .days daysInterval _ _ => 1 ≤ daysInterval
  | .weeks weeksInterval triggerAtDay _ _ => 1 ≤ weeksInterval ∧ ∀ day ∈ triggerAtDay, day < 7
  | .months monthsInterval triggerAtDayOfMonth _ _ =>
    1 ≤ monthsInterval ∧ 1 ≤ triggerAtDayOfMonth.getD random.dayOfMonth ∧
      triggerAtDayOfMonth.getD random.dayOfMonth ≤ 31
  | .cronExpression _ | .seconds _ | .minutes _ => True

/-- A rule of the trigger that counts hours, days, weeks or months. -/
structure Rule where
  calendar : Calendar
  random : RandomInts
  interval : ScheduleInterval
  index : Nat
  typeInterval : TypeInterval
  size : Nat
  unit_eq : interval.unit = some (typeInterval, size)
  accepted : interval.Accepted random

/-- A time at which cron may fire, and the readings of that time. Times are counted in units of the
rule, and in days when the units are weeks. -/
structure Firing where
  slot : Nat
  momentTz : Moment

/-- The rules, with the time of the last firing and the unit of the last accepted one. -/
structure State where
  recurrenceRules : RecurrenceRules
  fired : Option Nat
  accepted : Option Nat

/-- The trigger has not fired yet. -/
def started : State := { recurrenceRules := fun _ => none, fired := none, accepted := none }

namespace Rule

variable (rule : Rule)

/-- The recurrence of the rule. -/
def recurrence : IRecurrenceRule := intervalToRecurrence rule.interval rule.index

/-- The unit in which a time lies. -/
def unit (slot : Nat) : Nat :=
  match rule.typeInterval with
  | .weeks => slot / 7
  | .hours | .days | .months => slot

/-- The reading of a unit. -/
def reading (unit : Nat) : Nat := rule.calendar.reading rule.typeInterval unit

/-- Does the cron expression fire at this time? The fields that are not looked at are `*` or have
one value. -/
def Fires (slot : Nat) : Prop :=
  let cron := toCronExpression rule.random rule.interval
  match rule.typeInterval with
  | .hours => cron.hour.Matches 0 (slot % 24)
  | .days => True
  | .weeks => cron.dayOfWeek.Matches 0 (slot % 7)
  | .months =>
    cron.month.Matches 1 (slot % 12 + 1) ∧
      ∃ day, 1 ≤ day ∧ day ≤ rule.calendar.monthDays slot ∧ cron.dayOfMonth.Matches 1 day

/-- The first time after the last firing at which cron fires, or any such time at the start. -/
def IsNext (fired : Option Nat) (slot : Nat) : Prop :=
  rule.Fires slot ∧
    ∀ last ∈ fired, last < slot ∧ ∀ between, last < between → between < slot → ¬ rule.Fires between

/-- Cron fires next, and the readings are those of the calendar. -/
def possible (s : State) (firing : Firing) : Prop :=
  rule.IsNext s.fired firing.slot ∧
    firing.momentTz rule.typeInterval = rule.reading (rule.unit firing.slot)

/-- `executeTrigger(recurrence)`. -/
def step (s : State) (firing : Firing) : Option State :=
  let checked := recurrenceCheck rule.recurrence s.recurrenceRules firing.momentTz
  some
    { recurrenceRules := checked.2
      fired := some firing.slot
      accepted := if checked.1 then some (rule.unit firing.slot) else s.accepted }

/-- The rule says that a firing is accepted: it is the first one, lies enough units after the last
accepted one, or is in the same week. -/
def Due (accepted : Option Nat) (unit : Nat) : Prop :=
  ∀ last ∈ accepted, last + rule.size ≤ unit ∨ rule.typeInterval = .weeks ∧ unit = last

/-- In every state that is reached, the next firing is accepted if and only if it is due, and there
is a firing that will be accepted. -/
structure NeverStalls : Prop where
  accepts_iff_due : ∀ s, Reachable rule.step rule.possible started s →
    ∀ firing, rule.possible s firing →
      ((recurrenceCheck rule.recurrence s.recurrenceRules firing.momentTz).1 = true ↔
        rule.Due s.accepted (rule.unit firing.slot))
  goes_on : ∀ s, Reachable rule.step rule.possible started s →
    ∃ s' firing, Reachable rule.step rule.possible s s' ∧ rule.possible s' firing ∧
      (recurrenceCheck rule.recurrence s'.recurrenceRules firing.momentTz).1 = true

/-- The firing at a time, with the readings of the calendar. -/
def firingAt (slot : Nat) : Firing := { slot, momentTz := fun _ => rule.reading (rule.unit slot) }

theorem firingAt_possible {s : State} {slot : Nat} (h : rule.IsNext s.fired slot) :
    rule.possible s (rule.firingAt slot) := ⟨h, rfl⟩

/-- Is a firing accepted after one in an earlier unit? -/
def Follows (last unit : Nat) : Prop :=
  rule.size = 1 ∨ fits rule.typeInterval rule.size (rule.reading last) (rule.reading unit) = true

theorem one_le_size : 1 ≤ rule.size := by
  obtain ⟨calendar, random, interval, index, typeInterval, size, hunit, haccepted⟩ := rule
  cases interval with
  | hours hoursInterval triggerAtMinute =>
    cases hunit
    exact haccepted
  | days daysInterval triggerAtHour triggerAtMinute =>
    cases hunit
    exact haccepted
  | weeks weeksInterval triggerAtDay triggerAtHour triggerAtMinute =>
    cases hunit
    exact haccepted.1
  | months monthsInterval triggerAtDayOfMonth triggerAtHour triggerAtMinute =>
    cases hunit
    exact haccepted.1
  | cronExpression expression => cases hunit
  | seconds secondsInterval => cases hunit
  | minutes minutesInterval => cases hunit

variable {rule}

theorem recurrence_eq : rule.recurrence =
    if rule.size ≠ 1 then .activated rule.index rule.size rule.typeInterval else .inactive := by
  rw [recurrence, intervalToRecurrence_eq, rule.unit_eq]

theorem unit_mono (rule : Rule) {slot slot' : Nat} (h : slot ≤ slot') :
    rule.unit slot ≤ rule.unit slot' := by
  unfold unit
  cases rule.typeInterval with
  | weeks => exact Nat.div_le_div_right h
  | _ => exact h

/-- There is a first firing among those after another one. -/
theorem exists_isNext {last : Nat} (h : ∃ slot, last < slot ∧ rule.Fires slot) :
    ∃ slot, rule.IsNext (some last) slot := by
  classical
  refine ⟨Nat.find h, (Nat.find_spec h).2, fun other hother => ?_⟩
  cases hother
  exact ⟨(Nat.find_spec h).1, fun between hafter hbefore hfires =>
    Nat.find_min h hbefore ⟨hafter, hfires⟩⟩

section Runs

variable {s s' : State} {firing : Firing} {last slot : Nat}

theorem stored_reading (hsize : rule.size ≠ 1) (h : Reachable rule.step rule.possible started s) :
    s.recurrenceRules rule.index = s.accepted.map rule.reading := by
  refine h.keeps (fun s => s.recurrenceRules rule.index = s.accepted.map rule.reading) rfl
    fun s firing s' hstored hpossible hstep => ?_
  cases hstep
  have hactivated : rule.recurrence = .activated rule.index rule.size rule.typeInterval := by
    rw [recurrence_eq, if_pos hsize]
  simp only [recurrenceCheck, hactivated]
  split
  · exact hstored
  · split
    · simp [hpossible.2]
    · exact hstored

theorem check_iff (h : Reachable rule.step rule.possible started s)
    (hpossible : rule.possible s firing) :
    (recurrenceCheck rule.recurrence s.recurrenceRules firing.momentTz).1 = true ↔
      ∀ last ∈ s.accepted, rule.Follows last (rule.unit firing.slot) := by
  by_cases hsize : rule.size = 1
  · have hinactive : rule.recurrence = .inactive := by
      rw [recurrence_eq, if_neg (not_not_intro hsize)]
    rw [hinactive]
    exact ⟨fun _ _ _ => .inl hsize, fun _ => rfl⟩
  · have hactivated : rule.recurrence = .activated rule.index rule.size rule.typeInterval := by
      rw [recurrence_eq, if_pos hsize]
    have hzero : rule.size ≠ 0 := Nat.one_le_iff_ne_zero.mp rule.one_le_size
    have hfits : (recurrenceCheck rule.recurrence s.recurrenceRules firing.momentTz).1 =
        s.accepted.all fun last =>
          fits rule.typeInterval rule.size (rule.reading last)
            (rule.reading (rule.unit firing.slot)) := by
      simp only [recurrenceCheck, hactivated, if_neg hzero, stored_reading hsize h, hpossible.2,
        Option.all_map]
      split
      · rename_i hall
        exact hall.symm
      · rename_i hall
        exact (Bool.eq_false_iff.mpr hall).symm
    rw [hfits]
    cases s.accepted with
    | none => simp
    | some last => simp [Follows, hsize]

section Accepting

variable (hall : ∀ last slot, rule.Fires last → rule.IsNext (some last) slot →
    rule.Follows (rule.unit last) (rule.unit slot) ∧
      rule.Due (some (rule.unit last)) (rule.unit slot))
  (hnext : ∀ last, ∃ slot, last < slot ∧ rule.Fires slot)
include hall

theorem all_accepted (h : Reachable rule.step rule.possible started s) :
    s.accepted = s.fired.map rule.unit ∧ ∀ last ∈ s.fired, rule.Fires last := by
  induction h with
  | start => exact ⟨rfl, fun _ hlast => nomatch hlast⟩
  | @next s s' firing h hpossible hstep ih =>
    cases hstep
    obtain ⟨haccepted, hfires⟩ := ih
    have hcheck :
        (recurrenceCheck rule.recurrence s.recurrenceRules firing.momentTz).1 = true := by
      refine (check_iff h hpossible).mpr fun last hlast => ?_
      rw [haccepted] at hlast
      obtain ⟨before, hbefore, rfl⟩ := Option.map_eq_some_iff.mp hlast
      have hisNext := hpossible.1
      rw [hbefore] at hisNext
      exact (hall before firing.slot (hfires before hbefore) hisNext).1
    refine ⟨?_, fun last hlast => ?_⟩
    · simp only [hcheck, if_true]
      rfl
    · cases hlast
      exact hpossible.1.1

include hnext

theorem neverStalls_of_all : rule.NeverStalls := by
  have hboth : ∀ s, Reachable rule.step rule.possible started s → ∀ firing,
      rule.possible s firing →
        (recurrenceCheck rule.recurrence s.recurrenceRules firing.momentTz).1 = true ∧
          rule.Due s.accepted (rule.unit firing.slot) := by
    intro s h firing hpossible
    obtain ⟨haccepted, hfires⟩ := all_accepted hall h
    rw [check_iff h hpossible, haccepted]
    cases hfired : s.fired with
    | none => exact ⟨(fun _ hlast => nomatch hlast), fun _ hlast => nomatch hlast⟩
    | some last =>
      have hisNext := hpossible.1
      rw [hfired] at hisNext
      obtain ⟨hfollows, hdue⟩ := hall last firing.slot (hfires last hfired) hisNext
      refine ⟨fun other hother => ?_, hdue⟩
      cases hother
      exact hfollows
  refine ⟨fun s h firing hpossible => ?_, fun s h => ?_⟩
  · obtain ⟨hcheck, hdue⟩ := hboth s h firing hpossible
    exact ⟨fun _ => hdue, fun _ => hcheck⟩
  · obtain ⟨slot, hslot⟩ : ∃ slot, rule.IsNext s.fired slot := by
      cases s.fired with
      | none =>
        obtain ⟨slot, -, hslot⟩ := hnext 0
        exact ⟨slot, hslot, fun _ hlast => nomatch hlast⟩
      | some last => exact exists_isNext (hnext last)
    have hpossible := rule.firingAt_possible hslot
    exact ⟨s, rule.firingAt slot, .start, hpossible, (hboth s h _ hpossible).1⟩

end Accepting

section Stalling

variable (h : rule.NeverStalls) (hlast : rule.Fires last)
include h hlast

theorem NeverStalls.state_after {n : Nat}
    (hbetween : ∀ t, last < t → t ≤ last + n → rule.Fires t →
      rule.unit t < rule.unit last + rule.size) :
    ∃ s fired, Reachable rule.step rule.possible started s ∧ s.fired = some fired ∧
      s.accepted = some (rule.unit last) ∧ fired ≤ last + n ∧
      ∀ t, fired < t → t ≤ last + n → ¬ rule.Fires t := by
  induction n with
  | zero =>
    have hpossible : rule.possible started (rule.firingAt last) :=
      rule.firingAt_possible ⟨hlast, fun _ hnone => nomatch hnone⟩
    have hcheck := (check_iff .start hpossible).mpr fun _ hnone => nomatch hnone
    refine ⟨_, last, .next .start hpossible rfl, rfl, if_pos hcheck, Nat.le_refl _,
      fun t hafter hle => ?_⟩
    omega
  | succ n ih =>
    obtain ⟨s, fired, hs, hfired, haccepted, hle, hnone⟩ :=
      ih fun t hafter hle => hbetween t hafter (by omega)
    by_cases hfires : rule.Fires (last + n + 1)
    · have hpossible : rule.possible s (rule.firingAt (last + n + 1)) := by
        refine rule.firingAt_possible ⟨hfires, fun other hother => ?_⟩
        rw [hfired] at hother
        cases hother
        exact ⟨by omega, fun between hafter hbefore => hnone between hafter (by omega)⟩
      refine ⟨_, last + n + 1, .next hs hpossible rfl, rfl, ?_, Nat.le_refl _,
        fun t hafter hle => ?_⟩
      · -- the firing is rejected, or in the same week
        show (if _ then _ else _) = _
        split
        · rename_i hcheck
          have hdue := (h.accepts_iff_due s hs _ hpossible).mp hcheck (rule.unit last) haccepted
          have hnot := hbetween (last + n + 1) (by omega) (Nat.le_refl _) hfires
          obtain hsize | ⟨-, hsame⟩ := hdue
          · exact absurd hsize (Nat.not_le.mpr hnot)
          · exact congrArg some hsame
        · exact haccepted
      · omega
    · refine ⟨s, fired, hs, hfired, haccepted, by omega, fun t hafter hle' => ?_⟩
      by_cases htop : t = last + n + 1
      · rw [htop]
        exact hfires
      · exact hnone t hafter (by omega)

/-- The first firing that can be due for a new unit follows an accepted one if and only if it is
due. -/
theorem NeverStalls.follows_iff (hslot : rule.Fires slot) (hlt : last < slot)
    (hbetween : ∀ t, last < t → t < slot → rule.Fires t →
      rule.unit t < rule.unit last + rule.size) :
    rule.Follows (rule.unit last) (rule.unit slot) ↔
      rule.Due (some (rule.unit last)) (rule.unit slot) := by
  obtain ⟨n, rfl⟩ : ∃ n, slot = last + n + 1 := ⟨slot - last - 1, by omega⟩
  obtain ⟨s, fired, hs, hfired, haccepted, hle, hnone⟩ :=
    h.state_after hlast (n := n) fun t hafter hle => hbetween t hafter (by omega)
  have hpossible : rule.possible s (rule.firingAt (last + n + 1)) := by
    refine rule.firingAt_possible ⟨hslot, fun other hother => ?_⟩
    rw [hfired] at hother
    cases hother
    exact ⟨by omega, fun between hafter hbefore => hnone between hafter (by omega)⟩
  have hiff := h.accepts_iff_due s hs _ hpossible
  rw [check_iff hs hpossible, haccepted] at hiff
  refine Iff.trans ⟨fun hfollows other hother => ?_, fun hall => hall _ rfl⟩ hiff
  cases hother
  exact hfollows

end Stalling

end Runs

end Rule

end N8n.Schedule
