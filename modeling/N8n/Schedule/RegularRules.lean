import N8n.Schedule.TriggerRuns

/-!
# Rules that never stall

Hours are checked modulo 24 and months modulo 12, which goes well when the interval divides the
modulus and no month of the rule lacks its day. Days are checked modulo 365 and weeks modulo 52,
while the readings start from one, and this goes well for an interval of one only, which is not
checked at all.
-/

namespace N8n.Schedule

open Collections Transition

/-- The intervals whose rules never stall. -/
def ScheduleInterval.Regular (random : RandomInts) : ScheduleInterval → Prop
  | .hours hoursInterval _ => hoursInterval ∣ 24
  | .days daysInterval _ _ => daysInterval = 1
  | .weeks weeksInterval _ _ _ => weeksInterval = 1
  | .months monthsInterval triggerAtDayOfMonth _ _ =>
    monthsInterval = 1 ∨ monthsInterval ∣ 12 ∧
      (triggerAtDayOfMonth.getD random.dayOfMonth ≤ 30 ∨ monthsInterval = 6 ∨
        monthsInterval = 12)
  | .cronExpression _ | .seconds _ | .minutes _ => True

namespace Rule

variable {rule : Rule}

section Stepped

variable {modulus : Nat}

/-- Cron fires in the multiples of the size, and the readings are checked modulo the same number. -/
structure Stepped (rule : Rule) (modulus : Nat) : Prop where
  unit_eq : ∀ slot, rule.unit slot = slot
  fires_iff : ∀ slot, rule.Fires slot ↔ slot % modulus % rule.size = 0
  fits_iff : ∀ last reading, fits rule.typeInterval rule.size last reading = true ↔
    reading = (rule.size + last) % modulus
  reading_eq : ∀ unit, rule.reading unit = unit % modulus
  not_weeks : rule.typeInterval ≠ .weeks

theorem Stepped.neverStalls (h : rule.Stepped modulus) (hdvd : rule.size ∣ modulus) :
    rule.NeverStalls := by
  have hsize := rule.one_le_size
  have hfires : ∀ slot, rule.Fires slot ↔ rule.size ∣ slot := fun slot => by
    rw [h.fires_iff, Nat.mod_mod_of_dvd _ hdvd, Nat.dvd_iff_mod_eq_zero]
  refine neverStalls_of_all (fun last slot hlast hnext => ?_) fun last => ?_
  · obtain ⟨hslot, hafter⟩ := hnext
    obtain ⟨hlt, hnone⟩ := hafter last rfl
    have hlast := (hfires last).mp hlast
    -- the next multiple of the size
    have hnextSlot : slot = last + rule.size := by
      have hle : last + rule.size ≤ slot := Nat.le_of_lt_add_of_dvd
        (by omega) (Nat.dvd_add hlast (Nat.dvd_refl _)) ((hfires slot).mp hslot)
      refine Nat.le_antisymm (Nat.not_lt.mp fun hlt => ?_) hle
      exact hnone (last + rule.size) (by omega) hlt
        ((hfires _).mpr (Nat.dvd_add hlast (Nat.dvd_refl _)))
    rw [h.unit_eq, h.unit_eq, hnextSlot]
    refine ⟨.inr ((h.fits_iff _ _).mpr ?_), fun other hother => ?_⟩
    · rw [h.reading_eq, h.reading_eq, Nat.add_mod_mod, Nat.add_comm]
    · cases hother
      exact .inl (Nat.le_refl _)
  · refine ⟨rule.size * (last + 1), ?_, (hfires _).mpr (Nat.dvd_mul_right _ _)⟩
    have hmul := Nat.mul_le_mul_right (last + 1) hsize
    omega

theorem Stepped.stalls (h : rule.Stepped modulus) (hmodulus : 2 ≤ modulus)
    (hdvd : ¬ rule.size ∣ modulus) : ¬ rule.NeverStalls := by
  intro hnever
  have hmod : modulus % rule.size ≠ 0 := fun hzero => hdvd (Nat.dvd_of_mod_eq_zero hzero)
  have hsize : 2 ≤ rule.size := by
    have hone := rule.one_le_size
    have hne : rule.size ≠ 1 := fun heq => hdvd (heq ▸ Nat.one_dvd _)
    omega
  have hdue : ∀ last slot, rule.Due (some (rule.unit last)) (rule.unit slot) ↔
      last + rule.size ≤ slot := fun last slot => by
    simp [Due, h.unit_eq, h.not_weeks]
  have hfollows : ∀ last slot, rule.Follows (rule.unit last) (rule.unit slot) ↔
      slot % modulus = (rule.size + last) % modulus := fun last slot => by
    rw [Follows, h.fits_iff, h.reading_eq, h.reading_eq, Nat.add_mod_mod, h.unit_eq, h.unit_eq]
    exact or_iff_right (by omega)
  by_cases hsmall : rule.size < modulus
  · -- the last multiple of the size in a cycle, and the first positive one of the next cycle
    have hrest : modulus % rule.size < rule.size := Nat.mod_lt _ (by omega)
    have hdiv := Nat.div_add_mod modulus rule.size
    have hmultiple : modulus - modulus % rule.size = rule.size * (modulus / rule.size) := by omega
    have hlast : rule.Fires (modulus - modulus % rule.size) := by
      rw [h.fires_iff, Nat.mod_eq_of_lt (show modulus - modulus % rule.size < modulus by omega),
        hmultiple]
      exact Nat.mul_mod_right _ _
    have hslot : rule.Fires (modulus + rule.size) := by
      rw [h.fires_iff, Nat.add_mod_left, Nat.mod_eq_of_lt hsmall, Nat.mod_self]
    have hiff := hnever.follows_iff hlast hslot (by omega) fun t hafter hbefore hfires => by
      rw [h.unit_eq, h.unit_eq]
      by_cases hcycle : t < modulus
      · omega
      · have hcount : t % modulus = t - modulus := by
          rw [Nat.mod_eq_sub_mod (Nat.not_lt.mp hcycle), Nat.mod_eq_of_lt (by omega)]
        rw [h.fires_iff, hcount, Nat.mod_eq_of_lt (show t - modulus < rule.size by omega)] at hfires
        omega
    rw [hdue, hfollows, Nat.add_mod_left, Nat.mod_eq_of_lt hsmall] at hiff
    have heq := hiff.mpr (by omega)
    have hwrap : rule.size + (modulus - modulus % rule.size) =
        modulus + (rule.size - modulus % rule.size) := by omega
    rw [hwrap, Nat.add_mod_left, Nat.mod_eq_of_lt (by omega)] at heq
    omega
  · -- cron fires once in a cycle
    have hlarge : modulus < rule.size := by
      have hne : rule.size ≠ modulus := fun heq => hdvd (heq ▸ Nat.dvd_refl _)
      omega
    have hfires : ∀ slot, rule.Fires slot ↔ slot % modulus = 0 := fun slot => by
      have hlt := Nat.mod_lt slot (show 0 < modulus by omega)
      rw [h.fires_iff, Nat.mod_eq_of_lt (show slot % modulus < rule.size by omega)]
    have hzero : rule.Fires 0 := (hfires 0).mpr (Nat.zero_mod _)
    by_cases hcycles : rule.size % modulus = 0
    · have hiff := hnever.follows_iff hzero ((hfires modulus).mpr (Nat.mod_self _)) (by omega)
        fun t hafter hbefore _ => by
          rw [h.unit_eq, h.unit_eq]
          omega
      rw [hdue, hfollows, Nat.mod_self, Nat.add_zero, hcycles] at hiff
      have hle := hiff.mp rfl
      omega
    · -- the first firing after so many units
      have hdiv := Nat.div_add_mod rule.size modulus
      have hlt := Nat.mod_lt rule.size (show 0 < modulus by omega)
      have hslot : rule.Fires (modulus * (rule.size / modulus + 1)) :=
        (hfires _).mpr (Nat.mul_mod_right _ _)
      rw [Nat.mul_add, Nat.mul_one] at hslot
      have hiff := hnever.follows_iff hzero hslot (by omega) fun t hafter hbefore hfires' => by
        rw [h.unit_eq, h.unit_eq]
        obtain ⟨k, rfl⟩ := Nat.dvd_of_mod_eq_zero ((hfires t).mp hfires')
        have hk : k < rule.size / modulus + 1 := by
          refine Nat.lt_of_mul_lt_mul_left (a := modulus) ?_
          rw [Nat.mul_add, Nat.mul_one]
          exact hbefore
        have hmul := Nat.mul_le_mul_left modulus (Nat.lt_succ_iff.mp hk)
        omega
      rw [hdue, hfollows, Nat.add_mod_right, Nat.mul_mod_right, Nat.add_zero] at hiff
      exact hcycles (hiff.mpr (by omega)).symm

end Stepped

section Cyclic

theorem neverStalls_of_one (hsize : rule.size = 1)
    (hnext : ∀ last, ∃ slot, last < slot ∧ rule.Fires slot) : rule.NeverStalls := by
  refine neverStalls_of_all (fun last slot _ hslot => ⟨.inl hsize, fun other hother => ?_⟩) hnext
  cases hother
  have hlt := (hslot.2 last rfl).1
  rw [hsize]
  unfold unit
  cases rule.typeInterval with
  | weeks =>
    show last / 7 + 1 ≤ slot / 7 ∨ _ ∧ slot / 7 = last / 7
    have hle := Nat.div_le_div_right (c := 7) (Nat.le_of_lt hlt)
    by_cases hsame : slot / 7 = last / 7
    · exact .inr ⟨rfl, hsame⟩
    · exact .inl (by omega)
  | _ => exact .inl hlt

variable {modulus : Nat} {length : Nat → Nat}

/-- Cron fires in every unit, the readings are counted from one in cycles that have as many units as
the modulus says, or one more, and more units than one are checked. -/
structure Cyclic (rule : Rule) (modulus : Nat) (length : Nat → Nat) : Prop where
  fires : ∀ unit, ∃ slot, rule.Fires slot ∧ rule.unit slot = unit
  fits_iff : ∀ last reading, fits rule.typeInterval rule.size last reading = true ↔
    reading = (rule.size + last) % modulus ∨ rule.typeInterval = .weeks ∧ reading = last
  reading_eq : ∀ unit, rule.reading unit = (position length unit).2
  length_eq : ∀ cycle, length cycle = modulus ∨ length cycle = modulus + 1
  short : ∃ cycle, length cycle = modulus
  modulus_pos : 1 ≤ modulus
  size_ne : rule.size ≠ 1

theorem Cyclic.follows_iff (h : rule.Cyclic modulus length) (hnever : rule.NeverStalls)
    (last unit : Nat) (hlt : last < unit) (hle : unit ≤ last + rule.size) :
    ((position length unit).2 = (rule.size + (position length last).2) % modulus ∨
      rule.typeInterval = .weeks ∧ (position length unit).2 = (position length last).2) ↔
        last + rule.size ≤ unit := by
  classical
  obtain ⟨lastSlot, hlastFires, rfl⟩ := h.fires last
  have hfirst := h.fires unit
  -- the first firing in the unit
  obtain ⟨hslotFires, hslotUnit⟩ := Nat.find_spec hfirst
  have hmin : ∀ t, t < Nat.find hfirst → rule.Fires t → rule.unit t < unit := by
    intro t ht hfires
    have hmono := rule.unit_mono (Nat.le_of_lt ht)
    rw [hslotUnit] at hmono
    exact Nat.lt_of_le_of_ne hmono fun heq => Nat.find_min hfirst ht ⟨hfires, heq⟩
  have hslots : lastSlot < Nat.find hfirst := by
    refine Nat.not_le.mp fun hge => ?_
    have hmono := rule.unit_mono hge
    omega
  have hiff := hnever.follows_iff hlastFires hslotFires hslots fun t _ hbefore hfires =>
    Nat.lt_of_lt_of_le (hmin t hbefore hfires) hle
  rw [hslotUnit, Follows, or_iff_right h.size_ne, h.fits_iff, h.reading_eq, h.reading_eq] at hiff
  rw [hiff]
  have hne : unit ≠ rule.unit lastSlot := by omega
  simp [Due, hne]

theorem Cyclic.dvd_of_neverStalls (h : rule.Cyclic modulus length) (hnever : rule.NeverStalls) :
    modulus ∣ rule.size := by
  have hone := rule.one_le_size
  have hsize := h.size_ne
  have hpos := h.modulus_pos
  have hlengths : ∀ cycle, 1 ≤ length cycle := fun cycle => by
    obtain heq | heq := h.length_eq cycle <;> omega
  refine Nat.dvd_of_mod_eq_zero (Nat.eq_zero_of_not_pos fun hrest => ?_)
  have hlt := Nat.mod_lt rule.size (show 0 < modulus by omega)
  by_cases hsmall : rule.size < modulus
  · -- the expected reading is zero
    have hlength : modulus ≤ length 0 := by
      obtain heq | heq := h.length_eq 0 <;> omega
    obtain ⟨last, hlast⟩ := exists_position hlengths (c := 0) (r := modulus - rule.size)
      (by omega) (by omega)
    have hunit := position_add hlast (k := rule.size) (by omega)
    have hiff := h.follows_iff hnever last (last + rule.size) (by omega) (Nat.le_refl _)
    rw [hlast, hunit] at hiff
    have hsum : rule.size + (modulus - rule.size) = modulus := by omega
    rw [hsum, Nat.mod_self] at hiff
    obtain hzero | ⟨-, hsame⟩ := hiff.mpr (Nat.le_refl _)
    · change modulus - rule.size + rule.size = 0 at hzero
      omega
    · change modulus - rule.size + rule.size = modulus - rule.size at hsame
      omega
  · -- the expected reading comes in the next cycle
    obtain ⟨cycle, hcycle⟩ := h.short
    obtain ⟨last, hlast⟩ := exists_position hlengths (c := cycle) (r := modulus) (by omega)
      (by omega)
    have hnext := position_next hlast (by omega)
    rw [hcycle, Nat.sub_self, Nat.add_zero] at hnext
    have hlength : modulus ≤ length (cycle + 1) := by
      obtain heq | heq := h.length_eq (cycle + 1) <;> omega
    have hunit := position_add hnext (k := rule.size % modulus - 1) (by omega)
    have hiff := h.follows_iff hnever last (last + 1 + (rule.size % modulus - 1)) (by omega)
      (by omega)
    rw [hlast, hunit, Nat.add_mod_right] at hiff
    have hle := hiff.mp (.inl (by
      show 1 + (rule.size % modulus - 1) = rule.size % modulus
      omega))
    omega

end Cyclic

section Intervals

variable (calendar : Calendar) {random : RandomInts} (index : Nat) {size : Nat}
  {triggerAtHour triggerAtMinute : Option Nat}

theorem hours_stepped
    (haccepted : (ScheduleInterval.hours size triggerAtMinute).Accepted random) :
    Stepped ⟨calendar, random, .hours size triggerAtMinute, index, .hours, size, rfl, haccepted⟩
      24 :=
  ⟨fun _ => rfl, fun _ => Iff.rfl, fun _ _ => decide_eq_true_iff, fun _ => rfl, nofun⟩

theorem days_cyclic
    (haccepted : (ScheduleInterval.days size triggerAtHour triggerAtMinute).Accepted random)
    (hsize : size ≠ 1) :
    Cyclic ⟨calendar, random, .days size triggerAtHour triggerAtMinute, index, .days, size, rfl,
      haccepted⟩ 365 calendar.days :=
  ⟨fun unit => ⟨unit, trivial, rfl⟩,
    fun last reading => by simp [fits], fun _ => rfl, calendar.days_eq, calendar.short_year,
    by omega, hsize⟩

theorem days_regular_of_neverStalls
    (haccepted : (ScheduleInterval.days size triggerAtHour triggerAtMinute).Accepted random)
    (hnever : NeverStalls ⟨calendar, random, .days size triggerAtHour triggerAtMinute, index, .days,
      size, rfl, haccepted⟩) : size = 1 := by
  by_contra hsize
  have hcyclic := days_cyclic calendar index haccepted hsize
  obtain ⟨k, rfl⟩ := hcyclic.dvd_of_neverStalls hnever
  have hlengths : ∀ year, 1 ≤ calendar.days year := fun year => by
    obtain heq | heq := calendar.days_eq year <;> omega
  obtain ⟨year, hyear⟩ := calendar.short_year
  obtain ⟨last, hlast⟩ := exists_position hlengths (c := year) (r := 365) (by omega) (by omega)
  have hk : 1 ≤ 365 * k := haccepted
  have hiff := hcyclic.follows_iff hnever last (last + 365 * k) (by omega) (Nat.le_refl _)
  rw [hlast] at hiff
  have hone := one_le_position calendar.days (last + 365 * k)
  obtain hzero | ⟨hweeks, -⟩ := hiff.mpr (Nat.le_refl _)
  · have hmod : (365 * k + 365) % 365 = 0 := by omega
    change _ = (365 * k + 365) % 365 at hzero
    omega
  · cases hweeks

theorem weeks_fires {triggerAtDay : List Nat}
    (haccepted : (ScheduleInterval.weeks size triggerAtDay triggerAtHour triggerAtMinute).Accepted
      random) (unit : Nat) :
    ∃ slot, Fires ⟨calendar, random, .weeks size triggerAtDay triggerAtHour triggerAtMinute, index,
      .weeks, size, rfl, haccepted⟩ slot ∧ slot / 7 = unit := by
  cases triggerAtDay with
  | nil => exact ⟨7 * unit, trivial, Nat.mul_div_cancel_left unit (by omega)⟩
  | cons day days =>
    have hday : day < 7 := haccepted.2 day List.mem_cons_self
    refine ⟨7 * unit + day, ?_, ?_⟩
    · show (7 * unit + day) % 7 ∈ day :: days
      rw [Nat.mul_add_mod, Nat.mod_eq_of_lt hday]
      exact List.mem_cons_self
    · omega

theorem weeks_cyclic {triggerAtDay : List Nat}
    (haccepted : (ScheduleInterval.weeks size triggerAtDay triggerAtHour triggerAtMinute).Accepted
      random) (hsize : size ≠ 1) :
    Cyclic ⟨calendar, random, .weeks size triggerAtDay triggerAtHour triggerAtMinute, index, .weeks,
      size, rfl, haccepted⟩ 52 calendar.weeks :=
  ⟨weeks_fires calendar index haccepted, fun last reading => by simp [fits], fun _ => rfl,
    calendar.weeks_eq,
    calendar.short_weeks, by omega, hsize⟩

theorem weeks_regular_of_neverStalls {triggerAtDay : List Nat}
    (haccepted : (ScheduleInterval.weeks size triggerAtDay triggerAtHour triggerAtMinute).Accepted
      random)
    (hnever : NeverStalls ⟨calendar, random, .weeks size triggerAtDay triggerAtHour triggerAtMinute,
      index, .weeks, size, rfl, haccepted⟩) : size = 1 := by
  by_contra hsize
  have hcyclic := weeks_cyclic calendar index haccepted hsize
  obtain ⟨k, rfl⟩ := hcyclic.dvd_of_neverStalls hnever
  have hlengths : ∀ year, 1 ≤ calendar.weeks year := fun year => by
    obtain heq | heq := calendar.weeks_eq year <;> omega
  obtain ⟨year, hyear⟩ := calendar.long_weeks
  obtain ⟨last, hlast⟩ := exists_position hlengths (c := year) (r := 2) (by omega) (by omega)
  have hk : 1 ≤ 52 * k := haccepted.1
  have hnext := position_next hlast (by omega)
  rw [hyear] at hnext
  by_cases hyearly : k = 1
  · -- the week after 52 weeks is the first one, not the second one
    subst hyearly
    have hiff := hcyclic.follows_iff hnever last (last + 52) (by omega) (Nat.le_refl _)
    rw [hlast, show last + 52 = last + (53 - 2) + 1 from rfl, hnext] at hiff
    obtain hone | ⟨-, hone⟩ := hiff.mpr (Nat.le_refl _)
    · change 1 = (52 * 1 + 2) % 52 at hone
      omega
    · change 1 = 2 at hone
      omega
  · -- the second week of the next year comes too early
    have hlength := hlengths (year + 1)
    have hsecond := position_add hnext (k := 1) (by
      obtain heq | heq := calendar.weeks_eq (year + 1) <;> omega)
    have hiff := hcyclic.follows_iff hnever last (last + (53 - 2) + 1 + 1) (by omega) (by
      show _ ≤ last + 52 * k
      omega)
    rw [hlast, hsecond] at hiff
    have hle := hiff.mp (.inr ⟨rfl, rfl⟩)
    change last + 52 * k ≤ _ at hle
    omega

section Months

variable {triggerAtDayOfMonth : Option Nat}

/-- The rule of an interval of months. -/
def months (calendar : Calendar) (index : Nat)
    (haccepted : (ScheduleInterval.months size triggerAtDayOfMonth triggerAtHour
      triggerAtMinute).Accepted random) : Rule :=
  ⟨calendar, random, .months size triggerAtDayOfMonth triggerAtHour triggerAtMinute, index, .months,
    size, rfl, haccepted⟩

variable (haccepted : (ScheduleInterval.months size triggerAtDayOfMonth triggerAtHour
  triggerAtMinute).Accepted random)

theorem months_fires_iff (slot : Nat) :
    (months calendar index haccepted).Fires slot ↔ slot % 12 % size = 0 ∧
      triggerAtDayOfMonth.getD random.dayOfMonth ≤ calendar.monthDays slot := by
  show (slot % 12 + 1 - 1) % size = 0 ∧ (∃ day, 1 ≤ day ∧ day ≤ calendar.monthDays slot ∧
    day ∈ [triggerAtDayOfMonth.getD random.dayOfMonth]) ↔ _
  rw [Nat.add_sub_cancel]
  refine and_congr_right fun _ => ⟨fun hday => ?_, fun hle => ?_⟩
  · obtain ⟨day, -, hle, hmem⟩ := hday
    rw [List.mem_singleton.mp hmem] at hle
    exact hle
  · exact ⟨_, haccepted.2.1, hle, List.mem_singleton_self _⟩

theorem months_stepped (hsize : 2 ≤ size)
    (hday : triggerAtDayOfMonth.getD random.dayOfMonth ≤ 30 ∨ size = 6 ∨ 12 ≤ size) :
    (months calendar index haccepted).Stepped 12 := by
  refine ⟨fun _ => rfl, fun slot => ?_, fun _ _ => decide_eq_true_iff, fun _ => rfl, nofun⟩
  rw [months_fires_iff]
  refine and_iff_left_of_imp fun hmultiple => ?_
  have hle := haccepted.2.2
  have hlt := Nat.mod_lt slot (show 0 < 12 by omega)
  unfold Calendar.monthDays
  by_cases hfebruary : slot % 12 = 1
  · -- February is not a multiple of the size
    rw [hfebruary, Nat.mod_eq_of_lt (show 1 < size by omega)] at hmultiple
    omega
  · rw [if_neg hfebruary]
    split
    · rename_i hshort
      obtain hday | rfl | hlarge := hday
      · exact hday
      · -- the months of an interval of six are long
        exfalso
        revert hshort hmultiple
        generalize slot % 12 = month at hlt
        revert month
        decide
      · rw [Nat.mod_eq_of_lt (show slot % 12 < size by omega)] at hmultiple
        rw [hmultiple] at hshort
        exact absurd hshort (by decide)
    · exact hle

/-- The months that lack the 31st, besides February. -/
def fires31 (size slot : Nat) : Bool :=
  slot % 12 % size = 0 && !([1, 3, 5, 8, 10].contains (slot % 12))

theorem months_fires31_iff (hsize : 2 ≤ size)
    (hday : triggerAtDayOfMonth.getD random.dayOfMonth = 31) (slot : Nat) :
    (months calendar index haccepted).Fires slot ↔ fires31 size slot = true := by
  rw [months_fires_iff, hday]
  have hfebruary : slot % 12 = 1 → slot % 12 % size = 0 → False := fun hone hzero => by
    rw [hone, Nat.mod_eq_of_lt (show 1 < size by omega)] at hzero
    omega
  unfold Calendar.monthDays fires31
  by_cases hone : slot % 12 = 1
  · simp [hone, Nat.mod_eq_of_lt (show 1 < size by omega)]
  · rw [if_neg hone]
    by_cases hshort : slot % 12 ∈ [3, 5, 8, 10]
    · rw [if_pos hshort]
      simp at hshort
      simp [hone, hshort]
    · rw [if_neg hshort]
      simp at hshort
      simp [hone, hshort]

/-- A firing after which the rule for the 31st goes wrong, and the first one that is due after
it. -/
def stallOf31 : Nat → Nat × Nat
  | 2 => (6, 12)
  | 3 => (0, 6)
  | 4 => (4, 12)
  | 7 => (7, 19)
  | 9 => (9, 21)
  | 11 => (11, 23)
  | _ => (0, 12)

theorem stallOf31_fires : ∀ size < 12, 2 ≤ size ∧ size ≠ 6 →
    fires31 size (stallOf31 size).1 = true ∧ fires31 size (stallOf31 size).2 = true := by
  decide +kernel

theorem stallOf31_between : ∀ size < 12, 2 ≤ size ∧ size ≠ 6 → ∀ t < (stallOf31 size).2,
    (stallOf31 size).1 < t → fires31 size t = true → t < (stallOf31 size).1 + size := by
  decide +kernel

theorem stallOf31_due : ∀ size < 12, 2 ≤ size ∧ size ≠ 6 →
    (stallOf31 size).1 < (stallOf31 size).2 ∧
      (stallOf31 size).1 + size ≤ (stallOf31 size).2 ∧
        (stallOf31 size).2 % 12 ≠ (size + (stallOf31 size).1 % 12) % 12 := by
  decide +kernel

theorem months31_stalls (hsize : 2 ≤ size) (hlt : size < 12) (hne : size ≠ 6)
    (hday : triggerAtDayOfMonth.getD random.dayOfMonth = 31) :
    ¬ (months calendar index haccepted).NeverStalls := by
  intro hnever
  obtain ⟨hlast, hslot⟩ := stallOf31_fires size hlt ⟨hsize, hne⟩
  have hbetween := stallOf31_between size hlt ⟨hsize, hne⟩
  obtain ⟨hafter, hdue, hreading⟩ := stallOf31_due size hlt ⟨hsize, hne⟩
  have hfires := months_fires31_iff calendar index haccepted hsize hday
  have hiff := hnever.follows_iff ((hfires _).mpr hlast) ((hfires _).mpr hslot) hafter
    fun t hlastt htslot hfirest => hbetween t htslot hlastt ((hfires t).mp hfirest)
  have hfollows : (months calendar index haccepted).Follows _ _ := hiff.mpr fun other hother => by
    cases hother
    exact .inl hdue
  obtain hone | hfits := hfollows
  · change size = 1 at hone
    omega
  · exact hreading (of_decide_eq_true hfits)

theorem months_neverStalls_iff :
    (months calendar index haccepted).NeverStalls ↔
      (ScheduleInterval.months size triggerAtDayOfMonth triggerAtHour triggerAtMinute).Regular
        random := by
  have hpos : 1 ≤ size := haccepted.1
  have hday := haccepted.2.2
  constructor
  · intro hnever
    refine or_iff_not_imp_left.mpr fun hone => ?_
    have hsize : 2 ≤ size := by omega
    by_cases hregular : triggerAtDayOfMonth.getD random.dayOfMonth ≤ 30 ∨ size = 6 ∨ 12 ≤ size
    · have hstepped := months_stepped calendar index haccepted hsize hregular
      have hdvd : size ∣ 12 := by_contra fun hdvd => hstepped.stalls (by omega) hdvd hnever
      have hle : size ≤ 12 := Nat.le_of_dvd (by omega) hdvd
      refine ⟨hdvd, ?_⟩
      omega
    · exact absurd hnever
        (months31_stalls calendar index haccepted hsize (by omega) (by omega) (by omega))
  · intro hregular
    by_cases hone : size = 1
    · refine neverStalls_of_one hone fun last => ⟨12 * (last + 1), by omega, ?_⟩
      -- January has every day
      rw [months_fires_iff, Nat.mul_mod_right, Nat.zero_mod]
      refine ⟨rfl, ?_⟩
      simp only [Calendar.monthDays, Nat.mul_mod_right]
      exact hday
    · obtain ⟨hdvd, hregular⟩ := hregular.resolve_left hone
      exact (months_stepped calendar index haccepted (by omega) (by omega)).neverStalls hdvd

end Months

end Intervals

/-- A calendar with a leap year in four years, and a year of 53 weeks in five. -/
def exampleCalendar : Calendar where
  days year := if year % 4 = 0 then 366 else 365
  weeks year := if year % 5 = 0 then 53 else 52
  days_eq year := by split <;> simp
  weeks_eq year := by split <;> simp
  short_year := ⟨1, rfl⟩
  short_weeks := ⟨1, rfl⟩
  long_weeks := ⟨0, rfl⟩

end Rule

end N8n.Schedule
