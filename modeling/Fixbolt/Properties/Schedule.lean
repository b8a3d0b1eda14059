import Fixbolt.Lib.Recurrence
import Fixbolt.Properties.LoggingOn
import Fixbolt.Properties.Range
import Fixbolt.Session.Timing

/-!
# The windows a schedule declares

A schedule is declared by its hours: which weekdays a window opens on, and when it opens and closes.
`Hours.Within` says that a moment is in the window of a day, `Schedule.Declares` how the
constructors build a schedule from hours and an offset.

* `Window.startLocal_iff`: the code finds the windows of a `Recurrence`, counted from day 0;
* `Daily.partitions`: of a daily schedule these are the windows declared, and a session that is ticked
  in them resets once for each window it enters;
* `partitions_iff_daily`: of a weekly one they are not. Day 0 is a Saturday, and the code takes it for
  a Monday.
-/

namespace Fixbolt

/-! ### What is declared -/

namespace Weekday

/-- The weekday of a day counted from 0000-01-01, a Saturday, in both directions. -/
def ofDay (d : ℤ) : Weekday := fromDaysSinceYearZero (d % 7).toNat

end Weekday

/-- The hours of a schedule, as its constructors are given them. -/
inductive Hours where
  | daily (openSod closeSod : ℕ) (days : List Weekday)
  | weekly (openDay : Weekday) (openSod : ℕ) (closeDay : Weekday) (closeSod : ℕ)

namespace Hours

/-- Does a window open on this day? -/
def OpensOn : Hours → ℤ → Prop
  | daily _ _ days, d => .ofDay d ∈ days
  | weekly openDay _ _ _, d => .ofDay d = openDay

/-- When the window of a day opens. -/
def opening : Hours → ℤ → ℤ
  | daily openSod _ _, d | weekly _ openSod _ _, d => d * dayMs + openSod * 1000

/-- When the window of a day closes: the next time that the clock and the weekday say so. -/
def closing (h : Hours) (d : ℤ) : ℤ :=
  match h with
  | daily openSod closeSod _ =>
    if openSod < closeSod then d * dayMs + closeSod * 1000 else (d + 1) * dayMs + closeSod * 1000
  | weekly openDay openSod closeDay closeSod =>
    let close := (d + closeDay.index - openDay.index) * dayMs + closeSod * 1000
    if d * dayMs + openSod * 1000 < close then close else close + weekMs

/-- Is a moment in the window that opens on a day? -/
def Within (h : Hours) (d x : ℤ) : Prop := h.OpensOn d ∧ h.opening d ≤ x ∧ x < h.closing d

instance (h : Hours) (d x : ℤ) : Decidable (h.Within d x) :=
  match h with
  | daily _ _ _ => inferInstanceAs (Decidable (_ ∈ _ ∧ _))
  | weekly _ _ _ _ => inferInstanceAs (Decidable (_ = _ ∧ _))

/-- The hours with other weekdays; those of a weekly schedule are its own. -/
def on : Hours → List Weekday → Hours
  | daily openSod closeSod _, days => daily openSod closeSod days
  | weekly openDay openSod closeDay closeSod, _ => weekly openDay openSod closeDay closeSod

/-- The window the constructors make of hours. -/
def window : Hours → Window
  | daily openSod closeSod days => ⟨dayMs, openSod * 1000, closeSod * 1000, days⟩
  | weekly openDay openSod closeDay closeSod =>
    ⟨weekMs, openDay.index * dayMs + openSod * 1000, closeDay.index * dayMs + closeSod * 1000,
      Schedule.allDays⟩

end Hours

/-- A schedule built by the constructors, with the hours and the offset they were given. -/
inductive Schedule.Declares : Hours → ℤ → Schedule → Prop
  | daily {openSod closeSod : ℕ} {s : Schedule} (built : Schedule.daily openSod closeSod = some s) :
      Declares (.daily openSod closeSod allDays) 0 s
  | weekly {openDay closeDay : Weekday} {openSod closeSod : ℕ} {s : Schedule}
      (built : Schedule.weekly openDay openSod closeDay closeSod = some s) :
      Declares (.weekly openDay openSod closeDay closeSod) 0 s
  | withWeekdays {h : Hours} {off : ℤ} {s t : Schedule} {days : List Weekday}
      (before : Declares h off s) (built : s.withWeekdays days = some t) :
      Declares (h.on days) off t
  | withUtcOffsetMs {h : Hours} {off off' : ℤ} {s t : Schedule} (before : Declares h off s)
      (built : s.withUtcOffsetMs off' = some t) : Declares h off' t

/-- Hours the constructors accept. -/
structure Hours.Accepted (h : Hours) : Prop where
  open_ : h.window.open_ < h.window.periodMs
  close : h.window.close < h.window.periodMs
  apart : h.window.open_ ≠ h.window.close

theorem Weekday.index_lt (d : Weekday) : d.index < 7 := by cases d <;> decide

/-- What the constructors build, and of what. -/
theorem Schedule.Declares.eq {h : Hours} {off : ℤ} {s : Schedule} (built : Declares h off s) :
    s = ⟨some h.window, off⟩ ∧ h.Accepted ∧ -(dayMs : ℤ) < off ∧ off < dayMs := by
  induction built with
  | daily built =>
    unfold Schedule.daily at built
    split at built
    · cases built
    · rename_i fits
      obtain rfl := Option.some.inj built
      refine ⟨rfl, ⟨?_, ?_, ?_⟩, by decide, by decide⟩ <;>
        simp only [Hours.window, dayMs] <;> omega
  | @weekly openDay closeDay openSod closeSod s built =>
    unfold Schedule.weekly at built
    dsimp only at built
    split at built
    · cases built
    · rename_i fits
      obtain rfl := Option.some.inj built
      have := openDay.index_lt
      have := closeDay.index_lt
      refine ⟨rfl, ⟨?_, ?_, ?_⟩, by decide, by decide⟩ <;>
        simp only [Hours.window, weekMs, dayMs] at * <;> omega
  | @withWeekdays h off s t days before built ih =>
    obtain ⟨rfl, accepted, bounds⟩ := ih
    unfold Schedule.withWeekdays at built
    split at built
    · cases built
    · cases h with
      | daily openSod closeSod before =>
        obtain rfl := Option.some.inj built
        exact ⟨rfl, ⟨accepted.open_, accepted.close, accepted.apart⟩, bounds⟩
      | weekly openDay openSod closeDay closeSod => cases built
  | @withUtcOffsetMs h off off' s t before built ih =>
    obtain ⟨rfl, accepted, bounds⟩ := ih
    unfold Schedule.withUtcOffsetMs at built
    split at built
    · cases built
    · rename_i near
      obtain rfl := Option.some.inj built
      exact ⟨rfl, accepted, by omega, by omega⟩

/-! ### What the code finds -/

theorem checkedAddSigned_iff {t l : ℕ} {off : ℤ} :
    checkedAddSigned t off = some l ↔ (l : ℤ) = t + off ∧ l < 2 ^ 64 := by
  unfold checkedAddSigned
  split
  · rw [Option.some.injEq]
    omega
  · simp only [reduceCtorEq, false_iff]
    omega

namespace Window

variable {w : Window} {k x : ℤ} {l n : ℕ}

/-- How long a window is open. -/
def length (w : Window) : ℤ :=
  if w.open_ < w.close then (w.close : ℤ) - w.open_ else (w.close : ℤ) + w.periodMs - w.open_

/-- The windows the code looks in: the first period begins with day 0. -/
def recurrence (w : Window) (open_ : w.open_ < w.periodMs) (close : w.close < w.periodMs) :
    Recurrence where
  period := w.periodMs
  first := w.open_
  length := w.length
  pos := by
    unfold length
    split <;> omega
  within := by
    unfold length
    split <;> omega

section Finds

variable (open_ : w.open_ < w.periodMs) (close : w.close < w.periodMs)

/-- A local instant past the opening is in the window of its period, any other in the one before, if
in any. -/
theorem within_iff : (w.recurrence open_ close).Within k l ↔
    if w.open_ ≤ l % w.periodMs then
      k = (l / w.periodMs : ℕ) ∧ ((l % w.periodMs : ℕ) : ℤ) - w.open_ < w.length
    else k = (l / w.periodMs : ℕ) - 1 ∧
      ((l % w.periodMs : ℕ) : ℤ) - w.open_ + w.periodMs < w.length := by
  have parts : (w.periodMs : ℤ) * (l / w.periodMs : ℕ) + (l % w.periodMs : ℕ) = l := by
    exact_mod_cast Nat.div_add_mod l w.periodMs
  have small := Nat.mod_lt l (Nat.lt_of_le_of_lt (Nat.zero_le _) open_)
  have pos : (0 : ℤ) < w.periodMs := by omega
  rw [Recurrence.within_iff]
  show ((l : ℤ) - w.open_) / w.periodMs = k ∧ ((l : ℤ) - w.open_) % w.periodMs < w.length ↔ _
  split
  · have division : ((l : ℤ) - w.open_) / w.periodMs = (l / w.periodMs : ℕ) ∧
        ((l : ℤ) - w.open_) % w.periodMs = ((l % w.periodMs : ℕ) : ℤ) - w.open_ := by
      refine (Int.ediv_emod_unique pos).mpr ⟨?_, by omega, by omega⟩
      rw [← parts]
      ring
    rw [division.1, division.2, eq_comm]
  · have division : ((l : ℤ) - w.open_) / w.periodMs = (l / w.periodMs : ℕ) - 1 ∧
        ((l : ℤ) - w.open_) % w.periodMs =
          ((l % w.periodMs : ℕ) : ℤ) - w.open_ + w.periodMs := by
      refine (Int.ediv_emod_unique pos).mpr ⟨?_, by omega, by omega⟩
      rw [← parts]
      ring
    rw [division.1, division.2, eq_comm]

/-- **The code finds the window a local instant is in**, if that began on the scale. -/
theorem startLocal_iff : Schedule.startLocal w l = some n ↔
    ∃ k, (w.recurrence open_ close).Within k l ∧
      (w.recurrence open_ close).start k = n := by
  have base : ((l - l % w.periodMs : ℕ) : ℤ) = w.periodMs * (l / w.periodMs : ℕ) := by
    have := Nat.div_add_mod l w.periodMs
    have : l - l % w.periodMs = w.periodMs * (l / w.periodMs) := by omega
    rw [this]
    push_cast
    rfl
  have start (k : ℤ) : (w.recurrence open_ close).start k = w.periodMs * k + w.open_ := rfl
  have small := Nat.mod_lt l (Nat.lt_of_le_of_lt (Nat.zero_le _) open_)
  simp only [within_iff, start]
  unfold Schedule.startLocal length
  dsimp only
  -- Both sides by whether the instant is past the opening of its period.
  by_cases past : w.open_ ≤ l % w.periodMs
  · simp only [past, if_true, true_and, and_assoc, exists_eq_left, ← base]
    generalize l - l % w.periodMs = base
    generalize l % w.periodMs = into at past small
    split
    · split
      · rw [Option.some.injEq]
        omega
      · simp only [reduceCtorEq, false_iff]
        omega
    · rw [Option.some.injEq]
      omega
  · simp only [past, if_false, false_and, and_assoc, exists_eq_left, mul_sub, mul_one, ← base]
    generalize l - l % w.periodMs = base
    generalize l % w.periodMs = into at past small
    split
    · simp only [reduceCtorEq, false_iff]
      omega
    · split
      · split
        · rw [Option.some.injEq]
          omega
        · simp only [reduceCtorEq, false_iff]
          omega
      · simp only [reduceCtorEq, false_iff]
        omega

/-- Which instants the code finds a window for, and what it names it by: when it began. -/
theorem sessionStart_iff {off : ℤ} {t v : ℕ} (fits : t < 2 ^ 64) :
    (⟨some w, off⟩ : Schedule).sessionStart t = some v ↔
      t + off < 2 ^ 64 ∧ ∃ k, (w.recurrence open_ close).Within k (t + off) ∧
        0 ≤ (w.recurrence open_ close).start k ∧ (w.recurrence open_ close).start k = v + off ∧
        (w.periodMs = dayMs → Weekday.fromDaysSinceYearZero
          (((w.recurrence open_ close).start k).toNat / dayMs) ∈ w.days) := by
  unfold Schedule.sessionStart
  simp only [Option.bind_eq_bind, Option.bind_eq_some_iff, checkedAddSigned_iff, startLocal_iff open_ close]
  constructor
  · rintro ⟨l, ⟨same, small⟩, n, ⟨k, within, begins⟩, rest⟩
    split at rest
    · simp at rest
    · rename_i opens
      obtain ⟨back, -⟩ : (v : ℤ) = n + -off ∧ v < 2 ^ 64 := by
        simpa [checkedAddSigned_iff] using rest
      refine ⟨by omega, k, same ▸ within, by omega, by omega, fun daily => ?_⟩
      rw [begins, Int.toNat_natCast]
      exact not_not.mp (not_and.mp opens daily)
  · rintro ⟨small, k, within, began, begins, opens⟩
    have before : (w.recurrence open_ close).start k ≤ t + off := within.1
    obtain ⟨n, start⟩ := Int.eq_ofNat_of_zero_le began
    have same : (((t : ℤ) + off).toNat : ℤ) = t + off := Int.toNat_of_nonneg (by omega)
    refine ⟨((t : ℤ) + off).toNat, ⟨same, by omega⟩, n, ⟨k, same.symm ▸ within, start⟩, ?_⟩
    rw [start, Int.toNat_natCast] at opens
    rw [if_neg (fun shut => shut.2 (opens shut.1))]
    have back : checkedAddSigned n (-off) = some v :=
      checkedAddSigned_iff.mpr ⟨by omega, by omega⟩
    simpa using back

end Finds

end Window

/-! ### Daily schedules -/

/-- The schedule of hours, read at an offset. -/
def Hours.schedule (h : Hours) (off : ℤ) : Schedule := ⟨some h.window, off⟩

/-- The window an instant is in, if it is in one, begins on the scale of milliseconds, in local time
and in UTC, and the instant has a local time. -/
def Hours.OnScale (h : Hours) (off : ℤ) (t : ℕ) : Prop :=
  ∀ d, h.Within d (t + off) → t + off < 2 ^ 64 ∧ 0 ≤ h.opening d ∧ off ≤ h.opening d

/-- Where an instant has to be for a schedule to say which window it is in. -/
structure Hours.Placed (h : Hours) (off : ℤ) (t : ℕ) : Prop where
  fits : t < 2 ^ 64
  scale : h.OnScale off t
  places : (h.schedule off).Places t

/-- Hours of every day, as the constructors accept them. -/
structure Hours.Daily (h : Hours) : Prop where
  accepted : h.Accepted
  period : h.window.periodMs = dayMs

namespace Hours.Daily

variable {h : Hours} {off d e x y : ℤ} {a b t v : ℕ}

theorem daily_ne_weekly : weekMs ≠ dayMs := by decide

/-- The windows of a daily schedule, as they recur. -/
abbrev windows (daily : h.Daily) : Recurrence :=
  h.window.recurrence daily.accepted.open_ daily.accepted.close

theorem opening_eq (daily : h.Daily) (d : ℤ) : h.opening d = daily.windows.start d := by
  cases h with
  | daily openSod closeSod days =>
    show d * dayMs + openSod * 1000 = (dayMs : ℤ) * d + ((openSod * 1000 : ℕ) : ℤ)
    push_cast
    ring
  | weekly openDay openSod closeDay closeSod => exact absurd daily.period daily_ne_weekly

theorem closing_eq (daily : h.Daily) (d : ℤ) :
    h.closing d = daily.windows.start d + daily.windows.length := by
  rw [← opening_eq daily]
  cases h with
  | daily openSod closeSod days =>
    have length : daily.windows.length = if openSod * 1000 < closeSod * 1000 then
        ((closeSod * 1000 : ℕ) : ℤ) - (openSod * 1000 : ℕ)
      else ((closeSod * 1000 : ℕ) : ℤ) + (dayMs : ℕ) - (openSod * 1000 : ℕ) := rfl
    rw [length]
    simp only [closing, opening, dayMs]
    split
    · rw [if_pos (by omega)]
      omega
    · rw [if_neg (by omega)]
      omega
  | weekly openDay openSod closeDay closeSod => exact absurd daily.period daily_ne_weekly

theorem within_iff (daily : h.Daily) :
    h.Within d x ↔ h.OpensOn d ∧ daily.windows.Within d x := by
  unfold Within Recurrence.Within
  rw [closing_eq daily, opening_eq daily]

theorem unique (daily : h.Daily) (in_ : h.Within d x) (in' : h.Within e x) : d = e :=
  ((within_iff daily).mp in_).2.unique ((within_iff daily).mp in').2

/-- The code reads the weekday of a window off its opening. -/
theorem opensOn_iff (daily : h.Daily) (began : 0 ≤ h.opening d) :
    Weekday.fromDaysSinceYearZero ((h.opening d).toNat / dayMs) ∈ h.window.days ↔ h.OpensOn d := by
  cases h with
  | daily openSod closeSod days =>
    have opens : openSod * 1000 < 86400000 := daily.accepted.open_
    have day : ((Hours.daily openSod closeSod days).opening d).toNat / dayMs = d.toNat ∧ 0 ≤ d := by
      simp only [opening, dayMs] at began ⊢
      omega
    have same : Weekday.fromDaysSinceYearZero d.toNat = .ofDay d := by
      unfold Weekday.ofDay Weekday.fromDaysSinceYearZero
      rw [show (d.toNat + 5) % 7 = ((d % 7).toNat + 5) % 7 by omega]
    rw [day.1, same]
    rfl
  | weekly openDay openSod closeDay closeSod => exact absurd daily.period daily_ne_weekly

/-- The start of the session an instant belongs to is the opening of the window it is in. -/
theorem sessionStart_iff (daily : h.Daily) (fits : t < 2 ^ 64) :
    (h.schedule off).sessionStart t = some v ↔ t + off < 2 ^ 64 ∧
      ∃ d, h.Within d (t + off) ∧ 0 ≤ h.opening d ∧ h.opening d = v + off := by
  rw [schedule, Window.sessionStart_iff daily.accepted.open_ daily.accepted.close fits]
  simp only [within_iff daily]
  constructor
  · rintro ⟨near, d, within, began, start, opens⟩
    have opens := opens daily.period
    rw [← opening_eq daily] at began start opens
    exact ⟨near, d, ⟨(opensOn_iff daily began).mp opens, within⟩, began, start⟩
  · rintro ⟨near, d, ⟨opens, within⟩, began, start⟩
    have opens := (opensOn_iff daily began).mpr opens
    rw [opening_eq daily] at began start opens
    exact ⟨near, d, within, began, start, fun _ => opens⟩

/-- **A daily schedule is open in its windows.** -/
theorem contains_iff (daily : h.Daily) (placed : h.Placed off t) :
    (h.schedule off).contains t = true ↔ ∃ d, h.Within d (t + off) := by
  unfold Schedule.contains
  rw [Option.isSome_iff_exists]
  simp only [sessionStart_iff daily placed.fits]
  constructor
  · rintro ⟨v, -, d, within, -⟩
    exact ⟨d, within⟩
  · rintro ⟨d, within⟩
    obtain ⟨near, began, utc⟩ := placed.scale d within
    exact ⟨(h.opening d - off).toNat, near, d, within, began, by omega⟩

/-- Elsewhere it is not: these are the instants it is right at. -/
theorem onScale_iff (daily : h.Daily) (fits : t < 2 ^ 64) (places : (h.schedule off).Places t) :
    ((h.schedule off).contains t = true ↔ ∃ d, h.Within d (t + off)) ↔ h.OnScale off t := by
  refine ⟨fun right d within => ?_, fun scale => contains_iff daily ⟨fits, scale, places⟩⟩
  have open_ := right.mpr ⟨d, within⟩
  unfold Schedule.contains at open_
  obtain ⟨v, start⟩ := Option.isSome_iff_exists.mp open_
  obtain ⟨near, e, within', began, begins⟩ := (sessionStart_iff daily fits).mp start
  obtain rfl := unique daily within within'
  exact ⟨near, began, by omega⟩

/-- Later instants are in later windows. -/
theorem le (daily : h.Daily) (in_ : h.Within d x) (in' : h.Within e y) (later : x ≤ y) : d ≤ e :=
  ((within_iff daily).mp in_).2.le ((within_iff daily).mp in').2 later

/-- **Two instants are of one session when they are in one window.** -/
theorem sameSession_iff (daily : h.Daily) (placed : h.Placed off a) (placed' : h.Placed off b)
    (in_ : h.Within d (b + off)) :
    (h.schedule off).sameSession a b = true ↔ h.Within d (a + off) := by
  have named {e : ℤ} {t : ℕ} (placed : h.Placed off t) (in_ : h.Within e (t + off)) :
      (h.schedule off).sessionStart t = some (h.opening e - off).toNat := by
    obtain ⟨near, began, utc⟩ := placed.scale e in_
    exact (sessionStart_iff daily placed.fits).mpr ⟨near, e, in_, began, by omega⟩
  unfold Schedule.sameSession
  rw [named placed' in_]
  constructor
  · intro same
    cases start : (h.schedule off).sessionStart a with
    | none =>
      rw [start] at same
      cases same
    | some v =>
      rw [start] at same
      obtain ⟨-, e, within, -, begins⟩ := (sessionStart_iff daily placed.fits).mp start
      have utc := (placed'.scale d in_).2.2
      have eq : v = (h.opening d - off).toNat := eq_of_beq same
      have starts : daily.windows.start e = daily.windows.start d := by
        rw [← opening_eq, ← opening_eq]
        omega
      exact daily.windows.start_injective starts ▸ within
  · intro within
    rw [named placed within]
    exact beq_self_eq_true _

end Hours.Daily

/-! ### Resets -/

namespace World

variable {P : Params} {A J : Type} [Application A] [Journal J]

/-- The instants of a run at which the schedule restarts the counts. -/
def resets (P : Params) (w : World A J) : List Call → List ℕ
  | [] => []
  | c :: cs =>
    let rest := resets P (w.perform P c).1 cs
    match c.ticks with
    | some t => if w.ses.rolls t then t :: rest else rest
    | none => rest

theorem resets_subset {w : World A J} {cs : List Call} :
    ∀ t ∈ w.resets P cs, t ∈ cs.filterMap Call.ticks := by
  induction cs generalizing w with
  | nil => exact fun t h => absurd h List.not_mem_nil
  | cons c cs ih =>
    intro t mem
    unfold resets at mem
    dsimp only at mem
    split at mem
    · rename_i n ht
      rw [List.filterMap_cons_some ht]
      split at mem
      · obtain rfl | mem := List.mem_cons.mp mem
        · exact List.mem_cons_self
        · exact List.mem_cons_of_mem n (ih t mem)
      · exact List.mem_cons_of_mem n (ih t mem)
    · rename_i ht
      rw [List.filterMap_cons_none ht]
      exact ih t mem

end World

/-- Is the window of a day entered by a session that was last active at `mark`, and is then ticked at
these instants? It is not when the session is in it from the first tick on and was in it before; a
session that was never active was where its first tick is. -/
def Hours.Enters (h : Hours) (off : ℤ) (mark : Option ℕ) (ticks : List ℕ) (d : ℤ) : Prop :=
  (∃ t ∈ ticks, h.Within d (t + off)) ∧
    ¬ ∃ t ∈ ticks.head?, h.Within d (t + off) ∧ ∀ m ∈ mark, h.Within d (m + off)

/-- What a schedule is for: it tells the windows its hours declare. -/
structure Schedule.Partitions (P : Params) (h : Hours) (off : ℤ) (s : Schedule) : Prop where
  /-- It is open in the windows. -/
  contains {t : ℕ} (placed : h.Placed off t) :
    s.contains t = true ↔ ∃ d, h.Within d (t + off)
  /-- No moment is in two of them. -/
  one {d e x : ℤ} (in_ : h.Within d x) (in' : h.Within e x) : d = e
  /-- Instants in windows are of the same session when they are in the same window. -/
  same {a b : ℕ} {d e : ℤ} (placed : h.Placed off a) (placed' : h.Placed off b)
    (in_ : h.Within d (a + off)) (in' : h.Within e (b + off)) :
    s.sameSession a b = true ↔ d = e
  /-- Which is an equivalence. -/
  equivalence : Equivalence fun a b : { t // h.Placed off t ∧ ∃ d, h.Within d (t + off) } =>
    s.sameSession a b = true
  /-- A session that is ticked in windows only restarts its counts once for each it enters. -/
  resets {A J : Type} [Application A] [Journal J] {w : World A J} {cs : List Call}
    (cfg : w.ses.cfg.schedule = s) (mark : ∀ m ∈ w.ses.sessionMark, h.Placed off m)
    (ticks : ∀ t ∈ cs.filterMap Call.ticks, h.Placed off t ∧ ∃ d, h.Within d (t + off))
    (sorted : (cs.filterMap Call.ticks).Pairwise (· ≤ ·)) (d : ℤ) :
    (w.resets P cs).countP (fun t : ℕ => h.Within d (t + off)) =
      open Classical in
      if h.Enters off w.ses.sessionMark (cs.filterMap Call.ticks) d then 1 else 0

namespace Hours.Daily

variable {h : Hours} {off d : ℤ} {P : Params} {A J : Type} [Application A] [Journal J]

/-- The day whose window an instant is in, if it is in one. -/
def dayOf (daily : h.Daily) (off : ℤ) (t : ℕ) : ℤ := daily.windows.number (t + off)

theorem dayOf_eq (daily : h.Daily) {t : ℕ} (in_ : h.Within d (t + off)) : daily.dayOf off t = d :=
  ((within_iff daily).mp in_).2.number_eq

/-- The instants of the resets, as the windows entered. -/
theorem resets_entered (daily : h.Daily) {cs : List Call} {w : World A J} {before : Option ℤ}
    (cfg : w.ses.cfg.schedule = h.schedule off)
    (ticks : ∀ t ∈ cs.filterMap Call.ticks, h.Placed off t ∧ ∃ d, h.Within d (t + off))
    (came : ∀ t ∈ (cs.filterMap Call.ticks).head?,
      w.ses.rolls t = true ↔ before ≠ some (daily.dayOf off t)) :
    (w.resets P cs).map (daily.dayOf off) =
      entered before ((cs.filterMap Call.ticks).map (daily.dayOf off)) := by
  induction cs generalizing w before with
  | nil => rfl
  | cons c cs ih =>
    have mark := World.perform_mark (P := P) w c
    have cfg' : (w.perform P c).1.ses.cfg.schedule = h.schedule off := by
      rw [perform_cfg, cfg]
    unfold World.resets
    cases ht : c.ticks with
    | none =>
      rw [List.filterMap_cons_none ht] at ticks came ⊢
      refine ih cfg' ticks fun t head => ?_
      rw [← came t head]
      simp only [Session.rolls, mark, ht, Option.none_or, perform_cfg]
    | some t =>
      rw [List.filterMap_cons_some ht] at ticks came ⊢
      obtain ⟨placed, d, in_⟩ := ticks t List.mem_cons_self
      have rest := fun x hx => ticks x (List.mem_cons_of_mem t hx)
      -- From here on the session was last active at `t`.
      have next := @ih _ (some (daily.dayOf off t)) cfg' rest fun x head => by
        obtain ⟨placed', e, in'⟩ := rest x (List.mem_of_head? head)
        simp only [Session.rolls, mark, ht, Option.some_or, Option.any_some, cfg', Bool.not_eq_true',
          ← Bool.not_eq_true, sameSession_iff daily placed placed' in', Ne, Option.some.injEq]
        refine not_congr ?_
        rw [dayOf_eq daily in', dayOf_eq daily in_]
        constructor
        · exact fun in'' => unique daily in_ in''
        · rintro rfl
          exact in_
      have rolls := came t rfl
      rw [List.map_cons, entered]
      dsimp only
      by_cases same : before = some (daily.dayOf off t)
      · rw [if_neg (fun h => rolls.mp h same), if_pos same, next]
      · rw [if_pos (rolls.mpr same), if_neg same, List.map_cons, next]

/-- **A session that is ticked in windows only resets once for each it enters.** -/
theorem count_resets (daily : h.Daily) {cs : List Call} {w : World A J}
    (cfg : w.ses.cfg.schedule = h.schedule off) (mark : ∀ m ∈ w.ses.sessionMark, h.Placed off m)
    (ticks : ∀ t ∈ cs.filterMap Call.ticks, h.Placed off t ∧ ∃ d, h.Within d (t + off))
    (sorted : (cs.filterMap Call.ticks).Pairwise (· ≤ ·)) (d : ℤ) :
    (w.resets P cs).countP (fun t : ℕ => h.Within d (t + off)) =
      open Classical in
      if h.Enters off w.ses.sessionMark (cs.filterMap Call.ticks) d then 1 else 0 := by
  classical
  -- The window the session comes from: that of its mark, or of its first tick.
  obtain ⟨before, came, first⟩ : ∃ before : Option ℤ,
      (∀ t ∈ (cs.filterMap Call.ticks).head?,
        w.ses.rolls t = true ↔ before ≠ some (daily.dayOf off t)) ∧
      ∀ t ∈ (cs.filterMap Call.ticks).head?, h.Within d (t + off) →
        (before = some d ↔ ∀ m ∈ w.ses.sessionMark, h.Within d (m + off)) := by
    cases hm : w.ses.sessionMark with
    | none =>
      refine ⟨(cs.filterMap Call.ticks).head?.map (daily.dayOf off), fun t head => ?_,
        fun t head in_ => ?_⟩
      · simp [Session.rolls, hm, Option.mem_def.mp head]
      · simp [Option.mem_def.mp head, dayOf_eq daily in_]
    | some m =>
      have placed := mark m hm
      have comes {e : ℤ} : (if ∃ d, h.Within d (m + off) then some (daily.dayOf off m) else none) =
          some e ↔ h.Within e (m + off) := by
        constructor
        · intro eq
          split at eq
          · rename_i inside
            obtain ⟨d, in_⟩ := inside
            rw [dayOf_eq daily in_] at eq
            exact Option.some.inj eq ▸ in_
          · cases eq
        · intro in_
          rw [if_pos ⟨e, in_⟩, dayOf_eq daily in_]
      refine ⟨if ∃ d, h.Within d (m + off) then some (daily.dayOf off m) else none, fun t head => ?_,
        fun t head in_ => ?_⟩
      · obtain ⟨placed', e, in'⟩ := ticks t (List.mem_of_head? head)
        rw [Ne, comes, dayOf_eq daily in', ← sameSession_iff daily placed placed' in']
        simp [Session.rolls, hm, cfg]
      · rw [comes]
        simp
  have sorted' : ((cs.filterMap Call.ticks).map (daily.dayOf off)).Pairwise (· ≤ ·) := by
    refine List.pairwise_map.mpr (sorted.imp_of_mem fun {t u} ht hu le' => ?_)
    obtain ⟨-, e, in_⟩ := ticks t ht
    obtain ⟨-, f, in'⟩ := ticks u hu
    rw [dayOf_eq daily in_, dayOf_eq daily in']
    exact le daily in_ in' (by omega)
  have within {t : ℕ} (mem : t ∈ cs.filterMap Call.ticks) :
      h.Within d (t + off) ↔ daily.dayOf off t = d := by
    obtain ⟨-, e, in_⟩ := ticks t mem
    rw [dayOf_eq daily in_]
    constructor
    · exact fun in' => unique daily in_ in'
    · rintro rfl
      exact in_
  have counted := count_entered before sorted' d
  rw [← resets_entered (P := P) daily cfg ticks came, List.count, List.countP_map] at counted
  have same : (w.resets P cs).countP (fun t : ℕ => h.Within d (t + off)) =
      (w.resets P cs).countP ((· == d) ∘ daily.dayOf off) := by
    refine List.countP_congr fun t mem => ?_
    simp [within (World.resets_subset t mem)]
  rw [same, counted]
  refine if_congr ?_ rfl rfl
  unfold Enters
  rw [List.mem_map]
  refine and_congr ?_ (not_congr ?_)
  · exact exists_congr fun t => and_congr_right fun mem => (within mem).symm
  · rw [List.head?_map, Option.map_eq_some_iff]
    constructor
    · rintro ⟨⟨t, head, day⟩, from_⟩
      have in_ := (within (List.mem_of_head? head)).mpr day
      exact ⟨t, head, in_, (first t head in_).mp from_⟩
    · rintro ⟨t, head, in_, marked⟩
      exact ⟨⟨t, head, (within (List.mem_of_head? head)).mp in_⟩, (first t head in_).mpr marked⟩

theorem partitions (daily : h.Daily) : (h.schedule off).Partitions P h off where
  contains := contains_iff daily
  one := unique daily
  same placed placed' in_ in' := by
    rw [sameSession_iff daily placed placed' in']
    constructor
    · exact fun in'' => unique daily in_ in''
    · rintro rfl
      exact in_
  equivalence := by
    have same {a b : { t // h.Placed off t ∧ ∃ d, h.Within d (t + off) }} :
        (h.schedule off).sameSession a b = true ↔
          ∃ d, h.Within d (a + off) ∧ h.Within d (b + off) := by
      obtain ⟨b, placed', e, in'⟩ := b
      rw [sameSession_iff daily a.2.1 placed' in']
      constructor
      · exact fun in_ => ⟨e, in_, in'⟩
      · rintro ⟨d, in_, in''⟩
        exact unique daily in'' in' ▸ in_
    refine ⟨fun a => ?_, fun ab => ?_, fun ab bc => ?_⟩
    · obtain ⟨d, in_⟩ := a.2.2
      exact same.mpr ⟨d, in_, in_⟩
    · obtain ⟨d, in_, in'⟩ := same.mp ab
      exact same.mpr ⟨d, in', in_⟩
    · obtain ⟨d, in_, in'⟩ := same.mp ab
      obtain ⟨e, in'', last⟩ := same.mp bc
      obtain rfl := unique daily in' in''
      exact same.mpr ⟨d, in_, last⟩
  resets := count_resets daily

end Hours.Daily

/-! ### Weekly schedules -/

theorem Weekday.index_ofDay (d : ℤ) : ((ofDay d).index : ℤ) = (d + 5) % 7 := by
  unfold ofDay fromDaysSinceYearZero
  have range : (d % 7).toNat = 0 ∨ (d % 7).toNat = 1 ∨ (d % 7).toNat = 2 ∨ (d % 7).toNat = 3 ∨
      (d % 7).toNat = 4 ∨ (d % 7).toNat = 5 ∨ (d % 7).toNat = 6 := by omega
  obtain h | h | h | h | h | h | h := range <;> rw [h] <;> simp [index] <;> omega

section Weekly

variable {openDay closeDay : Weekday} {openSod closeSod : ℕ} {off d x : ℤ}

theorem weekly_within : (Hours.weekly openDay openSod closeDay closeSod).Within d x ↔
    (d + 5) % 7 = openDay.index ∧ d * 86400000 + openSod * 1000 ≤ x ∧
      x < d * 86400000 + openSod * 1000 +
        (Hours.weekly openDay openSod closeDay closeSod).window.length := by
  have weekday : (Hours.weekly openDay openSod closeDay closeSod).OpensOn d ↔
      (d + 5) % 7 = openDay.index := by
    rw [← Weekday.index_ofDay d]
    show Weekday.ofDay d = openDay ↔ _
    constructor
    · rintro rfl
      rfl
    · intro same
      generalize Weekday.ofDay d = w at same
      cases w <;> cases openDay <;> first | rfl | cases same
  have closing : (Hours.weekly openDay openSod closeDay closeSod).closing d =
      d * 86400000 + openSod * 1000 +
        (Hours.weekly openDay openSod closeDay closeSod).window.length := by
    simp only [Hours.closing, Window.length, Hours.window, weekMs, dayMs]
    split_ifs <;> omega
  unfold Hours.Within
  rw [weekday, closing]
  rfl

/-- Some moment of the third week the code counts is in none of the windows declared. -/
theorem weekly_outside (openDay : Weekday) (openSod : ℕ) {length : ℤ} (pos : 0 < length) (short : length < 7 * 86400000) :
    ∃ x : ℤ, (14 + (openDay.index : ℤ)) * 86400000 + openSod * 1000 ≤ x ∧
      x < (14 + (openDay.index : ℤ)) * 86400000 + openSod * 1000 + length ∧
      ∀ d : ℤ, (d + 5) % 7 = openDay.index → d * 86400000 + openSod * 1000 ≤ x →
        x < d * 86400000 + openSod * 1000 + length → False := by
  by_cases wide : length ≤ 5 * 86400000
  · -- The first moment: the window declared for this week opens two days later.
    refine ⟨(14 + (openDay.index : ℤ)) * 86400000 + openSod * 1000, le_refl _, by omega,
      fun d weekday low high => ?_⟩
    omega
  · -- The first moment past the window declared, which opened five days before.
    refine ⟨(9 + (openDay.index : ℤ)) * 86400000 + openSod * 1000 + length, by omega, by omega,
      fun d weekday low high => ?_⟩
    omega

/-- **A weekly schedule is open at an instant that is in none of its windows**: it counts its weeks
from a Saturday as though that were a Monday. -/
theorem weekly_open (accepted : (Hours.weekly openDay openSod closeDay closeSod).Accepted)
    (low : -(dayMs : ℤ) < off) (high : off < dayMs) :
    ∃ t, (Hours.weekly openDay openSod closeDay closeSod).Placed off t ∧
      ((Hours.weekly openDay openSod closeDay closeSod).schedule off).contains t = true ∧
      ∀ d, ¬ (Hours.weekly openDay openSod closeDay closeSod).Within d (t + off) := by
  have open_ : openDay.index * 86400000 + openSod * 1000 < 7 * 86400000 := accepted.open_
  have close : closeDay.index * 86400000 + closeSod * 1000 < 7 * 86400000 := accepted.close
  have apart : openDay.index * 86400000 + openSod * 1000 ≠
      closeDay.index * 86400000 + closeSod * 1000 := accepted.apart
  have bounds : 0 < (Hours.weekly openDay openSod closeDay closeSod).window.length ∧
      (Hours.weekly openDay openSod closeDay closeSod).window.length < 7 * 86400000 := by
    simp only [Window.length, Hours.window, weekMs, dayMs]
    split_ifs <;> omega
  obtain ⟨x, from_, upto, outside⟩ := weekly_outside openDay openSod bounds.1 bounds.2
  have near : x < 2 ^ 63 := by omega
  rw [dayMs] at low high
  have utc : (((x - off).toNat : ℕ) : ℤ) + off = x := by omega
  have none : ∀ d, ¬ (Hours.weekly openDay openSod closeDay closeSod).Within d
      (((x - off).toNat : ℕ) + off) := by
    intro d in_
    rw [utc, weekly_within] at in_
    exact outside d in_.1 in_.2.1 in_.2.2
  refine ⟨(x - off).toNat, ⟨by omega, fun d in_ => absurd in_ (none d), ?_⟩, ?_, none⟩
  · intro w hw l hl _ _
    obtain rfl := Option.some.inj hw
    have local_ : (l : ℤ) = ((x - off).toNat : ℕ) + off := (checkedAddSigned_iff.mp hl).1
    have := Nat.sub_le l (l % (Hours.weekly openDay openSod closeDay closeSod).window.periodMs)
    have : (Hours.weekly openDay openSod closeDay closeSod).window.open_ < 7 * 86400000 := open_
    omega
  · unfold Schedule.contains
    rw [Option.isSome_iff_exists]
    have start : ((Hours.weekly openDay openSod closeDay closeSod).window.recurrence accepted.open_
        accepted.close).start 2 = 14 * 86400000 + (openDay.index * 86400000 + openSod * 1000 : ℕ) := by
      show ((weekMs : ℕ) : ℤ) * 2 + ((openDay.index * dayMs + openSod * 1000 : ℕ) : ℤ) = _
      rw [weekMs, dayMs]
      omega
    refine ⟨(14 * 86400000 + (openDay.index * 86400000 + openSod * 1000 : ℕ) - off).toNat,
      (Window.sessionStart_iff accepted.open_ accepted.close (by omega)).mpr
        ⟨by omega, 2, ⟨?_, ?_⟩, ?_, ?_, fun daily => absurd daily Hours.Daily.daily_ne_weekly⟩⟩
    · rw [start, utc]
      omega
    · rw [start, utc]
      show x < _ + (Hours.weekly openDay openSod closeDay closeSod).window.length
      omega
    · rw [start]
      omega
    · rw [start]
      omega

end Weekly

variable {P : Params} {h : Hours} {off : ℤ} {s : Schedule}

/-- **A schedule tells the windows its hours declare exactly when it is a daily one**; and a daily one
is right about an instant exactly when the window it is in begins on the scale. -/
theorem partitions_iff_daily (built : Schedule.Declares h off s) :
    (s.Partitions P h off ↔ ∃ openSod closeSod days, h = .daily openSod closeSod days) ∧
      (∀ openSod closeSod days, h = .daily openSod closeSod days → ∀ t < 2 ^ 64, s.Places t →
        ((s.contains t = true ↔ ∃ d, h.Within d (t + off)) ↔ h.OnScale off t)) := by
  obtain ⟨rfl, accepted, low, high⟩ := built.eq
  refine ⟨⟨fun tells => ?_, ?_⟩, ?_⟩
  · cases h with
    | daily openSod closeSod days => exact ⟨_, _, _, rfl⟩
    | weekly openDay openSod closeDay closeSod =>
      obtain ⟨t, placed, open_, outside⟩ := weekly_open accepted low high
      obtain ⟨d, in_⟩ := (tells.contains placed).mp open_
      exact absurd in_ (outside d)
  · rintro ⟨openSod, closeSod, days, rfl⟩
    exact Hours.Daily.partitions ⟨accepted, rfl⟩
  · rintro openSod closeSod days rfl t fits places
    exact Hours.Daily.onScale_iff ⟨accepted, rfl⟩ fits places

/-- Every night from 22:00 to 06:00. -/
theorem partitions_overnight :
    ∃ s, Schedule.Declares (.daily 79200 21600 Schedule.allDays) 0 s ∧
      ∀ P, s.Partitions P (.daily 79200 21600 Schedule.allDays) 0 :=
  ⟨_, .daily rfl, fun _ => (partitions_iff_daily (.daily rfl)).1.mpr ⟨_, _, _, rfl⟩⟩

/-- From Monday to Friday at noon, asked on the Saturday 2026-01-03 at noon: no window is open then,
and the schedule says that one is. -/
theorem open_on_saturday :
    Schedule.Declares (.weekly .monday 0 .friday 43200) 0
        ((Hours.weekly .monday 0 .friday 43200).schedule 0) ∧
      (Hours.weekly .monday 0 .friday 43200).Placed 0 (739984 * 86400000 + 43200000) ∧
      parseUtc (ascii "20260103-12:00:00") = some (739984 * 86400000 + 43200000) ∧
      ((Hours.weekly .monday 0 .friday 43200).schedule 0).contains
        (739984 * 86400000 + 43200000) = true ∧
      ¬ ∃ d, (Hours.weekly .monday 0 .friday 43200).Within d
        ((739984 * 86400000 + 43200000 : ℕ) : ℤ) := by
  have none : ¬ ∃ d, (Hours.weekly .monday 0 .friday 43200).Within d
      ((739984 * 86400000 + 43200000 : ℕ) : ℤ) := by
    rintro ⟨d, in_⟩
    rw [weekly_within, show (Hours.weekly .monday 0 .friday 43200).window.length =
      4 * 86400000 + 43200000 from rfl, show Weekday.monday.index = 0 from rfl] at in_
    omega
  refine ⟨.weekly rfl, ⟨by decide, fun d in_ => ?_, by decide⟩, by decide, by decide, none⟩
  exact absurd ⟨d, by simpa using in_⟩ none

end Fixbolt
