/-
# Schedule profiles

`schedule_profile.py`: what a workflow's `schedule` object says, and the next nominal
instant of a profile.  Instants are exact rationals, in seconds.

`ScheduleCalendar` holds what the profile relies on elsewhere: the durations and the
event strategies of ordinary tasks, and the calendar of `croniter`.
-/
import OpenWorkflowAgent.Transactions
import OpenWorkflowAgent.Values

/-- `ScheduleKind`. -/
inductive ScheduleKind where
  | after
  | every
  | cron
  | on
  deriving DecidableEq, Repr

/-- The name of a kind in the `schedule` object. -/
def ScheduleKind.text : ScheduleKind → String
  | .after => "after"
  | .every => "every"
  | .cron => "cron"
  | .on => "on"

/-- `ScheduleRead`. -/
inductive ScheduleRead where
  | data
  | envelope
  | raw
  deriving DecidableEq, Repr

/-- `ScheduleProfile`. -/
structure ScheduleProfile where
  kind : ScheduleKind
  intervalSeconds : Option ℚ
  cron : Option String
  strategy : Option Json
  read : ScheduleRead
  deriving DecidableEq

/-- What profiles rely on. -/
structure ScheduleCalendar where
  /-- `_duration_seconds`. -/
  durationSeconds : Json → Option ℚ
  /-- `_validate_listen_capability`, which raises on a strategy it does not support. -/
  listenCapability : Json → Except OwaError Unit
  /-- `croniter(expression, base).get_next()` for an instant in a time zone; `none`
  is `CroniterBadDateError`, and an error any other one. -/
  croniter : String → ℚ → String → Except Unit (Option ℚ)

namespace ScheduleProfiles

variable (calendar : ScheduleCalendar)

/-- `str.split()`. -/
def words (text : String) : List String :=
  ((text.toList.splitOnP Char.isWhitespace).filter (· ≠ [])).map String.ofList

/-- The expressions to ask the calendar for.  Where both the day of the month and the
day of the week are restricted, each alternative is asked on its own. -/
def cronExpressions (cron : String) : List String :=
  match words cron with
  | [minute, hour, dom, month, dow] =>
    if dom ≠ "*" ∧ dow ≠ "*" then
      [" ".intercalate [minute, hour, dom, month, "*"],
        " ".intercalate [minute, hour, "*", month, dow]]
    else [cron]
  | _ => []

def cronInvalid : OwaError :=
  .plain .scheduleValidationError "cron expression or deployment timezone is invalid"

/-- The earliest of the next instants of some expressions, `none` if there is none. -/
def earliest (after : ℚ) (timezone : String) : List String → Except OwaError (Option ℚ)
  | [] => .ok none
  | expression :: rest =>
    match calendar.croniter expression after timezone, earliest after timezone rest with
    | .ok (some t), .ok (some u) => .ok (some (min t u))
    | .ok (some t), .ok none => .ok (some t)
    | .ok none, .ok u => .ok u
    | _, _ => .error cronInvalid

def nextCron (cron : String) (after : ℚ) (timezone : String) : Except OwaError ℚ :=
  match earliest calendar after timezone (cronExpressions cron) with
  | .ok (some t) => if t ≤ after then .error cronInvalid else .ok t
  | _ => .error cronInvalid

/-- The next instant of an interval, which has to be later. -/
def nextInterval (interval after : ℚ) : Except OwaError ℚ :=
  if after + interval ≤ after then
    .error (.plain .scheduleValidationError "schedule next instant is invalid")
  else .ok (after + interval)

/-- `next_due`. -/
def nextDue (profile : ScheduleProfile) (after : ℚ) (timezone : String) : Except OwaError ℚ :=
  match profile.kind, profile.cron with
  | .every, _ | .after, _ => nextInterval (profile.intervalSeconds.getD 0) after
  | .cron, some cron => nextCron calendar cron after timezone
  | _, _ => .error
      (.plain .scheduleValidationError "event schedules have no calendar due instant")

/-- The value of `schedule.read`. -/
def parseRead : Option Json → Except OwaError ScheduleRead
  | none => .ok .data
  | some (.str "data") => .ok .data
  | some (.str "envelope") => .ok .envelope
  | some (.str "raw") => .ok .raw
  | some _ => .error (.plain .scheduleValidationError "schedule.read is invalid")

def parseInterval (kind : ScheduleKind) (value : Json) : Except OwaError ScheduleProfile :=
  match calendar.durationSeconds value with
  | some duration =>
    if duration ≤ 0 then
      .error (.plain .scheduleValidationError "schedule duration must be greater than zero")
    else .ok ⟨kind, some duration, none, none, .data⟩
  | none => .error (.plain .scheduleValidationError "schedule duration must be greater than zero")

/-- The profile of a cron expression, which must have a date after the start of 2024. -/
def parseCron (value : Json) : Except OwaError ScheduleProfile :=
  match value with
  | .str expression => do
      raiseIf (256 < expression.length)
        (OwaError.plain .scheduleValidationError "schedule.cron must be a bounded expression")
      let profile : ScheduleProfile := ⟨.cron, none, some expression, none, .data⟩
      let _ ← nextDue calendar profile 1704067200 "UTC"
      return profile
  | _ => .error (.plain .scheduleValidationError "schedule.cron must be a bounded expression")

def parseOn (strategy : Json) (read : Option Json) : Except OwaError ScheduleProfile := do
  let read ← parseRead read
  calendar.listenCapability strategy
  return ⟨.on, none, none, some strategy, read⟩

def parseKind (kind : ScheduleKind) (value : Json) (read : Option Json) :
    Except OwaError ScheduleProfile :=
  match kind with
  | .after => parseInterval calendar .after value
  | .every => parseInterval calendar .every value
  | .cron => parseCron calendar value
  | .on => parseOn calendar value read

def modes (schedule : Json) : List ScheduleKind :=
  [ScheduleKind.after, .every, .cron, .on].filter fun kind => (schedule.field? kind.text).isSome

/-- `parse_schedule`. -/
def parseSchedule (schedule : Json) : Except OwaError ScheduleProfile :=
  match schedule, modes schedule with
  | .obj fields, [kind] => do
      raiseIf (¬ fields.all fun f => f.1 ∈ ["after", "every", "cron", "on", "read"])
        (OwaError.plain .scheduleValidationError "schedule requires exactly one scheduling mode")
      raiseIf ((schedule.field? "read").isSome ∧ kind ≠ .on)
        (OwaError.plain .scheduleValidationError "schedule.read requires schedule.on")
      parseKind calendar kind ((schedule.field? kind.text).getD .null) (schedule.field? "read")
  | .obj _, _ =>
    .error (.plain .scheduleValidationError "schedule requires exactly one scheduling mode")
  | _, _ => .error (.plain .scheduleValidationError "workflow schedule must be an object")

/-! ## What a profile promises -/

theorem nextInterval_eq_ok {interval after due : ℚ} (h : nextInterval interval after = .ok due) :
    due = after + interval ∧ after < due := by
  unfold nextInterval at h
  split at h
  · cases h
  · next hlt =>
      cases h
      exact ⟨rfl, not_le.mp hlt⟩

variable {timezone : String}

theorem nextCron_lt {cron : String} {after due : ℚ}
    (h : nextCron calendar cron after timezone = .ok due) : after < due := by
  unfold nextCron at h
  split at h
  · split at h
    · cases h
    · next hlt =>
        cases h
        exact not_le.mp hlt
  · cases h

variable {profile : ScheduleProfile}

theorem nextDue_lt {after due : ℚ} (h : nextDue calendar profile after timezone = .ok due) :
    after < due := by
  unfold nextDue at h
  split at h
  · exact (nextInterval_eq_ok h).2
  · exact (nextInterval_eq_ok h).2
  · exact nextCron_lt calendar h
  · cases h

theorem nextDue_interval {after due : ℚ} (hkind : profile.kind = .every ∨ profile.kind = .after)
    (h : nextDue calendar profile after timezone = .ok due) :
    due = after + profile.intervalSeconds.getD 0 := by
  unfold nextDue at h
  split at h
  · exact (nextInterval_eq_ok h).1
  · exact (nextInterval_eq_ok h).1
  · next hcron _ => simp [hcron] at hkind
  · cases h

theorem parseInterval_eq_ok {kind : ScheduleKind} {value : Json}
    (h : parseInterval calendar kind value = .ok profile) :
    profile.kind = kind ∧ ∃ interval, profile.intervalSeconds = some interval ∧ 0 < interval := by
  unfold parseInterval at h
  split at h
  · next duration _ =>
      split at h
      · cases h
      · next hpos =>
          cases h
          exact ⟨rfl, duration, rfl, not_le.mp hpos⟩
  · cases h

theorem parseCron_kind {value : Json} (h : parseCron calendar value = .ok profile) :
    profile.kind = .cron := by
  unfold parseCron at h
  split at h
  · simp only [except_bind_eq_ok] at h
    obtain ⟨-, -, -, -, h⟩ := h
    cases h
    rfl
  · cases h

theorem parseOn_kind {strategy : Json} {read : Option Json}
    (h : parseOn calendar strategy read = .ok profile) : profile.kind = .on := by
  simp only [parseOn, except_bind_eq_ok] at h
  obtain ⟨_, -, -, -, h⟩ := h
  cases h
  rfl

theorem parseSchedule_interval {schedule : Json} (h : parseSchedule calendar schedule = .ok profile)
    (hkind : profile.kind = .every ∨ profile.kind = .after) :
    ∃ interval, profile.intervalSeconds = some interval ∧ 0 < interval := by
  unfold parseSchedule at h
  split at h
  · next kind _ =>
      simp only [except_bind_eq_ok] at h
      obtain ⟨-, -, -, -, h⟩ := h
      cases kind with
      | after => exact (parseInterval_eq_ok calendar h).2
      | every => exact (parseInterval_eq_ok calendar h).2
      | cron =>
        rw [parseCron_kind calendar h] at hkind
        simp at hkind
      | on =>
        rw [parseOn_kind calendar h] at hkind
        simp at hkind
  · cases h
  · cases h

end ScheduleProfiles
