import Mathlib

/-!
# Waiting for a usage limit to be reset

A usage limit message names a clock time without a date. `codex_not_before` reads it as a time of the day on which the
call started, or of the next day where that time has passed. A time that has passed a moment ago stands for a reset that
is just about to come.
-/

namespace AiOrg

open List

namespace Codex

/-- A second, in microseconds. -/
def second : ℤ := 1000000

def day : ℤ := 86400 * second

/-- The microsecond behind the last one of the year 9999, counted from the start of the year 1. -/
def calendarEnd : ℤ := 3652059 * day

/-- A `datetime` in its own time zone. -/
structure Datetime where
  micros : ℤ
  nonneg : 0 ≤ micros
  lt_end : micros < calendarEnd

/-- A time of the day. -/
structure Clock where
  hour : ℕ
  minute : ℕ
  hour_lt : hour < 24
  minute_lt : minute < 60

def Clock.micros (clock : Clock) : ℤ := (clock.hour * 3600 + clock.minute * 60) * second

theorem Clock.micros_bounds (clock : Clock) : 0 ≤ clock.micros ∧ clock.micros < day := by
  have hhour := clock.hour_lt
  have hminute := clock.minute_lt
  unfold Clock.micros day second
  omega

def midnight (instant : ℤ) : ℤ := instant / day * day

/-- `started.replace(hour=…, minute=…, second=0, microsecond=0)`. -/
def Datetime.replace (started : Datetime) (clock : Clock) : Datetime where
  micros := midnight started.micros + clock.micros
  nonneg := by
    have := clock.micros_bounds
    have := started.nonneg
    unfold midnight day second at *
    omega
  lt_end := by
    have := clock.micros_bounds
    have := started.lt_end
    unfold midnight calendarEnd day second at *
    omega

/-- `started + delta`, `none` for an `OverflowError`. -/
def Datetime.add (started : Datetime) (delta : ℤ) : Option Datetime :=
  if h : 0 ≤ started.micros + delta ∧ started.micros + delta < calendarEnd then
    some ⟨started.micros + delta, h.1, h.2⟩
  else none

def digit (c : Char) : ℕ := c.toNat - '0'.toNat

/-- `%I`. -/
def hourOf : List Char → Option ℕ
  | [d] => if d.isDigit ∧ d ≠ '0' then some (digit d) else none
  | ['0', d] => if d.isDigit ∧ d ≠ '0' then some (digit d) else none
  | ['1', d] => if d = '0' ∨ d = '1' ∨ d = '2' then some (10 + digit d) else none
  | _ => none

/-- `%M`. -/
def minuteOf : List Char → Option ℕ
  | [d] => if d.isDigit then some (digit d) else none
  | [tens, d] => if tens.isDigit ∧ digit tens < 6 ∧ d.isDigit then some (10 * digit tens + digit d) else none
  | _ => none

/-- The hour of the day for an hour and `%p`. -/
def hourOfDay (hour : ℕ) (afternoon : Bool) : ℕ :=
  if afternoon then (if hour = 12 then 12 else hour + 12) else if hour = 12 then 0 else hour

def clockOf (hour minute : ℕ) (afternoon : Bool) : Option Clock :=
  if h : hourOfDay hour afternoon < 24 ∧ minute < 60 then some ⟨hourOfDay hour afternoon, minute, h.1, h.2⟩ else none

/-- `datetime.strptime(text, "%I:%M %p")` for a text that `RESET_RE` finds, `none` for a `ValueError`. -/
def strptime (text : List Char) : Option Clock :=
  match text.span (· ≠ ':') with
  | (hour, _ :: rest) =>
    match rest.span (· ≠ ' ') with
    | (minute, [' ', 'A', 'M']) => do clockOf (← hourOf hour) (← minuteOf minute) false
    | (minute, [' ', 'P', 'M']) => do clockOf (← hourOf hour) (← minuteOf minute) true
    | _ => none
  | _ => none

def printedClock (reset_time_text : List Char) : Option Clock := strptime (reset_time_text.map Char.toUpper)

def BOUNDARY_GRACE : ℤ := 10 * 60 * second

def SHORT_RETRY : ℤ := 120 * second

/-- `none` where it raises. -/
def codex_not_before (reset_time_text : List Char) (started_at : Datetime) : Option Datetime := do
  let parsed ← printedClock reset_time_text
  let candidate := started_at.replace parsed
  if candidate.micros ≤ started_at.micros then
    if started_at.micros - candidate.micros ≤ BOUNDARY_GRACE then started_at.add SHORT_RETRY
    else candidate.add day
  else some candidate

/-- The clock shows the time at an instant. -/
def Occurs (clock : Clock) (instant : ℤ) : Prop := ∃ date : ℤ, instant = date * day + clock.micros

/-- The instant to wait for: the next occurrence, or a moment from now where the last one is a moment ago. -/
structure Resolves (clock : Clock) (started result : ℤ) : Prop where
  after : started < result
  retry : ∀ last, IsGreatest {t | Occurs clock t ∧ t ≤ started} last → started - last ≤ BOUNDARY_GRACE →
    result = started + SHORT_RETRY
  next : ∀ last, IsGreatest {t | Occurs clock t ∧ t ≤ started} last → BOUNDARY_GRACE < started - last →
    IsLeast {t | Occurs clock t ∧ started < t} result

/-- The last occurrence up to an instant. -/
def lastOccurrence (clock : Clock) (started : ℤ) : ℤ := started - (started - clock.micros) % day

/-- The instant that `Resolves` asks for. -/
def resolved (clock : Clock) (started : ℤ) : ℤ :=
  if started - lastOccurrence clock started ≤ BOUNDARY_GRACE then started + SHORT_RETRY
  else lastOccurrence clock started + day

end Codex

end AiOrg

/-!
## Calls that are made again

`run_with_reset_retries` calls the runner again after a usage limit that will be reset and after a provider that did not
answer, each a bounded number of times. A session that was announced is resumed. What the outputs mean is left open: the
patterns are parameters.
-/

namespace AiOrg

open List

namespace Codex

/-- What the patterns of the module find in an output. -/
structure Patterns where
  /-- The group of `RESET_RE.search`. -/
  reset : String → Option String
  /-- Some pattern of `_TRANSIENT_PATTERNS` is found. -/
  interrupted : String → Bool
  /-- The session ids of the headers and of the events. -/
  candidates : String → List String

inductive Classification
  | timed_reset | transient
  deriving DecidableEq

structure Completed where
  returncode : ℤ
  combined_output : String
  deriving DecidableEq

inductive Mode
  | restart | resume
  deriving DecidableEq

/-- The runner at each of its calls, which may resume a session, and the clock before it. -/
structure Runner where
  run_once : ℕ → Completed
  resume_once : Option (ℕ → String → Completed)
  started_at : ℕ → Datetime

variable (re : Patterns) (runner : Runner)

def classify_transient (text : String) : Option Classification :=
  if (re.reset text).isSome then some .timed_reset
  else if re.interrupted text then some .transient
  else none

/-- `if session_id not in session_ids: session_ids.append(session_id)`. -/
def appendNew (session_ids : List String) (session_id : String) : List String :=
  if session_id ∈ session_ids then session_ids else session_ids ++ [session_id]

/-- `tuple(dict.fromkeys(candidates))`. -/
def extract_session_ids (text : String) : List String := (re.candidates text).foldl appendNew []

/-- The local variables of the loop, with the calls it has made. -/
structure Attempts where
  reset_retries : ℕ
  transient_retries : ℕ
  session_ids : List String
  invocation_modes : List Mode
  resume_session : Option String
  calls : List Completed

def Attempts.start : Attempts := ⟨0, 0, [], [], none, []⟩

/-- The call of one turn. -/
def invoke (s : Attempts) : Completed × Mode :=
  match s.resume_session, runner.resume_once with
  | some session, some resume_once => (resume_once s.calls.length session, .resume)
  | _, _ => (runner.run_once s.calls.length, .restart)

/-- The variables after the call. -/
def Attempts.record (s : Attempts) (call : Completed × Mode) : Attempts :=
  let attempt_session_ids := extract_session_ids re call.1.combined_output
  { s with
    session_ids := attempt_session_ids.foldl appendNew s.session_ids
    invocation_modes := s.invocation_modes ++ [call.2]
    resume_session := attempt_session_ids.getLast?.or s.resume_session
    calls := s.calls ++ [call.1] }

/-- How the loop ends; `raised` is a printed time that is none. -/
inductive Outcome
  | returned (completed : Completed) (transient_exhausted : Bool)
  | raised

/-- What a turn does with a call: it ends the loop, or the loop goes on. -/
def decideTurn (max_reset_retries max_transient_retries : ℤ) (started_at : Datetime) (completed : Completed)
    (s : Attempts) : Outcome ⊕ Attempts :=
  if completed.returncode = 0 then .inl (.returned completed false)
  else
    match classify_transient re completed.combined_output with
    | some .timed_reset =>
      if s.reset_retries < max_reset_retries then
        match (re.reset completed.combined_output).bind fun text => codex_not_before text.toList started_at with
        | some _ => .inr { s with reset_retries := s.reset_retries + 1 }
        | none => .inl .raised
      else .inl (.returned completed false)
    | some .transient =>
      if s.transient_retries < max_transient_retries then
        .inr { s with transient_retries := s.transient_retries + 1 }
      else .inl (.returned completed true)
    | none => .inl (.returned completed false)

/-- One turn of the loop, with the variables behind the call. -/
def turn (max_reset_retries max_transient_retries : ℤ) (s : Attempts) : (Outcome × Attempts) ⊕ Attempts :=
  let call := invoke runner s
  let recorded := s.record re call
  match decideTurn re max_reset_retries max_transient_retries (runner.started_at s.calls.length) call.1 recorded with
  | .inl outcome => .inl (outcome, recorded)
  | .inr next => .inr next

/-- The loop, up to a number of turns. -/
def retryLoop (max_reset_retries max_transient_retries : ℤ) : ℕ → Attempts → Option (Outcome × Attempts)
  | 0, _ => none
  | turns + 1, s =>
    match turn re runner max_reset_retries max_transient_retries s with
    | .inl ended => some ended
    | .inr next => retryLoop max_reset_retries max_transient_retries turns next

/-- The greatest number of calls. -/
def maxCalls (max_reset_retries max_transient_retries : ℤ) : ℕ :=
  1 + max_reset_retries.toNat + max_transient_retries.toNat

/-- `none` would be a loop that does not end. -/
def run_with_reset_retries (max_reset_retries max_transient_retries : ℤ) : Option (Outcome × Attempts) :=
  retryLoop re runner max_reset_retries max_transient_retries (maxCalls max_reset_retries max_transient_retries) .start

/-! ### What is asked of a run -/

/-- A call failed in a way that is tried again. -/
def failedAs (kind : Classification) (call : Completed) : Bool :=
  call.returncode ≠ 0 && classify_transient re call.combined_output = some kind

def UsedUp (kind : Classification) (budget : ℤ) (calls : List Completed) : Prop :=
  ∃ earlier last, calls = earlier ++ [last] ∧ failedAs re kind last = true ∧
    budget ≤ earlier.countP (failedAs re kind)

end Codex

end AiOrg

/-!
## The reset that is waited for

The instant to wait for is determined by the last occurrence of the clock time. The code looks at the day of the start
only, so it is right exactly if no midnight lies between an occurrence within the grace period and the start
(`not_before_resolves_iff`).
-/

namespace AiOrg

open List

namespace Codex

variable {clock : Clock} {started result : ℤ}

theorem isGreatest_lastOccurrence (clock : Clock) (started : ℤ) :
    IsGreatest {t | Occurs clock t ∧ t ≤ started} (lastOccurrence clock started) := by
  unfold lastOccurrence
  refine ⟨⟨⟨(started - clock.micros) / day, ?_⟩, ?_⟩, ?_⟩
  · have := Int.emod_add_ediv_mul (started - clock.micros) day
    omega
  · have := Int.emod_nonneg (started - clock.micros) (show day ≠ 0 by decide)
    omega
  · rintro t ⟨⟨date, rfl⟩, hle⟩
    unfold day second at *
    omega

theorem isLeast_next (clock : Clock) (started : ℤ) :
    IsLeast {t | Occurs clock t ∧ started < t} (lastOccurrence clock started + day) := by
  obtain ⟨⟨⟨date, hdate⟩, hle⟩, hmax⟩ := isGreatest_lastOccurrence clock started
  refine ⟨⟨⟨date + 1, ?_⟩, ?_⟩, ?_⟩
  · rw [hdate]
    ring
  · have := Int.emod_lt_of_pos (started - clock.micros) (show 0 < day by decide)
    unfold lastOccurrence
    omega
  · rintro t ⟨⟨other, rfl⟩, hlt⟩
    -- the occurrence before it is not after the last one
    by_contra hnot
    have hbefore : Occurs clock (other * day + clock.micros - day) := ⟨other - 1, by ring⟩
    have hother : date < other := by
      by_contra hge
      have : other * day ≤ date * day := Int.mul_le_mul_of_nonneg_right (not_lt.1 hge) (by decide)
      omega
    have : (date + 1) * day ≤ other * day := Int.mul_le_mul_of_nonneg_right hother (by decide)
    rw [add_mul] at this
    omega

theorem resolves_iff : Resolves clock started result ↔ result = resolved clock started := by
  have hlast := isGreatest_lastOccurrence clock started
  have hnext := isLeast_next clock started
  unfold resolved
  constructor
  · intro h
    split_ifs with hgrace
    · exact h.retry _ hlast hgrace
    · exact (h.next _ hlast (not_le.1 hgrace)).unique hnext
  · rintro rfl
    split_ifs with hgrace
    · refine ⟨?_, fun _ _ _ => rfl, fun last hother hnot => ?_⟩
      · unfold SHORT_RETRY second
        omega
      · rw [hother.unique hlast] at hnot
        omega
    · refine ⟨hnext.1.2, fun last hother hle => ?_, fun _ _ _ => hnext⟩
      rw [hother.unique hlast] at hle
      omega

/-- An instant of a day of the year 2026, so many minutes after midnight. -/
def sampleStart (minutes : Fin 1440) : Datetime where
  micros := 739500 * day + minutes * 60 * second
  nonneg := by
    unfold day second
    omega
  lt_end := by
    have := minutes.isLt
    unfold calendarEnd day second
    omega

end Codex

end AiOrg

/-!
## The number of calls

The calls before the last one have failed, each in a way whose counter it raised, so the counters bound the number of
calls. The flag is about one of the two budgets.
-/

namespace AiOrg

open List

namespace Codex

variable {re : Patterns} {runner : Runner} {max_reset_retries max_transient_retries : ℤ} {s next : Attempts}

structure FirstSeen (shown ids : List String) : Prop where
  nodup : ids.Nodup
  mem : ∀ id, id ∈ ids ↔ id ∈ shown
  order : ids.Pairwise fun a b => shown.idxOf a < shown.idxOf b

theorem firstSeen_nil : FirstSeen [] [] := ⟨nodup_nil, by simp, .nil⟩

theorem FirstSeen.appendNew {shown ids : List String} (h : FirstSeen shown ids) (id : String) :
    FirstSeen (shown ++ [id]) (appendNew ids id) := by
  have hidx : ∀ a ∈ ids, (shown ++ [id]).idxOf a = shown.idxOf a := fun a ha =>
    idxOf_append_of_mem ((h.mem a).1 ha)
  have horder : ids.Pairwise fun a b => (shown ++ [id]).idxOf a < (shown ++ [id]).idxOf b := by
    refine h.order.imp_of_mem fun ha hb hlt => ?_
    rwa [hidx _ ha, hidx _ hb]
  unfold Codex.appendNew
  split_ifs with hmem
  · refine ⟨h.nodup, fun a => ?_, horder⟩
    rw [mem_append, mem_singleton, h.mem]
    exact ⟨.inl, fun ha => ha.elim (fun ha => ha) fun heq => heq ▸ (h.mem id).1 hmem⟩
  · refine ⟨nodup_append.2 ⟨h.nodup, nodup_singleton _, ?_⟩, fun a => ?_, ?_⟩
    · rintro a ha b hb rfl
      rw [mem_singleton.1 hb] at ha
      exact hmem ha
    · rw [mem_append, mem_append, h.mem]
    · refine pairwise_append.2 ⟨horder, pairwise_singleton _ _, fun a ha b hb => ?_⟩
      rw [mem_singleton.1 hb, hidx a ha, idxOf_append_of_notMem (fun hid => hmem ((h.mem id).2 hid))]
      have := idxOf_lt_length_of_mem ((h.mem a).1 ha)
      omega

theorem FirstSeen.foldl {shown ids : List String} (h : FirstSeen shown ids) (more : List String) :
    FirstSeen (shown ++ more) (more.foldl Codex.appendNew ids) := by
  induction more generalizing shown ids with
  | nil => simpa using h
  | cons id more ih =>
    have := ih (h.appendNew id)
    rwa [append_assoc] at this

def shownIds (re : Patterns) (calls : List Completed) : List String :=
  calls.flatMap fun call => extract_session_ids re call.combined_output

/-! ### The loop -/

structure Retrying (re : Patterns) (max_reset_retries max_transient_retries : ℤ) (s : Attempts) : Prop where
  resets : s.reset_retries = s.calls.countP (failedAs re .timed_reset)
  transients : s.transient_retries = s.calls.countP (failedAs re .transient)
  length : s.calls.length = s.reset_retries + s.transient_retries
  resets_le : s.reset_retries ≤ max_reset_retries.toNat
  transients_le : s.transient_retries ≤ max_transient_retries.toNat
  session_ids : FirstSeen (shownIds re s.calls) s.session_ids

/-- What a run ends with, for a condition on the calls that the flag is to tell. -/
structure Ends (re : Patterns) (max_reset_retries max_transient_retries : ℤ) (exhausted : List Completed → Prop)
    (outcome : Outcome) (s : Attempts) : Prop where
  pos : 1 ≤ s.calls.length
  le : s.calls.length ≤ maxCalls max_reset_retries max_transient_retries
  session_ids : FirstSeen (shownIds re s.calls) s.session_ids
  last : ∀ completed flag, outcome = .returned completed flag →
    s.calls.getLast? = some completed ∧ (flag = true ↔ exhausted s.calls)
  raised : outcome = .raised → ∃ earlier last, s.calls = earlier ++ [last] ∧
    earlier.countP (failedAs re .timed_reset) < max_reset_retries ∧
    ∃ text started_at, re.reset last.combined_output = some text ∧ codex_not_before text.toList started_at = none

theorem retrying_start : Retrying re max_reset_retries max_transient_retries .start :=
  ⟨rfl, rfl, rfl, Nat.zero_le _, Nat.zero_le _, firstSeen_nil⟩

theorem record_calls (call : Completed × Mode) : (s.record re call).calls = s.calls ++ [call.1] := rfl

theorem usedUp_concat {kind : Classification} {budget : ℤ} {calls : List Completed} {last : Completed} :
    UsedUp re kind budget (calls ++ [last]) ↔
      failedAs re kind last = true ∧ budget ≤ calls.countP (failedAs re kind) := by
  constructor
  · rintro ⟨earlier, final, heq, hlast, hbudget⟩
    obtain ⟨rfl, rfl⟩ := append_singleton_inj.1 heq
    exact ⟨hlast, hbudget⟩
  · rintro ⟨hlast, hbudget⟩
    exact ⟨calls, last, rfl, hlast, hbudget⟩

theorem reset_of_timed {text : String} (h : classify_transient re text = some .timed_reset) :
    ∃ printed, re.reset text = some printed := by
  unfold classify_transient at h
  split_ifs at h with hreset hinterrupted
  · exact Option.isSome_iff_exists.1 hreset
  · cases h

theorem not_failedAs {kind other : Classification} {call : Completed} (h : failedAs re kind call = true)
    (hne : other ≠ kind) : failedAs re other call = false := by
  simp only [failedAs, Bool.and_eq_true, decide_eq_true_eq, Bool.and_eq_false_iff, decide_eq_false_iff_not] at h ⊢
  right
  rw [h.2]
  exact fun heq => hne (Option.some.inj heq).symm

theorem decideTurn_returned {started_at : Datetime} {call completed : Completed} {flag : Bool}
    (h : decideTurn re max_reset_retries max_transient_retries started_at call s = .inl (.returned completed flag)) :
    completed = call ∧
      (flag = true ↔ failedAs re .transient call = true ∧ max_transient_retries ≤ s.transient_retries) := by
  unfold decideTurn at h
  split at h
  · rename_i hzero
    cases h
    simp [failedAs, hzero]
  · rename_i hfailed
    split at h
    · rename_i hclass
      split_ifs at h with hbudget
      · split at h <;> cases h
      · cases h
        simp [failedAs, hclass]
    · rename_i hclass
      split_ifs at h with hbudget
      cases h
      simpa [failedAs, hclass, hfailed] using hbudget
    · rename_i hclass
      cases h
      simp [failedAs, hclass]

theorem decideTurn_raised {started_at : Datetime} {call : Completed}
    (h : decideTurn re max_reset_retries max_transient_retries started_at call s = .inl .raised) :
    s.reset_retries < max_reset_retries ∧
      ∃ text, re.reset call.combined_output = some text ∧ codex_not_before text.toList started_at = none := by
  unfold decideTurn at h
  split at h
  · cases h
  · split at h
    · rename_i hclass
      split_ifs at h with hbudget
      · split at h
        · cases h
        · rename_i hnone
          obtain ⟨text, htext⟩ := reset_of_timed hclass
          rw [htext, Option.bind_some] at hnone
          exact ⟨hbudget, text, htext, hnone⟩
      · cases h
    · split_ifs at h
      cases h
    · cases h

theorem decideTurn_goes_on {started_at : Datetime} {call : Completed}
    (h : decideTurn re max_reset_retries max_transient_retries started_at call s = .inr next) :
    failedAs re .timed_reset call = true ∧ s.reset_retries < max_reset_retries ∧
        next = { s with reset_retries := s.reset_retries + 1 } ∨
      failedAs re .transient call = true ∧ s.transient_retries < max_transient_retries ∧
        next = { s with transient_retries := s.transient_retries + 1 } := by
  unfold decideTurn at h
  split at h
  · cases h
  · rename_i hfailed
    split at h
    · rename_i hclass
      split_ifs at h with hbudget
      · split at h
        · cases h
          exact .inl ⟨by simp [failedAs, hclass, hfailed], hbudget, rfl⟩
        · cases h
    · rename_i hclass
      split_ifs at h with hbudget
      cases h
      exact .inr ⟨by simp [failedAs, hclass, hfailed], hbudget, rfl⟩
    · cases h

theorem shownIds_append (calls : List Completed) (last : Completed) :
    shownIds re (calls ++ [last]) = shownIds re calls ++ extract_session_ids re last.combined_output := by
  simp [shownIds]

variable (h : Retrying re max_reset_retries max_transient_retries s)

include h

theorem Retrying.length_lt : s.calls.length < maxCalls max_reset_retries max_transient_retries := by
  have := h.length
  have := h.resets_le
  have := h.transients_le
  unfold maxCalls
  omega

theorem Retrying.recorded (call : Completed × Mode) :
    FirstSeen (shownIds re (s.record re call).calls) (s.record re call).session_ids := by
  rw [record_calls, shownIds_append]
  exact h.session_ids.foldl _

theorem Retrying.ends {outcome : Outcome} {ended : Attempts}
    (hturn : turn re runner max_reset_retries max_transient_retries s = .inl (outcome, ended)) :
    Ends re max_reset_retries max_transient_retries (UsedUp re .transient max_transient_retries) outcome ended := by
  unfold turn at hturn
  dsimp only at hturn
  split at hturn
  · rename_i decided hdecided
    obtain ⟨rfl, rfl⟩ := Prod.mk.inj (Sum.inl.inj hturn)
    have hlength := h.length_lt
    refine ⟨?_, ?_, h.recorded _, ?_, ?_⟩
    · simp [record_calls]
    · rw [record_calls, length_append, length_singleton]
      omega
    · rintro completed flag rfl
      obtain ⟨rfl, hflag⟩ := decideTurn_returned hdecided
      rw [record_calls, getLast?_concat, usedUp_concat, ← h.transients]
      exact ⟨rfl, hflag⟩
    · rintro rfl
      obtain ⟨hbudget, text, htext, hnone⟩ := decideTurn_raised hdecided
      exact ⟨s.calls, _, record_calls _, h.resets ▸ hbudget, text, _, htext, hnone⟩
  · cases hturn

theorem Retrying.goes_on (hturn : turn re runner max_reset_retries max_transient_retries s = .inr next) :
    Retrying re max_reset_retries max_transient_retries next ∧ next.calls.length = s.calls.length + 1 := by
  unfold turn at hturn
  dsimp only at hturn
  split at hturn
  · cases hturn
  · rename_i decided hdecided
    obtain rfl := Sum.inr.inj hturn
    have hseen := h.recorded (invoke runner s)
    obtain ⟨hresets, htransients, hlength, hresets_le, htransients_le, -⟩ := h
    have hcalls : (s.record re (invoke runner s)).calls = s.calls ++ [(invoke runner s).1] := rfl
    rcases decideTurn_goes_on hdecided with ⟨hkind, hbudget, rfl⟩ | ⟨hkind, hbudget, rfl⟩
    · have hother := not_failedAs hkind (show Classification.transient ≠ .timed_reset by decide)
      have hbudget' : (s.reset_retries : ℤ) < max_reset_retries := hbudget
      refine ⟨⟨?_, ?_, ?_, ?_, htransients_le, hseen⟩, ?_⟩
      · simp [hcalls, hkind, ← hresets]
        rfl
      · simp [hcalls, hother, ← htransients]
        rfl
      · show (s.calls ++ [(invoke runner s).1]).length = s.reset_retries + 1 + s.transient_retries
        rw [length_append, length_singleton]
        omega
      · show s.reset_retries + 1 ≤ _
        omega
      · simp [hcalls]
    · have hother := not_failedAs hkind (show Classification.timed_reset ≠ .transient by decide)
      have hbudget' : (s.transient_retries : ℤ) < max_transient_retries := hbudget
      refine ⟨⟨?_, ?_, ?_, hresets_le, ?_, hseen⟩, ?_⟩
      · simp [hcalls, hother, ← hresets]
        rfl
      · simp [hcalls, hkind, ← htransients]
        rfl
      · show (s.calls ++ [(invoke runner s).1]).length = s.reset_retries + (s.transient_retries + 1)
        rw [length_append, length_singleton]
        omega
      · show s.transient_retries + 1 ≤ _
        omega
      · simp [hcalls]

omit h

theorem retryLoop_ends : ∀ (turns : ℕ) (s : Attempts), Retrying re max_reset_retries max_transient_retries s →
    maxCalls max_reset_retries max_transient_retries ≤ turns + s.calls.length →
    ∃ outcome ended, retryLoop re runner max_reset_retries max_transient_retries turns s = some (outcome, ended) ∧
      Ends re max_reset_retries max_transient_retries (UsedUp re .transient max_transient_retries) outcome ended
  | 0, s, h, hturns => by
    have := h.length_lt
    omega
  | turns + 1, s, h, hturns => by
    unfold retryLoop
    rcases hturn : turn re runner max_reset_retries max_transient_retries s with ended | next
    · exact ⟨_, _, rfl, h.ends hturn⟩
    · obtain ⟨hnext, hlength⟩ := h.goes_on hturn
      exact retryLoop_ends turns next hnext (by omega)

/-- The loop ends after at least one call and at most as many as the two budgets allow, with what the last call gave,
and the flag is set if and only if that failed as a transient and the budget of these is used up. -/
theorem run_with_reset_retries_ends (re : Patterns) (runner : Runner)
    (max_reset_retries max_transient_retries : ℤ) :
    ∃ outcome ended,
      run_with_reset_retries re runner max_reset_retries max_transient_retries = some (outcome, ended) ∧
        Ends re max_reset_retries max_transient_retries (UsedUp re .transient max_transient_retries) outcome ended :=
  retryLoop_ends _ _ retrying_start (Nat.le_add_right _ _)

/-- A usage limit without a retry left ends the run, and the flag does not tell. -/
theorem reset_budget_not_told : ∃ (re : Patterns) (runner : Runner) (outcome : Outcome) (ended : Attempts),
    run_with_reset_retries re runner 0 6 = some (outcome, ended) ∧
      ¬ Ends re 0 6 (fun calls => UsedUp re .transient 6 calls ∨ UsedUp re .timed_reset 0 calls) outcome ended := by
  refine ⟨⟨fun text => some text, fun _ => false, fun _ => []⟩, ⟨fun _ => ⟨1, "1:00 PM"⟩, none, fun _ => sampleStart 0⟩,
    _, _, rfl, fun h => ?_⟩
  have hflag := (h.last _ _ rfl).2
  exact absurd (hflag.2 (.inr ⟨[], _, rfl, rfl, by simp⟩)) (by decide)

end Codex

end AiOrg
