import Mathlib.Data.List.Induction
import ScriptEngine.Deadline

-- What becomes of a deadline over any sequence of resets, stops and checks. Only the last reset or
-- stop counts, and a check tells which one it was and whether the time of a reset is over. The clock
-- need not even run forwards, and no time is too large.

namespace ScriptEngine.Deadline

-- What is done to a deadline. Readings of the clock and timeouts are in nanoseconds.
inductive Action where
  | reset (reading timeout : Nat)
  | stop
  | check (reading : Nat)
deriving DecidableEq, Repr

def Action.sets : Action → Bool
  | reset _ _ | stop => true
  | check _ => false

-- The deadline after an action.
def act (deadline : Deadline) : Action → Deadline
  | .reset reading timeout => .after reading timeout
  | .stop => .stopped
  | .check _ => deadline

-- The deadline that has come out of a new one.
def leftBy (history : List Action) : Deadline :=
  history.foldl act never

-- The last reset or stop.
def lastSetting? (history : List Action) : Option Action :=
  (history.filter Action.sets).getLast?

theorem leftBy_concat (history : List Action) (action : Action) :
    leftBy (history ++ [action]) = (leftBy history).act action := by
  rw [leftBy, List.foldl_append]
  rfl

theorem lastSetting?_concat (history : List Action) (action : Action) :
    lastSetting? (history ++ [action]) =
      if action.sets then some action else lastSetting? history := by
  unfold lastSetting?
  rw [List.filter_append]
  cases h : action.sets <;> simp [h]

theorem sets_of_lastSetting? {history : List Action} {action : Action}
    (h : lastSetting? history = some action) : action.sets :=
  (List.mem_filter.mp (List.mem_of_getLast? h)).2

-- An action that sets the deadline takes no notice of what it was.
theorem act_of_sets {action : Action} (h : action.sets) (deadline other : Deadline) :
    deadline.act action = other.act action := by
  cases action with
  | reset _ _ | stop => rfl
  | check _ => cases h

theorem leftBy_eq (history : List Action) :
    leftBy history = (lastSetting? history).elim never never.act := by
  induction history using List.reverseRecOn with
  | nil => rfl
  | append_singleton history action ih =>
    rw [leftBy_concat, lastSetting?_concat]
    split
    · next h => exact act_of_sets h _ _
    · next h =>
      rw [← ih]
      cases action with
      | reset _ _ | stop => exact absurd rfl h
      | check _ => rfl

variable {reading start timeout : Nat}

-- The sum is held within the word and off the mark of a stop.
theorem word_after (start timeout : Nat) :
    (after start timeout).word.toNat = max 1 (min limit (start + timeout)) := by
  have hword : max 1 (min limit (min limit start + min limit timeout)) =
      max 1 (min limit (start + timeout)) := by omega
  have hlt : max 1 (min limit (start + timeout)) < UInt64.size := by
    simp only [limit, UInt64.size]
    omega
  unfold after
  rw [hword]
  exact Nat.mod_eq_of_lt hlt

-- Starting the time anew takes back a stop.
theorem after_ne_stopped (start timeout : Nat) : after start timeout ≠ stopped := by
  intro h
  have hword := word_after start timeout
  rw [h] at hword
  change 0 = _ at hword
  omega

theorem check_after (start timeout reading : Nat) :
    (after start timeout).check reading =
      if max 1 (min limit (start + timeout)) < min limit reading then .error .timedOut
      else .ok () := by
  rw [check, if_neg (after_ne_stopped start timeout), word_after]

theorem check_never (reading : Nat) : never.check reading = .ok () := by
  have hstopped : never ≠ stopped := by decide
  have hword : ¬ never.word.toNat < min limit reading := by
    have hlimit : never.word.toNat = limit := rfl
    omega
  rw [check, if_neg hstopped, if_neg hword]

-- Time that is over has passed the timeout.
theorem lt_of_timedOut (h : (after start timeout).check reading = .error .timedOut) :
    timeout < reading - start := by
  rw [check_after] at h
  split at h
  · omega
  · cases h

theorem timedOut_of_lt (hlt : max (start + timeout) 1 < reading)
    (hlimit : start + timeout < UInt64.size - 1) :
    (after start timeout).check reading = .error .timedOut := by
  have hsize : 2 < UInt64.size := by decide
  have hword : limit = UInt64.size - 1 := rfl
  rw [check_after, if_pos (by omega)]

-- A check says that the run was interrupted exactly if a stop came last. After a reset it says that
-- the time is over only if it is, and does say so as far as the word reaches. A new deadline never
-- comes, and no reset is taken for a stop.
theorem check_leftBy (history : List Action) (reading : Nat) :
    ((leftBy history).check reading = .error .interrupted ↔ lastSetting? history = some .stop) ∧
    (∀ start timeout, lastSetting? history = some (.reset start timeout) →
      ((leftBy history).check reading = .ok () ∨
        (leftBy history).check reading = .error .timedOut) ∧
      ((leftBy history).check reading = .error .timedOut → timeout < reading - start) ∧
      (max (start + timeout) 1 < reading → start + timeout < UInt64.size - 1 →
        (leftBy history).check reading = .error .timedOut)) ∧
    (lastSetting? history = none → (leftBy history).check reading = .ok ()) ∧
    (∀ start timeout, after start timeout ≠ stopped) ∧
    Fault.message .interrupted = "Interrupted" ∧
    Fault.message .timedOut = "Execution timed-out" := by
  have hleft := leftBy_eq history
  refine ⟨?_, fun start timeout h => ?_, fun h => ?_, after_ne_stopped, rfl, rfl⟩
  · match h : lastSetting? history with
    | none =>
      rw [hleft, h, Option.elim_none, check_never]
      exact ⟨nofun, nofun⟩
    | some .stop =>
      rw [hleft, h]
      exact ⟨fun _ => rfl, fun _ => rfl⟩
    | some (.reset start timeout) =>
      rw [hleft, h, Option.elim_some, act, check_after]
      refine ⟨fun hfault => ?_, nofun⟩
      split at hfault <;> cases hfault
    | some (.check _) => cases sets_of_lastSetting? h
  · rw [hleft, h, Option.elim_some, act]
    refine ⟨?_, lt_of_timedOut, timedOut_of_lt⟩
    rw [check_after]
    split
    · exact .inr rfl
    · exact .inl rfl
  · rw [hleft, h]
    exact check_never reading

-- A reset without any time when the clock starts, which comes after a stop.
def hastyReset : List Action :=
  [.check 0, .stop, .check 0, .reset 0 0, .check 1]

-- It still leaves a nanosecond, so that the mark of a stop is not hit, and then its time is over.
theorem check_leftBy_hasty :
    lastSetting? hastyReset = some (.reset 0 0) ∧ max (0 + 0) 1 < 2 ∧ 0 + 0 < UInt64.size - 1 ∧
    (leftBy hastyReset).check 2 = .error .timedOut ∧ 0 < 2 - 0 ∧
    (leftBy hastyReset).check 1 ≠ .error .interrupted ∧
    lastSetting? [.check 7] = none ∧ (leftBy [.check 7]).check (UInt64.size + 7) = .ok () := by
  have hlast : lastSetting? hastyReset = some (.reset 0 0) := rfl
  have hover := ((check_leftBy _ 2).2.1 0 0 hlast).2.2 (by decide) (by decide)
  refine ⟨hlast, by decide, by decide, hover, ((check_leftBy _ 2).2.1 0 0 hlast).2.1 hover,
    fun h => ?_, rfl, (check_leftBy [.check 7] (UInt64.size + 7)).2.2.1 rfl⟩
  have hstop := (check_leftBy _ 1).1.mp h
  rw [hlast] at hstop
  cases hstop

end ScriptEngine.Deadline
