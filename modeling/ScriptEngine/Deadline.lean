import ScriptEngine.Fault

-- The deadline of a run: one 64-bit word, which holds nanoseconds of the clock, or zero once the
-- run has been stopped.

namespace ScriptEngine

structure Deadline where
  word : UInt64
deriving DecidableEq, Repr

namespace Deadline

-- The largest reading that the word holds.
def limit : Nat := UInt64.size - 1

-- A new deadline lies beyond every reading.
def never : Deadline := ⟨limit.toUInt64⟩

def stopped : Deadline := ⟨0⟩

-- The deadline `timeout` nanoseconds after the reading `now`. Readings, timeouts and sums past the
-- limit count as the limit, and the word for a stopped run is avoided.
def after (now timeout : Nat) : Deadline :=
  ⟨(max 1 (min limit (min limit now + min limit timeout))).toUInt64⟩

-- Whether a run may go on at the reading `now`.
def check (deadline : Deadline) (now : Nat) : Except Fault Unit :=
  if deadline = stopped then .error .interrupted
  else if deadline.word.toNat < min limit now then .error .timedOut
  else .ok ()

end Deadline

end ScriptEngine
