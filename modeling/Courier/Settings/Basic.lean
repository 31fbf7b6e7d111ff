/-!
# Settings

How transfers are run, and by how many workers: the values used where none are given, and
which values a program refuses to run with.
-/

namespace Courier

structure Settings where
  /-- Failed attempts at one chunk before a transfer is given up. -/
  maxRetries : UInt32 := 3
  /-- The pause between two attempts, in milliseconds. -/
  retryDelayMillis : UInt64 := 1000
  /-- The budget of all transfers together, in octets per second. -/
  baseRate : UInt64 := 1048576
  workers : UInt64 := 5
deriving DecidableEq, Repr, Inhabited

namespace Settings

/-- The pause between two attempts, in nanoseconds. -/
def retryDelay (s : Settings) : Nat :=
  s.retryDelayMillis.toNat * 1000000

/-- What is wrong with settings, the first fault found. -/
inductive Flaw where
  | noRate
  | noAttempts
  | noWorkers
deriving DecidableEq, Repr, Inhabited

def Flaw.text : Flaw → String
  | .noRate => "base_rate must be at least 1 byte/sec"
  | .noAttempts => "max_retries must be at least 1"
  | .noWorkers => "workers must be at least 1"

def flaw? (s : Settings) : Option Flaw :=
  if s.baseRate = 0 then some .noRate
  else if s.maxRetries = 0 then some .noAttempts
  else if s.workers = 0 then some .noWorkers
  else none

theorem flaw?_eq_none (s : Settings) :
    s.flaw? = none ↔ s.baseRate ≠ 0 ∧ s.maxRetries ≠ 0 ∧ s.workers ≠ 0 := by
  unfold flaw?
  split
  · simp_all
  split
  · simp_all
  split <;> simp_all

end Settings

end Courier
