/-!
# Fair shares

All transfers together have one budget of octets per second. Each takes chunks of its share:
the budget divided by the number of transfers that run right now, and at least one octet.
-/

namespace Courier

/-- A reading below one counts as one transfer. -/
def fairChunkSize (rate : Nat) (active : Int) : Nat :=
  max 1 (rate / (if active ≤ 0 then 1 else active.toNat))

theorem fairChunkSize_pos (rate : Nat) (active : Int) : 0 < fairChunkSize rate active := by
  unfold fairChunkSize
  omega

end Courier
