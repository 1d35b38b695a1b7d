import ClusterBench.Binary64.Arithmetic
import ClusterBench.Binary64.Reading
import ClusterBench.Results.Table

/-!
# Cache logs

A server dumps its cache statistics periodically as a table without a header. The rows before the
clients start are dropped and time is shifted so that the clients start at zero.
-/

namespace ClusterBench

structure CacheSample where
  time : Binary64
  cacheOccupancy : Binary64
  localStoreOccupancy : Binary64
  localStoreEvictable : Binary64
  globalStoreQueue : Binary64

abbrev CacheLog := List CacheSample

namespace CacheLog

/-- The sample of a row: four percentages and the time. Further fields are ignored. -/
def sample (startDiff : Nat) (fields : List String) : Except Failure CacheSample :=
  match (fields.take 5).map Binary64.read? with
  | [some cache, some occupancy, some evictable, some queue, some time] =>
    .ok ⟨time.trunc - Binary64.ofNat startDiff, cache, occupancy, evictable, queue⟩
  | _ => .error (.of (.table .notNumbers))

/-- The log without its first `startDiff` rows, whatever is in them. -/
def ofBytes (bytes : List UInt8) (startDiff : Nat) : Except Failure CacheLog :=
  ((Table.rows bytes).drop startDiff).mapM fun
    | .ok fields => sample startDiff fields
    | .error fault => .error (.of (.table fault))

end CacheLog

end ClusterBench
