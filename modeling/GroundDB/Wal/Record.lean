import GroundDB.PageStore.Tag

/-!
# The write-ahead log

The WAL as the storage node receives it: records that do not overlap, each with the position it
starts at, the position it ends at and the pages it touches.
-/

namespace GroundDB

/-- A WAL record: where it starts (`ReadRecPtr`), where it ends (`EndRecPtr`) and the pages it
touches. -/
structure WalRecord where
  start : ℕ
  stop : ℕ
  blocks : List BufferTag

/-- The WAL a storage node receives: records that do not overlap, from `origin` on. -/
structure Wal where
  origin : ℕ
  records : List WalRecord
  start_lt_stop : ∀ r ∈ records, r.start < r.stop
  origin_le : ∀ r ∈ records, origin ≤ r.start
  ordered : records.Pairwise fun r r' => r.stop ≤ r'.start

namespace Wal

variable {w : Wal} {j k : ℕ} {r r' : WalRecord}

lemma stop_lt_stop (hr : w.records[j]? = some r) (hr' : w.records[k]? = some r') (hlt : j < k) :
    r.stop < r'.stop := by
  obtain ⟨hj, rfl⟩ := List.getElem?_eq_some_iff.mp hr
  obtain ⟨hk, rfl⟩ := List.getElem?_eq_some_iff.mp hr'
  have hle := List.pairwise_iff_getElem.mp w.ordered j k hj hk hlt
  have hpos := w.start_lt_stop _ (List.getElem_mem hk)
  omega

lemma stop_le_stop (hr : w.records[j]? = some r) (hr' : w.records[k]? = some r') (hle : j ≤ k) :
    r.stop ≤ r'.stop := by
  rcases hle.lt_or_eq with hlt | rfl
  · exact (stop_lt_stop hr hr' hlt).le
  · obtain rfl : r = r' := by simpa [hr] using hr'
    exact le_rfl

end Wal

end GroundDB
