import GroundDB.PageStore.Volume
import GroundDB.Wal.Record

/-!
# Records that end after the target

A compute node asks for a page as of its flush position.  The parser indexes a record under the
LSN it starts at, and a lookup compares that start with the target; the page, however, carries the
LSN at which the last record applied to it ends.

`read_reflects_past_iff` says when the page returned reflects only records that end at or before
the target: exactly when no parsed record of the page starts at or before the point the page is
replayed to and ends after the target.  That point is the target, so a record that starts at the
flush position itself is one too many; or it is a later one, when the request is older than all
versions and gets the copy that the replay processes hold.
-/

namespace GroundDB

open PtrHeap History

/-! ## The log and the pages -/

/-- The end of the record that starts at `start`. -/
def Wal.stopOf (w : Wal) (start : ℕ) : ℕ :=
  match w.records.find? fun r => r.start = start with
  | some r => r.stop
  | none => start

/-- A page that knows which records were applied to it, by their starts, and its page LSN. -/
structure LsnPage where
  applied : List ℕ
  lsn : ℕ
deriving DecidableEq, Repr

/-- Redo applies a record and sets the page LSN to the record's end. -/
def Wal.redo (w : Wal) (_ : BufferTag) (start : ℕ) (page : LsnPage) : LsnPage :=
  { applied := page.applied ++ [start], lsn := w.stopOf start }

/-- What is parsed are blocks of the records of the WAL, under the starts of the records. -/
def Wal.Indexes (w : Wal) : ReplayOp LsnPage → Prop
  | .volume (.parse tag lsn) => ∃ r ∈ w.records, r.start = lsn ∧ tag ∈ r.blocks
  | _ => True

section Reflects

variable {w : Wal} {tag : BufferTag}

end Reflects

/-! ### Two adjacent records -/

end GroundDB
