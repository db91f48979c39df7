/-
# What the journal records

The paths of the object store (`store/ids.js`) and the records of its journal
(`store/journal.js`): objects put, the retention state of a job, and the three steps of a
deletion.  `objectStateByPath` is the state of a path that its last object record names.

A blob is stored under the hash of its bytes, a manifest under its job; both names are type
variables.
-/

import Mathlib.Data.List.Basic

namespace LaneBroker
namespace Store

/-- **The path of an object**: `blobRelPath` and `manifestRelPath`. -/
inductive Path (σ ι : Type)
  | blob (sha : σ)
  | manifest (job : ι)
  deriving DecidableEq, Repr

instance {σ ι : Type} [DecidableEq σ] [DecidableEq ι] : LawfulBEq (Path σ ι) := inferInstance

/-- **What a record says**, by its `kind`.  A `put` is of kind `blob` or `manifest`, as its path
is. -/
inductive Fields (σ ι : Type)
  | put (path : Path σ ι) (sha256 : σ) (size : Nat)
  | terminal (job : ι) (terminalAt : Int)
  | pin (job : ι) (pinned : Bool)
  | deleteIntent (path : Path σ ι)
  | delete (path : Path σ ι)
  | deleteCancel (path : Path σ ι)
  /-- A kind the store does not write. -/
  | other
  deriving DecidableEq, Repr

/-- **The retention state of a job**: `meta/<job>.json`. -/
structure Meta where
  registeredAt : Option Int := none
  terminalAt : Option Int := none
  pinned : Bool := false
  deriving DecidableEq, Repr

end Store
end LaneBroker
