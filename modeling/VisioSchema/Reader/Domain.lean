import Mathlib.Data.Int.Order.Basic

/-!
# The reader's records

An element of a stream, the value of a key at an instant, and the group of every key's value.
-/

namespace VisioSchema.Reader

/-- A topic's element at an instant; `value` is all that depends on its kind. -/
structure Element (K V : Type*) where
  topic : K
  tNs : ℤ
  value : V
  deriving DecidableEq, Repr

inductive SyncMethod
  | matched
  | exact
  | nearest
  | held
  | interpolated
  | extrapolated
  deriving DecidableEq, Repr

/-- One key's value at the group time, and how it was obtained. -/
structure Sampled (K V : Type*) where
  element : Element K V
  method : SyncMethod
  residualNs : ℤ
  deriving DecidableEq, Repr

structure SyncGroup (K V : Type*) where
  tNs : ℤ
  byTopic : List (K × Sampled K V)
  missing : List K
  deriving DecidableEq, Repr

end VisioSchema.Reader
