import Intcode.Warning

/-!
# Devices

A device answers each value that it is told with at most one value. It may hold values back until
it has enough of them, and it may hang up on the unit that listens to it.
-/

namespace Intcode

inductive Answer where
  | reply (value : Word)
  | silent
  /-- The device breaks down, and the relay that it sits in with it. -/
  | crash
  deriving DecidableEq, Repr

structure Response (τ : Type) where
  device : τ
  answer : Answer
  /-- Whether the device closed the channel that it answers into. -/
  hangsUp : Bool := false
  warnings : List Warning := []

class Device (τ : Type) where
  respond : τ → Word → Response τ

/-- The device that passes every value on and remembers the last one. -/
structure Passing where
  last : Option Word := none
  deriving DecidableEq, Repr

instance : Device Passing where
  respond _ v := { device := { last := some v }, answer := .reply v }

end Intcode
