import Intcode.Channel.Basic

/-!
# Joysticks

A channel that never waits and never fails: it always has some position. The position is -1 for
left, 0 for neutral and 1 for right, and putting a value tilts the joystick by the sign of it.
-/

namespace Intcode

structure Joystick where
  tilt : Word := 0
  deriving DecidableEq, Repr

namespace Joystick

/-- The joystick moved to the sign of a value. -/
def tiltBy (v : Word) : Joystick := { tilt := v.sign }

instance : Channel Joystick where
  take j := (.ok j.tilt, j)
  put _ v := (.ok (), tiltBy v)
  poll j := (.ok (some j.tilt), j)
  pending _ := 0
  close j := j

end Joystick

end Intcode
