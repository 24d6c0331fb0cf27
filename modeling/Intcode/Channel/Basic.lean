import Intcode.Fault

/-!
# Channels

A channel is a one-way path for words between the units of a circuit. Its operations return the
channel that is left, and a use that does not go through says why.
-/

namespace Intcode

/-- Why a use of a channel, or a step that makes one, does not go through. -/
inductive Stop where
  | fault (f : Fault)
  /-- There is nothing to take yet; the same use may go through later. -/
  | blocked
  /-- The channel breaks down, and the unit that uses it with it, or that unit does by itself. -/
  | crashed
  deriving DecidableEq, Repr

class Channel (σ : Type) where
  /-- Takes the next value. -/
  take : σ → Except Stop Word × σ
  /-- Appends a value; this never waits. -/
  put : σ → Word → Except Stop Unit × σ
  /-- Takes the next value if there is one by the end of a bounded wait. -/
  poll : σ → Except Stop (Option Word) × σ
  /-- The number of values that are queued. -/
  pending : σ → Nat
  /-- Says that this endpoint produces no more values. -/
  close : σ → σ

end Intcode
