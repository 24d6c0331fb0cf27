import Intcode.Text.Blank
import Intcode.Text.Numeral
import Intcode.Warning

/-!
# Settings

What the units of a circuit are set to: whether they are traced, and how long a relay waits before
it looks at its stop signal again. The defaults can be overridden by two named texts; a text that
cannot be read is reported and changes nothing.
-/

namespace Intcode

structure Settings where
  debug : Bool := false
  /-- The poll interval of relays, in milliseconds. -/
  interval : Nat := 25
  deriving DecidableEq, Repr

namespace Settings

def debugName : String := "INTCODE_DEBUG"

def intervalName : String := "INTCODE_POLL_MS"

/-- The switch that a text stands for, blanks and the case of ASCII letters aside. -/
def readSwitch (raw : List Char) : Except (List Char) Bool :=
  let s := (Text.trim raw).map Char.toLower
  if ["1", "true", "yes", "on"].contains (String.ofList s) then .ok true
  else if ["0", "false", "no", "off", ""].contains (String.ofList s) then .ok false
  else .error s

/-- The interval that a text stands for, which is not zero. -/
def readInterval (raw : List Char) : Option Nat :=
  match Numeral.readUnsigned (Text.trim raw) with
  | .ok ms => if ms = 0 then none else some ms
  | .error _ => none

def withDebugText (s : Settings) (raw : List Char) : Settings × List Warning :=
  match readSwitch raw with
  | .ok debug => ({ s with debug }, [])
  | .error other => (s, [.ignoredSetting debugName other])

def withIntervalText (s : Settings) (raw : List Char) : Settings × List Warning :=
  match readInterval raw with
  | some interval => ({ s with interval }, [])
  | none => (s, [.ignoredSetting intervalName raw])

/-- The defaults, overridden by the texts that are given. -/
def ofLookup (lookup : String → Option (List Char)) : Settings × List Warning :=
  let (s, first) := ((lookup debugName).map (withDebugText {})).getD ({}, [])
  let (s, second) := ((lookup intervalName).map (withIntervalText s)).getD (s, [])
  (s, first ++ second)

example : readSwitch " YES\n".toList = .ok true := by rfl
example : readSwitch "Maybe".toList = .error "maybe".toList := by rfl
example : readInterval "+5 ".toList = some 5 ∧ readInterval "0".toList = none := by decide

end Settings

end Intcode
