import Intcode.Text.Quoted
import Intcode.Word

/-!
# Warnings

What is reported beside a result and changes nothing in it.
-/

namespace Intcode

inductive Warning where
  | droppedValue (value : Word)
  | processorStarted (id : String)
  | relayStarted (id : String)
  | unexpectedColor (value : Word)
  | unknownTile (id x y : Word)
  | strayStatus (status : Word)
  | unknownStatus (status : Word)
  | ignoredSetting (name : String) (value : List Char)
  deriving DecidableEq, Repr

def Warning.message : Warning → String
  | droppedValue value => s!"dropping {value.text} pushed onto a closed wire"
  | processorStarted id => s!"processor {id} already started"
  | relayStarted id => s!"relay {id} already started"
  | unexpectedColor value => s!"unexpected paint color {value.text}, using white"
  | unknownTile id x y => s!"ignoring unknown tile id {id.text} at [{x.text},{y.text}]"
  | strayStatus status => s!"droid status {status.text} without a pending move"
  | unknownStatus status => s!"unknown droid status {status.text}, treating as wall"
  | ignoredSetting name value => s!"ignoring {name}={Text.quoted value}"

end Intcode
