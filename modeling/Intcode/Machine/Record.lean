import Intcode.Machine.Plan
import Intcode.Text.Align

/-!
# Records

A record says which instruction a machine executed and with which values. It is made once the
operands are resolved and an input is taken, so that an instruction which fails after that leaves a
record too.
-/

namespace Intcode

/-- An executed instruction: `received` is the value of an input. -/
structure Record where
  label : String
  ip : Word
  plan : Plan
  received : Word
  deriving DecidableEq, Repr

namespace Record

def detail (r : Record) : String :=
  match r.plan.action with
  | .store a b target value => s!"{a.text} {b.text} -> &{target} = {value.text}"
  | .input target => s!"{r.received.text} -> &{target}"
  | .output value => value.text
  | .jump condition destination taken =>
    s!"{condition.text} {destination.text} taken={taken}"
  | .adjust delta base => s!"{delta.text} -> rb={base.text}"
  | .halt => ""

/-- The address in a field of five, the mnemonic in a field of four and the values. -/
def body (r : Record) : String :=
  Text.alignRight 5 r.ip.text ++ ": " ++ Text.alignLeft 4 r.plan.opcode.mnemonic ++ " " ++ r.detail

def text (r : Record) : String := s!"[{r.label}] " ++ r.body

end Record

/-- The records of several units, by label. -/
abbrev Traces := List (String × Array Record)

namespace Traces

/-- Adds the records of a unit behind those that there are under its label. -/
def add (ts : Traces) (label : String) (records : Array Record) : Traces :=
  if ts.any (·.1 == label) then
    ts.map fun t => if t.1 == label then (t.1, t.2 ++ records) else t
  else ts ++ [(label, records)]

def append (ts us : Traces) : Traces := us.foldl (fun ts u => ts.add u.1 u.2) ts

end Traces

end Intcode
