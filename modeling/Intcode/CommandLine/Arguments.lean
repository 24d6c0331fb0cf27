import Intcode.CommandLine.Request

/-!
# Arguments

The arguments of a command line are read in two sections, up to the verb and behind it. Within a
section, `--name` and `-n` introduce options, the value of an option may be attached to it or
follow as an argument of its own, and `--` makes plain arguments of all that follow it. A value
that follows is held and looked at only when something else is met, so that of two mistakes it is
sometimes the second that counts.
-/

namespace Intcode.CommandLine

/-- The options and the file that a section has settled so far. -/
structure Choices where
  debug : Bool := false
  interval : Option Nat := none
  file : Option (List Char) := none
  inputs : List Word := []
  feedback : Bool := false
  start : Option Hull.Color := none
  quarters : Option Word := none
  deriving DecidableEq, Repr

namespace Choices

def numeral {α : Type} (slot : Slot) (read : List Char → Except Numeral.Flaw α)
    (value : List Char) : Except UsageError α :=
  (read value).mapError fun _ => .unreadableValue slot value

def color (value : List Char) : Except UsageError Hull.Color :=
  match String.ofList value with
  | "black" => .ok .black
  | "white" => .ok .white
  | _ => .error (.unlistedValue .start value)

/-- Refuses a second value. -/
def once {α : Type} (slot : Slot) (current : Option α) : Except UsageError Unit :=
  if current.isSome then .error (.repeated slot.name) else .ok ()

/-- Puts a value into a slot. Only inputs may be given more than once. -/
def fill (c : Choices) (slot : Slot) (value : List Char) : Except UsageError Choices :=
  match slot with
  | .interval => do
    once slot c.interval
    return { c with interval := some (← numeral slot Numeral.readUnsigned value) }
  | .input => do
    let words ← (Text.pieces (· == ',') value).mapM (numeral slot Numeral.readWord)
    return { c with inputs := c.inputs ++ words }
  | .start => do
    once slot c.start
    return { c with start := some (← color value) }
  | .quarters => do
    once slot c.quarters
    return { c with quarters := some (← numeral slot Numeral.readWord value) }
  | .file =>
    if value.isEmpty then .error (.missingValue slot) else .ok { c with file := some value }

def turnOn (c : Choices) (switch : Switch) : Except UsageError Choices :=
  match switch with
  | .debug => if c.debug then .error (.repeated switch.name) else .ok { c with debug := true }
  | .feedback =>
    if c.feedback then .error (.repeated switch.name) else .ok { c with feedback := true }
  | .help => .error .help
  | .version => .error .version

end Choices

inductive Meaning where
  | slot (s : Slot)
  | switch (s : Switch)
  deriving DecidableEq, Repr

/-- A section of the command line: before the verb, or behind it. -/
abbrev Section := Option Verb

namespace Meaning

/-- The meaning of `--name` in a section. -/
def ofName? (name : List Char) (sec : Section) : Option Meaning :=
  match String.ofList name, sec with
  | "debug", _ => some (.switch .debug)
  | "poll-ms", _ => some (.slot .interval)
  | "help", _ => some (.switch .help)
  | "version", none => some (.switch .version)
  | "input", some .run => some (.slot .input)
  | "feedback", some .amplify => some (.switch .feedback)
  | "start", some .paint => some (.slot .start)
  | "quarters", some .arcade => some (.slot .quarters)
  | _, _ => none

def ofLetter? (letter : Char) (sec : Section) : Option Meaning :=
  match letter, sec with
  | 'h', _ => some (.switch .help)
  | 'V', none => some (.switch .version)
  | 'i', some .run => some (.slot .input)
  | _, _ => none

end Meaning

inductive Shape where
  /-- The argument `--`. -/
  | divider
  | long (name : List Char) (value : Option (List Char))
  | short (letters : List Char)
  | plain
  deriving DecidableEq, Repr

/-- The shape of an argument. A single `-` is a plain one. -/
def Shape.of : List Char → Shape
  | ['-', '-'] => divider
  | '-' :: '-' :: rest =>
    match rest.dropWhile (· != '=') with
    | [] => long rest none
    | _ :: value => long (rest.takeWhile (· != '=')) (some value)
  | '-' :: c :: letters => short (c :: letters)
  | _ => plain

structure Scan where
  choices : Choices := {}
  /-- The slot that was met last, and the value that it is to be given, if it has been read. -/
  held : Option (Slot × Option (List Char)) := none
  /-- Whether a file has been named. -/
  placed : Bool := false
  /-- Whether all that follows are plain arguments. -/
  divided : Bool := false
  deriving DecidableEq, Repr

namespace Scan

def settle (s : Scan) : Except UsageError Scan :=
  match s.held with
  | none => .ok s
  | some (slot, none) => .error (.missingValue slot)
  | some (slot, some value) => do
    return { s with choices := ← s.choices.fill slot value, held := none }

def hold (s : Scan) (slot : Slot) (value : Option (List Char)) : Except UsageError Scan := do
  return { ← s.settle with held := some (slot, value) }

def fill (s : Scan) (slot : Slot) (value : List Char) : Except UsageError Scan := do
  (← s.hold slot (some value)).settle

def turnOn (s : Scan) (switch : Switch) : Except UsageError Scan := do
  let s ← s.settle
  return { s with choices := ← s.choices.turnOn switch }

/-- The slot whose value the next argument may be. -/
def awaiting (s : Scan) : Option Slot :=
  match s.held with
  | some (slot, none) => if s.divided then none else some slot
  | _ => none

/-- Reads `--name` or `--name=value`. -/
def readLong (s : Scan) (sec : Section) (argument name : List Char)
    (value : Option (List Char)) : Except UsageError Scan :=
  match Meaning.ofName? name sec, value with
  | none, _ => .error (.unknownArgument argument)
  | some (.switch switch), none => s.turnOn switch
  | some (.switch switch), some _ => .error (.unneededValue switch)
  | some (.slot slot), none => s.hold slot none
  | some (.slot slot), some value => s.fill slot value

/-- Reads the letters behind a dash. What follows the letter of a slot is its value. -/
def readLetters (s : Scan) (sec : Section) : List Char → Except UsageError Scan
  | [] => .ok s
  | c :: rest =>
    match Meaning.ofLetter? c sec, rest with
    | none, _ => .error (.unknownArgument ['-', c])
    | some (.switch switch), rest => do readLetters (← s.turnOn switch) sec rest
    | some (.slot slot), [] => s.hold slot none
    | some (.slot slot), '=' :: value => s.fill slot value
    | some (.slot slot), value => s.fill slot value

/-- Whether an argument can stand where a verb is expected. -/
def isCommand (argument : List Char) : Bool :=
  (Verb.ofName? argument).isSome || argument == "help".toList

/-- Reads a plain argument, which is the value of a slot or the file. -/
def readPlain (s : Scan) (sec : Section) (argument : List Char) : Except UsageError Scan :=
  match s.awaiting, sec with
  | some slot, _ => .ok { s with held := some (slot, some argument) }
  | none, some _ =>
    if s.placed then .error (.unknownArgument argument)
    else do return { ← s.hold .file (some argument) with placed := true }
  | none, none =>
    if s.divided && isCommand argument then .error (.unknownArgument argument)
    else .error (.unknownVerb argument)

/-- Reads an argument. A value of the input option may look like an option itself. -/
def read (s : Scan) (sec : Section) (argument : List Char) : Except UsageError Scan :=
  if s.divided || s.awaiting == some .input then s.readPlain sec argument
  else
    match Shape.of argument with
    | .divider => .ok { s with divided := true }
    | .long name value => s.readLong sec argument name value
    | .short letters => s.readLetters sec letters
    | .plain => s.readPlain sec argument

def readAll (s : Scan) (v : Verb) : List (List Char) → Except UsageError Scan
  | [] => s.settle
  | argument :: rest => do readAll (← s.read (some v) argument) v rest

end Scan

def Choices.task (c : Choices) : Verb → Task
  | .run => .run c.inputs
  | .disasm => .disasm
  | .amplify => .amplify c.feedback
  | .paint => .paint (c.start.getD .black)
  | .arcade => .arcade c.quarters
  | .ascii => .ascii
  | .droid => .droid

def helpOn : List (List Char) → UsageError
  | [] => .help
  | argument :: rest =>
    if !Scan.isCommand argument then .unknownVerb argument
    else match rest with
      | [] => .help
      | next :: _ => .unknownVerb next

def readRequest (before : Scan) (v : Verb) (arguments : List (List Char)) :
    Except UsageError Request := do
  let behind ← ({} : Scan).readAll v arguments
  match behind.choices.file with
  | none => .error .missingFile
  | some file =>
    let before ← before.settle
    return {
      task := behind.choices.task v
      file
      debug := before.choices.debug || behind.choices.debug
      interval := behind.choices.interval.or before.choices.interval }

def readFrom (s : Scan) : List (List Char) → Except UsageError Request
  | [] => do
    let s ← s.settle
    .error (if s.choices = {} then .nothingGiven else .missingVerb)
  | argument :: rest =>
    if s.divided || s.awaiting.isSome then do readFrom (← s.read none argument) rest
    else if argument = "help".toList then .error (helpOn rest)
    else
      match Verb.ofName? argument with
      | some v => readRequest s v rest
      | none => do readFrom (← s.read none argument) rest

def parse (arguments : List (List Char)) : Except UsageError Request := readFrom {} arguments

example : parse ["run".toList, "f".toList, "-i1,-2".toList, "--debug".toList] =
    .ok { task := .run [1, -2], file := "f".toList, debug := true, interval := none } := by rfl
example : parse ["paint".toList, "f".toList, "--start".toList, "--nope".toList] =
    .error (.unknownArgument "--nope".toList) := by rfl
example : parse ["arcade".toList, "--quarters".toList, "--debug".toList] =
    .error (.missingValue .quarters) := by rfl
example : parse ["--".toList, "run".toList] = .error (.unknownArgument "run".toList) := by rfl

end Intcode.CommandLine
