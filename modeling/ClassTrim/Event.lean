import ClassTrim.Member
import ClassTrim.Text.Elapsed

/-!
# Events

Every change to a class group is recorded as an event, and so is every method
that could not be treated. A log is a list of events in the order of recording;
its tally counts them by kind.
-/

namespace ClassTrim

/-- What an event reports. -/
inductive EventKind where
  | fieldRemoved
  | methodRemoved
  | instructionRemoved
  | instructionInserted
  /-- Something was not treated because of a fault. -/
  | warning
deriving DecidableEq

namespace EventKind

/-- The name of a kind. -/
def name : EventKind → String
  | .fieldRemoved => "field removed"
  | .methodRemoved => "method removed"
  | .instructionRemoved => "instruction removed"
  | .instructionInserted => "instruction inserted"
  | .warning => "warning"

/-- All kinds. -/
def all : List EventKind :=
  [.fieldRemoved, .methodRemoved, .instructionRemoved, .instructionInserted, .warning]

end EventKind

/-- One recorded event. -/
structure Event where
  kind : EventKind
  method : Option MethodRef := none
  /-- The program counter inside the method. -/
  pc : Option Nat := none
  message : String := ""
deriving DecidableEq

namespace Event

/-- An event about a method as a whole. -/
def about (kind : EventKind) (method : MethodRef) (message : String) : Event :=
  { kind, method := some method, message }

/-- An event about an instruction of a method. -/
def inside (kind : EventKind) (method : MethodRef) (pc : Nat) (message : String) : Event :=
  { kind, method := some method, pc := some pc, message }

/-- Where an event happened. A program counter means nothing without a method. -/
def place (event : Event) : String :=
  match event.method, event.pc with
  | none, _ => ""
  | some method, none => " " ++ method.render
  | some method, some pc => " " ++ method.render ++ "@" ++ Nat.repr pc

/-- The text of an event. -/
def render (event : Event) : String :=
  "[" ++ event.kind.name ++ "]" ++ event.place ++
    if event.message.isEmpty then "" else " " ++ event.message

end Event

/-- A log, the earliest event first. -/
abbrev EventLog := List Event

namespace EventLog

/-- The number of events of a kind. -/
def count (log : EventLog) (kind : EventKind) : Nat :=
  log.countP (·.kind = kind)

/-- Whether there is an event of a kind. -/
def has (log : EventLog) (kind : EventKind) : Bool :=
  log.any (·.kind = kind)

/-- The number of events of every kind. -/
def counts (log : EventLog) : List (EventKind × Nat) :=
  EventKind.all.map fun kind => (kind, count log kind)

end EventLog

/-- The number of changes of each kind, and of warnings. -/
structure Tally where
  fieldsRemoved : Nat
  methodsRemoved : Nat
  instructionsRemoved : Nat
  instructionsInserted : Nat
  warnings : Nat
deriving DecidableEq

namespace Tally

/-- The tally of a log. -/
def ofLog (log : EventLog) : Tally :=
  { fieldsRemoved := EventLog.count log .fieldRemoved
    methodsRemoved := EventLog.count log .methodRemoved
    instructionsRemoved := EventLog.count log .instructionRemoved
    instructionsInserted := EventLog.count log .instructionInserted
    warnings := EventLog.count log .warning }

/-- Whether nothing changed; warnings change nothing. -/
def isEmpty (tally : Tally) : Bool :=
  tally.fieldsRemoved = 0 && tally.methodsRemoved = 0 && tally.instructionsRemoved = 0 &&
    tally.instructionsInserted = 0

/-- The counts that are not zero, each with what it counts. -/
def parts (tally : Tally) : List String :=
  ([(tally.fieldsRemoved, "fields removed"),
    (tally.methodsRemoved, "methods removed"),
    (tally.instructionsRemoved, "instructions removed"),
    (tally.instructionsInserted, "instructions inserted"),
    (tally.warnings, "warnings")].filter fun (count, _) => 0 < count).map
      fun (count, label) => Nat.repr count ++ " " ++ label

/-- The text of a tally. -/
def render (tally : Tally) : String :=
  if tally.isEmpty && tally.warnings = 0 then "No changes"
  else ", ".intercalate tally.parts

end Tally

/-- The account of one run. -/
structure Account where
  events : EventLog
  /-- The rounds made, including the last one, which changed nothing. -/
  iterations : Nat := 0
  /-- How long the run took. -/
  nanoseconds : Nat := 0
deriving DecidableEq

namespace Account

/-- The tally of the run's events. -/
def tally (account : Account) : Tally :=
  .ofLog account.events

/-- Whether the run changed anything. -/
def changed (account : Account) : Bool :=
  !account.tally.isEmpty

/-- The account in one line. -/
def summary (account : Account) : String :=
  account.tally.render

/-- The account in several lines: time and rounds, the summary, and the number of
events of every kind. -/
def detailed (account : Account) : String :=
  let head := "Deobfuscation complete in " ++ Text.Elapsed.render account.nanoseconds ++ " (" ++
    Nat.repr account.iterations ++ " iterations)"
  let counts := (EventLog.counts account.events).map fun (kind, count) =>
    "  " ++ kind.name ++ ": " ++ Nat.repr count
  String.join ((head :: ("  " ++ account.summary) :: counts).map (· ++ "\n"))

end Account

end ClassTrim
