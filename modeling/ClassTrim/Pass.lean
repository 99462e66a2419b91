import ClassTrim.ClassGroup
import ClassTrim.Event
import ClassTrim.Settings

/-!
# Passes

A pass changes a class group, either one method at a time or as a whole. All
passes of a run share one state: the events recorded so far, the methods that
were modified, and the methods on which a pass failed. Passes from outside the
library may keep a memory of their own type in it; the passes of the library work
with any.

A pass answers with the changed method or group, or with nothing if it changed
nothing. A fault stands beside the state that it left, since what a pass recorded
before it failed stays recorded.
-/

namespace ClassTrim

/-- The state that the passes of one run share. -/
structure RunState (σ : Type) where
  events : EventLog
  /-- The methods whose body some pass changed, each once. -/
  modified : List MethodRef
  /-- The methods on which some pass failed, each once. -/
  failed : List MethodRef
  /-- What the passes remember. -/
  memory : σ

namespace RunState

variable {σ : Type}

/-- Nothing has happened. -/
def start (memory : σ) : RunState σ :=
  ⟨[], [], [], memory⟩

/-- Records events, in order. -/
def record (state : RunState σ) (events : EventLog) : RunState σ :=
  { state with events := state.events ++ events }

/-- Records that a pass changed a method. -/
def markModified (state : RunState σ) (method : MethodRef) : RunState σ :=
  { state with modified := state.modified.insert method }

/-- Records that a pass failed on a method. -/
def markFailed (state : RunState σ) (method : MethodRef) : RunState σ :=
  { state with failed := state.failed.insert method }

/-- Whether some pass changed a method. -/
def isModified (state : RunState σ) (method : MethodRef) : Bool :=
  method ∈ state.modified

/-- Whether some pass failed on a method. -/
def isFailed (state : RunState σ) (method : MethodRef) : Bool :=
  method ∈ state.failed

end RunState

/-- A step of a run: an answer or a fault, and the state after it. -/
abbrev RunStep (σ α : Type) := RunState σ → Except Fault α × RunState σ

/-- The step that does nothing. -/
def RunStep.idle {σ α : Type} (answer : α) : RunStep σ α :=
  fun state => (.ok answer, state)

/-- A transformation of class groups. -/
structure Pass (σ : Type) where
  name : String
  description : String := "No description available"
  /-- Whether the pass works on the group as a whole. -/
  isGlobal : Bool := false
  /-- Whether the pass wants to see a method of a class. -/
  accepts : ClassDecl → MethodDecl → Bool := fun _ method => method.body.isSome
  /-- Works on one method of the class of a name. -/
  onMethod : Settings → String → MethodDecl → RunStep σ (Option MethodDecl)
  /-- Works on the whole group. -/
  onGroup : Settings → ClassGroup → RunStep σ (Option ClassGroup) := fun _ _ => .idle none
  /-- Runs before the passes of each round. -/
  before : RunStep σ Unit := .idle ()
  /-- Runs after the passes of each round. -/
  after : RunStep σ Unit := .idle ()

end ClassTrim
