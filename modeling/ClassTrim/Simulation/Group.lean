import ClassTrim.Event
import ClassTrim.Settings
import ClassTrim.Simulation.Run

/-!
# Simulating a class group

Every method with a body is simulated on its own. A method that cannot be
simulated ends the whole, or is skipped with a warning if the settings say so.
Faults are looked at when all methods have been simulated, so a simulation that
breaks off comes before any other fault.
-/

namespace ClassTrim

/-- The simulations of the methods of a group. -/
structure GroupSimulation where
  /-- The methods that were simulated, each once; of several methods with one
  reference the last one counts. -/
  methods : List (MethodRef × Simulation)
  /-- The methods that could not be simulated. -/
  skipped : List MethodRef
  events : EventLog

namespace GroupSimulation

/-- Nothing simulated. -/
def empty : GroupSimulation :=
  ⟨[], [], []⟩

/-- The simulation of a method, if there is one. -/
def get? (simulations : GroupSimulation) (method : MethodRef) : Option Simulation :=
  simulations.methods.lookup method

/-- Adds a simulation, in the place of an earlier one of the same method. -/
def add (simulations : GroupSimulation) (method : MethodRef) (simulation : Simulation) :
    GroupSimulation :=
  { simulations with
    methods := simulations.methods.filter (·.1 ≠ method) ++ [(method, simulation)] }

/-- Skips a method because of a fault. -/
def skip (simulations : GroupSimulation) (method : MethodRef) (fault : Fault) :
    GroupSimulation :=
  { simulations with
    skipped := simulations.skipped ++ [method]
    events := simulations.events ++
      [Event.about .warning method ("analysis skipped: " ++ fault.message)] }

/-- Collects what came of simulating methods, in order. -/
def collect (settings : Settings) (simulations : GroupSimulation) :
    List (MethodRef × Except Fault Simulation) → Except Fault GroupSimulation
  | [] => .ok simulations
  | (method, .ok simulation) :: rest => collect settings (simulations.add method simulation) rest
  | (method, .error fault) :: rest =>
    if settings.continueOnError then collect settings (simulations.skip method fault) rest
    else .error fault

/-- The fault with which a simulation broke off, if it did. -/
def crash? : Except Fault Simulation → Option Fault
  | .error fault => if fault.isCrash then some fault else none
  | .ok _ => none

/-- Simulates every method of a group that has a body. -/
def run (settings : Settings) (group : ClassGroup) : Except Fault GroupSimulation :=
  let results := (group.methods.filter (·.2.body.isSome)).map fun (decl, method) =>
    (method.reference decl.name, Simulation.runMethod (some decl.name) method)
  match results.findSome? fun (_, result) => crash? result with
  | some fault => .error fault
  | none => collect settings .empty results

end GroupSimulation

end ClassTrim
