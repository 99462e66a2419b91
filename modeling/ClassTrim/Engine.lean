import ClassTrim.Pass.Library
import ClassTrim.Pipeline

/-!
# The engine

The engine trims a class group with the passes that its settings choose: unused
methods, unused fields, dead stores, and then the passes registered with it.
Removing a method can leave fields without use, and removing a store can leave a
value without a taker, so the passes run in rounds.
-/

namespace ClassTrim

/-- Settings and the passes to run. -/
structure Engine (σ : Type) where
  settings : Settings
  passes : List (Pass σ)

namespace Engine

variable {σ : Type}

/-- The engine with the passes of the library that settings choose. -/
def ofSettings (settings : Settings) : Engine σ :=
  { settings
    passes :=
      (if settings.cleanup.unusedMethods then [Pass.unusedMethods] else []) ++
      (if settings.cleanup.unusedFields then [Pass.unusedFields] else []) ++
      (if settings.deadStores then [Pass.deadStores] else []) }

/-- Adds a pass behind the others. -/
def register (engine : Engine σ) (pass : Pass σ) : Engine σ :=
  { engine with passes := engine.passes ++ [pass] }

/-- The names of the passes, in order. -/
def passNames (engine : Engine σ) : List String :=
  engine.passes.map Pass.name

/-- Trims a group. The passes begin with the given memory; the events are those of
this run only. The proposed schedule is followed if the settings leave the order of the
classes open. -/
def process (engine : Engine σ) (proposed : Schedule) (group : ClassGroup) (memory : σ) :
    Outcome σ ClassGroup Account :=
  let outcome := Pipeline.run engine.settings engine.passes proposed
    engine.settings.maxIterations group (.start memory)
  { outcome with
    verdict := outcome.verdict.map fun iterations =>
      { events := outcome.state.events, iterations } }

end Engine

end ClassTrim
