/-!
# Settings

What a run may do and when it stops. Unused methods are kept unless asked for:
they can be reached by reflection or from outside the group, which no analysis of
the group can see.
-/

namespace ClassTrim

/-- Which unused members are removed. -/
structure Cleanup where
  unusedFields : Bool := true
  unusedMethods : Bool := false
deriving DecidableEq

namespace Cleanup

/-- Nothing is removed. -/
def disabled : Cleanup :=
  { unusedFields := false, unusedMethods := false }

/-- Everything unused is removed. -/
def aggressive : Cleanup :=
  { unusedMethods := true }

/-- Whether anything is removed. -/
def isEnabled (cleanup : Cleanup) : Bool :=
  cleanup.unusedFields || cleanup.unusedMethods

end Cleanup

/-- The settings of a run. -/
structure Settings where
  /-- The number of rounds after which a run stops in any case. -/
  maxIterations : Nat := 10
  /-- The number of dead stores eliminated from one method in one round. -/
  maxRemovals : Nat := 10000
  /-- Whether a method that cannot be treated is left alone instead of ending the
  run. -/
  continueOnError : Bool := true
  /-- Whether classes may be visited in another order than they were loaded in. -/
  parallel : Bool := true
  deadStores : Bool := true
  cleanup : Cleanup := {}
deriving DecidableEq

namespace Settings

/-- Classes are visited in load order. -/
def sequential : Settings :=
  { parallel := false }

/-- More rounds, and everything unused is removed. -/
def aggressive : Settings :=
  { maxIterations := 25, cleanup := .aggressive }

/-- Chooses the passes. -/
def withPasses (settings : Settings) (unusedFields unusedMethods deadStores : Bool) : Settings :=
  { settings with deadStores, cleanup := { unusedFields, unusedMethods } }

/-- Whether every pass is chosen. -/
def hasAllPasses (settings : Settings) : Bool :=
  settings.cleanup.unusedFields && settings.cleanup.unusedMethods && settings.deadStores

end Settings

end ClassTrim
