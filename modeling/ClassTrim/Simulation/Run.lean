import ClassTrim.Simulation.Step

/-!
# Simulating bodies and methods

A body is simulated in the order of its instructions, each once; branches are not
followed. The first fault ends the run.
-/

namespace ClassTrim

namespace Simulation

/-- Executes instructions in order. -/
def runInstructions (simulation : Simulation) : List Instruction → Except Fault Simulation
  | [] => .ok simulation
  | instruction :: rest =>
    match simulation.execute instruction with
    | (.error fault, _) => .error fault
    | (.ok _, next) => next.runInstructions rest

/-- Simulates a body in a frame. -/
def run (frame : Frame) (body : Body) : Except Fault Simulation :=
  (start frame).runInstructions body.instructions

/-- Simulates a method of a class; the class may be unknown. A method without a
body does nothing. -/
def runMethod (owner : Option String) (method : MethodDecl) : Except Fault Simulation :=
  match Frame.forMethod 0 owner method with
  | .error fault => .error fault
  | .ok frame =>
    match method.body with
    | none => .ok (start frame)
    | some body => run frame body

/-- A method with a body runs if it has a frame and the body runs in it. -/
theorem runMethod_eq_ok {owner : Option String} {method : MethodDecl} {body : Body}
    {simulation : Simulation} (given : method.body = some body) :
    runMethod owner method = .ok simulation ↔
      ∃ frame, Frame.forMethod 0 owner method = .ok frame ∧ run frame body = .ok simulation := by
  rw [runMethod, given]
  split
  · next failed => simp [failed]
  · next framed => simp [framed]

end Simulation

end ClassTrim
