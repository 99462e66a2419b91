import ClassTrim.Retirement
import ClassTrim.Simulation.Run

/-!
# Dead stores

Two kinds of instruction have an effect that nothing observes: a store to a local
slot that no load of the body reads, and a `pop` of a value that a duplication or
an instruction without side effects made. Elimination retires the first of them,
simulates the edited body again, and goes on until none is left.

A simulation follows the order of the instructions, so only bodies without
branches can be treated.
-/

namespace ClassTrim.DeadStore

/-- The local slots that some load of a body reads. -/
def readSlots (body : Body) : List UInt16 :=
  body.instructions.filterMap (·.op.loadedIndex?)

/-- Whether the producer of a value can be retired together with a `pop` of it. -/
def isPointless (body : Body) (graph : Graph) (value : ValueId) : Bool :=
  match graph.producer? value with
  | none => false
  | some producer =>
    producer.duplication ||
      (body.get? producer.instruction).any fun instruction => !instruction.op.hasSideEffect

/-- Whether nothing observes what an instruction does. -/
def isDead (body : Body) (graph : Graph) (instruction : Instruction) : Bool :=
  match instruction.op with
  | .store _ index => index ∉ readSlots body
  | .pop | .pop2 => (graph.popsOf instruction.id).head?.any (isPointless body graph)
  | _ => false

/-- The first instruction of a body that nothing observes. -/
def candidate? (body : Body) (graph : Graph) : Option InstructionId :=
  (body.instructions.find? (isDead body graph)).map Instruction.id

/-- Retires candidates, at most `limit` of them, simulating the body in a frame
before each. -/
def eliminateIn (frame : Frame) : Nat → Body → Except Fault (Body × List Report)
  | 0, body => .ok (body, [])
  | limit + 1, body =>
    match Simulation.run frame body with
    | .error fault => .error fault
    | .ok simulation =>
      match candidate? body simulation.graph with
      | none => .ok (body, [])
      | some id =>
        match (Session.start body simulation).remove id with
        | (.error fault, _) => .error fault
        | (.ok report, session) =>
          match eliminateIn frame limit session.body with
          | .error fault => .error fault
          | .ok (last, reports) => .ok (last, report :: reports)

/-- Eliminates at most `limit` dead stores from a method of a class. The result is
the new body with a report for each removal, or nothing if there was nothing to
remove. A frame is needed only if something may be removed. -/
def eliminate (owner : String) (method : MethodDecl) (limit : Nat) :
    Except Fault (Option (Body × List Report)) :=
  match method.body with
  | none => .ok none
  | some body =>
    if body.hasBranches then
      .error (.unsupported (.needsStraightLine (method.reference owner)))
    else if limit = 0 then .ok none
    else
      match Frame.forMethod 0 (some owner) method with
      | .error fault => .error fault
      | .ok frame =>
        match eliminateIn frame limit body with
        | .error fault => .error fault
        | .ok (_, []) => .ok none
        | .ok (last, reports) => .ok (some (last, reports))

end ClassTrim.DeadStore
