import ClassTrim.Frame
import ClassTrim.Provenance.Graph
import ClassTrim.Simulation.Fold

/-!
# Simulating one instruction

A simulation is a frame together with the provenance graph of what happened in
it. Every push and every pop changes the stack and the graph at once, on behalf
of one context, so the two cannot disagree.

An instruction opens a context, pops and pushes as its operation does, and says
whether the stack held enough. A fault leaves the simulation as it was when the
fault was met: the context stays, with the values popped so far.
-/

namespace ClassTrim

/-- A frame and the record of what happened in it. -/
structure Simulation where
  frame : Frame
  graph : Graph
deriving DecidableEq

namespace Simulation

/-- A simulation in which nothing has happened. -/
def start (frame : Frame) : Simulation :=
  ⟨frame, .empty⟩

/-- The identity of the next context. -/
def nextContext (simulation : Simulation) : ContextId :=
  simulation.graph.contexts.size

/-- The identity of the next value. -/
def nextValue (simulation : Simulation) : ValueId :=
  simulation.graph.values.size

/-- Opens a context for an instruction; its identity is the simulation's next
one. -/
def openContext (simulation : Simulation) (instruction : Instruction) : Simulation :=
  { simulation with graph := simulation.graph.openContext instruction simulation.frame.id }

/-- Pops the top of the stack on behalf of a context. -/
def pop? (simulation : Simulation) (context : ContextId) : Option (ValueId × Simulation) :=
  match simulation.frame.stack with
  | [] => none
  | value :: rest =>
    some (value,
      { frame := { simulation.frame with stack := rest }
        graph := simulation.graph.recordPop context value })

/-- Pushes a new value on behalf of a context; its identity is the simulation's
next one. -/
def push (simulation : Simulation) (context : ContextId) (content : Content) : Simulation :=
  { frame := { simulation.frame with stack := simulation.nextValue :: simulation.frame.stack }
    graph := simulation.graph.recordPush context content }

/-- Stores in a local slot. -/
def store (simulation : Simulation) (index : Nat) (slot : Slot) : Simulation :=
  { simulation with
    frame := { simulation.frame with locals := simulation.frame.locals.write index slot } }

/-- Pops the top of the stack on behalf of a context and goes on with it. On an empty
stack nothing more is done, and the answer is `false`. -/
def popThen (simulation : Simulation) (context : ContextId)
    (next : ValueId → Simulation → Bool × Simulation) : Bool × Simulation :=
  match simulation.pop? context with
  | none => (false, simulation)
  | some (value, rest) => next value rest

/-- Pops a number of values, or as many as there are; tells whether there were
enough. -/
def popMany (simulation : Simulation) (context : ContextId) : Nat → Bool × Simulation
  | 0 => (true, simulation)
  | count + 1 => simulation.popThen context fun _ rest => rest.popMany context count

/-- What a load finds in a slot: its content, or an unknown value of the default
type where the content does not fit. -/
def loaded (locals : Locals) (kind : LocalKind) (index : UInt16) : Content :=
  match locals.read index.toNat with
  | some slot => if kind.fits slot.content.type then slot.content else .unknown kind.defaultType
  | none => .unknown kind.defaultType

/-- What an operation does on behalf of its context: each kind pops and pushes in its
own way. The answer is `false` if the stack ran out before the operation was done. -/
def perform (simulation : Simulation) (context : ContextId) (op : Op) : Bool × Simulation :=
  match op with
  | .nop | .goto _ | .ret none => (true, simulation)
  | .aconstNull => (true, simulation.push context ⟨.null, .null⟩)
  | .ldc constant => (true, simulation.push context (.ofConstant constant))
  | .load kind index => (true, simulation.push context (loaded simulation.frame.locals kind index))
  | .store _ index =>
    simulation.popThen context fun stored rest =>
      (true, rest.store index.toNat ⟨rest.graph.content stored, some stored⟩)
  | .arith operation kind =>
    simulation.popThen context fun right rest =>
      if operation.operands = 2 then
        rest.popThen context fun left last =>
          let folded := fold operation kind (some (last.graph.content left).value)
            (last.graph.content right).value
          (true, last.push context ⟨kind.type, folded⟩)
      else
        let folded := fold operation kind none (rest.graph.content right).value
        (true, rest.push context ⟨kind.type, folded⟩)
  | .pop | .pop2 | .field .putStatic _ | .ret (some _) | .athrow =>
    simulation.popThen context fun _ rest => (true, rest)
  | .dup | .dup2 =>
    simulation.popThen context fun source rest =>
      let copied := rest.graph.content source
      (true, (rest.push context copied).push context copied)
  | .new className => (true, simulation.push context (.unknown (.ref className)))
  | .field .getField target =>
    simulation.popThen context fun _ rest => (true, rest.push context (.unknown target.type))
  | .field .putField _ =>
    simulation.popThen context fun _ rest => rest.popThen context fun _ last => (true, last)
  | .field .getStatic target => (true, simulation.push context (.unknown target.type))
  | .invoke _ target =>
    match simulation.popMany context op.effect.pops, target.descriptor.result with
    | (true, rest), some result => (true, rest.push context (.unknown result))
    | popped, _ => popped
  | .branch condition _ => simulation.popMany context condition.operands

/-- Whether the top of the stack is a value that fills one slot only. -/
def hasNarrowTop (simulation : Simulation) : Bool :=
  match simulation.frame.stack with
  | [] => false
  | value :: _ => !(simulation.graph.content value).type.isWide

/-- An operation that has no form for its operand type. -/
def formFault? (instruction : Instruction) : Option Fault :=
  match instruction.op with
  | .arith operation kind =>
    if operation.isIntegralOnly && kind.isFloating then
      some (.unsupported (.noFloatingForm operation kind instruction.pc))
    else none
  | _ => none

/-- Executes an instruction. The context that it opens is the simulation's next
one. -/
def execute (simulation : Simulation) (instruction : Instruction) :
    Except Fault ContextId × Simulation :=
  match formFault? instruction with
  | some fault => (.error fault, simulation)
  | none =>
    let context := simulation.nextContext
    let opened := simulation.openContext instruction
    if instruction.op.needsWideTop && opened.hasNarrowTop then
      (.error (.unsupported (.narrowOperand instruction.mnemonic instruction.pc)), opened)
    else
      match opened.perform context instruction.op with
      | (true, done) => (.ok context, done)
      | (false, rest) => (.error (.stackUnderflow instruction.mnemonic instruction.pc), rest)

end Simulation

end ClassTrim
