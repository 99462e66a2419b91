import ClassTrim.Provenance.Graph

/-!
# Questions about duplications

A duplication pops one value and pushes two copies of it. Asked for a value that
it pushed, it tells which value it copied, and which copy is the other one. Any
other question breaks the contract.
-/

namespace ClassTrim.Graph

/-- The context in which an instruction pushed a value. -/
def ownContext (graph : Graph) (asked : Instruction) (value : ValueId) :
    Except Fault (ContextId × Context) :=
  match graph.value? value with
  | none => .error (.contractViolation (.noSuchValue value))
  | some node =>
    match graph.context? node.pushedBy with
    | none => .error (.contractViolation (.noProducer value))
    | some context =>
      if context.instruction = asked.id && value ∈ context.pushes then
        .ok (node.pushedBy, context)
      else
        .error (.contractViolation
          (.foreignValue value context.mnemonic context.pc asked.mnemonic asked.pc))

/-- The value that a duplication copied to make a value. -/
def copied (graph : Graph) (duplication : Instruction) (value : ValueId) :
    Except Fault ValueId :=
  match graph.ownContext duplication value with
  | .error fault => .error fault
  | .ok (id, context) =>
    match context.pops with
    | [] => .error (.contractViolation (.poppedNothing id duplication.pc))
    | source :: _ => .ok source

/-- The other copy that a duplication made together with a value. -/
def otherCopy (graph : Graph) (duplication : Instruction) (value : ValueId) :
    Except Fault ValueId :=
  match graph.ownContext duplication value with
  | .error fault => .error fault
  | .ok (_, context) =>
    match context.pushes with
    | [first, second] =>
      if value = first then .ok second
      else if value = second then .ok first
      else .error (.contractViolation (.notPushed value))
    | pushes =>
      .error (.contractViolation
        (.notTwoPushes duplication.mnemonic duplication.pc pushes.length))

/-- The context in which a duplication pushed a value, the value that it copied,
and the other copy. -/
def copies (graph : Graph) (duplication : Instruction) (value : ValueId) :
    Except Fault (ContextId × ValueId × ValueId) := do
  let (context, _) ← graph.ownContext duplication value
  let source ← graph.copied duplication value
  let other ← graph.otherCopy duplication value
  return (context, source, other)

end ClassTrim.Graph
