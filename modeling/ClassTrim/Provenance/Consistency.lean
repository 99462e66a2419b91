import ClassTrim.Provenance.Graph

/-!
# Consistency of provenance graphs

The check walks the live contexts and then the live values, in the order of
their identities, and reports the first edge that one of its ends does not know.
-/

namespace ClassTrim.Graph

/-- What is wrong with one pop of a live context. -/
def inspectPop (graph : Graph) (id : ContextId) (value : ValueId) : Option Inconsistency :=
  match graph.value? value with
  | none => some (.popsUnknown id value)
  | some node => if id ∈ node.poppedBy then none else some (.missingConsumer id value)

/-- What is wrong with one push of a live context. -/
def inspectPush (graph : Graph) (id : ContextId) (value : ValueId) : Option Inconsistency :=
  match graph.value? value with
  | none => some (.pushesUnknown id value)
  | some node =>
    if node.pushedBy = id then none else some (.otherProducer id value node.pushedBy)

/-- What is wrong with the edges of a context, as the context records them. -/
def inspectContext (graph : Graph) (id : ContextId) : Option Inconsistency :=
  match graph.context? id with
  | none => none
  | some context =>
    if context.live then
      (context.pops.findSome? (graph.inspectPop id)).or
        (context.pushes.findSome? (graph.inspectPush id))
    else none

/-- What is wrong with one live consumer of a value. -/
def inspectConsumer (graph : Graph) (value : ValueId) (id : ContextId) : Option Inconsistency :=
  if (graph.context? id).any (value ∈ ·.pops) then none else some (.strayConsumer value id)

/-- What is wrong with the edges of a value, as the value records them. -/
def inspectValue (graph : Graph) (value : ValueId) : Option Inconsistency :=
  match graph.value? value with
  | none => none
  | some node =>
    if node.live then
      match graph.context? node.pushedBy with
      | none => some (.unknownProducer value)
      | some producer =>
        if value ∈ producer.pushes then
          (graph.liveConsumers value).findSome? (graph.inspectConsumer value)
        else some (.missingPush value node.pushedBy)
    else none

/-- The first inconsistency of a graph, contexts before values. -/
def inconsistency? (graph : Graph) : Option Inconsistency :=
  ((List.range graph.contexts.size).findSome? graph.inspectContext).or
    ((List.range graph.values.size).findSome? graph.inspectValue)

/-- Checks that every live edge is recorded at both of its ends. -/
def check (graph : Graph) : Except Fault Unit :=
  match graph.inconsistency? with
  | none => .ok ()
  | some found => .error (.malformed (.graph found))

end ClassTrim.Graph
