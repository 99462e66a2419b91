import ClassTrim.Fault
import ClassTrim.Provenance.Value

/-!
# Provenance graphs

A graph records one execution context for each execution of an instruction, and
one node for each value ever pushed. An edge is recorded at both ends: a context
lists what it popped and pushed, a node names its producer and its consumers.

Nothing is ever deleted. A context that is detached is marked dead together with
the values that it pushed, and disappears from the consumers of what it popped;
identities stay valid for as long as the graph lives.
-/

namespace ClassTrim

/-- One value that was pushed. -/
structure ValueNode where
  content : Content
  /-- The context that pushed the value. -/
  pushedBy : ContextId
  /-- The contexts that pop the value. -/
  poppedBy : List ContextId
  live : Bool
deriving DecidableEq

/-- One execution of one instruction. -/
structure Context where
  instruction : InstructionId
  pc : Nat
  mnemonic : String
  /-- The frame in which the instruction was executed. -/
  frame : Nat
  /-- What was popped, the top of the stack first. -/
  pops : List ValueId
  /-- What was pushed, in order. -/
  pushes : List ValueId
  duplication : Bool
  live : Bool
deriving DecidableEq

namespace Context

/-- The context of an instruction that has not popped or pushed anything yet. -/
def opened (instruction : Instruction) (frame : Nat) : Context where
  instruction := instruction.id
  pc := instruction.pc
  mnemonic := instruction.mnemonic
  frame := frame
  pops := []
  pushes := []
  duplication := instruction.op.isDuplication
  live := true

/-- Whether the context popped and pushed as many values as an effect states. -/
def fulfils (context : Context) (effect : Effect) : Bool :=
  context.pops.length = effect.pops && context.pushes.length = effect.pushes

/-- Whether a context is live and has pushed something: the contexts that a
retirement may still reach. -/
def isSource (context : Context) : Bool :=
  context.live && !context.pushes.isEmpty

end Context

/-- All values and contexts of one execution. -/
structure Graph where
  values : Array ValueNode
  contexts : Array Context
deriving DecidableEq

namespace Graph

/-- Nothing recorded. -/
def empty : Graph :=
  ⟨#[], #[]⟩

/-- Looks up a value. -/
def value? (graph : Graph) (id : ValueId) : Option ValueNode :=
  graph.values[id]?

/-- Looks up a context. -/
def context? (graph : Graph) (id : ContextId) : Option Context :=
  graph.contexts[id]?

/-- What is known about a value; nothing, for a value that does not exist. -/
def content (graph : Graph) (id : ValueId) : Content :=
  ((graph.value? id).map ValueNode.content).getD (.unknown .object)

/-- Begins a context; its identity is the number of contexts before it. -/
def openContext (graph : Graph) (instruction : Instruction) (frame : Nat) : Graph :=
  { graph with contexts := graph.contexts.push (.opened instruction frame) }

/-- Records that a context pops a value, at both ends of the edge. -/
def recordPop (graph : Graph) (context : ContextId) (value : ValueId) : Graph :=
  { values := graph.values.modify value fun node =>
      { node with poppedBy := node.poppedBy ++ [context] }
    contexts := graph.contexts.modify context fun entry =>
      { entry with pops := entry.pops ++ [value] } }

/-- Records that a context pushes a new value; the value's identity is the number
of values before it. -/
def recordPush (graph : Graph) (context : ContextId) (content : Content) : Graph :=
  { values := graph.values.push ⟨content, context, [], true⟩
    contexts := graph.contexts.modify context fun entry =>
      { entry with pushes := entry.pushes ++ [graph.values.size] } }

/-- The number of contexts that have not been detached. -/
def liveCount (graph : Graph) : Nat :=
  graph.contexts.countP (·.live)

/-- Whether a context exists and has not been detached. -/
def isLive (graph : Graph) (id : ContextId) : Bool :=
  (graph.context? id).any (·.live)

/-- The context that pushed a value. -/
def producer? (graph : Graph) (value : ValueId) : Option Context :=
  (graph.value? value).bind fun node => graph.context? node.pushedBy

/-- The live contexts that pop a value. -/
def liveConsumers (graph : Graph) (value : ValueId) : List ContextId :=
  match graph.value? value with
  | none => []
  | some node => node.poppedBy.filter graph.isLive

/-- Whether some live context pops a value. -/
def hasLiveConsumers (graph : Graph) (value : ValueId) : Bool :=
  !(graph.liveConsumers value).isEmpty

/-- The contexts of an instruction, in order of execution. -/
def contextsOf (graph : Graph) (instruction : InstructionId) : List ContextId :=
  (List.range graph.contexts.size).filter fun id =>
    (graph.context? id).any (·.instruction = instruction)

/-- The first context of an instruction. -/
def contextOf? (graph : Graph) (instruction : InstructionId) : Option Context :=
  (graph.contextsOf instruction).head?.bind graph.context?

/-- The live contexts of an instruction, in order of execution. -/
def liveContextsOf (graph : Graph) (instruction : InstructionId) : List ContextId :=
  (graph.contextsOf instruction).filter graph.isLive

/-- What a context popped; nothing, for a context that does not exist. -/
def popsIn (graph : Graph) (id : ContextId) : List ValueId :=
  ((graph.context? id).map Context.pops).getD []

/-- What a context pushed; nothing, for a context that does not exist. -/
def pushesIn (graph : Graph) (id : ContextId) : List ValueId :=
  ((graph.context? id).map Context.pushes).getD []

/-- What the first context of an instruction popped. -/
def popsOf (graph : Graph) (instruction : InstructionId) : List ValueId :=
  ((graph.contextOf? instruction).map Context.pops).getD []

/-- What the first context of an instruction pushed. -/
def pushesOf (graph : Graph) (instruction : InstructionId) : List ValueId :=
  ((graph.contextOf? instruction).map Context.pushes).getD []

/-- The number of pops by live contexts of what the live contexts of an instruction
pushed. -/
def takerCount (graph : Graph) (instruction : InstructionId) : Nat :=
  (((graph.liveContextsOf instruction).flatMap graph.pushesIn).flatMap
    graph.liveConsumers).length

/-- The instruction that made a value in vain: its producer, if that is live and no
live context pops the value. -/
def stranded? (graph : Graph) (value : ValueId) : Option InstructionId :=
  if graph.hasLiveConsumers value then none
  else
    match graph.producer? value with
    | none => none
    | some context => if context.isSource then some context.instruction else none

/-- The value that a duplication made a value from. -/
def source? (graph : Graph) (value : ValueId) : Option ValueId :=
  match graph.producer? value with
  | none => none
  | some context => if context.duplication then context.pops.head? else none

/-- Follows sources for at most a number of steps. -/
def originWithin (graph : Graph) : Nat → ValueId → ValueId
  | 0, value => value
  | steps + 1, value =>
    match graph.source? value with
    | none => value
    | some source => originWithin graph steps source

/-- The value that a value is a copy of, through any number of duplications. A
source is older than its copies, so as many steps as there are values suffice. -/
def origin (graph : Graph) (value : ValueId) : ValueId :=
  originWithin graph graph.values.size value

/-- Removes a context from the consumers of a value. -/
def dropConsumer (graph : Graph) (context : ContextId) (value : ValueId) : Graph :=
  { graph with
    values := graph.values.modify value fun node =>
      { node with poppedBy := node.poppedBy.filter (· ≠ context) } }

/-- Marks a value dead. -/
def killValue (graph : Graph) (value : ValueId) : Graph :=
  { graph with values := graph.values.modify value fun node => { node with live := false } }

/-- Marks a context and all that it pushed as dead, and removes it from the
consumers of all that it popped. The context keeps its own record. -/
def detach (graph : Graph) (id : ContextId) : Graph :=
  match graph.context? id with
  | none => graph
  | some context =>
    let dead : Graph :=
      { graph with contexts := graph.contexts.modify id fun entry => { entry with live := false } }
    let killed := context.pushes.foldl killValue dead
    context.pops.foldl (fun rest value => rest.dropConsumer id value) killed

/-- Replaces the first occurrence of a value in a list. -/
def replaceFirst (old new : ValueId) : List ValueId → List ValueId
  | [] => []
  | value :: rest => if value = old then new :: rest else value :: replaceFirst old new rest

/-- Makes a context pop one value in the place of another. -/
def substitute (graph : Graph) (id : ContextId) (old new : ValueId) : Except Fault Graph :=
  if old ∈ graph.popsIn id then
    let replaced : Graph :=
      { graph with contexts := graph.contexts.modify id fun entry =>
          { entry with pops := replaceFirst old new entry.pops } }
    let dropped := replaced.dropConsumer id old
    .ok { dropped with values := dropped.values.modify new fun node =>
            { node with poppedBy := node.poppedBy ++ [id] } }
  else .error (.contractViolation (.notPopped id old))

/-- Makes contexts pop one value in the place of another, one context after the
other. -/
def rewire (graph : Graph) (old new : ValueId) : List ContextId → Except Fault Graph
  | [] => .ok graph
  | taker :: rest =>
    match graph.substitute taker old new with
    | .error fault => .error fault
    | .ok changed => changed.rewire old new rest

/-- The number of live contexts that have pushed something. -/
def sourceCount (graph : Graph) : Nat :=
  graph.contexts.countP Context.isSource

end Graph

end ClassTrim
