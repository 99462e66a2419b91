import ClassTrim.Provenance.Duplication
import ClassTrim.Provenance.Source
import ClassTrim.Simulation.Step

/-!
# Retiring instructions

Deleting an instruction from a body can strand the values that it popped: their
producers now push something that nobody takes. A session deletes an instruction
and then settles every value that lost its last consumer:

* a producer without side effects is deleted too, and what it popped is settled
  in turn;
* a duplication of which the other copy is still taken disappears, and the takers
  of that copy take the duplicated value instead;
* a producer with side effects stays, and a `pop` or `pop2` takes its value.

An instruction that a branch leads to is never deleted. The graph is edited
together with the body, so a session can retire many instructions without
simulating the body again.

Settling keeps a list of waiting values. Deleting a producer puts what it popped
in front of the list, so the values of one instruction are settled, with all that
follows from them, before the values of an earlier one. Each deletion detaches a
context that has pushed something, and nothing makes such a context, so the work
ends.
-/

namespace ClassTrim

/-- What a removal changed. -/
structure Report where
  /-- The instructions deleted, in order of deletion. -/
  removed : List Instruction
  /-- The identities of the instructions inserted, in order of insertion. -/
  inserted : List InstructionId
deriving DecidableEq

namespace Report

/-- Nothing changed. -/
def empty : Report :=
  ⟨[], []⟩

/-- Whether nothing changed. -/
def isEmpty (report : Report) : Bool :=
  report.removed.isEmpty && report.inserted.isEmpty

/-- The identities of the instructions deleted. -/
def removedIds (report : Report) : List InstructionId :=
  report.removed.map Instruction.id

/-- Adds a deleted instruction. -/
def addRemoved (report : Report) (instruction : Instruction) : Report :=
  { report with removed := report.removed ++ [instruction] }

/-- Adds an inserted instruction. -/
def addInserted (report : Report) (id : InstructionId) : Report :=
  { report with inserted := report.inserted ++ [id] }

end Report

/-- How the producer of a value without takers is retired. -/
inductive Decision where
  /-- The producer is to be deleted like any instruction. -/
  | delete
  /-- Nothing is left to do. -/
  | handled
deriving DecidableEq

/-- A body that is being edited, with the simulation that was made of it. -/
structure Session where
  body : Body
  simulation : Simulation
  /-- The program counters that branches led to when the session began. -/
  targets : List Nat
  /-- What has changed since the last successful removal. -/
  report : Report
deriving DecidableEq

namespace Session

/-- Begins to edit a body. -/
def start (body : Body) (simulation : Simulation) : Session :=
  ⟨body, simulation, body.branchTargets, .empty⟩

/-- The provenance graph of the session. -/
def graph (session : Session) : Graph :=
  session.simulation.graph

/-- The session with another graph. -/
def withGraph (session : Session) (graph : Graph) : Session :=
  { session with simulation := { session.simulation with graph } }

/-- Whether a branch leads to an instruction. -/
def isTarget (session : Session) (instruction : Instruction) : Bool :=
  instruction.pc ∈ session.targets

/-- Drops an instruction from the body and reports it. -/
def drop (session : Session) (instruction : Instruction) : Session :=
  { session with
    body := session.body.erase instruction.id
    report := session.report.addRemoved instruction }

/-- Deletes one instruction and returns the values that it popped. Nothing may
take what it pushed. -/
def delete (session : Session) (id : InstructionId) : Except Fault (List ValueId) × Session :=
  match session.body.get? id with
  | none => (.error (.instructionNotFound id), session)
  | some instruction =>
    if session.isTarget instruction then
      (.error (.branchTarget instruction.mnemonic instruction.pc), session)
    else
      let takers := session.graph.takerCount id
      if 0 < takers then
        (.error (.illegalRemoval instruction.mnemonic instruction.pc takers), session)
      else
        let contexts := session.graph.liveContextsOf id
        (.ok (contexts.flatMap session.graph.popsIn),
          (session.withGraph (contexts.foldl Graph.detach session.graph)).drop instruction)

/-- Retires a duplication of which one copy has no taker. -/
def collapse (session : Session) (duplication : Instruction) (released : ValueId) :
    Except Fault Decision × Session :=
  match session.graph.copies duplication released with
  | .error fault => (.error fault, session)
  | .ok (context, source, survivor) =>
    if !session.graph.hasLiveConsumers survivor then (.ok .delete, session)
    else if session.isTarget duplication then
      (.error (.branchTarget duplication.mnemonic duplication.pc), session)
    else
      match session.graph.rewire survivor source (session.graph.liveConsumers survivor) with
      | .error fault => (.error fault, session)
      | .ok rewired => (.ok .handled, (session.withGraph (rewired.detach context)).drop duplication)

/-- The operation that takes a value of a type and does nothing with it. -/
def discardOp (type : StackType) : Op :=
  if type.isWide then .pop2 else .pop

/-- Lets an instruction inserted behind a producer take a value. A value that the graph
does not have cannot be taken: the work breaks off when the instruction stands already. -/
def discard (session : Session) (producer : Instruction) (released : ValueId) :
    Except Fault Decision × Session :=
  let op := discardOp (session.graph.content released).type
  match session.body.insertAfter producer.id op with
  | .error fault => (.error fault, session)
  | .ok body =>
    let inserted : Instruction := ⟨session.body.nextId, producer.pc, op⟩
    let opened := session.graph.openContext inserted session.simulation.frame.id
    let taken := opened.recordPop session.graph.contexts.size released
    let edited := { session.withGraph taken with body }
    if released < session.graph.values.size then
      (.ok .handled, { edited with report := session.report.addInserted inserted.id })
    else (.error (.outOfRange released session.graph.values.size), edited)

/-- Decides how to retire the producer of a value that lost its last taker, and does
it unless the producer is to be deleted. -/
def prepare (session : Session) (id : InstructionId) (released : ValueId) :
    Except Fault Decision × Session :=
  match session.body.get? id with
  | none => (.error (.instructionNotFound id), session)
  | some instruction =>
    if instruction.op.isDuplication then session.collapse instruction released
    else if instruction.op.hasSideEffect then session.discard instruction released
    else (.ok .delete, session)

/-- Retiring a producer in any way leaves no more sources than there were. -/
theorem sourceCount_prepare_le (session next : Session) (id : InstructionId)
    (released : ValueId) (decision : Decision)
    (prepared : session.prepare id released = (.ok decision, next)) :
    next.graph.sourceCount ≤ session.graph.sourceCount := by
  simp only [prepare] at prepared
  split at prepared
  · simp at prepared
  · next instruction _ =>
    split at prepared
    · simp only [collapse] at prepared
      split at prepared
      · simp at prepared
      · next context source survivor _ =>
        split at prepared
        · simp only [Prod.mk.injEq] at prepared
          exact prepared.2 ▸ Nat.le_refl _
        · split at prepared
          · simp at prepared
          · split at prepared
            · simp at prepared
            · next rewired done =>
              simp only [Prod.mk.injEq] at prepared
              rw [← prepared.2]
              exact Nat.le_trans (Graph.sourceCount_detach_le rewired context)
                (Graph.sourceCount_rewire_le _ session.graph rewired survivor source done)
    · split at prepared
      · simp only [discard] at prepared
        split at prepared
        · simp at prepared
        · split at prepared
          · simp only [Prod.mk.injEq] at prepared
            rw [← prepared.2]
            refine Nat.le_trans (Graph.sourceCount_recordPop_le _ _ _) (Nat.le_of_eq ?_)
            exact Graph.sourceCount_openContext _ _ _
          · simp at prepared
      · simp only [Prod.mk.injEq] at prepared
        exact prepared.2 ▸ Nat.le_refl _

/-- Deleting the instruction to retire on account of a value leaves fewer sources. -/
theorem sourceCount_delete_lt (session next : Session) (id : InstructionId) (value : ValueId)
    (freed : List ValueId) (found : session.graph.stranded? value = some id)
    (deleted : session.delete id = (.ok freed, next)) :
    next.graph.sourceCount < session.graph.sourceCount := by
  obtain ⟨context, entry, member, entered, source⟩ := Graph.exists_source_of_stranded found
  simp only [delete] at deleted
  split at deleted
  · simp at deleted
  · split at deleted
    · simp at deleted
    · split at deleted
      · simp at deleted
      · simp only [Prod.mk.injEq] at deleted
        rw [← deleted.2]
        exact Graph.sourceCount_detachAll_lt _ session.graph context entry member entered source

/-- Settles waiting values in order. A fault leaves the session as it was when the
fault was met. -/
def settle (session : Session) (waiting : List ValueId) : Except Fault Unit × Session :=
  match waiting with
  | [] => (.ok (), session)
  | value :: rest =>
    match found : session.graph.stranded? value with
    | none => settle session rest
    | some id =>
      match prepared : session.prepare id value with
      | (.error fault, failed) => (.error fault, failed)
      | (.ok .handled, next) =>
        have := sourceCount_prepare_le session next id value .handled prepared
        settle next rest
      | (.ok .delete, _) =>
        match deleted : session.delete id with
        | (.error fault, failed) => (.error fault, failed)
        | (.ok freed, next) =>
          have := sourceCount_delete_lt session next id value freed found deleted
          settle next (freed ++ rest)
termination_by (session.graph.sourceCount, waiting.length)
decreasing_by
  · exact Prod.Lex.right _ (Nat.lt_succ_self _)
  · rcases Nat.lt_or_eq_of_le this with less | same
    · exact Prod.Lex.left _ _ less
    · rw [same]
      exact Prod.Lex.right _ (Nat.lt_succ_self _)
  · exact Prod.Lex.left _ _ (by assumption)

/-- Removes an instruction and settles the values that it popped. The report of a
success covers everything that changed since the last one. -/
def remove (session : Session) (id : InstructionId) : Except Fault Report × Session :=
  match session.delete id with
  | (.error fault, failed) => (.error fault, failed)
  | (.ok freed, deleted) =>
    match deleted.settle freed with
    | (.error fault, failed) => (.error fault, failed)
    | (.ok (), settled) => (.ok settled.report, { settled with report := .empty })

end Session

end ClassTrim
