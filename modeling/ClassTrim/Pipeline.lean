import ClassTrim.Pass
import ClassTrim.Schedule

/-!
# Pipelines

A pipeline runs its passes in rounds, each pass once in a round and in order,
until a round changes nothing or the number of rounds is used up.

A pass that works on methods visits the classes in the order that a schedule gives
and in each class the methods that it accepts, in the order of their declaration; a
method on which a pass has failed is not visited again. A failure is recorded as a
warning and the method stays as it was, unless the settings say that the first
failure ends the run. A breach of contract is an error of the pass and always ends
it, and so does work that broke off.

A run that ends early keeps what it has done: the outcome holds the group and the
state as they were then.
-/

namespace ClassTrim

/-- What a run made of its subject, the state after it, and how it ended. -/
structure Outcome (σ α β : Type) where
  subject : α
  state : RunState σ
  verdict : Except Fault β

namespace Pipeline

variable {σ : Type}

/-- The warning that a pass failed on a method. -/
def failureWarning (pass : Pass σ) (method : MethodRef) (fault : Fault) : Event :=
  Event.about .warning method (pass.name ++ " failed: " ++ fault.message)

/-- Visits methods of the class of a name; a method is left alone unless it is
selected. -/
def visitMethods (settings : Settings) (pass : Pass σ) (owner : String)
    (methods : List (MethodDecl × Bool)) (state : RunState σ) :
    Outcome σ (List MethodDecl) Bool :=
  match methods with
  | [] => ⟨[], state, .ok false⟩
  | (method, false) :: rest =>
    let tail := visitMethods settings pass owner rest state
    { tail with subject := method :: tail.subject }
  | (method, true) :: rest =>
    match pass.onMethod settings owner method state with
    | (.ok change, next) =>
      let tail := visitMethods settings pass owner rest next
      { tail with
        subject := change.getD method :: tail.subject
        verdict := tail.verdict.map (change.isSome || ·) }
    | (.error fault, next) =>
      if fault.isFatal || !settings.continueOnError then
        ⟨method :: rest.map Prod.fst, next, .error fault⟩
      else
        let reference := method.reference owner
        let warned := (next.record [failureWarning pass reference fault]).markFailed reference
        let tail := visitMethods settings pass owner rest warned
        { tail with subject := method :: tail.subject }

/-- Visits the methods of a class. Which ones are visited is decided before the
first of them is. -/
def visitClass (settings : Settings) (pass : Pass σ) (decl : ClassDecl) (state : RunState σ) :
    Outcome σ ClassDecl Bool :=
  let selected := decl.methods.map fun method =>
    (method, !state.isFailed (method.reference decl.name) && pass.accepts decl method)
  let visited := visitMethods settings pass decl.name selected state
  { visited with subject := { decl with methods := visited.subject } }

/-- Visits the classes at given positions, one after the other. -/
def visitClasses (settings : Settings) (pass : Pass σ) (positions : List Nat)
    (classes : List ClassDecl) (state : RunState σ) : Outcome σ (List ClassDecl) Bool :=
  match positions with
  | [] => ⟨classes, state, .ok false⟩
  | position :: rest =>
    match classes[position]? with
    | none => visitClasses settings pass rest classes state
    | some decl =>
      let visited := visitClass settings pass decl state
      let next := classes.set position visited.subject
      match visited.verdict with
      | .error fault => ⟨next, visited.state, .error fault⟩
      | .ok changed =>
        let tail := visitClasses settings pass rest next visited.state
        { tail with verdict := tail.verdict.map (changed || ·) }

/-- Runs one pass over a group. -/
def runPass (settings : Settings) (pass : Pass σ) (order : VisitOrder) (group : ClassGroup)
    (state : RunState σ) : Outcome σ ClassGroup Bool :=
  if pass.isGlobal then
    match pass.onGroup settings group state with
    | (.error fault, next) => ⟨group, next, .error fault⟩
    | (.ok change, next) => ⟨change.getD group, next, .ok change.isSome⟩
  else
    let visited := visitClasses settings pass (order.positions group.classes.length) group.classes
      state
    { visited with subject := ⟨visited.subject⟩ }

/-- Runs passes over a group, one after the other and each in its order. -/
def runPasses (settings : Settings) (passes : List (Pass σ)) (orders : Nat → VisitOrder)
    (group : ClassGroup) (state : RunState σ) : Outcome σ ClassGroup Bool :=
  match passes with
  | [] => ⟨group, state, .ok false⟩
  | pass :: rest =>
    let first := runPass settings pass (orders 0) group state
    match first.verdict with
    | .error fault => { first with verdict := .error fault }
    | .ok changed =>
      let tail := runPasses settings rest (fun later => orders (later + 1)) first.subject
        first.state
      { tail with verdict := tail.verdict.map (changed || ·) }

/-- Takes steps in order, up to the first fault. -/
def runSteps (steps : List (RunStep σ Unit)) : RunStep σ Unit :=
  match steps with
  | [] => .idle ()
  | step :: rest => fun state =>
    match step state with
    | (.error fault, next) => (.error fault, next)
    | (.ok (), next) => runSteps rest next

/-- Runs one round, and tells whether it changed anything. -/
def runRound (settings : Settings) (passes : List (Pass σ)) (orders : Nat → VisitOrder)
    (group : ClassGroup) (state : RunState σ) : Outcome σ ClassGroup Bool :=
  match runSteps (passes.map Pass.before) state with
  | (.error fault, next) => ⟨group, next, .error fault⟩
  | (.ok (), next) =>
    let outcome := runPasses settings passes orders group next
    match outcome.verdict with
    | .error fault => { outcome with verdict := .error fault }
    | .ok changed =>
      match runSteps (passes.map Pass.after) outcome.state with
      | (.error fault, last) => ⟨outcome.subject, last, .error fault⟩
      | (.ok (), last) => ⟨outcome.subject, last, .ok changed⟩

/-- Runs at most `rounds` more rounds after `finished` ones, each as it is scheduled. -/
def runRounds (settings : Settings) (passes : List (Pass σ)) (schedule : Schedule)
    (finished : Nat) : Nat → ClassGroup → RunState σ → Outcome σ ClassGroup Nat
  | 0, group, state => ⟨group, state, .ok finished⟩
  | rounds + 1, group, state =>
    let round := runRound settings passes (schedule finished) group state
    match round.verdict with
    | .error fault => { round with verdict := .error fault }
    | .ok false => { round with verdict := .ok (finished + 1) }
    | .ok true =>
      runRounds settings passes schedule (finished + 1) rounds round.subject round.state

/-- The number of rounds of a pipeline for which none is given. -/
def defaultRounds : Nat := 10

/-- Runs passes over a group until a round changes nothing, for at most a number of
rounds. The verdict is the number of rounds made. -/
def run (settings : Settings) (passes : List (Pass σ)) (proposed : Schedule) (rounds : Nat)
    (group : ClassGroup) (state : RunState σ) : Outcome σ ClassGroup Nat :=
  runRounds settings passes (settings.plan proposed) 0 rounds group state

end Pipeline

end ClassTrim
