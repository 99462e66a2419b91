import Mathlib.Logic.Relation
import ClassTrim.Proofs.Retirement.Steps

/-!
# What a removal may do to any session

A removal never asks whether the body and the graph of its session belong together. Whatever they
are, it is made of edits of three kinds. An instruction that no branch leads to is deleted, and all
of its contexts are detached. A duplication that no branch leads to is taken out, after those who
took one of its copies have been given the value that was copied. Or an instruction is inserted
behind one that stays. Meeting a fault changes nothing, so a removal that fails has made some of
these edits and no other change.
-/

namespace ClassTrim.Session

/-- One edit, as a removal makes it in any session. -/
inductive Move (session : Session) : Session → Prop
  | delete {instruction : Instruction} (member : instruction ∈ session.body.instructions)
      (unaimed : session.isTarget instruction = false) :
      Move session
        ((session.withGraph ((session.graph.liveContextsOf instruction.id).foldl Graph.detach
          session.graph)).drop instruction)
  | collapse {duplication : Instruction} {released source survivor : ValueId} {place : ContextId}
      {rewired : Graph} (member : duplication ∈ session.body.instructions)
      (unaimed : session.isTarget duplication = false)
      (known : session.graph.copies duplication released = .ok (place, source, survivor))
      (done : session.graph.rewire survivor source (session.graph.liveConsumers survivor) =
        .ok rewired) :
      Move session (session.collapsed duplication place rewired)
  | discard {producer : Instruction} (member : producer ∈ session.body.instructions)
      (released : ValueId) : Move session (session.discarded producer released)

/-- One edit, or none. -/
abbrev MayMove : Session → Session → Prop :=
  Relation.ReflGen Move

/-- Any number of edits. -/
abbrev Moves : Session → Session → Prop :=
  Relation.ReflTransGen Move

variable {session next : Session} {id : InstructionId} {value : ValueId}

/-- A deletion is refused and changes nothing, or it is one edit. -/
theorem mayMove_of_delete {verdict : Except Fault (List ValueId)}
    (deleted : session.delete id = (verdict, next)) : MayMove session next := by
  simp only [Session.delete] at deleted
  split at deleted
  · cases deleted
    exact .refl
  · next instruction present =>
    split at deleted
    · cases deleted
      exact .refl
    · next unaimed =>
      split at deleted
      · cases deleted
        exact .refl
      · cases deleted
        obtain ⟨member, rfl⟩ := Body.get?_eq_some_iff.mp present
        exact .single (.delete member (Bool.eq_false_iff.mpr unaimed))

/-- A duplication stays as it is, or it is taken out. -/
theorem mayMove_of_collapse {duplication : Instruction} {verdict : Except Fault Decision}
    (member : duplication ∈ session.body.instructions)
    (collapsed : session.collapse duplication value = (verdict, next)) :
    MayMove session next := by
  unfold Session.collapse at collapsed
  split at collapsed
  · cases collapsed
    exact .refl
  · next known =>
    split at collapsed
    · cases collapsed
      exact .refl
    · split at collapsed
      · cases collapsed
        exact .refl
      · next unaimed =>
        split at collapsed
        · cases collapsed
          exact .refl
        · next done =>
          cases collapsed
          exact .single (.collapse member (Bool.eq_false_iff.mpr unaimed) known done)

/-- Retiring a producer on account of a value of the graph leaves the session as it is, or takes
one edit. -/
theorem mayMove_of_prepare {verdict : Except Fault Decision}
    (inside : value < session.graph.values.size)
    (prepared : session.prepare id value = (verdict, next)) :
    MayMove session next := by
  unfold prepare at prepared
  split at prepared
  · cases prepared
    exact .refl
  · next instruction present =>
    obtain ⟨member, rfl⟩ := Body.get?_eq_some_iff.mp present
    split at prepared
    · exact mayMove_of_collapse member prepared
    · split at prepared
      · rw [discard_eq member, if_pos inside] at prepared
        cases prepared
        exact .single (.discard member value)
      · cases prepared
        exact .refl

/-- Settling is made of edits, whether it ends well or not. -/
theorem moves_settle (session : Session) (waiting : List ValueId) :
    Moves session (session.settle waiting).2 := by
  induction session, waiting using settle.induct with
  | case1 session =>
    rw [settle]
  | case2 session value rest settled ih =>
    rw [settle_cons, settled]
    exact ih
  | case3 session value rest producer stranded fault failed prepared =>
    rw [settle_cons, stranded]
    simp only [prepared]
    exact (mayMove_of_prepare (Graph.lt_size_of_stranded stranded) prepared).to_reflTransGen
  | case4 session value rest producer stranded next prepared bound ih =>
    rw [settle_cons, stranded]
    simp only [prepared]
    exact (mayMove_of_prepare (Graph.lt_size_of_stranded stranded) prepared).to_reflTransGen.trans
      ih
  | case5 session value rest producer stranded unchanged prepared fault failed deleted =>
    rw [settle_cons, stranded]
    simp only [prepared, deleted]
    exact (mayMove_of_delete deleted).to_reflTransGen
  | case6 session value rest producer stranded unchanged prepared freed next deleted bound ih =>
    rw [settle_cons, stranded]
    simp only [prepared, deleted]
    exact (mayMove_of_delete deleted).to_reflTransGen.trans ih

/-- What every edit keeps, any number of edits keep. -/
theorem Moves.keeps {motive : Session → Prop} (moves : Moves session next)
    (moved : ∀ {session next : Session}, session.Move next → motive session → motive next)
    (initially : motive session) : motive next := by
  induction moves with
  | refl => exact initially
  | tail _ move ih => exact moved move ih

/-- What every edit keeps holds when a removal ends, in whichever way it ends. Only success clears
the report, after handing it over. -/
theorem exists_settled_remove {motive : Session → Prop} (target : InstructionId)
    (moved : ∀ {session next : Session}, session.Move next → motive session → motive next)
    (initially : motive session) :
    ∃ settled, motive settled ∧
      ((∃ fault, session.remove target = (.error fault, settled)) ∨
        session.remove target = (.ok settled.report, { settled with report := .empty })) := by
  cases first : session.delete target with
  | mk verdict deleted =>
    have began : Moves session deleted := (mayMove_of_delete first).to_reflTransGen
    cases verdict with
    | error fault =>
      exact ⟨deleted, began.keeps moved initially, .inl ⟨fault, by simp [remove, first]⟩⟩
    | ok freed =>
      have ended : Moves session (deleted.settle freed).2 :=
        began.trans (moves_settle deleted freed)
      refine ⟨(deleted.settle freed).2, ended.keeps moved initially, ?_⟩
      cases rest : deleted.settle freed with
      | mk outcome settled =>
        cases outcome with
        | error fault => exact .inl ⟨fault, by simp [remove, first, rest]⟩
        | ok => exact .inr (by simp [remove, first, rest])

end ClassTrim.Session
