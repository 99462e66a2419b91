import Mathlib.Data.List.Permutation
import ClassTrim.Proofs.Retirement.Moves

/-!
# Branches land where they did

A branch leads to a program counter, and lands on the first instruction that has it. A session
never deletes an instruction at a program counter that some branch led to when the session began,
whether or not that branch is still there. What it inserts shares the program counter of the
instruction that it is inserted behind, so it does not come first.
-/

namespace ClassTrim

namespace Body

variable {body : Body} {instruction : Instruction} {pc : Nat}

/-- The targets of a body are those that its branches name. -/
theorem mem_branchTargets :
    pc ∈ body.branchTargets ↔
      ∃ branch ∈ body.instructions, branch.op.branchTarget? = some pc := by
  simp [branchTargets]

/-- The instruction on which a branch to a program counter lands. -/
def landing? (body : Body) (pc : Nat) : Option Instruction :=
  body.instructions.find? (·.pc = pc)

/-- Erasing an instruction concerns no other program counter. -/
theorem landing?_erase (member : instruction ∈ body.instructions)
    (elsewhere : instruction.pc ≠ pc) :
    (body.erase instruction.id).landing? pc = body.landing? pc := by
  obtain ⟨front, rear, split⟩ := List.append_of_mem member
  rw [landing?, landing?, instructions_erase split, split, List.find?_append, List.find?_append,
    List.find?_cons_of_neg (by simpa using elsewhere)]

/-- What is spliced in stands behind an instruction with the same program counter. -/
theorem landing?_splice (member : instruction ∈ body.instructions) (op : Op) :
    (body.splice instruction.id op).landing? pc = body.landing? pc := by
  obtain ⟨front, rear, split⟩ := List.append_of_mem member
  rw [landing?, landing?, instructions_splice split, split, List.find?_append, List.find?_append]
  by_cases here : instruction.pc = pc
  · rw [List.find?_cons_of_pos (by simpa using here), List.find?_cons_of_pos (by simpa using here)]
  · rw [List.find?_cons_of_neg (by simpa using here), List.find?_cons_of_neg (by simpa using here),
      List.find?_cons_of_neg (by simpa using here)]

end Body

namespace Session

variable {session next earlier later : Session}

/-- What branches led to in an earlier session is untouched in a later one. -/
structure Spares (earlier later : Session) : Prop where
  targets : later.targets = earlier.targets
  kept : ∀ {instruction}, instruction ∈ earlier.body.instructions →
    instruction.pc ∈ earlier.targets → instruction ∈ later.body.instructions
  landing : ∀ {pc}, pc ∈ earlier.targets → later.body.landing? pc = earlier.body.landing? pc
  /-- What the report has come to list was not a target. -/
  listed : ∀ {instruction}, instruction ∈ later.report.removed →
    instruction ∈ earlier.report.removed ∨ instruction.pc ∉ earlier.targets

namespace Spares

/-- Nothing is touched where nothing happens. -/
theorem refl (session : Session) : session.Spares session :=
  ⟨rfl, fun member _ => member, fun _ => rfl, .inl⟩

/-- What two changes spare, they spare together. -/
theorem trans (first : earlier.Spares session) (second : session.Spares later) :
    earlier.Spares later where
  targets := second.targets.trans first.targets
  kept := by
    intro instruction member aimed
    exact second.kept (first.kept member aimed) (first.targets ▸ aimed)
  landing := by
    intro pc aimed
    rw [second.landing (first.targets ▸ aimed), first.landing aimed]
  listed := by
    intro instruction member
    rcases second.listed member with between | unaimed
    · exact first.listed between
    · exact .inr (first.targets ▸ unaimed)

/-- Dropping an instruction that no branch leads to is harmless, whatever becomes of the graph. -/
theorem drop {instruction : Instruction} (member : instruction ∈ session.body.instructions)
    (unaimed : session.isTarget instruction = false) (graph : Graph) :
    session.Spares ((session.withGraph graph).drop instruction) := by
  have elsewhere : instruction.pc ∉ session.targets := by simpa [isTarget] using unaimed
  constructor
  · rfl
  · intro other inside aimed
    -- An instruction that shares its identity with the dropped one is the dropped one.
    refine (Body.mem_erase member).mpr ⟨inside, fun same => elsewhere ?_⟩
    rwa [← Body.eq_of_id_eq inside member same]
  · intro pc aimed
    exact Body.landing?_erase member fun here => elsewhere (here ▸ aimed)
  · intro other listed
    rcases List.mem_append.mp listed with before | new
    · exact .inl before
    · rw [List.mem_singleton.mp new]
      exact .inr elsewhere

end Spares

/-- No edit touches what branches lead to. -/
theorem Move.spares (move : session.Move next) : session.Spares next := by
  cases move with
  | delete member unaimed => exact .drop member unaimed _
  | collapse member unaimed => exact .drop member unaimed _
  | discard member released =>
    constructor
    · rfl
    · intro other inside _
      exact (Body.mem_splice member).mpr (.inl inside)
    · intro pc _
      exact Body.landing?_splice member _
    · exact .inl

/-- A removal touches nothing that branches lead to, whatever its outcome, and reports nothing of
the kind. -/
theorem spares_remove (session : Session) (target : InstructionId) :
    session.Spares (session.remove target).2 ∧
      ∀ report, (session.remove target).1 = .ok report → ∀ instruction ∈ report.removed,
        instruction ∈ session.report.removed ∨ instruction.pc ∉ session.targets := by
  obtain ⟨settled, spares, ⟨fault, failed⟩ | succeeded⟩ :=
    exists_settled_remove (motive := session.Spares) target
      (fun move spares => spares.trans move.spares) (.refl session)
  · rw [failed]
    exact ⟨spares, nofun⟩
  · rw [succeeded]
    refine ⟨⟨spares.targets, spares.kept, spares.landing, nofun⟩, ?_⟩
    rintro report handed instruction member
    cases handed
    exact spares.listed member

/-- Removals one after the other, successful or not. -/
def removals (session : Session) (targets : List InstructionId) : Session :=
  targets.foldl (fun session target => (session.remove target).2) session

/-- No sequence of removals touches what branches lead to, successful or not. -/
theorem spares_removals (session : Session) (targets : List InstructionId) :
    session.Spares (session.removals targets) := by
  induction targets generalizing session with
  | nil => exact .refl session
  | cons target rest ih => exact (spares_remove session target).1.trans (ih _)

/-- Branches keep landing where they did. After any removals in a session, the first instruction at
a program counter that a branch of the body led to is the same as in the beginning. Instructions
at this program counter are never deleted, those included that were inserted there: what is in the
body stays there, and no report lists one. -/
theorem branches_land {body : Body} {branch : Instruction} {pc : Nat} (simulation : Simulation)
    (member : branch ∈ body.instructions) (leads : branch.op.branchTarget? = some pc)
    (targets : List InstructionId) :
    ((start body simulation).removals targets).body.landing? pc = body.landing? pc ∧
      (∀ more, ∀ instruction ∈ ((start body simulation).removals targets).body.instructions,
        instruction.pc = pc → instruction ∈
          (((start body simulation).removals targets).removals more).body.instructions) ∧
      (∀ instruction ∈ ((start body simulation).removals targets).report.removed,
        instruction.pc ≠ pc) ∧
      ∀ target report,
        (((start body simulation).removals targets).remove target).1 = .ok report →
          ∀ instruction ∈ report.removed, instruction.pc ≠ pc := by
  have aimed : pc ∈ (start body simulation).targets :=
    Body.mem_branchTargets.mpr ⟨branch, member, leads⟩
  have spares := spares_removals (start body simulation) targets
  generalize (start body simulation).removals targets = session at spares
  have still : pc ∈ session.targets := spares.targets ▸ aimed
  have unlisted : ∀ instruction ∈ session.report.removed, instruction.pc ≠ pc := by
    rintro instruction listed rfl
    rcases spares.listed listed with initially | unaimed
    · cases initially
    · exact unaimed aimed
  refine ⟨spares.landing aimed, ?_, unlisted, ?_⟩
  · rintro more instruction inside rfl
    exact (spares_removals session more).kept inside still
  · rintro target report handed instruction listed rfl
    rcases (spares_remove session target).2 report handed instruction listed with before | unaimed
    · exact unlisted instruction before rfl
    · exact unaimed still

/-- An object is allocated and stored, again and again. -/
def cellLoop : Body :=
  .ofPlaced 1 [(.new "Cell", 0), (.store .reference 0, 3), (.goto 0, 4)]

/-- Without the store, the object is discarded by an instruction at the program counter of the
allocation. The loop goes on with the allocation, and the new instruction cannot be removed. -/
theorem branches_land_cellLoop :
    ∃ simulation, Simulation.run (.empty 0 1) cellLoop = .ok simulation ∧
      (((start cellLoop simulation).removals [1]).body.instructions.map fun instruction =>
        (instruction.id, instruction.pc)) = [(0, 0), (3, 0), (2, 4)] ∧
      ((start cellLoop simulation).removals [1]).body.landing? 0 = cellLoop.landing? 0 ∧
      (((start cellLoop simulation).removals [1]).remove 3).1 = .error (.branchTarget "pop" 0) := by
  have path : ∃ simulation, Simulation.run (.empty 0 1) cellLoop = .ok simulation ∧
      (((start cellLoop simulation).removals [1]).body.instructions.map fun instruction =>
        (instruction.id, instruction.pc)) = [(0, 0), (3, 0), (2, 4)] ∧
      (((start cellLoop simulation).removals [1]).remove 3).1 = .error (.branchTarget "pop" 0) :=
    ⟨_, rfl, by cbv, by cbv⟩
  obtain ⟨simulation, ran, left, refused⟩ := path
  have aims : (⟨2, 4, .goto 0⟩ : Instruction) ∈ cellLoop.instructions := by decide
  exact ⟨simulation, ran, left, (branches_land simulation aims rfl [1]).1, refused⟩

end Session

end ClassTrim
