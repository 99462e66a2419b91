import Mathlib
import ClassTrim.Proofs.DeadStore.Progress
import ClassTrim.Proofs.Machine.Meaning
import ClassTrim.Proofs.Machine.Valuation

/-!
# Elimination is not observed

A body in which loads find what they need has a meaning, and behaves as the meaning says.
A removal keeps the meaning, and when the body that it leaves is run again, the meaning
passes to the new run through the numbering of the values that are still live. So every
stage of an elimination has a meaning, and all of them tell of the same behaviour.
-/

namespace ClassTrim

open Machine

namespace Session.Means

variable {session : Session} {world : World} {meaning : ValueId → Value} {slots : Slots}
  {observed : List Observation × Ending} {frame : Frame} {body : Body}
  {simulation again : Simulation}

/-- A meaning of a run is one of the session that begins with it. -/
theorem start (ran : Simulation.Recorded body.instructions simulation)
    (valued : Valued world frame body.instructions simulation meaning) :
    (Session.start body simulation).Means world meaning (world.enter frame)
      (account (simulation.graph.operands meaning) [] body.instructions) where
  explains := valued.explains
  accounts := rfl
  wide := by
    intro instruction member value pushed
    have bound := (ran.bounded instruction member).2 value pushed
    rw [Value.isWide, valued.typed value bound, StackType.isWide_kind]
    rfl

/-- The meaning passes to another run of the body through the numbering of live values. -/
theorem rerun (means : session.Means world meaning slots observed)
    (threaded : session.Threaded []) (sound : session.Sound) (fresh : frame.stack = [])
    (ran : Simulation.run frame session.body = .ok again) :
    (Session.start session.body again).Means world (meaning ∘ session.numbering) slots
      observed := by
  have recorded := Simulation.Recorded.run fresh ran
  have threads := threaded.threads sound
  have pushes := recorded.map_image_pushesOf sound.length_pushesOf
  have pops := (recorded.map_image_popsOf threads sound.length_popsOf sound.length_pushesOf).1
  have operands : ∀ instruction ∈ session.body.instructions,
      again.graph.operands (meaning ∘ session.numbering) instruction.id =
        session.graph.operands meaning instruction.id := by
    intro instruction member
    rw [Graph.operands, Graph.operands, ← pops instruction member, List.map_map]
    rfl
  have products : ∀ instruction ∈ session.body.instructions,
      again.graph.products (meaning ∘ session.numbering) instruction.id =
        session.graph.products meaning instruction.id := by
    intro instruction member
    rw [Graph.products, Graph.products, ← pushes instruction member, List.map_map]
    rfl
  refine ⟨means.explains.congr operands products, ?_, ?_⟩
  · exact (account_congr operands).trans means.accounts
  · intro instruction member value pushed
    have wide := recorded.map_isWideValue_pushesOf (threads.map session.simulation.isWideValue)
      (by simpa using sound.length_popsOf) threaded.widths instruction member
    rw [← pushes instruction member, List.map_map] at wide
    have numbered : session.numbering value ∈ session.graph.pushesOf instruction.id := by
      rw [← pushes instruction member]
      exact List.mem_map_of_mem pushed
    have kept := means.wide instruction member (session.numbering value) numbered
    exact kept.trans (List.map_inj_left.mp wide value pushed).symm

/-- Deleting an instruction that is called dead is not observed. -/
theorem deleted_dead
    (means : (Session.start body simulation).Means world meaning slots observed)
    (sound : (Session.start body simulation).Sound) {instruction : Instruction}
    {id : ContextId} {context : Context}
    (deletes : (Session.start body simulation).Deletes instruction id context)
    (dead : DeadStore.isDead body simulation.graph instruction = true) :
    ((Session.start body simulation).deleted instruction id).Means world meaning slots
      observed := by
  rcases DeadStore.unread_or_pure dead with ⟨kind, index, op, unread⟩ | pure
  · exact means.deleted_store sound deletes op unread
  · exact means.deleted sound deletes pure

end Session.Means

namespace DeadStore

variable {world : World} {meaning : ValueId → Value} {slots : Slots}
  {observed : List Observation × Ending} {frame : Frame} {body stage last : Body}
  {simulation : Simulation}

/-- Elimination goes through stages. -/
theorem Staged.eliminateIn {first : Body} {limit : Nat} {reports : List Report}
    (staged : Staged frame first body)
    (eliminated : eliminateIn frame limit body = .ok (last, reports)) :
    Staged frame first last := by
  induction limit generalizing body reports with
  | zero =>
    cases eliminated
    exact staged
  | succ limit ih =>
    simp only [DeadStore.eliminateIn] at eliminated
    split at eliminated
    · cases eliminated
    · next simulation ran =>
      split at eliminated
      · cases eliminated
        exact staged
      · next id found =>
        split at eliminated
        · cases eliminated
        · next report session removed =>
          split at eliminated
          · cases eliminated
          · next rest =>
            cases eliminated
            have further := staged.remove ran found
            rw [removed] at further
            exact ih further rest

/-- Zero, or the null reference. -/
def blank : (kind : LocalKind) → ValueOf kind
  | .int => ⟨.constant (.int 0), rfl⟩
  | .long => ⟨.constant (.long 0), rfl⟩
  | .float => ⟨.constant (.float 0), rfl⟩
  | .double => ⟨.constant (.double 0), rfl⟩
  | .reference => ⟨.null, rfl⟩

end DeadStore

end ClassTrim
