import Mathlib.Data.List.Induction
import Mathlib.Data.List.Nodup
import Mathlib.Tactic.Tauto
import ClassTrim.Proofs.Retirement.Atomicity
import ClassTrim.Proofs.Retirement.Landing

/-!
# What a report covers

A report is to list what one removal changed. A session keeps one account of its changes, adds to
it while a removal is under way, and hands it over when a removal succeeds. A removal that fails
half-way hands nothing over, so what it has changed by then stands at the head of the next report.

What a removal really changed is read off the bodies that it passes through: `between` compares
two of them, and `along` goes through all of them in order. The account is never consulted for
this.
-/

namespace ClassTrim

namespace Report

/-- One report behind another. -/
def append (earlier later : Report) : Report :=
  ⟨earlier.removed ++ later.removed, earlier.inserted ++ later.inserted⟩

/-- Several reports, one behind the other. -/
def concat (reports : List Report) : Report :=
  reports.foldr append .empty

/-- What is missing from a later body, and what has come to it. -/
def between (before after : Body) : Report :=
  ⟨before.instructions.filter (· ∉ after.instructions),
    (after.instructions.filter (· ∉ before.instructions)).map Instruction.id⟩

/-- What happened to a body that passed through several stages. -/
def along : List Body → Report
  | first :: second :: rest => (between first second).append (along (second :: rest))
  | _ => .empty

variable {report earlier later : Report}

/-- Nothing in front of a report adds nothing to it. -/
@[simp] theorem empty_append (report : Report) : empty.append report = report := rfl

/-- Nothing behind a report adds nothing to it. -/
@[simp] theorem append_empty (report : Report) : report.append .empty = report := by
  simp [append, empty]

/-- It does not matter which of three reports are joined first. -/
theorem append_assoc (first second third : Report) :
    (first.append second).append third = first.append (second.append third) := by
  simp [append]

/-- What adds nothing in front of a report is empty. -/
theorem append_eq_right : earlier.append later = later ↔ earlier = .empty := by
  cases earlier
  cases later
  simp [append, empty]

/-- What adds nothing behind a report is empty. -/
theorem append_eq_left : earlier.append later = earlier ↔ later = .empty := by
  cases earlier
  cases later
  simp [append, empty]

/-- A last report is joined behind all the others. -/
theorem concat_append (reports : List Report) (report : Report) :
    concat (reports ++ [report]) = (concat reports).append report := by
  induction reports with
  | nil => simp [concat]
  | cons first rest ih =>
    calc concat (first :: (rest ++ [report]))
        = first.append (concat (rest ++ [report])) := rfl
      _ = (first.append (concat rest)).append report := by rw [ih, append_assoc]

/-- Several reports list nothing if none of them does. -/
theorem concat_eq_empty {reports : List Report} :
    concat reports = .empty ↔ ∀ report ∈ reports, report = .empty := by
  induction reports with
  | nil => simp [concat]
  | cons first rest ih =>
    have both : concat (first :: rest) = .empty ↔ first = .empty ∧ concat rest = .empty := by
      show first.append (concat rest) = .empty ↔ _
      cases first
      cases concat rest
      simp [append, empty, and_and_and_comm]
    rw [both, ih, List.forall_mem_cons]

/-- Nothing happens between a body and itself. -/
@[simp] theorem between_self (body : Body) : between body body = .empty := by
  simp [between, empty]

/-- What is missing after a deletion is the deleted instruction, and nothing has come. -/
theorem between_erase {body : Body} {instruction : Instruction}
    (member : instruction ∈ body.instructions) :
    between body (body.erase instruction.id) = ⟨[instruction], []⟩ := by
  obtain ⟨front, rear, split⟩ := List.append_of_mem member
  have erased := Body.instructions_erase split
  have kept : ∀ other ∈ front ++ rear, other ∈ body.instructions := by
    intro other inside
    rw [split]
    simp only [List.mem_append, List.mem_cons] at inside ⊢
    tauto
  have absent : instruction ∉ front ++ rear := by
    intro inside
    rcases List.mem_append.mp inside with before | behind
    · exact Body.id_ne_of_mem_front split before rfl
    · exact Body.id_ne_of_mem_rear split behind rfl
  simp only [between, erased, Report.mk.injEq]
  constructor
  · rw [split, List.filter_append, List.filter_cons_of_pos (by simpa using absent)]
    have before : front.filter (· ∉ front ++ rear) = [] :=
      List.filter_eq_nil_iff.mpr fun other inside => by simp [inside]
    have behind : rear.filter (· ∉ front ++ rear) = [] :=
      List.filter_eq_nil_iff.mpr fun other inside => by simp [inside]
    rw [before, behind, List.nil_append]
  · rw [List.map_eq_nil_iff, List.filter_eq_nil_iff]
    intro other inside
    simp [kept other inside]

/-- What has come after an insertion has the next identity, and nothing is missing. -/
theorem between_splice {body : Body} {instruction : Instruction}
    (member : instruction ∈ body.instructions) (op : Op) :
    between body (body.splice instruction.id op) = ⟨[], [body.nextId]⟩ := by
  obtain ⟨front, rear, split⟩ := List.append_of_mem member
  have spliced := Body.instructions_splice split op
  have new : (⟨body.nextId, instruction.pc, op⟩ : Instruction) ∉ body.instructions :=
    fun inside => body.nextId_not_mem (List.mem_map_of_mem inside)
  simp only [between, Report.mk.injEq]
  constructor
  · rw [List.filter_eq_nil_iff]
    intro other inside
    simp [(Body.mem_splice member).mpr (.inl inside)]
  · have old : ∀ {part : List Instruction}, (∀ other ∈ part, other ∈ body.instructions) →
        part.filter (· ∉ body.instructions) = [] := fun inside =>
      List.filter_eq_nil_iff.mpr fun other listed => by simp [inside other listed]
    rw [spliced, List.filter_append, List.filter_cons_of_neg (by simpa using member),
      List.filter_cons_of_pos (by simpa using new)]
    rw [old fun other before => split ▸ List.mem_append_left _ before,
      old fun other behind => split ▸ List.mem_append_right _ (List.mem_cons_of_mem _ behind)]
    rfl

end Report

namespace Session

variable {session next last : Session} {waiting later freed : List ValueId}
  {id target : InstructionId} {value : ValueId} {fault : Fault} {stages : List Body}
  {changes : List Report} {targets : List InstructionId}

/-- The account of a session has grown by what happened to its body. -/
def Accrues (session next : Session) : Prop :=
  next.report = session.report.append (.between session.body next.body)

/-- Every edit is reported as what it does to the body. -/
theorem Move.accrues (move : session.Move next) : session.Accrues next := by
  cases move with
  | delete member | collapse member =>
    show session.report.addRemoved _ =
      session.report.append (.between session.body (session.body.erase _))
    rw [Report.between_erase member]
    simp [Report.addRemoved, Report.append]
  | discard member released =>
    show session.report.addInserted session.body.nextId =
      session.report.append (.between session.body (session.body.splice _ _))
    rw [Report.between_splice member]
    simp [Report.addInserted, Report.append]

/-- Where nothing is edited nothing is reported. -/
theorem MayMove.accrues (may : MayMove session next) : session.Accrues next := by
  cases may with
  | refl => simp [Accrues]
  | single move => exact move.accrues

/-- A deletion that is refused leaves the session as it was. -/
theorem eq_of_delete_error (refused : session.delete id = (.error fault, next)) :
    next = session := by
  simp only [Session.delete] at refused
  split at refused
  · cases refused
    rfl
  · split at refused
    · cases refused
      rfl
    · split at refused <;> cases refused
      rfl

/-- Retiring a producer on account of a value of the graph may be refused, which changes
nothing. -/
theorem eq_of_prepare_error (inside : value < session.graph.values.size)
    (refused : session.prepare id value = (.error fault, next)) :
    next = session := by
  unfold prepare at refused
  split at refused
  · cases refused
    rfl
  · next instruction present =>
    obtain ⟨member, rfl⟩ := Body.get?_eq_some_iff.mp present
    split at refused
    · unfold Session.collapse at refused
      split at refused
      · cases refused
        rfl
      · split at refused
        · cases refused
        · split at refused
          · cases refused
            rfl
          · split at refused <;> cases refused
            rfl
    · split at refused
      · rw [discard_eq member, if_pos inside] at refused
        cases refused
      · cases refused

/-- What settling does about the first waiting value: the session that this makes, and the values
that wait then. Nothing is done where nothing waits or a fault is met. -/
def advance? (session : Session) : List ValueId → Option (Session × List ValueId)
  | [] => none
  | value :: rest =>
    match session.graph.stranded? value with
    | none => some (session, rest)
    | some id =>
      match session.prepare id value with
      | (.error _, _) => none
      | (.ok .handled, next) => some (next, rest)
      | (.ok .delete, _) =>
        match session.delete id with
        | (.error _, _) => none
        | (.ok freed, next) => some (next, freed ++ rest)

/-- An advance makes one edit at most, and settling goes on from there. -/
theorem settle_of_advance (advances : session.advance? waiting = some (next, later)) :
    MayMove session next ∧ session.settle waiting = next.settle later := by
  cases waiting with
  | nil => cases advances
  | cons value rest =>
    simp only [advance?] at advances
    split at advances
    · next settled =>
      cases advances
      exact ⟨.refl, by simp only [settle_cons, settled]⟩
    · next producer stranded =>
      split at advances
      · cases advances
      · next prepared =>
        cases advances
        exact ⟨mayMove_of_prepare (Graph.lt_size_of_stranded stranded) prepared,
          by simp only [settle_cons, stranded, prepared]⟩
      · next prepared =>
        split at advances
        · cases advances
        · next deleted =>
          cases advances
          exact ⟨mayMove_of_delete deleted,
            by simp only [settle_cons, stranded, prepared, deleted]⟩

/-- Where there is no advance, settling ends and leaves the session as it is. -/
theorem settle_of_halt (ended : session.advance? waiting = none) :
    (session.settle waiting).2 = session := by
  cases waiting with
  | nil => rw [settle]
  | cons value rest =>
    simp only [advance?] at ended
    split at ended
    · cases ended
    · next producer stranded =>
      split at ended
      · next prepared =>
        simp only [settle_cons, stranded, prepared]
        exact eq_of_prepare_error (Graph.lt_size_of_stranded stranded) prepared
      · cases ended
      · next prepared =>
        split at ended
        · next deleted =>
          simp only [settle_cons, stranded, prepared, deleted]
          exact eq_of_delete_error deleted
        · cases ended

/-- The bodies that settling passes through, the given one first. -/
inductive Settling : Session → List ValueId → List Body → Prop
  | halt {session : Session} {waiting : List ValueId} (ended : session.advance? waiting = none) :
      Settling session waiting [session.body]
  | advance {session next : Session} {waiting later : List ValueId} {stages : List Body}
      (advances : session.advance? waiting = some (next, later))
      (rest : Settling next later stages) : Settling session waiting (session.body :: stages)

/-- The bodies that a removal passes through, the given one first. -/
inductive Removing (session : Session) (target : InstructionId) : List Body → Prop
  | refused {fault : Fault} (refused : session.delete target = (.error fault, session)) :
      Removing session target [session.body]
  | begun {next : Session} {freed : List ValueId} {stages : List Body}
      (deleted : session.delete target = (.ok freed, next))
      (settling : Settling next freed stages) : Removing session target (session.body :: stages)

/-- Settling passes through some sequence of bodies. -/
theorem exists_settling (session : Session) (waiting : List ValueId) :
    ∃ stages, Settling session waiting stages := by
  induction session, waiting using settle.induct with
  | case1 session => exact ⟨_, .halt rfl⟩
  | case2 session value rest settled ih =>
    obtain ⟨stages, settling⟩ := ih
    exact ⟨_, .advance (by simp [advance?, settled]) settling⟩
  | case3 session value rest producer stranded fault failed prepared =>
    exact ⟨_, .halt (by simp [advance?, stranded, prepared])⟩
  | case4 session value rest producer stranded next prepared bound ih =>
    obtain ⟨stages, settling⟩ := ih
    exact ⟨_, .advance (by simp [advance?, stranded, prepared]) settling⟩
  | case5 session value rest producer stranded unchanged prepared fault failed deleted =>
    exact ⟨_, .halt (by simp [advance?, stranded, prepared, deleted])⟩
  | case6 session value rest producer stranded unchanged prepared freed next deleted bound ih =>
    obtain ⟨stages, settling⟩ := ih
    exact ⟨_, .advance (by simp [advance?, stranded, prepared, deleted]) settling⟩

/-- A removal passes through some sequence of bodies. -/
theorem exists_removing (session : Session) (target : InstructionId) :
    ∃ stages, session.Removing target stages := by
  cases first : session.delete target with
  | mk verdict next =>
    cases verdict with
    | error fault =>
      cases eq_of_delete_error first
      exact ⟨_, .refused first⟩
    | ok freed =>
      obtain ⟨stages, settling⟩ := exists_settling next freed
      exact ⟨_, .begun first settling⟩

namespace Settling

/-- Settling passes through one sequence of bodies only. -/
theorem unique {others : List Body} (settling : Settling session waiting stages)
    (again : Settling session waiting others) : others = stages := by
  induction settling generalizing others with
  | halt ended =>
    cases again with
    | halt => rfl
    | advance advances => cases ended.symm.trans advances
  | advance advances _ ih =>
    cases again with
    | halt ended => cases ended.symm.trans advances
    | advance advancesAgain rest =>
      cases advances.symm.trans advancesAgain
      rw [ih rest]

/-- The last body that settling passes through is the one that it leaves. -/
theorem getLast?_eq (settling : Settling session waiting stages) :
    stages.getLast? = some (session.settle waiting).2.body := by
  induction settling with
  | halt ended => rw [settle_of_halt ended, List.getLast?_singleton]
  | advance advances _ ih =>
    rw [List.getLast?_cons, ih, Option.getD_some, (settle_of_advance advances).2]

/-- What happened up to the first body comes before what settling does. -/
theorem along_cons (settling : Settling session waiting stages) (before : Body) :
    Report.along (before :: stages) =
      (Report.between before session.body).append (Report.along stages) := by
  cases settling <;> rfl

/-- Settling adds to the account what happens to the body. -/
theorem report_settle (settling : Settling session waiting stages) :
    (session.settle waiting).2.report = session.report.append (.along stages) := by
  induction settling with
  | halt ended => simp [settle_of_halt ended, Report.along]
  | advance advances rest ih =>
    obtain ⟨may, goesOn⟩ := settle_of_advance advances
    rw [goesOn, ih, may.accrues, rest.along_cons, Report.append_assoc]

end Settling

namespace Removing

/-- A removal passes through one sequence of bodies only. -/
theorem unique {others : List Body} (removing : session.Removing target stages)
    (again : session.Removing target others) : others = stages := by
  cases removing with
  | refused refused =>
    cases again with
    | refused => rfl
    | begun deleted => cases refused.symm.trans deleted
  | begun deleted settling =>
    cases again with
    | refused refused => cases refused.symm.trans deleted
    | begun deletedAgain settlingAgain =>
      cases deleted.symm.trans deletedAgain
      rw [settling.unique settlingAgain]

/-- The bodies that a removal passes through are given by the session and the target. -/
theorem iff_eq (removing : session.Removing target stages) (others : List Body) :
    session.Removing target others ↔ others = stages :=
  ⟨removing.unique, fun same => same ▸ removing⟩

/-- The last body that a removal passes through is the one that it leaves. -/
theorem getLast?_eq (removing : session.Removing target stages) :
    stages.getLast? = some (session.remove target).2.body := by
  cases removing with
  | refused refused => simp [remove, refused]
  | @begun next freed stages deleted settling =>
    rw [List.getLast?_cons, settling.getLast?_eq, Option.getD_some]
    cases rest : next.settle freed with
    | mk verdict settled =>
      cases verdict with
      | error fault => simp [remove, deleted, rest]
      | ok => simp [remove, deleted, rest]

/-- A removal adds to the account what it does to the body, and clears the account only after it
has handed it over. -/
theorem report_remove (removing : session.Removing target stages) :
    (∀ report, (session.remove target).1 = .ok report →
      report = session.report.append (.along stages) ∧
        (session.remove target).2.report = .empty) ∧
    ∀ fault, (session.remove target).1 = .error fault →
      (session.remove target).2.report = session.report.append (.along stages) := by
  cases removing with
  | refused refused => simp [remove, refused, Report.along]
  | @begun next freed stages deleted settling =>
    have account : (next.settle freed).2.report =
        session.report.append (.along (session.body :: stages)) := by
      rw [settling.report_settle, (mayMove_of_delete deleted).accrues, settling.along_cons,
        Report.append_assoc]
    cases rest : next.settle freed with
    | mk verdict settled =>
      rw [rest] at account
      dsimp only at account
      cases verdict with
      | error fault => simp [remove, deleted, rest, account]
      | ok => simp [remove, deleted, rest, account, eq_comm]

end Removing

/-- Removals that fail one after the other, with what each of them did to the body. -/
inductive Failing (session : Session) : List InstructionId → List Report → Session → Prop
  | none : Failing session [] [] session
  | next {last : Session} {targets : List InstructionId} {changes : List Report}
      {target : InstructionId} {fault : Fault} {stages : List Body}
      (failing : Failing session targets changes last)
      (failed : (last.remove target).1 = .error fault) (removing : last.Removing target stages) :
      Failing session (targets ++ [target]) (changes ++ [.along stages]) (last.remove target).2

/-- Reports of removals that fail pile up, in the order of the removals. -/
theorem Failing.report_eq (failing : session.Failing targets changes last) :
    last.report = session.report.append (.concat changes) := by
  induction failing with
  | none => simp [Report.concat]
  | next _ failed removing ih =>
    rw [removing.report_remove.2 _ failed, ih, Report.concat_append, Report.append_assoc]

/-- An edit does not bring back what is gone. -/
theorem Gone.move (gone : session.Gone target) (move : session.Move next) : next.Gone target := by
  cases move with
  | delete member | collapse member =>
    exact ⟨gone.1, fun other inside => gone.2 other ((Body.mem_erase member).mp inside).1⟩
  | discard member released =>
    refine ⟨Nat.lt_succ_of_lt gone.1, fun other inside => ?_⟩
    rcases (Body.mem_splice member).mp inside with old | rfl
    · exact gone.2 other old
    · exact (Nat.ne_of_lt gone.1).symm

/-- What the account lists as deleted is gone, and it lists nothing twice. -/
structure Tidy (session : Session) : Prop where
  removed : session.report.removedIds.Nodup
  gone : ∀ id ∈ session.report.removedIds, session.Gone id
  inserted : session.report.inserted.Nodup
  issued : ∀ id ∈ session.report.inserted, id < session.body.nextId

namespace Tidy

/-- An account that lists nothing is tidy. -/
theorem unreported (nothing : session.report = .empty) : session.Tidy := by
  constructor <;> simp [nothing, Report.empty, Report.removedIds]

/-- Every edit keeps the account tidy. -/
theorem move (tidy : session.Tidy) (move : session.Move next) : next.Tidy := by
  have stillGone : ∀ id ∈ session.report.removedIds, next.Gone id :=
    fun id listed => (tidy.gone id listed).move move
  cases move with
  | @delete instruction member | @collapse instruction _ _ _ _ _ member =>
    have ids : (session.report.addRemoved instruction).removedIds =
        session.report.removedIds ++ [instruction.id] := by
      simp [Report.addRemoved, Report.removedIds]
    refine ⟨?_, ?_, tidy.inserted, tidy.issued⟩
    · show (session.report.addRemoved instruction).removedIds.Nodup
      rw [ids]
      refine List.nodup_append.mpr ⟨tidy.removed, List.nodup_singleton _, ?_⟩
      rintro id listed _ last rfl
      rw [List.mem_singleton.mp last] at listed
      exact (tidy.gone _ listed).2 instruction member rfl
    · show ∀ id ∈ (session.report.addRemoved instruction).removedIds, _
      rw [ids]
      intro id listed
      rcases List.mem_append.mp listed with earlier | last
      · exact stillGone id earlier
      · rw [List.mem_singleton.mp last]
        exact ⟨session.body.issued instruction member,
          fun _ inside => ((Body.mem_erase member).mp inside).2⟩
  | discard =>
    refine ⟨tidy.removed, stillGone, ?_, ?_⟩
    · refine List.nodup_append.mpr ⟨tidy.inserted, List.nodup_singleton _, ?_⟩
      rintro id listed _ last rfl
      rw [List.mem_singleton.mp last] at listed
      exact Nat.lt_irrefl _ (tidy.issued _ listed)
    · intro id listed
      rcases List.mem_append.mp listed with earlier | last
      · exact Nat.lt_succ_of_lt (tidy.issued id earlier)
      · rw [List.mem_singleton.mp last]
        exact Nat.lt_succ_self _

/-- A removal lists nothing twice, together with what was left to report before it. -/
theorem remove (tidy : session.Tidy) (target : InstructionId) :
    (session.remove target).2.Tidy ∧ ∀ report, (session.remove target).1 = .ok report →
      report.removedIds.Nodup ∧ report.inserted.Nodup := by
  obtain ⟨settled, kept, ⟨fault, failed⟩ | succeeded⟩ :=
    exists_settled_remove (motive := Tidy) target (fun move tidy => tidy.move move) tidy
  · rw [failed]
    exact ⟨kept, nofun⟩
  · rw [succeeded]
    refine ⟨.unreported rfl, ?_⟩
    rintro report handed
    cases handed
    exact ⟨kept.removed, kept.inserted⟩

end Tidy

/-- The last of several removals starts where the others have led. -/
theorem removals_concat (session : Session) (targets : List InstructionId)
    (target : InstructionId) :
    session.removals (targets ++ [target]) = ((session.removals targets).remove target).2 := by
  simp [removals]

/-- Removals keep the account tidy, whether they succeed or fail. -/
theorem tidy_removals (tidy : session.Tidy) (targets : List InstructionId) :
    (session.removals targets).Tidy := by
  induction targets using List.reverseRecOn with
  | nil => exact tidy
  | append_singleton targets target ih =>
    rw [removals_concat]
    exact (ih.remove target).1

/-- Every sequence of removals ends with those that failed since the last success. -/
theorem exists_failing (session : Session) (targets : List InstructionId) :
    ∃ before since changes, targets = before ++ since ∧
      (before = [] ∨ ∃ earlier last report, before = earlier ++ [last] ∧
        ((session.removals earlier).remove last).1 = .ok report) ∧
      (session.removals before).Failing since changes (session.removals targets) := by
  induction targets using List.reverseRecOn with
  | nil => exact ⟨[], [], [], rfl, .inl rfl, .none⟩
  | append_singleton targets target ih =>
    cases outcome : ((session.removals targets).remove target).1 with
    | ok report =>
      exact ⟨targets ++ [target], [], [], by simp, .inr ⟨targets, target, report, rfl, outcome⟩,
        .none⟩
    | error fault =>
      obtain ⟨before, since, changes, split, cleared, failing⟩ := ih
      obtain ⟨stages, removing⟩ := exists_removing (session.removals targets) target
      refine ⟨before, since ++ [target], changes ++ [.along stages],
        by rw [split, List.append_assoc], cleared, ?_⟩
      rw [removals_concat]
      exact failing.next outcome removing

/-- Any number of removals lead to one more of the sessions that removals lead to. -/
theorem Called.removals {body : Body} {simulation : Simulation}
    (called : Called body simulation session) (targets : List InstructionId) :
    Called body simulation (session.removals targets) := by
  induction targets using List.reverseRecOn with
  | nil => exact called
  | append_singleton targets target ih =>
    rw [removals_concat]
    exact .remove target ih

/-- Where there are no branches, a removal that fails has changed nothing. -/
theorem Failing.eq_empty {frame : Frame} {body : Body} {simulation : Simulation}
    (failing : session.Failing targets changes last) (called : Called body simulation session)
    (fresh : frame.stack = []) (ran : Simulation.run frame body = .ok simulation)
    (straight : body.hasBranches = false) :
    Called body simulation last ∧ ∀ change ∈ changes, change = .empty := by
  induction failing with
  | none => exact ⟨called, by simp⟩
  | @next last targets changes target fault stages _ failed removing ih =>
    obtain ⟨calledLast, nothing⟩ := ih
    have aimless := (calledLast.aimless fresh ran straight).2
    have same : (last.remove target).2 = last := by
      rcases eq_or_barred_of_remove (calledLast.sound fresh ran) failed with
        ⟨_, same⟩ | ⟨_, host, _, _, _, aimed, _⟩
      · exact same
      · simp [isTarget, aimless] at aimed
    have account := removing.report_remove.2 fault failed
    rw [same] at account
    refine ⟨.remove target calledLast, ?_⟩
    intro change listed
    rcases List.mem_append.mp listed with earlier | new
    · exact nothing change earlier
    · rw [List.mem_singleton.mp new]
      exact Report.append_eq_left.mp account.symm

/-- A report covers all that was changed since the last success. After any removals in a session,
the report of one more that succeeds lists first what those did to the body that have failed since
the last success, in their order, and then what it did itself; no deletion and no insertion is
listed twice. So it covers its own removal only, exactly if the failed ones had changed nothing. If
the session began with a run of a body without branches, they never have. -/
theorem reports_carry_over (body : Body) (simulation : Simulation)
    (targets : List InstructionId) :
    ∃ before since changes, targets = before ++ since ∧
      (before = [] ∨ ∃ earlier last report, before = earlier ++ [last] ∧
        (((start body simulation).removals earlier).remove last).1 = .ok report) ∧
      ((start body simulation).removals before).Failing since changes
        ((start body simulation).removals targets) ∧
      (∀ target report,
        (((start body simulation).removals targets).remove target).1 = .ok report →
        ∃ stages, (∀ others,
            ((start body simulation).removals targets).Removing target others ↔
              others = stages) ∧
          stages.getLast? =
            some (((start body simulation).removals targets).remove target).2.body ∧
          report = (Report.concat changes).append (.along stages) ∧
          report.removedIds.Nodup ∧ report.inserted.Nodup ∧
          (report = .along stages ↔ ∀ change ∈ changes, change = .empty)) ∧
      ∀ frame : Frame, frame.stack = [] → Simulation.run frame body = .ok simulation →
        body.hasBranches = false → ∀ change ∈ changes, change = .empty := by
  obtain ⟨before, since, changes, split, cleared, failing⟩ :=
    exists_failing (start body simulation) targets
  have unreported : ((start body simulation).removals before).report = .empty := by
    rcases cleared with rfl | ⟨earlier, last, report, rfl, succeeded⟩
    · rfl
    · obtain ⟨stages, removing⟩ :=
        exists_removing ((start body simulation).removals earlier) last
      rw [removals_concat]
      exact (removing.report_remove.1 report succeeded).2
  have account := failing.report_eq
  rw [unreported, Report.empty_append] at account
  refine ⟨before, since, changes, split, cleared, failing, ?_, ?_⟩
  · intro target report succeeded
    obtain ⟨stages, removing⟩ := exists_removing ((start body simulation).removals targets) target
    have handed := (removing.report_remove.1 report succeeded).1
    rw [account] at handed
    have tidy : (start body simulation).Tidy := .unreported rfl
    obtain ⟨once, onceInserted⟩ := ((tidy_removals tidy targets).remove target).2 report succeeded
    refine ⟨stages, removing.iff_eq, removing.getLast?_eq, handed, once, onceInserted, ?_⟩
    rw [handed, Report.append_eq_right, Report.concat_eq_empty]
  · intro frame fresh ran straight
    exact (failing.eq_empty (Called.start.removals before) fresh ran straight).2

/-- A constant is stored again and again, and then nothing is done for a while. -/
def idleLoop : Body :=
  .ofPlaced 1 [(.ldc (.int 1), 0), (.store .int 0, 1), (.nop, 2), (.goto 0, 3)]

/-- Removing the store fails half-way, at the constant that the branch leads to. What was deleted by
then, the store, stands in the report of the next removal, that of the instruction behind it. -/
theorem reports_carry_over_idleLoop :
    ∃ simulation changes report stages,
      Simulation.run (.empty 0 1) idleLoop = .ok simulation ∧
      (start idleLoop simulation).Failing [1] changes ((start idleLoop simulation).removals [1]) ∧
      (((start idleLoop simulation).removals [1]).remove 2).1 = .ok report ∧
      ((start idleLoop simulation).removals [1]).Removing 2 stages ∧
      report = (Report.concat changes).append (.along stages) ∧
      report.removedIds = [1, 2] := by
  have path : ∃ simulation, Simulation.run (.empty 0 1) idleLoop = .ok simulation ∧
      ((start idleLoop simulation).remove 1).1 = .error (.branchTarget "ldc" 0) ∧
      (((start idleLoop simulation).removals [1]).remove 2).1 =
        .ok ⟨[⟨1, 1, .store .int 0⟩, ⟨2, 2, .nop⟩], []⟩ := ⟨_, rfl, by cbv, by cbv⟩
  obtain ⟨simulation, ran, failed, succeeded⟩ := path
  obtain ⟨before, since, changes, split, cleared, failing, carried, -⟩ :=
    reports_carry_over idleLoop simulation [1]
  obtain ⟨stages, removing, -, handed, -⟩ := carried 2 _ succeeded
  have nothing : before = [] := by
    rcases cleared with none | ⟨earlier, last, report, rfl, answered⟩
    · exact none
    · -- The only removal so far has failed.
      rw [List.append_assoc, List.singleton_append] at split
      cases earlier with
      | nil =>
        cases split
        cases failed.symm.trans answered
      | cons _ rest => cases rest <;> cases split
  rw [nothing, List.nil_append] at split
  subst nothing split
  exact ⟨simulation, changes, _, stages, ran, failing, succeeded, (removing stages).mpr rfl, handed,
    rfl⟩

/-- The second removal itself deletes one instruction, and its report lists two. -/
theorem report_lists_earlier_deletion :
    ∃ simulation stages report, Simulation.run (.empty 0 1) idleLoop = .ok simulation ∧
      ((start idleLoop simulation).removals [1]).Removing 2 stages ∧
      (((start idleLoop simulation).removals [1]).remove 2).1 = .ok report ∧
      (Report.along stages).removedIds = [2] ∧ report.removedIds = [1, 2] := by
  have path : ∃ simulation, Simulation.run (.empty 0 1) idleLoop = .ok simulation ∧
      (((start idleLoop simulation).removals [1]).delete 2).1 = .ok [] ∧
      (Report.along [((start idleLoop simulation).removals [1]).body,
        (((start idleLoop simulation).removals [1]).delete 2).2.body]).removedIds = [2] ∧
      (((start idleLoop simulation).removals [1]).remove 2).1 =
        .ok ⟨[⟨1, 1, .store .int 0⟩, ⟨2, 2, .nop⟩], []⟩ := ⟨_, rfl, by cbv, by cbv, by cbv⟩
  obtain ⟨simulation, ran, deleted, own, succeeded⟩ := path
  exact ⟨simulation, _, _, ran, .begun (Prod.ext deleted rfl) (.halt rfl), succeeded, own, rfl⟩

end Session

end ClassTrim
