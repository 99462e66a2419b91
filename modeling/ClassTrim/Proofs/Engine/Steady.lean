import ClassTrim.Proofs.DeadStore.Census
import ClassTrim.Proofs.Engine.Edits
import ClassTrim.Proofs.Simulation.Seeding
import ClassTrim.Proofs.Usage.Methods

/-!
# Methods that cannot be treated

A method without branches cannot be treated for one of two reasons. Its body does not run, which
is a fault like any other. Or there is no frame for what it receives, and the work breaks off;
no settings make a run go on then.

Once a method could not be treated, a run leaves alone every method of its class, name and
descriptor. Nothing is missed on that account where methods that share all three fail
together. A run keeps them so: what is changed could be run before and can be run again,
and what failed is not changed. The methods that are left alone are then those that would
fail.
-/

namespace ClassTrim

namespace Simulation

/-- An execution fails on account of the code: it neither breaks a contract nor breaks off. -/
theorem isFatal_of_execute {simulation next : Simulation} {instruction : Instruction}
    {fault : Fault} (failed : simulation.execute instruction = (.error fault, next)) :
    fault.isFatal = false := by
  rw [execute_eq] at failed
  split at failed
  · next found =>
    cases failed
    simp only [formFault?] at found
    split at found
    · split at found
      · cases found
        rfl
      · cases found
    · cases found
  · split at failed
    · cases failed
      rfl
    · split at failed
      · cases failed
      · cases failed
        rfl

/-- So does the run of a body in a frame. -/
theorem isFatal_of_run {frame : Frame} {body : Body} {fault : Fault}
    (failed : run frame body = .error fault) : fault.isFatal = false := by
  have onList : ∀ (code : List Instruction) (simulation : Simulation),
      simulation.runInstructions code = .error fault → fault.isFatal = false := by
    intro code
    induction code with
    | nil => exact fun simulation failed => nomatch failed
    | cons instruction rest ih =>
      intro simulation failed
      simp only [runInstructions] at failed
      split at failed
      · next found =>
        cases failed
        exact isFatal_of_execute found
      · exact ih _ failed
  exact onList _ _ failed

end Simulation

/-- The method has a body without branches that cannot be run in its frame. -/
def MethodDecl.Fails (method : MethodDecl) (owner : String) : Prop :=
  ∃ frame body fault, Frame.forMethod 0 (some owner) method = .ok frame ∧
    method.body = some body ∧ body.hasBranches = false ∧
    Simulation.run frame body = .error fault

/-- The method has a body without branches, and there is no frame for what it receives. -/
def MethodDecl.Breaks (method : MethodDecl) (owner : String) : Prop :=
  method.isStraight = true ∧ ∃ fault, Frame.forMethod 0 (some owner) method = .error fault

/-- Methods without branches that share class, name and descriptor fail together. -/
def ClassGroup.Uniform (group : ClassGroup) : Prop :=
  ∀ owner method other, (owner, method) ∈ group.declared → (owner, other) ∈ group.declared →
    method.reference owner = other.reference owner → other.isStraight = true →
      method.Fails owner → other.Fails owner

/-- Methods that can be told apart share nothing. -/
theorem ClassGroup.Unambiguous.uniform {group : ClassGroup} (unambiguous : group.Unambiguous) :
    group.Uniform := by
  intro owner method other member inside same _ fails
  obtain ⟨decl, listed, rfl, declares⟩ := mem_declared.mp member
  obtain ⟨again, relisted, sameName, redeclares⟩ := mem_declared.mp inside
  obtain rfl := unambiguous.decl_eq relisted listed sameName
  obtain rfl := unambiguous.method_eq listed declares redeclares same
  exact fails

namespace DeadStore

variable {owner : String} {method : MethodDecl} {limit : Nat}

/-- A method without branches has a body without branches. -/
theorem exists_body_of_isStraight (straight : method.isStraight = true) :
    ∃ body, method.body = some body ∧ body.hasBranches = false := by
  obtain ⟨body, given, noBranches⟩ := (Option.any_eq_true _ _).mp straight
  exact ⟨body, given, by simpa using noBranches⟩

/-- A method without branches is refused if its body cannot be run, or if it has no frame to run
in; and in no other case. -/
theorem fails_or_breaks_of_eliminate {fault : Fault} (straight : method.isStraight = true)
    (failed : eliminate owner method limit = .error fault) :
    (method.Fails owner ∧ fault.isFatal = false) ∨
      (method.Breaks owner ∧ fault.isCrash = true) := by
  obtain ⟨body, given, plain⟩ := exists_body_of_isStraight straight
  obtain ⟨_, unrunnable⟩ := (eliminate_eq_error_iff given plain fault).mp failed
  rw [Simulation.runMethod, given] at unrunnable
  split at unrunnable
  · next made =>
    cases unrunnable
    obtain ⟨place, _, rfl⟩ := Frame.outOfRange_of_forMethod made
    exact .inr ⟨⟨straight, _, made⟩, rfl⟩
  · next frame framed =>
    exact .inl ⟨⟨frame, body, fault, framed, given, plain, unrunnable⟩,
      Simulation.isFatal_of_run unrunnable⟩

/-- A fault that does not end a run is that of a body that cannot be run. -/
theorem fails_of_eliminate {fault : Fault} (straight : method.isStraight = true)
    (failed : eliminate owner method limit = .error fault) (usual : fault.isFatal = false) :
    method.Fails owner := by
  rcases fails_or_breaks_of_eliminate straight failed with ⟨fails, _⟩ | ⟨_, crash⟩
  · exact fails
  · simp [Fault.isFatal, crash] at usual

/-- A method whose body cannot be run fails as soon as one removal is allowed. -/
theorem eliminate_of_fails_of_pos (fails : method.Fails owner) (positive : 0 < limit) :
    ∃ fault, eliminate owner method limit = .error fault ∧ fault.isFatal = false := by
  obtain ⟨frame, body, fault, framed, given, plain, failed⟩ := fails
  refine ⟨fault, (eliminate_eq_error_iff given plain fault).mpr ⟨positive, ?_⟩,
    Simulation.isFatal_of_run failed⟩
  rw [Simulation.runMethod, framed, given]
  exact failed

/-- Without a removal nothing is looked at. -/
theorem eliminate_zero (straight : method.isStraight = true) :
    eliminate owner method 0 = .ok none := by
  obtain ⟨body, given, plain⟩ := exists_body_of_isStraight straight
  simp [eliminate, given, plain]

/-- A method whose body cannot be run is left as it is, by a fault or for want of a
removal. -/
theorem eliminate_of_fails (fails : method.Fails owner) (limit : Nat) :
    eliminate owner method limit = .ok none ∨ ∃ fault,
      eliminate owner method limit = .error fault ∧ fault.isFatal = false := by
  obtain ⟨_, body, _, _, given, plain, _⟩ := id fails
  have straight : method.isStraight = true := by simp [MethodDecl.isStraight, given, plain]
  cases limit with
  | zero => exact .inl (eliminate_zero straight)
  | succ limit => exact .inr (eliminate_of_fails_of_pos fails (Nat.succ_pos limit))

/-- A method that an elimination changes has no branches and does not fail, before and
after. -/
theorem not_fails_of_eliminate {last : Body} {reports : List Report}
    (eliminated : eliminate owner method limit = .ok (some (last, reports))) :
    method.isStraight = true ∧ ¬method.Fails owner ∧
      ¬({ method with body := some last } : MethodDecl).Fails owner := by
  obtain ⟨frame, body, simulation, again, framed, given, straight, census, _, ran, runs⟩ :=
    eliminate_census eliminated
  refine ⟨by simp [MethodDecl.isStraight, given, straight], ?_, ?_⟩
  · rintro ⟨other, code, fault, framedOther, same, _, failed⟩
    cases framed.symm.trans framedOther
    cases given.symm.trans same
    cases ran.symm.trans failed
  · rintro ⟨other, code, fault, framedOther, same, _, failed⟩
    rw [census.forMethod_eq given, framed] at framedOther
    cases framedOther
    cases same
    cases runs.symm.trans failed

/-- What an elimination makes of a method has a frame, since the method had one. -/
theorem not_breaks_of_eliminate {last : Body} {reports : List Report}
    (eliminated : eliminate owner method limit = .ok (some (last, reports))) :
    ¬({ method with body := some last } : MethodDecl).Breaks owner := by
  obtain ⟨frame, body, _, _, framed, given, _, census, _⟩ := eliminate_census eliminated
  rintro ⟨_, fault, failed⟩
  rw [census.forMethod_eq given, framed] at failed
  cases failed

end DeadStore

namespace Engine

variable {σ : Type} {settings : Settings} {group next last : ClassGroup}
  {state nextState lastState : RunState σ} {changed : Bool}

/-- Methods that share a reference fail together, if the settings tolerate failures, and
those that a run leaves alone would fail. -/
structure Steady (settings : Settings) (group : ClassGroup) (state : RunState σ) : Prop where
  uniform : settings.deadStores = true → settings.continueOnError = true → group.Uniform
  excused : ∀ owner method, (owner, method) ∈ group.declared →
    method.reference owner ∈ state.failed →
      settings.continueOnError = true ∧ (method.isStraight = true → method.Fails owner)

/-- A run begins steady where methods that share a reference fail together. -/
theorem Steady.start (memory : σ)
    (uniform : settings.deadStores = true → settings.continueOnError = true → group.Uniform) :
    Steady settings group (.start memory) :=
  ⟨uniform, fun _ _ _ failed => nomatch failed⟩

/-- Fewer methods are no harm. -/
theorem Steady.mono (steady : Steady settings group state)
    (fewer : next.declared ⊆ group.declared) (sameFailed : nextState.failed = state.failed) :
    Steady settings next nextState where
  uniform := fun asked tolerated owner method other member inside =>
    steady.uniform asked tolerated owner method other (fewer member) (fewer inside)
  excused := fun owner method member failed =>
    steady.excused owner method (fewer member) (sameFailed ▸ failed)

/-- A method that is changed is neither one that fails nor one that is left alone. -/
theorem Steady.stores {site : Site} {method : MethodDecl} {body : Body} {reports : List Report}
    (steady : Steady settings (site.hold [method]) state)
    (eliminated : DeadStore.eliminate site.owner method settings.maxRemovals =
      .ok (some (body, reports)))
    (sameFailed : nextState.failed = state.failed) :
    Steady settings (site.hold [{ method with body := some body }]) nextState := by
  obtain ⟨straight, runs, runsAgain⟩ := DeadStore.not_fails_of_eliminate eliminated
  have here : (site.owner, method) ∈ (site.hold [method]).declared :=
    Site.mem_declared_hold.mpr (.inl rfl)
  constructor
  · intro asked tolerated owner first other member inside same straightOther fails
    have uniform := steady.uniform asked tolerated
    rcases Site.mem_declared_hold.mp member with new | old
    · obtain ⟨rfl, rfl⟩ := Prod.mk.inj new
      exact absurd fails runsAgain
    · have known : (owner, first) ∈ (site.hold [method]).declared :=
        Site.mem_declared_hold.mpr (.inr old)
      rcases Site.mem_declared_hold.mp inside with new | oldOther
      · obtain ⟨rfl, rfl⟩ := Prod.mk.inj new
        exact absurd (uniform site.owner first method known here same straight fails) runs
      · exact uniform owner first other known
          (Site.mem_declared_hold.mpr (.inr oldOther)) same straightOther fails
  · intro owner other member failed
    rw [sameFailed] at failed
    rcases Site.mem_declared_hold.mp member with new | old
    · obtain ⟨rfl, rfl⟩ := Prod.mk.inj new
      exact absurd ((steady.excused site.owner method here failed).2 straight) runs
    · exact steady.excused owner other (Site.mem_declared_hold.mpr (.inr old)) failed

/-- Who shares the reference of a method that fails would fail as well. -/
theorem Steady.failure {site : Site} {method : MethodDecl} {fault : Fault}
    (steady : Steady settings (site.hold [method]) state)
    (failed : DeadStore.eliminate site.owner method settings.maxRemovals = .error fault)
    (usual : fault.isFatal = false) (straight : method.isStraight = true)
    (asked : settings.deadStores = true) (tolerated : settings.continueOnError = true)
    (marked : nextState.failed = state.failed.insert (method.reference site.owner)) :
    Steady settings (site.hold [method]) nextState where
  uniform := steady.uniform
  excused := by
    intro owner other member listed
    rw [marked, List.mem_insert_iff] at listed
    rcases listed with same | old
    · obtain rfl : owner = site.owner := congrArg MethodRef.owner same
      refine ⟨tolerated, fun straightOther => ?_⟩
      exact steady.uniform asked tolerated site.owner method other
        (Site.mem_declared_hold.mpr (.inl rfl)) member same.symm straightOther
        (DeadStore.fails_of_eliminate straight failed usual)
    · exact steady.excused owner other member old

/-- An edit keeps a run steady. -/
theorem Steady.edit (steady : Steady settings group state)
    (edit : Edit settings group state next nextState changed) :
    Steady settings next nextState := by
  cases edit with
  | methods => exact steady.mono (Usage.removeUnusedMethods_accounts group).1.subset rfl
  | fields =>
    exact steady.mono (fun _ member => (Usage.removeUnusedFields_accounts group).1 ▸ member) rfl
  | stores eliminated => exact steady.stores eliminated rfl
  | failure failed usual straight asked tolerated =>
    exact steady.failure failed usual straight asked tolerated rfl

/-- Edits keep a run steady. -/
theorem Steady.edits (steady : Steady settings group state)
    (edits : Edits settings group state last lastState changed) :
    Steady settings last lastState :=
  edits.keeps (fun edit steady => steady.edit edit) steady

end Engine

end ClassTrim
