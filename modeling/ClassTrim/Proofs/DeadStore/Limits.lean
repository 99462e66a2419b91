import ClassTrim.Proofs.DeadStore.Exhaustion

/-!
# Limits of eliminations

A limit cuts an elimination short and has no other influence. Which instruction is retired next,
what it takes along and which identities are handed out is read off the stage of the body alone,
so an elimination that was cut short can be taken up again from the body that it left.

To take it up again means to begin with a method that has this body. Its first frame is the one
that the method always had, because an elimination leaves alone how many slots a body declares.
-/

namespace ClassTrim.DeadStore

variable {frame : Frame} {body stage last : Body} {simulation : Simulation}
  {reports front rear : List Report}

/-- The method that an outcome makes of a method. Without an outcome it is as it was. -/
def adopt (method : MethodDecl) : Option (Body × List Report) → MethodDecl
  | none => method
  | some (last, _) => { method with body := some last }

/-- The reports of an outcome. -/
def reported : Option (Body × List Report) → List Report
  | none => []
  | some (_, reports) => reports

/-- Where no candidate is left, no limit makes a difference. -/
theorem eliminateIn_of_exhausted (ran : Simulation.run frame body = .ok simulation)
    (exhausted : candidate? body simulation.graph = none) (limit : Nat) :
    eliminateIn frame limit body = .ok (body, []) := by
  cases limit with
  | zero => rfl
  | succ limit => simp only [eliminateIn, ran, exhausted]

/-- An elimination that is taken up again does what it would have done without the break. -/
theorem eliminateIn_add {first second : Nat}
    (begun : eliminateIn frame first body = .ok (stage, front))
    (resumed : eliminateIn frame second stage = .ok (last, rear)) :
    eliminateIn frame (first + second) body = .ok (last, front ++ rear) := by
  induction first generalizing body front with
  | zero =>
    cases begun
    rw [Nat.zero_add]
    exact resumed
  | succ first ih =>
    rw [Nat.add_right_comm]
    simp only [eliminateIn] at begun ⊢
    split at begun
    · cases begun
    · next simulation ran =>
      split at begun
      · next exhausted =>
        -- The first part stopped of its own accord, and the second finds nothing either.
        cases begun
        cases (eliminateIn_of_exhausted ran exhausted second).symm.trans resumed
        rfl
      · split at begun
        · cases begun
        · split at begun
          · cases begun
          · next rest =>
            cases begun
            rw [ih rest]
            rfl

section Method

variable {owner : String} {limit : Nat}

/-- The outcome for a method is that of the elimination in its frame. -/
theorem exists_outcome (method : MethodDecl) (given : method.body = some body)
    (straight : body.hasBranches = false)
    (framed : Frame.forMethod 0 (some owner) method = .ok frame)
    (inner : eliminateIn frame limit body = .ok (last, reports)) :
    ∃ outcome, eliminate owner method limit = .ok outcome ∧
      adopt method outcome = { method with body := some last } ∧ reported outcome = reports := by
  refine ⟨_, eliminate_of_eliminateIn given straight framed inner, ?_⟩
  cases reports with
  | nil =>
    cases (trail_of_eliminateIn (Frame.stack_of_forMethod framed) straight inner).1
    exact ⟨by rw [← given]; rfl, rfl⟩
  | cons report reports => exact ⟨rfl, rfl⟩

/-- Limits only delay work. Of a method without branches that can be run, an elimination makes
the same method whether it has one limit or has it in two parts, where the second part begins
with what the first one made; and the reports of the parts, one after the other, are those of the
whole. -/
theorem eliminate_resumes (owner : String) (method : MethodDecl) (first second : Nat)
    (straight : ∀ body, method.body = some body → body.hasBranches = false)
    (ran : Simulation.runMethod (some owner) method = .ok simulation) :
    ∃ begun resumed whole, eliminate owner method first = .ok begun ∧
      eliminate owner (adopt method begun) second = .ok resumed ∧
      eliminate owner method (first + second) = .ok whole ∧
      adopt method whole = adopt (adopt method begun) resumed ∧
      reported whole = reported begun ++ reported resumed := by
  cases given : method.body with
  | none =>
    have nothing : ∀ limit, eliminate owner method limit = .ok none := by
      intro limit
      simp [eliminate, given]
    exact ⟨none, none, none, nothing _, nothing _, nothing _, rfl, rfl⟩
  | some body =>
    have straightBody := straight body given
    obtain ⟨frame, framed, ran⟩ := (Simulation.runMethod_eq_ok given).mp ran
    have fresh := Frame.stack_of_forMethod framed
    obtain ⟨⟨stage, front⟩, inner⟩ := exists_eliminateIn fresh first straightBody ran
    obtain ⟨straightStage, again, rerun⟩ :=
      (Staged.start.eliminateIn inner).exists_run fresh straightBody ran
    obtain ⟨⟨last, rear⟩, rest⟩ := exists_eliminateIn fresh second straightStage rerun
    have sameFrame := (eliminateIn_census fresh straightBody ran inner).1.forMethod_eq given 0
      (some owner)
    obtain ⟨begun, eliminated, made, told⟩ :=
      exists_outcome method given straightBody framed inner
    obtain ⟨resumed, continued, remade, toldLater⟩ :=
      exists_outcome { method with body := some stage } rfl straightStage
        (sameFrame.trans framed) rest
    obtain ⟨whole, atOnce, finished, toldWhole⟩ :=
      exists_outcome method given straightBody framed (eliminateIn_add inner rest)
    refine ⟨begun, resumed, whole, eliminated, ?_, atOnce, ?_, ?_⟩
    · rw [made]
      exact continued
    · rw [finished, made, remade]
    · rw [told, toldLater, toldWhole]

/-- A method that stores a quotient and a constant, and uses neither. -/
def lavish : MethodDecl :=
  { halve with
    name := "lavish"
    body := some (.ofPlaced 3 [(.load .int 0, 0), (.ldc (.int 2), 1), (.arith .div .int, 3),
      (.store .int 1, 4), (.ldc (.int 1), 5), (.store .int 2, 6), (.load .int 0, 7),
      (.ret (some .int), 8)]) }

/-- One removal puts a discarding instruction into the body, and two more are allowed to those
who begin with that body. There is one to make. -/
theorem eliminate_resumes_lavish :
    ∃ begun resumed whole, eliminate "Numbers" lavish 1 = .ok begun ∧
      eliminate "Numbers" (adopt lavish begun) 2 = .ok resumed ∧
      eliminate "Numbers" lavish 3 = .ok whole ∧
      adopt lavish whole = adopt (adopt lavish begun) resumed ∧
      reported whole = reported begun ++ reported resumed ∧
      (reported begun).map Report.inserted = [[8]] ∧
      (reported resumed).map Report.inserted = [[]] := by
  have path : ∃ simulation, Simulation.runMethod (some "Numbers") lavish = .ok simulation :=
    ⟨_, rfl⟩
  obtain ⟨simulation, ran⟩ := path
  have straight : ∀ body, lavish.body = some body → body.hasBranches = false := by
    intro body given
    cases given
    rfl
  have early : (eliminate "Numbers" lavish 1).map
      (fun outcome => (reported outcome).map Report.inserted) = .ok [[8]] := by cbv
  have late : (eliminate "Numbers" lavish 3).map
      (fun outcome => (reported outcome).map Report.inserted) = .ok [[8], []] := by cbv
  obtain ⟨begun, resumed, whole, eliminated, continued, atOnce, same, told⟩ :=
    eliminate_resumes "Numbers" lavish 1 2 straight ran
  rw [eliminated] at early
  rw [atOnce] at late
  have insertsBegun : (reported begun).map Report.inserted = [[8]] := Except.ok.inj early
  have insertsWhole : (reported whole).map Report.inserted = [[8], []] := Except.ok.inj late
  rw [told, List.map_append, insertsBegun] at insertsWhole
  exact ⟨begun, resumed, whole, eliminated, continued, atOnce, same, told, insertsBegun,
    List.append_cancel_left insertsWhole⟩

end Method

end ClassTrim.DeadStore
