import QueryLoop.Proofs.Fixing.Replanned

namespace QueryLoop

/-! The order in which two fixes are applied.

Fixes of loops that are not inside each other never meet.  The fix of a loop inside
another one can come before the fix of the outer loop or after it, with the same tree,
except where the outer loop is stopped by what the inner fix writes; then only the outer
fix can come first.  At least one order is always possible.
-/

namespace Loop

variable {resolver : Resolver} {options options' : ScanOptions} {loop planned planned' : Loop}
  {shape shape' : Shape}

/-- A loop has at most one shape. -/
theorem Planned.shape_unique (plans : Planned resolver options loop shape planned)
    (plans' : Planned resolver options' loop shape' planned') : shape = shape' := by
  cases plans with
  | filterIf lone made =>
      cases plans' with
      | filterIf lone' made' =>
          rw [lone] at lone'
          cases lone'
          rfl
      | filterIfContinue blockOf more parts isContinue made' =>
          rw [blockOf] at lone
          unfold Stmt.loneIf? at lone
          split at lone <;> simp_all
      | map blockOf made' => simp [blockOf, Stmt.loneIf?] at lone
  | filterIfContinue blockOf more parts isContinue made =>
      cases plans' with
      | filterIf lone' made' =>
          rw [blockOf] at lone'
          unfold Stmt.loneIf? at lone'
          split at lone' <;> simp_all
      | filterIfContinue blockOf' more' parts' isContinue' made' =>
          rw [blockOf] at blockOf'
          cases blockOf'
          rw [parts] at parts'
          cases parts'
          rfl
      | map blockOf' made' =>
          rw [blockOf] at blockOf'
          cases blockOf'
          simp [Stmt.branches?] at parts
  | map blockOf made =>
      cases plans' with
      | filterIf lone' made' => simp [blockOf, Stmt.loneIf?] at lone'
      | filterIfContinue blockOf' more' parts' isContinue' made' =>
          rw [blockOf] at blockOf'
          cases blockOf'
          simp [Stmt.branches?] at parts'
      | map blockOf' made' =>
          rw [blockOf] at blockOf'
          cases blockOf'
          rfl

/-- In the plan for a loop nothing stands at the place of a statement outside the loop. -/
theorem Planned.masked_eq_self {length : Nat} {tree : SourceTree} {other placeholder : Stmt}
    (plans : Planned resolver options loop shape planned) (arranged : tree.Arranged length)
    (inTree : loop.toStmt ∈ tree.statements) (isOther : other ∈ tree.statements)
    (outside : other ∉ loop.toStmt.statements) :
    planned.tidied.masked [other.span] placeholder = planned.tidied := by
  refine Stmt.masked_self fun inner inside same => absurd ?_ outside
  have listed : inner.span ∈ planned.tidied.places.map Place.span :=
    List.mem_map_of_mem (List.mem_map_of_mem inside)
  obtain ⟨place, isPlace, place_eq⟩ :=
    List.mem_map.mp (plans.thinned_tidied.fewer.subset listed)
  obtain ⟨original, isOriginal, rfl⟩ := List.mem_map.mp isPlace
  have original_eq : original = other := arranged.eq_of_span_eq isOther
    (SourceTree.mem_statements_trans inTree isOriginal)
    (place_eq.trans (List.mem_singleton.mp same))
  exact original_eq ▸ isOriginal

end Loop

/-- The action was made for a loop of this shape, and would put `planned` in its place. -/
structure Action.Fixes (action : Action) (loop : Loop) (shape : Shape) (planned : Loop) : Prop where
  resolver : action.resolver = .textual
  refactor : action.refactor = Refactor.ofShape shape
  place : shape.reportSpan = action.diagnostic.span
  plans : loop.Planned .textual action.options shape planned

namespace Action

variable {length : Nat} {tree : SourceTree} {action : Action} {loop planned : Loop} {shape : Shape}

/-- Where the loop is found, it is exchanged for the plan. -/
theorem Fixes.applies (fixes : action.Fixes loop shape planned) (arranged : tree.Arranged length)
    (inTree : loop ∈ tree.loops)
    (found : (Refactor.ofShape shape).shape? loop .textual = some shape) :
    ∃ edit, action.applyTo tree = .ok edit ∧
      SourceTree.Exchanged loop.toStmt planned.tidied tree edit.tree ∧
        edit.tree.Arranged length := by
  obtain ⟨isTextual, kind, place, plans⟩ := fixes
  rw [← kind, ← isTextual] at found
  obtain ⟨planned', edit, plans', applied, -, exchanged⟩ :=
    applyTo_of_found arranged inTree found place
  rw [isTextual] at plans'
  obtain rfl : planned' = planned := Except.ok.inj (plans'.plan_eq.symm.trans plans.plan_eq)
  exact ⟨edit, applied, exchanged, arranged_applyTo arranged applied⟩

/-- Where the loop is there but no longer found, the action fails. -/
theorem Fixes.refused (fixes : action.Fixes loop shape planned) (arranged : tree.Arranged length)
    (inTree : loop ∈ tree.loops)
    (lost : (Refactor.ofShape shape).shape? loop .textual = none) :
    action.applyTo tree = .error (.inapplicable .noLongerMatches) := by
  obtain ⟨isTextual, kind, place, plans⟩ := fixes
  obtain ⟨outer, innermost⟩ := arranged.enclosingLoops_eq inTree plans
  rw [place] at innermost
  simp [applyTo, innermost, kind, isTextual, lost]

variable {one other : Action} {outer inner fixed : Loop} {shape' : Shape}

section

variable {planned' : Loop} {body : Stmt} (ofOuter : one.Fixes outer shape planned)
  (ofInner : other.Fixes inner shape' fixed) (arranged : tree.Arranged length)
  (isOuter : outer ∈ tree.loops) (isInner : inner ∈ tree.loops)
  (foundOuter : (Refactor.ofShape shape).shape? outer .textual = some shape)
  (foundInner : (Refactor.ofShape shape').shape? inner .textual = some shape')
  (inBody : Stmt.Exchanged inner.toStmt fixed.tidied outer.body body)
  (plans' : Loop.Planned .textual one.options { outer with body } shape planned')

include ofOuter ofInner arranged isOuter isInner foundOuter foundInner inBody plans'

/-- The outer loop is fixed first, and the inner one in its plan. -/
theorem Fixes.inner_in_plan
    (inPlan : Stmt.Exchanged inner.toStmt fixed.tidied planned.tidied planned'.tidied) :
    ∃ first both, one.applyTo tree = .ok first ∧ other.applyTo first.tree = .ok both ∧
      SourceTree.Exchanged outer.toStmt planned'.tidied tree both.tree := by
  have outer_arranged := arranged.of_mem (SourceTree.mem_loops_iff.mp isOuter)
  have fixed_arranged := ofInner.plans.arranged_tidied
    (arranged.of_mem (SourceTree.mem_loops_iff.mp isInner))
  have outer'_arranged := (Loop.exchanged_toStmt outer inBody).arranged ofInner.plans.span_tidied
    fixed_arranged outer_arranged
  obtain ⟨first, appliedFirst, exchangedFirst, first_arranged⟩ :=
    ofOuter.applies arranged isOuter foundOuter
  have isPlanned := exchangedFirst.symm.mem_statements
  have isInner' : inner ∈ first.tree.loops := SourceTree.mem_loops_iff.mpr
    (SourceTree.mem_statements_trans isPlanned inPlan.mem_statements)
  obtain ⟨both, appliedBoth, exchangedBoth, -⟩ :=
    ofInner.applies first_arranged isInner' foundInner
  have inFirst : SourceTree.Exchanged planned.tidied planned'.tidied first.tree both.tree :=
    exchangedBoth.widen isPlanned inPlan ofInner.plans.span_tidied fixed_arranged first_arranged
  exact ⟨first, both, appliedFirst, appliedBoth,
    exchangedFirst.trans inFirst ofOuter.plans.span_tidied plans'.span_tidied
      (ofOuter.plans.arranged_tidied outer_arranged) (plans'.arranged_tidied outer'_arranged)
      arranged⟩

/-- The inner loop is fixed first, and the outer one around it where it is still found. -/
theorem Fixes.outer_around :
    ∃ second, other.applyTo tree = .ok second ∧
      (outer.StoppedBy inner.toStmt fixed.tidied →
        one.applyTo second.tree = .error (.inapplicable .noLongerMatches)) ∧
      (¬ outer.StoppedBy inner.toStmt fixed.tidied → ∃ both, one.applyTo second.tree = .ok both ∧
        SourceTree.Exchanged outer.toStmt planned'.tidied tree both.tree) := by
  have outer_arranged := arranged.of_mem (SourceTree.mem_loops_iff.mp isOuter)
  have fixed_arranged := ofInner.plans.arranged_tidied
    (arranged.of_mem (SourceTree.mem_loops_iff.mp isInner))
  have inOuter := Loop.exchanged_toStmt outer inBody
  have outer'_arranged :=
    inOuter.arranged ofInner.plans.span_tidied fixed_arranged outer_arranged
  have ofOuter' : one.Fixes { outer with body } shape planned' := { ofOuter with plans := plans' }
  obtain ⟨second, applied, exchanged, second_arranged⟩ :=
    ofInner.applies arranged isInner foundInner
  have around : SourceTree.Exchanged outer.toStmt { outer with body }.toStmt tree second.tree :=
    exchanged.widen (SourceTree.mem_loops_iff.mp isOuter) inOuter ofInner.plans.span_tidied
      fixed_arranged arranged
  have isOuter' : { outer with body } ∈ second.tree.loops :=
    SourceTree.mem_loops_iff.mpr around.symm.mem_statements
  obtain ⟨again, lost⟩ := ofOuter.plans.shape?_exchanged foundOuter ofInner.plans.span_tidied
    (ofInner.plans.readable_tidied (Loop.isReadable_of_shape? foundInner)) inBody
  refine ⟨second, applied, fun stopped => ofOuter'.refused second_arranged isOuter' (lost stopped),
    fun free => ?_⟩
  obtain ⟨both, appliedBoth, exchangedBoth, -⟩ :=
    ofOuter'.applies second_arranged isOuter' (again free)
  exact ⟨both, appliedBoth, around.trans exchangedBoth rfl plans'.span_tidied outer'_arranged
    (plans'.arranged_tidied outer'_arranged) arranged⟩

end

/-- The fixes of two loops, one inside the other.  The outer loop can always be fixed
first, and the inner loop first where it does not stop the outer one. -/
theorem Fixes.nested (ofOuter : one.Fixes outer shape planned)
    (ofInner : other.Fixes inner shape' fixed) (arranged : tree.Arranged length)
    (declares : ∀ stmt ∈ tree.statements, stmt.isEmptyDecl = false)
    (isOuter : outer ∈ tree.loops) (isInner : inner ∈ tree.loops)
    (foundOuter : (Refactor.ofShape shape).shape? outer .textual = some shape)
    (foundInner : (Refactor.ofShape shape').shape? inner .textual = some shape')
    (inside : inner.toStmt ∈ outer.body.statements) :
    ∃ first both second, one.applyTo tree = .ok first ∧ other.applyTo first.tree = .ok both ∧
      other.applyTo tree = .ok second ∧
      (outer.StoppedBy inner.toStmt fixed.tidied →
        one.applyTo second.tree = .error (.inapplicable .noLongerMatches)) ∧
      (¬ outer.StoppedBy inner.toStmt fixed.tidied →
        ∃ both', one.applyTo second.tree = .ok both' ∧ both'.tree = both.tree) := by
  have outer_arranged := arranged.of_mem (SourceTree.mem_loops_iff.mp isOuter)
  have inner_arranged := arranged.of_mem (SourceTree.mem_loops_iff.mp isInner)
  obtain ⟨body, -, inBody⟩ :=
    ((Loop.arranged_toStmt_iff outer).mp outer_arranged).2.replace? fixed.tidied inside
  obtain ⟨planned', plans', inPlan⟩ :=
    ofOuter.plans.exchanged_tidied ofInner.plans.span_tidied inBody fun stmt found =>
      declares stmt (SourceTree.mem_statements_trans (SourceTree.mem_loops_iff.mp isInner) found)
  obtain ⟨first, both, appliedFirst, appliedBoth, whole⟩ := ofOuter.inner_in_plan ofInner arranged
    isOuter isInner foundOuter foundInner inBody plans' inPlan
  obtain ⟨second, appliedSecond, stopped, free⟩ := ofOuter.outer_around ofInner arranged
    isOuter isInner foundOuter foundInner inBody plans'
  refine ⟨first, both, second, appliedFirst, appliedBoth, appliedSecond, stopped, fun calm => ?_⟩
  obtain ⟨both', appliedBoth', whole'⟩ := free calm
  have planned'_arranged := plans'.arranged_tidied ((Loop.exchanged_toStmt outer inBody).arranged
    ofInner.plans.span_tidied (ofInner.plans.arranged_tidied inner_arranged) outer_arranged)
  exact ⟨both', appliedBoth', whole'.unique whole plans'.span_tidied planned'_arranged arranged⟩

/-- The fixes of two loops, neither inside the other, in either order. -/
theorem Fixes.disjoint {loop' planned' : Loop} (ofOne : one.Fixes loop shape planned)
    (ofOther : other.Fixes loop' shape' planned') (arranged : tree.Arranged length)
    (inTree : loop ∈ tree.loops) (inTree' : loop' ∈ tree.loops)
    (found : (Refactor.ofShape shape).shape? loop .textual = some shape)
    (found' : (Refactor.ofShape shape').shape? loop' .textual = some shape')
    (outside : loop.toStmt ∉ loop'.toStmt.statements)
    (outside' : loop'.toStmt ∉ loop.toStmt.statements) :
    ∃ first both second both', one.applyTo tree = .ok first ∧ other.applyTo first.tree = .ok both ∧
      other.applyTo tree = .ok second ∧ one.applyTo second.tree = .ok both' ∧
        both'.tree = both.tree := by
  rw [SourceTree.mem_loops_iff] at inTree inTree'
  obtain ⟨first, appliedFirst, exchangedFirst, first_arranged⟩ :=
    ofOne.applies arranged (SourceTree.mem_loops_iff.mpr inTree) found
  obtain ⟨second, appliedSecond, exchangedSecond, second_arranged⟩ :=
    ofOther.applies arranged (SourceTree.mem_loops_iff.mpr inTree') found'
  obtain ⟨both, appliedBoth, exchangedBoth, both_arranged⟩ := ofOther.applies first_arranged
    (SourceTree.mem_loops_iff.mpr (exchangedFirst.kept inTree' outside outside')) found'
  obtain ⟨both', appliedBoth', exchangedBoth', both'_arranged⟩ := ofOne.applies second_arranged
    (SourceTree.mem_loops_iff.mpr (exchangedSecond.kept inTree outside' outside)) found
  refine ⟨first, both, second, both', appliedFirst, appliedBoth, appliedSecond, appliedBoth', ?_⟩
  have different : loop.toStmt.span ≠ loop'.toStmt.span := fun same =>
    outside (arranged.eq_of_span_eq inTree' inTree same ▸ loop.toStmt.self_mem_statements)
  rw [exchangedBoth.eq_masked ofOther.plans.span_tidied first_arranged both_arranged,
    exchangedFirst.eq_masked ofOne.plans.span_tidied arranged first_arranged,
    exchangedBoth'.eq_masked ofOne.plans.span_tidied second_arranged both'_arranged,
    exchangedSecond.eq_masked ofOther.plans.span_tidied arranged second_arranged]
  exact (SourceTree.masked_masked different
    (ofOne.plans.masked_eq_self arranged inTree inTree' outside')
    (ofOther.plans.masked_eq_self arranged inTree' inTree outside) tree).symm

end Action

namespace Loop

variable {loop loop' : Loop} {stmt new : Stmt}

theorem start_lt_of_mem_body (arranged : loop.toStmt.Arranged)
    (inside : stmt ∈ loop.body.statements) : loop.span.start < stmt.span.start := by
  obtain ⟨within, body_arranged⟩ := (arranged_toStmt_iff loop).mp arranged
  have inBody := body_arranged.contains_of_mem inside
  rw [Span.contains_iff] at inBody
  unfold Span.Within at within
  omega

/-- A loop is not stopped by one around it. -/
theorem not_stoppedBy_outer (arranged : loop.toStmt.Arranged)
    (arranged' : loop'.toStmt.Arranged) (inside : loop'.toStmt ∈ loop.body.statements) :
    ¬ loop'.StoppedBy loop.toStmt new := fun stopped =>
  Nat.lt_asymm (start_lt_of_mem_body arranged inside) (start_lt_of_mem_body arranged' stopped.1)

theorem not_mem_statements_toStmt (different : loop ≠ loop')
    (outside : loop.toStmt ∉ loop'.body.statements) :
    loop.toStmt ∉ loop'.toStmt.statements := by
  rw [Stmt.statements_eq, List.mem_cons, not_or]
  refine ⟨fun same => different (Option.some.inj (congrArg Stmt.loop? same)), ?_⟩
  simpa [toStmt, Stmt.children] using outside

end Loop

namespace Document

variable {document : Document} {config : Config}

/-- The second action on what the first one leads to. -/
def applyBoth (document : Document) (first second : Action) : Except FixError Edit :=
  match first.apply document false with
  | .error problem => .error problem
  | .ok edit => second.apply { document with tree := edit.tree } false

theorem applyBoth_eq {first second : Action} {edit : Edit}
    (applied : first.applyTo document.tree = .ok edit) :
    document.applyBoth first second = second.applyTo edit.tree := by
  simp [applyBoth, Action.apply, applied]

/-- The diagnostic is reported for the loop, the action is registered for it, and `planned`
is the plan that it makes. -/
structure Offers (document : Document) (config : Config) (diagnostic : Diagnostic)
    (action : Action) (loop planned : Loop) : Prop where
  registered : document.actions [diagnostic] config .textual = ([action], [])
  inTree : loop ∈ document.tree.loops
  reported : ∃ shape ∈ loop.shapes .textual config.options,
    diagnostic = Diagnostic.ofFinding config.rule document.path ⟨loop.span, shape⟩ ∧
      loop.plan shape .textual config.options = .ok planned

theorem actions_ofFinding (document : Document) (fixable : config.rule.id = fixableId)
    (finding : Finding) :
    let diagnostic := Diagnostic.ofFinding config.rule document.path finding
    ∃ action, document.actions [diagnostic] config .textual = ([action], []) ∧
      action.refactor = Refactor.ofShape finding.shape ∧ action.diagnostic = diagnostic ∧
      action.options = config.options ∧ action.resolver = .textual :=
  document.actions_singleton config .textual fixable rfl

theorem exists_offers (fixable : config.rule.id = fixableId) {diagnostic : Diagnostic}
    (reported : diagnostic ∈ document.analyze config .textual false) :
    ∃ action loop planned, document.Offers config diagnostic action loop planned := by
  obtain ⟨loop, inTree, shape, isShape, rfl, planned, plans⟩ :=
    exists_planned_of_mem_analyze reported
  obtain ⟨action, registered, -⟩ := document.actions_ofFinding fixable ⟨loop.span, shape⟩
  exact ⟨action, loop, planned, registered, inTree, shape, isShape, rfl, plans.plan_eq⟩

/-- What is offered is a fix of the loop, where it is found. -/
theorem Offers.fixes {diagnostic : Diagnostic} {action : Action} {loop planned : Loop}
    (offers : document.Offers config diagnostic action loop planned)
    (fixable : config.rule.id = fixableId) :
    ∃ shape, diagnostic = Diagnostic.ofFinding config.rule document.path ⟨loop.span, shape⟩ ∧
      action.Fixes loop shape planned ∧
        (Refactor.ofShape shape).shape? loop .textual = some shape := by
  obtain ⟨registered, -, shape, isShape, rfl, planned_eq⟩ := offers
  have found := Loop.shape?_of_mem_shapes isShape
  obtain ⟨-, planned', plans⟩ := Loop.planned_of_shape? config.options found
  obtain rfl : planned' = planned := Except.ok.inj (plans.plan_eq.symm.trans planned_eq)
  obtain ⟨action', registered', kind, place, sameOptions, isTextual⟩ :=
    document.actions_ofFinding fixable ⟨loop.span, shape⟩
  obtain rfl : action' = action := by
    simpa using (congrArg Prod.fst (registered'.symm.trans registered))
  exact ⟨shape, rfl, ⟨isTextual, kind, place ▸ rfl, sameOptions ▸ plans⟩, found⟩

/-- The first fix keeps the second from applying, which can come first. -/
structure Stops (document : Document) (first second : Action) : Prop where
  alone : ∃ edit, first.apply document false = .ok edit
  behind : document.applyBoth first second = .error (.inapplicable .noLongerMatches)
  inFront : ∃ edit, document.applyBoth second first = .ok edit

/-- The fixes of two loops apply in either order, with the same tree, unless one of the loops
is stopped by the plan for the other. -/
structure CommuteUnlessStopped (document : Document) (one other : Action)
    (loop planned loop' planned' : Loop) : Prop where
  free : ¬ loop.StoppedBy loop'.toStmt planned'.tidied →
    ¬ loop'.StoppedBy loop.toStmt planned.tidied →
      ∃ edit edit', document.applyBoth one other = .ok edit ∧
        document.applyBoth other one = .ok edit' ∧ edit.tree = edit'.tree
  stopsOne : loop.StoppedBy loop'.toStmt planned'.tidied → document.Stops other one
  stopsOther : loop'.StoppedBy loop.toStmt planned.tidied → document.Stops one other

namespace CommuteUnlessStopped

variable {one other : Action} {loop planned loop' planned' : Loop} {shape shape' : Shape}

theorem symm (commute : document.CommuteUnlessStopped one other loop planned loop' planned') :
    document.CommuteUnlessStopped other one loop' planned' loop planned where
  free calm calm' := by
    obtain ⟨edit, edit', applied, applied', same⟩ := commute.free calm' calm
    exact ⟨edit', edit, applied', applied, same.symm⟩
  stopsOne := commute.stopsOther
  stopsOther := commute.stopsOne

theorem of_nested (ofOne : one.Fixes loop shape planned)
    (ofOther : other.Fixes loop' shape' planned') (reachable : document.Reachable)
    (inTree : loop ∈ document.tree.loops) (inTree' : loop' ∈ document.tree.loops)
    (found : (Refactor.ofShape shape).shape? loop .textual = some shape)
    (found' : (Refactor.ofShape shape').shape? loop' .textual = some shape')
    (inside : loop'.toStmt ∈ loop.body.statements) :
    document.CommuteUnlessStopped one other loop planned loop' planned' := by
  have arranged := reachable.arranged
  obtain ⟨edit, both, edit', applied, appliedBoth, applied', stopped, free⟩ :=
    ofOne.nested ofOther arranged reachable.anchored.2.1 inTree inTree' found found' inside
  refine ⟨fun calm _ => ?_, fun stops => ⟨⟨edit', applied'⟩, ?_, both, ?_⟩, fun stops => ?_⟩
  · obtain ⟨both', appliedBoth', same⟩ := free calm
    exact ⟨both, both', (applyBoth_eq applied).trans appliedBoth,
      (applyBoth_eq applied').trans appliedBoth', same.symm⟩
  · exact (applyBoth_eq applied').trans (stopped stops)
  · exact (applyBoth_eq applied).trans appliedBoth
  · exact absurd stops (Loop.not_stoppedBy_outer
      (arranged.of_mem (SourceTree.mem_loops_iff.mp inTree))
      (arranged.of_mem (SourceTree.mem_loops_iff.mp inTree')) inside)

theorem of_disjoint (ofOne : one.Fixes loop shape planned)
    (ofOther : other.Fixes loop' shape' planned') (reachable : document.Reachable)
    (inTree : loop ∈ document.tree.loops) (inTree' : loop' ∈ document.tree.loops)
    (found : (Refactor.ofShape shape).shape? loop .textual = some shape)
    (found' : (Refactor.ofShape shape').shape? loop' .textual = some shape')
    (different : loop ≠ loop') (outside : loop'.toStmt ∉ loop.body.statements)
    (outside' : loop.toStmt ∉ loop'.body.statements) :
    document.CommuteUnlessStopped one other loop planned loop' planned' := by
  obtain ⟨edit, both, edit', both', applied, appliedBoth, applied', appliedBoth', same⟩ :=
    ofOne.disjoint ofOther reachable.arranged inTree inTree' found found'
      (Loop.not_mem_statements_toStmt different outside')
      (Loop.not_mem_statements_toStmt different.symm outside)
  refine ⟨fun _ _ => ⟨both, both', ?_, ?_, same.symm⟩, fun stops => absurd stops.1 outside,
    fun stops => absurd stops.1 outside'⟩
  · exact (applyBoth_eq applied).trans appliedBoth
  · exact (applyBoth_eq applied').trans appliedBoth'

end CommuteUnlessStopped

/-- Two different diagnostics of one analysis are for different loops, and their fixes apply
in either order, with the same tree, unless one of the loops is stopped by the plan for the
other: it declares a variable, and inside it the plan mentions the loop variable or assigns
to the declared one.  Then the fix of the stopped loop no longer applies behind the other
fix, but can come first. -/
theorem applyBoth_unless_stopped (reachable : document.Reachable)
    (fixable : config.rule.id = fixableId) {first second : Diagnostic}
    (isFirst : first ∈ document.analyze config .textual false)
    (isSecond : second ∈ document.analyze config .textual false) (different : first ≠ second) :
    ∃ one other loop loop' planned planned', loop ≠ loop' ∧
      document.Offers config first one loop planned ∧
      document.Offers config second other loop' planned' ∧
      (¬ loop.StoppedBy loop'.toStmt planned'.tidied → ¬ loop'.StoppedBy loop.toStmt planned.tidied →
        ∃ edit edit', document.applyBoth one other = .ok edit ∧
          document.applyBoth other one = .ok edit' ∧ edit.tree = edit'.tree) ∧
      (loop.StoppedBy loop'.toStmt planned'.tidied →
        (∃ edit, other.apply document false = .ok edit) ∧
          document.applyBoth other one = .error (.inapplicable .noLongerMatches) ∧
            ∃ edit, document.applyBoth one other = .ok edit) ∧
      (loop'.StoppedBy loop.toStmt planned.tidied →
        (∃ edit, one.apply document false = .ok edit) ∧
          document.applyBoth one other = .error (.inapplicable .noLongerMatches) ∧
            ∃ edit, document.applyBoth other one = .ok edit) := by
  obtain ⟨one, loop, planned, offers⟩ := exists_offers fixable isFirst
  obtain ⟨other, loop', planned', offers'⟩ := exists_offers fixable isSecond
  obtain ⟨shape, rfl, ofOne, found⟩ := offers.fixes fixable
  obtain ⟨shape', rfl, ofOther, found'⟩ := offers'.fixes fixable
  have differ : loop ≠ loop' := by
    rintro rfl
    rw [ofOne.plans.shape_unique ofOther.plans] at different
    exact different rfl
  have commute : document.CommuteUnlessStopped one other loop planned loop' planned' := by
    by_cases inside : loop'.toStmt ∈ loop.body.statements
    · exact .of_nested ofOne ofOther reachable offers.inTree offers'.inTree found found' inside
    by_cases inside' : loop.toStmt ∈ loop'.body.statements
    · exact (CommuteUnlessStopped.of_nested ofOther ofOne reachable offers'.inTree offers.inTree
        found' found inside').symm
    · exact .of_disjoint ofOne ofOther reachable offers.inTree offers'.inTree found found' differ
        inside inside'
  obtain ⟨free, stopsOne, stopsOther⟩ := commute
  refine ⟨one, other, loop, loop', planned, planned', differ, offers, offers', free,
    fun stopped => ?_, fun stopped => ?_⟩
  · obtain ⟨alone, behind, inFront⟩ := stopsOne stopped
    exact ⟨alone, behind, inFront⟩
  · obtain ⟨alone, behind, inFront⟩ := stopsOther stopped
    exact ⟨alone, behind, inFront⟩

/-- Two filters, one in the body of the other. -/
theorem applyBoth_unless_stopped_filters :
    let document := (Document.parse
      "foreach (var a in b) \x7b if (a.Ok) foreach (var c in a.D) \x7b if (c.Ok) F(); \x7d \x7d" "").1
    let outer : Diagnostic := ⟨fixableId, .info,
      "The foreach loop can be rewritten using 'Where'", ⟨27, 31⟩, "", some "--ContainingIf"⟩
    let inner : Diagnostic := ⟨fixableId, .info,
      "The foreach loop can be rewritten using 'Where'", ⟨62, 66⟩, "", some "--ContainingIf"⟩
    ∃ one other edit edit', document.actions [outer] {} .textual = ([one], []) ∧
      document.actions [inner] {} .textual = ([other], []) ∧
        document.applyBoth one other = .ok edit ∧ document.applyBoth other one = .ok edit' ∧
          edit.tree = edit'.tree := by
  intro document outer inner
  let ofOuter : Action := ⟨"Convert to Where", .containingIf, outer, {}, .textual⟩
  let ofInner : Action := ⟨"Convert to Where", .containingIf, inner, {}, .textual⟩
  have opened : document.Reachable := .opened _ _
  obtain ⟨reported, outerFirst, innerFirst⟩ :
      document.analyze {} .textual false = [outer, inner] ∧
        (document.applyBoth ofOuter ofInner).toOption.isSome = true ∧
          (document.applyBoth ofInner ofOuter).toOption.isSome = true := by
    decide +kernel
  -- what follows does not depend on the text, and nothing is to evaluate it
  clear_value document
  obtain ⟨one, other, loop, loop', planned, planned', -, offers, offers', free, stopped, stopped'⟩ :=
    applyBoth_unless_stopped opened (rfl : ({} : Config).rule.id = fixableId)
      (by simp [reported] : outer ∈ document.analyze {} .textual false)
      (by simp [reported] : inner ∈ document.analyze {} .textual false) (by decide)
  obtain rfl : ofOuter = one := List.head_eq_of_cons_eq (congrArg Prod.fst offers.registered)
  obtain rfl : ofInner = other := List.head_eq_of_cons_eq (congrArg Prod.fst offers'.registered)
  refine ⟨ofOuter, ofInner, ?_⟩
  obtain ⟨edit, edit', applied, applied', same⟩ := free
    (fun stops => by simp [(stopped stops).2.1, Except.toOption] at innerFirst)
    (fun stops => by simp [(stopped' stops).2.1, Except.toOption] at outerFirst)
  exact ⟨edit, edit', offers.registered, offers'.registered, applied, applied', same⟩

/-- For two different diagnostics of one analysis the fixes apply in either order, with the
same tree. -/
def FixesCommute (document : Document) : Prop :=
  ∀ first ∈ document.analyze {} .textual false, ∀ second ∈ document.analyze {} .textual false,
    first ≠ second → ∃ one other edit edit',
      document.actions [first] {} .textual = ([one], []) ∧
        document.actions [second] {} .textual = ([other], []) ∧
          document.applyBoth one other = .ok edit ∧ document.applyBoth other one = .ok edit' ∧
            edit.tree = edit'.tree

/-- The lambda for the inner loop has the parameter `x`, the name of the outer loop's
variable, and is behind the declaration of `b`. -/
theorem fixesCommute_fails :
    let document := (Document.parse
      "foreach (var x in s) \x7b int b = x.F; foreach (var c in b.G) \x7b if (c.Ok) F(c); \x7d \x7d" "").1
    ¬ document.FixesCommute := by
  intro document commute
  let outer : Diagnostic := ⟨fixableId, .info, "The foreach loop can be rewritten using 'Select'",
    ⟨27, 34⟩, "", some "--VariableToWhere"⟩
  let inner : Diagnostic := ⟨fixableId, .info, "The foreach loop can be rewritten using 'Where'",
    ⟨65, 69⟩, "", some "--ContainingIf"⟩
  let one : Action := ⟨"Convert to Select", .leadingDecl, outer, {}, .textual⟩
  let other : Action := ⟨"Convert to Where", .containingIf, inner, {}, .textual⟩
  obtain ⟨reported, fails⟩ : document.analyze {} .textual false = [outer, inner] ∧
      (document.applyBoth other one).toOption.isSome = false := by
    decide +kernel
  clear_value document
  obtain ⟨one', other', edit, edit', registered, registered', -, applied, -⟩ :=
    commute outer (by simp [reported]) inner (by simp [reported]) (by decide)
  obtain rfl : one = one' := List.head_eq_of_cons_eq (congrArg Prod.fst registered)
  obtain rfl : other = other' := List.head_eq_of_cons_eq (congrArg Prod.fst registered')
  simp [applied, Except.toOption] at fails

end Document

end QueryLoop
