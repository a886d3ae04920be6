import QueryLoop.Proofs.Fixing.Planned
import QueryLoop.Proofs.Place.Parsed

namespace QueryLoop

/-! A fix applies exactly where a fresh analysis finds something to fix.

A fix knows only a span and a kind.  In an arranged tree the innermost loop around
the place where a loop is reported is that loop, so what is found again from the
span is what the analysis found, and the plan for it takes the place of that loop
and of nothing else.  All trees that parsing and fixing lead to are arranged.
-/

variable {length : Nat} {tree : SourceTree} {loop planned : Loop} {shape : Shape}
  {resolver : Resolver} {options : ScanOptions}

namespace SourceTree

theorem mem_loops_of_mem_enclosingLoops {target : Span}
    (found : loop ∈ Node.enclosingLoops (tree.nodesAround target)) : loop ∈ tree.loops := by
  simp only [Node.enclosingLoops, Node.loops, List.mem_filterMap, List.mem_reverse] at found
  obtain ⟨node, onTheWay, isLoop⟩ := found
  exact List.mem_filterMap.mpr ⟨node, Outline.mem_preorderAll_of_mem_aroundAll onTheWay, isLoop⟩

theorem Arranged.of_mem {stmt : Stmt} (arranged : tree.Arranged length)
    (inside : stmt ∈ tree.statements) : stmt.Arranged := by
  rw [statements_eq, List.mem_flatMap] at inside
  obtain ⟨item, isItem, inside⟩ := inside
  have item_arranged := arranged.items item isItem
  clear isItem
  induction item_arranged with
  | @intro item parts subitems stmts ih =>
      rw [Item.statements_eq, List.mem_append, List.mem_flatMap, List.mem_flatMap] at inside
      rcases inside with ⟨child, isChild, inside⟩ | ⟨outer, isStmt, inside⟩
      · exact ih child isChild inside
      · exact (stmts outer isStmt).of_mem inside

end SourceTree

/-- On the way from a loop to the place where it is reported there is no other loop. -/
theorem Loop.Planned.statementsAround_eq (plans : loop.Planned resolver options shape planned)
    (arranged : loop.toStmt.Arranged) :
    shape.reportSpan.Within loop.span.start loop.span.stop ∧
      ∃ inner, loop.toStmt.statementsAround shape.reportSpan = loop.toStmt :: inner ∧
        inner.filterMap Stmt.loop? = [] := by
  obtain ⟨body_within, body_arranged⟩ := (Loop.arranged_toStmt_iff loop).mp arranged
  obtain ⟨parts, children⟩ := Stmt.arranged_iff.mp body_arranged
  obtain ⟨body_plain, place⟩ := plans.reported
  have inner : ∃ inner, loop.body.statementsAround shape.reportSpan = loop.body :: inner ∧
      inner.filterMap Stmt.loop? = [] ∧
      shape.reportSpan.Within loop.body.span.start loop.body.span.stop := by
    rcases place with marked | ⟨first, rest, children_eq, first_plain, marked⟩
    · exact ⟨[], parts.statementsAround_eq marked, rfl, (parts.marks _ marked).1⟩
    · have isFirst : first ∈ loop.body.children := children_eq ▸ List.mem_cons_self
      obtain ⟨first_parts, -⟩ := Stmt.arranged_iff.mp (children first isFirst)
      have first_within := parts.children.within_of_mem isFirst
      have inFirst := (first_parts.marks _ marked).1
      have inBody := inFirst.widen (Nat.le_of_succ_le first_within.1) first_within.2.2
      refine ⟨[first], ?_, by simp [first_plain], inBody⟩
      rw [Stmt.statementsAround_eq, if_pos inBody.contains, parts.children.flatMap_eq isFirst
        inFirst fun _ _ outside => Stmt.statementsAround_eq_nil outside,
        first_parts.statementsAround_eq marked]
  obtain ⟨inner, path, plain, inBody⟩ := inner
  have inLoop := inBody.widen (Nat.le_of_succ_le body_within.1) body_within.2.2
  refine ⟨inLoop, loop.body :: inner, ?_, by simp [body_plain, plain]⟩
  have around : loop.toStmt.span.contains shape.reportSpan = true := inLoop.contains
  rw [Stmt.statementsAround_eq, if_pos around]
  simp [Loop.toStmt, Stmt.children, path]

namespace SourceTree

/-- The innermost loop around the place where a loop is reported is the loop. -/
theorem Arranged.enclosingLoops_eq (arranged : tree.Arranged length) (inTree : loop ∈ tree.loops)
    (plans : loop.Planned resolver options shape planned) :
    ∃ outer, Node.enclosingLoops (tree.nodesAround shape.reportSpan) = loop :: outer := by
  have inside := mem_loops_iff.mp inTree
  obtain ⟨within, inner, path, plain⟩ := plans.statementsAround_eq (arranged.of_mem inside)
  obtain ⟨outer, whole⟩ := arranged.statementsAround_eq inside within
  refine ⟨outer.reverse.filterMap Stmt.loop?, ?_⟩
  have isLoop : loop.toStmt.loop? = some loop := rfl
  have none_inside : inner.reverse.filterMap Stmt.loop? = [] := by
    rw [List.filterMap_reverse, plain, List.reverse_nil]
  rw [Node.enclosingLoops, Node.loops_eq_filterMap, List.filterMap_reverse, whole, path,
    List.reverse_append, List.reverse_cons, List.filterMap_append, List.filterMap_append,
    none_inside, List.filterMap_cons, isLoop]
  rfl

end SourceTree

namespace Action

variable {action : Action} {edit : Edit}

/-- The fix for a loop that is found succeeds, and exchanges that loop for its plan. -/
theorem applyTo_of_found (arranged : tree.Arranged length) (inTree : loop ∈ tree.loops)
    (found : action.refactor.shape? loop action.resolver = some shape)
    (place : shape.reportSpan = action.diagnostic.span) :
    ∃ planned edit, loop.Planned action.resolver action.options shape planned ∧
      action.applyTo tree = .ok edit ∧ edit.region = loop.span ∧
      SourceTree.Exchanged loop.toStmt planned.tidied tree edit.tree := by
  obtain ⟨-, planned, plans⟩ := Loop.planned_of_shape? action.options found
  obtain ⟨outer, innermost⟩ := arranged.enclosingLoops_eq inTree plans
  obtain ⟨after, replaced, exchanged⟩ :=
    arranged.replaceStmt? planned.tidied (SourceTree.mem_loops_iff.mp inTree)
  refine ⟨planned, ⟨after, loop.span⟩, plans, ?_, rfl, exchanged⟩
  rw [place] at innermost
  have kept : (action.refactor.shape? loop action.resolver).filter
      (·.reportSpan = action.diagnostic.span) = some shape := by
    simp [found, place]
  have edits : tree.edit? planned = some ⟨after, loop.span⟩ := by
    simp only [SourceTree.edit?, plans.span_eq]
    exact congrArg (Option.map _) replaced
  simp only [applyTo, innermost, kept, plans.plan_eq, edits]

/-- A fix that succeeds was made for a loop that is found. -/
theorem found_of_applyTo (applied : action.applyTo tree = .ok edit) :
    ∃ loop ∈ tree.loops, ∃ shape, action.refactor.shape? loop action.resolver = some shape ∧
      shape.reportSpan = action.diagnostic.span := by
  unfold applyTo at applied
  simp only at applied
  split at applied
  · simp at applied
  · rename_i loop outer innermost
    split at applied
    · simp at applied
    · rename_i shape kept
      obtain ⟨found, place⟩ := Option.filter_eq_some_iff.mp kept
      refine ⟨loop, ?_, shape, found, by simpa using place⟩
      exact SourceTree.mem_loops_of_mem_enclosingLoops (innermost ▸ List.mem_cons_self)

/-- The fix for a finding of any scan succeeds, and exchanges the one statement with
the span of the loop for its plan. -/
theorem applyTo_of_finding {finding : Finding} (arranged : tree.Arranged length)
    (found : finding ∈ tree.findings action.resolver options)
    (kind : Refactor.ofShape finding.shape = action.refactor)
    (place : finding.shape.reportSpan = action.diagnostic.span) :
    ∃ (loop planned : Loop) (edit : Edit),
      tree.statements.filter (·.span = finding.loopSpan) = [loop.toStmt] ∧
      loop.Planned action.resolver action.options finding.shape planned ∧
      action.applyTo tree = .ok edit ∧ edit.region = finding.loopSpan ∧
      SourceTree.Exchanged loop.toStmt planned.tidied tree edit.tree := by
  obtain ⟨loop, inTree, inShapes⟩ := List.mem_flatMap.mp found
  obtain ⟨shape, isShape, rfl⟩ := List.mem_map.mp inShapes
  have recognized := Loop.shape?_of_mem_shapes isShape
  rw [kind] at recognized
  obtain ⟨planned, edit, plans, applied, region, exchanged⟩ :=
    applyTo_of_found arranged inTree recognized place
  exact ⟨loop, planned, edit, arranged.filter_span_eq (SourceTree.mem_loops_iff.mp inTree),
    plans, applied, region, exchanged⟩

theorem arranged_applyTo (arranged : tree.Arranged length)
    (applied : action.applyTo tree = .ok edit) : edit.tree.Arranged length := by
  obtain ⟨loop, inTree, shape, found, place⟩ := found_of_applyTo applied
  obtain ⟨planned, edit', plans, applied', -, exchanged⟩ :=
    applyTo_of_found arranged inTree found place
  obtain rfl : edit' = edit := by simpa using applied'.symm.trans applied
  exact exchanged.arranged plans.span_tidied
    (plans.arranged_tidied (arranged.of_mem (SourceTree.mem_loops_iff.mp inTree))) arranged

end Action

theorem Diagnostic.refactor_eq_ok {diagnostic : Diagnostic} {refactor : Refactor}
    (tagged : diagnostic.refactorTag = some refactor.tag) : diagnostic.refactor = .ok refactor := by
  rw [Diagnostic.refactor, tagged]
  cases refactor <;> rfl

namespace Document

/-- The documents that opening a text and applying fixes lead to. -/
inductive Reachable : Document → Prop
  | opened (source path : String) : Reachable (Document.parse source path).1
  | fixed {document : Document} {edit : Edit} {cancelled : Bool} (action : Action)
      (before : Reachable document) (applied : action.apply document cancelled = .ok edit) :
      Reachable { document with tree := edit.tree }

theorem Reachable.arranged {document : Document} (reachable : document.Reachable) :
    document.tree.Arranged (Text.byteLength document.source.toList) := by
  induction reachable with
  | opened source path => exact SourceTree.arranged_parse source
  | @fixed document edit cancelled action before applied ih =>
      unfold Action.apply at applied
      split at applied
      · simp at applied
      · exact Action.arranged_applyTo ih applied

theorem actions_singleton (host : Document) (config : Config) (resolver : Resolver)
    {diagnostic : Diagnostic} {refactor : Refactor} (fixable : diagnostic.id = fixableId)
    (tagged : diagnostic.refactorTag = some refactor.tag) :
    ∃ action, host.actions [diagnostic] config resolver = ([action], []) ∧
      action.refactor = refactor ∧ action.diagnostic = diagnostic ∧
      action.options = config.options ∧ action.resolver = resolver := by
  have known := Diagnostic.refactor_eq_ok tagged
  refine ⟨⟨"Convert to " ++ refactor.pipelineMethod, refactor, diagnostic, config.options,
    resolver⟩, ?_, rfl, rfl, rfl, rfl⟩
  simp [actions, fixable, known]

/-- The fix that is registered for a diagnostic, reported, stale or made up, applies
to a document exactly if a scan for both kinds finds a loop of its kind at its span.
Then the one statement with the span of that loop is exchanged for the plan. -/
theorem registered_applies_iff_found (host : Document) {document : Document}
    (reachable : document.Reachable) (config : Config) (resolver : Resolver)
    (diagnostic : Diagnostic) (refactor : Refactor) (fixable : diagnostic.id = fixableId)
    (tagged : diagnostic.refactorTag = some refactor.tag) :
    ∃ action findings,
      host.actions [diagnostic] config resolver = ([action], []) ∧
      document.tree.scan resolver
        { config.options with reportFilters := true, reportMaps := true } false = .ok findings ∧
      ((∃ edit, action.apply document false = .ok edit) ↔
        ∃ finding ∈ findings, Refactor.ofShape finding.shape = refactor ∧
          finding.shape.reportSpan = diagnostic.span) ∧
      ∀ finding ∈ findings, Refactor.ofShape finding.shape = refactor →
        finding.shape.reportSpan = diagnostic.span →
        ∃ (loop planned : Loop) (edit : Edit),
          document.tree.statements.filter (·.span = finding.loopSpan) = [loop.toStmt] ∧
          loop.plan finding.shape resolver config.options = .ok planned ∧
          action.apply document false = .ok edit ∧ edit.region = finding.loopSpan ∧
          SourceTree.Exchanged loop.toStmt planned.tidied document.tree edit.tree := by
  have arranged := reachable.arranged
  obtain ⟨action, registered, rfl, rfl, options_eq, rfl⟩ :=
    actions_singleton host config resolver fixable tagged
  refine ⟨action, _, registered, rfl, ⟨?_, ?_⟩, ?_⟩
  · rintro ⟨edit, applied⟩
    obtain ⟨loop, inTree, shape, found, place⟩ := Action.found_of_applyTo applied
    obtain ⟨kind, -⟩ := Loop.planned_of_shape? config.options found
    refine ⟨⟨loop.span, shape⟩, List.mem_flatMap.mpr ⟨loop, inTree, ?_⟩, kind, place⟩
    refine List.mem_map.mpr ⟨shape, (Loop.mem_shapes_iff _ rfl rfl).mpr ?_, rfl⟩
    rw [kind]
    exact found
  · rintro ⟨finding, found, kind, place⟩
    obtain ⟨-, -, edit, -, -, applied, -⟩ := Action.applyTo_of_finding arranged found kind place
    exact ⟨edit, applied⟩
  · intro finding found kind place
    obtain ⟨loop, planned, edit, only, plans, applied, region, exchanged⟩ :=
      Action.applyTo_of_finding arranged found kind place
    exact ⟨loop, planned, edit, only, options_eq ▸ plans.plan_eq, applied, region, exchanged⟩

/-- A made-up diagnostic at the condition of a lone `if`. -/
theorem registered_applies_iff_found_lone_if :
    let document := (Document.parse "foreach (var a in b) \x7b if (a.Ok) F(); \x7d" "").1
    let diagnostic : Diagnostic := ⟨fixableId, .info, "", ⟨27, 31⟩, "", some "--ContainingIf"⟩
    ∃ action edit, document.actions [diagnostic] {} .textual = ([action], []) ∧
      action.apply document false = .ok edit ∧ edit.region = ⟨0, 39⟩ := by
  intro document diagnostic
  obtain ⟨action, findings, registered, scanned, -, succeeds⟩ :=
    registered_applies_iff_found document (.opened _ _) {} .textual diagnostic .containingIf
      rfl rfl
  have found : ⟨⟨0, 39⟩, .filterIf ⟨27, 31⟩ ⟨33, 37⟩⟩ ∈ document.tree.findings .textual {} := by
    decide +kernel
  obtain ⟨loop, planned, edit, -, -, applied, region, -⟩ :=
    succeeds _ (Except.ok.inj scanned ▸ found) rfl rfl
  exact ⟨action, edit, registered, applied, region⟩

end Document

end QueryLoop
