import QueryLoop.Proofs.Fixing.Applied
import Mathlib.Data.List.Nodup

namespace QueryLoop

namespace Stmt

/-- `second` comes later than `first`: it lies behind it or is inside it. -/
def Earlier (first second : Stmt) : Prop :=
  first.span.Before second.span ∨ ∃ child ∈ first.children, second ∈ child.statements

end Stmt

/-- What lies in elements that lie apart is in order if it is in each of them. -/
theorem Spread.pairwise_flatMap {α : Type} {place : α → Span} {lower upper : Nat} {items : List α}
    {inside : α → List Stmt} (spread : Spread place lower upper items)
    (within : ∀ item ∈ items, ∀ stmt ∈ inside item,
      stmt.span.Within (place item).start (place item).stop)
    (each : ∀ item ∈ items, (inside item).Pairwise Stmt.Earlier) :
    (items.flatMap inside).Pairwise Stmt.Earlier := by
  rw [List.pairwise_flatMap]
  refine ⟨each, spread.pairwise.imp_of_mem ?_⟩
  intro item other isItem isOther apart first isFirst second isSecond
  have front := within item isItem first isFirst
  have back := within other isOther second isSecond
  left
  unfold Span.Before Span.Within at *
  omega

theorem Stmt.Arranged.start_le {stmt inner : Stmt} (arranged : stmt.Arranged)
    (inside : inner ∈ stmt.statements) : stmt.span.start ≤ inner.span.start := by
  rcases arranged.eq_or_within inside with rfl | deeper
  · exact Nat.le_refl _
  · exact Nat.le_of_succ_le deeper.1

theorem Stmt.Arranged.within {stmt inner : Stmt} (arranged : stmt.Arranged)
    (nonempty : stmt.span.start < stmt.span.stop) (inside : inner ∈ stmt.statements) :
    inner.span.Within stmt.span.start stmt.span.stop := by
  rcases arranged.eq_or_within inside with rfl | deeper
  · exact Span.within_self nonempty
  · exact deeper.widen (Nat.le_succ _) (Nat.le_refl _)

theorem Stmt.Arranged.pairwise_earlier {stmt : Stmt} (arranged : stmt.Arranged) :
    stmt.statements.Pairwise Stmt.Earlier := by
  induction stmt using children_induction with
  | step stmt ih =>
      obtain ⟨parts, children⟩ := arranged_iff.mp arranged
      rw [statements_eq, List.pairwise_cons]
      constructor
      · intro inner isInner
        exact .inr (List.mem_flatMap.mp isInner)
      · refine parts.children.pairwise_flatMap ?_ fun child isChild =>
          ih child isChild (children child isChild)
        intro child isChild inner isInner
        exact (children child isChild).within (parts.children.within_of_mem isChild).2.1 isInner

theorem Item.Arranged.pairwise_earlier {item : Item} (arranged : item.Arranged) :
    item.statements.Pairwise Stmt.Earlier := by
  induction arranged with
  | @intro item parts subitems stmts ih =>
      have ordered : (item.subitems.flatMap statements).Pairwise Stmt.Earlier :=
        parts.subitems.pairwise_flatMap (fun child isChild _ => (subitems child isChild).within) ih
      have ordered' : (item.stmts.flatMap Stmt.statements).Pairwise Stmt.Earlier := by
        refine parts.stmts.pairwise_flatMap ?_ fun stmt isStmt =>
          (stmts stmt isStmt).pairwise_earlier
        intro stmt isStmt inner isInner
        exact (stmts stmt isStmt).within (parts.stmts.within_of_mem isStmt).2.1 isInner
      rw [statements_eq]
      rcases item.subitems_eq_nil_or_stmts_eq_nil with none | none
      · simpa [none] using ordered'
      · simpa [none] using ordered

theorem SourceTree.Arranged.pairwise_earlier {length : Nat} {tree : SourceTree}
    (arranged : tree.Arranged length) : tree.statements.Pairwise Stmt.Earlier := by
  rw [statements_eq]
  exact arranged.spread.pairwise_flatMap
    (fun item isItem _ => (arranged.items item isItem).within)
    fun item isItem => (arranged.items item isItem).pairwise_earlier

namespace Loop

variable {resolver : Resolver} {options : ScanOptions} {loop planned : Loop} {shape : Shape}

/-- A loop inside another one lies behind the place where the outer one is reported. -/
theorem Planned.reported_before_inner {inner : Loop}
    (plans : Planned resolver options loop shape planned) (arranged : loop.toStmt.Arranged)
    (inside : inner.toStmt ∈ loop.body.statements) : shape.reportSpan.Before inner.span := by
  obtain ⟨-, body_arranged⟩ := (arranged_toStmt_iff loop).mp arranged
  obtain ⟨parts, children⟩ := Stmt.arranged_iff.mp body_arranged
  obtain ⟨body_plain, place⟩ := plans.reported
  have isLoop : inner.toStmt.loop? = some inner := rfl
  rw [Stmt.statements_eq, List.mem_cons, List.mem_flatMap] at inside
  rcases inside with same | ⟨child, isChild, inside⟩
  · simp [← same, isLoop] at body_plain
  have child_start := (children child isChild).start_le inside
  rcases place with marked | ⟨first, rest, children_eq, first_plain, marked⟩
  · exact Nat.le_trans ((parts.marks _ marked).2 child isChild) child_start
  have spread := parts.children
  rw [children_eq] at spread isChild
  obtain ⟨first_parts, grandchildren⟩ := Stmt.arranged_iff.mp
    (children first (children_eq ▸ List.mem_cons_self))
  obtain ⟨inFirst, ahead⟩ := first_parts.marks _ marked
  rcases List.mem_cons.mp isChild with rfl | later
  · rw [Stmt.statements_eq, List.mem_cons, List.mem_flatMap] at inside
    rcases inside with same | ⟨grandchild, isGrandchild, inside⟩
    · simp [← same, isLoop] at first_plain
    · exact Nat.le_trans (ahead grandchild isGrandchild)
        ((grandchildren grandchild isGrandchild).start_le inside)
  · exact Nat.le_trans (Nat.le_trans inFirst.2.2 (spread.2.within_of_mem later).1) child_start

/-- A declaration in front is no guard and no lone `if`. -/
theorem map?_eq_none (found : loop.filter? resolver = some shape) : loop.map? resolver = none := by
  rw [Option.eq_none_iff_forall_ne_some]
  intro other projects
  obtain ⟨kind, planned, plans⟩ := planned_of_map? {} projects
  cases plans with
  | @map span declSpan headSpan type name init lambda others rest blockOf made =>
      cases rest <;> simp [filter?, filterIf?, filterIfContinue?, blockOf, Stmt.loneIf?,
        Stmt.branches?] at found
  | filterIf => simp [Refactor.ofShape] at kind
  | filterIfContinue => simp [Refactor.ofShape] at kind

theorem shapes_length_le_one (loop : Loop) (resolver : Resolver) (options : ScanOptions) :
    (loop.shapes resolver options).length ≤ 1 := by
  rw [shapes, List.length_append]
  cases filters : loop.filter? resolver with
  | none => split <;> split <;> simp [Option.length_toList_le]
  | some shape =>
      rw [map?_eq_none filters]
      split <;> simp

/-- What a loop is reported with belongs to a plan for it. -/
theorem planned_of_mem_shapes (found : shape ∈ loop.shapes resolver options) :
    ∃ planned, Planned resolver options loop shape planned :=
  (planned_of_shape? options (shape?_of_mem_shapes found)).2

end Loop

/-- The first is reported earlier than the second, and so is its loop. -/
def Finding.Earlier (first second : Finding) : Prop :=
  first.loopSpan.start < second.loopSpan.start ∧
    first.shape.reportSpan.start < second.shape.reportSpan.start

/-- The report of a later loop is later, wherever in the two loops they are reported. -/
theorem Loop.Planned.earlier {resolver : Resolver} {options : ScanOptions}
    {loop loop' planned planned' : Loop} {shape shape' : Shape}
    (plans : Planned resolver options loop shape planned) (arranged : loop.toStmt.Arranged)
    (plans' : Planned resolver options loop' shape' planned') (arranged' : loop'.toStmt.Arranged)
    (earlier : loop.toStmt.Earlier loop'.toStmt) :
    Finding.Earlier ⟨loop.span, shape⟩ ⟨loop'.span, shape'⟩ := by
  obtain ⟨inLoop, -⟩ := plans.statementsAround_eq arranged
  obtain ⟨inLoop', -⟩ := plans'.statementsAround_eq arranged'
  suffices loop.span.start < loop'.span.start ∧ shape.reportSpan.Before loop'.span by
    obtain ⟨starts, before⟩ := this
    exact ⟨starts, Nat.lt_of_lt_of_le inLoop.2.1 (Nat.le_trans before inLoop'.1)⟩
  rcases earlier with before | ⟨body, isBody, inside⟩
  · have before : loop.span.stop ≤ loop'.span.start := before
    unfold Span.Before Span.Within at *
    omega
  · obtain rfl := List.mem_singleton.mp isBody
    obtain ⟨body_within, body_arranged⟩ := (Loop.arranged_toStmt_iff loop).mp arranged
    have deeper : loop.body.span.start ≤ loop'.span.start := body_arranged.start_le inside
    exact ⟨Nat.lt_of_lt_of_le body_within.1 deeper, plans.reported_before_inner arranged inside⟩

namespace SourceTree

variable {length : Nat} {tree : SourceTree} {finding : Finding}

/-- A finding is about one statement of the tree, and is reported inside it. -/
theorem Arranged.loop_of_finding (arranged : tree.Arranged length) {resolver : Resolver}
    {options : ScanOptions} (found : finding ∈ tree.findings resolver options) :
    ∃ loop ∈ tree.loops, tree.statements.filter (·.span = finding.loopSpan) = [loop.toStmt] ∧
      finding.shape.reportSpan.Within finding.loopSpan.start finding.loopSpan.stop := by
  obtain ⟨loop, inTree, found⟩ := List.mem_flatMap.mp found
  obtain ⟨shape, isShape, rfl⟩ := List.mem_map.mp found
  obtain ⟨planned, plans⟩ := Loop.planned_of_mem_shapes isShape
  have inside := mem_loops_iff.mp inTree
  exact ⟨loop, inTree, arranged.filter_span_eq inside,
    (plans.statementsAround_eq (arranged.of_mem inside)).1⟩

theorem Arranged.findings_pairwise (arranged : tree.Arranged length) (resolver : Resolver)
    (options : ScanOptions) : (tree.findings resolver options).Pairwise Finding.Earlier := by
  have loops_pairwise : tree.loops.Pairwise fun first second =>
      first.toStmt.Earlier second.toStmt := by
    rw [loops_eq]
    refine arranged.pairwise_earlier.filterMap _ ?_
    intro first second earlier loop isLoop loop' isLoop'
    rwa [← Stmt.loop?_eq_some_iff.mp isLoop, ← Stmt.loop?_eq_some_iff.mp isLoop']
  rw [findings, List.pairwise_flatMap]
  constructor
  · intro loop inTree
    rw [List.pairwise_map]
    have few := loop.shapes_length_le_one resolver options
    match loop.shapes resolver options, few with
    | [], _ => exact .nil
    | [shape], _ => exact List.pairwise_singleton _ _
  · refine loops_pairwise.imp_of_mem ?_
    intro loop loop' inTree inTree' earlier finding found finding' found'
    obtain ⟨shape, isShape, rfl⟩ := List.mem_map.mp found
    obtain ⟨shape', isShape', rfl⟩ := List.mem_map.mp found'
    obtain ⟨planned, plans⟩ := Loop.planned_of_mem_shapes isShape
    obtain ⟨planned', plans'⟩ := Loop.planned_of_mem_shapes isShape'
    exact plans.earlier (arranged.of_mem (mem_loops_iff.mp inTree)) plans'
      (arranged.of_mem (mem_loops_iff.mp inTree')) earlier

end SourceTree

/-- Findings with the same loop are the same finding, and so are those reported at the
same place. -/
theorem Finding.nodup_of_pairwise {findings : List Finding} (ordered : findings.Pairwise Earlier) :
    (findings.map fun finding => finding.loopSpan).Nodup ∧
      (findings.map fun finding => finding.shape.reportSpan).Nodup := by
  constructor
  · refine List.pairwise_map.mpr (ordered.imp ?_)
    intro first second earlier same
    exact Nat.ne_of_lt earlier.1 (congrArg Span.start same)
  · refine List.pairwise_map.mpr (ordered.imp ?_)
    intro first second earlier same
    exact Nat.ne_of_lt earlier.2 (congrArg Span.start same)

namespace Document

/-- Of each loop a scan finds at most one shape, in the order of the source.  The place
where a loop is reported lies in the loop, and no two diagnostics have the same one. -/
theorem Reachable.findings_in_order {document : Document} (reachable : document.Reachable)
    (config : Config) (resolver : Resolver) :
    ∃ findings, document.tree.scan resolver config.options false = .ok findings ∧
      (∀ loop ∈ document.tree.loops,
        (findings.filter (·.loopSpan = loop.span)).length ≤ 1) ∧
      (∀ finding ∈ findings, ∃ loop ∈ document.tree.loops,
        document.tree.statements.filter (·.span = finding.loopSpan) = [loop.toStmt] ∧
        finding.shape.reportSpan.Within finding.loopSpan.start finding.loopSpan.stop) ∧
      findings.Pairwise Finding.Earlier ∧
      ∀ cancelled, ((document.analyze config resolver cancelled).map Diagnostic.span).Nodup := by
  have ordered := reachable.arranged.findings_pairwise resolver config.options
  obtain ⟨loops_differ, places_differ⟩ := Finding.nodup_of_pairwise ordered
  refine ⟨_, rfl, ?_, fun finding found => reachable.arranged.loop_of_finding found, ordered, ?_⟩
  · intro loop inTree
    have once := List.nodup_iff_count_le_one.mp loops_differ loop.span
    rw [List.count_eq_countP, List.countP_map, List.countP_eq_length_filter] at once
    exact once
  · intro cancelled
    unfold analyze
    split
    · split
      · rename_i findings scanned
        unfold SourceTree.scan at scanned
        split at scanned
        · cases scanned
        · obtain rfl := Except.ok.inj scanned
          rw [List.map_map]
          exact places_differ
      · exact .nil
    · exact .nil

/-- A guard with a loop behind it, which projects. -/
theorem findings_in_order_nested_loops :
    let document := (Document.parse "foreach (var a in b) \x7b if (a.Ok) continue;
      foreach (var c in a.D) \x7b var d = c.E; F(d); \x7d \x7d" "").1
    let findings : List Finding :=
      [⟨⟨0, 96⟩, .filterIfContinue ⟨27, 31⟩ ⟨23, 42⟩⟩, ⟨⟨49, 94⟩, .map "d" ⟨78, 85⟩ ⟨82, 85⟩⟩]
    document.tree.scan .textual {} false = .ok findings ∧ findings.Pairwise Finding.Earlier := by
  intro document findings
  have reachable : document.Reachable := .opened _ _
  obtain ⟨found, scanned, -, -, ordered, -⟩ := reachable.findings_in_order {} .textual
  have expected : document.tree.scan .textual {} false = .ok findings := by decide +kernel
  exact ⟨expected, Except.ok.inj (scanned.symm.trans expected) ▸ ordered⟩

end Document

end QueryLoop
