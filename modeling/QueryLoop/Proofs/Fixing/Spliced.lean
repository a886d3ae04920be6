import QueryLoop.Format.Source
import QueryLoop.Proofs.Fixing.Local

namespace QueryLoop

/-! Fixed statements in the source text.

The outermost regions of a run lie apart, each is the span of one statement of the last
tree, and each starts and ends between characters of the source.  They are replaced
from the back, so that the text in front of a region is still that of the source when
its turn comes: what is left of the source is all that lies outside the regions, and
what is put in depends on the statement, the format and the line in front of it.
-/

namespace Text

theorem byteLength_eq_zero_iff {chars : List Char} : byteLength chars = 0 ↔ chars = [] := by
  cases chars with
  | nil => simp
  | cons c rest =>
      have positive := c.utf8Size_pos
      simp only [byteLength_cons, reduceCtorEq, iff_false]
      omega

/-- A boundary of a text that is not behind a part at its front is a boundary of the part. -/
theorem Boundary.of_append {front back : List Char} {offset : Nat}
    (boundary : Boundary (front ++ back) offset) (ahead : offset ≤ byteLength front) :
    Boundary front offset := by
  obtain ⟨first, second, whole, rfl⟩ := boundary
  rcases List.append_eq_append_iff.mp whole with ⟨more, rfl, -⟩ | ⟨more, rfl, -⟩
  · have nothing : more = [] := by
      rw [byteLength_append] at ahead
      exact byteLength_eq_zero_iff.mp (by omega)
    exact ⟨front, [], by simp, by simp [nothing]⟩
  · exact ⟨first, more, rfl, rfl⟩

/-- A text cut at two boundaries. -/
theorem Boundary.cut {chars : List Char} {start stop : Nat} (atStart : Boundary chars start)
    (atStop : Boundary chars stop) (ordered : start ≤ stop) :
    ∃ front middle back, chars = front ++ middle ++ back ∧ byteLength front = start ∧
      byteLength (front ++ middle) = stop := by
  obtain ⟨upTo, back, rfl, rfl⟩ := atStop
  obtain ⟨front, middle, rfl, rfl⟩ := atStart.of_append ordered
  exact ⟨front, middle, back, rfl, rfl, rfl⟩

end Text

/-- In a text that stands behind `front`, the regions, one behind the other, are replaced
by the statements with their spans, and the text outside them is kept. -/
inductive Spliced (tree : SourceTree) (format : Format) :
    (front : List Char) → (regions : List Span) → (text result : List Char) → Prop
  | rest (front text : List Char) : Spliced tree format front [] text text
  | region {front gap old text result : List Char} {regions : List Span} {stmt : Stmt}
      (found : tree.statements.filter (·.span = stmt.span) = [stmt])
      (start : stmt.span.start = Text.byteLength (front ++ gap))
      (stop : stmt.span.stop = Text.byteLength (front ++ gap ++ old))
      (later : Spliced tree format (front ++ gap ++ old) regions text result) :
      Spliced tree format front (stmt.span :: regions) (gap ++ old ++ text)
        (gap ++ stmt.renderIndented format (leadingBlanks (lastLine (front ++ gap))) ++ result)

namespace Spliced

variable {tree : SourceTree} {format : Format} {front text result : List Char}
  {regions : List Span} {stmt : Stmt}

/-- One more region, behind all others. -/
theorem append (spliced : Spliced tree format front regions text result)
    (found : tree.statements.filter (·.span = stmt.span) = [stmt]) (old back : List Char)
    (start : stmt.span.start = Text.byteLength (front ++ text))
    (stop : stmt.span.stop = Text.byteLength (front ++ text ++ old)) :
    Spliced tree format front (regions ++ [stmt.span]) (text ++ old ++ back)
      (result ++ stmt.renderIndented format (leadingBlanks (lastLine (front ++ text))) ++ back) := by
  induction spliced with
  | rest front text => exact .region found start stop (.rest _ back)
  | @region front gap old' text result regions other found' start' stop' later ih =>
      have more := ih (by simpa using start) (by simpa using stop)
      have whole := Spliced.region found' start' stop' more
      simpa only [List.append_assoc, List.cons_append] using whole

end Spliced

namespace SourceTree

variable {length : Nat} {tree : SourceTree} {stmt : Stmt}

/-- Looking up the span of a statement finds the statement. -/
theorem Arranged.stmtAt?_eq (arranged : tree.Arranged length) (inside : stmt ∈ tree.statements) :
    Node.stmtAt? (tree.nodesAround stmt.span) stmt.span = some stmt := by
  obtain ⟨outer, path⟩ :=
    arranged.statementsAround_eq inside (Span.within_self (arranged.within inside).2.1)
  have self : stmt.statementsAround stmt.span = stmt :: stmt.children.flatMap
      (Stmt.statementsAround stmt.span) := by
    rw [Stmt.statementsAround_eq, if_pos (Span.contains_refl _)]
  have listed : stmt ∈ (tree.nodesAround stmt.span).filterMap Node.stmt? := by
    simp [path, self]
  cases found : Node.stmtAt? (tree.nodesAround stmt.span) stmt.span with
  | none =>
      rw [Node.stmtAt?, List.find?_eq_none] at found
      exact absurd (found stmt listed) (by simp)
  | some other =>
      rw [Node.stmtAt?] at found
      have same := List.find?_some found
      obtain ⟨node, onTheWay, isStmt⟩ := List.mem_filterMap.mp (List.mem_of_find?_eq_some found)
      have isOther : other ∈ tree.statements := List.mem_filterMap.mpr
        ⟨node, Outline.mem_preorderAll_of_mem_aroundAll onTheWay, isStmt⟩
      have only := arranged.filter_span_eq inside
      have kept : other ∈ tree.statements.filter (·.span = stmt.span) :=
        List.mem_filter.mpr ⟨isOther, same⟩
      rw [only, List.mem_singleton] at kept
      rw [kept]

/-- Regions that are replaced from the back leave the text in front of the others alone. -/
theorem Arranged.spliceRegions_eq (arranged : tree.Arranged length) (format : Format)
    {regions : List Span} {front : List Char} (back : List Char)
    (found : ∀ region ∈ regions, ∃ stmt ∈ tree.statements, stmt.span = region)
    (boundaries : ∀ region ∈ regions, Text.Boundary front region.start ∧
      Text.Boundary front region.stop)
    (ordered : regions.Pairwise fun later earlier => earlier.Before later) :
    ∃ result, Spliced tree format [] regions.reverse front result ∧
      spliceRegions tree format regions (front ++ back) = (result ++ back, []) := by
  induction regions generalizing front back with
  | nil => exact ⟨front, .rest [] front, rfl⟩
  | cons region regions ih =>
      obtain ⟨⟨stmt, inside, rfl⟩, others⟩ := List.forall_mem_cons.mp found
      obtain ⟨⟨atStart, atStop⟩, otherEnds⟩ := List.forall_mem_cons.mp boundaries
      obtain ⟨ahead, apart⟩ := List.pairwise_cons.mp ordered
      have nonempty := (arranged.within inside).2.1
      obtain ⟨ahead', old, rest, rfl, start, stop⟩ := atStart.cut atStop (Nat.le_of_lt nonempty)
      let new := stmt.renderIndented format (leadingBlanks (lastLine ahead'))
      have inFront : ∀ region ∈ regions, Text.Boundary ahead' region.start ∧
          Text.Boundary ahead' region.stop := by
        intro region isRegion
        obtain ⟨other, isOther, rfl⟩ := others region isRegion
        have before : other.span.stop ≤ stmt.span.start := ahead _ isRegion
        have other_nonempty := (arranged.within isOther).2.1
        obtain ⟨otherStart, otherStop⟩ := otherEnds _ isRegion
        rw [List.append_assoc] at otherStart otherStop
        exact ⟨otherStart.of_append (by omega), otherStop.of_append (by omega)⟩
      obtain ⟨result, spliced, replaced⟩ := ih (new ++ (rest ++ back)) others inFront apart
      refine ⟨result ++ new ++ rest, ?_, ?_⟩
      · rw [List.reverse_cons]
        exact spliced.append (arranged.filter_span_eq inside) old rest start.symm stop.symm
      · have first : Text.splitBytes? (ahead' ++ old ++ rest ++ back) stmt.span.start =
            some (ahead', old ++ (rest ++ back)) := by
          rw [← start, List.append_assoc, List.append_assoc]
          exact Text.splitBytes?_append ahead' _
        have second : Text.splitBytes? (old ++ (rest ++ back))
            (stmt.span.stop - stmt.span.start) = some (old, rest ++ back) := by
          rw [← start, ← stop, Text.byteLength_append, Nat.add_sub_cancel_left]
          exact Text.splitBytes?_append old _
        simp only [spliceRegions, arranged.stmtAt?_eq inside, first, second]
        simpa only [List.append_assoc] using replaced

end SourceTree

theorem nodup_eraseDups (regions : List Span) : regions.eraseDups.Nodup := by
  induction count : regions.length using Nat.strongRecOn generalizing regions with
  | ind size ih =>
      cases regions with
      | nil => simp
      | cons region regions =>
          have fewer := List.length_filter_le (fun other => !other == region) regions
          rw [List.length_cons] at count
          rw [List.eraseDups_cons, List.nodup_cons]
          refine ⟨by simp, ih _ (by omega) _ rfl⟩

/-- Spans of statements of which none lies in another, with later starts first, lie one
behind the other. -/
theorem fromTheBack_pairwise {length : Nat} {tree : SourceTree} {regions : List Span}
    (arranged : tree.Arranged length)
    (found : ∀ region ∈ regions, ∃ stmt ∈ tree.statements, stmt.span = region) :
    (fromTheBack (outermostRegions regions)).Pairwise fun later earlier => earlier.Before later := by
  have decided : (fromTheBack (outermostRegions regions)).Pairwise
      fun later earlier => decide (earlier.start ≤ later.start) = true := by
    refine List.pairwise_mergeSort (fun first second third => ?_) (fun first second => ?_) _
    · simp only [decide_eq_true_eq]
      omega
    · simp only [Bool.or_eq_true, decide_eq_true_eq]
      omega
  have sorted : (fromTheBack (outermostRegions regions)).Pairwise
      fun later earlier => earlier.start ≤ later.start := by
    simpa only [decide_eq_true_eq] using decided
  have distinct : (fromTheBack (outermostRegions regions)).Nodup :=
    (List.mergeSort_perm _ _).nodup_iff.mpr (nodup_eraseDups _)
  refine (sorted.and distinct).imp_of_mem ?_
  intro later earlier isLater isEarlier ⟨starts, different⟩
  have member : ∀ {region}, region ∈ fromTheBack (outermostRegions regions) →
      region ∈ outermostRegions regions := (List.mergeSort_perm _ _).mem_iff.mp
  obtain ⟨isLater, lateOutermost⟩ := mem_outermostRegions_iff.mp (member isLater)
  obtain ⟨isEarlier, earlyOutermost⟩ := mem_outermostRegions_iff.mp (member isEarlier)
  obtain ⟨late, inside, rfl⟩ := found later isLater
  obtain ⟨early, inside', rfl⟩ := found earlier isEarlier
  rcases arranged.laminar inside inside' with apart | around | around
  · have nonempty := (arranged.within inside).2.1
    have nonempty' := (arranged.within inside').2.1
    unfold Span.Apart Span.Before at *
    omega
  · exact absurd (earlyOutermost _ isLater around) different
  · exact absurd (lateOutermost _ isEarlier around).symm different

namespace Document

variable {document last : Document} {regions : List Span}

theorem FixedTo.source_eq (run : FixedTo document regions last) :
    last.source = document.source := by
  induction run with
  | done document => rfl
  | step action applied later ih => exact ih

/-- The regions of a run are spans of statements of the last tree. -/
theorem FixedTo.mem_statements (run : FixedTo document regions last)
    (reachable : document.Reachable) :
    ∀ region ∈ regions, ∃ stmt ∈ last.tree.statements, stmt.span = region := by
  obtain ⟨kept, listed⟩ := run.loops reachable
  intro region isRegion
  obtain ⟨loop, inTree, rfl⟩ := List.mem_map.mp (kept ▸ listed region isRegion)
  exact ⟨loop.toStmt, SourceTree.mem_loops_iff.mp inTree, rfl⟩

/-- The outermost regions of a run are put into the source, one behind the other. -/
theorem FixedTo.spliced (run : document.FixedTo regions last) (reachable : document.Reachable)
    (format : Format) :
    ∃ outermost text, outermost.Perm (outermostRegions regions) ∧
      outermost.Pairwise Span.Before ∧
      (∀ region ∈ outermost, Text.Boundary document.source.toList region.start ∧
        Text.Boundary document.source.toList region.stop ∧
        ∃ stmt, last.tree.statements.filter (·.span = region) = [stmt]) ∧
      Spliced last.tree format [] outermost document.source.toList text ∧
      splice document.source last.tree regions format = (String.ofList text, []) := by
  have reached := run.reachable reachable
  have arranged := reached.arranged
  have found := run.mem_statements reachable
  let ordered := fromTheBack (outermostRegions regions)
  have perm : ordered.Perm (outermostRegions regions) := List.mergeSort_perm _ _
  have isRegion : ∀ region ∈ ordered, region ∈ regions := fun region listed =>
    (mem_outermostRegions_iff.mp (perm.mem_iff.mp listed)).1
  have boundaries : ∀ region ∈ ordered, Text.Boundary document.source.toList region.start ∧
      Text.Boundary document.source.toList region.stop := by
    intro region listed
    obtain ⟨stmt, inside, rfl⟩ := found region (isRegion region listed)
    exact run.source_eq ▸ reached.anchored.1 stmt inside
  have apart := fromTheBack_pairwise arranged found
  obtain ⟨text, spliced, replaced⟩ := arranged.spliceRegions_eq format []
    (fun region listed => found region (isRegion region listed)) boundaries apart
  rw [List.append_nil, List.append_nil] at replaced
  refine ⟨ordered.reverse, text, (List.reverse_perm ordered).trans perm,
    List.pairwise_reverse.mpr apart, ?_, spliced, ?_⟩
  · intro region listed
    have listed := List.mem_reverse.mp listed
    obtain ⟨stmt, inside, rfl⟩ := found region (isRegion region listed)
    exact ⟨(boundaries _ listed).1, (boundaries _ listed).2, stmt, arranged.filter_span_eq inside⟩
  · simp only [splice]
    rw [replaced]

end Document

/-- Only a text without problems is fixed. -/
theorem fixSource_eq_ok_iff {source path text : String} {config : Config} {format : Format}
    {applied : Nat} : fixSource source path config format = .ok (text, applied) ↔
      (Document.parse source path).2 = [] ∧
        (splice source ((Document.parse source path).1.fixUntilDone config).document.tree
          ((Document.parse source path).1.fixUntilDone config).regions format).1 = text ∧
        ((Document.parse source path).1.fixUntilDone config).applied = applied := by
  cases parsed : Document.parse source path with
  | mk document problems =>
      cases problems with
      | nil => simp [fixSource, parsed]
      | cons problem problems => simp [fixSource, parsed]

/-- Where a text can be fixed, the outermost regions of the fixes lie one behind the
other, each the span of one statement of the fixed tree and between characters of the
text; all of them are replaced by their statements, and everything else is kept. -/
theorem fixSource_spliced {source path text : String} {config : Config} {format : Format}
    {applied : Nat} (fixes : fixSource source path config format = .ok (text, applied)) :
    let fixed := (Document.parse source path).1.fixUntilDone config
    ∃ regions, regions.Perm (outermostRegions fixed.regions) ∧
      regions.Pairwise Span.Before ∧
      (∀ region ∈ regions, Text.Boundary source.toList region.start ∧
        Text.Boundary source.toList region.stop ∧
        ∃ stmt, fixed.document.tree.statements.filter (·.span = region) = [stmt]) ∧
      Spliced fixed.document.tree format [] regions source.toList text.toList ∧
      (splice source fixed.document.tree fixed.regions format).2 = [] := by
  intro fixed
  have run : (Document.parse source path).1.FixedTo fixed.regions fixed.document :=
    Document.fixedTo_fixRounds _ config _
  obtain ⟨regions, result, perm, ordered, found, spliced, whole⟩ :=
    run.spliced (.opened source path) format
  have same_source : (Document.parse source path).1.source = source := rfl
  rw [same_source] at found spliced whole
  have text_eq : String.ofList result = text := by
    rw [← (fixSource_eq_ok_iff.mp fixes).2.1, whole]
  refine ⟨regions, perm, ordered, found, ?_, congrArg Prod.snd whole⟩
  rwa [← text_eq, String.toList_ofList]

/-- A loop in a loop, in front of a comment. -/
theorem fixSource_spliced_nested :
    let source := "\"é\"; foreach (var a in b) if (a) foreach (var c in a) if (c) G(); // d"
    ∃ text applied regions, fixSource source "" {} {} = .ok (text, applied) ∧
      regions.Perm [⟨6, 66⟩] ∧
      Spliced ((Document.parse source "").1.fixUntilDone {}).document.tree {} [] regions
        source.toList text.toList := by
  intro source
  have succeeds : (fixSource source "" {} {}).toOption.isSome = true := by
    decide +kernel
  have outermost : outermostRegions ((Document.parse source "").1.fixUntilDone {}).regions =
      [⟨6, 66⟩] := by
    decide +kernel
  clear_value source
  cases fixes : fixSource source "" {} {} with
  | error problems => simp [fixes, Except.toOption] at succeeds
  | ok result =>
      obtain ⟨text, applied⟩ := result
      obtain ⟨regions, perm, -, -, spliced, -⟩ := fixSource_spliced fixes
      exact ⟨text, applied, regions, rfl, outermost ▸ perm, spliced⟩

end QueryLoop
