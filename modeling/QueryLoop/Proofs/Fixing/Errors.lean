import QueryLoop.Proofs.Binding.Parameter
import QueryLoop.Proofs.Fixing.Local
import QueryLoop.Proofs.Place.Errors

namespace QueryLoop

/-- Nothing in the expression was skipped in reading. -/
def Expr.Readable (expr : Expr) : Prop :=
  ∀ node ∈ expr.nodes, node.isError = false

/-- Nothing in the statement was skipped in reading. -/
def Stmt.Readable (stmt : Stmt) : Prop :=
  ∀ node ∈ stmt.nodes, node.isError = false

namespace Expr

variable {expr seq : Expr}

theorem readable_iff : expr.Readable ↔
    (Node.expr expr).isError = false ∧ ∀ part ∈ expr.parts, part.Readable := by
  simp only [Readable, nodes_eq expr, List.forall_mem_cons, List.forall_mem_flatMap]

theorem readable_of_hasError (clean : expr.hasError = false) : expr.Readable := by
  simpa [hasError, Node.hasError, Readable] using clean

theorem Readable.operand (readable : expr.Readable) : expr.operand.Readable := by
  unfold Expr.operand
  split
  · exact readable
  · exact readable_iff.mpr ⟨rfl, by simpa [parts] using readable⟩

theorem Readable.memberCall {args : List Expr} (readable : seq.Readable) (method : String)
    (each : ∀ arg ∈ args, arg.Readable) : (seq.memberCall method args).Readable := by
  refine readable_iff.mpr ⟨rfl, List.forall_mem_cons.mpr ⟨readable_iff.mpr ⟨rfl, ?_⟩, each⟩⟩
  simpa [parts] using readable.operand

theorem Readable.negated (readable : expr.Readable) : expr.negated.Readable := by
  unfold Expr.negated
  split
  · have inParens := (readable_iff.mp readable).2 _ List.mem_cons_self
    exact (readable_iff.mp inParens).2 _ List.mem_cons_self
  · exact (readable_iff.mp readable).2 _ List.mem_cons_self
  · exact readable_iff.mpr ⟨rfl, by simpa [parts] using readable.operand⟩

theorem Readable.rebuild {replace : Expr → Option Expr} (readable : expr.Readable)
    (replaced : ∀ part new : Expr, part.Readable → replace part = some new → new.Readable) :
    (expr.rebuild replace).Readable := by
  induction expr using parts_induction with
  | step expr ih =>
      obtain ⟨own, inside⟩ := readable_iff.mp readable
      rw [Expr.rebuild.eq_def]
      split
      · rename_i new found
        exact replaced expr new readable found
      · -- the node stays and its parts are rebuilt
        have parts := fun part isPart => ih part isPart (inside part isPart)
        cases expr <;>
          first
          | exact readable
          | exact readable_iff.mpr ⟨rfl, by simpa [Expr.parts, rebuildAll_eq_map] using parts⟩

end Expr

namespace Resolver

variable {resolver : Resolver} {expr lambda : Expr} {var preferred : String} {negate : Bool}

theorem readable_renamed (readable : expr.Readable) (param : String) :
    (resolver.renamed var param expr).Readable := by
  refine readable.rebuild fun part new own found => ?_
  split at found
  · exact Option.some.inj found ▸ own
  · split at found
    · exact Option.some.inj found ▸ Expr.readable_iff.mpr ⟨rfl, by simp [Expr.parts]⟩
    · simp at found

theorem readable_lambda? (readable : expr.Readable)
    (made : resolver.lambda? expr var preferred negate = some lambda) : lambda.Readable := by
  unfold lambda? at made
  split at made
  · obtain rfl := Option.some.inj made
    have renamed : (resolver.renamed var (resolver.parameterFor expr var preferred) expr).Readable :=
      readable_renamed readable _
    refine Expr.readable_iff.mpr ⟨rfl, List.forall_mem_singleton.mpr ?_⟩
    split
    · exact renamed.negated
    · exact renamed
  · simp at made

end Resolver

namespace Stmt

variable {stmt : Stmt}

theorem readable_iff : stmt.Readable ↔ (Node.stmt stmt).isError = false ∧
    (∀ expr ∈ stmt.exprs, expr.Readable) ∧ ∀ child ∈ stmt.children, child.Readable := by
  simp only [Readable, Expr.Readable, nodes_eq stmt, List.forall_mem_cons, List.forall_mem_append,
    List.forall_mem_flatMap]

theorem readable_of_hasError (clean : stmt.hasError = false) : stmt.Readable := by
  simpa [hasError, Node.hasError, Readable] using clean

theorem Readable.removeEmptyDecls (readable : stmt.Readable) :
    stmt.removeEmptyDecls.1.Readable := by
  induction stmt using children_induction with
  | step stmt ih =>
      obtain ⟨own, exprs, children⟩ := readable_iff.mp readable
      obtain ⟨-, -, kept, fewer, kept_eq⟩ := removeEmptyDecls_parts stmt
      have shown : (Node.stmt stmt.removeEmptyDecls.1).isError = (Node.stmt stmt).isError ∧
          stmt.removeEmptyDecls.1.exprs = stmt.exprs := by
        cases stmt with
        | decl span declared =>
            obtain ⟨type, declarators⟩ := declared
            cases declarators <;> exact ⟨rfl, rfl⟩
        | _ => simp [Stmt.removeEmptyDecls, Node.isError, Stmt.exprs]
      rw [readable_iff, shown.1, shown.2, kept_eq, List.forall_mem_map]
      exact ⟨own, exprs, fun child isKept =>
        ih child (fewer.subset isKept) (children child (fewer.subset isKept))⟩

theorem readable_block_iff {span : Span} {stmts : List Stmt} :
    (block span stmts).Readable ↔ ∀ stmt ∈ stmts, stmt.Readable := by
  rw [readable_iff]
  simp [Node.isError, exprs, children]

theorem Readable.loneIf (readable : stmt.Readable) {cond : Expr} {body : Stmt}
    (lone : stmt.loneIf? = some (cond, body)) : cond.Readable ∧ body.Readable := by
  have only : ∀ span, (ifThen span cond body).Readable → cond.Readable ∧ body.Readable :=
    fun span whole => by simpa [exprs, children] using (readable_iff.mp whole).2
  unfold loneIf? at lone
  split at lone
  · cases lone
    exact only _ readable
  · cases lone
    exact only _ (readable_block_iff.mp readable _ List.mem_cons_self)
  · simp at lone

theorem Readable.branches (readable : stmt.Readable) {cond : Expr} {body : Stmt}
    {otherwise : Option Stmt} (parts : stmt.branches? = some (cond, body, otherwise)) :
    cond.Readable ∧ ∀ moved ∈ flattened otherwise, moved.Readable := by
  unfold branches? at parts
  split at parts
  · cases parts
    exact ⟨(readable_iff.mp readable).2.1 _ List.mem_cons_self, by simp [flattened]⟩
  · rename_i span cond' body' other
    cases parts
    obtain ⟨-, exprs, children⟩ := readable_iff.mp readable
    have whole : other.Readable := children other (by simp [Stmt.children])
    refine ⟨exprs _ List.mem_cons_self, ?_⟩
    cases other with
    | block span stmts => exact readable_block_iff.mp whole
    | _ => simpa [flattened] using whole
  · simp at parts

end Stmt

namespace Loop

variable {resolver : Resolver} {options : ScanOptions} {loop planned : Loop} {shape : Shape}

theorem readable_toStmt_iff : loop.toStmt.Readable ↔ loop.seq.Readable ∧ loop.body.Readable := by
  rw [Stmt.readable_iff]
  simp [toStmt, Node.isError, Stmt.exprs, Stmt.children]

theorem readable_of_isReadable (readable : loop.isReadable = true) : loop.toStmt.Readable := by
  rw [isReadable, Bool.and_eq_true, Bool.not_eq_true', Bool.not_eq_true'] at readable
  exact readable_toStmt_iff.mpr
    ⟨Expr.readable_of_hasError readable.1, Stmt.readable_of_hasError readable.2⟩

/-- A plan for a loop in which nothing was skipped is made from its parts. -/
theorem Planned.readable (plans : Planned resolver options loop shape planned)
    (readable : loop.toStmt.Readable) : planned.toStmt.Readable := by
  obtain ⟨seq, body⟩ := readable_toStmt_iff.mp readable
  have pipeline : ∀ {expr lambda : Expr} {negate : Bool} (method : String), expr.Readable →
      resolver.lambda? expr (resolver.loopVariable loop) options.lambdaParameter negate =
        some lambda → (loop.seq.memberCall method [lambda]).Readable :=
    fun method own made => seq.memberCall method
      (List.forall_mem_singleton.mpr (Resolver.readable_lambda? own made))
  rw [readable_toStmt_iff]
  cases plans with
  | filterIf lone made =>
      obtain ⟨cond, inside⟩ := body.loneIf lone
      exact ⟨pipeline "Where" cond made, inside⟩
  | filterIfContinue blockOf more parts isContinue made =>
      rw [blockOf, Stmt.readable_block_iff, List.forall_mem_cons] at body
      obtain ⟨cond, moved⟩ := body.1.branches parts
      refine ⟨pipeline "Where" cond made, Stmt.readable_block_iff.mpr ?_⟩
      exact List.forall_mem_append.mpr ⟨moved, body.2⟩
  | map blockOf made =>
      rw [blockOf, Stmt.readable_block_iff, List.forall_mem_cons] at body
      obtain ⟨declared, rest⟩ := body
      have inits := (Stmt.readable_iff.mp declared).2.1
      simp only [Stmt.exprs, LocalDecl.inits, List.filterMap_cons, List.forall_mem_cons] at inits
      refine ⟨pipeline "Select" inits.1 made, Stmt.readable_block_iff.mpr ?_⟩
      exact List.forall_mem_cons.mpr ⟨Stmt.readable_iff.mpr ⟨rfl, inits.2, by simp [Stmt.children]⟩,
        rest⟩

theorem Planned.readable_tidied (plans : Planned resolver options loop shape planned)
    (readable : loop.isReadable = true) : planned.tidied.Readable :=
  (plans.readable (readable_of_isReadable readable)).removeEmptyDecls

end Loop

/-- The statement with an empty statement in place of each statement directly inside. -/
def Stmt.surface : Stmt → Stmt
  | block span stmts => .block span (stmts.map fun stmt => .empty stmt.span)
  | ifThen span cond body => .ifThen span cond (.empty body.span)
  | ifElse span cond body otherwise =>
      .ifElse span cond (.empty body.span) (.empty otherwise.span)
  | foreach span type var varSpan seq body =>
      .foreach span type var varSpan seq (.empty body.span)
  | whileLoop span cond body => .whileLoop span cond (.empty body.span)
  | stmt => stmt

/-- The item without the items and statements directly inside. -/
def Item.surface : Item → Item
  | namespaceOf span path _ => .namespaceOf span path []
  | classOf span modifiers name _ => .classOf span modifiers name []
  | method span modifiers result name params body =>
      .method span modifiers result name params ⟨[], body.span⟩
  | statement span stmt => .statement span (.empty stmt.span)
  | item => item

/-- What a node shows without what is inside the items and statements directly inside. -/
def Node.surface : Node → Node
  | item found => .item found.surface
  | stmt found => .stmt found.surface
  | expr found => .expr found

namespace Node

variable {node : Node}

theorem isError_surface (node : Node) : node.surface.isError = node.isError := by
  cases node with
  | item found => cases found <;> rfl
  | stmt found => cases found <;> rfl
  | expr found => rfl

theorem surface_of_isError (isError : node.isError = true) : node.surface = node := by
  cases node with
  | item found => cases found <;> first | rfl | simp [Node.isError] at isError
  | stmt found => cases found <;> first | rfl | simp [Node.isError] at isError
  | expr found => rfl

/-- The errors among the nodes are those among their surfaces. -/
theorem filter_isError_surface (nodes : List Node) :
    (nodes.map surface).filter isError = nodes.filter isError := by
  induction nodes with
  | nil => rfl
  | cons node nodes ih =>
      cases isError : node.isError with
      | true => simp [isError, ih, surface_of_isError isError]
      | false => simp [isError_surface, isError, ih]

theorem errorsInFront_surface (node : Node) : node.surface.ErrorsInFront ↔ node.ErrorsInFront := by
  cases node with
  | stmt found =>
      cases found <;> simp [surface, Stmt.surface, ErrorsInFront, Stmt.frontErrors, Stmt.exprs,
        Stmt.children, Stmt.span]
  | item found => cases found <;> rfl
  | expr found => rfl

end Node

variable {old new : Stmt}

theorem Stmt.Exchanged.eq_or_surface_eq {before after : Stmt}
    (exchanged : Exchanged old new before after) (same : new.span = old.span) :
    before = old ∧ after = new ∨ before.surface = after.surface := by
  cases exchanged with
  | here => exact .inl ⟨rfl, rfl⟩
  | _ => rename_i inner; exact .inr (by simp [surface, inner.span_eq same])

theorem Item.Exchanged.surface_eq {before after : Item} (exchanged : Exchanged old new before after)
    (same : new.span = old.span) : before.surface = after.surface := by
  cases exchanged with
  | inStatement span inner => simp [surface, inner.span_eq same]
  | _ => rfl

theorem Stmt.Exchanged.surfaces_eq {before after : Stmt} (exchanged : Exchanged old new before after)
    (same : new.span = old.span) :
    PartExchanged (old.nodes.map Node.surface) (new.nodes.map Node.surface)
      (before.nodes.map Node.surface) (after.nodes.map Node.surface) := by
  simp only [List.map_eq_flatMap]
  refine exchanged.flatMap_nodes fun exchanged => ?_
  exact (exchanged.eq_or_surface_eq same).imp_right fun same => by simp [Node.surface, same]

namespace SourceTree

variable {length : Nat} {before after tree : SourceTree} {loop : Loop}

/-- Around the place of an exchange every node shows what it showed. -/
theorem Exchanged.surfaces_eq (exchanged : Exchanged old new before after)
    (same : new.span = old.span) :
    PartExchanged (old.nodes.map Node.surface) (new.nodes.map Node.surface)
      (before.nodes.map Node.surface) (after.nodes.map Node.surface) := by
  simp only [List.map_eq_flatMap]
  refine exchanged.flatMap_nodes (fun exchanged => ?_) fun exchanged => ?_
  · exact (exchanged.eq_or_surface_eq same).imp_right fun same => by simp [Node.surface, same]
  · simp [Node.surface, exchanged.surface_eq same]

/-- Everything in the source that could not be read, in the order of the source. -/
def errors (tree : SourceTree) : List Node :=
  tree.nodes.filter Node.isError

theorem filter_isError_of_readable {stmt : Stmt} (readable : stmt.Readable) :
    (stmt.nodes.map Node.surface).filter Node.isError = [] := by
  rw [Node.filter_isError_surface, List.filter_eq_nil_iff]
  exact fun node inside => by simp [readable node inside]

/-- An exchange of one statement without errors for another keeps all errors. -/
theorem Exchanged.errors_eq (exchanged : Exchanged old new before after)
    (same : new.span = old.span) (old_readable : old.Readable) (new_readable : new.Readable) :
    after.errors = before.errors := by
  obtain ⟨front, back, before_eq, after_eq⟩ := exchanged.surfaces_eq same
  rw [errors, errors, ← Node.filter_isError_surface, ← Node.filter_isError_surface before.nodes,
    before_eq, after_eq]
  simp only [List.filter_append, filter_isError_of_readable old_readable,
    filter_isError_of_readable new_readable]

end SourceTree

theorem Stmt.Readable.errorsInFront {stmt : Stmt} (readable : stmt.Readable) :
    ∀ node ∈ stmt.nodes, node.ErrorsInFront := by
  induction stmt using children_induction with
  | step stmt ih =>
      obtain ⟨-, exprs, children⟩ := readable_iff.mp readable
      rw [nodes_eq, List.forall_mem_cons, List.forall_mem_append, List.forall_mem_flatMap,
        List.forall_mem_flatMap]
      refine ⟨fun mark marked => ?_, fun expr isExpr node inside => ?_,
        fun child isChild => ih child isChild (children child isChild)⟩
      · obtain ⟨expr, isExpr, marked⟩ := List.mem_flatMap.mp marked
        obtain ⟨node, isError, -⟩ := List.mem_map.mp marked
        obtain ⟨inside, isError⟩ := List.mem_filter.mp isError
        exact absurd isError (by simp [exprs expr isExpr node inside])
      · obtain ⟨found, rfl⟩ := Expr.exists_of_mem_nodes inside
        trivial

theorem SourceTree.Exchanged.errorsInFront {before after : SourceTree}
    (exchanged : Exchanged old new before after) (same : new.span = old.span)
    (new_readable : new.Readable) (inFront : ∀ node ∈ before.nodes, node.ErrorsInFront) :
    ∀ node ∈ after.nodes, node.ErrorsInFront := by
  obtain ⟨front, back, before_eq, after_eq⟩ := exchanged.surfaces_eq same
  have shown : ∀ nodes : List Node, (∀ node ∈ nodes, node.ErrorsInFront) ↔
      ∀ node ∈ nodes.map Node.surface, node.ErrorsInFront := fun nodes => by
    simp [Node.errorsInFront_surface]
  rw [shown, before_eq, List.forall_mem_append, List.forall_mem_append] at inFront
  rw [shown, after_eq, List.forall_mem_append, List.forall_mem_append]
  exact ⟨⟨inFront.1.1, (shown _).mp new_readable.errorsInFront⟩, inFront.2⟩

theorem Expr.span_mem_errorSpans {exprs : List Expr} {node : Node}
    (inside : node ∈ exprs.flatMap nodes) (isError : node.isError = true) :
    node.span ∈ exprs.flatMap errorSpans := by
  obtain ⟨expr, isExpr, inside⟩ := List.mem_flatMap.mp inside
  refine List.mem_flatMap.mpr ⟨expr, isExpr, ?_⟩
  exact List.mem_map_of_mem (List.mem_filter.mpr ⟨inside, isError⟩)

namespace Span

/-- Nothing lies in two places that lie apart. -/
theorem Apart.not_contains {first second inner target : Span} (apart : first.Apart second)
    (isInner : first.contains inner = true) (within : target.Within second.start second.stop)
    (around : inner.contains target = true) : False :=
  not_apart_of_contains within.2.1 around (apart.mono isInner within.contains)

end Span

namespace Stmt

variable {stmt loop : Stmt} {node : Node}

/-- Every error in a statement lies inside it. -/
theorem Arranged.within_of_isError (arranged : stmt.Arranged)
    (nonempty : stmt.span.start < stmt.span.stop)
    (inFront : ∀ node ∈ stmt.nodes, node.ErrorsInFront) (inside : node ∈ stmt.nodes)
    (isError : node.isError = true) : node.span.Within stmt.span.start stmt.span.stop := by
  induction stmt using children_induction with
  | step stmt ih =>
      obtain ⟨parts, children⟩ := arranged_iff.mp arranged
      rw [nodes_eq, List.forall_mem_cons, List.forall_mem_append, List.forall_mem_flatMap,
        List.forall_mem_flatMap] at inFront
      obtain ⟨own, -, children_inFront⟩ := inFront
      rw [nodes_eq, List.mem_cons, List.mem_append] at inside
      rcases inside with rfl | inExprs | inChildren
      · exact Span.within_self nonempty
      · exact (own _ (Expr.span_mem_errorSpans inExprs isError)).1
      · obtain ⟨child, isChild, inside⟩ := List.mem_flatMap.mp inChildren
        have place := parts.children.within_of_mem isChild
        refine (ih child isChild (children child isChild) place.2.1 (children_inFront child isChild)
          inside).widen (Nat.le_of_succ_le place.1) place.2.2

/-- An error in the region of a statement inside is a part of that statement. -/
theorem Arranged.mem_nodes_of_contains (arranged : stmt.Arranged)
    (nonempty : stmt.span.start < stmt.span.stop)
    (inFront : ∀ node ∈ stmt.nodes, node.ErrorsInFront) (isLoop : loop ∈ stmt.statements)
    (inside : node ∈ stmt.nodes) (isError : node.isError = true)
    (around : loop.span.contains node.span = true) : node ∈ loop.nodes := by
  induction stmt using children_induction with
  | step stmt ih =>
      have whole := arranged.within_of_isError nonempty inFront inside isError
      obtain ⟨parts, children⟩ := arranged_iff.mp arranged
      have own := inFront
      rw [nodes_eq, List.forall_mem_cons, List.forall_mem_append, List.forall_mem_flatMap,
        List.forall_mem_flatMap] at own
      obtain ⟨own, -, children_inFront⟩ := own
      rw [statements_eq, List.mem_cons, List.mem_flatMap] at isLoop
      rcases isLoop with rfl | ⟨child, isChild, isLoop⟩
      · exact inside
      · have place := parts.children.within_of_mem isChild
        have inChild := (children child isChild).contains_of_mem isLoop
        rw [nodes_eq, List.mem_cons, List.mem_append] at inside
        rcases inside with rfl | inExprs | inChildren
        · -- the statement itself is not inside what is inside it
          exfalso
          rw [Span.contains_iff] at inChild around
          unfold Span.Within at place
          simp only [Node.span] at around
          omega
        · -- its own expressions stand in front of what is inside it
          exfalso
          have ahead := (own _ (Expr.span_mem_errorSpans inExprs isError)).2 child isChild
          rw [Span.contains_iff] at inChild around
          unfold Span.Within at whole
          omega
        · obtain ⟨other, isOther, inside⟩ := List.mem_flatMap.mp inChildren
          have placeOther := parts.children.within_of_mem isOther
          rcases parts.children.eq_or_apart isChild isOther with rfl | apart
          · exact ih child isChild (children child isChild) place.2.1
              (children_inFront child isChild) isLoop inside
          · have within := (children other isOther).within_of_isError placeOther.2.1
              (children_inFront other isOther) inside isError
            exact (apart.not_contains inChild within around).elim

end Stmt

namespace Item

variable {item : Item} {loop : Stmt} {node : Node}

/-- Only what holds no statements has expressions of its own. -/
theorem statements_eq_nil_of_exprs {expr : Expr} (isExpr : expr ∈ item.exprs) :
    item.subitems = [] ∧ item.stmts = [] := by
  cases item <;> simp_all [exprs, subitems, stmts]

/-- An item that could not be read holds no statements. -/
theorem statements_eq_nil_of_isError (isError : (Node.item item).isError = true) :
    item.statements = [] := by
  cases item <;> first | rfl | simp [Node.isError] at isError

theorem Arranged.within_of_isError (arranged : item.Arranged)
    (nonempty : item.span.start < item.span.stop)
    (inFront : ∀ node ∈ item.nodes, node.ErrorsInFront) (inside : node ∈ item.nodes)
    (isError : node.isError = true) : node.span.Within item.span.start item.span.stop := by
  induction arranged with
  | @intro item parts subitems stmts ih =>
      rw [nodes_eq, List.forall_mem_cons, List.forall_mem_append, List.forall_mem_append,
        List.forall_mem_flatMap, List.forall_mem_flatMap, List.forall_mem_flatMap] at inFront
      obtain ⟨own, -, subitems_inFront, stmts_inFront⟩ := inFront
      rw [nodes_eq, List.mem_cons, List.mem_append, List.mem_append] at inside
      rcases inside with rfl | inExprs | inSubitems | inStmts
      · exact Span.within_self nonempty
      · exact own _ (Expr.span_mem_errorSpans inExprs isError)
      · obtain ⟨child, isChild, inside⟩ := List.mem_flatMap.mp inSubitems
        have place := parts.subitems.within_of_mem isChild
        exact (ih child isChild place.2.1 (subitems_inFront child isChild) inside).widen place.1
          place.2.2
      · obtain ⟨stmt, isStmt, inside⟩ := List.mem_flatMap.mp inStmts
        have place := parts.stmts.within_of_mem isStmt
        exact ((stmts stmt isStmt).within_of_isError place.2.1 (stmts_inFront stmt isStmt) inside
          isError).widen place.1 place.2.2

theorem Arranged.mem_nodes_of_contains (arranged : item.Arranged)
    (inFront : ∀ node ∈ item.nodes, node.ErrorsInFront) (isLoop : loop ∈ item.statements)
    (inside : node ∈ item.nodes) (isError : node.isError = true)
    (around : loop.span.contains node.span = true) : node ∈ loop.nodes := by
  induction arranged with
  | @intro item parts subitems stmts ih =>
      rw [nodes_eq, List.forall_mem_cons, List.forall_mem_append, List.forall_mem_append,
        List.forall_mem_flatMap, List.forall_mem_flatMap, List.forall_mem_flatMap] at inFront
      obtain ⟨-, -, subitems_inFront, stmts_inFront⟩ := inFront
      rw [nodes_eq, List.mem_cons, List.mem_append, List.mem_append] at inside
      rcases inside with rfl | inside
      · simp [statements_eq_nil_of_isError isError] at isLoop
      rw [statements_eq, List.mem_append, List.mem_flatMap, List.mem_flatMap] at isLoop
      rcases inside with inExprs | inSubitems | inStmts
      · obtain ⟨expr, isExpr, -⟩ := List.mem_flatMap.mp inExprs
        obtain ⟨noItems, noStmts⟩ := statements_eq_nil_of_exprs isExpr
        simp [noItems, noStmts] at isLoop
      · obtain ⟨other, isOther, inside⟩ := List.mem_flatMap.mp inSubitems
        have noStmts := item.subitems_eq_nil_or_stmts_eq_nil.resolve_left
          (List.ne_nil_of_mem isOther)
        obtain ⟨child, isChild, isLoop⟩ := isLoop.resolve_right (by simp [noStmts])
        have place := parts.subitems.within_of_mem isOther
        have within := (subitems other isOther).within_of_isError place.2.1
          (subitems_inFront other isOther) inside isError
        rcases parts.subitems.eq_or_apart isChild isOther with rfl | apart
        · exact ih child isChild (subitems_inFront child isChild) isLoop inside
        · exact (apart.not_contains ((subitems child isChild).contains_of_mem isLoop) within
            around).elim
      · obtain ⟨other, isOther, inside⟩ := List.mem_flatMap.mp inStmts
        have noItems := item.subitems_eq_nil_or_stmts_eq_nil.resolve_right
          (List.ne_nil_of_mem isOther)
        obtain ⟨stmt, isStmt, isLoop⟩ := isLoop.resolve_left (by simp [noItems])
        have place := parts.stmts.within_of_mem isOther
        have within := (stmts other isOther).within_of_isError place.2.1
          (stmts_inFront other isOther) inside isError
        rcases parts.stmts.eq_or_apart isStmt isOther with rfl | apart
        · exact (stmts stmt isStmt).mem_nodes_of_contains place.2.1 (stmts_inFront stmt isStmt)
            isLoop inside isError around
        · exact (apart.not_contains ((stmts stmt isStmt).contains_of_mem isLoop) within
            around).elim

end Item

/-- An error in the region of a statement of the tree is a part of that statement. -/
theorem SourceTree.Arranged.mem_nodes_of_contains {length : Nat} {tree : SourceTree} {loop : Stmt}
    {node : Node} (arranged : tree.Arranged length)
    (inFront : ∀ node ∈ tree.nodes, node.ErrorsInFront) (isLoop : loop ∈ tree.statements)
    (inside : node ∈ tree.nodes) (isError : node.isError = true)
    (around : loop.span.contains node.span = true) : node ∈ loop.nodes := by
  rw [nodes_eq] at inside inFront
  rw [List.forall_mem_flatMap] at inFront
  rw [statements_eq] at isLoop
  obtain ⟨item, isItem, isLoop⟩ := List.mem_flatMap.mp isLoop
  obtain ⟨other, isOther, inside⟩ := List.mem_flatMap.mp inside
  rcases arranged.spread.eq_or_apart isItem isOther with rfl | apart
  · exact (arranged.items item isItem).mem_nodes_of_contains (inFront item isItem) isLoop inside
      isError around
  · have within := (arranged.items other isOther).within_of_isError
      (arranged.spread.within_of_mem isOther).2.1 (inFront other isOther) inside isError
    exact (apart.not_contains ((arranged.items item isItem).contains_of_mem isLoop) within
      around).elim

namespace Document

variable {document last : Document} {regions : List Span}

theorem Reachable.errorsInFront (reachable : document.Reachable) :
    ∀ node ∈ document.tree.nodes, node.ErrorsInFront := by
  induction reachable with
  | opened source path => exact SourceTree.errorsInFront_parse source
  | @fixed document edit cancelled action before applied ih =>
      unfold Action.apply at applied
      split at applied
      · simp at applied
      · obtain ⟨loop, -, readable, shape, planned, plans, -, exchanged⟩ :=
          Action.exchanged_of_applyTo before.arranged applied
        exact exchanged.errorsInFront plans.span_tidied
          (plans.readable_tidied readable) ih

/-- No fix adds an error, takes one away or is made around one. -/
theorem FixedTo.errors (run : FixedTo document regions last) (reachable : document.Reachable) :
    last.tree.errors = document.tree.errors ∧
      ∀ region ∈ regions, ∀ node ∈ document.tree.errors, region.contains node.span = false := by
  induction run with
  | done document => exact ⟨rfl, by simp⟩
  | @step document last edit regions action applied later ih =>
      obtain ⟨kept, outside⟩ := ih (.fixed action reachable applied)
      obtain ⟨loop, inTree, readable, shape, planned, plans, region, exchanged⟩ :=
        Action.exchanged_of_applyTo reachable.arranged applied
      have one : edit.tree.errors = document.tree.errors :=
        exchanged.errors_eq plans.span_tidied
          (Loop.readable_of_isReadable readable) (plans.readable_tidied readable)
      refine ⟨kept.trans one, List.forall_mem_cons.mpr ⟨fun node isError => ?_,
        fun region isRegion node isError => outside region isRegion node (one ▸ isError)⟩⟩
      obtain ⟨inside, isError⟩ := List.mem_filter.mp isError
      rw [region, Bool.eq_false_iff]
      intro around
      have isPart := reachable.arranged.mem_nodes_of_contains reachable.errorsInFront
        (SourceTree.mem_loops_iff.mp inTree) inside isError around
      exact absurd isError (by simp [Loop.readable_of_isReadable readable node isPart])

/-- Every diagnostic is for a loop of the tree that has a shape, and so a plan. -/
theorem exists_planned_of_mem_analyze {config : Config} {resolver : Resolver} {cancelled : Bool}
    {diagnostic : Diagnostic} (reported : diagnostic ∈ document.analyze config resolver cancelled) :
    ∃ loop ∈ document.tree.loops, ∃ shape ∈ loop.shapes resolver config.options,
      diagnostic = Diagnostic.ofFinding config.rule document.path ⟨loop.span, shape⟩ ∧
        ∃ planned, loop.Planned resolver config.options shape planned := by
  unfold analyze SourceTree.scan at reported
  by_cases enabled : config.rule.enabled = true
  · by_cases stopped : (cancelled && !document.tree.loops.isEmpty) = true
    · simp [enabled, stopped] at reported
    · simp only [enabled, stopped, if_true, if_false, Bool.false_eq_true] at reported
      obtain ⟨finding, found, rfl⟩ := List.mem_map.mp reported
      obtain ⟨loop, inTree, inShapes⟩ := List.mem_flatMap.mp found
      obtain ⟨shape, isShape, rfl⟩ := List.mem_map.mp inShapes
      obtain ⟨-, planned, plans⟩ :=
        Loop.planned_of_shape? config.options (Loop.shape?_of_mem_shapes isShape)
      exact ⟨loop, inTree, shape, isShape, rfl, planned, plans⟩
  · simp [enabled] at reported

/-- Whatever the text and the configuration, fixing keeps what could not be read, in its
order and at its place, and makes no fix around it.  Neither the document nor any that
fixes lead to has a diagnostic for a loop in which something could not be read: each is
for the innermost loop around it, and in that loop everything could be read. -/
theorem fixAll_keepsErrors (source path : String) (config : Config) :
    let document := (Document.parse source path).1
    (∃ fixed, document.fixAll config false = .ok fixed ∧
      fixed.document.tree.nodes.filter Node.isError = document.tree.nodes.filter Node.isError ∧
      ∀ region ∈ fixed.regions, ∀ node ∈ document.tree.nodes, node.isError = true →
        region.contains node.span = false) ∧
    ∀ reached : Document, reached.Reachable → ∀ (resolver : Resolver) (cancelled : Bool),
      (∀ loop ∈ reached.tree.loops,
        (∃ node ∈ loop.seq.nodes ++ loop.body.nodes, node.isError = true) →
          loop.shapes resolver config.options = []) ∧
      ∀ diagnostic ∈ reached.analyze config resolver cancelled, ∃ loop outer,
        Node.enclosingLoops (reached.tree.nodesAround diagnostic.span) = loop :: outer ∧
        (∃ shape ∈ loop.shapes resolver config.options, diagnostic =
          Diagnostic.ofFinding config.rule reached.path ⟨loop.span, shape⟩) ∧
        ∀ node ∈ loop.seq.nodes ++ loop.body.nodes, node.isError = false := by
  intro document
  have opened : document.Reachable := .opened source path
  have clean : ∀ {loop : Loop} {resolver : Resolver} {shape : Shape},
      shape ∈ loop.shapes resolver config.options →
        ∀ node ∈ loop.seq.nodes ++ loop.body.nodes, node.isError = false := by
    intro loop resolver shape found
    obtain ⟨seq, body⟩ := Loop.readable_toStmt_iff.mp
      (Loop.readable_of_isReadable (Loop.isReadable_of_shape? (Loop.shape?_of_mem_shapes found)))
    exact List.forall_mem_append.mpr ⟨seq, body⟩
  refine ⟨⟨document.fixUntilDone config, rfl, ?_⟩, fun reached reachable resolver cancelled =>
    ⟨fun loop inTree ⟨node, inside, isError⟩ => ?_, fun diagnostic reported => ?_⟩⟩
  · obtain ⟨kept, outside⟩ := (fixedTo_fixRounds document config
      (document.tree.countStatements + 1)).errors opened
    exact ⟨kept, fun region isRegion node inside isError =>
      outside region isRegion node (List.mem_filter.mpr ⟨inside, isError⟩)⟩
  · rw [List.eq_nil_iff_forall_not_mem]
    intro shape found
    exact absurd isError (by simp [clean found node inside])
  · obtain ⟨loop, inTree, shape, isShape, rfl, planned, plans⟩ :=
      exists_planned_of_mem_analyze reported
    obtain ⟨outer, innermost⟩ := reachable.arranged.enclosingLoops_eq inTree plans
    exact ⟨loop, outer, innermost, ⟨shape, isShape, rfl⟩, clean isShape⟩

/-- The inner loop is fixed although the outer one has parentheses that cannot be read. -/
example :
    let document := (Document.parse
      "foreach (var a in b) \x7b F(()); foreach (var c in d) \x7b if (c.Ok) F(c); \x7d \x7d" "").1
    (document.fixUntilDone {}).regions = [⟨30, 70⟩] ∧
      document.tree.errors.map Node.span = [⟨25, 27⟩] := by
  decide +kernel

end Document

end QueryLoop
