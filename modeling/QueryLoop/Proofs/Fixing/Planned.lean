import QueryLoop.Fix
import QueryLoop.Proofs.Place.Exchange

namespace QueryLoop

namespace Loop

/-- `planned` takes the place of `loop`, which has the shape. -/
inductive Planned (resolver : Resolver) (options : ScanOptions) (loop : Loop) :
    (shape : Shape) → (planned : Loop) → Prop
  | filterIf {cond lambda : Expr} {body : Stmt} (lone : loop.body.loneIf? = some (cond, body))
      (made : resolver.lambda? cond (resolver.loopVariable loop) options.lambdaParameter false =
        some lambda) :
      Planned resolver options loop (.filterIf cond.span body.span)
        { loop with seq := loop.seq.memberCall "Where" [lambda], body }
  | filterIfContinue {span : Span} {guard body : Stmt} {rest : List Stmt} {cond lambda : Expr}
      {otherwise : Option Stmt} (blockOf : loop.body = .block span (guard :: rest))
      (more : rest ≠ []) (parts : guard.branches? = some (cond, body, otherwise))
      (isContinue : body.isContinueBranch = true)
      (made : resolver.lambda? cond (resolver.loopVariable loop) options.lambdaParameter true =
        some lambda) :
      Planned resolver options loop (.filterIfContinue cond.span guard.span)
        { loop with
          seq := loop.seq.memberCall "Where" [lambda]
          body := .block span (Stmt.flattened otherwise ++ rest) }
  | map {span declSpan headSpan : Span} {type : TypeRef} {name : String} {init lambda : Expr}
      {others : List Declarator} {rest : List Stmt}
      (blockOf : loop.body = .block span
        (.decl declSpan ⟨type, ⟨name, some init, headSpan⟩ :: others⟩ :: rest))
      (made : resolver.lambda? init (resolver.loopVariable loop) options.lambdaParameter false =
        some lambda) :
      Planned resolver options loop (.map name headSpan init.span)
        { loop with
          type
          var := name
          seq := loop.seq.memberCall "Select" [lambda]
          body := .block span (.decl declSpan ⟨type, others⟩ :: rest) }

variable {resolver : Resolver} {options : ScanOptions} {loop planned : Loop} {shape : Shape}

theorem lambda?_isSome {expr : Expr} {var : String} (preferred : String) (negate : Bool)
    (used : resolver.references expr var = true) :
    ∃ lambda, resolver.lambda? expr var preferred negate = some lambda := by
  simp [Resolver.lambda?, used]

theorem Planned.plan_eq (planned : Planned resolver options loop shape planned') :
    loop.plan shape resolver options = .ok planned' := by
  cases planned with
  | filterIf lone made => simp [plan, planFilterIf, pipeline, lone, made]
  | filterIfContinue blockOf more parts isContinue made =>
      simp [plan, planFilterIfContinue, pipeline, blockOf, parts, isContinue, made]
  | map blockOf made => simp [plan, planMap, pipeline, blockOf, made]

theorem planned_of_filterIf? (options : ScanOptions) (found : loop.filterIf? resolver = some shape) :
    Refactor.ofShape shape = .containingIf ∧ ∃ planned, Planned resolver options loop shape planned := by
  unfold filterIf? at found
  split at found
  · split at found
    · rename_i cond body lone
      split at found
      · rename_i used
        obtain ⟨lambda, made⟩ := lambda?_isSome options.lambdaParameter false used
        obtain rfl := Option.some.inj found
        exact ⟨rfl, _, .filterIf lone made⟩
      · simp at found
    · simp at found
  · simp at found

theorem planned_of_filterIfContinue? (options : ScanOptions) (found : loop.filterIfContinue? resolver = some shape) :
    Refactor.ofShape shape = .ifWithContinue ∧ ∃ planned, Planned resolver options loop shape planned := by
  unfold filterIfContinue? at found
  split at found
  · split at found
    · rename_i span guard second others blockOf
      split at found
      · rename_i cond body otherwise parts
        split at found
        · rename_i accepted
          rw [Bool.and_eq_true] at accepted
          obtain ⟨lambda, made⟩ := lambda?_isSome options.lambdaParameter true accepted.2
          obtain rfl := Option.some.inj found
          exact ⟨rfl, _, .filterIfContinue blockOf (List.cons_ne_nil _ _) parts accepted.1 made⟩
        · simp at found
      · simp at found
    · simp at found
  · simp at found

theorem planned_of_map? (options : ScanOptions) (found : loop.map? resolver = some shape) :
    Refactor.ofShape shape = .leadingDecl ∧ ∃ planned, Planned resolver options loop shape planned := by
  unfold map? at found
  split at found
  · split at found
    · rename_i span declSpan type name init headSpan others rest blockOf
      simp only at found
      split at found
      · rename_i accepted
        simp only [Bool.and_eq_true] at accepted
        obtain ⟨lambda, made⟩ := lambda?_isSome options.lambdaParameter false accepted.1.1.1
        obtain rfl := Option.some.inj found
        exact ⟨rfl, _, .map blockOf made⟩
      · simp at found
    · simp at found
  · simp at found

/-- A loop with the shape of a refactoring has a plan, and the shape tells which
refactoring it is. -/
theorem planned_of_shape? {refactor : Refactor} (options : ScanOptions)
    (found : refactor.shape? loop resolver = some shape) :
    Refactor.ofShape shape = refactor ∧ ∃ planned, Planned resolver options loop shape planned := by
  cases refactor with
  | containingIf => exact planned_of_filterIf? options found
  | ifWithContinue => exact planned_of_filterIfContinue? options found
  | leadingDecl => exact planned_of_map? options found

/-- Only a loop in which nothing was skipped has a shape. -/
theorem isReadable_of_shape? {refactor : Refactor}
    (found : refactor.shape? loop resolver = some shape) : loop.isReadable = true := by
  by_contra skipped
  cases refactor <;>
    simp [Refactor.shape?, filterIf?, filterIfContinue?, map?, skipped] at found

/-- A lone `if` has nothing behind it to go on with. -/
theorem filterIfContinue?_eq_none (found : loop.filterIf? resolver = some shape) :
    loop.filterIfContinue? resolver = none := by
  obtain ⟨isLone, planned, plans⟩ := planned_of_filterIf? {} found
  cases plans with
  | filterIf lone made =>
      unfold Stmt.loneIf? at lone
      split at lone
      · rename_i whole
        simp [filterIfContinue?, whole]
      · rename_i whole
        simp [filterIfContinue?, whole]
      · simp at lone
  | filterIfContinue => simp [Refactor.ofShape] at isLone
  | map => simp [Refactor.ofShape] at isLone

/-- With both kinds asked for, a loop is found with exactly the shapes that the
refactorings need. -/
theorem mem_shapes_iff (options : ScanOptions) (filters : options.reportFilters = true)
    (maps : options.reportMaps = true) :
    shape ∈ loop.shapes resolver options ↔
      (Refactor.ofShape shape).shape? loop resolver = some shape := by
  have kinds : ∀ refactor : Refactor, refactor.shape? loop resolver = some shape →
      Refactor.ofShape shape = refactor := fun _ found => (planned_of_shape? {} found).1
  simp only [shapes, filters, maps, if_true, List.mem_append, Option.mem_toList, filter?,
    Option.or_eq_some_iff]
  constructor
  · rintro ((found | ⟨-, found⟩) | found)
    · rw [kinds .ifWithContinue found]
      exact found
    · rw [kinds .containingIf found]
      exact found
    · rw [kinds .leadingDecl found]
      exact found
  · intro found
    cases kind : Refactor.ofShape shape with
    | containingIf =>
        rw [kind] at found
        exact .inl (.inr ⟨filterIfContinue?_eq_none found, found⟩)
    | ifWithContinue =>
        rw [kind] at found
        exact .inl (.inl found)
    | leadingDecl =>
        rw [kind] at found
        exact .inr found

/-- Fewer kinds asked for, fewer shapes found. -/
theorem shape?_of_mem_shapes (found : shape ∈ loop.shapes resolver options) :
    (Refactor.ofShape shape).shape? loop resolver = some shape := by
  refine (mem_shapes_iff { options with reportFilters := true, reportMaps := true } rfl rfl).mp ?_
  simp only [shapes, if_true, List.mem_append, Option.mem_toList] at found ⊢
  refine found.imp (fun filtered => ?_) fun mapped => ?_
  · split at filtered
    · exact filtered
    · simp at filtered
  · split at mapped
    · exact mapped
    · simp at mapped

theorem Planned.span_eq (plans : Planned resolver options loop shape planned) :
    planned.span = loop.span := by
  cases plans <;> rfl

/-- A loop is reported at a mark of its body or of the first statement in it, and
neither is a loop. -/
theorem Planned.reported (plans : Planned resolver options loop shape planned) :
    loop.body.loop? = none ∧
      (shape.reportSpan ∈ loop.body.marks ∨
        ∃ first rest, loop.body.children = first :: rest ∧ first.loop? = none ∧
          shape.reportSpan ∈ first.marks) := by
  cases plans with
  | @filterIf cond lambda body lone made =>
      unfold Stmt.loneIf? at lone
      split at lone
      · rename_i whole
        cases lone
        rw [whole]
        exact ⟨rfl, .inl List.mem_cons_self⟩
      · rename_i whole
        cases lone
        rw [whole]
        exact ⟨rfl, .inr ⟨_, _, rfl, rfl, List.mem_cons_self⟩⟩
      · simp at lone
  | @filterIfContinue span guard body rest cond lambda otherwise blockOf more parts isContinue made =>
      rw [blockOf]
      refine ⟨rfl, .inr ⟨guard, rest, rfl, ?_⟩⟩
      unfold Stmt.branches? at parts
      split at parts
      · cases parts
        exact ⟨rfl, List.mem_cons_self⟩
      · cases parts
        exact ⟨rfl, List.mem_cons_self⟩
      · simp at parts
  | map blockOf made =>
      rw [blockOf]
      exact ⟨rfl, .inr ⟨_, _, rfl, rfl, List.mem_cons_self⟩⟩

end Loop

namespace Stmt

theorem dropEmptyDecls_eq (stmts : List Stmt) :
    (dropEmptyDecls stmts).1 =
      (stmts.filter fun stmt => !stmt.isEmptyDecl).map fun stmt => stmt.removeEmptyDecls.1 := by
  induction stmts with
  | nil => rw [dropEmptyDecls]; rfl
  | cons stmt stmts ih =>
      rw [dropEmptyDecls]
      cases emptyDecl : stmt.isEmptyDecl with
      | true => simp [emptyDecl, ih]
      | false => simp [emptyDecl, ih]

/-- Removing empty declarations keeps the outermost statement, except for the
statements directly inside that are dropped. -/
theorem removeEmptyDecls_parts (stmt : Stmt) :
    stmt.removeEmptyDecls.1.span = stmt.span ∧ stmt.removeEmptyDecls.1.marks = stmt.marks ∧
      ∃ kept : List Stmt, kept.Sublist stmt.children ∧
        stmt.removeEmptyDecls.1.children = kept.map fun child => child.removeEmptyDecls.1 := by
  cases stmt with
  | block span stmts =>
      refine ⟨by simp [removeEmptyDecls, Stmt.span], by simp [removeEmptyDecls, marks],
        stmts.filter fun stmt => !stmt.isEmptyDecl, List.filter_sublist, ?_⟩
      rw [removeEmptyDecls]
      exact dropEmptyDecls_eq stmts
  | decl span declared =>
      obtain ⟨type, declarators⟩ := declared
      cases declarators with
      | nil => exact ⟨by simp [removeEmptyDecls, Stmt.span], by simp [removeEmptyDecls, marks], [],
          List.nil_sublist _, by simp [removeEmptyDecls, children]⟩
      | cons first others => exact ⟨by simp [removeEmptyDecls], by simp [removeEmptyDecls], [],
          List.nil_sublist _, by simp [removeEmptyDecls, children]⟩
  | _ =>
      refine ⟨by simp [removeEmptyDecls, Stmt.span], by simp [removeEmptyDecls, marks], _,
        List.Sublist.refl _, by simp [removeEmptyDecls, children]⟩

theorem Arranged.removeEmptyDecls {stmt : Stmt} (arranged : stmt.Arranged) :
    stmt.removeEmptyDecls.1.Arranged := by
  induction stmt using children_induction with
  | step stmt ih =>
      obtain ⟨parts, inside⟩ := arranged_iff.mp arranged
      obtain ⟨spans, marks, kept, fewer, children⟩ := removeEmptyDecls_parts stmt
      have span_eq : (fun child : Stmt => child.removeEmptyDecls.1.span) = Stmt.span :=
        funext fun child => child.removeEmptyDecls_parts.1
      refine arranged_iff.mpr ⟨⟨?_, ?_⟩, ?_⟩
      · rw [spans, children]
        refine (parts.children.sublist fewer).congr ?_
        rw [List.map_map]
        exact congrArg (List.map · kept) span_eq
      · intro mark marked
        obtain ⟨within, ahead⟩ := parts.marks mark (marks ▸ marked)
        refine ⟨spans ▸ within, fun child found => ?_⟩
        rw [children] at found
        obtain ⟨original, isKept, rfl⟩ := List.mem_map.mp found
        rw [original.removeEmptyDecls_parts.1]
        exact ahead original (fewer.subset isKept)
      · intro child found
        rw [children] at found
        obtain ⟨original, isKept, rfl⟩ := List.mem_map.mp found
        exact ih original (fewer.subset isKept) (inside original (fewer.subset isKept))

theorem Arranged.of_mem {stmt inner : Stmt} (arranged : stmt.Arranged)
    (inside : inner ∈ stmt.statements) : inner.Arranged := by
  induction stmt using children_induction with
  | step stmt ih =>
      obtain ⟨-, children⟩ := arranged_iff.mp arranged
      rw [statements_eq, List.mem_cons, List.mem_flatMap] at inside
      rcases inside with rfl | ⟨child, isChild, inside⟩
      · exact arranged
      · exact ih child isChild (children child isChild) inside

theorem mem_statements_of_child {stmt child inner : Stmt} (isChild : child ∈ stmt.children)
    (inside : inner ∈ child.statements) : inner ∈ stmt.statements := by
  rw [statements_eq, List.mem_cons, List.mem_flatMap]
  exact .inr ⟨child, isChild, inside⟩

theorem isEmptyDecl_removeEmptyDecls (stmt : Stmt) :
    ∀ inner ∈ stmt.removeEmptyDecls.1.statements, inner.isEmptyDecl = false := by
  induction stmt using children_induction with
  | step stmt ih =>
      obtain ⟨-, -, kept, fewer, children⟩ := removeEmptyDecls_parts stmt
      rw [statements_eq, children, List.forall_mem_cons, List.forall_mem_flatMap,
        List.forall_mem_map]
      refine ⟨?_, fun child isKept => ih child (fewer.subset isKept)⟩
      cases stmt with
      | decl span declared =>
          obtain ⟨type, declarators⟩ := declared
          cases declarators <;> rfl
      | _ => rfl

/-- Where every declaration declares something, there is nothing to remove. -/
theorem removeEmptyDecls_eq_self {stmt : Stmt}
    (declares : ∀ inner ∈ stmt.statements, inner.isEmptyDecl = false) :
    stmt.removeEmptyDecls.1 = stmt := by
  induction stmt using children_induction with
  | step stmt ih =>
      rw [statements_eq, List.forall_mem_cons, List.forall_mem_flatMap] at declares
      obtain ⟨own, inside⟩ := declares
      have parts : ∀ child ∈ stmt.children, child.removeEmptyDecls.1 = child := fun child isChild =>
        ih child isChild (inside child isChild)
      cases stmt with
      | block span stmts =>
          have kept : stmts.filter (fun stmt => !stmt.isEmptyDecl) = stmts :=
            List.filter_eq_self.mpr fun stmt listed => by
              simp [inside stmt listed stmt stmt.self_mem_statements]
          have dropped : (dropEmptyDecls stmts).1 = stmts := by
            rw [dropEmptyDecls_eq, kept]
            exact (List.map_congr_left parts).trans (List.map_id' stmts)
          simp [removeEmptyDecls, dropped]
      | decl span declared =>
          obtain ⟨type, declarators⟩ := declared
          cases declarators with
          | nil => simp [isEmptyDecl] at own
          | cons first others => simp [removeEmptyDecls]
      | ifElse span cond body otherwise =>
          simp [removeEmptyDecls, parts body (by simp [children]),
            parts otherwise (by simp [children])]
      | ifThen | foreach | whileLoop => simp [removeEmptyDecls, parts _ List.mem_cons_self]
      | _ => simp [removeEmptyDecls]

/-- The statements of an `else` that move up lie where it lay. -/
theorem spread_flattened {otherwise : Stmt} (arranged : otherwise.Arranged) {lower upper : Nat}
    (within : otherwise.span.Within lower upper) :
    Spread Stmt.span lower upper (flattened (some otherwise)) ∧
      ∀ stmt ∈ flattened (some otherwise), stmt.Arranged := by
  obtain ⟨parts, inside⟩ := arranged_iff.mp arranged
  cases otherwise with
  | block span stmts =>
      exact ⟨parts.children.widen (Nat.le_succ_of_le within.1) within.2.2, inside⟩
  | _ => exact ⟨⟨within, trivial⟩, by simpa [flattened] using arranged⟩

end Stmt

namespace Loop

variable {resolver : Resolver} {options : ScanOptions} {loop planned : Loop} {shape : Shape}

/-- The plan stands at the place of the loop. -/
theorem Planned.span_tidied (plans : Planned resolver options loop shape planned) :
    planned.tidied.span = loop.toStmt.span :=
  planned.toStmt.removeEmptyDecls_parts.1.trans plans.span_eq

theorem tidied_eq (loop : Loop) : loop.tidied =
    .foreach loop.span loop.type loop.var loop.varSpan loop.seq loop.body.removeEmptyDecls.1 := by
  simp [tidied, toStmt, Stmt.removeEmptyDecls]

/-- A loop is arranged if its body is, and lies behind its start. -/
theorem arranged_toStmt_iff (loop : Loop) :
    loop.toStmt.Arranged ↔
      loop.body.span.Within (loop.span.start + 1) loop.span.stop ∧ loop.body.Arranged := by
  rw [Stmt.arranged_iff]
  constructor
  · rintro ⟨parts, inside⟩
    exact ⟨parts.children.1, inside _ List.mem_cons_self⟩
  · rintro ⟨within, arranged⟩
    refine ⟨⟨⟨within, trivial⟩, by simp [toStmt, Stmt.marks]⟩, ?_⟩
    simpa [toStmt, Stmt.children] using arranged

/-- The body of a lone `if` is a statement inside the loop. -/
theorem mem_statements_of_loneIf? {stmt body : Stmt} {cond : Expr}
    (lone : stmt.loneIf? = some (cond, body)) : body ∈ stmt.statements ∧ body ≠ stmt := by
  unfold Stmt.loneIf? at lone
  split at lone
  · cases lone
    refine ⟨Stmt.mem_statements_of_child List.mem_cons_self body.self_mem_statements, ?_⟩
    intro same
    simpa using congrArg sizeOf same
  · cases lone
    refine ⟨Stmt.mem_statements_of_child List.mem_cons_self
      (Stmt.mem_statements_of_child List.mem_cons_self body.self_mem_statements), ?_⟩
    intro same
    have sizes := congrArg sizeOf same
    simp at sizes
    omega
  · simp at lone

theorem Planned.arranged (plans : Planned resolver options loop shape planned)
    (arranged : loop.toStmt.Arranged) : planned.toStmt.Arranged := by
  obtain ⟨within, inside⟩ := (arranged_toStmt_iff loop).mp arranged
  refine (arranged_toStmt_iff planned).mpr ?_
  cases plans with
  | @filterIf cond lambda body lone made =>
      obtain ⟨isInside, different⟩ := mem_statements_of_loneIf? lone
      have deeper := (inside.eq_or_within isInside).resolve_left different
      exact ⟨deeper.widen (Nat.le_succ_of_le within.1) within.2.2, inside.of_mem isInside⟩
  | @filterIfContinue span guard body rest cond lambda otherwise blockOf more parts isContinue
      made =>
      rw [blockOf] at within inside
      obtain ⟨⟨children, -⟩, arranged⟩ := Stmt.arranged_iff.mp inside
      obtain ⟨guard_within, behind⟩ := children
      obtain ⟨guard_arranged, rest_arranged⟩ := List.forall_mem_cons.mp arranged
      have moved : Spread Stmt.span (span.start + 1) guard.span.stop (Stmt.flattened otherwise) ∧
          ∀ stmt ∈ Stmt.flattened otherwise, stmt.Arranged := by
        cases otherwise with
        | none => exact ⟨trivial, by simp [Stmt.flattened]⟩
        | some otherwise =>
            have isChild : otherwise ∈ guard.children := by
              unfold Stmt.branches? at parts
              split at parts
              · simp at parts
              · cases parts
                exact List.mem_cons_of_mem _ List.mem_cons_self
              · simp at parts
            obtain ⟨⟨spread, -⟩, own⟩ := Stmt.arranged_iff.mp guard_arranged
            have place := spread.within_of_mem isChild
            exact Stmt.spread_flattened (own otherwise isChild)
              (place.widen (Nat.le_succ_of_le guard_within.1) (Nat.le_refl _))
      refine ⟨within, Stmt.arranged_iff.mpr ⟨⟨?_, by simp [Stmt.marks]⟩, ?_⟩⟩
      · refine moved.1.append behind ?_ guard_within.2.2
        exact Nat.le_trans guard_within.1 (Nat.le_of_lt guard_within.2.1)
      · intro stmt found
        exact (List.mem_append.mp found).elim (moved.2 stmt) (rest_arranged stmt)
  | @map span declSpan headSpan type name init lambda others rest blockOf made =>
      rw [blockOf] at within inside
      obtain ⟨⟨children, -⟩, arranged⟩ := Stmt.arranged_iff.mp inside
      obtain ⟨decl_arranged, rest_arranged⟩ := List.forall_mem_cons.mp arranged
      obtain ⟨⟨-, marks⟩, -⟩ := Stmt.arranged_iff.mp decl_arranged
      refine ⟨within, Stmt.arranged_iff.mpr ⟨⟨children, by simp [Stmt.marks]⟩, ?_⟩⟩
      refine List.forall_mem_cons.mpr ⟨?_, rest_arranged⟩
      refine Stmt.arranged_iff.mpr ⟨⟨trivial, fun mark marked => ?_⟩, by simp [Stmt.children]⟩
      exact marks mark (List.mem_cons_of_mem _ marked)

theorem Planned.arranged_tidied (plans : Planned resolver options loop shape planned)
    (arranged : loop.toStmt.Arranged) : planned.tidied.Arranged :=
  (plans.arranged arranged).removeEmptyDecls

end Loop

end QueryLoop
