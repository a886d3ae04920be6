import QueryLoop.Proofs.Place.Arranged
import QueryLoop.Proofs.Place.Nodes

namespace QueryLoop

/-- The second statement is the first with `old` in it exchanged for `new` and everything
else equal. -/
inductive Stmt.Exchanged (old new : Stmt) : Stmt → Stmt → Prop
  | here : Exchanged old new old new
  | inBlock {before after : Stmt} (span : Span) (front back : List Stmt)
      (inner : Exchanged old new before after) :
      Exchanged old new (.block span (front ++ before :: back)) (.block span (front ++ after :: back))
  | inIfThen {before after : Stmt} (span : Span) (cond : Expr)
      (inner : Exchanged old new before after) :
      Exchanged old new (.ifThen span cond before) (.ifThen span cond after)
  | inBody {before after : Stmt} (span : Span) (cond : Expr) (otherwise : Stmt)
      (inner : Exchanged old new before after) :
      Exchanged old new (.ifElse span cond before otherwise) (.ifElse span cond after otherwise)
  | inOtherwise {before after : Stmt} (span : Span) (cond : Expr) (body : Stmt)
      (inner : Exchanged old new before after) :
      Exchanged old new (.ifElse span cond body before) (.ifElse span cond body after)
  | inForeach {before after : Stmt} (span : Span) (type : TypeRef) (var : String) (varSpan : Span)
      (seq : Expr) (inner : Exchanged old new before after) :
      Exchanged old new (.foreach span type var varSpan seq before)
        (.foreach span type var varSpan seq after)
  | inWhile {before after : Stmt} (span : Span) (cond : Expr)
      (inner : Exchanged old new before after) :
      Exchanged old new (.whileLoop span cond before) (.whileLoop span cond after)

inductive Item.Exchanged (old new : Stmt) : Item → Item → Prop
  | inNamespace {before after : Item} (span : Span) (path : List String) (front back : List Item)
      (inner : Exchanged old new before after) :
      Exchanged old new (.namespaceOf span path (front ++ before :: back))
        (.namespaceOf span path (front ++ after :: back))
  | inClass {before after : Item} (span : Span) (modifiers : List String) (name : String)
      (front back : List Item) (inner : Exchanged old new before after) :
      Exchanged old new (.classOf span modifiers name (front ++ before :: back))
        (.classOf span modifiers name (front ++ after :: back))
  | inMethod {before after : Stmt} (span : Span) (modifiers : List String) (result : TypeRef)
      (name : String) (params : List Param) (front back : List Stmt) (braces : Span)
      (inner : Stmt.Exchanged old new before after) :
      Exchanged old new
        (.method span modifiers result name params ⟨front ++ before :: back, braces⟩)
        (.method span modifiers result name params ⟨front ++ after :: back, braces⟩)
  | inStatement {before after : Stmt} (span : Span) (inner : Stmt.Exchanged old new before after) :
      Exchanged old new (.statement span before) (.statement span after)

/-- `after` is `before` with one statement `old` exchanged for `new`. -/
inductive SourceTree.Exchanged (old new : Stmt) : SourceTree → SourceTree → Prop
  | intro {before after : Item} (front back : List Item)
      (inner : Item.Exchanged old new before after) :
      Exchanged old new ⟨front ++ before :: back⟩ ⟨front ++ after :: back⟩

section

variable {α : Type} {replace : α → Option α} {items result : List α}

/-- The list with the first element replaced for which there is a replacement. -/
def replacedFirst? (replace : α → Option α) : List α → Option (List α)
  | [] => none
  | item :: items =>
      match replace item with
      | some replaced => some (replaced :: items)
      | none => (replacedFirst? replace items).map (item :: ·)

theorem replacedFirst?_eq_some_iff : replacedFirst? replace items = some result ↔
    ∃ front item item' back, items = front ++ item :: back ∧ result = front ++ item' :: back ∧
      replace item = some item' ∧ ∀ other ∈ front, replace other = none := by
  constructor
  · intro replaced
    induction items generalizing result with
    | nil => simp [replacedFirst?] at replaced
    | cons item items ih =>
        cases first : replace item with
        | some item' =>
            simp only [replacedFirst?, first, Option.some.injEq] at replaced
            exact ⟨[], item, item', items, rfl, replaced.symm, first, by simp⟩
        | none =>
            simp only [replacedFirst?, first, Option.map_eq_some_iff] at replaced
            obtain ⟨rest, replaced, same⟩ := replaced
            obtain ⟨front, child, child', back, shape, shape', found, passed⟩ := ih replaced
            exact ⟨item :: front, child, child', back, by simp [shape], by simp [← same, shape'],
              found, List.forall_mem_cons.mpr ⟨first, passed⟩⟩
  · rintro ⟨front, item, item', back, rfl, rfl, found, passed⟩
    induction front with
    | nil => simp [replacedFirst?, found]
    | cons first front ih =>
        obtain ⟨skipped, passed⟩ := List.forall_mem_cons.mp passed
        simp [replacedFirst?, skipped, ih passed]

theorem replacedFirst?_eq_none_iff :
    replacedFirst? replace items = none ↔ ∀ item ∈ items, replace item = none := by
  induction items with
  | nil => simp [replacedFirst?]
  | cons item items ih =>
      cases first : replace item with
      | some item' => simp [replacedFirst?, first]
      | none => simp [replacedFirst?, first, ih]

end

theorem Stmt.replaceFirst?_eq (stmts : List Stmt) (target : Span) (new : Stmt) :
    replaceFirst? stmts target new = replacedFirst? (·.replace? target new) stmts := by
  induction stmts with
  | nil => rw [replaceFirst?, replacedFirst?]
  | cons stmt stmts ih =>
      rw [replaceFirst?, replacedFirst?, ih]
      cases stmt.replace? target new <;> rfl

theorem Item.replaceFirst?_eq (items : List Item) (target : Span) (new : Stmt) :
    replaceFirst? items target new = replacedFirst? (·.replace? target new) items := by
  induction items with
  | nil => rw [replaceFirst?, replacedFirst?]
  | cons item items ih =>
      rw [replaceFirst?, replacedFirst?, ih]
      cases item.replace? target new <;> rfl

namespace Stmt

variable {old new before after : Stmt} {target : Span}

/-- An exchange is made at the root or in one of the statements directly inside. -/
theorem Exchanged.root_or_child (exchanged : Exchanged old new before after) :
    before = old ∧ after = new ∨
      before.span = after.span ∧ before.marks = after.marks ∧
        ∃ front child child' back, before.children = front ++ child :: back ∧
          after.children = front ++ child' :: back ∧ Exchanged old new child child' := by
  cases exchanged with
  | here => exact .inl ⟨rfl, rfl⟩
  | inBlock span front back inner => exact .inr ⟨rfl, rfl, front, _, _, back, rfl, rfl, inner⟩
  | inIfThen span cond inner => exact .inr ⟨rfl, rfl, [], _, _, [], rfl, rfl, inner⟩
  | inBody span cond otherwise inner =>
      exact .inr ⟨rfl, rfl, [], _, _, [otherwise], rfl, rfl, inner⟩
  | inOtherwise span cond body inner =>
      exact .inr ⟨rfl, rfl, [body], _, _, [], rfl, rfl, inner⟩
  | inForeach span type var varSpan seq inner =>
      exact .inr ⟨rfl, rfl, [], _, _, [], rfl, rfl, inner⟩
  | inWhile span cond inner => exact .inr ⟨rfl, rfl, [], _, _, [], rfl, rfl, inner⟩

theorem Exchanged.span_eq (exchanged : Exchanged old new before after)
    (same : new.span = old.span) : after.span = before.span := by
  rcases exchanged.root_or_child with ⟨rfl, rfl⟩ | ⟨spans, _⟩
  · exact same
  · exact spans.symm

theorem Exchanged.arranged (exchanged : Exchanged old new before after)
    (same : new.span = old.span) (new_arranged : new.Arranged) (arranged : before.Arranged) :
    after.Arranged := by
  induction before using children_induction generalizing after with
  | step before ih =>
      obtain ⟨parts, inside⟩ := arranged_iff.mp arranged
      rcases exchanged.root_or_child with
        ⟨rfl, rfl⟩ | ⟨spans, marks, front, child, child', back, shape, shape', inner⟩
      · exact new_arranged
      · have child_span := inner.span_eq same
        have isChild : child ∈ before.children := by simp [shape]
        have child_arranged := ih child isChild inner (inside child isChild)
        rw [shape] at inside
        refine arranged_iff.mpr ⟨⟨?_, ?_⟩, ?_⟩
        · rw [← spans]
          exact parts.children.congr (by simp [shape, shape', child_span])
        · intro mark marked
          obtain ⟨within, ahead⟩ := parts.marks mark (marks ▸ marked)
          refine ⟨spans ▸ within, fun other found => ?_⟩
          rw [shape', List.mem_append, List.mem_cons] at found
          rcases found with found | rfl | found
          · exact ahead other (by simp [shape, found])
          · exact child_span ▸ ahead child isChild
          · exact ahead other (by simp [shape, found])
        · intro other found
          rw [shape', List.mem_append, List.mem_cons] at found
          rcases found with found | rfl | found
          · exact inside other (by simp [found])
          · exact child_arranged
          · exact inside other (by simp [found])

theorem replace?_eq_none (outside : before.span.contains target = false) :
    before.replace? target new = none := by
  cases before <;> simp_all [replace?]

theorem replace?_self : old.replace? old.span new = some new := by
  cases old <;> simp [replace?, Span.contains_refl]

theorem replaceFirst?_append {front : List Stmt} (back : List Stmt) {stmt replaced : Stmt}
    (skipped : ∀ other ∈ front, other.replace? target new = none)
    (found : stmt.replace? target new = some replaced) :
    replaceFirst? (front ++ stmt :: back) target new = some (front ++ replaced :: back) := by
  rw [replaceFirst?_eq]
  exact replacedFirst?_eq_some_iff.mpr ⟨front, _, _, back, rfl, rfl, found, skipped⟩

theorem eq_of_singleton_eq_append {only child : Stmt} {front back : List Stmt}
    (shape : [only] = front ++ child :: back) : front = [] ∧ only = child ∧ back = [] := by
  cases front with
  | nil => simpa using shape
  | cons first front => simp at shape

/-- Where the target is inside a statement but not its span, the first statement
directly inside that has the target decides. -/
theorem replace?_of_child {front back : List Stmt} {child child' : Stmt}
    (around : before.span.contains target = true) (different : before.span ≠ target)
    (shape : before.children = front ++ child :: back)
    (skipped : ∀ other ∈ front, other.replace? target new = none)
    (found : child.replace? target new = some child') (inner : Exchanged old new child child') :
    ∃ after, before.replace? target new = some after ∧ Exchanged old new before after := by
  cases before with
  | block span stmts =>
      obtain rfl : stmts = front ++ child :: back := shape
      refine ⟨.block span (front ++ child' :: back), ?_, .inBlock span front back inner⟩
      simp [replace?, around, different, replaceFirst?_append back skipped found]
  | ifElse span cond body otherwise =>
      rcases front with _ | ⟨first, front⟩
      · obtain ⟨rfl, rfl⟩ : body = child ∧ [otherwise] = back := by simpa [children] using shape
        refine ⟨.ifElse span cond child' otherwise, ?_, .inBody span cond otherwise inner⟩
        simp [replace?, around, different, found]
      · obtain ⟨rfl, rest⟩ : body = first ∧ [otherwise] = front ++ child :: back := by
          simpa [children] using shape
        obtain ⟨rfl, rfl, rfl⟩ := eq_of_singleton_eq_append rest
        have passed := skipped body List.mem_cons_self
        refine ⟨.ifElse span cond body child', ?_, .inOtherwise span cond body inner⟩
        simp [replace?, around, different, found, passed]
  | ifThen span cond body =>
      obtain ⟨rfl, rfl, rfl⟩ := eq_of_singleton_eq_append shape
      exact ⟨.ifThen span cond child', by simp [replace?, around, different, found],
        .inIfThen span cond inner⟩
  | foreach span type var varSpan seq body =>
      obtain ⟨rfl, rfl, rfl⟩ := eq_of_singleton_eq_append shape
      exact ⟨.foreach span type var varSpan seq child',
        by simp [replace?, around, different, found], .inForeach span type var varSpan seq inner⟩
  | whileLoop span cond body =>
      obtain ⟨rfl, rfl, rfl⟩ := eq_of_singleton_eq_append shape
      exact ⟨.whileLoop span cond child', by simp [replace?, around, different, found],
        .inWhile span cond inner⟩
  | _ => simp [children] at shape

/-- Replacing by span exchanges the one statement with that span. -/
theorem Arranged.replace? (new : Stmt) (arranged : before.Arranged) (inside : old ∈ before.statements) :
    ∃ after, before.replace? old.span new = some after ∧ Exchanged old new before after := by
  induction before using children_induction with
  | step before ih =>
      obtain ⟨parts, children⟩ := arranged_iff.mp arranged
      rcases arranged.eq_or_within inside with rfl | deeper
      · exact ⟨new, replace?_self, .here⟩
      · have different : old ≠ before := by
          rintro rfl
          exact absurd deeper.1 (Nat.not_succ_le_self _)
        rw [statements_eq, List.mem_cons, List.mem_flatMap] at inside
        obtain ⟨child, isChild, inside⟩ := inside.resolve_left different
        obtain ⟨child', found, inner⟩ := ih child isChild (children child isChild) inside
        have inChild := (children child isChild).within_of_mem inside (Span.within_self deeper.2.1)
        obtain ⟨front, back, shape, ahead, _⟩ := parts.children.split isChild
        refine replace?_of_child (deeper.widen (Nat.le_succ _) (Nat.le_refl _)).contains ?_ shape
          (fun other found => replace?_eq_none
            (Span.contains_eq_false inChild (.inl (ahead other found)))) found inner
        intro same
        rw [same] at deeper
        exact absurd deeper.1 (Nat.not_succ_le_self _)

theorem Arranged.filter_span_eq_nil (arranged : before.Arranged)
    (outside : before.span.contains target = false) :
    before.statements.filter (·.span = target) = [] := by
  rw [List.filter_eq_nil_iff]
  intro inner found same
  rw [decide_eq_true_eq] at same
  subst same
  have inside : before.span.contains inner.span = true := by
    rcases arranged.eq_or_within found with rfl | within
    · exact Span.contains_refl _
    · exact (within.widen (Nat.le_succ _) (Nat.le_refl _)).contains
  rw [inside] at outside
  exact Bool.noConfusion outside

/-- No other statement inside has the span of a statement. -/
theorem Arranged.filter_span_eq (arranged : before.Arranged) (inside : old ∈ before.statements)
    (nonempty : old.span.start < old.span.stop) :
    before.statements.filter (·.span = old.span) = [old] := by
  induction before using children_induction with
  | step before ih =>
      obtain ⟨parts, children⟩ := arranged_iff.mp arranged
      rw [statements_eq, List.filter_cons, List.filter_flatMap]
      rcases arranged.eq_or_within inside with rfl | deeper
      · rw [if_pos (by simp), List.cons.injEq, List.flatMap_eq_nil_iff]
        refine ⟨rfl, fun child isChild => (children child isChild).filter_span_eq_nil ?_⟩
        have place := parts.children.within_of_mem isChild
        rw [Bool.eq_false_iff, ne_eq, Span.contains_iff]
        unfold Span.Within at place
        omega
      · have different : before.span ≠ old.span := by
          intro same
          rw [same] at deeper
          exact absurd deeper.1 (Nat.not_succ_le_self _)
        rw [if_neg (by simpa using different)]
        rw [statements_eq, List.mem_cons, List.mem_flatMap] at inside
        obtain ⟨child, isChild, inside⟩ := inside.resolve_left fun same => different (same ▸ rfl)
        rw [← ih child isChild (children child isChild) inside]
        exact parts.children.flatMap_eq isChild
          ((children child isChild).within_of_mem inside (Span.within_self nonempty))
          fun other isOther outside => (children other isOther).filter_span_eq_nil outside

end Stmt

namespace Item

variable {old new : Stmt} {before after : Item} {target : Span}

/-- An exchange is made in one of the items, or one of the statements, directly
inside. -/
theorem Exchanged.subitem_or_stmt (exchanged : Exchanged old new before after) :
    before.span = after.span ∧
      ((before.stmts = [] ∧ after.stmts = [] ∧
          ∃ front child child' back, before.subitems = front ++ child :: back ∧
            after.subitems = front ++ child' :: back ∧ Exchanged old new child child') ∨
        before.subitems = [] ∧ after.subitems = [] ∧
          ∃ front child child' back, before.stmts = front ++ child :: back ∧
            after.stmts = front ++ child' :: back ∧ Stmt.Exchanged old new child child') := by
  cases exchanged with
  | inNamespace span path front back inner =>
      exact ⟨rfl, .inl ⟨rfl, rfl, front, _, _, back, rfl, rfl, inner⟩⟩
  | inClass span modifiers name front back inner =>
      exact ⟨rfl, .inl ⟨rfl, rfl, front, _, _, back, rfl, rfl, inner⟩⟩
  | inMethod span modifiers result name params front back braces inner =>
      exact ⟨rfl, .inr ⟨rfl, rfl, front, _, _, back, rfl, rfl, inner⟩⟩
  | inStatement span inner => exact ⟨rfl, .inr ⟨rfl, rfl, [], _, _, [], rfl, rfl, inner⟩⟩

theorem Exchanged.arranged (exchanged : Exchanged old new before after)
    (same : new.span = old.span) (new_arranged : new.Arranged) (arranged : before.Arranged) :
    after.Arranged := by
  induction arranged generalizing after with
  | @intro before parts subitems stmts ih =>
      obtain ⟨spans, ⟨noStmts, noStmts', front, child, child', back, shape, shape', inner⟩ |
        ⟨noItems, noItems', front, child, child', back, shape, shape', inner⟩⟩ :=
        exchanged.subitem_or_stmt
      · have child_span := inner.subitem_or_stmt.1
        have child_arranged := ih child (by simp [shape]) inner
        refine .intro ⟨?_, by rw [noStmts']; trivial⟩ ?_ (by simp [noStmts'])
        · rw [← spans]
          exact parts.subitems.congr (by simp [shape, shape', child_span])
        · intro other found
          rw [shape', List.mem_append, List.mem_cons] at found
          rcases found with found | rfl | found
          · exact subitems other (by simp [shape, found])
          · exact child_arranged
          · exact subitems other (by simp [shape, found])
      · have child_span := inner.span_eq same
        have child_arranged := inner.arranged same new_arranged (stmts child (by simp [shape]))
        refine .intro ⟨by rw [noItems']; trivial, ?_⟩ (by simp [noItems']) ?_
        · rw [← spans]
          exact parts.stmts.congr (by simp [shape, shape', child_span])
        · intro other found
          rw [shape', List.mem_append, List.mem_cons] at found
          rcases found with found | rfl | found
          · exact stmts other (by simp [shape, found])
          · exact child_arranged
          · exact stmts other (by simp [shape, found])

theorem replace?_eq_none (outside : before.span.contains target = false) :
    before.replace? target new = none := by
  cases before <;> simp_all [replace?]

theorem replaceFirst?_append {front : List Item} (back : List Item) {item replaced : Item}
    (skipped : ∀ other ∈ front, other.replace? target new = none)
    (found : item.replace? target new = some replaced) :
    replaceFirst? (front ++ item :: back) target new = some (front ++ replaced :: back) := by
  rw [replaceFirst?_eq]
  exact replacedFirst?_eq_some_iff.mpr ⟨front, _, _, back, rfl, rfl, found, skipped⟩

theorem Arranged.replace? (new : Stmt) (arranged : before.Arranged) (inside : old ∈ before.statements) :
    ∃ after, before.replace? old.span new = some after ∧ Exchanged old new before after := by
  have old_within := arranged.within inside
  have around := old_within.contains
  induction arranged with
  | @intro before parts subitems stmts ih =>
      rw [statements_eq, List.mem_append, List.mem_flatMap, List.mem_flatMap] at inside
      rcases inside with ⟨child, isChild, inside⟩ | ⟨stmt, isStmt, inside⟩
      · have within := (subitems child isChild).within inside
        obtain ⟨child', found, inner⟩ := ih child isChild inside within within.contains
        obtain ⟨front, back, shape, ahead, _⟩ := parts.subitems.split isChild
        have first := replaceFirst?_append back
          (fun other found => replace?_eq_none
            (Span.contains_eq_false within (.inl (ahead other found)))) found
        cases before with
        | namespaceOf span path items =>
            obtain rfl : items = front ++ child :: back := shape
            exact ⟨.namespaceOf span path (front ++ child' :: back),
              by simp [Item.replace?, around, first], .inNamespace span path front back inner⟩
        | classOf span modifiers name members =>
            obtain rfl : members = front ++ child :: back := shape
            exact ⟨.classOf span modifiers name (front ++ child' :: back),
              by simp [Item.replace?, around, first], .inClass span modifiers name front back inner⟩
        | _ => simp [Item.subitems] at isChild
      · have inStmt := (stmts stmt isStmt).within_of_mem inside (Span.within_self old_within.2.1)
        obtain ⟨stmt', found, inner⟩ := (stmts stmt isStmt).replace? new inside
        obtain ⟨front, back, shape, ahead, _⟩ := parts.stmts.split isStmt
        have first := Stmt.replaceFirst?_append back
          (fun other found => Stmt.replace?_eq_none
            (Span.contains_eq_false inStmt (.inl (ahead other found)))) found
        cases before with
        | method span modifiers result name params body =>
            obtain ⟨lines, braces⟩ := body
            obtain rfl : lines = front ++ stmt :: back := shape
            exact ⟨.method span modifiers result name params ⟨front ++ stmt' :: back, braces⟩,
              by simp [Item.replace?, around, first],
              .inMethod span modifiers result name params front back braces inner⟩
        | statement span only =>
            obtain ⟨-, rfl, -⟩ := Stmt.eq_of_singleton_eq_append shape
            exact ⟨.statement span stmt', by simp [Item.replace?, around, found],
              .inStatement span inner⟩
        | _ => simp [Item.stmts] at isStmt

theorem Arranged.filter_span_eq_nil (arranged : before.Arranged)
    (outside : before.span.contains target = false) :
    before.statements.filter (·.span = target) = [] := by
  rw [List.filter_eq_nil_iff]
  intro inner found same
  rw [decide_eq_true_eq] at same
  subst same
  rw [(arranged.within found).contains] at outside
  exact Bool.noConfusion outside

theorem Arranged.filter_span_eq (arranged : before.Arranged) (inside : old ∈ before.statements) :
    before.statements.filter (·.span = old.span) = [old] := by
  have nonempty := (arranged.within inside).2.1
  induction arranged with
  | @intro before parts subitems stmts ih =>
      rw [statements_eq, List.filter_append, List.filter_flatMap, List.filter_flatMap]
      rw [statements_eq, List.mem_append, List.mem_flatMap, List.mem_flatMap] at inside
      rcases inside with ⟨child, isChild, inside⟩ | ⟨stmt, isStmt, inside⟩
      · have noStmts : before.stmts = [] :=
          before.subitems_eq_nil_or_stmts_eq_nil.resolve_left (List.ne_nil_of_mem isChild)
        rw [noStmts, List.flatMap_nil, List.append_nil, ← ih child isChild inside]
        exact parts.subitems.flatMap_eq isChild ((subitems child isChild).within inside)
          fun other isOther outside => (subitems other isOther).filter_span_eq_nil outside
      · have noItems : before.subitems = [] :=
          before.subitems_eq_nil_or_stmts_eq_nil.resolve_right (List.ne_nil_of_mem isStmt)
        rw [noItems, List.flatMap_nil, List.nil_append,
          ← (stmts stmt isStmt).filter_span_eq inside nonempty]
        exact parts.stmts.flatMap_eq isStmt
          ((stmts stmt isStmt).within_of_mem inside (Span.within_self nonempty))
          fun other isOther outside => (stmts other isOther).filter_span_eq_nil outside

end Item

namespace SourceTree

variable {length : Nat} {old new : Stmt} {before after : SourceTree}

theorem Exchanged.arranged (exchanged : Exchanged old new before after)
    (same : new.span = old.span) (new_arranged : new.Arranged)
    (arranged : before.Arranged length) : after.Arranged length := by
  cases exchanged with
  | @intro item item' front back inner =>
      have item_arranged :=
        inner.arranged same new_arranged (arranged.items item (by simp))
      refine ⟨arranged.spread.congr (by simp [inner.subitem_or_stmt.1]), fun other found => ?_⟩
      rw [List.mem_append, List.mem_cons] at found
      rcases found with found | rfl | found
      · exact arranged.items other (by simp [found])
      · exact item_arranged
      · exact arranged.items other (by simp [found])

/-- Replacing by the span of a statement exchanges that statement. -/
theorem Arranged.replaceStmt? (new : Stmt) (arranged : before.Arranged length)
    (inside : old ∈ before.statements) :
    ∃ after, before.replaceStmt? old.span new = some after ∧ Exchanged old new before after := by
  rw [statements_eq, List.mem_flatMap] at inside
  obtain ⟨item, isItem, inside⟩ := inside
  have within := (arranged.items item isItem).within inside
  obtain ⟨item', found, inner⟩ := (arranged.items item isItem).replace? new inside
  obtain ⟨front, back, shape, ahead, _⟩ := arranged.spread.split isItem
  have first := Item.replaceFirst?_append back
    (fun other found => Item.replace?_eq_none
      (Span.contains_eq_false within (.inl (ahead other found)))) found
  obtain ⟨items⟩ := before
  obtain rfl : items = front ++ item :: back := shape
  exact ⟨⟨front ++ item' :: back⟩, by simp [SourceTree.replaceStmt?, first],
    .intro front back inner⟩

/-- No other statement of the tree has the span of a statement. -/
theorem Arranged.filter_span_eq (arranged : before.Arranged length)
    (inside : old ∈ before.statements) :
    before.statements.filter (·.span = old.span) = [old] := by
  rw [statements_eq] at inside ⊢
  obtain ⟨item, isItem, inside⟩ := List.mem_flatMap.mp inside
  have item_arranged := arranged.items item isItem
  rw [List.filter_flatMap, ← item_arranged.filter_span_eq inside]
  exact arranged.spread.flatMap_eq isItem (item_arranged.within inside)
    fun other isOther outside => (arranged.items other isOther).filter_span_eq_nil outside

end SourceTree

/-- `after` is `before` with the part `old` exchanged for `new`. -/
def PartExchanged {α : Type} (old new before after : List α) : Prop :=
  ∃ front back, before = front ++ old ++ back ∧ after = front ++ new ++ back

namespace PartExchanged

variable {α β : Type} {old new before after : List α}

theorem refl (old new : List α) : PartExchanged old new old new :=
  ⟨[], [], by simp, by simp⟩

theorem behind (inner : PartExchanged old new before after) (ahead : List α) :
    PartExchanged old new (ahead ++ before) (ahead ++ after) := by
  obtain ⟨front, back, rfl, rfl⟩ := inner
  exact ⟨ahead ++ front, back, by simp, by simp⟩

theorem inFrontOf (inner : PartExchanged old new before after) (others : List α) :
    PartExchanged old new (before ++ others) (after ++ others) := by
  obtain ⟨front, back, rfl, rfl⟩ := inner
  exact ⟨front, back ++ others, by simp, by simp⟩

theorem flatMap_among (list : β → List α) {part part' : β}
    (inner : PartExchanged old new (list part) (list part')) (front back : List β) :
    PartExchanged old new ((front ++ part :: back).flatMap list)
      ((front ++ part' :: back).flatMap list) := by
  rw [List.flatMap_append, List.flatMap_append, List.flatMap_cons, List.flatMap_cons]
  exact (inner.inFrontOf _).behind _

end PartExchanged

section

variable {α : Type} {shown : Node → List α} {old new : Stmt}

theorem Stmt.flatMap_nodes (stmt : Stmt) : stmt.nodes.flatMap shown =
    shown (.stmt stmt) ++ ((stmt.exprs.flatMap Expr.nodes).flatMap shown ++
      stmt.children.flatMap fun child => child.nodes.flatMap shown) := by
  rw [nodes_eq, List.flatMap_cons, List.flatMap_append]
  simp only [List.flatMap_assoc]

theorem Item.flatMap_nodes (item : Item) : item.nodes.flatMap shown =
    shown (.item item) ++ ((item.exprs.flatMap Expr.nodes).flatMap shown ++
      ((item.subitems.flatMap fun child => child.nodes.flatMap shown) ++
        item.stmts.flatMap fun stmt => stmt.nodes.flatMap shown)) := by
  rw [nodes_eq, List.flatMap_cons, List.flatMap_append, List.flatMap_append]
  simp only [List.flatMap_assoc]

theorem Stmt.Exchanged.eq_or_exprs_eq {before after : Stmt}
    (exchanged : Exchanged old new before after) :
    before = old ∧ after = new ∨ before.exprs = after.exprs := by
  cases exchanged with
  | here => exact .inl ⟨rfl, rfl⟩
  | _ => exact .inr rfl

theorem Item.Exchanged.exprs_eq {before after : Item} (exchanged : Exchanged old new before after) :
    before.exprs = after.exprs := by
  cases exchanged <;> rfl

/-- Around the place of an exchange every node shows what it showed, if what a statement
shows does not depend on the statements inside it. -/
theorem Stmt.Exchanged.flatMap_nodes
    (stmts : ∀ {before after : Stmt}, Exchanged old new before after →
      before = old ∧ after = new ∨ shown (.stmt before) = shown (.stmt after))
    {before after : Stmt} (exchanged : Exchanged old new before after) :
    PartExchanged (old.nodes.flatMap shown) (new.nodes.flatMap shown)
      (before.nodes.flatMap shown) (after.nodes.flatMap shown) := by
  induction before using children_induction generalizing after with
  | step before ih =>
      by_cases root : before = old ∧ after = new
      · obtain ⟨rfl, rfl⟩ := root
        exact .refl _ _
      · obtain ⟨-, -, front, child, child', back, shape, shape', inner⟩ :=
          exchanged.root_or_child.resolve_left root
        have inside := ih child (by simp [shape]) inner
        rw [before.flatMap_nodes, after.flatMap_nodes, shape, shape',
          exchanged.eq_or_exprs_eq.resolve_left root, (stmts exchanged).resolve_left root]
        exact ((inside.flatMap_among (fun child => child.nodes.flatMap shown) front back).behind
          _).behind _

theorem Item.Exchanged.flatMap_nodes
    (stmts : ∀ {before after : Stmt}, Stmt.Exchanged old new before after →
      before = old ∧ after = new ∨ shown (.stmt before) = shown (.stmt after))
    (items : ∀ {before after : Item}, Exchanged old new before after →
      shown (.item before) = shown (.item after))
    {before after : Item} (exchanged : Exchanged old new before after) :
    PartExchanged (old.nodes.flatMap shown) (new.nodes.flatMap shown)
      (before.nodes.flatMap shown) (after.nodes.flatMap shown) := by
  induction before using subitems_induction generalizing after with
  | step before ih =>
      rw [before.flatMap_nodes, after.flatMap_nodes, exchanged.exprs_eq, items exchanged]
      obtain ⟨-, ⟨noStmts, noStmts', front, child, child', back, shape, shape', inner⟩ |
        ⟨noItems, noItems', front, child, child', back, shape, shape', inner⟩⟩ :=
        exchanged.subitem_or_stmt
      · have inside := ih child (by simp [shape]) inner
        rw [noStmts, noStmts', shape, shape', List.flatMap_nil, List.append_nil, List.append_nil]
        exact ((inside.flatMap_among (fun child => child.nodes.flatMap shown) front back).behind
          _).behind _
      · have inside := inner.flatMap_nodes stmts
        rw [noItems, noItems', shape, shape', List.flatMap_nil, List.nil_append, List.nil_append]
        exact ((inside.flatMap_among (fun stmt => stmt.nodes.flatMap shown) front back).behind
          _).behind _

theorem SourceTree.Exchanged.flatMap_nodes
    (stmts : ∀ {before after : Stmt}, Stmt.Exchanged old new before after →
      before = old ∧ after = new ∨ shown (.stmt before) = shown (.stmt after))
    (items : ∀ {before after : Item}, Item.Exchanged old new before after →
      shown (.item before) = shown (.item after))
    {before after : SourceTree} (exchanged : Exchanged old new before after) :
    PartExchanged (old.nodes.flatMap shown) (new.nodes.flatMap shown)
      (before.nodes.flatMap shown) (after.nodes.flatMap shown) := by
  cases exchanged with
  | intro front back inner =>
      rw [nodes_eq, nodes_eq, List.flatMap_assoc, List.flatMap_assoc]
      exact (inner.flatMap_nodes stmts items).flatMap_among (fun item => item.nodes.flatMap shown)
        front back

/-- Around the place of an exchange the statements show what they showed. -/
theorem SourceTree.Exchanged.map_statements {shown : Stmt → α}
    (stmts : ∀ {before after : Stmt}, Stmt.Exchanged old new before after →
      before = old ∧ after = new ∨ shown before = shown after)
    {before after : SourceTree} (exchanged : Exchanged old new before after) :
    PartExchanged (old.statements.map shown) (new.statements.map shown)
      (before.statements.map shown) (after.statements.map shown) := by
  have listed : ∀ nodes : List Node, (nodes.filterMap Node.stmt?).map shown =
      nodes.flatMap fun node => (node.stmt?.map shown).toList := fun nodes => by
    rw [List.map_filterMap, List.filterMap_eq_flatMap_toList]
  simp only [SourceTree.statements, Stmt.statements, listed]
  refine exchanged.flatMap_nodes (fun exchanged => ?_) fun _ => rfl
  exact (stmts exchanged).imp_right fun same => by simp [Node.stmt?, same]

end

end QueryLoop
