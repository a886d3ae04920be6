import QueryLoop.Proofs.Place.Statements

namespace QueryLoop

/-! Trees whose statements lie in the source as they nest in the tree.

In an arranged tree every statement has a span of its own, inside the span of the
statement around it and behind the statements before it.  A place inside a
statement is then inside no other statement but those around it, so looking a
span up and replacing the statement with a span find the one statement they are
meant to find.  The spans of expressions play no part, except those of
conditions, which like declarators are places where a loop is reported.
-/

namespace Span

/-- The first lies in front of the second. -/
def Before (first second : Span) : Prop :=
  first.stop ≤ second.start

/-- Not empty, and between the two offsets. -/
def Within (lower upper : Nat) (span : Span) : Prop :=
  lower ≤ span.start ∧ span.start < span.stop ∧ span.stop ≤ upper

theorem Within.widen {lower lower' upper upper' : Nat} {span : Span}
    (within : span.Within lower upper) (below : lower' ≤ lower) (above : upper ≤ upper') :
    span.Within lower' upper' := by
  unfold Within at *
  omega

/-- Nothing inside one span is inside another that lies before or behind it. -/
theorem contains_eq_false {outer inner target : Span}
    (within : target.Within inner.start inner.stop)
    (apart : outer.stop ≤ inner.start ∨ inner.stop ≤ outer.start) :
    outer.contains target = false := by
  rw [Bool.eq_false_iff, ne_eq, contains_iff]
  unfold Within at within
  omega

theorem within_self {span : Span} (nonempty : span.start < span.stop) :
    span.Within span.start span.stop :=
  ⟨Nat.le_refl _, nonempty, Nat.le_refl _⟩

theorem Within.contains {outer inner : Span} (within : inner.Within outer.start outer.stop) :
    outer.contains inner = true := by
  rw [contains_iff]
  unfold Within at within
  omega

end Span

/-- The places of the elements are not empty, between two offsets, and one behind
the other. -/
def Spread {α : Type} (place : α → Span) (lower upper : Nat) : List α → Prop
  | [] => True
  | item :: items => (place item).Within lower upper ∧ Spread place (place item).stop upper items

namespace Spread

variable {α : Type} {place : α → Span} {lower upper : Nat} {items others : List α} {item : α}

theorem widen {lower' upper' : Nat} (spread : Spread place lower upper items)
    (below : lower' ≤ lower) (above : upper ≤ upper') : Spread place lower' upper' items := by
  induction items generalizing lower lower' with
  | nil => trivial
  | cons item items ih =>
      exact ⟨spread.1.widen below above, ih spread.2 (Nat.le_refl _)⟩

theorem tail (spread : Spread place lower upper (item :: items)) :
    Spread place lower upper items := by
  obtain ⟨⟨above, nonempty, _⟩, following⟩ := spread
  exact following.widen (by omega) (Nat.le_refl _)

theorem append {middle : Nat} (front : Spread place lower middle items)
    (back : Spread place middle upper others) (ordered : lower ≤ middle) (fits : middle ≤ upper) :
    Spread place lower upper (items ++ others) := by
  induction items generalizing lower with
  | nil => exact back.widen ordered (Nat.le_refl _)
  | cons item items ih =>
      exact ⟨front.1.widen (Nat.le_refl _) fits, ih front.2 front.1.2.2⟩

theorem sublist (spread : Spread place lower upper items) (fewer : others.Sublist items) :
    Spread place lower upper others := by
  induction fewer generalizing lower with
  | slnil => trivial
  | cons item fewer ih => exact ih spread.tail
  | cons_cons item fewer ih => exact ⟨spread.1, ih spread.2⟩

theorem within_of_mem (spread : Spread place lower upper items) (inside : item ∈ items) :
    (place item).Within lower upper := by
  induction items with
  | nil => simp at inside
  | cons first items ih =>
      rcases List.mem_cons.mp inside with rfl | inside
      · exact spread.1
      · exact ih spread.tail inside

theorem pairwise (spread : Spread place lower upper items) :
    items.Pairwise fun first second => (place first).Before (place second) := by
  induction items generalizing lower with
  | nil => exact .nil
  | cons item items ih =>
      exact .cons (fun other behind => (spread.2.within_of_mem behind).1) (ih spread.2)

/-- The elements around one of them lie before it or behind it. -/
theorem split (spread : Spread place lower upper items) (inside : item ∈ items) :
    ∃ front back, items = front ++ item :: back ∧
      (∀ other ∈ front, (place other).stop ≤ (place item).start) ∧
      ∀ other ∈ back, (place item).stop ≤ (place other).start := by
  induction items generalizing lower with
  | nil => simp at inside
  | cons first items ih =>
      rcases List.mem_cons.mp inside with rfl | inside
      · exact ⟨[], items, rfl, by simp, fun other behind => (spread.2.within_of_mem behind).1⟩
      · have ahead := (spread.2.within_of_mem inside).1
        obtain ⟨front, back, rfl, before, behind⟩ := ih spread.2 inside
        refine ⟨first :: front, back, rfl, ?_, behind⟩
        intro other found
        rcases List.mem_cons.mp found with rfl | found
        · exact ahead
        · exact before other found

theorem congr {other : List α} (spread : Spread place lower upper items)
    (same : other.map place = items.map place) : Spread place lower upper other := by
  induction items generalizing lower other with
  | nil =>
      obtain rfl := List.map_eq_nil_iff.mp same
      trivial
  | cons item items ih =>
      obtain ⟨first, rest, rfl, place_eq, rest_eq⟩ := List.map_eq_cons_iff.mp same
      exact ⟨place_eq ▸ spread.1, ih (place_eq ▸ spread.2) rest_eq⟩

end Spread

namespace Stmt

/-- The places in a statement where a loop around it may be reported. -/
def marks : Stmt → List Span
  | decl _ declared => declared.declarators.map Declarator.span
  | ifThen _ cond _ => [cond.span]
  | ifElse _ cond _ _ => [cond.span]
  | _ => []

/-- The statements directly inside a statement lie behind its start, one behind
the other, and its marks lie before them. -/
structure PartsInside (stmt : Stmt) : Prop where
  children : Spread Stmt.span (stmt.span.start + 1) stmt.span.stop stmt.children
  marks : ∀ mark ∈ stmt.marks, mark.Within stmt.span.start stmt.span.stop ∧
    ∀ child ∈ stmt.children, mark.stop ≤ child.span.start

/-- The parts of every statement inside `stmt` lie inside that statement. -/
def Arranged (stmt : Stmt) : Prop :=
  ∀ inner ∈ stmt.statements, inner.PartsInside

theorem arranged_iff {stmt : Stmt} :
    stmt.Arranged ↔ stmt.PartsInside ∧ ∀ child ∈ stmt.children, child.Arranged := by
  simp only [Arranged, statements_eq stmt, List.forall_mem_cons, List.forall_mem_flatMap]

end Stmt

namespace Item

/-- The items and statements directly inside an item lie inside it, one behind the
other. -/
structure PartsInside (item : Item) : Prop where
  subitems : Spread Item.span item.span.start item.span.stop item.subitems
  stmts : Spread Stmt.span item.span.start item.span.stop item.stmts

/-- The parts of an item, and of all items and statements inside it, lie inside. -/
inductive Arranged : Item → Prop
  | intro {item : Item} (parts : item.PartsInside)
      (subitems : ∀ child ∈ item.subitems, child.Arranged)
      (stmts : ∀ stmt ∈ item.stmts, stmt.Arranged) : item.Arranged

end Item

/-- A tree whose items lie in a source text of `length` bytes, one behind the other. -/
structure SourceTree.Arranged (length : Nat) (tree : SourceTree) : Prop where
  spread : Spread Item.span 0 length tree.items
  items : ∀ item ∈ tree.items, item.Arranged

/-- Among elements that lie apart, a walk that needs the target inside an element
visits only the element the target is in. -/
theorem Spread.flatMap_eq {α β : Type} {place : α → Span} {lower upper : Nat} {items : List α}
    {item : α} {target : Span} {visit : α → List β} (spread : Spread place lower upper items)
    (inside : item ∈ items) (within : target.Within (place item).start (place item).stop)
    (skips : ∀ other ∈ items, (place other).contains target = false → visit other = []) :
    items.flatMap visit = visit item := by
  obtain ⟨front, back, rfl, before, behind⟩ := spread.split inside
  have front_nil : front.flatMap visit = [] := by
    rw [List.flatMap_eq_nil_iff]
    intro other found
    exact skips other (List.mem_append_left _ found)
      (Span.contains_eq_false within (.inl (before other found)))
  have back_nil : back.flatMap visit = [] := by
    rw [List.flatMap_eq_nil_iff]
    intro other found
    exact skips other (by simp [found])
      (Span.contains_eq_false within (.inr (behind other found)))
  rw [List.flatMap_append, List.flatMap_cons, front_nil, back_nil, List.nil_append,
    List.append_nil]

namespace Stmt

variable {stmt old : Stmt} {target : Span}

/-- Every statement inside an arranged one is the statement itself or lies inside
its span, behind its start. -/
theorem Arranged.eq_or_within (arranged : stmt.Arranged) (inside : old ∈ stmt.statements) :
    old = stmt ∨ old.span.Within (stmt.span.start + 1) stmt.span.stop := by
  induction stmt using children_induction with
  | step stmt ih =>
      obtain ⟨parts, children⟩ := arranged_iff.mp arranged
      rw [statements_eq, List.mem_cons, List.mem_flatMap] at inside
      rcases inside with rfl | ⟨child, isChild, inside⟩
      · exact .inl rfl
      · have place := parts.children.within_of_mem isChild
        rcases ih child isChild (children child isChild) inside with rfl | within
        · exact .inr place
        · exact .inr (within.widen (Nat.le_succ_of_le place.1) place.2.2)

theorem Arranged.within_of_mem (arranged : stmt.Arranged) (inside : old ∈ stmt.statements)
    (within : target.Within old.span.start old.span.stop) :
    target.Within stmt.span.start stmt.span.stop := by
  rcases arranged.eq_or_within inside with rfl | deeper
  · exact within
  · exact within.widen (Nat.le_of_succ_le deeper.1) deeper.2.2

/-- The way to a place inside a statement leads over that statement. -/
theorem Arranged.statementsAround_eq (arranged : stmt.Arranged) (inside : old ∈ stmt.statements)
    (within : target.Within old.span.start old.span.stop) :
    ∃ outer, stmt.statementsAround target = outer ++ old.statementsAround target := by
  induction stmt using children_induction with
  | step stmt ih =>
      obtain ⟨parts, children⟩ := arranged_iff.mp arranged
      rw [statements_eq, List.mem_cons, List.mem_flatMap] at inside
      rcases inside with rfl | ⟨child, isChild, inside⟩
      · exact ⟨[], rfl⟩
      · obtain ⟨outer, found⟩ := ih child isChild (children child isChild) inside
        have place := parts.children.within_of_mem isChild
        have inChild := (children child isChild).within_of_mem inside within
        have here : stmt.span.contains target = true :=
          (inChild.widen (Nat.le_of_succ_le place.1) place.2.2).contains
        refine ⟨stmt :: outer, ?_⟩
        rw [Stmt.statementsAround_eq, if_pos here, parts.children.flatMap_eq isChild inChild
          fun _ _ outside => statementsAround_eq_nil outside, found, List.cons_append]

/-- No statement inside lies around a mark. -/
theorem PartsInside.statementsAround_eq (parts : stmt.PartsInside) (marked : target ∈ stmt.marks) :
    stmt.statementsAround target = [stmt] := by
  obtain ⟨within, before⟩ := parts.marks target marked
  rw [Stmt.statementsAround_eq, if_pos within.contains, List.cons.injEq, List.flatMap_eq_nil_iff]
  refine ⟨rfl, fun child isChild => statementsAround_eq_nil ?_⟩
  have ahead := before child isChild
  rw [Bool.eq_false_iff, ne_eq, Span.contains_iff]
  unfold Span.Within at within
  omega

end Stmt

namespace Item

variable {item : Item} {old : Stmt} {target : Span}

theorem Arranged.within (arranged : item.Arranged) (inside : old ∈ item.statements) :
    old.span.Within item.span.start item.span.stop := by
  induction arranged with
  | @intro item parts subitems stmts ih =>
      rw [statements_eq, List.mem_append, List.mem_flatMap, List.mem_flatMap] at inside
      rcases inside with ⟨child, isChild, inside⟩ | ⟨stmt, isStmt, inside⟩
      · have place := parts.subitems.within_of_mem isChild
        exact (ih child isChild inside).widen place.1 place.2.2
      · have place := parts.stmts.within_of_mem isStmt
        rcases (stmts stmt isStmt).eq_or_within inside with rfl | deeper
        · exact place
        · exact deeper.widen (Nat.le_succ_of_le place.1) place.2.2

theorem Arranged.statementsAround_eq (arranged : item.Arranged) (inside : old ∈ item.statements)
    (within : target.Within old.span.start old.span.stop) :
    ∃ outer, item.statementsAround target = outer ++ old.statementsAround target := by
  have old_within := arranged.within inside
  have here : item.span.contains target = true :=
    (within.widen old_within.1 old_within.2.2).contains
  induction arranged with
  | @intro item parts subitems stmts ih =>
      rw [Item.statementsAround_eq, if_pos here]
      rw [statements_eq, List.mem_append, List.mem_flatMap, List.mem_flatMap] at inside
      rcases inside with ⟨child, isChild, inside⟩ | ⟨stmt, isStmt, inside⟩
      · have noStmts : item.stmts = [] :=
          item.subitems_eq_nil_or_stmts_eq_nil.resolve_left (List.ne_nil_of_mem isChild)
        have child_within := (subitems child isChild).within inside
        have inChild := within.widen child_within.1 child_within.2.2
        obtain ⟨outer, found⟩ := ih child isChild inside child_within inChild.contains
        refine ⟨outer, ?_⟩
        rw [noStmts, List.flatMap_nil, List.append_nil, ← found]
        exact parts.subitems.flatMap_eq isChild inChild
          fun _ _ outside => statementsAround_eq_nil outside
      · have noItems : item.subitems = [] :=
          item.subitems_eq_nil_or_stmts_eq_nil.resolve_right (List.ne_nil_of_mem isStmt)
        obtain ⟨outer, found⟩ := (stmts stmt isStmt).statementsAround_eq inside within
        have inStmt := (stmts stmt isStmt).within_of_mem inside within
        refine ⟨outer, ?_⟩
        rw [noItems, List.flatMap_nil, List.nil_append, ← found]
        exact parts.stmts.flatMap_eq isStmt inStmt
          fun _ _ outside => Stmt.statementsAround_eq_nil outside

end Item

namespace SourceTree

variable {length : Nat} {tree : SourceTree} {old : Stmt} {target : Span}

/-- The way to a place inside a statement of the tree leads over that statement,
and nothing else lies around the place. -/
theorem Arranged.statementsAround_eq (arranged : tree.Arranged length)
    (inside : old ∈ tree.statements) (within : target.Within old.span.start old.span.stop) :
    ∃ outer, (tree.nodesAround target).filterMap Node.stmt? =
      outer ++ old.statementsAround target := by
  rw [statements_eq, List.mem_flatMap] at inside
  obtain ⟨item, isItem, inside⟩ := inside
  have item_within := (arranged.items item isItem).within inside
  obtain ⟨outer, found⟩ := (arranged.items item isItem).statementsAround_eq inside within
  refine ⟨outer, ?_⟩
  rw [filterMap_stmt?_nodesAround, ← found]
  exact arranged.spread.flatMap_eq isItem (within.widen item_within.1 item_within.2.2)
    fun _ _ outside => Item.statementsAround_eq_nil outside

end SourceTree

end QueryLoop
