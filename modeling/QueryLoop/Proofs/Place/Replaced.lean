import QueryLoop.Proofs.Place.Exchange

namespace QueryLoop

/-! Replacing a statement by its span, in any tree.

A hole is a tree with one of its statements taken out.  Filling it puts a statement
there and leaves everything else as it is: the other statements, items, expressions
and every span, also the spans of what is around the hole.

Looking up a span and replacing by a span are two walks.  The one goes on to the end
and into expressions, the other stops where it replaces.  They meet the same statements
nevertheless, and nothing has to be assumed of the spans in the tree: parts may
overlap, stick out of what they are part of, or have equal spans.
-/

/-- A statement with one of the statements in it taken out. -/
inductive Stmt.Hole where
  | here
  | inBlock (span : Span) (front : List Stmt) (hole : Hole) (back : List Stmt)
  | inIfThen (span : Span) (cond : Expr) (hole : Hole)
  | inBody (span : Span) (cond : Expr) (hole : Hole) (otherwise : Stmt)
  | inOtherwise (span : Span) (cond : Expr) (body : Stmt) (hole : Hole)
  | inForeach (span : Span) (type : TypeRef) (var : String) (varSpan : Span) (seq : Expr)
      (hole : Hole)
  | inWhile (span : Span) (cond : Expr) (hole : Hole)

inductive Item.Hole where
  | inNamespace (span : Span) (path : List String) (front : List Item) (hole : Hole)
      (back : List Item)
  | inClass (span : Span) (modifiers : List String) (name : String) (front : List Item)
      (hole : Hole) (back : List Item)
  | inMethod (span : Span) (modifiers : List String) (result : TypeRef) (name : String)
      (params : List Param) (front : List Stmt) (hole : Stmt.Hole) (back : List Stmt)
      (braces : Span)
  | inStatement (span : Span) (hole : Stmt.Hole)

structure SourceTree.Hole where
  front : List Item
  hole : Item.Hole
  back : List Item

namespace Stmt.Hole

def fill (stmt : Stmt) : Hole → Stmt
  | here => stmt
  | inBlock span front hole back => .block span (front ++ hole.fill stmt :: back)
  | inIfThen span cond hole => .ifThen span cond (hole.fill stmt)
  | inBody span cond hole otherwise => .ifElse span cond (hole.fill stmt) otherwise
  | inOtherwise span cond body hole => .ifElse span cond body (hole.fill stmt)
  | inForeach span type var varSpan seq hole => .foreach span type var varSpan seq (hole.fill stmt)
  | inWhile span cond hole => .whileLoop span cond (hole.fill stmt)

/-- What the search for `target` meets before it gets to the hole: all that is around
the hole, and what is in front of it. -/
def ahead (target : Span) (stmt : Stmt) : Hole → List Node
  | here => []
  | inBlock span front hole back =>
      .stmt (.block span (front ++ hole.fill stmt :: back)) ::
        (Outline.aroundAll target (Stmt.outlines front) ++ hole.ahead target stmt)
  | inIfThen span cond hole =>
      .stmt (.ifThen span cond (hole.fill stmt)) ::
        (cond.outline.around target ++ hole.ahead target stmt)
  | inBody span cond hole otherwise =>
      .stmt (.ifElse span cond (hole.fill stmt) otherwise) ::
        (cond.outline.around target ++ hole.ahead target stmt)
  | inOtherwise span cond body hole =>
      .stmt (.ifElse span cond body (hole.fill stmt)) ::
        (cond.outline.around target ++ body.outline.around target ++ hole.ahead target stmt)
  | inForeach span type var varSpan seq hole =>
      .stmt (.foreach span type var varSpan seq (hole.fill stmt)) ::
        (seq.outline.around target ++ hole.ahead target stmt)
  | inWhile span cond hole =>
      .stmt (.whileLoop span cond (hole.fill stmt)) ::
        (cond.outline.around target ++ hole.ahead target stmt)

/-- What the search for `target` meets behind the hole. -/
def behind (target : Span) : Hole → List Node
  | here => []
  | inBlock _ _ hole back => hole.behind target ++ Outline.aroundAll target (Stmt.outlines back)
  | inBody _ _ hole otherwise => hole.behind target ++ otherwise.outline.around target
  | inIfThen _ _ hole => hole.behind target
  | inOtherwise _ _ _ hole => hole.behind target
  | inForeach _ _ _ _ _ hole => hole.behind target
  | inWhile _ _ hole => hole.behind target

end Stmt.Hole

namespace Item.Hole

def fill (stmt : Stmt) : Hole → Item
  | inNamespace span path front hole back => .namespaceOf span path (front ++ hole.fill stmt :: back)
  | inClass span modifiers name front hole back =>
      .classOf span modifiers name (front ++ hole.fill stmt :: back)
  | inMethod span modifiers result name params front hole back braces =>
      .method span modifiers result name params ⟨front ++ hole.fill stmt :: back, braces⟩
  | inStatement span hole => .statement span (hole.fill stmt)

def ahead (target : Span) (stmt : Stmt) : Hole → List Node
  | inNamespace span path front hole back =>
      .item (.namespaceOf span path (front ++ hole.fill stmt :: back)) ::
        (Outline.aroundAll target (Item.outlines front) ++ hole.ahead target stmt)
  | inClass span modifiers name front hole back =>
      .item (.classOf span modifiers name (front ++ hole.fill stmt :: back)) ::
        (Outline.aroundAll target (Item.outlines front) ++ hole.ahead target stmt)
  | inMethod span modifiers result name params front hole back braces =>
      .item (.method span modifiers result name params ⟨front ++ hole.fill stmt :: back, braces⟩) ::
        (Outline.aroundAll target (Stmt.outlines front) ++ hole.ahead target stmt)
  | inStatement span hole => .item (.statement span (hole.fill stmt)) :: hole.ahead target stmt

def behind (target : Span) : Hole → List Node
  | inNamespace _ _ _ hole back => hole.behind target ++ Outline.aroundAll target (Item.outlines back)
  | inClass _ _ _ _ hole back => hole.behind target ++ Outline.aroundAll target (Item.outlines back)
  | inMethod _ _ _ _ _ _ hole back _ =>
      hole.behind target ++ Outline.aroundAll target (Stmt.outlines back)
  | inStatement _ hole => hole.behind target

end Item.Hole

namespace SourceTree.Hole

def fill (stmt : Stmt) (tree : Hole) : SourceTree :=
  ⟨tree.front ++ tree.hole.fill stmt :: tree.back⟩

def ahead (target : Span) (stmt : Stmt) (tree : Hole) : List Node :=
  Outline.aroundAll target (Item.outlines tree.front) ++ tree.hole.ahead target stmt

def behind (target : Span) (tree : Hole) : List Node :=
  tree.hole.behind target ++ Outline.aroundAll target (Item.outlines tree.back)

end SourceTree.Hole

/-- No statement among the nodes spans exactly `target`. -/
def Node.NoneAt (target : Span) (nodes : List Node) : Prop :=
  ∀ stmt, .stmt stmt ∈ nodes → stmt.span ≠ target

namespace Node.NoneAt

variable {target : Span} {front back : List Node}

theorem nil : NoneAt target [] := by simp [NoneAt]

theorem append (ahead : NoneAt target front) (behind : NoneAt target back) :
    NoneAt target (front ++ back) := by
  intro stmt met
  cases List.mem_append.mp met with
  | inl met => exact ahead stmt met
  | inr met => exact behind stmt met

theorem cons_stmt {stmt : Stmt} (rest : NoneAt target back) (different : stmt.span ≠ target) :
    NoneAt target (.stmt stmt :: back) := by
  intro other met
  cases List.mem_cons.mp met with
  | inl same =>
      cases same
      exact different
  | inr met => exact rest other met

theorem cons_item (rest : NoneAt target back) (item : Item) :
    NoneAt target (.item item :: back) := by
  intro other met
  cases List.mem_cons.mp met with
  | inl same => cases same
  | inr met => exact rest other met

/-- An expression and what is inside it are no statements. -/
theorem expr (expr : Expr) : NoneAt target (expr.outline.around target) := by
  intro stmt met
  have none := Expr.stmt?_eq_none_of_mem_preorder (Outline.mem_preorder_of_mem_around met)
  simp [Node.stmt?] at none

theorem aroundAll {α : Type} {outline : α → Outline} {parts : List α}
    (none : ∀ part ∈ parts, NoneAt target ((outline part).around target)) :
    NoneAt target (Outline.aroundAll target (parts.map outline)) := by
  intro stmt met
  rw [Outline.aroundAll_eq_flatMap, List.flatMap_map, List.mem_flatMap] at met
  obtain ⟨part, isPart, met⟩ := met
  exact none part isPart stmt met

end Node.NoneAt

/-- The path leads over `ahead`, where no statement spans exactly `target`, to `old`,
which does. -/
structure Node.FirstAt (target : Span) (old : Stmt) (path ahead behind : List Node) : Prop where
  path_eq : path = ahead ++ old.outline.around target ++ behind
  spans : old.span = target
  first : NoneAt target ahead

namespace Node.FirstAt

variable {target : Span} {old : Stmt} {path ahead behind : List Node}

theorem around_eq (found : FirstAt target old path ahead behind) :
    ∃ inside, old.outline.around target = .stmt old :: inside := by
  have contained : old.span.contains target = true := by
    rw [found.spans]
    exact Span.contains_refl target
  rw [Stmt.outline_eq, Outline.around, Node.span, if_pos contained]
  exact ⟨_, rfl⟩

/-- The step outwards: what is met before the part and behind it. -/
theorem step (found : FirstAt target old path ahead behind) {front : List Node}
    (passed : NoneAt target front) (back : List Node) :
    FirstAt target old (front ++ (path ++ back)) (front ++ ahead) (behind ++ back) where
  path_eq := by simp only [found.path_eq, List.append_assoc]
  spans := found.spans
  first := passed.append found.first

theorem behind_expr {part : Outline} (found : FirstAt target old (part.around target) ahead behind)
    (expr : Expr) :
    FirstAt target old (Outline.aroundAll target [expr.outline, part])
      (expr.outline.around target ++ ahead) behind := by
  simpa [Outline.aroundAll] using found.step (.expr expr) []

/-- Replacing in a list of parts leads over the parts in front, where nothing is replaced,
to the part in which something is. -/
theorem of_replacedFirst? {α Hole : Type} {outline : α → Outline} {replace : α → Option α}
    {fill : Stmt → Hole → α} {aheadOf : Stmt → Hole → List Node} {behindOf : Hole → List Node}
    {new : Stmt} {parts result : List α}
    (kept : ∀ part, replace part = none → NoneAt target ((outline part).around target))
    (refilled : ∀ part ∈ parts, ∀ {result}, replace part = some result →
      ∃ (hole : Hole) (old : Stmt), part = fill old hole ∧ result = fill new hole ∧
        FirstAt target old ((outline part).around target) (aheadOf old hole) (behindOf hole))
    (replaced : replacedFirst? replace parts = some result) :
    ∃ (front : List α) (hole : Hole) (back : List α) (old : Stmt),
      parts = front ++ fill old hole :: back ∧ result = front ++ fill new hole :: back ∧
        FirstAt target old (Outline.aroundAll target (parts.map outline))
          (Outline.aroundAll target (front.map outline) ++ aheadOf old hole)
          (behindOf hole ++ Outline.aroundAll target (back.map outline)) := by
  obtain ⟨front, part, part', back, rfl, rfl, replaced, skipped⟩ :=
    replacedFirst?_eq_some_iff.mp replaced
  obtain ⟨hole, old, rfl, rfl, found⟩ := refilled part (by simp) replaced
  have passed := NoneAt.aroundAll fun other isAhead => kept other (skipped other isAhead)
  refine ⟨front, hole, back, old, rfl, rfl, ?_⟩
  simpa [Outline.aroundAll_eq_flatMap] using
    found.step passed (Outline.aroundAll target (back.map outline))

/-- It is the statement that looking up the span on the path finds. -/
theorem stmtAt?_eq (found : FirstAt target old path ahead behind) :
    Node.stmtAt? path target = some old := by
  obtain ⟨inside, around⟩ := found.around_eq
  have none_ahead : (ahead.filterMap Node.stmt?).find? (·.span = target) = none := by
    rw [List.find?_eq_none]
    intro other isStmt
    obtain ⟨node, met, same⟩ := List.mem_filterMap.mp isStmt
    cases node with
    | stmt stmt =>
        cases same
        simpa using found.first other met
    | item | expr => cases same
  rw [Node.stmtAt?, found.path_eq, around, List.filterMap_append, List.filterMap_append,
    List.append_assoc, List.find?_append, none_ahead]
  simp [Node.stmt?, found.spans]

end Node.FirstAt

namespace Stmt

variable {target : Span} {new : Stmt}

/-- Where nothing is replaced, nothing is replaced in the statements directly inside. -/
theorem children_of_replace?_eq_none {stmt : Stmt} (contained : stmt.span.contains target = true)
    (kept : stmt.replace? target new = none) :
    stmt.span ≠ target ∧ ∀ child ∈ stmt.children, child.replace? target new = none := by
  have different : stmt.span ≠ target := by
    intro same
    cases stmt <;> simp_all [replace?]
  refine ⟨different, ?_⟩
  cases stmt with
  | block span stmts =>
      simp only [replace?, contained, different, if_true, if_false, Option.map_eq_none_iff,
        replaceFirst?_eq, replacedFirst?_eq_none_iff] at kept
      exact kept
  | ifElse span cond body otherwise =>
      cases first : body.replace? target new <;>
        simp_all [replace?, children]
  | ifThen | foreach | whileLoop => simp_all [replace?, children]
  | _ => simp [children]

theorem around_eq {stmt : Stmt} (contained : stmt.span.contains target = true) :
    stmt.outline.around target = .stmt stmt :: Outline.aroundAll target stmt.outline.parts := by
  rw [outline_eq, Outline.around, Node.span, if_pos contained, Outline.parts]

theorem firstAt_of_inside {stmt old : Stmt} {ahead behind : List Node}
    (contained : stmt.span.contains target = true) (different : stmt.span ≠ target)
    (found : Node.FirstAt target old (Outline.aroundAll target stmt.outline.parts) ahead behind) :
    Node.FirstAt target old (stmt.outline.around target) (.stmt stmt :: ahead) behind where
  path_eq := by simp [around_eq contained, found.path_eq]
  spans := found.spans
  first := found.first.cons_stmt different

/-- Where nothing is replaced, no statement on the path has the span. -/
theorem noneAt_of_replace?_eq_none {stmt : Stmt} (kept : stmt.replace? target new = none) :
    Node.NoneAt target (stmt.outline.around target) := by
  suffices ∀ other ∈ stmt.statementsAround target, other.span ≠ target by
    intro other met
    exact this other (List.mem_filterMap.mpr ⟨.stmt other, met, rfl⟩)
  induction stmt using children_induction with
  | step stmt ih =>
      intro other met
      rw [statementsAround_eq] at met
      split at met
      next contained =>
        obtain ⟨different, inside⟩ := children_of_replace?_eq_none contained kept
        cases List.mem_cons.mp met with
        | inl same => exact same ▸ different
        | inr met =>
            obtain ⟨child, isChild, met⟩ := List.mem_flatMap.mp met
            exact ih child isChild (inside child isChild) other met
      next => simp at met

/-- Replacing fills a hole anew, and the hole is where the path first gets to a
statement with the span. -/
def Refilled (target : Span) (new stmt result : Stmt) : Prop :=
  ∃ (hole : Hole) (old : Stmt), stmt = hole.fill old ∧ result = hole.fill new ∧
    Node.FirstAt target old (stmt.outline.around target) (hole.ahead target old)
      (hole.behind target)

theorem of_replaceFirst? {stmts result : List Stmt}
    (refilled : ∀ stmt ∈ stmts, ∀ {result}, stmt.replace? target new = some result →
      Refilled target new stmt result)
    (replaced : replaceFirst? stmts target new = some result) :
    ∃ (front : List Stmt) (hole : Hole) (back : List Stmt) (old : Stmt),
      stmts = front ++ hole.fill old :: back ∧ result = front ++ hole.fill new :: back ∧
        Node.FirstAt target old (Outline.aroundAll target (outlines stmts))
          (Outline.aroundAll target (outlines front) ++ hole.ahead target old)
          (hole.behind target ++ Outline.aroundAll target (outlines back)) := by
  rw [replaceFirst?_eq] at replaced
  simp only [outlines_eq_map]
  exact Node.FirstAt.of_replacedFirst? (fun _ => noneAt_of_replace?_eq_none) refilled replaced

theorem of_replace? {stmt result : Stmt} (replaced : stmt.replace? target new = some result) :
    Refilled target new stmt result := by
  induction stmt using children_induction generalizing result with
  | step stmt ih =>
      have contained : stmt.span.contains target = true := by
        by_contra outside
        cases stmt <;> simp_all [replace?]
      by_cases same : stmt.span = target
      · have replaced_here : result = new := by
          cases stmt <;> simp_all [replace?]
        exact ⟨.here, stmt, rfl, replaced_here, by simp [Hole.ahead, Hole.behind], same, .nil⟩
      have inside {old : Stmt} {ahead behind : List Node}
          (found : Node.FirstAt target old (Outline.aroundAll target stmt.outline.parts) ahead
            behind) :
          Node.FirstAt target old (stmt.outline.around target) (.stmt stmt :: ahead) behind :=
        firstAt_of_inside contained same found
      cases stmt with
      | block span stmts =>
          simp only [replace?, contained, same, if_true, if_false,
            Option.map_eq_some_iff] at replaced
          obtain ⟨stmts', replaced, rfl⟩ := replaced
          obtain ⟨front, hole, back, old, rfl, rfl, found⟩ := of_replaceFirst? ih replaced
          exact ⟨.inBlock span front hole back, old, rfl, rfl, inside found⟩
      | ifThen span cond body =>
          simp only [replace?, contained, same, if_true, if_false,
            Option.map_eq_some_iff] at replaced
          obtain ⟨body', replaced, rfl⟩ := replaced
          obtain ⟨hole, old, rfl, rfl, found⟩ := ih body (by simp [children]) replaced
          exact ⟨.inIfThen span cond hole, old, rfl, rfl, inside (found.behind_expr cond)⟩
      | ifElse span cond body otherwise =>
          cases first : body.replace? target new with
          | some body' =>
              simp only [replace?, contained, same, first, if_true, if_false,
                Option.some.injEq] at replaced
              subst replaced
              obtain ⟨hole, old, rfl, rfl, found⟩ := ih body (by simp [children]) first
              refine ⟨.inBody span cond hole otherwise, old, rfl, rfl, inside ?_⟩
              simpa [outline, Outline.parts, Outline.aroundAll, Hole.behind] using
                found.step (.expr cond) (otherwise.outline.around target)
          | none =>
              simp only [replace?, contained, same, first, if_true, if_false,
                Option.map_eq_some_iff] at replaced
              obtain ⟨otherwise', replaced, rfl⟩ := replaced
              obtain ⟨hole, old, rfl, rfl, found⟩ := ih otherwise (by simp [children]) replaced
              have passed := noneAt_of_replace?_eq_none first
              refine ⟨.inOtherwise span cond body hole, old, rfl, rfl, inside ?_⟩
              simpa [outline, Outline.parts, Outline.aroundAll, Hole.behind] using
                found.step (.append (.expr cond) passed) []
      | foreach span type var varSpan seq body =>
          simp only [replace?, contained, same, if_true, if_false,
            Option.map_eq_some_iff] at replaced
          obtain ⟨body', replaced, rfl⟩ := replaced
          obtain ⟨hole, old, rfl, rfl, found⟩ := ih body (by simp [children]) replaced
          exact ⟨.inForeach span type var varSpan seq hole, old, rfl, rfl,
            inside (found.behind_expr seq)⟩
      | whileLoop span cond body =>
          simp only [replace?, contained, same, if_true, if_false,
            Option.map_eq_some_iff] at replaced
          obtain ⟨body', replaced, rfl⟩ := replaced
          obtain ⟨hole, old, rfl, rfl, found⟩ := ih body (by simp [children]) replaced
          exact ⟨.inWhile span cond hole, old, rfl, rfl, inside (found.behind_expr cond)⟩
      | _ => simp [replace?, same] at replaced

end Stmt

namespace Item

variable {target : Span} {new : Stmt}

theorem around_eq {item : Item} (contained : item.span.contains target = true) :
    item.outline.around target =
      .item item :: Outline.aroundAll target item.outline.parts := by
  rw [outline_eq, Outline.around, Node.span, if_pos contained, Outline.parts]

theorem firstAt_of_inside {item : Item} {old : Stmt} {ahead behind : List Node}
    (contained : item.span.contains target = true)
    (found : Node.FirstAt target old (Outline.aroundAll target item.outline.parts) ahead behind) :
    Node.FirstAt target old (item.outline.around target) (.item item :: ahead) behind where
  path_eq := by simp [around_eq contained, found.path_eq]
  spans := found.spans
  first := found.first.cons_item item

theorem noneAt_of_replace?_eq_none {item : Item} (kept : item.replace? target new = none) :
    Node.NoneAt target (item.outline.around target) := by
  suffices ∀ other ∈ item.statementsAround target, other.span ≠ target by
    intro other met
    exact this other (List.mem_filterMap.mpr ⟨.stmt other, met, rfl⟩)
  induction item using subitems_induction with
  | step item ih =>
      intro other met
      rw [statementsAround_eq] at met
      split at met
      next contained =>
        have inside : (∀ child ∈ item.subitems, child.replace? target new = none) ∧
            ∀ stmt ∈ item.stmts, stmt.replace? target new = none := by
          cases item with
          | namespaceOf | classOf =>
              simp only [replace?, contained, if_true, Option.map_eq_none_iff, replaceFirst?_eq,
                replacedFirst?_eq_none_iff] at kept
              exact ⟨kept, by simp [stmts]⟩
          | method =>
              simp only [replace?, contained, if_true, Option.map_eq_none_iff, Stmt.replaceFirst?_eq,
                replacedFirst?_eq_none_iff] at kept
              exact ⟨by simp [subitems], kept⟩
          | statement => simp_all [replace?, subitems, stmts]
          | _ => simp [subitems, stmts]
        cases List.mem_append.mp met with
        | inl met =>
            obtain ⟨child, isChild, met⟩ := List.mem_flatMap.mp met
            exact ih child isChild (inside.1 child isChild) other met
        | inr met =>
            obtain ⟨stmt, isStmt, met⟩ := List.mem_flatMap.mp met
            obtain ⟨node, met, same⟩ := List.mem_filterMap.mp met
            cases node with
            | stmt found =>
                cases same
                exact Stmt.noneAt_of_replace?_eq_none (inside.2 stmt isStmt) other met
            | item | expr => cases same
      next => simp at met

def Refilled (target : Span) (new : Stmt) (item result : Item) : Prop :=
  ∃ (hole : Hole) (old : Stmt), item = hole.fill old ∧ result = hole.fill new ∧
    Node.FirstAt target old (item.outline.around target) (hole.ahead target old)
      (hole.behind target)

theorem of_replaceFirst? {items result : List Item}
    (refilled : ∀ item ∈ items, ∀ {result}, item.replace? target new = some result →
      Refilled target new item result)
    (replaced : replaceFirst? items target new = some result) :
    ∃ (front : List Item) (hole : Hole) (back : List Item) (old : Stmt),
      items = front ++ hole.fill old :: back ∧ result = front ++ hole.fill new :: back ∧
        Node.FirstAt target old (Outline.aroundAll target (outlines items))
          (Outline.aroundAll target (outlines front) ++ hole.ahead target old)
          (hole.behind target ++ Outline.aroundAll target (outlines back)) := by
  rw [replaceFirst?_eq] at replaced
  simp only [outlines_eq_map]
  exact Node.FirstAt.of_replacedFirst? (fun _ => noneAt_of_replace?_eq_none) refilled replaced

theorem of_replace? {item result : Item} (replaced : item.replace? target new = some result) :
    Refilled target new item result := by
  induction item using subitems_induction generalizing result with
  | step item ih =>
      have contained : item.span.contains target = true := by
        by_contra outside
        cases item <;> simp_all [replace?]
      cases item with
      | namespaceOf span path items =>
          simp only [replace?, contained, if_true, Option.map_eq_some_iff] at replaced
          obtain ⟨items', replaced, rfl⟩ := replaced
          obtain ⟨front, hole, back, old, rfl, rfl, found⟩ := of_replaceFirst? ih replaced
          exact ⟨.inNamespace span path front hole back, old, rfl, rfl,
            firstAt_of_inside contained found⟩
      | classOf span modifiers name members =>
          simp only [replace?, contained, if_true, Option.map_eq_some_iff] at replaced
          obtain ⟨members', replaced, rfl⟩ := replaced
          obtain ⟨front, hole, back, old, rfl, rfl, found⟩ := of_replaceFirst? ih replaced
          exact ⟨.inClass span modifiers name front hole back, old, rfl, rfl,
            firstAt_of_inside contained found⟩
      | method span modifiers resultType name params body =>
          obtain ⟨stmts, braces⟩ := body
          simp only [replace?, contained, if_true, Option.map_eq_some_iff] at replaced
          obtain ⟨stmts', replaced, rfl⟩ := replaced
          obtain ⟨front, hole, back, old, rfl, rfl, found⟩ :=
            Stmt.of_replaceFirst? (fun _ _ _ => Stmt.of_replace?) replaced
          exact ⟨.inMethod span modifiers resultType name params front hole back braces, old, rfl,
            rfl, firstAt_of_inside contained found⟩
      | statement span stmt =>
          simp only [replace?, contained, if_true, Option.map_eq_some_iff] at replaced
          obtain ⟨stmt', replaced, rfl⟩ := replaced
          obtain ⟨hole, old, rfl, rfl, found⟩ := Stmt.of_replace? replaced
          refine ⟨.inStatement span hole, old, rfl, rfl, firstAt_of_inside contained ?_⟩
          simpa [outline, Outline.parts, Outline.aroundAll, Hole.behind] using found
      | _ => simp [replace?] at replaced

end Item

namespace SourceTree

variable {tree result : SourceTree} {target : Span} {new : Stmt}

theorem of_replaceStmt? (replaced : tree.replaceStmt? target new = some result) :
    ∃ (hole : Hole) (old : Stmt), tree = hole.fill old ∧ result = hole.fill new ∧
      Node.FirstAt target old (tree.nodesAround target) (hole.ahead target old)
        (hole.behind target) := by
  obtain ⟨items⟩ := tree
  simp only [replaceStmt?, Option.map_eq_some_iff] at replaced
  obtain ⟨items', replaced, rfl⟩ := replaced
  obtain ⟨front, hole, back, old, rfl, rfl, found⟩ :=
    Item.of_replaceFirst? (fun _ _ _ => Item.of_replace?) replaced
  exact ⟨⟨front, hole, back⟩, old, rfl, rfl, found⟩

theorem noneAt_of_replaceStmt?_eq_none (kept : tree.replaceStmt? target new = none) :
    Node.NoneAt target (tree.nodesAround target) := by
  simp only [replaceStmt?, Option.map_eq_none_iff, Item.replaceFirst?_eq,
    replacedFirst?_eq_none_iff] at kept
  rw [nodesAround, Item.outlines_eq_map]
  exact .aroundAll fun item isItem => Item.noneAt_of_replace?_eq_none (kept item isItem)

/-- Replacing and looking up pick the same statement, in every tree.  There is a result
exactly if some statement on the path to `target` spans just it.  The result is then
the tree with another filling for the hole that the first such statement leaves: no
statement met ahead of the hole has the span. -/
theorem replaceStmt_picks_first (tree : SourceTree) (target : Span) (new : Stmt) :
    ((tree.replaceStmt? target new).isSome ↔
      ∃ old, .stmt old ∈ tree.nodesAround target ∧ old.span = target) ∧
    ∀ result, tree.replaceStmt? target new = some result →
      ∃ (hole : Hole) (old : Stmt), tree = hole.fill old ∧ result = hole.fill new ∧
        old.span = target ∧ Node.stmtAt? (tree.nodesAround target) target = some old ∧
        tree.nodesAround target =
          hole.ahead target old ++ old.outline.around target ++ hole.behind target ∧
        ∀ other, .stmt other ∈ hole.ahead target old → other.span ≠ target := by
  constructor
  · cases replaced : tree.replaceStmt? target new with
    | none =>
        have none := noneAt_of_replaceStmt?_eq_none replaced
        simpa [Node.NoneAt] using none
    | some result =>
        obtain ⟨hole, old, -, -, found⟩ := of_replaceStmt? replaced
        obtain ⟨inside, around⟩ := found.around_eq
        have met : .stmt old ∈ tree.nodesAround target := by simp [found.path_eq, around]
        exact iff_of_true rfl ⟨old, met, found.spans⟩
  · intro result replaced
    obtain ⟨hole, old, filled, refilled, found⟩ := of_replaceStmt? replaced
    exact ⟨hole, old, filled, refilled, found.spans, found.stmtAt?_eq, found.path_eq, found.first⟩

end SourceTree

end QueryLoop
