import QueryLoop.Format.Splice
import QueryLoop.Proofs.Fixing.Kept

namespace QueryLoop

/-! Fixes change nothing outside the loops they are made for.

A run of fixes keeps the loops of a tree, so every region in which a fix was made is
the span of a loop of the first tree, and of the last one.  A fix changes only what
lies inside its region, hence inside the outermost region around it: with the
statements at the outermost regions masked, all trees of the run are equal.
-/

namespace Span

/-- One lies in front of the other. -/
def Apart (first second : Span) : Prop :=
  first.Before second ∨ second.Before first

/-- Apart, or one inside the other. -/
def Laminar (first second : Span) : Prop :=
  first.Apart second ∨ first.contains second = true ∨ second.contains first = true

theorem Apart.mono {first second inner inner' : Span} (apart : first.Apart second)
    (inFirst : first.contains inner = true) (inSecond : second.contains inner' = true) :
    inner.Apart inner' := by
  rw [contains_iff] at inFirst inSecond
  unfold Apart Before at *
  omega

/-- What is not empty is not apart from what is around it. -/
theorem not_apart_of_contains {outer inner : Span} (nonempty : inner.start < inner.stop)
    (around : outer.contains inner = true) : ¬ outer.Apart inner := by
  rw [contains_iff] at around
  unfold Apart Before
  omega

end Span

theorem Spread.eq_or_apart {α : Type} {place : α → Span} {lower upper : Nat} {items : List α}
    {first second : α} (spread : Spread place lower upper items) (isFirst : first ∈ items)
    (isSecond : second ∈ items) : first = second ∨ (place first).Apart (place second) := by
  obtain ⟨front, back, rfl, ahead, behind⟩ := spread.split isSecond
  rw [List.mem_append, List.mem_cons] at isFirst
  rcases isFirst with before | rfl | after
  · exact .inr (.inl (ahead first before))
  · exact .inl rfl
  · exact .inr (.inr (behind first after))

namespace Stmt

variable {stmt first second child outer old : Stmt}

theorem Arranged.contains_of_mem (arranged : stmt.Arranged) (inside : old ∈ stmt.statements) :
    stmt.span.contains old.span = true := by
  rcases arranged.eq_or_within inside with rfl | within
  · exact Span.contains_refl _
  · exact (within.widen (Nat.le_succ _) (Nat.le_refl _)).contains

theorem Arranged.laminar (arranged : stmt.Arranged) (isFirst : first ∈ stmt.statements)
    (isSecond : second ∈ stmt.statements) : first.span.Laminar second.span := by
  induction stmt using children_induction with
  | step stmt ih =>
      obtain ⟨parts, children⟩ := arranged_iff.mp arranged
      have inFirst := arranged.contains_of_mem isFirst
      have inSecond := arranged.contains_of_mem isSecond
      rw [statements_eq, List.mem_cons, List.mem_flatMap] at isFirst isSecond
      rcases isFirst with rfl | ⟨child, isChild, isFirst⟩
      · exact .inr (.inl inSecond)
      · rcases isSecond with rfl | ⟨child', isChild', isSecond⟩
        · exact .inr (.inr inFirst)
        · rcases parts.children.eq_or_apart isChild isChild' with rfl | apart
          · exact ih child isChild (children child isChild) isFirst isSecond
          · exact .inl (apart.mono ((children child isChild).contains_of_mem isFirst)
              ((children child' isChild').contains_of_mem isSecond))

/-- What lies around a statement inside a child, and is not the statement around the
child, is inside the child as well. -/
theorem Arranged.mem_child (arranged : stmt.Arranged) (isChild : child ∈ stmt.children)
    (inside : old ∈ child.statements) (nonempty : old.span.start < old.span.stop)
    (isOuter : outer ∈ stmt.statements) (around : outer.span.contains old.span = true)
    (different : outer ≠ stmt) : outer ∈ child.statements := by
  obtain ⟨parts, children⟩ := arranged_iff.mp arranged
  rw [statements_eq, List.mem_cons, List.mem_flatMap] at isOuter
  obtain ⟨other, isOther, isOuter⟩ := isOuter.resolve_left different
  rcases parts.children.eq_or_apart isOther isChild with rfl | apart
  · exact isOuter
  · refine absurd ?_ (Span.not_apart_of_contains nonempty around)
    exact apart.mono ((children other isOther).contains_of_mem isOuter)
      ((children child isChild).contains_of_mem inside)

end Stmt

namespace Item

variable {item child : Item} {stmt first second outer old : Stmt}

theorem Arranged.contains_of_mem (arranged : item.Arranged) (inside : old ∈ item.statements) :
    item.span.contains old.span = true :=
  (arranged.within inside).contains

theorem Arranged.laminar (arranged : item.Arranged) (isFirst : first ∈ item.statements)
    (isSecond : second ∈ item.statements) : first.span.Laminar second.span := by
  induction arranged with
  | @intro item parts subitems stmts ih =>
      rw [statements_eq, List.mem_append, List.mem_flatMap, List.mem_flatMap] at isFirst isSecond
      rcases isFirst with ⟨child, isChild, isFirst⟩ | ⟨stmt, isStmt, isFirst⟩
      · have noStmts : item.stmts = [] :=
          item.subitems_eq_nil_or_stmts_eq_nil.resolve_left (List.ne_nil_of_mem isChild)
        obtain ⟨child', isChild', isSecond⟩ := isSecond.resolve_right (by simp [noStmts])
        rcases parts.subitems.eq_or_apart isChild isChild' with rfl | apart
        · exact ih child isChild isFirst isSecond
        · exact .inl (apart.mono ((subitems child isChild).contains_of_mem isFirst)
            ((subitems child' isChild').contains_of_mem isSecond))
      · have noItems : item.subitems = [] :=
          item.subitems_eq_nil_or_stmts_eq_nil.resolve_right (List.ne_nil_of_mem isStmt)
        obtain ⟨stmt', isStmt', isSecond⟩ := isSecond.resolve_left (by simp [noItems])
        rcases parts.stmts.eq_or_apart isStmt isStmt' with rfl | apart
        · exact (stmts stmt isStmt).laminar isFirst isSecond
        · exact .inl (apart.mono ((stmts stmt isStmt).contains_of_mem isFirst)
            ((stmts stmt' isStmt').contains_of_mem isSecond))

theorem Arranged.of_mem_subitems (arranged : item.Arranged) (isChild : child ∈ item.subitems) :
    child.Arranged := by
  cases arranged with
  | intro parts subitems stmts => exact subitems child isChild

theorem Arranged.of_mem_stmts (arranged : item.Arranged) (isStmt : stmt ∈ item.stmts) :
    stmt.Arranged := by
  cases arranged with
  | intro parts subitems stmts => exact stmts stmt isStmt

theorem Arranged.mem_child (arranged : item.Arranged) (isChild : child ∈ item.subitems)
    (inside : old ∈ child.statements) (isOuter : outer ∈ item.statements)
    (around : outer.span.contains old.span = true) : outer ∈ child.statements := by
  cases arranged with
  | intro parts subitems stmts =>
      have noStmts : item.stmts = [] :=
        item.subitems_eq_nil_or_stmts_eq_nil.resolve_left (List.ne_nil_of_mem isChild)
      rw [statements_eq, noStmts, List.flatMap_nil, List.append_nil, List.mem_flatMap] at isOuter
      obtain ⟨other, isOther, isOuter⟩ := isOuter
      rcases parts.subitems.eq_or_apart isOther isChild with rfl | apart
      · exact isOuter
      · refine absurd ?_ (Span.not_apart_of_contains
          ((subitems child isChild).within inside).2.1 around)
        exact apart.mono ((subitems other isOther).contains_of_mem isOuter)
          ((subitems child isChild).contains_of_mem inside)

theorem Arranged.mem_stmt (arranged : item.Arranged) (isStmt : stmt ∈ item.stmts)
    (inside : old ∈ stmt.statements) (nonempty : old.span.start < old.span.stop)
    (isOuter : outer ∈ item.statements) (around : outer.span.contains old.span = true) :
    outer ∈ stmt.statements := by
  cases arranged with
  | intro parts subitems stmts =>
      have noItems : item.subitems = [] :=
        item.subitems_eq_nil_or_stmts_eq_nil.resolve_right (List.ne_nil_of_mem isStmt)
      rw [statements_eq, noItems, List.flatMap_nil, List.nil_append, List.mem_flatMap] at isOuter
      obtain ⟨other, isOther, isOuter⟩ := isOuter
      rcases parts.stmts.eq_or_apart isOther isStmt with rfl | apart
      · exact isOuter
      · refine absurd ?_ (Span.not_apart_of_contains nonempty around)
        exact apart.mono ((stmts other isOther).contains_of_mem isOuter)
          ((stmts stmt isStmt).contains_of_mem inside)

end Item

theorem SourceTree.Arranged.laminar {length : Nat} {tree : SourceTree} {first second : Stmt}
    (arranged : tree.Arranged length) (isFirst : first ∈ tree.statements)
    (isSecond : second ∈ tree.statements) : first.span.Laminar second.span := by
  rw [statements_eq, List.mem_flatMap] at isFirst isSecond
  obtain ⟨item, isItem, isFirst⟩ := isFirst
  obtain ⟨item', isItem', isSecond⟩ := isSecond
  rcases arranged.spread.eq_or_apart isItem isItem' with rfl | apart
  · exact (arranged.items item isItem).laminar isFirst isSecond
  · exact .inl (apart.mono ((arranged.items item isItem).contains_of_mem isFirst)
      ((arranged.items item' isItem').contains_of_mem isSecond))

mutual

/-- The statement with `placeholder` in place of the outermost statements that span one
of the regions. -/
def Stmt.masked (stmt : Stmt) (regions : List Span) (placeholder : Stmt) : Stmt :=
  if stmt.span ∈ regions then placeholder
  else
    match stmt with
    | .block span stmts => .block span (Stmt.maskedAll stmts regions placeholder)
    | .ifThen span cond body => .ifThen span cond (body.masked regions placeholder)
    | .ifElse span cond body otherwise =>
        .ifElse span cond (body.masked regions placeholder) (otherwise.masked regions placeholder)
    | .foreach span type var varSpan seq body =>
        .foreach span type var varSpan seq (body.masked regions placeholder)
    | .whileLoop span cond body => .whileLoop span cond (body.masked regions placeholder)
    | stmt => stmt

def Stmt.maskedAll (stmts : List Stmt) (regions : List Span) (placeholder : Stmt) : List Stmt :=
  match stmts with
  | [] => []
  | stmt :: stmts =>
      stmt.masked regions placeholder :: Stmt.maskedAll stmts regions placeholder

end

mutual

def Item.masked (item : Item) (regions : List Span) (placeholder : Stmt) : Item :=
  match item with
  | .namespaceOf span path items =>
      .namespaceOf span path (Item.maskedAll items regions placeholder)
  | .classOf span modifiers name members =>
      .classOf span modifiers name (Item.maskedAll members regions placeholder)
  | .method span modifiers result name params body =>
      .method span modifiers result name params
        { body with stmts := Stmt.maskedAll body.stmts regions placeholder }
  | .statement span stmt => .statement span (stmt.masked regions placeholder)
  | item => item

def Item.maskedAll (items : List Item) (regions : List Span) (placeholder : Stmt) : List Item :=
  match items with
  | [] => []
  | item :: items => item.masked regions placeholder :: Item.maskedAll items regions placeholder

end

/-- The tree with `placeholder` in place of the outermost statements that span one of
the regions. -/
def SourceTree.masked (tree : SourceTree) (regions : List Span) (placeholder : Stmt) :
    SourceTree :=
  ⟨tree.items.map (Item.masked · regions placeholder)⟩

variable {regions : List Span} {placeholder : Stmt}

namespace Stmt

variable {old new before after outer : Stmt}

theorem maskedAll_eq_map (stmts : List Stmt) :
    maskedAll stmts regions placeholder = stmts.map (masked · regions placeholder) := by
  induction stmts with
  | nil => rw [maskedAll]; rfl
  | cons stmt stmts ih => rw [maskedAll, ih, List.map_cons]

theorem masked_eq_placeholder {stmt : Stmt} (listed : stmt.span ∈ regions) :
    stmt.masked regions placeholder = placeholder := by
  rw [masked.eq_def, if_pos listed]

theorem Exchanged.mem_statements (exchanged : Exchanged old new before after) :
    old ∈ before.statements := by
  induction before using children_induction generalizing after with
  | step before ih =>
      rcases exchanged.root_or_child with ⟨rfl, -⟩ | ⟨-, -, front, child, child', back, shape, -, inner⟩
      · exact before.self_mem_statements
      · have isChild : child ∈ before.children := by simp [shape]
        exact mem_statements_of_child isChild (ih child isChild inner)

/-- An exchange inside a statement that is masked does not show. -/
theorem Exchanged.masked_eq (exchanged : Exchanged old new before after)
    (same : new.span = old.span) (nonempty : old.span.start < old.span.stop)
    (arranged : before.Arranged) (isOuter : outer ∈ before.statements)
    (around : outer.span.contains old.span = true) (listed : outer.span ∈ regions) :
    before.masked regions placeholder = after.masked regions placeholder := by
  induction before using children_induction generalizing after with
  | step before ih =>
      by_cases here : before.span ∈ regions
      · rw [masked_eq_placeholder here,
          masked_eq_placeholder (exchanged.span_eq same ▸ here : after.span ∈ regions)]
      · have different : outer ≠ before := by
          rintro rfl
          exact here listed
        -- the outer statement is in the part in which the exchange is made
        have part_eq : ∀ {child child' : Stmt}, child ∈ before.children →
            Exchanged old new child child' →
            child.masked regions placeholder = child'.masked regions placeholder :=
          fun isChild inner => ih _ isChild inner ((arranged_iff.mp arranged).2 _ isChild)
            (arranged.mem_child isChild inner.mem_statements nonempty isOuter around different)
        cases exchanged with
        | here =>
            have within := (arranged.eq_or_within isOuter).resolve_left different
            rw [Span.contains_iff] at around
            unfold Span.Within at within
            omega
        | inBlock span front back inner =>
            have part := part_eq (by simp [children]) inner
            have visible : span ∉ regions := here
            simp only [masked, Stmt.span, visible, if_false, maskedAll_eq_map, List.map_append,
              List.map_cons, part]
        | inIfThen span _ inner | inBody span _ _ inner | inOtherwise span _ _ inner
        | inForeach span _ _ _ _ inner | inWhile span _ inner =>
            have part := part_eq (by simp [children]) inner
            have visible : span ∉ regions := here
            simp only [masked, Stmt.span, visible, if_false, part]

end Stmt

namespace Item

variable {old new outer : Stmt} {before after : Item}

theorem maskedAll_eq_map (items : List Item) :
    maskedAll items regions placeholder = items.map (masked · regions placeholder) := by
  induction items with
  | nil => rw [maskedAll]; rfl
  | cons item items ih => rw [maskedAll, ih, List.map_cons]

theorem Exchanged.mem_statements (exchanged : Exchanged old new before after) :
    old ∈ before.statements := by
  induction before using subitems_induction generalizing after with
  | step before ih =>
      rw [statements_eq, List.mem_append, List.mem_flatMap, List.mem_flatMap]
      obtain ⟨-, ⟨-, -, front, child, child', back, shape, -, inner⟩ |
        ⟨-, -, front, child, child', back, shape, -, inner⟩⟩ := exchanged.subitem_or_stmt
      · have isChild : child ∈ before.subitems := by simp [shape]
        exact .inl ⟨child, isChild, ih child isChild inner⟩
      · exact .inr ⟨child, by simp [shape], inner.mem_statements⟩

theorem Exchanged.masked_eq (exchanged : Exchanged old new before after)
    (same : new.span = old.span) (arranged : before.Arranged)
    (isOuter : outer ∈ before.statements) (around : outer.span.contains old.span = true)
    (listed : outer.span ∈ regions) :
    before.masked regions placeholder = after.masked regions placeholder := by
  have nonempty := (arranged.within exchanged.mem_statements).2.1
  induction exchanged with
  | inNamespace span path front back inner ih | inClass span modifiers name front back inner ih =>
      have part := ih (arranged.of_mem_subitems (by simp [subitems]))
        (arranged.mem_child (by simp [subitems]) inner.mem_statements isOuter around)
      simp only [masked, maskedAll_eq_map, List.map_append, List.map_cons, part]
  | @inMethod stmt stmt' span modifiers result name params front back braces inner =>
      have part : stmt.masked regions placeholder = stmt'.masked regions placeholder :=
        inner.masked_eq same nonempty (arranged.of_mem_stmts (by simp [stmts]))
          (arranged.mem_stmt (by simp [stmts]) inner.mem_statements nonempty isOuter around)
          around listed
      simp only [masked, Stmt.maskedAll_eq_map, List.map_append, List.map_cons, part]
  | @inStatement stmt stmt' span inner =>
      have part : stmt.masked regions placeholder = stmt'.masked regions placeholder :=
        inner.masked_eq same nonempty (arranged.of_mem_stmts (by simp [stmts]))
          (arranged.mem_stmt (by simp [stmts]) inner.mem_statements nonempty isOuter around)
          around listed
      rw [masked, masked, part]

end Item

namespace SourceTree

variable {length : Nat} {old new outer : Stmt} {before after : SourceTree}

/-- An exchange inside a statement that is masked does not show. -/
theorem Exchanged.masked_eq (exchanged : Exchanged old new before after)
    (same : new.span = old.span) (arranged : before.Arranged length)
    (isOuter : outer ∈ before.statements) (around : outer.span.contains old.span = true)
    (listed : outer.span ∈ regions) :
    before.masked regions placeholder = after.masked regions placeholder := by
  cases exchanged with
  | @intro item item' front back inner =>
      have isItem : item ∈ front ++ item :: back := by simp
      have item_arranged := arranged.items item isItem
      have nonempty := (item_arranged.within inner.mem_statements).2.1
      have inItem : outer ∈ item.statements := by
        rw [statements_eq, List.mem_flatMap] at isOuter
        obtain ⟨other, isOther, isOuter⟩ := isOuter
        rcases arranged.spread.eq_or_apart isOther isItem with rfl | apart
        · exact isOuter
        · refine absurd ?_ (Span.not_apart_of_contains nonempty around)
          exact apart.mono ((arranged.items other isOther).contains_of_mem isOuter)
            (item_arranged.contains_of_mem inner.mem_statements)
      have part : item.masked regions placeholder = item'.masked regions placeholder :=
        inner.masked_eq same item_arranged inItem around listed
      simp only [masked, List.map_append, List.map_cons, part]

end SourceTree

theorem mem_outermostRegions_iff {region : Span} :
    region ∈ outermostRegions regions ↔ region ∈ regions ∧
      ∀ other ∈ regions, other.contains region = true → other = region := by
  rw [outermostRegions, List.mem_eraseDups, List.mem_filter]
  simp only [Bool.not_eq_true', List.any_eq_false, Bool.and_eq_true, bne_iff_ne, not_and,
    ne_eq, Bool.not_eq_true]
  refine and_congr_right fun _ => forall₂_congr fun other _ => ?_
  constructor
  · intro none_around around
    by_contra different
    simp [none_around different] at around
  · intro only different
    exact Bool.eq_false_iff.mpr fun around => different (only around)

/-- Around every region there is an outermost one. -/
theorem exists_outermostRegions (bound : Nat) (bounded : ∀ region ∈ regions, region.stop ≤ bound)
    {region : Span} (listed : region ∈ regions) :
    ∃ outer ∈ outermostRegions regions, outer.contains region = true := by
  -- a region around another one starts earlier or ends later
  induction measured : region.start + (bound - region.stop) using Nat.strongRecOn
    generalizing region with
  | ind size ih =>
      by_cases outermost : ∀ other ∈ regions, other.contains region = true → other = region
      · exact ⟨region, mem_outermostRegions_iff.mpr ⟨listed, outermost⟩, region.contains_refl⟩
      · simp only [not_forall] at outermost
        obtain ⟨other, isOther, around, different⟩ := outermost
        have smaller : other.start + (bound - other.stop) < size := by
          have bound_other := bounded other isOther
          have ends : ¬ (other.start = region.start ∧ other.stop = region.stop) :=
            fun same => different (Span.mk.injEq .. ▸ same)
          rw [Span.contains_iff] at around
          omega
        obtain ⟨outer, isOuter, widest⟩ := ih _ smaller isOther rfl
        exact ⟨outer, isOuter, Span.contains_trans widest around⟩

namespace Document

variable {document last : Document}

/-- Fixes applied one after the other lead from one document to another; the list holds
the region of each fix. -/
inductive FixedTo : Document → List Span → Document → Prop
  | done (document : Document) : FixedTo document [] document
  | step {document last : Document} {edit : Edit} {regions : List Span} (action : Action)
      (applied : action.apply document false = .ok edit)
      (later : FixedTo { document with tree := edit.tree } regions last) :
      FixedTo document (edit.region :: regions) last

theorem exists_applyTo_of_firstEdit {actions : List Action} {edit : Edit}
    (found : (firstEdit document actions).1 = some edit) :
    ∃ action ∈ actions, action.applyTo document.tree = .ok edit := by
  induction actions with
  | nil => simp [firstEdit] at found
  | cons action actions ih =>
      rw [firstEdit] at found
      split at found
      · rename_i edit' applied
        obtain rfl := Option.some.inj found
        exact ⟨action, List.mem_cons_self, applied⟩
      · obtain ⟨other, isOther, applied⟩ := ih found
        exact ⟨other, List.mem_cons_of_mem _ isOther, applied⟩

/-- Every round makes one fix or is the last. -/
theorem fixedTo_fixRounds (document : Document) (config : Config) (rounds : Nat) :
    document.FixedTo (document.fixRounds config rounds).regions
      (document.fixRounds config rounds).document := by
  induction rounds generalizing document with
  | zero => exact .done document
  | succ rounds ih =>
      rw [fixRounds]
      cases one : document.fixOne config with
      | mk edit warnings =>
          cases edit with
          | none => exact .done document
          | some edit =>
              have found : (firstEdit document (document.actions
                  (document.analyze config .textual false) config .textual).1).1 = some edit :=
                congrArg Prod.fst one
              obtain ⟨action, -, applied⟩ := exists_applyTo_of_firstEdit found
              exact .step action applied (ih _)

/-- The counter and the regions grow together. -/
theorem applied_fixRounds (document : Document) (config : Config) (rounds : Nat) :
    (document.fixRounds config rounds).applied =
      (document.fixRounds config rounds).regions.length := by
  induction rounds generalizing document with
  | zero => rfl
  | succ rounds ih =>
      rw [fixRounds]
      cases document.fixOne config with
      | mk edit warnings =>
          cases edit with
          | none => rfl
          | some edit => simp only [ih, List.length_cons]

theorem FixedTo.reachable (run : FixedTo document regions last) (reachable : document.Reachable) :
    last.Reachable := by
  induction run with
  | done document => exact reachable
  | step action applied later ih => exact ih (.fixed action reachable applied)

/-- All loops stay, in their order, and every fix is made for one of them. -/
theorem FixedTo.loops (run : FixedTo document regions last) (reachable : document.Reachable) :
    last.tree.loops.map Loop.span = document.tree.loops.map Loop.span ∧
      ∀ region ∈ regions, region ∈ document.tree.loops.map Loop.span := by
  induction run with
  | done document => exact ⟨rfl, by simp⟩
  | @step document last edit regions action applied later ih =>
      obtain ⟨kept, listed⟩ := ih (.fixed action reachable applied)
      have one : edit.tree.loops.map Loop.span = document.tree.loops.map Loop.span := by
        rw [SourceTree.map_span_loops, SourceTree.map_span_loops]
        exact (Action.thinned_applyTo reachable.arranged applied).loops
      obtain ⟨loop, inTree, -, -, -, -, region, -⟩ :=
        Action.exchanged_of_applyTo reachable.arranged applied
      refine ⟨kept.trans one, List.forall_mem_cons.mpr ⟨?_, fun region isRegion => ?_⟩⟩
      · exact region ▸ List.mem_map_of_mem inTree
      · exact one ▸ listed region isRegion

/-- A run does not show where every fix is inside a masked loop. -/
theorem FixedTo.masked_eq {masks : List Span} (placeholder : Stmt)
    (run : FixedTo document regions last) (reachable : document.Reachable)
    (hidden : ∀ region ∈ regions, ∃ outer ∈ masks,
      outer.contains region = true ∧ outer ∈ document.tree.loops.map Loop.span) :
    document.tree.masked masks placeholder = last.tree.masked masks placeholder := by
  induction run with
  | done document => rfl
  | @step document last edit regions action applied later ih =>
      have arranged := reachable.arranged
      obtain ⟨kept, -⟩ := FixedTo.loops (.step action applied (.done _)) reachable
      obtain ⟨first, others⟩ := List.forall_mem_cons.mp hidden
      have rest := ih (.fixed action reachable applied) (by simpa only [kept] using others)
      rw [← rest]
      obtain ⟨loop, -, -, shape, planned, plans, region, exchanged⟩ :=
        Action.exchanged_of_applyTo arranged applied
      obtain ⟨span, isMask, around, isLoop⟩ := first
      obtain ⟨outer, isOuter, rfl⟩ := List.mem_map.mp isLoop
      have inOuter : outer.span.contains loop.span = true := region ▸ around
      exact exchanged.masked_eq plans.span_tidied arranged (SourceTree.mem_loops_iff.mp isOuter)
        inOuter isMask

/-- Whatever the text and the configuration, fixing keeps all loops in their order,
makes every fix for a loop of the text, one for each region it counts, and changes
nothing outside the outermost of these loops. -/
theorem fixAll_local (source path : String) (config : Config) (placeholder : Stmt) :
    let document := (Document.parse source path).1
    ∃ fixed, document.fixAll config false = .ok fixed ∧
      document.FixedTo fixed.regions fixed.document ∧ fixed.applied = fixed.regions.length ∧
      fixed.document.tree.loops.map Loop.span = document.tree.loops.map Loop.span ∧
      (∀ region ∈ fixed.regions, region ∈ document.tree.loops.map Loop.span) ∧
      document.tree.masked (outermostRegions fixed.regions) placeholder =
        fixed.document.tree.masked (outermostRegions fixed.regions) placeholder := by
  intro document
  have opened : document.Reachable := .opened source path
  have run : document.FixedTo (document.fixUntilDone config).regions
      (document.fixUntilDone config).document := fixedTo_fixRounds document config _
  obtain ⟨kept, listed⟩ := run.loops opened
  refine ⟨document.fixUntilDone config, rfl, run, applied_fixRounds _ config _, kept, listed, ?_⟩
  refine run.masked_eq placeholder opened fun region isRegion => ?_
  have bounded : ∀ region ∈ (document.fixUntilDone config).regions,
      region.stop ≤ Text.byteLength document.source.toList := by
    intro region isRegion
    obtain ⟨loop, inTree, rfl⟩ := List.mem_map.mp (listed region isRegion)
    exact (opened.arranged.within (SourceTree.mem_loops_iff.mp inTree)).2.2
  obtain ⟨outer, isOuter, around⟩ := exists_outermostRegions _ bounded isRegion
  exact ⟨outer, isOuter, around, listed outer (mem_outermostRegions_iff.mp isOuter).1⟩

end Document

end QueryLoop
