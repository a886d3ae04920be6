import QueryLoop.Proofs.Fixing.Applied
import QueryLoop.Proofs.Spelling.Legible
import Mathlib.Data.List.Nodup

namespace QueryLoop

/-- What a statement shows without the statements inside it. -/
structure Place where
  span : Span
  isLoop : Bool
  isEmptyDecl : Bool

/-- Some places are dropped, but none that is a loop. -/
structure Thinned (before after : List Place) : Prop where
  fewer : (after.map Place.span).Sublist (before.map Place.span)
  loops : (after.filter Place.isLoop).map Place.span = (before.filter Place.isLoop).map Place.span

namespace Thinned

variable {first second third before after : List Place} {place place' : Place}

theorem refl (places : List Place) : Thinned places places :=
  ⟨List.Sublist.refl _, rfl⟩

theorem trans (one : Thinned first second) (two : Thinned second third) : Thinned first third :=
  ⟨two.fewer.trans one.fewer, two.loops.trans one.loops⟩

theorem append (front : Thinned first second) (back : Thinned before after) :
    Thinned (first ++ before) (second ++ after) := by
  constructor
  · rw [List.map_append, List.map_append]
    exact front.fewer.append back.fewer
  · rw [List.filter_append, List.filter_append, List.map_append, List.map_append, front.loops,
      back.loops]

theorem cons (same : place'.span = place.span) (kind : place'.isLoop = place.isLoop)
    (thinned : Thinned before after) : Thinned (place :: before) (place' :: after) := by
  have head : Thinned [place] [place'] := by
    refine ⟨by simp [same], ?_⟩
    cases isLoop : place.isLoop with
    | true => simp [isLoop, kind, same]
    | false => simp [isLoop, kind]
  exact head.append thinned

theorem drop (dropped : List Place) (plain : ∀ place ∈ dropped, place.isLoop = false)
    (thinned : Thinned before after) : Thinned (dropped ++ before) after := by
  have head : Thinned dropped [] := by
    have noLoop : dropped.filter Place.isLoop = [] :=
      List.filter_eq_nil_iff.mpr fun place found => by simp [plain place found]
    exact ⟨List.nil_sublist _, by rw [noLoop]; rfl⟩
  exact head.append thinned

end Thinned

namespace Stmt

variable {stmt old new before after : Stmt}

def place (stmt : Stmt) : Place :=
  ⟨stmt.span, stmt.loop?.isSome, stmt.isEmptyDecl⟩

/-- The places of a statement and all statements inside it. -/
def places (stmt : Stmt) : List Place :=
  stmt.statements.map place

theorem places_eq (stmt : Stmt) : stmt.places = stmt.place :: stmt.children.flatMap places := by
  rw [places, statements_eq, List.map_cons, List.map_flatMap]
  rfl

theorem place_of_isEmptyDecl (isEmpty : stmt.isEmptyDecl = true) :
    stmt.places = [⟨stmt.span, false, true⟩] := by
  unfold isEmptyDecl at isEmpty
  split at isEmpty
  · rw [places_eq]
    rfl
  · simp at isEmpty

/-- The statements of a list, thinned one by one, where empty declarations may go. -/
theorem thinned_flatMap {stmts : List Stmt} {tidy : Stmt → Stmt} (keep : Stmt → Bool)
    (each : ∀ stmt ∈ stmts, Thinned stmt.places (tidy stmt).places)
    (dropped : ∀ stmt ∈ stmts, keep stmt = false → stmt.isEmptyDecl = true) :
    Thinned (stmts.flatMap places) (((stmts.filter keep).map tidy).flatMap places) := by
  induction stmts with
  | nil => exact .refl []
  | cons stmt stmts ih =>
      obtain ⟨own, others⟩ := List.forall_mem_cons.mp each
      obtain ⟨gone, others_gone⟩ := List.forall_mem_cons.mp dropped
      have rest := ih others others_gone
      cases kept : keep stmt with
      | true =>
          rw [List.filter_cons_of_pos kept]
          exact own.append rest
      | false =>
          rw [List.filter_cons_of_neg (by simp [kept])]
          exact rest.drop stmt.places (by simp [place_of_isEmptyDecl (gone kept)])

theorem thinned_removeEmptyDecls (stmt : Stmt) :
    Thinned stmt.places stmt.removeEmptyDecls.1.places := by
  induction stmt using children_induction with
  | step stmt ih =>
      have all : Thinned (stmt.children.flatMap places)
          ((stmt.children.map fun child => child.removeEmptyDecls.1).flatMap places) := by
        simpa using thinned_flatMap (fun _ => true) ih
      rw [places_eq, places_eq stmt.removeEmptyDecls.1]
      cases stmt with
      | block span stmts =>
          rw [removeEmptyDecls]
          refine .cons rfl rfl ?_
          simp only [children, dropEmptyDecls_eq]
          exact thinned_flatMap _ ih (by simp)
      | decl span declared =>
          obtain ⟨type, declarators⟩ := declared
          cases declarators with
          | nil => exact .cons rfl rfl (.refl [])
          | cons first others => exact .refl _
      | ifThen | ifElse | foreach | whileLoop =>
          rw [removeEmptyDecls]
          exact .cons rfl rfl all
      | _ => exact .refl _

end Stmt

namespace Loop

variable {resolver : Resolver} {options : ScanOptions} {loop planned : Loop} {shape : Shape}

theorem places_toStmt (loop : Loop) :
    loop.toStmt.places = ⟨loop.span, true, false⟩ :: loop.body.places := by
  rw [Stmt.places_eq]
  simp [toStmt, Stmt.place, Stmt.span, Stmt.loop?, Stmt.isEmptyDecl, Stmt.children]

theorem thinned_flattened (otherwise : Option Stmt) :
    Thinned (otherwise.toList.flatMap Stmt.places)
      ((Stmt.flattened otherwise).flatMap Stmt.places) := by
  cases otherwise with
  | none => exact .refl []
  | some otherwise =>
      cases otherwise with
      | block span stmts =>
          simp only [Option.toList_some, List.flatMap_singleton, Stmt.flattened]
          rw [Stmt.places_eq]
          exact .drop [(Stmt.block span stmts).place] (by simp [Stmt.place, Stmt.loop?]) (.refl _)
      | _ => exact .refl _

theorem plain_of_isContinueBranch {stmt : Stmt} (isContinue : stmt.isContinueBranch = true) :
    ∀ place ∈ stmt.places, place.isLoop = false := by
  unfold Stmt.isContinueBranch at isContinue
  split at isContinue
  · simp [Stmt.places_eq, Stmt.place, Stmt.loop?, Stmt.children]
  · simp [Stmt.places_eq, Stmt.place, Stmt.loop?, Stmt.children]
  · simp at isContinue

/-- The condition and the branch that continues go, the other branch moves up. -/
theorem thinned_guard {guard body : Stmt} {cond : Expr} {otherwise : Option Stmt}
    (parts : guard.branches? = some (cond, body, otherwise))
    (isContinue : body.isContinueBranch = true) :
    Thinned guard.places ((Stmt.flattened otherwise).flatMap Stmt.places) := by
  have shape : guard.places = guard.place :: body.places ++ otherwise.toList.flatMap Stmt.places ∧
      guard.place.isLoop = false := by
    unfold Stmt.branches? at parts
    split at parts
    · cases parts
      rw [Stmt.places_eq]
      simp [Stmt.children, Stmt.place, Stmt.loop?]
    · cases parts
      rw [Stmt.places_eq]
      simp [Stmt.children, Stmt.place, Stmt.loop?]
    · simp at parts
  rw [shape.1]
  refine (thinned_flattened otherwise).drop _ ?_
  exact List.forall_mem_cons.mpr ⟨shape.2, plain_of_isContinueBranch isContinue⟩

theorem Planned.thinned (plans : Planned resolver options loop shape planned) :
    Thinned loop.toStmt.places planned.toStmt.places := by
  rw [places_toStmt, places_toStmt]
  refine .cons plans.span_eq rfl ?_
  cases plans with
  | @filterIf cond lambda body lone made =>
      unfold Stmt.loneIf? at lone
      split at lone
      · rename_i span cond' body' whole
        cases lone
        rw [whole, Stmt.places_eq]
        exact .drop [(Stmt.ifThen span cond body).place] (by simp [Stmt.place, Stmt.loop?])
          (by simpa [Stmt.children] using Thinned.refl _)
      · rename_i outer span cond' body' whole
        cases lone
        rw [whole, Stmt.places_eq]
        simp only [Stmt.children, List.flatMap_singleton]
        rw [Stmt.places_eq (.ifThen span cond body)]
        exact .drop [(Stmt.block outer [.ifThen span cond body]).place,
          (Stmt.ifThen span cond body).place] (by simp [Stmt.place, Stmt.loop?])
          (by simpa [Stmt.children] using Thinned.refl _)
      · simp at lone
  | @filterIfContinue span guard body rest cond lambda otherwise blockOf more parts isContinue
      made =>
      rw [blockOf, Stmt.places_eq, Stmt.places_eq (.block span (_ ++ _))]
      refine .cons rfl rfl ?_
      simp only [Stmt.children, List.flatMap_cons, List.flatMap_append]
      exact (thinned_guard parts isContinue).append (.refl _)
  | @map span declSpan headSpan type name init lambda others rest blockOf made =>
      rw [blockOf, Stmt.places_eq, Stmt.places_eq (.block span (.decl _ ⟨_, others⟩ :: _))]
      refine .cons rfl rfl ?_
      simp only [Stmt.children, List.flatMap_cons]
      refine .append ?_ (.refl _)
      rw [Stmt.places_eq, Stmt.places_eq (.decl declSpan ⟨type, others⟩)]
      exact .cons rfl rfl (.refl [])

theorem Planned.thinned_tidied (plans : Planned resolver options loop shape planned) :
    Thinned loop.toStmt.places planned.tidied.places :=
  plans.thinned.trans (Stmt.thinned_removeEmptyDecls _)

end Loop

namespace Item

variable {old new : Stmt} {before after found item : Item}

theorem Exchanged.declares (exchanged : Exchanged old new before after)
    (declares : before.Declares) : after.Declares := by
  induction declares generalizing after with
  | @intro before own subitems ih =>
      have same : after.isEmptyField = false := by
        cases exchanged <;> rfl
      refine .intro same ?_
      obtain ⟨-, ⟨-, -, front, child, child', back, shape, shape', inner⟩ |
        ⟨-, noItems', -⟩⟩ := exchanged.subitem_or_stmt
      · rw [shape', List.forall_mem_append, List.forall_mem_cons]
        rw [shape, List.forall_mem_append, List.forall_mem_cons] at subitems
        exact ⟨subitems.1, ih child (by simp [shape]) inner, subitems.2.2⟩
      · simp [noItems']

end Item

namespace SourceTree

variable {old new : Stmt} {before after : SourceTree}

def places (tree : SourceTree) : List Place :=
  tree.statements.map Stmt.place

/-- Around the place of the exchange, everything is where it was. -/
theorem Exchanged.places_eq (exchanged : Exchanged old new before after) :
    PartExchanged old.places new.places before.places after.places := by
  refine exchanged.map_statements fun exchanged => ?_
  cases exchanged with
  | here => exact .inl ⟨rfl, rfl⟩
  | _ => exact .inr rfl

theorem Exchanged.declares (exchanged : Exchanged old new before after)
    (declares : ∀ item ∈ before.items, item.Declares) : ∀ item ∈ after.items, item.Declares := by
  cases exchanged with
  | intro front back inner =>
      rw [List.forall_mem_append, List.forall_mem_cons] at declares ⊢
      exact ⟨declares.1, inner.declares declares.2.1, declares.2.2⟩

theorem map_span_loops (tree : SourceTree) :
    tree.loops.map Loop.span = (tree.places.filter Place.isLoop).map Place.span := by
  rw [loops_eq, places]
  induction tree.statements with
  | nil => rfl
  | cons stmt stmts ih =>
      cases isLoop : stmt.loop? with
      | none => simp [isLoop, ih, Stmt.place]
      | some loop =>
          obtain rfl := Stmt.loop?_eq_some_iff.mp isLoop
          have span_eq : loop.toStmt.span = loop.span := rfl
          simp [isLoop, ih, Stmt.place, span_eq]

end SourceTree

namespace Action

variable {length : Nat} {tree : SourceTree} {action : Action} {edit : Edit}

/-- A fix that succeeds exchanges a loop of the tree, in which nothing was skipped, for
its plan. -/
theorem exchanged_of_applyTo (arranged : tree.Arranged length)
    (applied : action.applyTo tree = .ok edit) :
    ∃ loop ∈ tree.loops, loop.isReadable = true ∧ ∃ shape planned,
      loop.Planned action.resolver action.options shape planned ∧ edit.region = loop.span ∧
      SourceTree.Exchanged loop.toStmt planned.tidied tree edit.tree := by
  obtain ⟨loop, inTree, shape, found, place⟩ := found_of_applyTo applied
  obtain ⟨planned, edit', plans, applied', region, exchanged⟩ :=
    applyTo_of_found arranged inTree found place
  obtain rfl : edit' = edit := by simpa using applied'.symm.trans applied
  exact ⟨loop, inTree, Loop.isReadable_of_shape? found, shape, planned, plans, region, exchanged⟩

theorem thinned_applyTo (arranged : tree.Arranged length)
    (applied : action.applyTo tree = .ok edit) : Thinned tree.places edit.tree.places := by
  obtain ⟨loop, -, -, shape, planned, plans, -, exchanged⟩ :=
    exchanged_of_applyTo arranged applied
  obtain ⟨front, back, before_eq, after_eq⟩ := exchanged.places_eq
  rw [before_eq, after_eq]
  exact ((Thinned.refl front).append plans.thinned_tidied).append (.refl back)

theorem isEmptyDecl_applyTo (arranged : tree.Arranged length)
    (applied : action.applyTo tree = .ok edit)
    (declares : ∀ place ∈ tree.places, place.isEmptyDecl = false) :
    ∀ place ∈ edit.tree.places, place.isEmptyDecl = false := by
  obtain ⟨loop, -, -, shape, planned, -, -, exchanged⟩ :=
    exchanged_of_applyTo arranged applied
  obtain ⟨front, back, before_eq, after_eq⟩ := exchanged.places_eq
  rw [before_eq, List.forall_mem_append, List.forall_mem_append] at declares
  rw [after_eq, List.forall_mem_append, List.forall_mem_append]
  refine ⟨⟨declares.1.1, ?_⟩, declares.2⟩
  exact List.forall_mem_map.mpr planned.toStmt.isEmptyDecl_removeEmptyDecls

end Action

namespace Document

variable {document : Document}

/-- The statements of a reachable document start and end between characters of its
source, and nothing in it that declares declares nothing. -/
theorem Reachable.anchored (reachable : document.Reachable) :
    (∀ stmt ∈ document.tree.statements,
      Text.Boundary document.source.toList stmt.span.start ∧
        Text.Boundary document.source.toList stmt.span.stop) ∧
      (∀ stmt ∈ document.tree.statements, stmt.isEmptyDecl = false) ∧
      ∀ item ∈ document.tree.items, item.Declares := by
  induction reachable with
  | opened source path =>
      refine ⟨fun stmt inside => ?_, fun stmt inside => ?_, fun item isItem => ?_⟩
      · exact SourceTree.boundary_parse source (.stmt stmt) (SourceTree.mem_statements_iff.mp inside)
      · exact (SourceTree.legible_of_parse inside).isEmptyDecl_eq_false
      · exact (SourceTree.legible_parse source item isItem).fields
  | @fixed document edit cancelled action before applied ih =>
      obtain ⟨ends, declares, fields⟩ := ih
      unfold Action.apply at applied
      split at applied
      · simp at applied
      · have arranged := before.arranged
        obtain ⟨_, _, _, _, _, _, _, exchanged⟩ := Action.exchanged_of_applyTo arranged applied
        refine ⟨fun stmt inside => ?_, ?_, exchanged.declares fields⟩
        · have listed : stmt.span ∈ edit.tree.places.map Place.span :=
            List.mem_map_of_mem (List.mem_map_of_mem inside)
          have earlier := (Action.thinned_applyTo arranged applied).fewer.subset listed
          simp only [SourceTree.places, List.map_map, List.mem_map] at earlier
          obtain ⟨original, isOriginal, same⟩ := earlier
          exact same ▸ ends original isOriginal
        · exact List.forall_mem_map.mp (Action.isEmptyDecl_applyTo arranged applied
            (List.forall_mem_map.mpr declares))

end Document

theorem Outline.mem_preorder_iff {node : Node} {outline : Outline} :
    node ∈ outline.preorder ↔
      node = outline.node ∨ ∃ part ∈ outline.parts, node ∈ part.preorder := by
  obtain ⟨root, parts⟩ := outline
  rw [preorder, preorderAll_eq_flatMap, List.mem_cons, List.mem_flatMap]
  rfl

theorem Expr.item_not_mem_preorder {expr : Expr} {found : Item} :
    Node.item found ∉ expr.outline.preorder := by
  induction expr using parts_induction with
  | step expr ih =>
      rw [outline_eq, Outline.mem_preorder_iff]
      simp only [Outline.node, Outline.parts, List.mem_map]
      rintro (same | ⟨_, ⟨part, inside, rfl⟩, deeper⟩)
      · simp at same
      · exact ih part inside deeper

/-- Directly inside a statement are expressions and statements. -/
theorem Stmt.mem_outline_parts {stmt : Stmt} {part : Outline} (inside : part ∈ stmt.outline.parts) :
    (∃ expr : Expr, part = expr.outline) ∨ ∃ child ∈ stmt.children, part = child.outline := by
  cases stmt <;> simp only [outline, Outline.parts, LocalDecl.outlines, outlines_eq_map,
    List.mem_map, List.mem_cons, List.not_mem_nil, or_false] at inside <;> grind [children]

theorem Stmt.item_not_mem_preorder {stmt : Stmt} {found : Item} :
    Node.item found ∉ stmt.outline.preorder := by
  induction stmt using children_induction with
  | step stmt ih =>
      rw [Outline.mem_preorder_iff]
      rintro (same | ⟨part, inside, deeper⟩)
      · rw [outline_eq] at same
        simp [Outline.node] at same
      · rcases mem_outline_parts inside with ⟨expr, rfl⟩ | ⟨child, isChild, rfl⟩
        · exact Expr.item_not_mem_preorder deeper
        · exact ih child isChild deeper

namespace Item

variable {item found : Item}

theorem mem_outline_parts {part : Outline} (inside : part ∈ item.outline.parts) :
    (∃ expr : Expr, part = expr.outline) ∨ (∃ stmt : Stmt, part = stmt.outline) ∨
      ∃ child ∈ item.subitems, part = child.outline := by
  cases item <;> simp only [outline, Outline.parts, LocalDecl.outlines, outlines_eq_map,
    Stmt.outlines_eq_map, List.mem_map, List.mem_cons, List.not_mem_nil, or_false] at inside <;>
    grind [subitems]

/-- The items among the nodes of an item are the item and those of the items directly
inside it. -/
theorem eq_or_mem_subitems (inside : Node.item found ∈ item.outline.preorder) :
    found = item ∨ ∃ child ∈ item.subitems, Node.item found ∈ child.outline.preorder := by
  rw [Outline.mem_preorder_iff] at inside
  rcases inside with same | ⟨part, isPart, deeper⟩
  · rw [outline_eq] at same
    exact .inl (Node.item.inj same)
  · rcases mem_outline_parts isPart with ⟨expr, rfl⟩ | ⟨stmt, rfl⟩ | ⟨child, isChild, rfl⟩
    · exact absurd deeper Expr.item_not_mem_preorder
    · exact absurd deeper Stmt.item_not_mem_preorder
    · exact .inr ⟨child, isChild, deeper⟩

theorem Arranged.partsInside_of_mem (arranged : item.Arranged)
    (inside : Node.item found ∈ item.outline.preorder) : found.PartsInside := by
  induction arranged with
  | intro parts subitems stmts ih =>
      rcases eq_or_mem_subitems inside with rfl | ⟨child, isChild, deeper⟩
      · exact parts
      · exact ih child isChild deeper

theorem Declares.of_mem (declares : item.Declares)
    (inside : Node.item found ∈ item.outline.preorder) : found.isEmptyField = false := by
  induction declares with
  | intro own subitems ih =>
      rcases eq_or_mem_subitems inside with rfl | ⟨child, isChild, deeper⟩
      · exact own
      · exact ih child isChild deeper

end Item

theorem SourceTree.exists_item_of_mem_nodes {tree : SourceTree} {found : Item}
    (inside : Node.item found ∈ tree.nodes) :
    ∃ item ∈ tree.items, Node.item found ∈ item.outline.preorder := by
  rw [nodes, Outline.preorderAll_eq_flatMap, Item.outlines_eq_map, List.flatMap_map,
    List.mem_flatMap] at inside
  exact inside

/-- The nodes of a tree lie in a source text as they nest and follow each other, every
statement at a place of its own, and all that declares declares something. -/
structure SourceTree.InPlace (source : List Char) (tree : SourceTree) : Prop where
  nonempty : ∀ stmt ∈ tree.statements, stmt.span.start < stmt.span.stop
  inSource : ∀ stmt ∈ tree.statements, stmt.span.stop ≤ Text.byteLength source
  boundaries : ∀ stmt ∈ tree.statements,
    Text.Boundary source stmt.span.start ∧ Text.Boundary source stmt.span.stop
  children : ∀ stmt ∈ tree.statements, ∀ child ∈ stmt.children,
    stmt.span.contains child.span = true ∧ child.span ≠ stmt.span
  siblings : ∀ stmt ∈ tree.statements,
    stmt.children.Pairwise fun first second => first.span.Before second.span
  itemParts : ∀ item, Node.item item ∈ tree.nodes →
    (∀ child ∈ item.subitems, item.span.contains child.span = true) ∧
      ∀ stmt ∈ item.stmts, item.span.contains stmt.span = true
  itemSiblings : ∀ item, Node.item item ∈ tree.nodes →
    item.subitems.Pairwise (fun first second => first.span.Before second.span) ∧
      item.stmts.Pairwise fun first second => first.span.Before second.span
  topItems : tree.items.Pairwise fun first second => first.span.Before second.span
  ownSpans : (tree.statements.map Stmt.span).Nodup
  declares : ∀ stmt ∈ tree.statements, stmt.isEmptyDecl = false
  fieldsDeclare : ∀ item, Node.item item ∈ tree.nodes → item.isEmptyField = false

namespace SourceTree

variable {length : Nat} {tree : SourceTree}

theorem Arranged.within (arranged : tree.Arranged length) {stmt : Stmt}
    (inside : stmt ∈ tree.statements) : stmt.span.Within 0 length := by
  rw [statements_eq] at inside
  obtain ⟨item, isItem, inside⟩ := List.mem_flatMap.mp inside
  have place := arranged.spread.within_of_mem isItem
  exact ((arranged.items item isItem).within inside).widen place.1 place.2.2

theorem Arranged.nodup_spans (arranged : tree.Arranged length) :
    (tree.statements.map Stmt.span).Nodup := by
  rw [List.nodup_iff_count_eq_one]
  intro span listed
  obtain ⟨stmt, inside, rfl⟩ := List.mem_map.mp listed
  have same : ((· == stmt.span) ∘ Stmt.span) =
      fun other : Stmt => decide (other.span = stmt.span) := rfl
  rw [List.count, List.countP_map, List.countP_eq_length_filter, same,
    arranged.filter_span_eq inside, List.length_singleton]

end SourceTree

/-- Whatever the text and whatever fixes are applied to its tree one after the other,
the tree lies in the source text. -/
theorem Document.Reachable.inPlace {document : Document} (reachable : document.Reachable) :
    document.tree.InPlace document.source.toList := by
  have arranged := reachable.arranged
  obtain ⟨ends, declares, fields⟩ := reachable.anchored
  have parts : ∀ stmt ∈ document.tree.statements, stmt.PartsInside := fun stmt inside =>
    (Stmt.arranged_iff.mp (arranged.of_mem inside)).1
  have itemParts : ∀ item, Node.item item ∈ document.tree.nodes →
      item.PartsInside ∧ item.isEmptyField = false := by
    intro item inside
    obtain ⟨outer, isItem, inside⟩ := SourceTree.exists_item_of_mem_nodes inside
    exact ⟨(arranged.items outer isItem).partsInside_of_mem inside,
      (fields outer isItem).of_mem inside⟩
  refine {
    nonempty := fun stmt inside => (arranged.within inside).2.1
    inSource := fun stmt inside => (arranged.within inside).2.2
    boundaries := ends
    children := fun stmt inside child isChild => ?_
    siblings := fun stmt inside => (parts stmt inside).children.pairwise
    itemParts := fun item inside => ⟨fun child isChild => ?_, fun stmt isStmt => ?_⟩
    itemSiblings := fun item inside =>
      ⟨(itemParts item inside).1.subitems.pairwise, (itemParts item inside).1.stmts.pairwise⟩
    topItems := arranged.spread.pairwise
    ownSpans := arranged.nodup_spans
    declares := declares
    fieldsDeclare := fun item inside => (itemParts item inside).2 }
  · have place := (parts stmt inside).children.within_of_mem isChild
    refine ⟨(place.widen (Nat.le_succ _) (Nat.le_refl _)).contains, fun same => ?_⟩
    rw [same] at place
    exact absurd place.1 (Nat.not_succ_le_self _)
  · exact ((itemParts item inside).1.subitems.within_of_mem isChild).contains
  · exact ((itemParts item inside).1.stmts.within_of_mem isStmt).contains

/-- A lone `if` behind a character of two bytes, in a text that does not end well. -/
theorem Document.inPlace_fixed_lone_if :
    let document := (Document.parse
      "F(\"é\"); foreach (var a in b) \x7b if (a.Ok) F(); \x7d )" "").1
    ∃ (action : Action) (edit : Edit), action.apply document false = .ok edit ∧
      edit.tree.InPlace document.source.toList := by
  intro document
  let diagnostic : Diagnostic := ⟨fixableId, .info, "", ⟨36, 40⟩, "", some "--ContainingIf"⟩
  let action : Action := ⟨"", .containingIf, diagnostic, {}, .textual⟩
  have opened : document.Reachable := .opened _ _
  have found : ⟨⟨9, 48⟩, .filterIf ⟨36, 40⟩ ⟨42, 46⟩⟩ ∈
      document.tree.findings action.resolver {} := by
    decide +kernel
  -- what follows does not depend on the text, and nothing is to evaluate it
  clear_value document
  obtain ⟨-, -, edit, -, -, applied, -⟩ :=
    Action.applyTo_of_finding opened.arranged found rfl rfl
  have applies : action.apply document false = .ok edit := applied
  have reached : Reachable { document with tree := edit.tree } := .fixed action opened applies
  exact ⟨action, edit, applies, reached.inPlace⟩

end QueryLoop
