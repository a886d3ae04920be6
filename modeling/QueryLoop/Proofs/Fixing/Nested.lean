import QueryLoop.Proofs.Fixing.Local

namespace QueryLoop

variable {old new outer outer' : Stmt}

/-- An exchange for a statement that differs in a smaller exchange is the smaller one. -/
theorem Stmt.Exchanged.narrow {before after : Stmt}
    (exchanged : Exchanged outer outer' before after) (inner : Exchanged old new outer outer') :
    Exchanged old new before after := by
  induction exchanged with
  | here => exact inner
  | inBlock span front back _ ih => exact .inBlock span front back ih
  | inIfThen span cond _ ih => exact .inIfThen span cond ih
  | inBody span cond otherwise _ ih => exact .inBody span cond otherwise ih
  | inOtherwise span cond body _ ih => exact .inOtherwise span cond body ih
  | inForeach span type var varSpan seq _ ih => exact .inForeach span type var varSpan seq ih
  | inWhile span cond _ ih => exact .inWhile span cond ih

theorem Item.Exchanged.narrow {before after : Item}
    (exchanged : Exchanged outer outer' before after) (inner : Stmt.Exchanged old new outer outer') :
    Exchanged old new before after := by
  induction exchanged with
  | inNamespace span path front back _ ih => exact .inNamespace span path front back ih
  | inClass span modifiers name front back _ ih => exact .inClass span modifiers name front back ih
  | inMethod span modifiers result name params front back braces around =>
      exact .inMethod span modifiers result name params front back braces (around.narrow inner)
  | inStatement span around => exact .inStatement span (around.narrow inner)

theorem SourceTree.Exchanged.narrow {before after : SourceTree}
    (exchanged : Exchanged outer outer' before after) (inner : Stmt.Exchanged old new outer outer') :
    Exchanged old new before after := by
  cases exchanged with
  | intro front back around => exact .intro front back (around.narrow inner)

theorem Stmt.Exchanged.symm {before after : Stmt} (exchanged : Exchanged old new before after) :
    Exchanged new old after before := by
  induction exchanged with
  | here => exact .here
  | inBlock span front back _ ih => exact .inBlock span front back ih
  | inIfThen span cond _ ih => exact .inIfThen span cond ih
  | inBody span cond otherwise _ ih => exact .inBody span cond otherwise ih
  | inOtherwise span cond body _ ih => exact .inOtherwise span cond body ih
  | inForeach span type var varSpan seq _ ih => exact .inForeach span type var varSpan seq ih
  | inWhile span cond _ ih => exact .inWhile span cond ih

theorem Item.Exchanged.symm {before after : Item} (exchanged : Exchanged old new before after) :
    Exchanged new old after before := by
  induction exchanged with
  | inNamespace span path front back _ ih => exact .inNamespace span path front back ih
  | inClass span modifiers name front back _ ih => exact .inClass span modifiers name front back ih
  | inMethod span modifiers result name params front back braces inner =>
      exact .inMethod span modifiers result name params front back braces inner.symm
  | inStatement span inner => exact .inStatement span inner.symm

theorem SourceTree.Exchanged.symm {before after : SourceTree}
    (exchanged : Exchanged old new before after) : Exchanged new old after before := by
  cases exchanged with
  | intro front back inner => exact .intro front back inner.symm

theorem Stmt.Exchanged.kept {before after other : Stmt} (exchanged : Exchanged old new before after)
    (isOther : other ∈ before.statements) (outside : old ∉ other.statements)
    (notInside : other ∉ old.statements) : other ∈ after.statements := by
  induction before using children_induction generalizing after with
  | step before ih =>
      rcases exchanged.root_or_child with
        ⟨rfl, -⟩ | ⟨-, -, front, child, child', back, shape, shape', inner⟩
      · exact absurd isOther notInside
      · have found := isOther
        rw [statements_eq, List.mem_cons, List.mem_flatMap] at found
        rcases found with rfl | ⟨part, isPart, inPart⟩
        · exact absurd exchanged.mem_statements outside
        · rw [shape, List.mem_append, List.mem_cons] at isPart
          rcases isPart with inFront | rfl | inBack
          · exact mem_statements_of_child (by simp [shape', inFront]) inPart
          · have kept := ih part (by simp [shape]) inner inPart
            exact mem_statements_of_child (by simp [shape']) kept
          · exact mem_statements_of_child (by simp [shape', inBack]) inPart

theorem Item.Exchanged.kept {before after : Item} {other : Stmt}
    (exchanged : Exchanged old new before after) (isOther : other ∈ before.statements)
    (outside : old ∉ other.statements) (notInside : other ∉ old.statements) :
    other ∈ after.statements := by
  induction before using subitems_induction generalizing after with
  | step before ih =>
      rw [statements_eq, List.mem_append, List.mem_flatMap, List.mem_flatMap] at isOther ⊢
      obtain ⟨-, ⟨noStmts, -, front, child, child', back, shape, shape', inner⟩ |
        ⟨noItems, -, front, child, child', back, shape, shape', inner⟩⟩ :=
        exchanged.subitem_or_stmt
      · obtain ⟨part, isPart, inPart⟩ := isOther.resolve_right (by simp [noStmts])
        rw [shape, List.mem_append, List.mem_cons] at isPart
        rcases isPart with inFront | rfl | inBack
        · exact .inl ⟨part, by simp [shape', inFront], inPart⟩
        · exact .inl ⟨child', by simp [shape'], ih part (by simp [shape]) inner inPart⟩
        · exact .inl ⟨part, by simp [shape', inBack], inPart⟩
      · obtain ⟨part, isPart, inPart⟩ := isOther.resolve_left (by simp [noItems])
        rw [shape, List.mem_append, List.mem_cons] at isPart
        rcases isPart with inFront | rfl | inBack
        · exact .inr ⟨part, by simp [shape', inFront], inPart⟩
        · exact .inr ⟨child', by simp [shape'], inner.kept inPart outside notInside⟩
        · exact .inr ⟨part, by simp [shape', inBack], inPart⟩

theorem SourceTree.Exchanged.kept {before after : SourceTree} {other : Stmt}
    (exchanged : Exchanged old new before after) (isOther : other ∈ before.statements)
    (outside : old ∉ other.statements) (notInside : other ∉ old.statements) :
    other ∈ after.statements := by
  cases exchanged with
  | intro front back inner =>
      rw [statements_eq, List.flatMap_append, List.flatMap_cons, List.mem_append,
        List.mem_append] at isOther ⊢
      rcases isOther with inFront | inItem | inBack
      · exact .inl inFront
      · exact .inr (.inl (inner.kept inItem outside notInside))
      · exact .inr (.inr inBack)

theorem SourceTree.Exchanged.mem_statements {before after : SourceTree}
    (exchanged : Exchanged old new before after) : old ∈ before.statements := by
  cases exchanged with
  | intro front back inner =>
      rw [statements_eq, List.flatMap_append, List.flatMap_cons]
      exact List.mem_append_right _ (List.mem_append_left _ inner.mem_statements)

theorem Stmt.mem_statements_trans {stmt inner : Stmt} (isOuter : outer ∈ stmt.statements)
    (inside : inner ∈ outer.statements) : inner ∈ stmt.statements := by
  induction stmt using children_induction with
  | step stmt ih =>
      rw [statements_eq, List.mem_cons, List.mem_flatMap] at isOuter
      rcases isOuter with rfl | ⟨child, isChild, isOuter⟩
      · exact inside
      · exact mem_statements_of_child isChild (ih child isChild isOuter)

theorem Item.mem_statements_trans {item : Item} {inner : Stmt} (isOuter : outer ∈ item.statements)
    (inside : inner ∈ outer.statements) : inner ∈ item.statements := by
  induction item using subitems_induction with
  | step item ih =>
      rw [statements_eq, List.mem_append, List.mem_flatMap, List.mem_flatMap] at isOuter ⊢
      refine isOuter.imp ?_ ?_
      · rintro ⟨child, isChild, isOuter⟩
        exact ⟨child, isChild, ih child isChild isOuter⟩
      · rintro ⟨stmt, isStmt, isOuter⟩
        exact ⟨stmt, isStmt, Stmt.mem_statements_trans isOuter inside⟩

theorem SourceTree.mem_statements_trans {tree : SourceTree} {inner : Stmt}
    (isOuter : outer ∈ tree.statements) (inside : inner ∈ outer.statements) :
    inner ∈ tree.statements := by
  rw [statements_eq, List.mem_flatMap] at isOuter ⊢
  obtain ⟨item, isItem, isOuter⟩ := isOuter
  exact ⟨item, isItem, Item.mem_statements_trans isOuter inside⟩

section

variable {regions : List Span} {placeholder : Stmt}

/-- A mask does not show where it covers only what stands there already. -/
theorem Stmt.masked_self {stmt : Stmt}
    (known : ∀ inner ∈ stmt.statements, inner.span ∈ regions → inner = placeholder) :
    stmt.masked regions placeholder = stmt := by
  induction stmt using children_induction with
  | step stmt ih =>
      by_cases here : stmt.span ∈ regions
      · rw [masked_eq_placeholder here, known stmt stmt.self_mem_statements here]
      · have children : ∀ child ∈ stmt.children, child.masked regions placeholder = child :=
          fun child isChild => ih child isChild fun inner inside =>
            known inner (mem_statements_of_child isChild inside)
        have shown : ∀ stmts : List Stmt, (∀ child ∈ stmts, child.masked regions placeholder = child) →
            maskedAll stmts regions placeholder = stmts := by
          intro stmts each
          rw [maskedAll_eq_map, List.map_congr_left each, List.map_id']
        rw [masked.eq_def, if_neg here]
        cases stmt <;> simp_all [Stmt.children]

theorem Item.masked_self {item : Item}
    (known : ∀ inner ∈ item.statements, inner.span ∈ regions → inner = placeholder) :
    item.masked regions placeholder = item := by
  induction item using subitems_induction with
  | step item ih =>
      rw [statements_eq, List.forall_mem_append, List.forall_mem_flatMap,
        List.forall_mem_flatMap] at known
      have items : item.subitems.map (masked · regions placeholder) = item.subitems :=
        (List.map_congr_left fun child isChild => ih child isChild (known.1 child isChild)).trans
          (List.map_id' _)
      have stmts : item.stmts.map (Stmt.masked · regions placeholder) = item.stmts :=
        (List.map_congr_left fun stmt isStmt => Stmt.masked_self (known.2 stmt isStmt)).trans
          (List.map_id' _)
      cases item <;> simp_all [masked, maskedAll_eq_map, Stmt.maskedAll_eq_map, subitems, Item.stmts]

end

namespace SourceTree

variable {length : Nat} {before after tree : SourceTree} {stmt : Stmt}

/-- A statement of the tree is known by its span. -/
theorem Arranged.eq_of_span_eq (arranged : tree.Arranged length) {other : Stmt}
    (inside : stmt ∈ tree.statements) (isOther : other ∈ tree.statements)
    (same : other.span = stmt.span) : other = stmt := by
  have listed : other ∈ tree.statements.filter (·.span = stmt.span) :=
    List.mem_filter.mpr ⟨isOther, by simpa using same⟩
  rw [arranged.filter_span_eq inside] at listed
  exact List.mem_singleton.mp listed

/-- A tree is its mask at one place with the statement that stands at that place. -/
theorem Arranged.masked_self (arranged : tree.Arranged length) (inside : stmt ∈ tree.statements) :
    tree.masked [stmt.span] stmt = tree := by
  have items : ∀ item ∈ tree.items, item.masked [stmt.span] stmt = item := fun item isItem =>
    Item.masked_self fun inner isInner same => arranged.eq_of_span_eq inside
      (statements_eq tree ▸ List.mem_flatMap.mpr ⟨item, isItem, isInner⟩) (by simpa using same)
  rw [masked, List.map_congr_left items, List.map_id']

/-- The tree after an exchange is the tree before it with the new statement at the
place of the old one. -/
theorem Exchanged.eq_masked (exchanged : Exchanged old new before after)
    (same : new.span = old.span) (arranged : before.Arranged length)
    (after_arranged : after.Arranged length) : after = before.masked [old.span] new := by
  have covered : before.masked [old.span] new = after.masked [old.span] new :=
    exchanged.masked_eq same arranged exchanged.mem_statements old.span.contains_refl
      List.mem_cons_self
  rw [covered, ← same, after_arranged.masked_self exchanged.symm.mem_statements]

/-- An exchange has one outcome. -/
theorem Exchanged.unique {after' : SourceTree} (exchanged : Exchanged old new before after)
    (exchanged' : Exchanged old new before after') (same : new.span = old.span)
    (new_arranged : new.Arranged) (arranged : before.Arranged length) : after = after' := by
  rw [exchanged.eq_masked same arranged (exchanged.arranged same new_arranged arranged),
    exchanged'.eq_masked same arranged (exchanged'.arranged same new_arranged arranged)]

/-- An exchange inside a statement of the tree exchanges that statement. -/
theorem Exchanged.widen (exchanged : Exchanged old new tree after) (isOuter : outer ∈ tree.statements)
    (inOuter : Stmt.Exchanged old new outer outer') (same : new.span = old.span)
    (new_arranged : new.Arranged) (arranged : tree.Arranged length) :
    Exchanged outer outer' tree after := by
  obtain ⟨after', -, around⟩ := arranged.replaceStmt? outer' isOuter
  obtain rfl := exchanged.unique (around.narrow inOuter) same new_arranged arranged
  exact around

/-- Two exchanges at the same place are one. -/
theorem Exchanged.trans {middle : SourceTree} {between : Stmt}
    (first : Exchanged old between before middle) (second : Exchanged between new middle after)
    (same : between.span = old.span) (same' : new.span = old.span)
    (between_arranged : between.Arranged) (new_arranged : new.Arranged)
    (arranged : before.Arranged length) : Exchanged old new before after := by
  obtain ⟨after', -, whole⟩ := arranged.replaceStmt? new first.mem_statements
  have middle_arranged := first.arranged same between_arranged arranged
  have after_eq : after = before.masked [old.span] new := by
    rw [second.eq_masked (same'.trans same.symm) middle_arranged
      (second.arranged (same'.trans same.symm) new_arranged middle_arranged), same]
    exact (first.masked_eq same arranged first.mem_statements old.span.contains_refl
      List.mem_cons_self).symm
  obtain rfl : after = after' := after_eq.trans
    (whole.eq_masked same' arranged (whole.arranged same' new_arranged arranged)).symm
  exact whole

end SourceTree

section

variable {first second : Span} {one other : Stmt}

theorem Stmt.span_masked {regions : List Span} {placeholder stmt : Stmt}
    (visible : stmt.span ∉ regions) : (stmt.masked regions placeholder).span = stmt.span := by
  rw [masked.eq_def, if_neg visible]
  cases stmt <;> rfl

theorem Stmt.masked_masked (different : first ≠ second) (plain : one.masked [second] other = one)
    (plain' : other.masked [first] one = other) (stmt : Stmt) :
    (stmt.masked [first] one).masked [second] other =
      (stmt.masked [second] other).masked [first] one := by
  induction stmt using children_induction with
  | step stmt ih =>
      by_cases isFirst : stmt.span = first
      · have visible : stmt.span ∉ [second] := by simpa [isFirst] using different
        have kept : (stmt.masked [second] other).span ∈ [first] := by
          simp [span_masked visible, isFirst]
        rw [masked_eq_placeholder (by simp [isFirst] : stmt.span ∈ [first]), plain,
          masked_eq_placeholder kept]
      · by_cases isSecond : stmt.span = second
        · have kept : (stmt.masked [first] one).span ∈ [second] := by
            simp [span_masked (by simpa using isFirst : stmt.span ∉ [first]), isSecond]
          rw [masked_eq_placeholder (by simp [isSecond] : stmt.span ∈ [second]), plain',
            masked_eq_placeholder kept]
        · cases stmt <;>
            simp_all [masked, maskedAll_eq_map, Stmt.children, Stmt.span]

theorem Item.masked_masked (different : first ≠ second) (plain : one.masked [second] other = one)
    (plain' : other.masked [first] one = other) (item : Item) :
    (item.masked [first] one).masked [second] other =
      (item.masked [second] other).masked [first] one := by
  induction item using subitems_induction with
  | step item ih =>
      have stmts := Stmt.masked_masked different plain plain'
      cases item <;>
        simp_all [masked, maskedAll_eq_map, Stmt.maskedAll_eq_map, subitems]

theorem SourceTree.masked_masked (different : first ≠ second)
    (plain : one.masked [second] other = one) (plain' : other.masked [first] one = other)
    (tree : SourceTree) : (tree.masked [first] one).masked [second] other =
      (tree.masked [second] other).masked [first] one := by
  simp [masked, Item.masked_masked different plain plain']

end

end QueryLoop
