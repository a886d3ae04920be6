import QueryLoop.Parse
import QueryLoop.Proofs.Place.Covered

namespace QueryLoop

open Parsing Parser

namespace Grammar

/-- A value that covers what was read, and is sound if what was read lies in order. -/
def LaidAs {τ α : Type} (place : α → Span) (sound : α → Prop) : Post τ α :=
  fun used _ value _ => used ≠ [] ∧ place value = spanOf used ∧
    ∀ lower upper, Spread Lexeme.span lower upper used → sound value

/-- A value laid on a part of what was read. -/
def Among {τ α : Type} (place : α → Span) (sound : α → Prop) : Post τ α :=
  fun used _ value _ =>
    ∃ front own back, used = front ++ (own ++ back) ∧ LaidAs place sound own [] value []

abbrev Laid : Post Token Stmt :=
  LaidAs Stmt.span Stmt.Arranged

theorem arranged_of_plain {stmt : Stmt} (noChildren : stmt.children = [])
    (noMarks : stmt.marks = []) : stmt.Arranged := by
  refine Stmt.arranged_iff.mpr ⟨⟨?_, ?_⟩, ?_⟩
  · rw [noChildren]; trivial
  · simp [noMarks]
  · simp [noChildren]

theorem spanned_laid {α : Type} {reader : Parser Token α} {make : α × Span → Stmt}
    {post : Post Token α} (ensured : reader.Ensures post)
    (placed : ∀ value, (make value).span = value.2)
    (arranged : ∀ used rest value errors, post used rest value errors → used ≠ [] ∧
      ∀ lower upper, Spread Lexeme.span lower upper used →
        (make (value, spanOf used)).Arranged) :
    (do let value ← spanned reader; return make value).Ensures Laid := by
  refine (ensured.spanned.bind fun value => ensures_pure (make value)).mono ?_
  rintro used rest value errors ⟨front, back, ⟨found, span⟩, early, late, rfl, -,
    ⟨held, covered⟩, rfl, rfl, -⟩
  obtain ⟨nonempty, inside⟩ := arranged _ _ _ _ held
  obtain rfl := covered nonempty
  rw [List.append_nil]
  exact ⟨nonempty, placed _, inside⟩

theorem spanned_laid_plain {α : Type} {reader : Parser Token α} {make : α × Span → Stmt}
    (taken : reader.Ensures Consumes) (placed : ∀ value, (make value).span = value.2)
    (noChildren : ∀ value, (make value).children = []) (noMarks : ∀ value, (make value).marks = []) :
    (do let value ← spanned reader; return make value).Ensures Laid :=
  spanned_laid taken placed fun _ _ _ _ nonempty => ⟨nonempty, fun _ _ _ =>
    arranged_of_plain (noChildren _) (noMarks _)⟩

theorem semicolon_advances : semicolon.Advances := by
  refine bind_advances (advances_of (token_consumes Token.semicolon).optional.spanned) fun found => ?_
  obtain ⟨found, span⟩ := found
  cases found with
  | none => exact advances_of (ensures_report span .missingSemicolon)
  | some _ => exact advances_of (ensures_pure ())

theorem declarator_covers : declarator.Ensures (Covers Declarator.span) := by
  refine spanned_covers (bind_consumes name_consumes fun name => ?_) fun _ => rfl
  exact advances_of ((bind_consumes (token_consumes Token.assign) fun _ =>
    advances_of expr_covers).optional.bind fun _ => ensures_pure _)

theorem within_of_repeats {used rest : List (Lexeme Token)} {declarators : List Declarator}
    {errors : List (SyntaxError Token)}
    (repeated : Repeats (Behind Consumes (Covers Declarator.span)) used rest declarators errors)
    {lower upper : Nat} (spread : Spread Lexeme.span lower upper used) :
    ∀ declarator ∈ declarators, declarator.span.Within lower upper := by
  induction repeated with
  | nil rest => simp
  | @cons used more rest declarator declarators errors others held following ih =>
      obtain ⟨comma, own, _, _, rfl, -, -, nonempty, covered⟩ := held
      refine List.forall_mem_cons.mpr
        ⟨?_, ih (spread.sublist (List.sublist_append_right _ more))⟩
      rw [covered]
      exact within_spanOf (spread.sublist ((List.sublist_append_right comma own).trans
        (List.sublist_append_left _ more))) nonempty

/-- The declarators of a declaration lie among what was read for it. -/
theorem localDecl_ensures : localDecl.Ensures fun used _ decl _ =>
    used ≠ [] ∧ ∀ lower upper, Spread Lexeme.span lower upper used →
      ∀ declarator ∈ decl.declarators, declarator.span.Within lower upper := by
  refine Ensures.labelled "declaration" ((type_consumes.bind fun type =>
    (declarator_covers.separated1 (token_consumes Token.comma) fun _ _ _ _ taken => taken).bind
      fun declarators => ensures_pure _).mono ?_)
  rintro used rest value errors ⟨front, back, type, early, late, rfl, -, nonempty,
    more, nothing, declarators, middle, final, rfl, -,
    ⟨first, tail, declarator, others, _, _, rfl, -, rfl, covered, repeated⟩, rfl, rfl, -⟩
  refine ⟨List.append_ne_nil_of_left_ne_nil nonempty _, fun lower upper spread => ?_⟩
  rw [List.append_nil] at spread
  have spread := spread.sublist (List.sublist_append_right front (first ++ tail))
  refine List.forall_mem_cons.mpr ⟨?_, within_of_repeats repeated
    (spread.sublist (List.sublist_append_right first tail))⟩
  rw [covered.2]
  exact within_spanOf (spread.sublist (List.sublist_append_left first tail)) covered.1

theorem declStmt_laid : declStmt.Ensures Laid := by
  refine spanned_laid (localDecl_ensures.bind fun decl => semicolon_advances.bind
    fun _ => ensures_pure decl) (fun _ => rfl) ?_
  rintro used rest value errors ⟨front, back, decl, early, late, rfl, -, ⟨nonempty, inside⟩,
    more, nothing, _, middle, final, rfl, -, -, rfl, rfl, -⟩
  refine ⟨List.append_ne_nil_of_left_ne_nil nonempty _, fun lower upper spread => ?_⟩
  refine Stmt.arranged_iff.mpr ⟨⟨trivial, ?_⟩, by simp [Stmt.children]⟩
  rintro mark marked
  obtain ⟨declarator, listed, rfl⟩ := List.mem_map.mp marked
  exact ⟨inside _ _ ((spread_cover spread).sublist (List.sublist_append_left _ _)) _ listed,
    by simp [Stmt.children]⟩

theorem among_of_laid {τ α : Type} {place : α → Span} {sound : α → Prop}
    {reader : Parser τ α} (laid : reader.Ensures (LaidAs place sound)) :
    reader.Ensures (Among place sound) :=
  laid.mono fun used _ _ _ held => ⟨[], used, [], (List.append_nil used).symm, held⟩

theorem nonempty_of_among {τ α : Type} {place : α → Span} {sound : α → Prop}
    (used rest : List (Lexeme τ)) (value : α) (errors : List (SyntaxError τ))
    (among : Among place sound used rest value errors) : used ≠ [] := by
  obtain ⟨front, own, back, rfl, nonempty, -⟩ := among
  exact List.append_ne_nil_of_right_ne_nil front (List.append_ne_nil_of_left_ne_nil nonempty back)

/-- What was read one after the other lies one behind the other. -/
theorem spread_of_repeats {τ α : Type} {place : α → Span} {sound : α → Prop}
    {used rest : List (Lexeme τ)} {values : List α} {errors : List (SyntaxError τ)}
    (repeated : Repeats (Among place sound) used rest values errors) {lower upper : Nat}
    (spread : Spread Lexeme.span lower upper used) :
    Spread place lower upper values ∧ ∀ value ∈ values, sound value := by
  induction repeated generalizing lower with
  | nil rest => exact ⟨trivial, by simp⟩
  | @cons used more rest value values errors others held following ih =>
      have taken := nonempty_of_among _ _ _ _ held
      obtain ⟨front, own, back, rfl, nonempty, covered, soundness⟩ := held
      have inside : own.Sublist (front ++ (own ++ back)) :=
        (List.sublist_append_left own back).trans (List.sublist_append_right front _)
      have first := spread_narrow (spread.sublist (List.sublist_append_left _ more))
      have place_within : (place value).Within lower (spanOf (front ++ (own ++ back))).stop := by
        rw [covered]
        exact within_spanOf (first.sublist inside) nonempty
      have whole := within_spanOf (spread.sublist (List.sublist_append_left _ more)) taken
      obtain ⟨later, soundness'⟩ := ih (spread_behind spread taken)
      refine ⟨⟨place_within.widen (Nat.le_refl _) whole.2.2,
        later.widen place_within.2.2 (Nat.le_refl _)⟩, ?_⟩
      exact List.forall_mem_cons.mpr ⟨soundness _ _ (first.sublist inside), soundness'⟩

/-- What was read between braces lies behind the start of the opening brace. -/
theorem braced_ensures {α : Type} {place : α → Span} {sound : α → Prop} {reader : Parser Token α}
    (laid : reader.Ensures (LaidAs place sound)) :
    (between (token .braceOpen) (token .braceClose) (many reader)).Ensures fun used _ values _ =>
      used ≠ [] ∧ ∀ lower upper, Spread Lexeme.span lower upper used →
        Spread place ((spanOf used).start + 1) (spanOf used).stop values ∧
          ∀ value ∈ values, sound value := by
  refine ((token_consumes Token.braceOpen).between (token_consumes .braceClose)
    ((among_of_laid laid).many nonempty_of_among)).mono ?_
  rintro used rest values errors ⟨front, middle, back, early, errs, late, rfl, -, nonempty,
    ⟨repeated, -⟩, nonempty'⟩
  refine ⟨List.append_ne_nil_of_left_ne_nil nonempty _, fun lower upper spread => ?_⟩
  have inside := spread_inside spread nonempty (List.append_ne_nil_of_right_ne_nil _ nonempty')
  exact spread_of_repeats repeated (inside.sublist (List.sublist_append_left middle back))

variable {body : Parser Token Stmt}

theorem skipGroup_laid (opening closing : Token) (others : List (Token × Token)) :
    (do let span ← skipGroup opening closing others; return Stmt.error span).Ensures Laid := by
  refine ((ensures_skipGroup opening closing others).bind fun span =>
    ensures_pure (Stmt.error span)).mono ?_
  rintro used rest stmt errors ⟨front, back, span, early, late, rfl, -, ⟨nonempty, rfl⟩,
    rfl, rfl, -⟩
  rw [List.append_nil]
  exact ⟨nonempty, rfl, fun _ _ _ => arranged_of_plain rfl rfl⟩

theorem block_laid (laid : body.Ensures Laid) : (block body).Ensures Laid := by
  refine (Ensures.recoverWith (spanned_laid (braced_ensures laid) (fun _ => rfl) ?_)
    (skipGroup_laid _ _ _)).mono ?_
  · rintro used rest stmts errors ⟨nonempty, inside⟩
    refine ⟨nonempty, fun lower upper spread => ?_⟩
    obtain ⟨children, arranged⟩ := inside lower upper spread
    exact Stmt.arranged_iff.mpr ⟨⟨children, by simp [Stmt.marks]⟩, arranged⟩
  · rintro used rest stmt errors (held | ⟨own, error, -, held⟩) <;> exact held

/-- A condition lies among what was read for it and its parentheses. -/
theorem condition_ensures : condition.Ensures fun used _ cond _ =>
    used ≠ [] ∧ ∀ lower upper, Spread Lexeme.span lower upper used →
      cond.span.Within lower upper := by
  refine ((token_consumes Token.parenOpen).between (token_consumes .parenClose) expr_covers).mono ?_
  rintro used rest cond errors ⟨front, middle, back, early, errs, late, rfl, -, nonempty,
    ⟨nonempty', covered⟩, -⟩
  refine ⟨List.append_ne_nil_of_left_ne_nil nonempty _, fun lower upper spread => ?_⟩
  rw [covered]
  exact within_spanOf (spread.sublist ((List.sublist_append_left middle back).trans
    (List.sublist_append_right front _))) nonempty'

/-- A statement read behind something else lies behind the start of the whole. -/
theorem spread_child {front back : List (Lexeme Token)} {child : Stmt}
    (nonempty : front ≠ []) (laid : Laid back [] child []) {lower upper : Nat}
    (spread : Spread Lexeme.span lower upper (front ++ back)) :
    Spread Stmt.span ((spanOf (front ++ back)).start + 1) (spanOf (front ++ back)).stop [child] ∧
      child.Arranged := by
  obtain ⟨nonempty', covered, arranged⟩ := laid
  have inside := spread_inside spread nonempty nonempty'
  refine ⟨⟨?_, trivial⟩, arranged _ _ inside⟩
  rw [covered]
  exact within_spanOf inside nonempty'

theorem loopHeader_advances : loopHeader.Advances :=
  advances_of (type_consumes.bind fun _ => name_consumes.spanned.bind fun _ =>
    (token_consumes (Token.keyword .inWord)).bind fun _ => expr_covers.bind fun _ => ensures_pure _)

/-- A statement with one statement inside and no marks. -/
theorem arranged_of_child {stmt child : Stmt} {used : List (Lexeme Token)}
    (only : stmt.children = [child]) (noMarks : stmt.marks = [])
    (spans : stmt.span = spanOf used)
    (inside : Spread Stmt.span ((spanOf used).start + 1) (spanOf used).stop [child] ∧
      child.Arranged) : stmt.Arranged := by
  refine Stmt.arranged_iff.mpr ⟨⟨?_, by simp [noMarks]⟩, ?_⟩
  · rw [only, spans]
    exact inside.1
  · rw [only]
    simpa using inside.2

theorem foreachLoop_laid (laid : body.Ensures Laid) : (foreachLoop body).Ensures Laid := by
  refine Ensures.labelled "foreach" (spanned_laid
    ((token_consumes (Token.keyword .foreachWord)).bind fun _ =>
      (between_consumes Token.parenOpen .parenClose loopHeader_advances).bind fun header => laid.bind fun stmt =>
        ensures_pure (header, stmt)) (fun _ => rfl) ?_)
  rintro used rest ⟨⟨type, ⟨var, varSpan⟩, seq⟩, stmt⟩ errors
    ⟨word, _, _, _, _, rfl, -, nonempty, header, _, _, _, _, rfl, -, -,
      back, _, _, _, _, rfl, -, held, rfl, same, -⟩
  cases same
  rw [List.append_nil, ← List.append_assoc]
  have nonempty := List.append_ne_nil_of_left_ne_nil nonempty header
  refine ⟨List.append_ne_nil_of_left_ne_nil nonempty _, fun lower upper spread => ?_⟩
  exact arranged_of_child rfl rfl rfl (spread_child nonempty held spread)

theorem whileLoop_laid (laid : body.Ensures Laid) : (whileLoop body).Ensures Laid := by
  refine spanned_laid ((token_consumes (Token.keyword .whileWord)).bind fun _ =>
    condition_ensures.bind fun cond => laid.bind fun stmt => ensures_pure (cond, stmt))
    (fun _ => rfl) ?_
  rintro used rest ⟨cond, stmt⟩ errors
    ⟨word, _, _, _, _, rfl, -, nonempty, header, _, _, _, _, rfl, -, -,
      back, _, _, _, _, rfl, -, held, rfl, same, -⟩
  cases same
  rw [List.append_nil, ← List.append_assoc]
  have nonempty := List.append_ne_nil_of_left_ne_nil nonempty header
  refine ⟨List.append_ne_nil_of_left_ne_nil nonempty _, fun lower upper spread => ?_⟩
  exact arranged_of_child rfl rfl rfl (spread_child nonempty held spread)

/-- A statement with a mark in the front part of what was read for it, and its
statements behind that part. -/
theorem arranged_of_mark {stmt : Stmt} {mark : Span} {front back : List (Lexeme Token)}
    {lower upper : Nat} (only : stmt.marks = [mark]) (spans : stmt.span = spanOf (front ++ back))
    (nonempty : front ≠ []) (nonempty' : back ≠ [])
    (spread : Spread Lexeme.span lower upper (front ++ back))
    (inside : mark.Within (spanOf front).start (spanOf front).stop)
    (children : Spread Stmt.span (spanOf front).stop (spanOf (front ++ back)).stop stmt.children)
    (arranged : ∀ child ∈ stmt.children, child.Arranged) : stmt.Arranged := by
  have first := within_spanOf (spread.sublist (List.sublist_append_left front back)) nonempty
  have second := within_spanOf (spread_behind spread nonempty) nonempty'
  refine Stmt.arranged_iff.mpr ⟨⟨?_, ?_⟩, arranged⟩
  · rw [spans, start_spanOf_append nonempty]
    exact children.widen first.2.1 (Nat.le_refl _)
  · rw [only, List.forall_mem_singleton, spans, start_spanOf_append nonempty,
      stop_spanOf_append nonempty']
    refine ⟨inside.widen (Nat.le_refl _) ?_, fun child found => ?_⟩
    · unfold Span.Within at second
      omega
    · exact Nat.le_trans inside.2.2 (children.within_of_mem found).1

/-- The statement with a condition that has a branch for when it fails, or none. -/
def conditionalOf (parts : (Expr × Stmt × Option Stmt) × Span) : Stmt :=
  match parts with
  | ((cond, body, none), span) => .ifThen span cond body
  | ((cond, body, some otherwise), span) => .ifElse span cond body otherwise

theorem conditional_eq (reader : Parser Token Stmt) : conditional reader = labelled "if" (do
    let parts ← spanned do
      token (.keyword .ifWord)
      let cond ← condition
      let found ← reader
      let otherwise ← Parser.optional (elseBranch reader)
      return (cond, found, otherwise)
    return conditionalOf parts) := by
  unfold conditional
  congr 2
  funext ⟨⟨cond, found, otherwise⟩, span⟩
  cases otherwise <;> rfl

theorem conditional_laid (laid : body.Ensures Laid) : (conditional body).Ensures Laid := by
  have otherwise_laid : (elseBranch body).Ensures fun used _ stmt _ =>
      ∃ front back, used = front ++ back ∧ Laid back [] stmt [] := by
    refine ((token_consumes (Token.keyword .elseWord)).bind fun _ => laid).mono ?_
    rintro used rest stmt errors ⟨front, back, _, _, _, rfl, -, -, held⟩
    exact ⟨front, back, rfl, held⟩
  rw [conditional_eq]
  refine Ensures.labelled "if" (spanned_laid ((token_consumes (Token.keyword .ifWord)).bind fun _ =>
    condition_ensures.bind fun cond => laid.bind fun found => otherwise_laid.optional.bind
      fun otherwise => ensures_pure (cond, found, otherwise)) ?_ ?_)
  · rintro ⟨⟨cond, found, otherwise⟩, span⟩
    cases otherwise <;> rfl
  rintro used rest ⟨cond, found, otherwise⟩ errors
    ⟨word, _, _, _, _, rfl, -, nonempty, header, _, _, _, _, rfl, -, ⟨nonempty', inside⟩,
      middle, _, _, _, _, rfl, -, held, back, _, _, _, _, rfl, -, choice, rfl, same, -⟩
  cases same
  rw [List.append_nil, ← List.append_assoc]
  have headed := List.append_ne_nil_of_left_ne_nil nonempty header
  refine ⟨List.append_ne_nil_of_left_ne_nil headed _, fun lower upper spread => ?_⟩
  obtain ⟨taken, covered, arranged⟩ := held
  have marked : cond.span.Within (spanOf (word ++ header)).start (spanOf (word ++ header)).stop :=
    inside _ _ ((spread_cover (spread.sublist (List.sublist_append_left _ _))).sublist
      (List.sublist_append_right word header))
  have behind := spread_narrow (spread_behind spread headed)
  have taken' := List.append_ne_nil_of_left_ne_nil taken back
  have stops : (spanOf ((word ++ header) ++ (middle ++ back))).stop =
      (spanOf (middle ++ back)).stop := stop_spanOf_append taken'
  rw [← stops] at behind
  have own := behind.sublist (List.sublist_append_left middle back)
  have first : found.span.Within (spanOf (word ++ header)).stop
      (spanOf ((word ++ header) ++ (middle ++ back))).stop := by
    rw [covered]
    exact within_spanOf own taken
  rcases choice with ⟨last, rfl, front, more, rfl, nonempty'', covered', arranged'⟩ | ⟨rfl, -⟩
  · have other := (spread_behind behind taken).sublist (List.sublist_append_right front more)
    refine arranged_of_mark rfl rfl headed taken' spread marked ⟨first, ?_, trivial⟩ ?_
    · rw [covered, covered']
      exact within_spanOf other nonempty''
    · simpa [conditionalOf, Stmt.children] using ⟨arranged _ _ own, arranged' _ _ other⟩
  · exact arranged_of_mark rfl rfl headed taken' spread marked ⟨first, trivial⟩
      (by simpa [conditionalOf, Stmt.children] using arranged _ _ own)

theorem skipped_consumes : (do
    let _ ← many1 (noneOf [Token.semicolon, .braceOpen, .braceClose])
    Parser.optional (token Token.semicolon)).Ensures Consumes := by
  have taken : (many1 (noneOf [Token.semicolon, .braceOpen, .braceClose])).Ensures Consumes := by
    refine bind_consumes (select_consumes _ _) fun first => ?_
    exact advances_of ((many_advances (select_consumes _ _)).bind fun _ => ensures_pure _)
  exact bind_consumes taken fun _ => advances_of (token_consumes Token.semicolon).optional

theorem unreadable_laid : unreadable.Ensures Laid := by
  refine (skipped_consumes.spanned.bind fun found => (ensures_report found.2 .unrecognizedStatement).bind
    fun _ => ensures_pure (Stmt.error found.2)).mono ?_
  rintro used rest stmt errors ⟨front, _, ⟨found, span⟩, _, _, rfl, -, ⟨nonempty, covered⟩,
    _, _, _, _, _, rfl, -, ⟨rfl, -⟩, rfl, rfl, -⟩
  rw [List.append_nil, List.append_nil]
  exact ⟨nonempty, covered nonempty, fun _ _ _ => arranged_of_plain rfl rfl⟩

theorem stmtRule_laid (laid : body.Ensures Laid) : (stmtRule body).Ensures Laid := by
  have word : ∀ keyword, (do token (Token.keyword keyword); semicolon).Ensures Consumes :=
    fun keyword => bind_consumes (token_consumes _) fun _ => semicolon_advances
  have returned : returnStmt.Ensures Laid :=
    spanned_laid_plain (bind_consumes (token_consumes _) fun _ => advances_of
      (expr_covers.optional.bind fun _ => semicolon_advances.bind fun _ => ensures_pure _))
      (fun _ => rfl) (fun _ => rfl) fun _ => rfl
  have evaluated : exprStmt.Ensures Laid :=
    spanned_laid_plain (bind_consumes (consumes_of_covers expr_covers) fun _ => advances_of
      (semicolon_advances.bind fun _ => ensures_pure _)) (fun _ => rfl) (fun _ => rfl) fun _ => rfl
  refine Ensures.labelled "statement" ?_
  refine orElse_ensures (block_laid laid) (orElse_ensures (foreachLoop_laid laid)
    (orElse_ensures (conditional_laid laid) (orElse_ensures (whileLoop_laid laid) ?_)))
  refine orElse_ensures (spanned_laid_plain (word .continueWord) (fun _ => rfl) (fun _ => rfl)
    fun _ => rfl) (orElse_ensures (spanned_laid_plain (word .breakWord) (fun _ => rfl)
      (fun _ => rfl) fun _ => rfl) (orElse_ensures returned ?_))
  exact orElse_ensures (spanned_laid_plain (token_consumes Token.semicolon) (fun _ => rfl)
    (fun _ => rfl) fun _ => rfl) (orElse_ensures declStmt_laid
      (orElse_ensures evaluated unreadable_laid))

theorem stmt_laid : stmt.Ensures Laid :=
  ensures_recursive fun _ => stmtRule_laid

abbrev LaidItem : Post Token Item :=
  LaidAs Item.span Item.Arranged

/-- A way to make an item that is laid on what was read, once it is given the
span of that. -/
def Makes : Post Token (Span → Item) := fun used _ make _ =>
  LaidItem used [] (make (spanOf used)) []

/-- Values that were read between braces, or none. -/
def Inside {α : Type} (place : α → Span) (sound : α → Prop) : Post Token (List α) :=
  fun used _ values _ => used ≠ [] ∧ ∀ lower upper, Spread Lexeme.span lower upper used →
    Spread place lower upper values ∧ ∀ value ∈ values, sound value

theorem braced_inside {α : Type} {place : α → Span} {sound : α → Prop} {reader : Parser Token α}
    (laid : reader.Ensures (LaidAs place sound)) :
    (between (token .braceOpen) (token .braceClose) (many reader)).Ensures
      (Inside place sound) := by
  refine (braced_ensures laid).mono ?_
  rintro used rest values errors ⟨nonempty, inside⟩
  refine ⟨nonempty, fun lower upper spread => ?_⟩
  obtain ⟨within, soundness⟩ := inside lower upper spread
  have whole := within_spanOf spread nonempty
  exact ⟨within.widen (Nat.le_succ_of_le whole.1) whole.2.2, soundness⟩

variable {inner : Parser Token Item}

theorem members_inside (laid : inner.Ensures LaidItem) :
    (members inner).Ensures (Inside Item.span Item.Arranged) := by
  have skipped : (do
      let _ ← skipGroup Token.braceOpen .braceClose [(.parenOpen, .parenClose)]
      return ([] : List Item)).Ensures (Inside Item.span Item.Arranged) := by
    refine ((ensures_skipGroup _ _ _).bind fun _ => ensures_pure []).mono ?_
    rintro used rest values errors ⟨front, _, _, _, _, rfl, -, ⟨nonempty, -⟩, rfl, rfl, -⟩
    exact ⟨List.append_ne_nil_of_left_ne_nil nonempty _, fun _ _ _ => ⟨trivial, by simp⟩⟩
  refine ((braced_inside laid).recoverWith skipped).mono ?_
  rintro used rest values errors (held | ⟨own, error, -, held⟩) <;> exact held

theorem methodBody_inside : methodBody.Ensures fun used rest body errors =>
    Inside Stmt.span Stmt.Arranged used rest body.stmts errors := by
  have skipped : (do
      let span ← skipGroup Token.braceOpen .braceClose [(.parenOpen, .parenClose)]
      return (⟨[], span⟩ : MethodBody)).Ensures fun used rest body errors =>
        Inside Stmt.span Stmt.Arranged used rest body.stmts errors := by
    refine ((ensures_skipGroup _ _ _).bind fun _ => ensures_pure _).mono ?_
    rintro used rest values errors ⟨front, _, _, _, _, rfl, -, ⟨nonempty, -⟩, rfl, rfl, -⟩
    exact ⟨List.append_ne_nil_of_left_ne_nil nonempty _, fun _ _ _ => ⟨trivial, by simp⟩⟩
  refine (Ensures.recoverWith ((braced_inside stmt_laid).spanned.bind fun found =>
    ensures_pure (⟨found.1, found.2⟩ : MethodBody)) skipped).mono ?_
  rintro used rest values errors (held | ⟨own, error, -, held⟩)
  · obtain ⟨front, _, found, _, _, rfl, -, ⟨held, -⟩, rfl, rfl, -⟩ := held
    rw [List.append_nil]
    exact held
  · exact held

/-- An item whose parts stand at the end of what was read for it. -/
theorem laid_of_parts {item : Item} (front : List (Lexeme Token)) {back : List (Lexeme Token)}
    (spans : item.span = spanOf (front ++ back))
    (subitems : Inside Item.span Item.Arranged back [] item.subitems [])
    (stmts : Inside Stmt.span Stmt.Arranged back [] item.stmts []) :
    LaidItem (front ++ back) [] item [] := by
  refine ⟨List.append_ne_nil_of_right_ne_nil _ subitems.1, spans, fun lower upper spread => ?_⟩
  have own := (spread_cover spread).sublist (List.sublist_append_right front back)
  rw [← spans] at own
  obtain ⟨items_spread, items_arranged⟩ := subitems.2 _ _ own
  obtain ⟨stmts_spread, stmts_arranged⟩ := stmts.2 _ _ own
  exact .intro ⟨items_spread, stmts_spread⟩ items_arranged stmts_arranged

theorem inside_nil {α : Type} {place : α → Span} {sound : α → Prop}
    {used : List (Lexeme Token)} (nonempty : used ≠ []) : Inside place sound used [] [] [] :=
  ⟨nonempty, fun _ _ _ => ⟨trivial, by simp⟩⟩

/-- An item without parts. -/
theorem laid_plain {item : Item} {used : List (Lexeme Token)} (spans : item.span = spanOf used)
    (noItems : item.subitems = []) (noStmts : item.stmts = []) (nonempty : used ≠ []) :
    LaidItem used [] item [] := by
  refine laid_of_parts [] spans ?_ ?_
  · rw [noItems]
    exact inside_nil nonempty
  · rw [noStmts]
    exact inside_nil nonempty

theorem dottedName_consumes : dottedName.Ensures Consumes :=
  separated1_consumes Token.dot name_consumes

theorem modifiers_advance : (many modifier).Advances :=
  many_advances (select_consumes _ _)

theorem usingItem_makes : usingItem.Ensures Makes := by
  refine ((token_consumes (Token.keyword .usingWord)).bind fun _ => dottedName_consumes.bind
    fun path => semicolon_advances.bind fun _ => ensures_pure _).mono ?_
  rintro used rest make errors ⟨word, _, _, _, _, rfl, -, nonempty, _, _, _, _, _, rfl, -, -,
    _, _, _, _, _, rfl, -, -, rfl, rfl, -⟩
  exact laid_plain rfl rfl rfl (List.append_ne_nil_of_left_ne_nil nonempty _)

theorem namespaceItem_makes (laid : inner.Ensures LaidItem) :
    (namespaceItem inner).Ensures Makes := by
  refine ((token_consumes (Token.keyword .namespaceWord)).bind fun _ => dottedName_consumes.bind
    fun path => (members_inside laid).bind fun items => ensures_pure _).mono ?_
  rintro used rest make errors ⟨word, _, _, _, _, rfl, -, -, path, _, _, _, _, rfl, -, -,
    back, _, items, _, _, rfl, -, held, rfl, rfl, -⟩
  rw [List.append_nil, ← List.append_assoc]
  exact laid_of_parts _ rfl held (inside_nil held.1)

theorem classItem_makes (laid : inner.Ensures LaidItem) : (classItem inner).Ensures Makes := by
  refine (modifiers_advance.bind fun _ => (token_consumes (Token.keyword .classWord)).bind fun _ =>
    name_consumes.bind fun name => (members_inside laid).bind fun items =>
      ensures_pure _).mono ?_
  rintro used rest make errors ⟨front, _, _, _, _, rfl, -, -, word, _, _, _, _, rfl, -, -,
    name, _, _, _, _, rfl, -, -, back, _, items, _, _, rfl, -, held, rfl, rfl, -⟩
  rw [List.append_nil, ← List.append_assoc, ← List.append_assoc]
  exact laid_of_parts _ rfl held (inside_nil held.1)

theorem methodItem_makes : methodItem.Ensures Makes := by
  have param_consumes : param.Ensures Consumes :=
    bind_consumes type_consumes fun _ => advances_of (name_consumes.bind fun _ => ensures_pure _)
  refine Ensures.labelled "method" ((modifiers_advance.bind fun _ => type_consumes.bind fun _ =>
    name_consumes.bind fun name => (between_consumes Token.parenOpen .parenClose (separated_advances Token.comma
      param_consumes)).bind fun params => methodBody_inside.bind fun body =>
        ensures_pure _).mono ?_)
  rintro used rest make errors ⟨front, _, _, _, _, rfl, -, -, type, _, _, _, _, rfl, -, -,
    name, _, _, _, _, rfl, -, -, params, _, _, _, _, rfl, -, -,
    back, _, items, _, _, rfl, -, held, rfl, rfl, -⟩
  rw [List.append_nil, ← List.append_assoc, ← List.append_assoc, ← List.append_assoc]
  exact laid_of_parts _ rfl (inside_nil held.1) held

theorem fieldItem_makes : fieldItem.Ensures Makes := by
  have modifiers : (many1 modifier).Ensures Consumes :=
    bind_consumes (select_consumes _ _) fun _ =>
      advances_of (modifiers_advance.bind fun _ => ensures_pure _)
  refine (modifiers.bind fun _ => localDecl_ensures.bind fun decl => semicolon_advances.bind
    fun _ => ensures_pure _).mono ?_
  rintro used rest make errors ⟨front, _, _, _, _, rfl, -, nonempty, _, _, _, _, _, rfl, -, -,
    _, _, _, _, _, rfl, -, -, rfl, rfl, -⟩
  exact laid_plain rfl rfl rfl (List.append_ne_nil_of_left_ne_nil nonempty _)

theorem stmtItem_makes : stmtItem.Ensures Makes := by
  refine (stmt_laid.bind fun stmt => ensures_pure _).mono ?_
  rintro used rest make errors ⟨front, _, stmt, _, _, rfl, -, ⟨nonempty, covered, arranged⟩,
    rfl, rfl, -⟩
  rw [List.append_nil]
  refine laid_of_parts [] rfl (inside_nil nonempty) ⟨nonempty, fun lower upper spread =>
    ⟨⟨?_, trivial⟩, ?_⟩⟩
  · rw [covered]
    exact within_spanOf spread nonempty
  · simpa [Item.stmts] using arranged _ _ spread

theorem itemRule_laid (laid : inner.Ensures LaidItem) : (itemRule inner).Ensures LaidItem := by
  refine ((orElse_ensures usingItem_makes (orElse_ensures (namespaceItem_makes laid)
    (orElse_ensures (classItem_makes laid) (orElse_ensures methodItem_makes
      (orElse_ensures fieldItem_makes stmtItem_makes))))).spanned.bind fun found =>
        ensures_pure (found.1 found.2)).mono ?_
  rintro used rest value errors ⟨front, _, ⟨make, span⟩, _, _, rfl, -, ⟨held, covered⟩,
    rfl, rfl, -⟩
  obtain rfl := covered held.1
  rw [List.append_nil]
  exact held

theorem item_laid : item.Ensures LaidItem :=
  ensures_recursive fun _ => itemRule_laid

theorem sourceTree_arranged : sourceTree.Ensures fun used _ tree _ =>
    ∀ length, Spread Lexeme.span 0 length used → tree.Arranged length := by
  have step : (skipAndRetry item).Ensures (Among Item.span Item.Arranged) := by
    refine item_laid.skipAndRetry.mono ?_
    rintro used rest value errors (held | ⟨dropped, own, error, rfl, -, held⟩)
    · exact ⟨[], used, [], (List.append_nil used).symm, held⟩
    · exact ⟨dropped, own, [], by rw [List.append_nil], held⟩
  refine ((step.many nonempty_of_among).bind fun items =>
    ensures_pure (⟨items⟩ : SourceTree)).mono ?_
  rintro used rest tree errors ⟨front, _, items, _, _, rfl, -, ⟨repeated, -⟩, rfl, rfl, -⟩
    length spread
  rw [List.append_nil] at spread
  obtain ⟨within, arranged⟩ := spread_of_repeats repeated spread
  exact ⟨within, arranged⟩

end Grammar

namespace Token

theorem spread_charLexemes (offset : Nat) (chars : List Char) :
    Spread Lexeme.span offset (offset + Text.byteLength chars) (charLexemes offset chars) := by
  induction chars generalizing offset with
  | nil => trivial
  | cons c rest ih =>
      have positive := c.utf8Size_pos
      have behind := ih (offset + c.utf8Size)
      rw [Nat.add_assoc] at behind
      refine ⟨⟨Nat.le_refl _, ?_, ?_⟩, behind⟩
      · simp only
        omega
      · simp only [Text.byteLength_cons]
        omega

namespace Lexer

theorem takes_dropBlanks (rest : List (Lexeme Char)) (cursor : Cursor Char)
    (same : cursor.rest = rest) : ∃ used, cursor.Takes used (dropBlanks rest cursor) ∧
      ∀ lexeme ∈ used, Text.isBlank lexeme.token = true := by
  induction rest generalizing cursor with
  | nil => exact ⟨[], .refl cursor, by simp⟩
  | cons lexeme rest ih =>
      rw [dropBlanks]
      split
      · rename_i isBlank
        obtain ⟨used, taken, allBlank⟩ :=
          ih ⟨rest, cursor.index + 1, lexeme.span.stop, cursor.inputStop⟩ rfl
        have first : cursor.Takes [lexeme]
            ⟨rest, cursor.index + 1, lexeme.span.stop, cursor.inputStop⟩ := ⟨same, rfl, rfl⟩
        exact ⟨[lexeme] ++ used, first.trans taken, List.forall_mem_cons.mpr ⟨isBlank, allBlank⟩⟩
      · exact ⟨[], .refl cursor, by simp⟩

theorem ensures_blanks : blanks.Ensures fun used _ _ errors =>
    (∀ lexeme ∈ used, Text.isBlank lexeme.token = true) ∧ errors = [] := by
  intro cursor furthest value after errors furthest' accepted
  cases accepted
  obtain ⟨used, taken, allBlank⟩ := takes_dropBlanks cursor.rest cursor rfl
  exact ⟨used, taken, allBlank, rfl⟩

theorem blanks_advances : blanks.Advances :=
  advances_of ensures_blanks

theorem satisfy_consumes (label : String) (holds : Char → Bool) :
    (satisfy label holds).Ensures Consumes := by
  intro cursor furthest value after errors furthest' accepted
  unfold satisfy at accepted
  split at accepted
  · simp at accepted
  · rename_i lexeme behind found
    split at accepted
    · cases accepted
      exact ⟨[lexeme], .next found, List.cons_ne_nil _ _⟩
    · simp at accepted

theorem exactly_advances : ∀ chars, (exactly chars).Advances
  | [] => advances_of (ensures_pure ())
  | c :: rest => advances_of ((token_consumes c).bind fun _ => exactly_advances rest)

theorem exactly_consumes (c : Char) (rest : List Char) : (exactly (c :: rest)).Ensures Consumes :=
  bind_consumes (token_consumes c) fun _ => exactly_advances rest

theorem lineStop_advances : lineStop.Advances := by
  refine orElse_ensures ?_ ?_
  · intro cursor furthest value after errors furthest' accepted
    unfold lineEnd at accepted
    split at accepted
    · simp at accepted
    · rename_i lexeme behind found
      split at accepted
      · split at accepted
        · rename_i following last found'
          split at accepted
          · cases accepted
            exact ⟨_, (Cursor.Takes.next found).trans (.next found'), trivial⟩
          · cases accepted
            exact ⟨_, .next found, trivial⟩
        · cases accepted
          exact ⟨_, .next found, trivial⟩
      · split at accepted
        · cases accepted
          exact ⟨_, .next found, trivial⟩
        · simp at accepted
  · intro cursor furthest value after errors furthest' accepted
    unfold endOfInput at accepted
    split at accepted
    · cases accepted
      exact ⟨[], .refl _, trivial⟩
    · simp at accepted

theorem wholeNumber_consumes : wholeNumber.Ensures Consumes :=
  orElse_ensures
    (bind_consumes (satisfy_consumes _ _) fun _ =>
      advances_of ((many_advances (satisfy_consumes _ _)).bind fun _ => ensures_pure _))
    (bind_consumes (token_consumes _) fun _ => advances_of (ensures_pure _))

theorem anyOf_consumes {otherwise : Parser Char Token} (last : otherwise.Ensures Consumes)
    (signs : List (List Char × Token)) (nonempty : ∀ sign ∈ signs, sign.1 ≠ []) :
    (anyOf signs otherwise).Ensures Consumes := by
  induction signs with
  | nil => exact last
  | cons sign signs ih =>
      obtain ⟨first, others⟩ := List.forall_mem_cons.mp nonempty
      obtain ⟨chars, result⟩ := sign
      obtain ⟨c, rest, rfl⟩ := List.exists_cons_of_ne_nil first
      exact orElse_ensures (bind_consumes (exactly_consumes c rest) fun _ =>
        advances_of (ensures_pure _)) (ih others)

theorem one_consumes : one.Ensures Consumes := by
  have ending : ∀ {α : Type} (value : α), (pure value : Parser Char α).Advances :=
    fun value => advances_of (ensures_pure value)
  have several : ∀ {α β : Type} {reader : Parser Char α}, reader.Ensures Consumes →
      ∀ make : List α → β, (do let found ← many reader; return make found).Advances :=
    fun taken make => advances_of ((many_advances taken).bind fun found => ending (make found))
  have anything : ∀ {α : Type} (also : Parser Char α), (andAlso anyToken also).Ensures Consumes :=
    fun _ => (select_consumes _ _).andAlso
  have part : stringPart.Ensures Consumes :=
    orElse_ensures (bind_consumes (select_consumes _ _) fun _ => ending _)
      (bind_consumes (token_consumes _) fun _ =>
        advances_of ((select_consumes _ _).bind fun _ => ending _))
  refine orElse_ensures ?_ (orElse_ensures ?_ (orElse_ensures ?_ (orElse_ensures ?_
    (orElse_ensures ?_ (orElse_ensures ?_ (orElse_ensures ?_ (orElse_ensures ?_ ?_)))))))
  · exact bind_consumes (exactly_consumes _ _) fun _ => advances_of
      ((many_advances (anything _)).bind fun _ => lineStop_advances.bind fun _ => ending _)
  · exact bind_consumes (exactly_consumes _ _) fun _ => advances_of
      ((many_advances (anything _)).bind fun _ => (exactly_advances _).bind fun _ => ending _)
  · exact bind_consumes wholeNumber_consumes fun _ => advances_of ((token_consumes '.').bind
      fun _ => (bind_consumes (satisfy_consumes _ _) fun _ =>
        several (satisfy_consumes _ _) _).bind fun _ => ending _)
  · exact bind_consumes wholeNumber_consumes fun _ => ending _
  · exact bind_consumes (between_consumes '"' '"' (many_advances part)) fun _ => ending _
  · exact bind_consumes (satisfy_consumes _ _) fun _ => several (satisfy_consumes _ _) _
  · exact anyOf_consumes (bind_consumes (select_consumes _ _) fun _ => ending _) _ (by decide)
  · exact bind_consumes (select_consumes _ _) fun _ => ending _
  · exact bind_consumes (select_consumes _ _) fun _ => ending _

/-- A token is laid on its own characters, without the blanks around it. -/
theorem lexeme_among : lexeme.Ensures (Grammar.Among Lexeme.span fun _ => True) := by
  refine (blanks_advances.bind fun _ => one_consumes.spanned.bind fun found =>
    blanks_advances.bind fun _ => ensures_pure (⟨found.1, found.2⟩ : Lexeme Token)).mono ?_
  rintro used rest value errors ⟨front, _, _, _, _, rfl, -, -, own, _, found, _, _, rfl, -,
    ⟨nonempty, covered⟩, back, _, _, _, _, rfl, -, -, rfl, rfl, -⟩
  refine ⟨front, own, back, by rw [List.append_nil], nonempty, covered nonempty, ?_⟩
  exact fun _ _ _ => trivial

theorem lexeme_consumes : lexeme.Ensures Consumes := by
  refine lexeme_among.mono ?_
  rintro used rest found errors ⟨front, own, back, rfl, nonempty, -⟩
  exact List.append_ne_nil_of_right_ne_nil front (List.append_ne_nil_of_left_ne_nil nonempty back)

end Lexer

/-- The tokens of a text lie one behind the other. -/
theorem spread_lex {source : String} {lexemes : List (Lexeme Token)}
    {errors : List (SyntaxError Char)} (read : lex source = (some lexemes, errors)) :
    Spread Lexeme.span 0 (Text.byteLength source.toList) lexemes := by
  have step : (skipAndRetry Lexer.lexeme).Ensures
      (Grammar.Among Lexeme.span fun _ => True) := by
    refine Lexer.lexeme_among.skipAndRetry.mono ?_
    rintro used rest value errors (held | ⟨dropped, own, error, rfl, -, held⟩)
    · exact held
    · obtain ⟨front, own, back, rfl, held⟩ := held
      exact ⟨dropped ++ front, own, back, by rw [List.append_assoc], held⟩
  have ensured : Lexer.lexemes.Ensures fun used _ values _ => ∀ lower upper,
      Spread Lexeme.span lower upper used → Spread Lexeme.span lower upper values := by
    refine (Lexer.blanks_advances.bind fun _ => (step.many Grammar.nonempty_of_among).bind
      fun found => Lexer.blanks_advances.bind fun _ => ensures_pure found).mono ?_
    rintro used rest values errors ⟨front, _, _, _, _, rfl, -, -, own, _, found, _, _, rfl, -,
      ⟨repeated, -⟩, back, _, _, _, _, rfl, -, -, rfl, rfl, -⟩ lower upper spread
    refine (Grammar.spread_of_repeats repeated (spread.sublist ?_)).1
    exact (List.sublist_append_left own _).trans (List.sublist_append_right front _)
  have spread := spread_charLexemes 0 source.toList
  rw [Nat.zero_add] at spread
  exact ensured.run read 0 _ spread

end Token

namespace SourceTree

/-- The tree of a source text is empty, or what the grammar reads in the tokens of the
text other than comments. -/
theorem parse_cases (source : String) :
    (parse source).1 = ⟨[]⟩ ∨ ∃ lexemes lexical errors,
      Token.lex source = (some lexemes, lexical) ∧
      Grammar.sourceTree.run (lexemes.filter fun lexeme => !lexeme.token.isComment)
        (Text.byteLength source.toList) = (some (parse source).1, errors) := by
  unfold parse
  cases read : Token.lex source with
  | mk lexemes lexical =>
      cases lexemes with
      | none => exact .inl rfl
      | some lexemes =>
          simp only [ofLexemes]
          cases ran : Grammar.sourceTree.run
              (lexemes.filter fun lexeme => !lexeme.token.isComment)
              (Text.byteLength source.toList) with
          | mk tree errors =>
              cases tree with
              | none => exact .inl rfl
              | some tree => exact .inr ⟨lexemes, lexical, errors, rfl, ran⟩

/-- Whatever a source text looks like, the statements of its tree lie in it as they
nest in the tree. -/
theorem arranged_parse (source : String) :
    (parse source).1.Arranged (Text.byteLength source.toList) := by
  cases parse_cases source with
  | inl empty =>
      rw [empty]
      exact ⟨trivial, by simp⟩
  | inr found =>
      obtain ⟨lexemes, lexical, errors, read, ran⟩ := found
      exact Grammar.sourceTree_arranged.run ran _
        ((Token.spread_lex read).sublist List.filter_sublist)

end SourceTree

end QueryLoop
