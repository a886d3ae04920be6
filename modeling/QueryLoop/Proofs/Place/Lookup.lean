import QueryLoop.Proofs.Place.Nested
import QueryLoop.Proofs.Place.Parsed

namespace QueryLoop

/-! The grammar reads nested trees.

A reader lays down outlines if those of its value lie on the lexemes it took, and in line
wherever these lie in line.  Readers that run one after the other lay down their outlines
one after the other.  A node that covers what was read for it and has nothing but these
outlines inside is nested then, whatever errors were reported on the way.
-/

open Parsing Parser

theorem Parsing.Parser.Ensures.forall {τ α ι : Type} [Nonempty ι] {reader : Parser τ α}
    {post : ι → Post τ α} (ensured : ∀ index, reader.Ensures (post index)) :
    reader.Ensures fun used rest value errors => ∀ index, post index used rest value errors := by
  intro cursor furthest value after errors furthest' accepted
  obtain ⟨first⟩ := ‹Nonempty ι›
  obtain ⟨used, taken, -⟩ := ensured first accepted
  refine ⟨used, taken, fun index => ?_⟩
  obtain ⟨used', taken', held⟩ := ensured index accepted
  have same : used' = used := List.append_cancel_right (taken'.rest.symm.trans taken.rest)
  exact same ▸ held

namespace Outline

/-- In line wherever the lexemes lie in line, and every node on some of the lexemes. -/
structure LaidIn (used : List (Lexeme Token)) (outlines : List Outline) : Prop where
  inLine : ∀ lower upper, Spread Lexeme.span lower upper used → InLine lower upper outlines
  onLexemes : ∀ outline ∈ outlines, ∀ node ∈ outline.preorder, OnLexemes used node.span

variable {lower upper : Nat} {used more : List (Lexeme Token)} {outlines others : List Outline}

theorem InLine.nil : InLine lower upper [] :=
  ⟨trivial, by simp⟩

theorem laidIn_nil (used : List (Lexeme Token)) : LaidIn used [] :=
  ⟨fun _ _ _ => .nil, by simp⟩

/-- Nothing lies in an empty range. -/
theorem InLine.eq_nil (line : InLine lower lower outlines) : outlines = [] := by
  cases outlines with
  | nil => rfl
  | cons outline outlines =>
      have within := line.spread.1
      unfold Span.Within at within
      omega

theorem LaidIn.append (front : LaidIn used outlines) (back : LaidIn more others) :
    LaidIn (used ++ more) (outlines ++ others) := by
  refine ⟨fun lower upper spread => ?_, List.forall_mem_append.mpr ⟨?_, ?_⟩⟩
  · by_cases nothing : used = []
    · subst nothing
      rw [(front.inLine lower lower trivial).eq_nil]
      exact back.inLine lower upper spread
    · have taken := spread.sublist (List.sublist_append_left used more)
      have early := front.inLine _ _ (spread_narrow taken)
      have late := back.inLine _ _ (spread_behind spread nothing)
      have whole := within_spanOf taken nothing
      refine ⟨early.spread.append late.spread ?_ whole.2.2,
        List.forall_mem_append.mpr ⟨early.nested, late.nested⟩⟩
      unfold Span.Within at whole
      omega
  · exact fun outline listed node inside =>
      (front.onLexemes outline listed node inside).mono (List.subset_append_left used more)
  · exact fun outline listed node inside =>
      (back.onLexemes outline listed node inside).mono (List.subset_append_right used more)

theorem LaidIn.behind (laid : LaidIn more outlines) (used : List (Lexeme Token)) :
    LaidIn (used ++ more) outlines :=
  (laidIn_nil used).append laid

/-- An outline that covers the lexemes its parts are laid in. -/
theorem LaidIn.whole {outline : Outline} (laid : LaidIn used outline.parts) (nonempty : used ≠ [])
    (covers : outline.span = spanOf used) : LaidIn used [outline] := by
  refine ⟨fun lower upper spread => ?_, List.forall_mem_singleton.mpr ?_⟩
  · have inside := laid.inLine _ _ (spread_cover spread)
    rw [← covers] at inside
    refine ⟨⟨?_, trivial⟩, List.forall_mem_singleton.mpr ?_⟩
    · rw [covers]
      exact within_spanOf spread nonempty
    · cases outline with
      | mk node parts => exact .mk inside.spread inside.nested
  · rw [preorder_eq, preorderAll_eq_flatMap, List.forall_mem_cons, List.forall_mem_flatMap]
    refine ⟨?_, laid.onLexemes⟩
    rw [← span, covers]
    exact onLexemes_spanOf nonempty

end Outline

namespace Grammar

open Outline

/-- The outlines of the value are laid in what was read. -/
def Lays {α : Type} (parts : α → List Outline) : Post Token α := fun used _ value _ =>
  LaidIn used (parts value)

/-- What was read adds the outlines of the value that come behind `ahead`. -/
def Adds {α : Type} (ahead : List Outline) (parts : α → List Outline) : Post Token α :=
  fun used _ value _ => ∃ more, parts value = ahead ++ more ∧ LaidIn used more

variable {α β : Type} {reader : Parser Token α} {parts : α → List Outline}

theorem lays_nothing {post : Post Token α} (ensured : reader.Ensures post) :
    reader.Ensures (Lays fun _ => []) :=
  ensured.mono fun used _ _ _ _ => laidIn_nil used

theorem adds_pure {ahead : List Outline} {value : α} (shape : parts value = ahead) :
    (pure value : Parser Token α).Ensures (Adds ahead parts) := by
  refine (ensures_pure value).mono ?_
  intro used rest found errors held
  obtain ⟨rfl, rfl, -⟩ := held
  exact ⟨[], by rw [shape, List.append_nil], laidIn_nil []⟩

theorem adds_bind {ahead : List Outline} {next : α → Parser Token β} {whole : β → List Outline}
    (lays : reader.Ensures (Lays parts))
    (following : ∀ value, (next value).Ensures (Adds (ahead ++ parts value) whole)) :
    (reader >>= next).Ensures (Adds ahead whole) := by
  refine (lays.bind following).mono ?_
  intro used rest result errors held
  obtain ⟨front, back, value, early, late, rfl, -, first, more, shape, second⟩ := held
  exact ⟨parts value ++ more, by rw [shape, List.append_assoc], first.append second⟩

theorem lays_of_adds (adds : reader.Ensures (Adds [] parts)) : reader.Ensures (Lays parts) := by
  refine adds.mono ?_
  intro used rest value errors held
  obtain ⟨more, shape, laid⟩ := held
  rw [List.nil_append] at shape
  rwa [Lays, shape]

theorem lays_spanned (lays : reader.Ensures (Lays parts)) :
    (spanned reader).Ensures (Lays fun found => parts found.1) :=
  lays.spanned.mono fun _ _ _ _ held => held.1

theorem adds_of_lays (lays : reader.Ensures (Lays parts)) : reader.Ensures (Adds [] parts) :=
  lays.mono fun _ _ _ _ laid => ⟨_, rfl, laid⟩

/-- A value made from what was read and from its span. -/
theorem lays_made (parts : α → List Outline) {make : α × Span → β} {whole : β → List Outline}
    (lays : reader.Ensures (Lays parts)) (shape : ∀ found, whole (make found) = parts found.1) :
    (do let found ← spanned reader; return make found).Ensures (Lays whole) :=
  lays_of_adds (adds_bind (lays_spanned lays) fun found => adds_pure (shape found))

theorem lays_between (opening closing : Token) (lays : reader.Ensures (Lays parts)) :
    (between (token opening) (token closing) reader).Ensures (Lays parts) := by
  refine (Ensures.between (token_consumes opening) (token_consumes closing) lays).mono ?_
  intro used rest value errors held
  obtain ⟨front, middle, back, _, _, _, rfl, -, -, laid, -⟩ := held
  have closed := laid.append (laidIn_nil back)
  rw [List.append_nil] at closed
  exact closed.behind front

theorem lays_optional (lays : reader.Ensures (Lays parts)) :
    (Parser.optional reader).Ensures (Lays fun found => found.toList.flatMap parts) := by
  refine lays.optional.mono ?_
  intro used rest value errors held
  cases held with
  | inl found =>
      obtain ⟨found, rfl, laid⟩ := found
      simpa [Lays] using laid
  | inr none =>
      obtain ⟨rfl, -⟩ := none
      exact laidIn_nil used

theorem laidIn_of_repeats {post : Post Token α} {used rest : List (Lexeme Token)} {values : List α}
    {errors : List (SyntaxError Token)}
    (laid : ∀ used rest value errors, post used rest value errors → LaidIn used (parts value))
    (repeated : Repeats post used rest values errors) : LaidIn used (values.flatMap parts) := by
  induction repeated with
  | nil rest => exact laidIn_nil []
  | cons first following ih =>
      rw [List.flatMap_cons]
      exact (laid _ _ _ _ first).append ih

theorem lays_many (lays : reader.Ensures (Lays parts)) (taken : reader.Ensures Consumes) :
    (many reader).Ensures (Lays fun values => values.flatMap parts) :=
  ((lays.and taken).many fun _ _ _ _ held => held.2).mono fun _ _ _ _ held =>
    laidIn_of_repeats (fun _ _ _ _ held => held.1) held.1

theorem lays_separated1 (mark : Token) (lays : reader.Ensures (Lays parts)) :
    (separated1 reader (token mark)).Ensures (Lays fun values => values.flatMap parts) := by
  refine (lays.separated1 (token_consumes mark) fun _ _ _ _ taken => taken).mono ?_
  intro used rest values errors held
  obtain ⟨front, back, value, others, _, _, rfl, -, rfl, first, repeated⟩ := held
  refine LaidIn.append first (laidIn_of_repeats ?_ repeated)
  intro used rest value errors held
  obtain ⟨comma, own, _, _, rfl, -, -, laid⟩ := held
  exact laid.behind comma

theorem lays_separated (mark : Token) (lays : reader.Ensures (Lays parts)) :
    (separated reader (token mark)).Ensures (Lays fun values => values.flatMap parts) :=
  orElse_ensures (lays_separated1 mark lays)
    (lays_of_adds (adds_pure rfl))

theorem lays_recoverWith {instead : Parser Token α} (lays : reader.Ensures (Lays parts))
    (replaced : instead.Ensures (Lays parts)) :
    (recoverWith instead reader).Ensures (Lays parts) := by
  refine (lays.recoverWith replaced).mono ?_
  intro used rest value errors held
  cases held with
  | inl held => exact held
  | inr held =>
      obtain ⟨own, error, -, held⟩ := held
      exact held

/-- The outline covers what was read and is nested. -/
def Whole (outline : Outline) (used : List (Lexeme Token)) : Prop :=
  used ≠ [] ∧ outline.span = spanOf used ∧ LaidIn used [outline]

abbrev ReadsWhole {α : Type} (outline : α → Outline) : Post Token α := fun used _ value _ =>
  Whole (outline value) used

theorem whole_of_parts {place : α → Span} {outline : α → Outline}
    (covered : reader.Ensures (Covers place))
    (lays : reader.Ensures (Lays fun value => (outline value).parts))
    (span_eq : ∀ value, (outline value).span = place value) :
    reader.Ensures (ReadsWhole outline) := by
  refine (covered.and lays).mono ?_
  intro used rest value errors held
  obtain ⟨⟨nonempty, covers⟩, laid⟩ := held
  have covers := (span_eq value).trans covers
  exact ⟨nonempty, covers, LaidIn.whole laid nonempty covers⟩

theorem lays_of_whole {outline : α → Outline} (whole : reader.Ensures (ReadsWhole outline)) :
    reader.Ensures (Lays fun value => [outline value]) :=
  whole.mono fun _ _ _ _ held => held.2.2

theorem span_outline_expr (expr : Expr) : expr.outline.span = expr.span := by
  rw [Expr.outline_eq]
  rfl

variable {inner : Parser Token Expr}

theorem covers_of_whole (whole : inner.Ensures (ReadsWhole Expr.outline)) :
    inner.Ensures (Covers Expr.span) :=
  whole.mono fun _ _ value _ held => ⟨held.1, (span_outline_expr value).symm.trans held.2.1⟩

theorem Whole.of_parts {expr : Expr} {used : List (Lexeme Token)} (nonempty : used ≠ [])
    (covers : expr.span = spanOf used) (laid : LaidIn used expr.outline.parts) :
    Whole expr.outline used := by
  rw [← span_outline_expr] at covers
  exact ⟨nonempty, covers, laid.whole nonempty covers⟩

theorem lays_exprs (lays : inner.Ensures (ReadsWhole Expr.outline)) (mark : Token) :
    (separated inner (token mark)).Ensures (Lays Expr.outlines) := by
  refine (lays_separated mark (lays_of_whole lays)).mono ?_
  intro used rest values errors held
  rw [Lays, Expr.outlines_eq_map, ← List.flatMap_pure_eq_map]
  exact held

theorem lays_arguments (whole : inner.Ensures (ReadsWhole Expr.outline)) :
    (arguments inner).Ensures (Lays Expr.outlines) :=
  Ensures.labelled "arguments" (lays_between Token.parenOpen .parenClose (lays_exprs whole .comma))

theorem literal_whole : literal.Ensures (ReadsWhole Expr.outline) := by
  apply whole_of_parts literal_covers _ span_outline_expr
  apply Ensures.labelled "literal"
  exact lays_made _ (lays_nothing (select_consumes _ _)) fun _ => rfl

theorem lambda_whole (whole : inner.Ensures (ReadsWhole Expr.outline)) :
    (lambda inner).Ensures (ReadsWhole Expr.outline) := by
  apply whole_of_parts (lambda_covers (covers_of_whole whole)) _ span_outline_expr
  apply Ensures.labelled "lambda"
  refine lays_made (fun found => [found.2.outline]) ?_ fun _ => rfl
  apply lays_of_adds
  refine adds_bind (lays_nothing name_consumes) fun param => ?_
  refine adds_bind (lays_nothing (token_consumes _)) fun _ => ?_
  exact adds_bind (lays_of_whole whole) fun body => adds_pure rfl

theorem newObject_whole (whole : inner.Ensures (ReadsWhole Expr.outline)) :
    (newObject inner).Ensures (ReadsWhole Expr.outline) := by
  apply whole_of_parts (newObject_covers (covers_of_whole whole)) _ span_outline_expr
  refine lays_made (fun found => Expr.outlines found.2) ?_ fun _ => rfl
  apply lays_of_adds
  refine adds_bind (lays_nothing (token_consumes _)) fun _ => ?_
  refine adds_bind (lays_nothing type_consumes) fun type => ?_
  exact adds_bind (lays_arguments whole) fun args => adds_pure rfl

theorem ident_whole : ident.Ensures (ReadsWhole Expr.outline) :=
  whole_of_parts ident_covers (lays_made _ (lays_nothing name_consumes) fun _ => rfl)
    span_outline_expr

theorem paren_whole (whole : inner.Ensures (ReadsWhole Expr.outline)) :
    (paren inner).Ensures (ReadsWhole Expr.outline) := by
  apply whole_of_parts (paren_covers (covers_of_whole whole)) _ span_outline_expr
  apply lays_recoverWith
  · exact lays_made _ (lays_between _ _ (lays_of_whole whole)) fun _ => rfl
  · apply lays_of_adds
    exact adds_bind (lays_nothing (ensures_skipGroup _ _ _)) fun span => adds_pure rfl

theorem atom_whole (whole : inner.Ensures (ReadsWhole Expr.outline)) :
    (atom inner).Ensures (ReadsWhole Expr.outline) :=
  orElse_ensures literal_whole (orElse_ensures (lambda_whole whole)
    (orElse_ensures (newObject_whole whole) (orElse_ensures ident_whole (paren_whole whole))))

/-- The expressions inside a suffix. -/
def Suffix.outlines : Suffix → List Outline
  | .member _ _ => []
  | .call args => Expr.outlines args
  | .index position => [position.outline]

theorem Suffix.parts_attach (target : Expr) (suffix : Suffix × Span) :
    (Suffix.attach target suffix).outline.parts = target.outline :: suffix.1.outlines := by
  obtain ⟨suffix, span⟩ := suffix
  cases suffix <;> rfl

theorem lays_suffix (whole : inner.Ensures (ReadsWhole Expr.outline)) :
    (spanned memberSuffix <|> spanned (callSuffix inner) <|> spanned (indexSuffix inner)).Ensures
      (Lays fun suffix => suffix.1.outlines) := by
  refine orElse_ensures (lays_spanned ?member)
    (orElse_ensures (lays_spanned ?call) (lays_spanned ?index))
  case member =>
    apply lays_of_adds
    refine adds_bind (lays_nothing (token_consumes _)) fun _ => ?_
    refine adds_bind (lays_nothing name_consumes) fun name => ?_
    exact adds_bind (lays_nothing memberTypeArgs_consumes.optional) fun _ => adds_pure rfl
  case call => exact lays_of_adds (adds_bind (lays_arguments whole) fun args => adds_pure rfl)
  case index =>
    exact lays_of_adds (adds_bind (lays_between _ _ (lays_of_whole whole)) fun position =>
      adds_pure rfl)

/-- What is read behind an expression extends it. -/
theorem Whole.extend {target expr : Expr} {last : Span} {outlines : List Outline}
    {front used : List (Lexeme Token)} (first : Whole target.outline front) (nonempty : used ≠ [])
    (stops : last.stop = (spanOf used).stop) (laid : LaidIn used outlines)
    (span_eq : expr.span = target.span.through last)
    (parts_eq : expr.outline.parts = target.outline :: outlines) :
    Whole expr.outline (front ++ used) := by
  obtain ⟨taken, covers, inLine⟩ := first
  rw [span_outline_expr] at covers
  refine .of_parts (List.append_ne_nil_of_left_ne_nil taken used) ?_ ?_
  · rw [span_eq, covers, spanOf_append taken nonempty, Span.through, Span.through, stops]
  · rw [parts_eq]
    exact inLine.append laid

/-- A fold over what was read behind a whole keeps a whole as long as each step does. -/
theorem whole_foldl {step : Expr → α → Expr} {post : Post Token α}
    (steps : ∀ front used rest target part errors, Whole target.outline front →
      post used rest part errors → Whole (step target part).outline (front ++ used))
    {front used rest : List (Lexeme Token)} {parts : List α} {errors : List (SyntaxError Token)}
    (repeated : Repeats post used rest parts errors) {target : Expr}
    (first : Whole target.outline front) :
    Whole (parts.foldl step target).outline (front ++ used) := by
  induction repeated generalizing front target with
  | nil rest =>
      rw [List.append_nil]
      exact first
  | cons held following ih =>
      rw [List.foldl_cons, ← List.append_assoc]
      exact ih (steps _ _ _ _ _ _ first held)

theorem postfixed_whole (whole : inner.Ensures (ReadsWhole Expr.outline)) :
    (postfixed inner).Ensures (ReadsWhole Expr.outline) := by
  have suffix := (suffix_covers (covers_of_whole whole)).and (lays_suffix whole)
  refine ((atom_whole whole).bind fun target => (suffix.many fun _ _ _ _ held => held.1.1).bind
    fun suffixes => ensures_pure _).mono ?_
  intro used rest value errors held
  obtain ⟨front, _, target, _, _, rfl, -, first, back, _, suffixes, _, _, rfl, -,
    ⟨repeated, -⟩, rfl, rfl, -⟩ := held
  rw [List.append_nil]
  refine whole_foldl (fun front used rest target suffix errors first held => ?_) repeated first
  obtain ⟨⟨nonempty, covers⟩, laid⟩ := held
  exact first.extend nonempty (congrArg Span.stop covers) laid (Suffix.span_attach _ _)
    (Suffix.parts_attach _ _)

/-- A unary sign in front of an expression. -/
theorem Whole.signed {operand : Expr} {op : UnaryOp} {span : Span}
    {used back : List (Lexeme Token)} (last : Whole operand.outline back) (nonempty : used ≠ [])
    (covers : span = spanOf used) :
    Whole (Expr.unary (span.through operand.span) op operand).outline (used ++ back) := by
  obtain ⟨taken, covers', inLine⟩ := last
  rw [span_outline_expr] at covers'
  refine .of_parts (List.append_ne_nil_of_left_ne_nil nonempty back) ?_ (inLine.behind used)
  rw [Expr.span, covers, covers', spanOf_append nonempty taken]

theorem whole_foldr {front back rest : List (Lexeme Token)} {signs : List (UnaryOp × Span)}
    {errors : List (SyntaxError Token)} (repeated : Repeats (Covers Prod.snd) front rest signs errors)
    {operand : Expr} (last : Whole operand.outline back) :
    Whole (signs.foldr (fun (op, span) operand => Expr.unary (span.through operand.span) op operand)
      operand).outline (front ++ back) := by
  induction repeated with
  | nil rest => exact last
  | cons held following ih =>
      rw [List.foldr_cons, List.append_assoc]
      exact ih.signed held.1 held.2

theorem unary_whole (whole : inner.Ensures (ReadsWhole Expr.outline)) :
    (unary inner).Ensures (ReadsWhole Expr.outline) := by
  have sign : (spanned unarySign).Ensures (Covers Prod.snd) :=
    (select_consumes _ _).spanned.mono fun _ _ _ _ held => ⟨held.1, held.2 held.1⟩
  refine ((sign.many fun _ _ _ _ held => held.1).bind fun signs =>
    (postfixed_whole whole).bind fun operand => ensures_pure _).mono ?_
  intro used rest value errors held
  obtain ⟨front, _, signs, _, _, rfl, -, ⟨repeated, -⟩, back, _, operand, _, _, rfl, -, last,
    rfl, rfl, -⟩ := held
  rw [List.append_nil]
  exact whole_foldr repeated last

theorem leftAssociative_whole {operand : Parser Token Expr} {sign : Parser Token BinaryOp}
    (whole : operand.Ensures (ReadsWhole Expr.outline)) (signed : sign.Ensures Consumes) :
    (leftAssociative operand sign).Ensures (ReadsWhole Expr.outline) := by
  have step : (do let op ← sign; let rhs ← operand; return (op, rhs)).Ensures
      fun used _ (part : BinaryOp × Expr) _ =>
        ∃ front back, used = front ++ back ∧ front ≠ [] ∧ Whole part.2.outline back := by
    refine (signed.bind fun op => whole.bind fun rhs => ensures_pure (op, rhs)).mono ?_
    intro used rest value errors held
    obtain ⟨front, _, op, _, _, rfl, -, nonempty, back, _, rhs, _, _, rfl, -, last, rfl, rfl,
      -⟩ := held
    exact ⟨front, back, by rw [List.append_nil], nonempty, last⟩
  have taken : ∀ (used rest : List (Lexeme Token)) (part : BinaryOp × Expr)
      (errors : List (SyntaxError Token)),
      (∃ front back, used = front ++ back ∧ front ≠ [] ∧ Whole part.2.outline back) →
        used ≠ [] := by
    intro used rest part errors held
    obtain ⟨front, back, rfl, nonempty, -⟩ := held
    exact List.append_ne_nil_of_left_ne_nil nonempty back
  refine (whole.bind fun first => (step.many taken).bind fun others => ensures_pure _).mono ?_
  intro used rest value errors held
  obtain ⟨front, _, first, _, _, rfl, -, start, back, _, others, _, _, rfl, -, ⟨repeated, -⟩,
    rfl, rfl, -⟩ := held
  rw [List.append_nil]
  refine whole_foldl (fun front used rest target part errors first held => ?_) repeated start
  obtain ⟨sign, own, rfl, nonempty, last⟩ := held
  refine first.extend (List.append_ne_nil_of_left_ne_nil nonempty own) ?_ (last.2.2.behind sign)
    rfl rfl
  rw [stop_spanOf_append last.1, ← last.2.1, span_outline_expr]

theorem disjunction_whole (whole : inner.Ensures (ReadsWhole Expr.outline)) :
    (disjunction inner).Ensures (ReadsWhole Expr.outline) :=
  have product := leftAssociative_whole (unary_whole whole) (select_consumes _ _)
  have sum := leftAssociative_whole product (select_consumes _ _)
  have comparison := leftAssociative_whole sum (select_consumes _ _)
  have equality := leftAssociative_whole comparison (select_consumes _ _)
  have conjunction := leftAssociative_whole equality (select_consumes _ _)
  leftAssociative_whole conjunction (select_consumes _ _)

theorem exprRule_whole (whole : inner.Ensures (ReadsWhole Expr.outline)) :
    (exprRule inner).Ensures (ReadsWhole Expr.outline) := by
  apply Ensures.labelled "expression"
  have assigned_whole : (assigned inner).Ensures fun used _ rhs _ =>
      ∃ front back, used = front ++ back ∧ Whole rhs.outline back := by
    refine ((token_consumes Token.assign).bind fun _ => whole).mono ?_
    intro used rest value errors held
    obtain ⟨front, back, _, _, _, rfl, -, -, last⟩ := held
    exact ⟨front, back, rfl, last⟩
  refine ((disjunction_whole whole).bind fun lhs => assigned_whole.optional.bind fun found =>
    show Ensures _ fun used _ value _ => used = [] ∧ value = assignedTo lhs found from ?_).mono ?_
  · cases found with
    | none => exact (ensures_pure lhs).mono fun _ _ _ _ held => ⟨held.1, held.2.1⟩
    | some rhs => exact (ensures_pure _).mono fun _ _ _ _ held => ⟨held.1, held.2.1⟩
  intro used rest value errors held
  obtain ⟨front, _, lhs, _, _, rfl, -, first, back, _, found, _, _, rfl, -, choice, rfl,
    rfl⟩ := held
  rw [List.append_nil]
  cases choice with
  | inl assigned =>
      obtain ⟨rhs, rfl, sign, own, rfl, last⟩ := assigned
      refine first.extend (List.append_ne_nil_of_right_ne_nil sign last.1) ?_
        (last.2.2.behind sign) rfl rfl
      rw [stop_spanOf_append last.1, ← last.2.1, span_outline_expr]
  | inr alone =>
      obtain ⟨rfl, rfl, -⟩ := alone
      rw [List.append_nil]
      exact first

theorem expr_whole : expr.Ensures (ReadsWhole Expr.outline) :=
  ensures_recursive fun _ => exprRule_whole

theorem lays_inits : localDecl.Ensures (Lays LocalDecl.outlines) := by
  have assigned_whole : (assigned expr).Ensures (Lays fun value => [value.outline]) :=
    lays_of_adds (adds_bind (lays_nothing (token_consumes _)) fun _ =>
      adds_of_lays (lays_of_whole expr_whole))
  have declared : declarator.Ensures (Lays fun part => part.init.toList.map Expr.outline) := by
    refine lays_made (fun found => found.2.toList.map Expr.outline) ?_ fun _ => rfl
    apply lays_of_adds
    refine adds_bind (lays_nothing name_consumes) fun name => ?_
    refine adds_bind (lays_optional assigned_whole) fun init => adds_pure ?_
    cases init <;> rfl
  apply Ensures.labelled "declaration"
  apply lays_of_adds
  refine adds_bind (lays_nothing type_consumes) fun type => ?_
  refine adds_bind (lays_separated1 _ declared) fun declarators => adds_pure ?_
  rw [LocalDecl.outlines, List.filterMap_eq_flatMap_toList, List.map_flatMap]
  rfl

theorem span_outline_stmt (stmt : Stmt) : stmt.outline.span = stmt.span := by
  rw [Stmt.outline_eq]
  rfl

variable {body : Parser Token Stmt}

/-- What is inside a statement is laid in what was read for it. -/
abbrev LaysInside : Post Token Stmt :=
  Lays fun stmt => stmt.outline.parts

theorem lays_semicolon : semicolon.Ensures (Lays fun _ => []) :=
  lays_nothing semicolon_advances

theorem lays_stmts (whole : body.Ensures (ReadsWhole Stmt.outline)) :
    (between (token .braceOpen) (token .braceClose) (many body)).Ensures (Lays Stmt.outlines) := by
  have many := lays_many (lays_of_whole whole) (whole.mono fun _ _ _ _ held => held.1)
  refine lays_between _ _ (many.mono ?_)
  intro used rest stmts errors laid
  rw [Lays, Stmt.outlines_eq_map, ← List.flatMap_pure_eq_map]
  exact laid

theorem lays_block (whole : body.Ensures (ReadsWhole Stmt.outline)) :
    (block body).Ensures LaysInside := by
  apply lays_recoverWith
  · exact lays_of_adds (adds_bind (lays_spanned (lays_stmts whole)) fun found => adds_pure rfl)
  · exact lays_of_adds (adds_bind (lays_nothing (ensures_skipGroup _ _ _)) fun span =>
      adds_pure rfl)

theorem lays_condition : condition.Ensures (Lays fun cond => [cond.outline]) :=
  lays_between _ _ (lays_of_whole expr_whole)

theorem lays_foreachLoop (whole : body.Ensures (ReadsWhole Stmt.outline)) :
    (foreachLoop body).Ensures LaysInside := by
  have header : loopHeader.Ensures (Lays fun found => [found.2.2.outline]) := by
    apply lays_of_adds
    refine adds_bind (lays_nothing type_consumes) fun type => ?_
    refine adds_bind (lays_nothing name_consumes.spanned) fun var => ?_
    refine adds_bind (lays_nothing (token_consumes _)) fun _ => ?_
    exact adds_bind (lays_of_whole expr_whole) fun seq => adds_pure rfl
  apply Ensures.labelled "foreach"
  refine lays_made (fun found => [found.1.2.2.outline, found.2.outline]) ?_ fun _ => rfl
  apply lays_of_adds
  refine adds_bind (lays_nothing (token_consumes _)) fun _ => ?_
  refine adds_bind (lays_between _ _ header) fun header => ?_
  exact adds_bind (lays_of_whole whole) fun stmt => adds_pure rfl

theorem lays_conditional (whole : body.Ensures (ReadsWhole Stmt.outline)) :
    (conditional body).Ensures LaysInside := by
  have otherwise : (elseBranch body).Ensures (Lays fun stmt => [stmt.outline]) :=
    lays_of_adds (adds_bind (lays_nothing (token_consumes _)) fun _ =>
      adds_of_lays (lays_of_whole whole))
  rw [conditional_eq]
  apply Ensures.labelled "if"
  refine lays_made (fun found => found.1.outline :: found.2.1.outline ::
    found.2.2.toList.map Stmt.outline) ?_ ?_
  · apply lays_of_adds
    refine adds_bind (lays_nothing (token_consumes _)) fun _ => ?_
    refine adds_bind lays_condition fun cond => ?_
    refine adds_bind (lays_of_whole whole) fun stmt => ?_
    refine adds_bind (lays_optional otherwise) fun other => adds_pure ?_
    cases other <;> rfl
  · intro found
    obtain ⟨⟨cond, stmt, other⟩, span⟩ := found
    cases other <;> rfl

theorem lays_whileLoop (whole : body.Ensures (ReadsWhole Stmt.outline)) :
    (whileLoop body).Ensures LaysInside := by
  refine lays_made (fun found => [found.1.outline, found.2.outline]) ?_ fun _ => rfl
  apply lays_of_adds
  refine adds_bind (lays_nothing (token_consumes _)) fun _ => ?_
  refine adds_bind lays_condition fun cond => ?_
  exact adds_bind (lays_of_whole whole) fun stmt => adds_pure rfl

theorem lays_returnStmt : returnStmt.Ensures LaysInside := by
  refine lays_made (fun value => value.toList.map Expr.outline) ?_ fun _ => rfl
  apply lays_of_adds
  refine adds_bind (lays_nothing (token_consumes _)) fun _ => ?_
  refine adds_bind (lays_optional (lays_of_whole expr_whole)) fun value => ?_
  refine adds_bind lays_semicolon fun _ => adds_pure ?_
  cases value <;> rfl

theorem lays_declStmt : declStmt.Ensures LaysInside := by
  refine lays_made LocalDecl.outlines ?_ fun _ => rfl
  apply lays_of_adds
  refine adds_bind lays_inits fun decl => ?_
  exact adds_bind lays_semicolon fun _ => adds_pure (by simp)

theorem lays_exprStmt : exprStmt.Ensures LaysInside := by
  refine lays_made (fun value => [value.outline]) ?_ fun _ => rfl
  apply lays_of_adds
  refine adds_bind (lays_of_whole expr_whole) fun value => ?_
  exact adds_bind lays_semicolon fun _ => adds_pure rfl

theorem lays_unreadable : unreadable.Ensures LaysInside := by
  apply lays_of_adds
  refine adds_bind (lays_nothing skipped_consumes.spanned) fun found => ?_
  exact adds_bind (lays_nothing (ensures_report _ _)) fun _ => adds_pure rfl

theorem lays_wordStmt {make : Span → Stmt} (word : Keyword)
    (leaf : ∀ span, (make span).outline.parts = []) : (wordStmt word make).Ensures LaysInside :=
  lays_made _ (lays_of_adds (adds_bind (lays_nothing (token_consumes _)) fun _ =>
    adds_of_lays lays_semicolon)) fun _ => leaf _

theorem lays_stmtRule (whole : body.Ensures (ReadsWhole Stmt.outline)) :
    (stmtRule body).Ensures LaysInside := by
  apply Ensures.labelled "statement"
  refine orElse_ensures (lays_block whole) (orElse_ensures (lays_foreachLoop whole)
    (orElse_ensures (lays_conditional whole) (orElse_ensures (lays_whileLoop whole) ?_)))
  refine orElse_ensures (lays_wordStmt _ fun _ => rfl) (orElse_ensures (lays_wordStmt _ fun _ => rfl)
    (orElse_ensures lays_returnStmt (orElse_ensures ?empty (orElse_ensures lays_declStmt
      (orElse_ensures lays_exprStmt lays_unreadable)))))
  case empty => exact lays_made _ (lays_nothing (token_consumes _)) fun _ => rfl

theorem stmt_whole : stmt.Ensures (ReadsWhole Stmt.outline) := by
  suffices stmt.Ensures fun used rest value errors =>
      Laid used rest value errors ∧ ReadsWhole Stmt.outline used rest value errors from
    this.mono fun _ _ _ _ held => held.2
  apply ensures_recursive
  intro inner ensured
  have laid := stmtRule_laid (ensured.mono fun _ _ _ _ held => held.1)
  have covered : (stmtRule inner).Ensures (Covers Stmt.span) :=
    laid.mono fun _ _ _ _ held => ⟨held.1, held.2.1⟩
  exact laid.and (whole_of_parts covered
    (lays_stmtRule (ensured.mono fun _ _ _ _ held => held.2)) span_outline_stmt)

theorem span_outline_item (item : Item) : item.outline.span = item.span := by
  rw [Item.outline_eq]
  rfl

variable {member : Parser Token Item} {span : Span}

theorem lays_members (whole : member.Ensures (ReadsWhole Item.outline)) :
    (members member).Ensures (Lays Item.outlines) := by
  have many := lays_many (lays_of_whole whole) (whole.mono fun _ _ _ _ held => held.1)
  apply lays_recoverWith
  · refine lays_between _ _ (many.mono ?_)
    intro used rest items errors laid
    rw [Lays, Item.outlines_eq_map, ← List.flatMap_pure_eq_map]
    exact laid
  · exact lays_of_adds (adds_bind (lays_nothing (ensures_skipGroup _ _ _)) fun _ => adds_pure rfl)

theorem lays_methodBody : methodBody.Ensures (Lays fun body => Stmt.outlines body.stmts) := by
  apply lays_recoverWith
  · exact lays_made _ (lays_stmts stmt_whole) fun _ => rfl
  · exact lays_of_adds (adds_bind (lays_nothing (ensures_skipGroup _ _ _)) fun span =>
      adds_pure rfl)

/-- Whatever span it is given, what is inside the item is laid in what was read. -/
abbrev LaysMade (span : Span) : Post Token (Span → Item) :=
  Lays fun make => (make span).outline.parts

theorem lays_usingItem : usingItem.Ensures (LaysMade span) := by
  apply lays_of_adds
  refine adds_bind (lays_nothing (token_consumes _)) fun _ => ?_
  refine adds_bind (lays_nothing dottedName_consumes) fun path => ?_
  exact adds_bind lays_semicolon fun _ => adds_pure rfl

theorem lays_namespaceItem (whole : member.Ensures (ReadsWhole Item.outline)) :
    (namespaceItem member).Ensures (LaysMade span) := by
  apply lays_of_adds
  refine adds_bind (lays_nothing (token_consumes _)) fun _ => ?_
  refine adds_bind (lays_nothing dottedName_consumes) fun path => ?_
  exact adds_bind (lays_members whole) fun items => adds_pure rfl

theorem lays_classItem (whole : member.Ensures (ReadsWhole Item.outline)) :
    (classItem member).Ensures (LaysMade span) := by
  apply lays_of_adds
  refine adds_bind (lays_nothing modifiers_advance) fun modifiers => ?_
  refine adds_bind (lays_nothing (token_consumes _)) fun _ => ?_
  refine adds_bind (lays_nothing name_consumes) fun name => ?_
  exact adds_bind (lays_members whole) fun items => adds_pure rfl

theorem lays_methodItem : methodItem.Ensures (LaysMade span) := by
  have param_consumes : param.Ensures Consumes :=
    bind_consumes type_consumes fun _ => advances_of (name_consumes.bind fun _ => ensures_pure _)
  apply Ensures.labelled "method"
  apply lays_of_adds
  refine adds_bind (lays_nothing modifiers_advance) fun modifiers => ?_
  refine adds_bind (lays_nothing type_consumes) fun result => ?_
  refine adds_bind (lays_nothing name_consumes) fun name => ?_
  refine adds_bind (lays_nothing (between_consumes Token.parenOpen .parenClose
    (separated_advances Token.comma param_consumes))) fun params => ?_
  exact adds_bind lays_methodBody fun body => adds_pure rfl

theorem lays_fieldItem : fieldItem.Ensures (LaysMade span) := by
  have modifiers_consume : (many1 modifier).Ensures Consumes :=
    bind_consumes (select_consumes _ _) fun _ =>
      advances_of (modifiers_advance.bind fun _ => ensures_pure _)
  apply lays_of_adds
  refine adds_bind (lays_nothing modifiers_consume) fun modifiers => ?_
  refine adds_bind lays_inits fun decl => ?_
  exact adds_bind lays_semicolon fun _ => adds_pure (by simp [Item.outline, Outline.parts])

theorem lays_itemRule (whole : member.Ensures (ReadsWhole Item.outline)) :
    (itemRule member).Ensures (Lays fun item => item.outline.parts) := by
  have alternatives : (usingItem <|> namespaceItem member <|> classItem member <|> methodItem <|>
      fieldItem <|> stmtItem).Ensures fun used rest make errors =>
        ∀ span, LaysMade span used rest make errors := by
    refine Ensures.forall fun span => ?_
    refine orElse_ensures lays_usingItem (orElse_ensures (lays_namespaceItem whole)
      (orElse_ensures (lays_classItem whole) (orElse_ensures lays_methodItem
        (orElse_ensures lays_fieldItem ?_))))
    exact lays_of_adds (adds_bind (lays_of_whole stmt_whole) fun stmt => adds_pure rfl)
  refine (alternatives.spanned.bind fun found => ensures_pure (found.1 found.2)).mono ?_
  intro used rest value errors held
  obtain ⟨front, _, ⟨make, span⟩, _, _, rfl, -, ⟨laid, -⟩, rfl, rfl, -⟩ := held
  rw [List.append_nil]
  exact laid span

theorem item_whole : item.Ensures (ReadsWhole Item.outline) := by
  suffices item.Ensures fun used rest value errors =>
      LaidItem used rest value errors ∧ ReadsWhole Item.outline used rest value errors from
    this.mono fun _ _ _ _ held => held.2
  apply ensures_recursive
  intro inner ensured
  have laid := itemRule_laid (ensured.mono fun _ _ _ _ held => held.1)
  have covered : (itemRule inner).Ensures (Covers Item.span) :=
    laid.mono fun _ _ _ _ held => ⟨held.1, held.2.1⟩
  exact laid.and (whole_of_parts covered
    (lays_itemRule (ensured.mono fun _ _ _ _ held => held.2)) span_outline_item)

theorem lays_sourceTree : sourceTree.Ensures (Lays fun tree => Item.outlines tree.items) := by
  have retried : (skipAndRetry item).Ensures fun used rest value errors =>
      Lays (fun value => [value.outline]) used rest value errors ∧
        Consumes used rest value errors := by
    refine item_whole.skipAndRetry.mono ?_
    intro used rest value errors held
    cases held with
    | inl held => exact ⟨held.2.2, held.1⟩
    | inr held =>
        obtain ⟨dropped, own, error, rfl, -, nonempty, -, laid⟩ := held
        exact ⟨laid.behind dropped, List.append_ne_nil_of_right_ne_nil dropped nonempty⟩
  have many := lays_many (retried.mono fun _ _ _ _ held => held.1)
    (retried.mono fun _ _ _ _ held => held.2)
  apply lays_of_adds
  refine adds_bind many fun items => adds_pure ?_
  rw [Item.outlines_eq_map, ← List.flatMap_pure_eq_map]
  rfl

end Grammar

namespace SourceTree

/-- Whatever a source text looks like, the nodes of its tree lie in it as they nest. -/
theorem nested_parse (source : String) :
    (parse source).1.Nested (Text.byteLength source.toList) := by
  cases parse_cases source with
  | inl empty =>
      rw [empty]
      exact .nil
  | inr found =>
      obtain ⟨lexemes, lexical, errors, read, ran⟩ := found
      exact (Grammar.lays_sourceTree.run ran).inLine _ _
        ((Token.spread_lex read).sublist List.filter_sublist)

/-- Looking up a span that is not empty finds, in the tree of any source text, all the
nodes whose spans contain it and no others, in the order of the source.  They start
with an item of the tree, and each one is directly inside the one before.  The loops
among them are all loops of the tree around the span, from the innermost outwards. -/
theorem nodesAround_parse (source : String) (target : Span)
    (nonempty : target.start < target.stop) :
    let tree := (parse source).1
    tree.nodesAround target = tree.nodes.filter (·.span.contains target) ∧
    (∀ node ∈ (tree.nodesAround target).head?, node ∈ tree.items.map Node.item) ∧
    (tree.nodesAround target).IsChain (fun outer inner => inner ∈ outer.parts) ∧
    Node.enclosingLoops (tree.nodesAround target) =
      (tree.loops.filter (·.span.contains target)).reverse ∧
    (Node.enclosingLoops (tree.nodesAround target)).Pairwise fun inner outer =>
      inner.toStmt ∈ outer.body.statements := by
  intro tree
  have nested : tree.Nested (Text.byteLength source.toList) := nested_parse source
  obtain ⟨descends, first⟩ := nested.descends nonempty
  exact ⟨nested.nodesAround_eq_filter target, first, descends, nested.enclosingLoops_eq target,
    nested.enclosingLoops_pairwise nonempty⟩

/-- The semicolon is missing at the end; the target is the argument of the call. -/
theorem nodesAround_parse_unfinished :
    let tree := (parse "foreach (var a in x) foreach (var b in a) f(b)").1
    (Node.enclosingLoops (tree.nodesAround ⟨44, 45⟩)).map Loop.var = ["b", "a"] ∧
    tree.nodesAround ⟨44, 45⟩ = tree.nodes.filter (·.span.contains ⟨44, 45⟩) ∧
    (Node.enclosingLoops (tree.nodesAround ⟨44, 45⟩)).Pairwise fun inner outer =>
      inner.toStmt ∈ outer.body.statements := by
  have exact_path := nodesAround_parse "foreach (var a in x) foreach (var b in a) f(b)" ⟨44, 45⟩
    (by decide)
  exact ⟨by decide +kernel, exact_path.1, exact_path.2.2.2.2⟩

end SourceTree

end QueryLoop
