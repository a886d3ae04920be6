import QueryLoop.Grammar.Expr
import QueryLoop.Proofs.Place.Arranged
import QueryLoop.Proofs.Reading.Ensures

namespace QueryLoop

open Parsing Parser

namespace Parsing

variable {τ : Type} {lower upper : Nat} {front middle back used : List (Lexeme τ)}

theorem spanOf_append (nonempty : front ≠ []) (nonempty' : back ≠ []) :
    spanOf (front ++ back) = (spanOf front).through (spanOf back) := by
  obtain ⟨first, front, rfl⟩ := List.exists_cons_of_ne_nil nonempty
  obtain ⟨next, back, rfl⟩ := List.exists_cons_of_ne_nil nonempty'
  simp [spanOf, Span.through]

theorem start_spanOf_append (nonempty : front ≠ []) :
    (spanOf (front ++ back)).start = (spanOf front).start := by
  obtain ⟨first, front, rfl⟩ := List.exists_cons_of_ne_nil nonempty
  simp [spanOf]

theorem stop_spanOf_append (nonempty : back ≠ []) :
    (spanOf (front ++ back)).stop = (spanOf back).stop := by
  obtain ⟨next, back, rfl⟩ := List.exists_cons_of_ne_nil nonempty
  simp [spanOf]

theorem spread_behind (spread : Spread Lexeme.span lower upper (front ++ back))
    (nonempty : front ≠ []) : Spread Lexeme.span (spanOf front).stop upper back := by
  induction front generalizing lower with
  | nil => exact absurd rfl nonempty
  | cons first front ih =>
      cases front with
      | nil => exact spread.2
      | cons next front => exact ih spread.2 (List.cons_ne_nil _ _)

theorem within_spanOf (spread : Spread Lexeme.span lower upper used) (nonempty : used ≠ []) :
    (spanOf used).Within lower upper := by
  induction used generalizing lower with
  | nil => exact absurd rfl nonempty
  | cons first used ih =>
      obtain ⟨place, following⟩ := spread
      cases used with
      | nil => exact place
      | cons next used =>
          have later := ih following (List.cons_ne_nil _ _)
          have stop_eq : (spanOf (first :: next :: used)).stop = (spanOf (next :: used)).stop :=
            rfl
          have start_eq : (spanOf (first :: next :: used)).start = first.span.start := rfl
          unfold Span.Within at *
          omega

/-- Nothing lies behind the last lexeme. -/
theorem spread_narrow (spread : Spread Lexeme.span lower upper used) :
    Spread Lexeme.span lower (spanOf used).stop used := by
  induction used generalizing lower with
  | nil => trivial
  | cons first used ih =>
      cases used with
      | nil => exact ⟨⟨spread.1.1, spread.1.2.1, Nat.le_refl _⟩, trivial⟩
      | cons next used =>
          have later := within_spanOf spread.2 (List.cons_ne_nil _ _)
          have stop_eq : (spanOf (first :: next :: used)).stop = (spanOf (next :: used)).stop :=
            rfl
          refine ⟨⟨spread.1.1, spread.1.2.1, ?_⟩, ih spread.2⟩
          unfold Span.Within at later
          omega

theorem spread_cover (spread : Spread Lexeme.span lower upper used) :
    Spread Lexeme.span (spanOf used).start (spanOf used).stop used := by
  have narrow := spread_narrow spread
  cases used with
  | nil => trivial
  | cons first used => exact ⟨⟨Nat.le_refl _, narrow.1.2⟩, narrow.2⟩

/-- Lexemes behind others lie behind the start of all of them. -/
theorem spread_inside (spread : Spread Lexeme.span lower upper (front ++ back))
    (nonempty : front ≠ []) (nonempty' : back ≠ []) :
    Spread Lexeme.span ((spanOf (front ++ back)).start + 1) (spanOf (front ++ back)).stop back := by
  have head := within_spanOf (spread.sublist (List.sublist_append_left front back)) nonempty
  rw [start_spanOf_append nonempty, stop_spanOf_append nonempty']
  exact (spread_narrow (spread_behind spread nonempty)).widen head.2.1 (Nat.le_refl _)

/-- The place runs from the start of one of the lexemes to the end of one of them. -/
def OnLexemes (lexemes : List (Lexeme τ)) (place : Span) : Prop :=
  ∃ first ∈ lexemes, ∃ last ∈ lexemes, place = ⟨first.span.start, last.span.stop⟩

theorem OnLexemes.mono {more : List (Lexeme τ)} {place : Span} (onUsed : OnLexemes used place)
    (subset : used ⊆ more) : OnLexemes more place := by
  obtain ⟨first, listed, last, listed', rfl⟩ := onUsed
  exact ⟨first, subset listed, last, subset listed', rfl⟩

theorem onLexemes_spanOf (nonempty : used ≠ []) : OnLexemes used (spanOf used) := by
  induction used with
  | nil => exact absurd rfl nonempty
  | cons first used ih =>
      cases used with
      | nil => exact ⟨first, List.mem_cons_self, first, List.mem_cons_self, rfl⟩
      | cons next used =>
          obtain ⟨_, -, last, listed, same⟩ := ih (List.cons_ne_nil _ _)
          refine ⟨first, List.mem_cons_self, last, List.mem_cons_of_mem first listed, ?_⟩
          have stop_eq : (spanOf (first :: next :: used)).stop = (spanOf (next :: used)).stop := rfl
          rw [same] at stop_eq
          rw [← stop_eq]
          rfl

end Parsing

namespace Grammar

/-- A value whose place is what was read for it. -/
def Covers {α : Type} (place : α → Span) : Post Token α := fun used _ value _ =>
  used ≠ [] ∧ place value = spanOf used

theorem ensures_name : name.Ensures fun used _ value errors =>
    ∃ lexeme, used = [lexeme] ∧ lexeme.token = .ident value ∧ errors = [] := by
  refine ((ensures_select _ _).labelled "identifier").mono ?_
  rintro used rest value errors ⟨lexeme, rfl, chosen, rfl⟩
  refine ⟨lexeme, rfl, ?_, rfl⟩
  split at chosen
  · rename_i found shape
    rw [shape, Option.some.inj chosen]
  · simp at chosen

theorem name_consumes : name.Ensures Consumes := by
  refine ensures_name.mono ?_
  rintro used rest value errors ⟨lexeme, rfl, -⟩
  exact List.cons_ne_nil _ _

/-- A value made from what was read and from its span covers what was read. -/
theorem spanned_covers {α β : Type} {reader : Parser Token α} {place : β → Span}
    {make : α × Span → β} (taken : reader.Ensures Consumes)
    (placed : ∀ value, place (make value) = value.2) :
    (do let value ← spanned reader; return make value).Ensures (Covers place) := by
  refine (taken.spanned.bind fun value => ensures_pure (make value)).mono ?_
  rintro used rest value errors ⟨front, back, found, early, late, rfl, -,
    ⟨nonempty, covered⟩, rfl, rfl, -⟩
  rw [List.append_nil]
  exact ⟨nonempty, (placed found).trans (covered nonempty)⟩

theorem typeArgs_consumes {inner : Parser Token TypeRef} (taken : inner.Ensures Consumes) :
    (typeArgs inner).Ensures Consumes :=
  between_consumes (Token.sign .less) (.sign .greater)
    (advances_of (separated1_consumes Token.comma taken))

theorem type_consumes : type.Ensures Consumes := by
  refine ensures_recursive fun inner taken => ?_
  refine Ensures.labelled "type" ?_
  refine bind_consumes ?_ fun value => advances_of (ensures_pure _)
  refine ((bind_consumes (separated1_consumes Token.dot name_consumes) fun path => ?_).spanned).mono
    fun _ _ _ _ held => held.1
  exact advances_of ((typeArgs_consumes taken).optional.bind fun args => ensures_pure _)

variable {inner : Parser Token Expr}

theorem consumes_of_covers {α : Type} {reader : Parser Token α} {place : α → Span}
    (covered : reader.Ensures (Covers place)) : reader.Ensures Consumes :=
  covered.mono fun _ _ _ _ held => held.1

theorem arguments_consumes (covered : inner.Ensures (Covers Expr.span)) :
    (arguments inner).Ensures Consumes :=
  Ensures.labelled "arguments"
    (between_consumes Token.parenOpen .parenClose
      (separated_advances Token.comma (consumes_of_covers covered)))

theorem literal_covers : literal.Ensures (Covers Expr.span) :=
  Ensures.labelled "literal" (spanned_covers (select_consumes _ _) fun _ => rfl)

theorem lambda_covers (covered : inner.Ensures (Covers Expr.span)) :
    (lambda inner).Ensures (Covers Expr.span) := by
  refine Ensures.labelled "lambda" (spanned_covers (bind_consumes name_consumes fun param => ?_)
    fun _ => rfl)
  exact advances_of ((token_consumes Token.arrow).bind fun _ => covered.bind fun body => ensures_pure _)

theorem newObject_covers (covered : inner.Ensures (Covers Expr.span)) :
    (newObject inner).Ensures (Covers Expr.span) := by
  refine spanned_covers (bind_consumes (token_consumes (Token.keyword .newWord)) fun _ => ?_)
    fun _ => rfl
  exact advances_of (type_consumes.bind fun type => (arguments_consumes covered).bind
    fun args => ensures_pure _)

theorem ident_covers : ident.Ensures (Covers Expr.span) :=
  spanned_covers name_consumes fun _ => rfl

theorem skipGroup_covers {α : Type} {place : α → Span} {make : Span → α}
    (placed : ∀ span, place (make span) = span) (opening closing : Token)
    (others : List (Token × Token)) :
    (do let span ← skipGroup opening closing others; return make span).Ensures (Covers place) := by
  refine ((ensures_skipGroup opening closing others).bind fun span =>
    ensures_pure (make span)).mono ?_
  rintro used rest value errors ⟨front, back, span, early, late, rfl, -, ⟨nonempty, covered⟩,
    rfl, rfl, -⟩
  rw [List.append_nil]
  exact ⟨nonempty, (placed span).trans covered⟩

theorem recoverWith_covers {α : Type} {place : α → Span} {reader instead : Parser Token α}
    (covered : reader.Ensures (Covers place)) (replaced : instead.Ensures (Covers place)) :
    (recoverWith instead reader).Ensures (Covers place) := by
  refine (covered.recoverWith replaced).mono ?_
  rintro used rest value errors (held | ⟨own, error, -, held⟩) <;> exact held

theorem paren_covers (covered : inner.Ensures (Covers Expr.span)) :
    (paren inner).Ensures (Covers Expr.span) :=
  recoverWith_covers (spanned_covers (between_consumes Token.parenOpen .parenClose
    (advances_of covered)) fun _ => rfl)
    (skipGroup_covers (fun _ => rfl) _ _ _)

theorem atom_covers (covered : inner.Ensures (Covers Expr.span)) :
    (atom inner).Ensures (Covers Expr.span) :=
  orElse_ensures literal_covers (orElse_ensures (lambda_covers covered)
    (orElse_ensures (newObject_covers covered) (orElse_ensures ident_covers
      (paren_covers covered))))

theorem memberTypeArgs_consumes : memberTypeArgs.Ensures Consumes :=
  bind_consumes (typeArgs_consumes type_consumes) fun _ =>
    advances_of ((token_consumes Token.parenOpen).ahead.bind fun _ => ensures_pure _)

theorem memberSuffix_consumes : memberSuffix.Ensures Consumes :=
  bind_consumes (token_consumes Token.dot) fun _ => advances_of (name_consumes.bind fun _ =>
    memberTypeArgs_consumes.optional.bind fun _ => ensures_pure _)

theorem suffix_covers (covered : inner.Ensures (Covers Expr.span)) :
    (spanned memberSuffix <|> spanned (callSuffix inner) <|> spanned (indexSuffix inner)).Ensures
      (Covers Prod.snd) := by
  have placed : ∀ {reader : Parser Token Suffix}, reader.Ensures Consumes →
      (spanned reader).Ensures (Covers Prod.snd) := fun taken =>
    taken.spanned.mono fun _ _ _ _ held => ⟨held.1, held.2 held.1⟩
  refine orElse_ensures (placed memberSuffix_consumes) (orElse_ensures (placed ?_) (placed ?_))
  · exact bind_consumes (arguments_consumes covered) fun _ => advances_of (ensures_pure _)
  · exact bind_consumes (between_consumes Token.bracketOpen .bracketClose (advances_of covered)) fun _ =>
      advances_of (ensures_pure _)

theorem Suffix.span_attach (target : Expr) (suffix : Suffix × Span) :
    (Suffix.attach target suffix).span = target.span.through suffix.2 := by
  obtain ⟨suffix, span⟩ := suffix
  cases suffix <;> rfl

/-- Each step of a fold widens the span to the end of the part it adds. -/
theorem span_foldl {α : Type} {step : Expr → α → Expr} (place : α → Span) {post : Post Token α}
    (widens : ∀ target part, (step target part).span = target.span.through (place part))
    (covered : ∀ used rest part errors, post used rest part errors →
      used ≠ [] ∧ (place part).stop = (spanOf used).stop)
    {front used rest : List (Lexeme Token)} {parts : List α} {errors : List (SyntaxError Token)}
    (repeated : Repeats post used rest parts errors) {target : Expr} (nonempty : front ≠ [])
    (first : target.span = spanOf front) :
    (parts.foldl step target).span = spanOf (front ++ used) := by
  induction repeated generalizing front target with
  | nil rest => rw [List.append_nil]; exact first
  | @cons used more rest part parts errors others held following ih =>
      obtain ⟨some_taken, stop_eq⟩ := covered _ _ _ _ held
      rw [List.foldl_cons, ← List.append_assoc]
      refine ih (List.append_ne_nil_of_left_ne_nil nonempty _) ?_
      rw [widens, first, spanOf_append nonempty some_taken, Span.through, Span.through, stop_eq]

theorem postfixed_covers (covered : inner.Ensures (Covers Expr.span)) :
    (postfixed inner).Ensures (Covers Expr.span) := by
  refine ((atom_covers covered).bind fun target => ((suffix_covers covered).many
    fun _ _ _ _ held => held.1).bind fun suffixes => ensures_pure _).mono ?_
  rintro used rest value errors ⟨front, back, target, early, late, rfl, -, ⟨nonempty, first⟩,
    more, nothing, suffixes, middle, final, rfl, -, ⟨repeated, -⟩, rfl, rfl, -⟩
  refine ⟨List.append_ne_nil_of_left_ne_nil nonempty _, ?_⟩
  rw [List.append_nil]
  exact span_foldl Prod.snd Suffix.span_attach
    (fun _ _ _ _ held => ⟨held.1, congrArg Span.stop held.2⟩) repeated nonempty first

/-- Each sign widens the span of its operand to its own start. -/
theorem span_foldr {front back rest : List (Lexeme Token)} {signs : List (UnaryOp × Span)}
    {errors : List (SyntaxError Token)} (repeated : Repeats (Covers Prod.snd) front rest signs errors)
    {operand : Expr} (nonempty : back ≠ []) (last : operand.span = spanOf back) :
    (signs.foldr (fun (op, span) operand => .unary (span.through operand.span) op operand)
      operand).span = spanOf (front ++ back) := by
  induction repeated with
  | nil rest => exact last
  | @cons used more rest sign signs errors others held following ih =>
      rw [List.foldr_cons, List.append_assoc, spanOf_append held.1
        (List.append_ne_nil_of_right_ne_nil _ nonempty), ← ih, ← held.2]
      rfl

theorem unary_covers (covered : inner.Ensures (Covers Expr.span)) :
    (unary inner).Ensures (Covers Expr.span) := by
  have sign : (spanned unarySign).Ensures (Covers Prod.snd) :=
    (select_consumes _ _).spanned.mono fun _ _ _ _ held => ⟨held.1, held.2 held.1⟩
  refine ((sign.many fun _ _ _ _ held => held.1).bind fun signs =>
    (postfixed_covers covered).bind fun operand => ensures_pure _).mono ?_
  rintro used rest value errors ⟨front, back, signs, early, late, rfl, -, ⟨repeated, -⟩,
    more, nothing, operand, middle, final, rfl, -, ⟨nonempty, last⟩, rfl, rfl, -⟩
  rw [List.append_nil]
  exact ⟨List.append_ne_nil_of_right_ne_nil _ nonempty, span_foldr repeated nonempty last⟩

theorem leftAssociative_covers {operand : Parser Token Expr} {sign : Parser Token BinaryOp}
    (covered : operand.Ensures (Covers Expr.span)) (signed : sign.Ensures Consumes) :
    (leftAssociative operand sign).Ensures (Covers Expr.span) := by
  have step : (do let op ← sign; let rhs ← operand; return (op, rhs)).Ensures
      fun used _ (part : BinaryOp × Expr) _ =>
        used ≠ [] ∧ part.2.span.stop = (spanOf used).stop := by
    refine (signed.bind fun op => covered.bind fun rhs => ensures_pure (op, rhs)).mono ?_
    rintro used rest value errors ⟨front, back, op, early, late, rfl, -, nonempty,
      more, nothing, rhs, middle, final, rfl, -, ⟨nonempty', last⟩, rfl, rfl, -⟩
    refine ⟨List.append_ne_nil_of_left_ne_nil nonempty _, ?_⟩
    rw [List.append_nil, stop_spanOf_append nonempty', last]
  refine (covered.bind fun first => (step.many fun _ _ _ _ held => held.1).bind
    fun others => ensures_pure _).mono ?_
  rintro used rest value errors ⟨front, back, first, early, late, rfl, -, ⟨nonempty, start⟩,
    more, nothing, others, middle, final, rfl, -, ⟨repeated, -⟩, rfl, rfl, -⟩
  refine ⟨List.append_ne_nil_of_left_ne_nil nonempty _, ?_⟩
  rw [List.append_nil]
  exact span_foldl (fun part : BinaryOp × Expr => part.2.span) (fun _ _ => rfl)
    (fun _ _ _ _ held => held) repeated nonempty start

theorem disjunction_covers (covered : inner.Ensures (Covers Expr.span)) :
    (disjunction inner).Ensures (Covers Expr.span) :=
  have product := leftAssociative_covers (unary_covers covered) (select_consumes _ _)
  have sum := leftAssociative_covers product (select_consumes _ _)
  have comparison := leftAssociative_covers sum (select_consumes _ _)
  have equality := leftAssociative_covers comparison (select_consumes _ _)
  have conjunction := leftAssociative_covers equality (select_consumes _ _)
  leftAssociative_covers conjunction (select_consumes _ _)

/-- An expression, or the assignment of another one to it. -/
def assignedTo (lhs : Expr) : Option Expr → Expr
  | none => lhs
  | some rhs => .assign (lhs.span.through rhs.span) lhs rhs

theorem exprRule_covers (covered : inner.Ensures (Covers Expr.span)) :
    (exprRule inner).Ensures (Covers Expr.span) := by
  refine Ensures.labelled "expression" ?_
  have assigned_covers : (assigned inner).Ensures fun used _ rhs _ =>
      used ≠ [] ∧ rhs.span.stop = (spanOf used).stop := by
    refine ((token_consumes Token.assign).bind fun _ => covered).mono ?_
    rintro used rest value errors ⟨front, back, _, early, late, rfl, -, -, ⟨nonempty, last⟩⟩
    refine ⟨List.append_ne_nil_of_right_ne_nil _ nonempty, ?_⟩
    rw [stop_spanOf_append nonempty, last]
  refine ((disjunction_covers covered).bind fun lhs => assigned_covers.optional.bind fun found =>
    show Ensures _ fun used _ value _ => used = [] ∧ value = assignedTo lhs found from ?_).mono ?_
  · cases found with
    | none => exact (ensures_pure lhs).mono fun _ _ _ _ held => ⟨held.1, held.2.1⟩
    | some rhs => exact (ensures_pure _).mono fun _ _ _ _ held => ⟨held.1, held.2.1⟩
  rintro used rest value errors ⟨front, back, lhs, early, late, rfl, -, ⟨nonempty, start⟩,
    more, nothing, found, middle, final, rfl, -, choice, rfl, rfl⟩
  rw [List.append_nil]
  refine ⟨List.append_ne_nil_of_left_ne_nil nonempty _, ?_⟩
  rcases choice with ⟨rhs, rfl, nonempty', stop_eq⟩ | ⟨rfl, rfl, -⟩
  · rw [spanOf_append nonempty nonempty', ← start]
    exact congrArg (Span.mk lhs.span.start) stop_eq
  · rw [List.append_nil]
    exact start

theorem expr_covers : expr.Ensures (Covers Expr.span) :=
  ensures_recursive fun _ => exprRule_covers

end Grammar

end QueryLoop
