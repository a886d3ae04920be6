import QueryLoop.Proofs.Reading.Cleanly
import QueryLoop.Proofs.Spelling.Expressions

namespace QueryLoop.Grammar

/-! Expressions that are read without errors are spelled by what was read, and fit.

The argument for lambdas goes by contradiction.  The body of a lambda is read as far
as possible, so none of the readers that go on with an expression accepts behind it.
If an operator behind a lambda were taken by an expression around it, its operand
would fit, and the body would have been able to read on.
-/

open Parsing Parser

def tokensOf (lexemes : List (Lexeme Token)) : List Token :=
  lexemes.map Lexeme.token

@[simp] theorem tokensOf_nil : tokensOf [] = [] := rfl

@[simp] theorem tokensOf_cons (lexeme : Lexeme Token) (lexemes : List (Lexeme Token)) :
    tokensOf (lexeme :: lexemes) = lexeme.token :: tokensOf lexemes := rfl

@[simp] theorem tokensOf_append (first second : List (Lexeme Token)) :
    tokensOf (first ++ second) = tokensOf first ++ tokensOf second :=
  List.map_append

@[simp] theorem length_tokensOf (lexemes : List (Lexeme Token)) :
    (tokensOf lexemes).length = lexemes.length :=
  List.length_map _

/-- The reader of the operands of a level. -/
def operandOf (inner : Parser Token Expr) : BinaryLevel → Parser Token Expr
  | .multiplicative => unary inner
  | .additive => product inner
  | .relational => sum inner
  | .equality => comparison inner
  | .and => equality inner
  | .or => conjunction inner

def expectedOf : BinaryLevel → Expected Token
  | .and => .token (.sign .and)
  | .or => .token (.sign .or)
  | _ => .somethingElse

/-- An operator of a level and its right operand. -/
abbrev operationOf (inner : Parser Token Expr) (level : BinaryLevel) :
    Parser Token (BinaryOp × Expr) :=
  operation (operandOf inner level) level (expectedOf level)

/-- Nothing that binds at least as tightly as `rank` goes on here. -/
structure StuckFrom (rank : Nat) (inner : Parser Token Expr) (rest : List (Lexeme Token)) :
    Prop where
  suffix : (suffix inner).Rejects rest
  operation : ∀ level : BinaryLevel, rank ≤ level.rank → (operationOf inner level).Rejects rest

/-- No expression goes on here. -/
def Stuck (rest : List (Lexeme Token)) : Prop :=
  ∃ bound inner, rest.length ≤ bound ∧ ReadsBack bound inner ∧ StuckFrom 1 inner rest ∧
    (assigned inner).Rejects rest

/-- Some expression goes on here. -/
def Taken (rest : List Token) : Prop :=
  ∀ bound inner, rest.length ≤ bound → ReadsBack bound inner →
    ∃ front back, rest = front ++ back ∧
      ((suffix inner).Yields front back (fun _ => True) ∨
        (∃ level, (operationOf inner level).Yields front back fun _ => True) ∨
        (assigned inner).Yields front back fun _ => True)

/-- Either every expression ends here, or some expression goes on. -/
def Settles (rest : List Token) : Prop :=
  Stops 0 rest ∨ Taken rest

theorem rank_pos (level : BinaryLevel) : 1 ≤ level.rank := by
  cases level <;> simp [BinaryLevel.rank]

theorem Stuck.stops {rest : List (Lexeme Token)} (stuck : Stuck rest)
    (settles : Settles (tokensOf rest)) : Stops 0 (tokensOf rest) := by
  refine settles.resolve_right fun taken => ?_
  obtain ⟨bound, inner, short, readsBack, ⟨suffixes, operations⟩, assignments⟩ := stuck
  obtain ⟨front, back, split, goes⟩ := taken bound inner (by simpa using short) readsBack
  rcases goes with goes | ⟨level, goes⟩ | goes
  · exact suffixes.not_yields split goes
  · exact (operations level (rank_pos level)).not_yields split goes
  · exact assignments.not_yields split goes

theorem readBack_operandOf {bound : Nat} {inner : Parser Token Expr}
    (readsBack : ReadsBack bound inner) (level : BinaryLevel) :
    ReadBackFrom (level.rank + 1) (bound + 1) (operandOf inner level) := by
  have products := readBack_leftAssociative .multiplicative .somethingElse (readBack_unary readsBack)
  have sums := readBack_leftAssociative .additive .somethingElse products
  have comparisons := readBack_leftAssociative .relational .somethingElse sums
  have equalities := readBack_leftAssociative .equality .somethingElse comparisons
  have conjunctions := readBack_leftAssociative .and (.token (.sign .and)) equalities
  cases level with
  | multiplicative => exact readBack_unary readsBack
  | additive => exact products
  | relational => exact sums
  | equality => exact comparisons
  | and => exact equalities
  | or => exact conjunctions

theorem taken_suffix {part : Suffix} {rest : List Token} (fits : part.Fits rest) :
    Taken (part.tokens ++ rest) := by
  intro bound inner short readsBack
  refine ⟨part.tokens, rest, rfl, .inl ((yields_suffix readsBack ?_ fits).mono fun _ _ => trivial)⟩
  rw [List.length_append] at short
  omega

theorem taken_operation {op : BinaryOp} {rhs : Expr} {rest : List Token}
    (tighter : op.level.rank < rhs.rank) (fits : rhs.Fits rest)
    (stops : Stops (op.level.rank + 1) rest) :
    Taken (operationTokens (op, rhs) ++ rest) := by
  intro bound inner short readsBack
  have own : (operationTokens (op, rhs)).length = rhs.tokens.length + 1 := rfl
  rw [List.length_append] at short
  refine ⟨operationTokens (op, rhs), rest, rfl, .inr (.inl ⟨op.level, ?_⟩)⟩
  exact (yields_operation _ (readBack_operandOf readsBack op.level) (by omega) tighter fits
    stops).mono fun _ _ => trivial

theorem taken_assigned {rhs : Expr} {rest : List Token} (fits : rhs.Fits rest)
    (stops : Stops 0 rest) : Taken (.assign :: (rhs.tokens ++ rest)) := by
  intro bound inner short readsBack
  simp only [List.length_cons, List.length_append] at short
  exact ⟨.assign :: rhs.tokens, rest, rfl, .inr (.inr
    ((yields_assigned readsBack (by omega) fits stops).mono fun _ _ => trivial))⟩

/-- What an expression inside an expression was read from. -/
structure InnerRead (used rest : List (Lexeme Token)) (found : Expr) : Prop where
  spelled : tokensOf used = found.tokens
  stuck : Stuck rest
  fits : Stops 0 (tokensOf rest) → found.Fits (tokensOf rest)

/-- A reader for the expressions inside an expression, on at most `bound` lexemes. -/
structure ReadsInner (bound : Nat) (reader : Parser Token Expr) : Prop where
  back : ReadsBack bound reader
  reads : reader.Reads fun used rest found =>
    used.length + rest.length ≤ bound → InnerRead used rest found
  covers : reader.Ensures (Covers Expr.span)

variable {bound : Nat} {inner : Parser Token Expr}

theorem reads_name : name.Reads fun used _ found =>
    ∃ lexeme, used = [lexeme] ∧ lexeme.token = .ident found := by
  refine ensures_name.mono ?_
  rintro used rest found errors ⟨lexeme, rfl, spelled, -⟩ -
  exact ⟨lexeme, rfl, spelled⟩

theorem reads_type : type.Reads fun used _ found =>
    tokensOf used = found.tokens ∧ found.Named :=
  (reads_of_ensures ensures_type).mono fun _ _ _ held => ⟨held.1, held.2.1⟩

theorem stops_of_token {lexeme : Lexeme Token} {wanted : Token} {rest : List (Lexeme Token)}
    (same : lexeme.token = wanted) (weak : wanted.strength = 0) :
    Stops 0 (tokensOf (lexeme :: rest)) := by
  rw [tokensOf_cons, same]
  exact stops_cons.mpr (Nat.le_of_eq weak)

/-- Expressions behind commas, before something that ends an expression. -/
theorem allFit_of_series {used rest : List (Lexeme Token)} {args : List Expr}
    (series : Series (After .comma fun used rest found =>
      used.length + rest.length ≤ bound → InnerRead used rest found) used rest args)
    (short : used.length + rest.length ≤ bound) (stops : Stops 0 (tokensOf rest)) :
    tokensOf used = Expr.moreTokens args ∧ Expr.AllFit args (tokensOf rest) ∧
      Stops 0 (tokensOf (used ++ rest)) := by
  induction series with
  | nil rest => exact ⟨rfl, trivial, stops⟩
  | @cons used more rest expr exprs held following ih =>
      obtain ⟨comma, own, rfl, marked, read⟩ := held
      simp only [List.length_append, List.length_cons] at short
      obtain ⟨spelled', fit, stops'⟩ := ih (by omega) stops
      obtain ⟨spelled, -, fits⟩ := read (by rw [List.length_append]; omega)
      refine ⟨?_, ⟨?_, fit⟩, stops_of_token marked rfl⟩
      · rw [Expr.moreTokens, tokensOf_append, tokensOf_cons, marked, spelled, spelled']
        rfl
      · have before := fits stops'
        rwa [tokensOf_append, spelled'] at before

theorem reads_arguments (readsInner : ReadsInner bound inner) :
    (arguments inner).Reads fun used rest args => used.length + rest.length ≤ bound + 1 →
      tokensOf used = Expr.argTokens args ∧
        Expr.AllFit args (.parenClose :: tokensOf rest) := by
  refine Reads.labelled "arguments" (((readsInner.reads.separated Token.comma
    (consumes_of_covers readsInner.covers)).between Token.parenOpen .parenClose).mono ?_)
  rintro used rest args ⟨opening, inside, closing, rfl, opened, closed, read⟩ short
  have stops : Stops 0 (tokensOf (closing :: rest)) := stops_of_token closed rfl
  simp only [List.length_cons, List.length_append] at short
  rcases read with ⟨front, back, first, others, rfl, rfl, held, series⟩ | ⟨rfl, rfl⟩
  · rw [List.length_append] at short
    obtain ⟨spelled', fit, stops'⟩ :=
      allFit_of_series series (by simp only [List.length_cons]; omega) stops
    obtain ⟨spelled, -, fits⟩ :=
      held (by simp only [List.length_append, List.length_cons]; omega)
    have before := fits stops'
    rw [tokensOf_append, spelled', tokensOf_cons, closed] at before
    rw [tokensOf_cons, closed] at fit
    refine ⟨?_, before, fit⟩
    rw [Expr.argTokens, tokensOf_cons, tokensOf_append, tokensOf_append, opened, spelled, spelled']
    simp [closed]
  · exact ⟨by simp [Expr.argTokens, opened, closed], trivial⟩

/-- What an atom was read from. -/
structure AtomRead (used rest : List (Lexeme Token)) (found : Expr) : Prop where
  spelled : tokensOf used = found.tokens
  isAtom : 9 ≤ found.rank
  fits : Settles (tokensOf rest) → found.Fits (tokensOf rest)

theorem eq_token_of_literalOf? {token : Token} {value : Literal}
    (chosen : literalOf? token = some value) : token = value.token := by
  unfold literalOf? at chosen
  split at chosen <;> cases chosen <;> rfl

theorem reads_literal : literal.Reads AtomRead := by
  refine Reads.labelled "literal" (((reads_select _ _).spanned.bind fun found =>
    reads_pure (Expr.literal found.2 found.1)).mono ?_)
  rintro used rest _ ⟨_, _, found, rfl, ⟨⟨lexeme, rfl, chosen⟩, -⟩, rfl, rfl⟩
  refine ⟨?_, Nat.le_refl _, fun _ => trivial⟩
  simp [Expr.tokens, eq_token_of_literalOf? chosen]

theorem reads_ident : ident.Reads AtomRead := by
  refine (reads_name.spanned.bind fun found => reads_pure (Expr.ident found.2 found.1)).mono ?_
  rintro used rest _ ⟨_, _, found, rfl, ⟨⟨lexeme, rfl, spelled⟩, -⟩, rfl, rfl⟩
  exact ⟨by simp [Expr.tokens, spelled], Nat.le_refl _, fun _ => trivial⟩

theorem reads_lambda (readsInner : ReadsInner bound inner) :
    (lambda inner).Reads fun used rest found =>
      used.length + rest.length ≤ bound + 1 → AtomRead used rest found := by
  refine Reads.labelled "lambda" (((reads_name.bind fun param => (reads_token Token.arrow).bind
    fun _ => readsInner.reads.bind fun body => reads_pure (param, body)).spanned.bind fun found =>
      reads_pure (Expr.lambda found.2 found.1.1 found.1.2)).mono ?_)
  rintro used rest _ ⟨_, _, ⟨⟨param, body⟩, span⟩, rfl, ⟨⟨_, _, _, rfl, ⟨name, rfl, named⟩,
    _, _, _, rfl, ⟨arrow, rfl, arrowed⟩, own, _, _, rfl, held, rfl, same⟩, -⟩, rfl, rfl⟩ short
  cases same
  simp only [List.append_nil, List.nil_append, List.length_append, List.length_cons] at held short
  obtain ⟨spelled, stuck, fits⟩ := held (by omega)
  refine ⟨by simp [Expr.tokens, named, arrowed, spelled], Nat.le_refl _, fun settles => ?_⟩
  have stops := stuck.stops settles
  exact ⟨stops, fits stops⟩

theorem reads_newObject (readsInner : ReadsInner bound inner) :
    (newObject inner).Reads fun used rest found =>
      used.length + rest.length ≤ bound + 1 → AtomRead used rest found := by
  refine (((reads_token (Token.keyword .newWord)).bind fun _ => reads_type.bind
    fun type => (reads_arguments readsInner).bind fun args =>
      reads_pure (type, args)).spanned.bind fun found =>
        reads_pure (Expr.new found.2 found.1.1 found.1.2)).mono ?_
  rintro used rest _ ⟨_, _, ⟨⟨type, args⟩, span⟩, rfl, ⟨⟨_, _, _, rfl, ⟨word, rfl, isNew⟩,
    front, _, _, rfl, ⟨spelled, named⟩, back, _, _, rfl, held, rfl, same⟩, -⟩, rfl, rfl⟩ short
  cases same
  simp only [List.append_nil, List.nil_append, List.length_append, List.length_cons] at held short
  obtain ⟨spelled', fit⟩ := held (by omega)
  refine ⟨?_, Nat.le_refl _, fun _ => ⟨named, fit⟩⟩
  simp [Expr.tokens, isNew, spelled, spelled']

theorem reads_paren (readsInner : ReadsInner bound inner) :
    (paren inner).Reads fun used rest found =>
      used.length + rest.length ≤ bound + 1 → AtomRead used rest found := by
  refine Reads.recoverWith (((readsInner.reads.between Token.parenOpen .parenClose).spanned.bind
    fun found => reads_pure (Expr.paren found.2 found.1)).mono ?_) (advances_of
      ((ensures_skipGroup _ _ _).bind fun _ => ensures_pure _))
  rintro used rest _ ⟨_, _, found, rfl, ⟨⟨opening, inside, closing, rfl, opened, closed, held⟩, -⟩,
    rfl, rfl⟩ short
  simp only [List.append_nil, List.nil_append, List.length_append, List.length_cons] at held short
  obtain ⟨spelled, -, fits⟩ := held (by omega)
  refine ⟨by simp [Expr.tokens, opened, closed, spelled], Nat.le_refl _, fun _ => ?_⟩
  have before := fits (stops_of_token closed rfl)
  rwa [tokensOf_cons, closed] at before

theorem reads_atom (readsInner : ReadsInner bound inner) :
    (atom inner).Reads fun used rest found =>
      used.length + rest.length ≤ bound + 1 → AtomRead used rest found := by
  refine (reads_literal.orElse ((reads_lambda readsInner).orElse ((reads_newObject readsInner).orElse
    (reads_ident.orElse (reads_paren readsInner))))).mono ?_
  rintro used rest found (held | ⟨-, held | ⟨-, held | ⟨-, held | ⟨-, held⟩⟩⟩⟩) short
  · exact held
  · exact held short
  · exact held short
  · exact held
  · exact held short

theorem reads_memberTypeArgs : memberTypeArgs.Reads fun used rest types =>
    tokensOf used = typeArgTokens types ∧ types ≠ [] ∧ (∀ type ∈ types, type.Named) ∧
      (tokensOf rest).head? = some .parenOpen := by
  have args : (typeArgs type).Reads fun used _ types =>
      tokensOf used = typeArgTokens types ∧ types ≠ [] ∧ ∀ type ∈ types, type.Named :=
    (reads_of_ensures (ensures_typeArgs ensures_type)).mono fun _ _ _ held => ⟨held.1, held.2.1⟩
  refine (args.bind fun types => (reads_of_ensures (ensures_token Token.parenOpen).ahead).bind
    fun _ => reads_pure types).mono ?_
  rintro used rest types ⟨front, _, _, rfl, ⟨spelled, nonempty, named⟩, _, _, _, rfl,
    ⟨rfl, -, _, back, _, _, input, lexeme, rfl, opened, -⟩, rfl, rfl⟩
  have rest_eq : rest = lexeme :: back := by simpa using input
  exact ⟨by simpa using spelled, nonempty, named, by simp [rest_eq, opened]⟩

theorem reads_memberSuffix : memberSuffix.Reads fun used rest part =>
    tokensOf used = part.tokens ∧ part.Fits (tokensOf rest) := by
  refine ((reads_token Token.dot).bind fun _ => reads_name.bind fun name =>
    reads_memberTypeArgs.optional.bind fun typeArgs =>
      reads_pure (Suffix.member name (typeArgs.getD []))).mono ?_
  rintro used rest _ ⟨_, _, _, rfl, ⟨dot, rfl, dotted⟩, _, _, _, rfl, ⟨lexeme, rfl, named⟩,
    args, _, _, rfl, read, rfl, rfl⟩
  rcases read with ⟨types, rfl, spelled, nonempty, areNamed, called⟩ | ⟨rfl, rfl, rejects⟩
  · refine ⟨by simp [Suffix.tokens, dotted, named, spelled], areNamed, ?_, fun _ => called⟩
    exact fun none_left => absurd none_left nonempty
  · refine ⟨by simp [Suffix.tokens, dotted, named, typeArgTokens], by simp, ?_, by simp⟩
    rintro - ⟨types, behind, nonempty, areNamed, opens⟩
    rw [List.nil_append] at rejects
    exact rejects.not_yields opens (yields_memberTypeArgs nonempty areNamed rfl)

theorem reads_callSuffix (readsInner : ReadsInner bound inner) :
    (callSuffix inner).Reads fun used rest part => used.length + rest.length ≤ bound + 1 →
      tokensOf used = part.tokens ∧ part.Fits (tokensOf rest) := by
  refine ((reads_arguments readsInner).bind fun args => reads_pure (Suffix.call args)).mono ?_
  rintro used rest _ ⟨front, _, args, rfl, held, rfl, rfl⟩ short
  rw [List.append_nil] at short ⊢
  exact held short

theorem reads_indexSuffix (readsInner : ReadsInner bound inner) :
    (indexSuffix inner).Reads fun used rest part => used.length + rest.length ≤ bound + 1 →
      tokensOf used = part.tokens ∧ part.Fits (tokensOf rest) := by
  refine ((readsInner.reads.between Token.bracketOpen .bracketClose).bind fun position =>
    reads_pure (Suffix.index position)).mono ?_
  rintro used rest _ ⟨_, _, position, rfl, ⟨opening, inside, closing, rfl, opened, closed, held⟩,
    rfl, rfl⟩ short
  simp only [List.append_nil, List.nil_append, List.length_append, List.length_cons] at held short
  obtain ⟨spelled, -, fits⟩ := held (by omega)
  refine ⟨by simp [Suffix.tokens, opened, closed, spelled], ?_⟩
  have before := fits (stops_of_token closed rfl)
  rwa [tokensOf_cons, closed] at before

theorem reads_suffix (readsInner : ReadsInner bound inner) :
    (suffix inner).Reads fun used rest part => used.length + rest.length ≤ bound + 1 →
      tokensOf used = part.1.tokens ∧ part.1.Fits (tokensOf rest) := by
  refine (reads_memberSuffix.spanned.orElse ((reads_callSuffix readsInner).spanned.orElse
    (reads_indexSuffix readsInner).spanned)).mono ?_
  rintro used rest part (⟨held, -⟩ | ⟨-, ⟨held, -⟩ | ⟨-, held, -⟩⟩) short
  · exact held
  · exact held short
  · exact held short

theorem allFit_suffixes {used rest : List (Lexeme Token)} {parts : List (Suffix × Span)}
    (series : Series (fun used rest part => used.length + rest.length ≤ bound + 1 →
      tokensOf used = part.1.tokens ∧ part.1.Fits (tokensOf rest)) used rest parts)
    (short : used.length + rest.length ≤ bound + 1) :
    tokensOf used = (parts.map Prod.fst).flatMap Suffix.tokens ∧
      Suffix.AllFit (parts.map Prod.fst) (tokensOf rest) := by
  induction series with
  | nil rest => exact ⟨rfl, trivial⟩
  | @cons used more rest part parts held following ih =>
      rw [List.length_append] at short
      obtain ⟨spelled', fit⟩ := ih (by omega)
      obtain ⟨spelled, fits⟩ := held (by rw [List.length_append]; omega)
      rw [tokensOf_append, spelled'] at fits
      refine ⟨?_, fits, fit⟩
      rw [tokensOf_append, spelled, spelled']
      rfl

/-- A target with suffixes that fit behind it. -/
theorem foldl_attach {target : Expr} (parts : List (Suffix × Span)) (tight : 8 ≤ target.rank) :
    (parts.foldl Suffix.attach target).tokens =
        target.tokens ++ (parts.map Prod.fst).flatMap Suffix.tokens ∧
      8 ≤ (parts.foldl Suffix.attach target).rank ∧
      ∀ rest : List Token, target.Fits ((parts.map Prod.fst).flatMap Suffix.tokens ++ rest) →
        Suffix.AllFit (parts.map Prod.fst) rest →
          (parts.foldl Suffix.attach target).Fits rest := by
  induction parts generalizing target with
  | nil => exact ⟨by simp, tight, fun rest fits _ => by simpa using fits⟩
  | cons part parts ih =>
      obtain ⟨part, span⟩ := part
      have attached : (Suffix.attach target (part, span)).tokens = target.tokens ++ part.tokens ∧
          8 ≤ (Suffix.attach target (part, span)).rank ∧
          ∀ rest : List Token, target.Fits (part.tokens ++ rest) → part.Fits rest →
            (Suffix.attach target (part, span)).Fits rest := by
        cases part with
        | member name typeArgs =>
            exact ⟨by rw [Suffix.attach, Expr.tokens]; rfl, Nat.le_refl _,
              fun rest fits partFits => ⟨tight, fits, partFits⟩⟩
        | call args =>
            exact ⟨by rw [Suffix.attach, Expr.tokens]; rfl, Nat.le_refl _,
              fun rest fits partFits => ⟨tight, fits, partFits⟩⟩
        | index position =>
            exact ⟨by rw [Suffix.attach, Expr.tokens]; rfl, Nat.le_refl _,
              fun rest fits partFits => ⟨tight, by simpa [Suffix.tokens] using fits, partFits⟩⟩
      obtain ⟨spelled, tight', build⟩ := attached
      obtain ⟨spelled', tight'', build'⟩ := ih tight'
      refine ⟨?_, tight'', fun rest fits allFit => ?_⟩
      · rw [List.foldl_cons, spelled', spelled]
        simp
      · refine build' rest (build _ ?_ allFit.1) allFit.2
        simpa using fits

/-- What an operand was read from: nothing that binds as tightly goes on behind it. -/
structure ReadFrom (rank : Nat) (inner : Parser Token Expr) (used rest : List (Lexeme Token))
    (found : Expr) : Prop where
  spelled : tokensOf used = found.tokens
  tight : rank ≤ found.rank
  stuck : StuckFrom rank inner rest
  fits : Stops rank (tokensOf rest) → Settles (tokensOf rest) → found.Fits (tokensOf rest)

theorem reads_postfixed (readsInner : ReadsInner bound inner) :
    (postfixed inner).Reads fun used rest found =>
      used.length + rest.length ≤ bound + 1 → ReadFrom 8 inner used rest found := by
  refine ((reads_atom readsInner).bind fun target => ((reads_suffix readsInner).many
    (consumes_of_covers (suffix_covers readsInner.covers))).bind fun parts =>
      reads_pure (parts.foldl Suffix.attach target)).mono ?_
  rintro used rest _ ⟨front, _, target, rfl, held, back, _, parts, rfl, ⟨series, rejects⟩, rfl, rfl⟩
    short
  simp only [List.append_nil, List.nil_append, List.length_append] at held series short ⊢
  obtain ⟨spelled, isAtom, fits⟩ := held (by omega)
  obtain ⟨spelled', allFit⟩ := allFit_suffixes series (by omega)
  have tight : 8 ≤ target.rank := Nat.le_trans (Nat.le_succ 8) isAtom
  obtain ⟨whole, tight', build⟩ := foldl_attach parts tight
  refine ⟨?_, tight', ⟨rejects, fun level tighter => ?_⟩, fun stops settles => build _ ?_ allFit⟩
  · rw [tokensOf_append, spelled, spelled', whole]
  · cases level <;> simp [BinaryLevel.rank] at tighter
  · rw [tokensOf_append, spelled'] at fits
    refine fits ?_
    cases parts with
    | nil => simpa using settles
    | cons part parts =>
        refine .inr ?_
        simpa using taken_suffix allFit.1

theorem eq_sign_of_ofSign? {operator : Sign} {op : UnaryOp}
    (chosen : UnaryOp.ofSign? operator = some op) : operator = op.sign := by
  unfold UnaryOp.ofSign? at chosen
  split at chosen <;> cases chosen <;> rfl

theorem reads_unarySign : unarySign.Reads fun used _ op =>
    ∃ lexeme, used = [lexeme] ∧ lexeme.token = .sign op.sign := by
  refine (reads_select _ _).mono ?_
  rintro used rest op ⟨lexeme, rfl, chosen⟩
  refine ⟨lexeme, rfl, ?_⟩
  split at chosen
  · rename_i operator shape
    rw [shape, eq_sign_of_ofSign? chosen]
  · simp at chosen

/-- Signs in front of an operand that fits. -/
theorem foldr_signed {operand : Expr} {used rest : List (Lexeme Token)}
    {signs : List (UnaryOp × Span)}
    (series : Series (fun used _ sign => (∃ lexeme, used = [lexeme] ∧
      lexeme.token = .sign sign.1.sign) ∧ (used ≠ [] → sign.2 = spanOf used)) used rest signs)
    (tight : 7 ≤ operand.rank) :
    (signs.foldr signed operand).tokens = tokensOf used ++ operand.tokens ∧
      7 ≤ (signs.foldr signed operand).rank ∧
      ∀ rest : List Token, operand.Fits rest → (signs.foldr signed operand).Fits rest := by
  induction series with
  | nil rest => exact ⟨rfl, tight, fun _ fits => fits⟩
  | @cons used more rest sign signs held following ih =>
      obtain ⟨⟨lexeme, rfl, isSign⟩, -⟩ := held
      obtain ⟨spelled, tight', build⟩ := ih
      refine ⟨?_, Nat.le_refl _, fun rest fits => ⟨tight', build rest fits⟩⟩
      rw [List.foldr_cons, signed, Expr.tokens, spelled]
      simp [isSign]

theorem reads_unary (readsInner : ReadsInner bound inner) :
    (unary inner).Reads fun used rest found =>
      used.length + rest.length ≤ bound + 1 → ReadFrom 7 inner used rest found := by
  have sign_consumes : (spanned unarySign).Ensures Consumes :=
    (select_consumes _ _).spanned.mono fun _ _ _ _ held => held.1
  refine ((reads_unarySign.spanned.many sign_consumes).bind fun signs =>
    (reads_postfixed readsInner).bind fun operand =>
      reads_pure (signs.foldr signed operand)).mono ?_
  rintro used rest _ ⟨front, _, signs, rfl, ⟨series, -⟩, back, _, operand, rfl, held, rfl, rfl⟩ short
  simp only [List.append_nil, List.nil_append, List.length_append] at held short ⊢
  obtain ⟨spelled, tight, stuck, fits⟩ := held (by omega)
  obtain ⟨whole, tight', build⟩ := foldr_signed series (Nat.le_trans (Nat.le_succ 7) tight)
  refine ⟨?_, tight', ⟨stuck.suffix, fun level tighter => ?_⟩, fun stops settles => ?_⟩
  · rw [tokensOf_append, spelled, whole]
  · cases level <;> simp [BinaryLevel.rank] at tighter
  · exact build _ (fits (stops.mono (Nat.le_succ 7)) settles)

/-- What an operator and its right operand were read from. -/
def OperationRead (bound : Nat) (inner : Parser Token Expr) (level : BinaryLevel) :
    CleanPost Token (BinaryOp × Expr) := fun used rest part =>
  ∃ lexeme own, used = lexeme :: own ∧ lexeme.token = .sign part.1.sign ∧
    part.1.level = level ∧
    (own.length + rest.length ≤ bound + 1 → ReadFrom (level.rank + 1) inner own rest part.2)

theorem eq_sign_of_ofSignAt? {level : BinaryLevel} {operator : Sign} {op : BinaryOp}
    (chosen : BinaryOp.ofSignAt? level operator = some op) : operator = op.sign ∧ op.level = level := by
  obtain ⟨known, atLevel⟩ := Option.filter_eq_some_iff.mp chosen
  refine ⟨?_, by simpa using atLevel⟩
  unfold BinaryOp.ofSign? at known
  split at known <;> cases known <;> rfl

theorem reads_operation {level : BinaryLevel}
    (reads : (operandOf inner level).Reads fun used rest found =>
      used.length + rest.length ≤ bound + 1 → ReadFrom (level.rank + 1) inner used rest found) :
    (operationOf inner level).Reads (OperationRead bound inner level) := by
  refine ((reads_select _ _).bind fun op => reads.bind fun rhs => reads_pure (op, rhs)).mono ?_
  rintro used rest _ ⟨_, _, op, rfl, ⟨lexeme, rfl, chosen⟩, own, _, rhs, rfl, held, rfl, rfl⟩
  refine ⟨lexeme, own, by simp, ?_⟩
  split at chosen
  · rename_i operator shape
    obtain ⟨rfl, atLevel⟩ := eq_sign_of_ofSignAt? chosen
    exact ⟨shape, atLevel, by simpa using held⟩
  · simp at chosen

theorem operations_of_series {level : BinaryLevel} {used rest : List (Lexeme Token)}
    {parts : List (BinaryOp × Expr)}
    (series : Series (OperationRead bound inner level) used rest parts)
    (short : used.length + rest.length ≤ bound + 1) :
    tokensOf used = parts.flatMap operationTokens ∧ (∀ part ∈ parts, part.1.level = level) ∧
      (parts ≠ [] → StuckFrom (level.rank + 1) inner rest) ∧
      (Stops level.rank (tokensOf rest) → Settles (tokensOf rest) →
        OperationsFit level parts (tokensOf rest) ∧ Settles (tokensOf (used ++ rest))) := by
  induction series with
  | nil rest => exact ⟨rfl, by simp, fun none_left => absurd rfl none_left,
      fun _ settles => ⟨trivial, settles⟩⟩
  | @cons used more rest part parts held following ih =>
      obtain ⟨lexeme, own, rfl, isSign, rfl, held⟩ := held
      simp only [List.length_append, List.length_cons] at short
      obtain ⟨spelled', levels, stuck', build⟩ := ih (by omega)
      obtain ⟨spelled, tight, stuck, fits⟩ := held (by rw [List.length_append]; omega)
      refine ⟨?_, List.forall_mem_cons.mpr ⟨rfl, levels⟩, fun _ => ?_, fun stops settles => ?_⟩
      · simp [operationTokens, isSign, spelled, spelled']
      · cases following with
        | nil rest => exact stuck
        | cons held' following' => exact stuck' (List.cons_ne_nil _ _)
      · obtain ⟨allFit, settles'⟩ := build stops settles
        have stops' := stops_operations allFit stops
        rw [tokensOf_append, spelled'] at fits settles'
        have rhsFits := fits stops' settles'
        refine ⟨⟨rfl, tight, rhsFits, allFit⟩, .inr ?_⟩
        have taken := taken_operation tight rhsFits stops'
        simpa [operationTokens, isSign, spelled, spelled'] using taken

/-- A first operand with operations that fit behind it. -/
theorem foldl_combined {level : BinaryLevel} {first : Expr} (parts : List (BinaryOp × Expr))
    (tight : level.rank ≤ first.rank) (levels : ∀ part ∈ parts, part.1.level = level) :
    (parts.foldl combined first).tokens = first.tokens ++ parts.flatMap operationTokens ∧
      level.rank ≤ (parts.foldl combined first).rank ∧
      ∀ rest : List Token, first.Fits (parts.flatMap operationTokens ++ rest) →
        OperationsFit level parts rest → (parts.foldl combined first).Fits rest := by
  induction parts generalizing first with
  | nil => exact ⟨by simp, tight, fun rest fits _ => by simpa using fits⟩
  | cons part parts ih =>
      obtain ⟨rfl, levels⟩ := List.forall_mem_cons.mp levels
      obtain ⟨spelled, tight', build⟩ := @ih (combined first part) (Nat.le_refl _) levels
      refine ⟨?_, tight', fun rest fits allFit => ?_⟩
      · rw [List.foldl_cons, spelled, combined, Expr.tokens]
        simp [operationTokens]
      · refine build rest ⟨tight, allFit.2.1, ?_, allFit.2.2.1⟩ allFit.2.2.2
        simpa [operationTokens] using fits

theorem reads_level (level : BinaryLevel)
    (reads : (operandOf inner level).Reads fun used rest found =>
      used.length + rest.length ≤ bound + 1 → ReadFrom (level.rank + 1) inner used rest found) :
    (leftAssociative (operandOf inner level) (binarySign level (expectedOf level))).Reads
      fun used rest found =>
        used.length + rest.length ≤ bound + 1 → ReadFrom level.rank inner used rest found := by
  have consumes : (operationOf inner level).Ensures Consumes :=
    bind_consumes (select_consumes _ _) fun _ =>
      advances_of (Ensures.bind reads fun _ => ensures_pure _)
  refine (reads.bind fun first => ((reads_operation reads).many consumes).bind fun parts =>
    reads_pure (parts.foldl combined first)).mono ?_
  rintro used rest _ ⟨front, _, first, rfl, held, back, _, parts, rfl, ⟨series, rejects⟩, rfl, rfl⟩
    short
  simp only [List.append_nil, List.nil_append, List.length_append] at held series short ⊢
  obtain ⟨spelled, tight, stuck, fits⟩ := held (by omega)
  obtain ⟨spelled', levels, stuck', build⟩ := operations_of_series series (by omega)
  obtain ⟨whole, tight', build'⟩ := foldl_combined parts (Nat.le_of_lt tight) levels
  refine ⟨?_, tight', ?_, fun stops settles => ?_⟩
  · rw [tokensOf_append, spelled, spelled', whole]
  · have tighter : StuckFrom (level.rank + 1) inner rest := by
      cases series with
      | nil rest => simpa using stuck
      | cons held' following => exact stuck' (List.cons_ne_nil _ _)
    refine ⟨tighter.suffix, fun other looser => ?_⟩
    by_cases same : other.rank = level.rank
    · rwa [BinaryLevel.eq_of_rank_eq same]
    · exact tighter.operation other (by omega)
  · obtain ⟨allFit, settles'⟩ := build stops settles
    rw [tokensOf_append, spelled'] at fits settles'
    exact build' _ (fits (stops_operations allFit stops) settles') allFit

theorem reads_disjunction (readsInner : ReadsInner bound inner) :
    (disjunction inner).Reads fun used rest found =>
      used.length + rest.length ≤ bound + 1 → ReadFrom 1 inner used rest found :=
  have product := reads_level .multiplicative (reads_unary readsInner)
  have sum := reads_level .additive product
  have comparison := reads_level .relational sum
  have equality := reads_level .equality comparison
  have conjunction := reads_level .and equality
  reads_level .or conjunction

theorem reads_exprRule (readsInner : ReadsInner bound inner) :
    (exprRule inner).Reads fun used rest found =>
      used.length + rest.length ≤ bound + 1 → InnerRead used rest found := by
  have rhs_reads : (assigned inner).Reads (After .assign fun used rest found =>
      used.length + rest.length ≤ bound → InnerRead used rest found) := by
    refine ((reads_token Token.assign).bind fun _ => readsInner.reads).mono ?_
    rintro used rest rhs ⟨_, own, _, rfl, ⟨lexeme, rfl, marked⟩, held⟩
    exact ⟨lexeme, own, rfl, marked, held⟩
  refine Reads.labelled "expression" (((reads_disjunction readsInner).bind fun lhs =>
    rhs_reads.optional.bind fun found =>
      show Reads _ fun used _ value => used = [] ∧ value = assignedTo lhs found from ?_).mono ?_)
  · cases found with
    | none => exact reads_pure lhs
    | some rhs => exact reads_pure _
  rintro used rest _ ⟨front, _, lhs, rfl, held, back, _, found, rfl, choice, rfl, rfl⟩ short
  simp only [List.append_nil, List.nil_append, List.length_append] at held choice short ⊢
  obtain ⟨spelled, tight, stuck, fits⟩ := held (by omega)
  rcases choice with ⟨rhs, rfl, equals, own, rfl, marked, held'⟩ | ⟨rfl, rfl, rejects⟩
  · rw [List.length_cons] at short
    obtain ⟨spelled', stuck', fits'⟩ := held' (by omega)
    refine ⟨?_, stuck', fun stops => ?_⟩
    · simp [assignedTo, Expr.tokens, spelled, spelled', marked]
    · have rhsFits := fits' stops
      simp only [List.cons_append, tokensOf_cons, tokensOf_append, marked, spelled'] at fits
      refine ⟨tight, fits (stops_cons.mpr (Nat.le_refl _)) (.inr ?_), rhsFits⟩
      exact taken_assigned rhsFits stops
  · rw [List.nil_append] at stuck fits
    refine ⟨by simpa [assignedTo] using spelled, ⟨bound, inner, ?_, readsInner.back, stuck, rejects⟩,
      ?_⟩
    · have nonempty := congrArg List.length spelled
      have written := List.length_pos_iff.mpr lhs.tokens_ne_nil
      rw [length_tokensOf] at nonempty
      simp only [List.length_nil] at short
      omega
    · exact fun stops => fits (stops.mono (Nat.zero_le 1)) (.inl stops)

theorem readsInner_exprRule (readsInner : ReadsInner bound inner) :
    ReadsInner (bound + 1) (exprRule inner) :=
  ⟨readsBack_exprRule readsInner.back, reads_exprRule readsInner, exprRule_covers readsInner.covers⟩

/-- An expression that was read without errors is spelled by what was read, and fits
wherever it can end. -/
theorem reads_expr : expr.Reads fun used rest found => tokensOf used = found.tokens ∧
    (Stops 0 (tokensOf rest) → found.Fits (tokensOf rest)) := by
  have zero : ReadsInner 0 fun cursor _ => .rejected (cursor.refusal []) := by
    refine ⟨readsBack_none, ?_, ?_⟩ <;>
    · intro cursor furthest value after errors furthest' accepted
      simp at accepted
  refine Reads.recursive fun budget => ?_
  refine (unrolled_of_step zero (fun _ _ => readsInner_exprRule) budget).reads.mono ?_
  intro used rest found held short
  obtain ⟨spelled, -, fits⟩ := held (Nat.le_succ_of_le short)
  exact ⟨spelled, fits⟩

end QueryLoop.Grammar
