import QueryLoop.Proofs.Spelling.Types

namespace QueryLoop

open Parsing Parser

namespace Expr

theorem tokens_ne_nil (expr : Expr) : expr.tokens ≠ [] := by
  obtain ⟨tokens, spelled⟩ := expr.exists_tokens_eq
  simp [spelled]

/-- An operand that binds tightly does not start with an operator. -/
theorem headToken_of_tight {expr : Expr} {rest : List Token} (tight : 8 ≤ expr.rank)
    (fits : expr.Fits rest) (sign : Sign) : expr.headToken ≠ .sign sign := by
  cases expr with
  | literal span value =>
      cases value with
      | bool value => cases value <;> simp [headToken, Literal.token]
      | _ => simp [headToken, Literal.token]
  | member | call | index =>
      rw [headToken]
      exact headToken_of_tight fits.1 fits.2.1 sign
  | ident | new | lambda | paren | error => simp [headToken]
  | unary span op operand => simp [rank] at tight
  | binary span op lhs rhs => cases op <;> simp [rank, BinaryOp.level, BinaryLevel.rank] at tight
  | assign span lhs rhs => simp [rank] at tight

end Expr

/-- The tokens an expression can start with. -/
def Token.startsExpr : Token → Bool
  | .ident _ | .int _ | .float _ | .string _ | .sign _ | .parenOpen => true
  | .keyword .newWord | .keyword .trueWord | .keyword .falseWord | .keyword .nullWord => true
  | _ => false

namespace Grammar

/-- Expressions of at most `bound` tokens that bind at least as tightly as `rank` are
read back. -/
def ReadBackFrom (rank bound : Nat) (reader : Parser Token Expr) : Prop :=
  ∀ (found : Expr) (rest : List Token), found.tokens.length ≤ bound → rank ≤ found.rank →
    found.Fits rest → Stops rank rest → reader.Yields found.tokens rest (·.bare = found.bare)

/-- Nothing can be read here. -/
def Ends (tokens : List Token) : Prop :=
  ∀ token ∈ tokens.head?, token = .parenClose ∨ token = .semicolon ∨ token = .braceClose

/-- A reader for the expressions inside an expression. -/
structure ReadsBack (bound : Nat) (reader : Parser Token Expr) : Prop where
  yields : ReadBackFrom 0 bound reader
  refuses : ∀ rest, Ends rest → reader.Refuses rest

variable {bound : Nat} {inner : Parser Token Expr} {rest : List Token}

theorem literalOf?_token (value : Literal) : literalOf? value.token = some value := by
  cases value with
  | bool value => cases value <;> rfl
  | _ => rfl

theorem yields_arguments (readsBack : ReadsBack bound inner) {args : List Expr}
    (short : (Expr.argTokens args).length ≤ bound + 1)
    (fit : Expr.AllFit args (.parenClose :: rest)) :
    (arguments inner).Yields (Expr.argTokens args) rest
      fun found => found.map Expr.bare = args.map Expr.bare := by
  refine Yields.labelled "arguments" ?_
  rw [Expr.argTokens_eq] at short ⊢
  refine Yields.between ?_
  cases args with
  | nil =>
      refine (Yields.separated_nil (readsBack.refuses _ (by simp [Ends]))).mono ?_
      rintro _ rfl
      rfl
  | cons first others =>
      have each : ∀ before next behind, first :: others = before ++ next :: behind →
          inner.Yields next.tokens ((behind.flatMap fun other => Token.comma :: other.tokens) ++
            Token.parenClose :: rest) (·.bare = next.bare) := by
        intro before next behind split
        rw [split] at fit
        have fits := Expr.allFit_append fit
        rw [Expr.moreTokens_eq] at fits
        refine readsBack.yields next _ ?_ (Nat.zero_le _) fits ?_
        · have whole : (first :: others).flatMap (fun expr => Token.comma :: expr.tokens) =
              Token.comma :: Token.listed .comma Expr.tokens (first :: others) := rfl
          have counted := congrArg List.length whole
          rw [split] at counted short
          simp only [List.flatMap_append, List.flatMap_cons, List.length_append,
            List.length_cons, List.length_nil] at counted short
          omega
        · cases behind with
          | nil => exact stops_cons.mpr (Nat.le_refl _)
          | cons other behind => exact stops_cons.mpr (Nat.le_refl _)
      have read := Yields.separated1 Token.comma first others each (by simp)
      exact Yields.orElse_left (read.mono fun found alike => eq_of_forall₂ alike)

theorem refuses_literal (plain : ∀ token ∈ rest.head?, literalOf? token = none) :
    literal.Refuses rest :=
  Refuses.labelled "literal" (Refuses.bind_first (Refuses.spanned (refuses_select plain)))

theorem refuses_lambda (different : ∀ found, rest.head? ≠ some (.ident found)) :
    (lambda inner).Refuses rest :=
  Refuses.labelled "lambda"
    (Refuses.bind_first (Refuses.spanned (Refuses.bind_first (refuses_name different))))

theorem refuses_lambda_plain (found : String) (noArrow : rest.head? ≠ some .arrow) :
    (lambda inner).Refuses (.ident found :: rest) :=
  Refuses.labelled "lambda" (Refuses.bind_first (Refuses.spanned
    (Refuses.bind_second (yields_name found) fun _ _ =>
      Refuses.bind_first (refuses_token noArrow))))

theorem refuses_newObject (different : rest.head? ≠ some (.keyword .newWord)) :
    (newObject inner).Refuses rest :=
  Refuses.bind_first (Refuses.spanned (Refuses.bind_first (refuses_token different)))

theorem refuses_ident (different : ∀ found, rest.head? ≠ some (.ident found)) :
    ident.Refuses rest :=
  Refuses.bind_first (Refuses.spanned (refuses_name different))

theorem yields_lambda (readsBack : ReadsBack bound inner) (span : Span) (param : String)
    {body : Expr} (short : body.tokens.length ≤ bound) (fits : body.Fits rest)
    (stops : Stops 0 rest) :
    (lambda inner).Yields (.ident param :: .arrow :: body.tokens) rest
      (·.bare = (Expr.lambda span param body).bare) := by
  have parts : (do let param ← name; token .arrow; let body ← inner; return (param, body)).Yields
      (.ident param :: .arrow :: body.tokens) rest
      fun parts => parts.1 = param ∧ parts.2.bare = body.bare :=
    Yields.bind [.ident param] _ rfl (yields_name param) fun _ same => Yields.token_bind
      ((readsBack.yields body rest short (Nat.zero_le _) fits stops).map
        fun _ alike => ⟨same, alike⟩)
  refine Yields.labelled "lambda" (parts.spanned.map fun parts alike => ?_)
  rw [Expr.bare, Expr.bare, alike.1, alike.2]

theorem yields_newObject (readsBack : ReadsBack bound inner) (span : Span) {type : TypeRef}
    {args : List Expr} (short : (Expr.argTokens args).length ≤ bound + 1) (named : type.Named)
    (fit : Expr.AllFit args (.parenClose :: rest)) :
    (newObject inner).Yields (.keyword .newWord :: (type.tokens ++ Expr.argTokens args)) rest
      (·.bare = (Expr.new span type args).bare) := by
  have ends : EndsType (Expr.argTokens args ++ rest) := by
    rw [Expr.argTokens_eq]
    exact ⟨by simp, by simp⟩
  have parts : (do
      token (Token.keyword .newWord)
      let type ← Grammar.type
      let args ← arguments inner
      return (type, args)).Yields (.keyword .newWord :: (type.tokens ++ Expr.argTokens args)) rest
        fun parts => parts.1.bare = type.bare ∧ parts.2.map Expr.bare = args.map Expr.bare :=
    Yields.token_bind (Yields.bind _ _ rfl (yields_type named ends) fun _ same =>
      (yields_arguments readsBack short fit).map fun _ alike => ⟨same, alike⟩)
  refine parts.spanned.map fun parts alike => ?_
  rw [Expr.bare, Expr.bare, Expr.bareAll_eq, Expr.bareAll_eq, alike.1, alike.2]

theorem yields_paren (readsBack : ReadsBack bound inner) (span : Span) {content : Expr}
    (short : content.tokens.length ≤ bound) (fits : content.Fits (.parenClose :: rest)) :
    (paren inner).Yields (.parenOpen :: (content.tokens ++ [.parenClose])) rest
      (·.bare = (Expr.paren span content).bare) := by
  have inside := readsBack.yields content (.parenClose :: rest) short (Nat.zero_le _) fits
    (stops_cons.mpr (Nat.le_refl _))
  refine Yields.recoverWith ((Yields.between inside).spanned.map fun found alike => ?_)
  rw [Expr.bare, Expr.bare, alike]

theorem yields_atom (readsBack : ReadsBack bound inner) {found : Expr}
    (short : found.tokens.length ≤ bound + 1) (isAtom : 9 ≤ found.rank) (fits : found.Fits rest)
    (noArrow : rest.head? ≠ some .arrow) :
    (atom inner).Yields found.tokens rest (·.bare = found.bare) := by
  cases found with
  | literal span value =>
      rw [Expr.tokens]
      refine Yields.orElse_left (Yields.labelled "literal" ?_)
      refine (Yields.spanned (yields_select (literalOf?_token value))).map fun found same => ?_
      rw [Expr.bare, Expr.bare, same]
  | ident span name =>
      rw [Expr.tokens]
      refine Yields.orElse_right (refuses_literal (by simp [literalOf?])) ?_
      refine Yields.orElse_right (refuses_lambda_plain name noArrow) ?_
      refine Yields.orElse_right (refuses_newObject (by simp)) (Yields.orElse_left ?_)
      refine (yields_name name).spanned.map fun found same => ?_
      rw [Expr.bare, Expr.bare, same]
  | lambda span param body =>
      rw [Expr.tokens] at short ⊢
      refine Yields.orElse_right (refuses_literal (by simp [literalOf?])) (Yields.orElse_left ?_)
      refine yields_lambda readsBack span param ?_ fits.2 fits.1
      simp only [List.length_cons] at short
      omega
  | new span type args =>
      rw [Expr.tokens] at short ⊢
      refine Yields.orElse_right (refuses_literal (by simp [literalOf?])) ?_
      refine Yields.orElse_right (refuses_lambda (by simp)) (Yields.orElse_left ?_)
      refine yields_newObject readsBack span ?_ fits.1 fits.2
      simp only [List.length_cons, List.length_append] at short
      omega
  | paren span content =>
      rw [Expr.tokens] at short ⊢
      refine Yields.orElse_right (refuses_literal (by simp [literalOf?])) ?_
      refine Yields.orElse_right (refuses_lambda (by simp)) ?_
      refine Yields.orElse_right (refuses_newObject (by simp)) ?_
      refine Yields.orElse_right (refuses_ident (by simp)) ?_
      refine yields_paren readsBack span ?_ fits
      simp only [List.length_cons, List.length_append] at short
      omega
  | error span => exact absurd fits (by simp [Expr.Fits])
  | member span target name typeArgs => simp [Expr.rank] at isAtom
  | call span callee args => simp [Expr.rank] at isAtom
  | index span target position => simp [Expr.rank] at isAtom
  | unary span op operand => simp [Expr.rank] at isAtom
  | binary span op lhs rhs =>
      cases op <;> simp [Expr.rank, BinaryOp.level, BinaryLevel.rank] at isAtom
  | assign span lhs rhs => simp [Expr.rank] at isAtom

namespace Suffix

def tokens : Suffix → List Token
  | .member name typeArgs => .dot :: .ident name :: typeArgTokens typeArgs
  | .call args => Expr.argTokens args
  | .index position => .bracketOpen :: (position.tokens ++ [.bracketClose])

def bare : Suffix → Suffix
  | .member name typeArgs => .member name (typeArgs.map TypeRef.bare)
  | .call args => .call (args.map Expr.bare)
  | .index position => .index position.bare

def Fits : Suffix → (rest : List Token) → Prop
  | .member _ typeArgs, rest =>
      (∀ type ∈ typeArgs, type.Named) ∧ (typeArgs = [] → ¬OpensTypeArgs rest) ∧
        (typeArgs ≠ [] → rest.head? = some .parenOpen)
  | .call args, rest => Expr.AllFit args (.parenClose :: rest)
  | .index position, rest => position.Fits (.bracketClose :: rest)

theorem head_tokens (suffix : Suffix) : ∃ token tokens, suffix.tokens = token :: tokens ∧
    token.strength = 9 ∧ token ≠ .arrow := by
  cases suffix with
  | member name typeArgs => exact ⟨_, _, rfl, rfl, by simp⟩
  | call args => exact ⟨_, _, Expr.argTokens_eq args, rfl, by simp⟩
  | index position => exact ⟨_, _, rfl, rfl, by simp⟩

theorem bare_attach {target target' : Expr} {suffix suffix' : Suffix × Span}
    (targets : target.bare = target'.bare) (suffixes : suffix.1.bare = suffix'.1.bare) :
    (attach target suffix).bare = (attach target' suffix').bare := by
  obtain ⟨suffix, span⟩ := suffix
  obtain ⟨suffix', span'⟩ := suffix'
  cases suffix <;> cases suffix' <;> simp only [bare, Suffix.member.injEq, Suffix.call.injEq,
    Suffix.index.injEq, reduceCtorEq] at suffixes
  · simp [attach, Expr.bare, targets, suffixes]
  · simp [attach, Expr.bare, Expr.bareAll_eq, targets, suffixes]
  · simp [attach, Expr.bare, targets, suffixes]

/-- The suffixes fit, each before the later ones. -/
def AllFit : List Suffix → (rest : List Token) → Prop
  | [], _ => True
  | suffix :: suffixes, rest =>
      suffix.Fits (suffixes.flatMap Suffix.tokens ++ rest) ∧ AllFit suffixes rest

theorem allFit_append {before behind : List Suffix} {rest : List Token} :
    AllFit (before ++ behind) rest ↔
      AllFit before (behind.flatMap Suffix.tokens ++ rest) ∧ AllFit behind rest := by
  induction before with
  | nil => simp [AllFit]
  | cons suffix before ih =>
      simp only [List.cons_append, AllFit, ih, List.flatMap_append, List.append_assoc, and_assoc]

end Suffix

/-- An expression that binds tightly is an atom with suffixes. -/
structure Postfixed (found : Expr) (rest : List Token) (target : Expr) (suffixes : List Suffix) :
    Prop where
  isAtom : 9 ≤ target.rank
  spelled : found.tokens = target.tokens ++ suffixes.flatMap Suffix.tokens
  fits : target.Fits (suffixes.flatMap Suffix.tokens ++ rest)
  allFit : Suffix.AllFit suffixes rest
  bare : found.bare =
    ((suffixes.map fun suffix => (suffix, (⟨0, 0⟩ : Span))).foldl Suffix.attach target).bare

theorem Postfixed.attach {found target whole : Expr} {suffixes : List Suffix} {suffix : Suffix}
    (parts : Postfixed found (suffix.tokens ++ rest) target suffixes)
    (spelled : whole.tokens = found.tokens ++ suffix.tokens) (fits : suffix.Fits rest)
    (same : whole.bare = (Suffix.attach found (suffix, ⟨0, 0⟩)).bare) :
    Postfixed whole rest target (suffixes ++ [suffix]) where
  isAtom := parts.isAtom
  spelled := by rw [spelled, parts.spelled]; simp
  fits := by simpa using parts.fits
  allFit := Suffix.allFit_append.mpr ⟨by simpa using parts.allFit, by simpa [Suffix.AllFit] using fits⟩
  bare := by
    rw [same, List.map_append, List.foldl_append]
    exact Suffix.bare_attach parts.bare rfl

theorem exists_postfixed {found : Expr} (rest : List Token) (tight : 8 ≤ found.rank)
    (fits : found.Fits rest) :
    ∃ target suffixes, Postfixed found rest target suffixes := by
  have atomic : 9 ≤ found.rank → ∃ target suffixes, Postfixed found rest target suffixes :=
    fun isAtom => ⟨found, [], isAtom, by simp, by simpa using fits, trivial, rfl⟩
  cases found with
  | member span target name typeArgs =>
      obtain ⟨targetTight, targetFits, named, plain, called⟩ := fits
      obtain ⟨first, suffixes, parts⟩ :=
        exists_postfixed (Suffix.tokens (.member name typeArgs) ++ rest) targetTight targetFits
      refine ⟨first, _, parts.attach (by rw [Expr.tokens]; rfl) ⟨named, plain, called⟩ ?_⟩
      simp [Suffix.attach, Expr.bare]
  | call span callee args =>
      obtain ⟨calleeTight, calleeFits, fit⟩ := fits
      obtain ⟨first, suffixes, parts⟩ :=
        exists_postfixed (Suffix.tokens (.call args) ++ rest) calleeTight calleeFits
      refine ⟨first, _, parts.attach (by rw [Expr.tokens]; rfl) fit ?_⟩
      simp [Suffix.attach, Expr.bare]
  | index span target position =>
      obtain ⟨targetTight, targetFits, positionFits⟩ := fits
      obtain ⟨first, suffixes, parts⟩ :=
        exists_postfixed (Suffix.tokens (.index position) ++ rest) targetTight
          (by simpa [Suffix.tokens] using targetFits)
      refine ⟨first, _, parts.attach (by rw [Expr.tokens]; rfl) positionFits ?_⟩
      simp [Suffix.attach, Expr.bare]
  | unary span op operand => simp [Expr.rank] at tight
  | binary span op lhs rhs =>
      cases op <;> simp [Expr.rank, BinaryOp.level, BinaryLevel.rank] at tight
  | assign span lhs rhs => simp [Expr.rank] at tight
  | _ => exact atomic (Nat.le_refl _)

/-- One suffix, with its span. -/
abbrev suffix (inner : Parser Token Expr) : Parser Token (Suffix × Span) :=
  spanned memberSuffix <|> spanned (callSuffix inner) <|> spanned (indexSuffix inner)

theorem yields_suffix (readsBack : ReadsBack bound inner) {part : Suffix}
    (short : part.tokens.length ≤ bound + 1) (fits : part.Fits rest) :
    (suffix inner).Yields part.tokens rest (·.1.bare = part.bare) := by
  cases part with
  | member name typeArgs =>
      obtain ⟨named, plain, called⟩ := fits
      have args : (Parser.optional memberTypeArgs).Yields (typeArgTokens typeArgs) rest
          fun found => (found.getD []).map TypeRef.bare = typeArgs.map TypeRef.bare := by
        cases typeArgs with
        | nil =>
            refine (Yields.optional_none (refuses_memberTypeArgs (plain rfl))).mono ?_
            rintro _ rfl
            rfl
        | cons first others =>
            refine (Yields.optional_some (yields_memberTypeArgs (List.cons_ne_nil _ _) named
              (called (List.cons_ne_nil _ _)))).mono ?_
            rintro _ ⟨types, rfl, alike⟩
            exact alike
      have read : memberSuffix.Yields (.dot :: .ident name :: typeArgTokens typeArgs) rest
          (·.bare = (Suffix.member name typeArgs).bare) := by
        refine Yields.token_bind (Yields.bind [.ident name] _ rfl (yields_name name)
          fun _ same => args.map fun found alike => ?_)
        rw [Suffix.bare, Suffix.bare, same, alike]
      exact Yields.orElse_left read.spanned
  | call args =>
      have read : (callSuffix inner).Yields (Expr.argTokens args) rest
          (·.bare = (Suffix.call args).bare) :=
        (yields_arguments readsBack short fits).map fun found alike => congrArg Suffix.call alike
      refine Yields.orElse_right (Refuses.spanned (Refuses.bind_first (refuses_token ?_)))
        (Yields.orElse_left read.spanned)
      rw [Suffix.tokens, Expr.argTokens_eq]
      simp
  | index position =>
      have inside := readsBack.yields position (.bracketClose :: rest) (by
        simp only [Suffix.tokens, List.length_cons, List.length_append] at short
        omega) (Nat.zero_le _) fits (stops_cons.mpr (Nat.le_refl _))
      have read : (indexSuffix inner).Yields (.bracketOpen :: (position.tokens ++ [.bracketClose]))
          rest (·.bare = (Suffix.index position).bare) :=
        (Yields.between inside).map fun found alike => congrArg Suffix.index alike
      refine Yields.orElse_right (Refuses.spanned (Refuses.bind_first (refuses_token ?_)))
        (Yields.orElse_right (Refuses.spanned (Refuses.bind_first (Refuses.labelled "arguments"
          (Refuses.between ?_)))) read.spanned)
      · simp [Suffix.tokens]
      · simp [Suffix.tokens]

theorem refuses_suffix (stops : Stops 8 rest) : (suffix inner).Refuses rest := by
  have different : ∀ token : Token, token.strength = 9 → rest.head? ≠ some token := by
    intro token strong isHead
    have weak := stops token isHead
    omega
  refine Refuses.orElse (Refuses.spanned (Refuses.bind_first (refuses_token ?_)))
    (Refuses.orElse (Refuses.spanned (Refuses.bind_first (Refuses.labelled "arguments"
      (Refuses.between ?_)))) (Refuses.spanned (Refuses.bind_first (Refuses.between ?_))))
  · exact different .dot rfl
  · exact different .parenOpen rfl
  · exact different .bracketOpen rfl

theorem bare_foldl_attach {target target' : Expr} {suffixes : List Suffix}
    {found : List (Suffix × Span)} (targets : target'.bare = target.bare)
    (alike : List.Forall₂ (fun suffix (read : Suffix × Span) => read.1.bare = suffix.bare)
      suffixes found) :
    (found.foldl Suffix.attach target').bare =
      ((suffixes.map fun suffix => (suffix, (⟨0, 0⟩ : Span))).foldl Suffix.attach target).bare := by
  induction alike generalizing target target' with
  | nil => exact targets
  | cons same _ ih => exact ih (Suffix.bare_attach targets same)

theorem length_flatMap_le_of_mem {α β : Type} (spell : α → List β) {parts : List α} {part : α}
    (listed : part ∈ parts) : (spell part).length ≤ (parts.flatMap spell).length := by
  obtain ⟨before, behind, rfl⟩ := List.append_of_mem listed
  simp only [List.flatMap_append, List.flatMap_cons, List.length_append]
  omega

theorem Suffix.AllFit.of_split {before behind : List Suffix} {part : Suffix}
    (allFit : AllFit (before ++ part :: behind) rest) :
    part.Fits (behind.flatMap Suffix.tokens ++ rest) :=
  (allFit_append.mp allFit).2.1

theorem readBack_postfixed (readsBack : ReadsBack bound inner) :
    ReadBackFrom 8 (bound + 1) (postfixed inner) := by
  intro found rest short tight fits stops
  obtain ⟨target, suffixes, parts⟩ := exists_postfixed rest tight fits
  rw [parts.spelled, List.length_append] at short
  rw [parts.spelled]
  have noArrow : (suffixes.flatMap Suffix.tokens ++ rest).head? ≠ some .arrow := by
    cases suffixes with
    | nil =>
        intro isHead
        have weak := stops .arrow isHead
        simp [Token.strength] at weak
    | cons first others =>
        obtain ⟨token, tokens, spelled, -, different⟩ := first.head_tokens
        simp [spelled, different]
  refine Yields.bind _ _ rfl
    (yields_atom readsBack (by omega) parts.isAtom parts.fits noArrow) fun value same => ?_
  have each : ∀ before next behind, suffixes = before ++ next :: behind →
      (suffix inner).Yields next.tokens (behind.flatMap Suffix.tokens ++ rest)
        (·.1.bare = next.bare) := by
    intro before next behind split
    refine yields_suffix readsBack ?_ (split ▸ parts.allFit).of_split
    have inside := length_flatMap_le_of_mem Suffix.tokens (show next ∈ suffixes by simp [split])
    exact Nat.le_trans inside (by omega)
  have read := Yields.many suffixes each (fun next _ => by
    obtain ⟨token, tokens, spelled, -⟩ := next.head_tokens
    simp [spelled]) (refuses_suffix stops)
  refine read.map fun values alike => ?_
  rw [parts.bare]
  exact bare_foldl_attach same alike

/-- A sign in front of an operand, as the grammar puts it there. -/
def signed (sign : UnaryOp × Span) (operand : Expr) : Expr :=
  .unary (sign.2.through operand.span) sign.1 operand

theorem exists_signs {found : Expr} (rest : List Token) (tight : 7 ≤ found.rank)
    (fits : found.Fits rest) :
    ∃ (ops : List UnaryOp) (operand : Expr), 8 ≤ operand.rank ∧ operand.Fits rest ∧
      found.tokens = ops.map (fun op => Token.sign op.sign) ++ operand.tokens ∧
      found.bare = (ops.foldr (fun op operand => Expr.unary ⟨0, 0⟩ op operand) operand).bare := by
  have plain : 8 ≤ found.rank → ∃ (ops : List UnaryOp) (operand : Expr), 8 ≤ operand.rank ∧
      operand.Fits rest ∧
      found.tokens = ops.map (fun op => Token.sign op.sign) ++ operand.tokens ∧
      found.bare = (ops.foldr (fun op operand => Expr.unary ⟨0, 0⟩ op operand) operand).bare :=
    fun tighter => ⟨[], found, tighter, fits, rfl, rfl⟩
  cases found with
  | unary span op operand =>
      obtain ⟨ops, last, tighter, lastFits, spelled, same⟩ := exists_signs rest fits.1 fits.2
      refine ⟨op :: ops, last, tighter, lastFits, ?_, ?_⟩
      · rw [Expr.tokens, spelled]
        rfl
      · rw [List.foldr_cons, Expr.bare, Expr.bare, same]
  | binary span op lhs rhs =>
      cases op <;> simp [Expr.rank, BinaryOp.level, BinaryLevel.rank] at tight
  | assign span lhs rhs => simp [Expr.rank] at tight
  | member span target name typeArgs => exact plain (Nat.le_refl _)
  | call span callee args => exact plain (Nat.le_refl _)
  | index span target position => exact plain (Nat.le_refl _)
  | _ => exact plain (Nat.le_succ _)

theorem bare_foldr_signed {operand operand' : Expr} {ops : List UnaryOp}
    {found : List (UnaryOp × Span)} (operands : operand'.bare = operand.bare)
    (alike : List.Forall₂ (fun op (read : UnaryOp × Span) => read.1 = op) ops found) :
    (found.foldr signed operand').bare =
      (ops.foldr (fun op operand => Expr.unary ⟨0, 0⟩ op operand) operand).bare := by
  induction alike with
  | nil => exact operands
  | cons same _ ih => rw [List.foldr_cons, List.foldr_cons, signed, Expr.bare, Expr.bare, ih, same]

theorem yields_unarySign (op : UnaryOp) :
    unarySign.Yields [Token.sign op.sign] rest (· = op) := by
  refine yields_select ?_
  exact UnaryOp.ofSign?_sign op

theorem readBack_unary (readsBack : ReadsBack bound inner) :
    ReadBackFrom 7 (bound + 1) (unary inner) := by
  intro found rest short tight fits stops
  obtain ⟨ops, operand, tighter, operandFits, spelled, same⟩ := exists_signs rest tight fits
  rw [spelled, List.length_append] at short
  rw [spelled]
  obtain ⟨tokens, starts⟩ := operand.exists_tokens_eq
  have plain := Expr.headToken_of_tight tighter operandFits
  have signs : (many (spanned unarySign)).Yields (ops.map fun op => Token.sign op.sign)
      (operand.tokens ++ rest) (List.Forall₂ (fun op (read : UnaryOp × Span) => read.1 = op) ops) := by
    have each : ∀ before next behind, ops = before ++ next :: behind →
        (spanned unarySign).Yields [Token.sign next.sign]
          ((behind.flatMap fun op => [Token.sign op.sign]) ++ (operand.tokens ++ rest))
          (·.1 = next) := fun _ next _ _ => (yields_unarySign next).spanned
    rw [List.map_eq_flatMap]
    refine Yields.many ops each (fun _ _ => List.cons_ne_nil _ _) (Refuses.spanned ?_)
    rw [starts]
    refine refuses_select fun found isHead => ?_
    obtain rfl : operand.headToken = found := by simpa using isHead
    cases head : operand.headToken with
    | sign sign => exact absurd head (plain sign)
    | _ => rfl
  refine Yields.bind _ _ rfl signs fun found alike => ?_
  have read := readBack_postfixed readsBack operand rest (by omega) tighter operandFits
    (stops.mono (Nat.le_succ _))
  refine read.map fun value operands => ?_
  rw [same]
  exact bare_foldr_signed operands alike

/-- Operands combined from the left, as the grammar does. -/
def combined (lhs : Expr) (part : BinaryOp × Expr) : Expr :=
  .binary (lhs.span.through part.2.span) part.1 lhs part.2

def operationTokens (part : BinaryOp × Expr) : List Token :=
  .sign part.1.sign :: part.2.tokens

/-- The operations of one level, each before the later ones. -/
def OperationsFit (level : BinaryLevel) : List (BinaryOp × Expr) → (rest : List Token) → Prop
  | [], _ => True
  | part :: parts, rest =>
      part.1.level = level ∧ level.rank < part.2.rank ∧
        part.2.Fits (parts.flatMap operationTokens ++ rest) ∧ OperationsFit level parts rest

theorem operationsFit_append {level : BinaryLevel} {before behind : List (BinaryOp × Expr)}
    {rest : List Token} : OperationsFit level (before ++ behind) rest ↔
      OperationsFit level before (behind.flatMap operationTokens ++ rest) ∧
        OperationsFit level behind rest := by
  induction before with
  | nil => simp [OperationsFit]
  | cons part before ih =>
      simp only [List.cons_append, OperationsFit, ih, List.flatMap_append, List.append_assoc,
        and_assoc]

/-- An expression is a first operand with operations of one level behind it. -/
structure Operations (level : BinaryLevel) (found : Expr) (rest : List Token) (first : Expr)
    (parts : List (BinaryOp × Expr)) : Prop where
  tighter : level.rank < first.rank
  spelled : found.tokens = first.tokens ++ parts.flatMap operationTokens
  fits : first.Fits (parts.flatMap operationTokens ++ rest)
  allFit : OperationsFit level parts rest
  bare : found.bare = (parts.foldl combined first).bare

theorem BinaryLevel.eq_of_rank_eq {first second : BinaryLevel} (same : first.rank = second.rank) :
    first = second := by
  cases first <;> cases second <;> simp [BinaryLevel.rank] at same ⊢

theorem exists_operations {level : BinaryLevel} {found : Expr} (rest : List Token)
    (tight : level.rank ≤ found.rank) (fits : found.Fits rest) :
    ∃ first parts, Operations level found rest first parts := by
  have plain : level.rank < found.rank → ∃ first parts, Operations level found rest first parts :=
    fun tighter => ⟨found, [], tighter, by simp, by simpa using fits, trivial, rfl⟩
  by_cases tighter : level.rank < found.rank
  · exact plain tighter
  · have same : found.rank = level.rank := by omega
    cases found with
    | binary span op lhs rhs =>
        obtain rfl := BinaryLevel.eq_of_rank_eq same
        obtain ⟨leftTight, rightTight, leftFits, rightFits⟩ := fits
        obtain ⟨first, parts, split⟩ :=
          exists_operations (operationTokens (op, rhs) ++ rest) leftTight leftFits
        refine ⟨first, parts ++ [(op, rhs)], split.tighter, ?_, ?_, ?_, ?_⟩
        · rw [Expr.tokens, split.spelled]
          simp [operationTokens]
        · simpa using split.fits
        · exact operationsFit_append.mpr ⟨by simpa using split.allFit,
            rfl, rightTight, by simpa using rightFits, trivial⟩
        · rw [List.foldl_append, Expr.bare, split.bare]
          simp [combined, Expr.bare]
    | assign span lhs rhs => cases level <;> simp [Expr.rank, BinaryLevel.rank] at same
    | _ => cases level <;> simp [Expr.rank, BinaryLevel.rank] at same

theorem bare_foldl_combined {first first' : Expr} {parts found : List (BinaryOp × Expr)}
    (firsts : first'.bare = first.bare)
    (alike : List.Forall₂ (fun part (read : BinaryOp × Expr) =>
      read.1 = part.1 ∧ read.2.bare = part.2.bare) parts found) :
    (found.foldl combined first').bare = (parts.foldl combined first).bare := by
  induction alike generalizing first first' with
  | nil => exact firsts
  | cons same _ ih =>
      refine ih ?_
      rw [combined, combined, Expr.bare, Expr.bare, firsts, same.1, same.2]

theorem ofSignAt?_sign (op : BinaryOp) : BinaryOp.ofSignAt? op.level op.sign = some op := by
  simp [BinaryOp.ofSignAt?, BinaryOp.ofSign?_sign]

/-- An operator and its right operand. -/
abbrev operation (operand : Parser Token Expr) (level : BinaryLevel) (expected : Expected Token) :
    Parser Token (BinaryOp × Expr) := do
  let op ← binarySign level expected
  let rhs ← operand
  return (op, rhs)

theorem yields_operation {operand : Parser Token Expr} {op : BinaryOp} {rhs : Expr}
    (expected : Expected Token) (readBack : ReadBackFrom (op.level.rank + 1) bound operand)
    (short : rhs.tokens.length ≤ bound) (tighter : op.level.rank < rhs.rank)
    (fits : rhs.Fits rest) (stops : Stops (op.level.rank + 1) rest) :
    (operation operand op.level expected).Yields (operationTokens (op, rhs)) rest
      fun read => read.1 = op ∧ read.2.bare = rhs.bare :=
  Yields.bind [.sign op.sign] _ rfl (yields_select (ofSignAt?_sign op)) fun _ same =>
    (readBack rhs rest short tighter fits stops).map fun _ alike => ⟨same, alike⟩

theorem refuses_operation {operand : Parser Token Expr} {level : BinaryLevel}
    (expected : Expected Token) (stops : Stops level.rank rest) :
    (operation operand level expected).Refuses rest := by
  refine Refuses.bind_first (refuses_select fun token isHead => ?_)
  have weak := stops token isHead
  cases token with
  | sign operator =>
      cases known : BinaryOp.ofSign? operator with
      | none => simp [BinaryOp.ofSignAt?, known]
      | some op =>
          have different : op.level ≠ level := by
            rintro rfl
            simp only [Token.strength, known] at weak
            omega
          simp [BinaryOp.ofSignAt?, known, different]
  | _ => rfl

theorem stops_operations {level : BinaryLevel} {parts : List (BinaryOp × Expr)}
    (allFit : OperationsFit level parts rest) (stops : Stops level.rank rest) :
    Stops (level.rank + 1) (parts.flatMap operationTokens ++ rest) := by
  cases parts with
  | nil => exact stops.mono (Nat.le_succ _)
  | cons part parts =>
      refine stops_cons.mpr (Nat.le_of_eq ?_)
      rw [Token.strength_binary, allFit.1]

theorem readBack_leftAssociative {operand : Parser Token Expr} (level : BinaryLevel)
    (expected : Expected Token) (readBack : ReadBackFrom (level.rank + 1) bound operand) :
    ReadBackFrom level.rank bound (leftAssociative operand (binarySign level expected)) := by
  intro found rest short tight fits stops
  obtain ⟨first, parts, split⟩ := exists_operations rest tight fits
  rw [split.spelled, List.length_append] at short
  rw [split.spelled]
  refine Yields.bind _ _ rfl (readBack first _ (by omega) split.tighter split.fits
    (stops_operations split.allFit stops)) fun value same => ?_
  have each : ∀ before next behind, parts = before ++ next :: behind →
      (operation operand level expected).Yields (operationTokens next)
        (behind.flatMap operationTokens ++ rest)
        fun read => read.1 = next.1 ∧ read.2.bare = next.2.bare := by
    rintro before ⟨op, rhs⟩ behind rfl
    obtain ⟨-, rfl, tighter, rhsFits, behindFit⟩ := operationsFit_append.mp split.allFit
    refine yields_operation expected readBack ?_ tighter rhsFits (stops_operations behindFit stops)
    have inside := length_flatMap_le_of_mem operationTokens
      (show (op, rhs) ∈ before ++ (op, rhs) :: behind by simp)
    have own : (operationTokens (op, rhs)).length = rhs.tokens.length + 1 := rfl
    omega
  have read := Yields.many parts each (fun _ _ => List.cons_ne_nil _ _)
    (refuses_operation expected stops)
  refine read.map fun values alike => ?_
  rw [split.bare]
  exact bare_foldl_combined same alike

theorem readBack_disjunction (readsBack : ReadsBack bound inner) :
    ReadBackFrom 1 (bound + 1) (disjunction inner) :=
  readBack_leftAssociative .or _ (readBack_leftAssociative .and _
    (readBack_leftAssociative .equality _ (readBack_leftAssociative .relational _
      (readBack_leftAssociative .additive _ (readBack_leftAssociative .multiplicative _
        (readBack_unary readsBack))))))

theorem yields_assigned (readsBack : ReadsBack bound inner) {rhs : Expr}
    (short : rhs.tokens.length ≤ bound) (fits : rhs.Fits rest) (stops : Stops 0 rest) :
    (assigned inner).Yields (.assign :: rhs.tokens) rest (·.bare = rhs.bare) :=
  Yields.token_bind (readsBack.yields rhs rest short (Nat.zero_le _) fits stops)

theorem refuses_assigned (stops : Stops 0 rest) : (assigned inner).Refuses rest := by
  refine Refuses.bind_first (refuses_token fun isHead => ?_)
  have weak := stops .assign isHead
  simp [Token.strength] at weak

theorem readBack_exprRule (readsBack : ReadsBack bound inner) :
    ReadBackFrom 0 (bound + 1) (exprRule inner) := by
  intro found rest short tight fits stops
  have plain : 1 ≤ found.rank →
      (exprRule inner).Yields found.tokens rest (·.bare = found.bare) := by
    intro tighter
    refine Yields.labelled "expression" ?_
    refine Yields.bind _ [] (List.append_nil _).symm (readBack_disjunction readsBack found rest short
      tighter fits (stops.mono (Nat.zero_le _))) fun value same => ?_
    refine Yields.bind [] [] rfl (Yields.optional_none (refuses_assigned stops)) ?_
    rintro _ rfl
    exact Yields.pure value same
  cases found with
  | assign span lhs rhs =>
      obtain ⟨leftTight, leftFits, rightFits⟩ := fits
      rw [Expr.tokens, List.length_append, List.length_cons] at short
      have nonempty := List.length_pos_iff.mpr lhs.tokens_ne_nil
      rw [Expr.tokens]
      refine Yields.labelled "expression" ?_
      refine Yields.bind _ _ rfl (readBack_disjunction readsBack lhs _ (by omega) leftTight leftFits
        (stops_cons.mpr (Nat.le_refl _))) fun value same => ?_
      refine Yields.bind _ [] (List.append_nil _).symm (Yields.optional_some
        (yields_assigned readsBack (by omega) rightFits stops)) ?_
      rintro _ ⟨value', rfl, same'⟩
      refine Yields.pure _ ?_
      rw [Expr.bare, Expr.bare, same, same']
  | binary span op lhs rhs =>
      refine plain ?_
      cases op <;> simp [Expr.rank, BinaryOp.level, BinaryLevel.rank]
  | _ => exact plain (by simp [Expr.rank])

theorem literalOf?_eq_none {token : Token} (plain : token.startsExpr = false) :
    literalOf? token = none := by
  unfold literalOf?
  split
  all_goals first | rfl | cases plain

theorem refuses_exprRule_of_head (plain : ∀ token ∈ rest.head?, token.startsExpr = false) :
    (exprRule inner).Refuses rest := by
  have different : ∀ token : Token, token.startsExpr = true → rest.head? ≠ some token := by
    intro token starts isHead
    rw [plain token isHead] at starts
    cases starts
  have atoms : (atom inner).Refuses rest := by
    refine Refuses.orElse (refuses_literal fun token isHead => ?_) (Refuses.orElse (refuses_lambda ?_)
      (Refuses.orElse (refuses_newObject ?_) (Refuses.orElse (refuses_ident ?_)
        (Refuses.recoverWith (Refuses.bind_first (Refuses.spanned (Refuses.between ?_)))
          (Refuses.bind_first (Refuses.bind_first (Refuses.spanned (Refuses.between ?_))))))))
    · exact literalOf?_eq_none (plain token isHead)
    · exact fun found => different _ rfl
    · exact different _ rfl
    · exact fun found => different _ rfl
    · exact different _ rfl
    · exact different _ rfl
  have signs : (many (spanned unarySign)).Yields [] rest fun _ => True := by
    have none_left : (spanned unarySign).Refuses rest := by
      refine Refuses.spanned (refuses_select fun token isHead => ?_)
      cases token with
      | sign operator => exact absurd isHead (different _ rfl)
      | _ => rfl
    exact (Yields.many_nil none_left).mono fun _ _ => trivial
  have operands : (unary inner).Refuses rest :=
    Refuses.bind_second signs fun _ _ => Refuses.bind_first (Refuses.bind_first atoms)
  exact Refuses.labelled "expression" (Refuses.bind_first (Refuses.bind_first (Refuses.bind_first
    (Refuses.bind_first (Refuses.bind_first (Refuses.bind_first (Refuses.bind_first
      operands)))))))

theorem Ends.startsExpr (ends : Ends rest) : ∀ token ∈ rest.head?, token.startsExpr = false := by
  intro token isHead
  rcases ends token isHead with rfl | rfl | rfl <;> rfl

theorem refuses_exprRule (ends : Ends rest) : (exprRule inner).Refuses rest :=
  refuses_exprRule_of_head ends.startsExpr

theorem readsBack_exprRule (readsBack : ReadsBack bound inner) :
    ReadsBack (bound + 1) (exprRule inner) :=
  ⟨readBack_exprRule readsBack, fun _ => refuses_exprRule⟩

theorem readsBack_none : ReadsBack 0 fun cursor _ => .rejected (cursor.refusal []) where
  yields found _ short _ _ _ :=
    absurd (List.eq_nil_of_length_eq_zero (Nat.le_zero.mp short)) found.tokens_ne_nil
  refuses _ _ _ _ _ := ⟨_, rfl⟩

/-- An expression that fits is read as it is written. -/
theorem yields_expr {found : Expr} (fits : found.Fits rest) (stops : Stops 0 rest) :
    expr.Yields found.tokens rest (·.bare = found.bare) :=
  Yields.recursive fun budget short =>
    (unrolled_of_step readsBack_none (fun _ _ => readsBack_exprRule) budget).yields found rest
      (Nat.le_succ_of_le short) (Nat.zero_le _) fits stops

/-- Nothing is read as an expression that does not start like one. -/
theorem refuses_expr_of_head (plain : ∀ token ∈ rest.head?, token.startsExpr = false) :
    expr.Refuses rest := by
  intro cursor furthest spelled
  have refuses : ∀ budget, Refuses (unrolled exprRule budget) rest := by
    intro budget
    cases budget with
    | nil => exact refuses_exprRule_of_head plain
    | cons spare budget => exact refuses_exprRule_of_head plain
  exact refuses cursor.rest furthest spelled

theorem refuses_expr (ends : Ends rest) : expr.Refuses rest :=
  refuses_expr_of_head ends.startsExpr

end Grammar

end QueryLoop
