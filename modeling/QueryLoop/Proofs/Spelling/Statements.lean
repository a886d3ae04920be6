import QueryLoop.Proofs.Place.Parsed
import QueryLoop.Proofs.Reading.Reports
import QueryLoop.Proofs.Spelling.Expressions

namespace QueryLoop

open Parsing Parser

theorem TypeRef.head_tokens {type : TypeRef} (named : type.Named) :
    ∃ name tokens, type.tokens = .ident name :: tokens := by
  obtain ⟨nonempty, -⟩ := TypeRef.named_iff.mp named
  obtain ⟨first, others, shape⟩ := List.exists_cons_of_ne_nil nonempty
  exact ⟨first, _, by rw [TypeRef.tokens_eq, shape, pathTokens, Token.listed]; rfl⟩

theorem Expr.startsExpr_headToken {expr : Expr} {rest : List Token} (fits : expr.Fits rest) :
    expr.headToken.startsExpr = true := by
  cases expr with
  | literal span value =>
      cases value with
      | bool value => cases value <;> rfl
      | _ => rfl
  | ident | new | unary | lambda | paren => rfl
  | member | call | index | assign =>
      rw [headToken]
      exact startsExpr_headToken fits.2.1
  | binary =>
      rw [headToken]
      exact startsExpr_headToken fits.2.2.1
  | error span => exact fits.elim

theorem Expr.head_tokens {expr : Expr} {rest : List Token} (fits : expr.Fits rest) :
    ∃ token tokens, expr.tokens = token :: tokens ∧ token.startsExpr = true := by
  obtain ⟨tokens, spelled⟩ := expr.exists_tokens_eq
  exact ⟨_, tokens, spelled, startsExpr_headToken fits⟩

/-- The tokens a statement can start with. -/
def Token.startsStmt (token : Token) : Bool :=
  token.startsExpr || [.braceOpen, .semicolon, .keyword .foreachWord, .keyword .ifWord,
    .keyword .whileWord, .keyword .continueWord, .keyword .breakWord,
    .keyword .returnWord].contains token

theorem Stmt.head_tokens {stmt : Stmt} (fits : stmt.Fits) :
    ∃ token tokens, stmt.tokens = token :: tokens ∧ token.startsStmt = true := by
  cases stmt with
  | decl span declared =>
      obtain ⟨named, nonempty, -⟩ := fits
      obtain ⟨name, tokens, spelled⟩ := TypeRef.head_tokens named
      obtain ⟨first, others, shape⟩ := List.exists_cons_of_ne_nil nonempty
      exact ⟨.ident name, _, by rw [Stmt.tokens, LocalDecl.tokens, shape, spelled]; rfl, rfl⟩
  | expr span value =>
      obtain ⟨token, tokens, spelled, starts⟩ := Expr.head_tokens fits.1
      exact ⟨token, _, by rw [Stmt.tokens, spelled]; rfl, by simp [Token.startsStmt, starts]⟩
  | returnValue span value =>
      cases value with
      | none => exact ⟨_, _, by rw [tokens], rfl⟩
      | some value => exact ⟨_, _, by rw [tokens], rfl⟩
  | error span => exact fits.elim
  | _ => exact ⟨_, _, by rw [tokens], rfl⟩

theorem head?_ne_else {token : Token} (starts : token.startsStmt = true) :
    token ≠ .keyword .elseWord := by
  rintro rfl
  simp [Token.startsStmt, Token.startsExpr] at starts

/-- No `else` comes first where none comes behind the statements. -/
theorem Stmt.AllFit.head?_ne_else {stmts : List Stmt} {rest : List Token} (fit : Stmt.AllFit stmts)
    (ends : rest.head? ≠ some (.keyword .elseWord)) :
    (Stmt.allTokens stmts ++ rest).head? ≠ some (.keyword .elseWord) := by
  cases stmts with
  | nil => exact ends
  | cons first others =>
      obtain ⟨token, tokens, spelled, starts⟩ := Stmt.head_tokens fit.1
      simp [Stmt.allTokens, spelled, QueryLoop.head?_ne_else starts]

theorem Stmt.AllFit.tokens_ne_nil {stmts : List Stmt} (fit : Stmt.AllFit stmts) :
    ∀ stmt ∈ stmts, stmt.tokens ≠ [] := by
  intro stmt listed
  obtain ⟨token, tokens, spelled, -⟩ := Stmt.head_tokens (Stmt.allFit_iff.mp fit stmt listed)
  simp [spelled]

/-- The statement is something that is complete without the semicolon behind it. -/
def Stmt.isSimple : Stmt → Bool
  | .decl .. | .expr .. | .returnValue .. | .continueLoop _ | .breakLoop _ => true
  | _ => false

theorem LocalDecl.tokens_eq {decl : LocalDecl} (nonempty : decl.declarators ≠ []) :
    decl.tokens = (decl.type.tokens ++ Token.listed .comma Declarator.tokens decl.declarators) ++
      [.semicolon] := by
  obtain ⟨first, others, shape⟩ := List.exists_cons_of_ne_nil nonempty
  rw [LocalDecl.tokens, shape, List.append_assoc]

theorem Stmt.tokens_returnValue (span : Span) (value : Option Expr) :
    (Stmt.returnValue span value).tokens =
      (.keyword .returnWord :: value.toList.flatMap Expr.tokens) ++ [.semicolon] := by
  cases value <;> simp [tokens]

theorem Stmt.tokens_of_isSimple {stmt : Stmt} (simple : stmt.isSimple = true) (fits : stmt.Fits) :
    stmt.tokens = stmt.tokens.dropLast ++ [.semicolon] := by
  cases stmt with
  | continueLoop span => rw [tokens]; rfl
  | breakLoop span => rw [tokens]; rfl
  | returnValue span value => rw [tokens_returnValue, List.dropLast_concat]
  | expr span value => rw [tokens, List.dropLast_concat]
  | decl span declared => rw [tokens, LocalDecl.tokens_eq fits.2.1, List.dropLast_concat]
  | _ => cases simple

namespace Grammar

variable {rest : List Token}

theorem yields_semicolon : semicolon.Yields [.semicolon] rest fun _ => True := by
  refine Yields.bind [.semicolon] [] rfl
    (Yields.optional_some (yields_token Token.semicolon)).spanned fun found read => ?_
  obtain ⟨found, span⟩ := found
  obtain ⟨_, rfl, -⟩ := read
  exact Yields.pure () trivial

theorem reports_semicolon (missing : rest.head? ≠ some .semicolon) :
    semicolon.Reports [] rest [.missingSemicolon] fun _ => True := by
  have none_found : (Parser.optional (token Token.semicolon)).Yields [] ([] ++ rest) (· = none) :=
    Yields.optional_none (refuses_token missing)
  refine Reports.behind [] [] rfl none_found.spanned fun found read => ?_
  obtain ⟨found, span⟩ := found
  obtain rfl : found = none := read
  exact Reports.report span .missingSemicolon

/-- How a statement may end before `rest`: with its semicolon, or without it where nothing
goes on, which is reported. -/
structure Terminates (ending rest : List Token) (causes : List (Cause Token)) : Prop where
  reports : semicolon.Reports ending rest causes fun _ => True
  halted : Halted (ending ++ rest)
  plain : ∀ token ∈ (ending ++ rest).head?, token.startsExpr = false

theorem terminates_semicolon : Terminates [.semicolon] rest [] where
  reports := yields_semicolon.reports
  halted := ⟨_, _, rfl, rfl⟩
  plain := by simp [Token.startsExpr]

theorem yields_declarator (written : Declarator)
    (fits : ∀ init ∈ written.init, init.Fits rest) (stops : Stops 0 rest) :
    declarator.Yields written.tokens rest (·.bare = written.bare) := by
  obtain ⟨name, init, span⟩ := written
  have parts : (do
      let name ← Grammar.name
      let init ← Parser.optional (assigned expr)
      return (name, init)).Yields (Declarator.tokens ⟨name, init, span⟩) rest
        fun parts => parts.1 = name ∧ parts.2.map Expr.bare = init.map Expr.bare := by
    cases init with
    | none =>
        refine Yields.bind [.ident name] [] rfl (yields_name name) fun _ same => ?_
        refine Yields.map (Yields.optional_none (refuses_assigned stops)) ?_
        rintro _ rfl
        exact ⟨same, rfl⟩
    | some init =>
        have read : (assigned expr).Yields (.assign :: init.tokens) rest (·.bare = init.bare) :=
          Yields.token_bind (yields_expr (fits init rfl) stops)
        refine Yields.bind [.ident name] _ rfl (yields_name name) fun _ same => ?_
        refine read.optional_some.map ?_
        rintro _ ⟨found, rfl, alike⟩
        exact ⟨same, congrArg some alike⟩
  refine parts.spanned.map fun parts alike => ?_
  rw [Declarator.bare, Declarator.bare, alike.1, alike.2]

theorem Declarator.head_tokens (written : Declarator) :
    ∃ tokens, written.tokens = .ident written.name :: tokens := by
  unfold Declarator.tokens
  split
  · exact ⟨_, rfl⟩
  · exact ⟨_, rfl⟩

theorem fits_of_split {before behind : List Declarator} {written : Declarator}
    (fit : Declarator.AllFit (before ++ written :: behind)) (halted : Halted rest) :
    ∀ init ∈ written.init, init.Fits
      ((behind.flatMap fun other => .comma :: other.tokens) ++ rest) := by
  induction before with
  | nil =>
      intro init isInit
      exact (fit.1 init isInit).before_halted halted (by simp)
        ((SameUpTo.refl [.semicolon] rest).append _)
  | cons first before ih => exact ih fit.2

theorem yields_localDecl {decl : LocalDecl} (fits : decl.Fits) (halted : Halted rest) :
    localDecl.Yields
      (decl.type.tokens ++ Token.listed .comma Declarator.tokens decl.declarators)
      rest (·.bare = decl.bare) := by
  obtain ⟨named, nonempty, fit⟩ := fits
  obtain ⟨type, declarators⟩ := decl
  obtain ⟨first, others, rfl⟩ := List.exists_cons_of_ne_nil nonempty
  have each : ∀ before next behind, first :: others = before ++ next :: behind →
      declarator.Yields next.tokens ((behind.flatMap fun other => Token.comma :: other.tokens) ++
        rest) (·.bare = next.bare) := by
    intro before next behind split
    simp only [split] at fit
    refine yields_declarator next (fits_of_split fit halted) ?_
    cases behind with
    | nil => exact halted.stops
    | cons other behind => exact stops_cons.mpr (Nat.le_refl _)
  have declarators := Yields.separated1 Token.comma first others each (halted.head?_ne rfl)
  refine Yields.labelled "declaration" (Yields.bind _ _ rfl (yields_type named ?_) fun found same =>
    declarators.map fun values alike => ?_)
  · obtain ⟨tokens, spelled⟩ := Declarator.head_tokens first
    exact ⟨by simp [Token.listed, spelled], by simp [Token.listed, spelled]⟩
  · rw [LocalDecl.bare, LocalDecl.bare, same, eq_of_forall₂ alike]

/-- What is read as a declaration starts as one. -/
theorem localDecl_opens : localDecl.Ensures fun used rest _ _ =>
    OpensDecl ((used ++ rest).map Lexeme.token) := by
  have starts : declarator.Ensures fun used _ _ _ =>
      ∃ lexeme more found, used = lexeme :: more ∧ lexeme.token = .ident found := by
    refine ((ensures_name.bind fun name =>
      (advances_of ((advances_of ((token_consumes Token.assign).bind fun _ =>
        expr_covers)).optional)).bind fun init => ensures_pure (name, init)).spanned.bind fun found =>
          ensures_pure _).mono ?_
    rintro used rest value errors ⟨_, _, _, _, _, rfl, -, ⟨⟨_, more, found, _, _, rfl, -,
      ⟨lexeme, rfl, spelled, -⟩, -⟩, -⟩, rfl, -, -⟩
    exact ⟨lexeme, more, found, by simp, spelled⟩
  refine Ensures.labelled "declaration" ((ensures_type.bind fun type =>
    (starts.separated1 (token_consumes Token.comma) fun _ _ _ _ taken => taken).bind
      fun declarators => ensures_pure _).mono ?_)
  rintro used rest value errors ⟨front, _, type, _, _, rfl, -, ⟨spelled, named, -⟩, _, _, _, _, _,
    rfl, -, ⟨_, back, _, _, _, _, rfl, -, -, ⟨lexeme, more, found, rfl, isName⟩, -⟩, rfl, -, -⟩
  refine ⟨type, found, (more ++ (back ++ rest)).map Lexeme.token, named, ?_⟩
  simp [← spelled, isName]

theorem refuses_localDecl (plain : ¬OpensDecl rest) : localDecl.Refuses rest := by
  refine refuses_of_ensures localDecl_opens ?_
  rintro used tail value errors rfl opens
  exact plain opens

/-- Statements of at most `bound` tokens are read back, unless a following `else` would
be read as part of them. -/
structure StmtsReadBack (bound : Nat) (reader : Parser Token Stmt) : Prop where
  yields : ∀ (written : Stmt) (rest : List Token), written.tokens.length ≤ bound → written.Fits →
    written.dangles = false →
    (written.endsInIf = true → rest.head? ≠ some (.keyword .elseWord)) →
      reader.Yields written.tokens rest (·.bare = written.bare)
  refuses : ∀ rest, rest.head? = none ∨ rest.head? = some .braceClose → reader.Refuses rest

variable {bound : Nat} {inner : Parser Token Stmt}

/-- Every statement of several is read before the others, and they before no `else`. -/
theorem StmtsReadBack.each (readBack : StmtsReadBack bound inner) {stmts : List Stmt}
    (short : (Stmt.allTokens stmts).length ≤ bound) (fit : Stmt.AllFit stmts)
    (settled : Stmt.anyDangles stmts = false) (ends : rest.head? ≠ some (.keyword .elseWord))
    (before : List Stmt) (next : Stmt) (behind : List Stmt)
    (split : stmts = before ++ next :: behind) :
    inner.Yields next.tokens (behind.flatMap Stmt.tokens ++ rest) (·.bare = next.bare) := by
  rw [Stmt.allTokens_eq] at short
  rw [Stmt.allFit_iff] at fit
  rw [Stmt.anyDangles_eq_false] at settled
  have listed : next ∈ stmts := by simp [split]
  have fit' : Stmt.AllFit behind :=
    Stmt.allFit_iff.mpr fun stmt inside => fit stmt (by simp [split, inside])
  have ends' := fit'.head?_ne_else ends
  rw [Stmt.allTokens_eq] at ends'
  exact readBack.yields next _ (Nat.le_trans (length_flatMap_le_of_mem Stmt.tokens listed) short)
    (fit next listed) (settled next listed) fun _ => ends'

/-- Statements one after the other, before a closing brace. -/
theorem yields_stmts (readBack : StmtsReadBack bound inner) {stmts : List Stmt}
    (short : (Stmt.allTokens stmts).length ≤ bound) (fit : Stmt.AllFit stmts)
    (settled : Stmt.anyDangles stmts = false) :
    (many inner).Yields (Stmt.allTokens stmts) (.braceClose :: rest)
      fun found => found.map Stmt.bare = stmts.map Stmt.bare := by
  rw [Stmt.allTokens_eq]
  exact (Yields.many stmts (readBack.each short fit settled (by simp)) fit.tokens_ne_nil
    (readBack.refuses _ (by simp))).mono fun found alike => eq_of_forall₂ alike

/-- A statement that is not read as it is written, between others that are. -/
theorem reports_stmts_around (readBack : StmtsReadBack bound inner) {early late : List Stmt}
    {written : Stmt} {odd : List Token} {causes : List (Cause Token)}
    (short : (Stmt.allTokens early).length ≤ bound) (short' : (Stmt.allTokens late).length ≤ bound)
    (fit : Stmt.AllFit early) (fit' : Stmt.AllFit late) (settled : Stmt.anyDangles early = false)
    (settled' : Stmt.anyDangles late = false) (nonempty : odd ≠ [])
    (plain : odd.head? ≠ some (.keyword .elseWord))
    (here : inner.Reports odd (Stmt.allTokens late ++ .braceClose :: rest) causes
      (·.bare = written.bare)) :
    (many inner).Reports (Stmt.allTokens early ++ (odd ++ Stmt.allTokens late))
      (.braceClose :: rest) causes
      fun found => found.map Stmt.bare = (early ++ written :: late).map Stmt.bare := by
  rw [Stmt.allTokens_eq] at here
  rw [Stmt.allTokens_eq, Stmt.allTokens_eq]
  have ends : ((odd ++ late.flatMap Stmt.tokens) ++ .braceClose :: rest).head? ≠
      some (.keyword .elseWord) := by
    obtain ⟨first, others, rfl⟩ := List.exists_cons_of_ne_nil nonempty
    simpa using plain
  refine (Reports.many_around (readBack.each short fit settled ends) here
    (readBack.each short' fit' settled' (by simp)) ?_ nonempty (readBack.refuses _ (by simp))).mono ?_
  · intro stmt listed
    rcases listed with inEarly | inLate
    · exact fit.tokens_ne_nil stmt inEarly
    · exact fit'.tokens_ne_nil stmt inLate
  · rintro found ⟨before, value, behind, rfl, likes, same, likes'⟩
    rw [List.map_append, List.map_append, List.map_cons, List.map_cons, same, eq_of_forall₂ likes,
      eq_of_forall₂ likes']

theorem reports_braced {tokens : List Token} {causes : List (Cause Token)}
    {good : List Stmt → Prop}
    (inside : (many inner).Reports tokens (.braceClose :: rest) causes good) :
    (braced inner).Reports (.braceOpen :: (tokens ++ [.braceClose])) rest causes
      fun found => good found.1 :=
  Reports.spanned (Reports.between inside)

theorem yields_condition {cond : Expr} (fits : cond.Fits [.parenClose]) :
    condition.Yields (.parenOpen :: (cond.tokens ++ [.parenClose])) rest (·.bare = cond.bare) := by
  have closed : Closed (.parenClose :: rest) := ⟨_, _, rfl, rfl⟩
  exact Yields.between (yields_expr (fits.close (stops_cons.mpr (Nat.le_refl _)) closed)
    closed.stops)

section
variable {tokens : List Token} {causes : List (Cause Token)}

theorem reports_block (span : Span) {stmts : List Stmt}
    (inside : (many inner).Reports tokens (.braceClose :: rest) causes
      fun found => found.map Stmt.bare = stmts.map Stmt.bare) :
    (block inner).Reports (.braceOpen :: (tokens ++ [.braceClose])) rest causes
      (·.bare = (Stmt.block span stmts).bare) := by
  refine Gives.recoverWith ((reports_braced inside).map fun found alike => ?_)
  rw [Stmt.bare, Stmt.bare, Stmt.bareAll_eq, Stmt.bareAll_eq, alike]

theorem reports_foreachLoop (span varSpan : Span) {type : TypeRef} (var : String) {seq : Expr}
    {body : Stmt} (named : type.Named) (fits : seq.Fits [.parenClose])
    (bodyRead : inner.Reports tokens rest causes (·.bare = body.bare)) :
    (foreachLoop inner).Reports (.keyword .foreachWord :: .parenOpen :: (type.tokens ++
      .ident var :: .keyword .inWord :: (seq.tokens ++ .parenClose :: tokens))) rest causes
      (·.bare = (Stmt.foreach span type var varSpan seq body).bare) := by
  have closed : ∀ rest, Closed (.parenClose :: rest) := fun _ => ⟨_, _, rfl, rfl⟩
  have header : ∀ rest, loopHeader.Yields
      (type.tokens ++ .ident var :: .keyword .inWord :: seq.tokens) (.parenClose :: rest)
      fun found =>
        found.1.bare = type.bare ∧ found.2.1.1 = var ∧ found.2.2.bare = seq.bare := by
    intro rest
    refine Yields.bind _ _ rfl (yields_type named ⟨by simp, by simp⟩) fun _ same => ?_
    refine Yields.bind [.ident var] _ rfl (yields_name var).spanned fun _ same' => ?_
    refine Yields.token_bind (Yields.map (yields_expr (fits.close (stops_cons.mpr (Nat.le_refl _))
      (closed rest)) (closed rest).stops) fun _ alike => ⟨same, same', alike⟩)
  have parts : (do
      token (Token.keyword .foreachWord)
      let header ← between (token .parenOpen) (token .parenClose) loopHeader
      let body ← inner
      return (header, body)).Reports (Token.keyword .foreachWord :: Token.parenOpen ::
        (type.tokens ++ Token.ident var :: Token.keyword .inWord :: (seq.tokens ++
          Token.parenClose :: tokens))) rest causes
        fun found => (found.1.1.bare = type.bare ∧ found.1.2.1.1 = var ∧
          found.1.2.2.bare = seq.bare) ∧ found.2.bare = body.bare := by
    refine Reports.token_bind (Reports.behind
      (.parenOpen :: ((type.tokens ++ .ident var :: .keyword .inWord :: seq.tokens) ++ [.parenClose]))
      tokens (by simp) (Yields.between (header _)) fun _ same => ?_)
    exact bodyRead.map fun _ alike => ⟨same, alike⟩
  refine Gives.labelled "foreach" (parts.spanned.map fun found alike => ?_)
  obtain ⟨⟨⟨found, ⟨name, place⟩, items⟩, statement⟩, whole⟩ := found
  obtain ⟨⟨types, names, seqs⟩, bodies⟩ := alike
  simp only at types names seqs bodies
  simp only [Stmt.bare, types, names, seqs, bodies]

theorem reports_whileLoop (span : Span) {cond : Expr} {body : Stmt}
    (fits : cond.Fits [.parenClose])
    (bodyRead : inner.Reports tokens rest causes (·.bare = body.bare)) :
    (whileLoop inner).Reports (.keyword .whileWord :: .parenOpen :: (cond.tokens ++
      .parenClose :: tokens)) rest causes (·.bare = (Stmt.whileLoop span cond body).bare) := by
  have parts : (do
      token (Token.keyword .whileWord)
      let cond ← condition
      let body ← inner
      return (cond, body)).Reports (Token.keyword .whileWord :: Token.parenOpen :: (cond.tokens ++
        Token.parenClose :: tokens)) rest causes
        fun found => found.1.bare = cond.bare ∧ found.2.bare = body.bare := by
    refine Reports.token_bind (Reports.behind (.parenOpen :: (cond.tokens ++ [.parenClose]))
      tokens (by simp) (yields_condition fits) fun _ same => ?_)
    exact bodyRead.map fun _ alike => ⟨same, alike⟩
  refine parts.spanned.map fun found alike => ?_
  rw [Stmt.bare, Stmt.bare, alike.1, alike.2]

theorem reports_conditional (span : Span) {cond : Expr} {body : Stmt} {otherwise : Option Stmt}
    {elseTokens : List Token} {late : List (Cause Token)} (fits : cond.Fits [.parenClose])
    (bodyRead : inner.Reports tokens (elseTokens ++ rest) causes (·.bare = body.bare))
    (elseRead : (Parser.optional (elseBranch inner)).Reports elseTokens rest late
      fun found => found.map Stmt.bare = otherwise.map Stmt.bare) :
    (conditional inner).Reports (.keyword .ifWord :: .parenOpen :: (cond.tokens ++ .parenClose ::
      (tokens ++ elseTokens))) rest (causes ++ late)
      (·.bare = (conditionalOf ((cond, body, otherwise), span)).bare) := by
  have parts : (do
      token (Token.keyword .ifWord)
      let cond ← condition
      let body ← inner
      let otherwise ← Parser.optional (elseBranch inner)
      return (cond, body, otherwise)).Reports (Token.keyword .ifWord :: Token.parenOpen ::
        (cond.tokens ++ Token.parenClose :: (tokens ++ elseTokens))) rest (causes ++ late)
        fun found => found.1.bare = cond.bare ∧ found.2.1.bare = body.bare ∧
          found.2.2.map Stmt.bare = otherwise.map Stmt.bare := by
    refine Reports.token_bind (Reports.behind (.parenOpen :: (cond.tokens ++ [.parenClose]))
      (tokens ++ elseTokens) (by simp) (yields_condition fits) fun _ same => ?_)
    refine Reports.bind _ _ rfl rfl bodyRead fun _ same' => ?_
    exact elseRead.map fun _ alike => ⟨same, same', alike⟩
  refine Gives.labelled "if" (Reports.before _ [] (List.append_nil _).symm parts.spanned
    fun found alike => ?_)
  obtain ⟨⟨cond', body', otherwise'⟩, span'⟩ := found
  obtain ⟨conds, bodies, others⟩ := alike
  simp only at conds bodies others
  cases otherwise' with
  | none =>
      cases otherwise with
      | none => exact Yields.pure _ (by simp only [conditionalOf, Stmt.bare, conds, bodies])
      | some otherwise => simp at others
  | some otherwise' =>
      cases otherwise with
      | none => simp at others
      | some otherwise =>
          refine Yields.pure _ ?_
          simp only [conditionalOf, Stmt.bare, conds, bodies, Option.some.inj others]

theorem yields_elseBranch_none (noElse : rest.head? ≠ some (.keyword .elseWord)) :
    (Parser.optional (elseBranch inner)).Yields [] rest
      fun found => found.map Stmt.bare = (none : Option Stmt).map Stmt.bare := by
  refine (Yields.optional_none (Refuses.bind_first (refuses_token noElse))).mono ?_
  rintro _ rfl
  rfl

theorem reports_ifThen (span : Span) {cond : Expr} {body : Stmt} (fits : cond.Fits [.parenClose])
    (noElse : rest.head? ≠ some (.keyword .elseWord))
    (bodyRead : inner.Reports tokens rest causes (·.bare = body.bare)) :
    (conditional inner).Reports (.keyword .ifWord :: .parenOpen :: (cond.tokens ++ .parenClose ::
      tokens)) rest causes (·.bare = (Stmt.ifThen span cond body).bare) := by
  have behind : inner.Reports tokens ([] ++ rest) causes (·.bare = body.bare) := bodyRead
  have whole := reports_conditional span fits behind (yields_elseBranch_none noElse).reports
  rw [List.append_nil, List.append_nil] at whole
  exact whole

theorem reports_elseBranch {otherwise : Stmt}
    (read : inner.Reports tokens rest causes (·.bare = otherwise.bare)) :
    (Parser.optional (elseBranch inner)).Reports (.keyword .elseWord :: tokens) rest causes
      fun found => found.map Stmt.bare = (some otherwise).map Stmt.bare := by
  refine (Reports.optional_some (Reports.token_bind read)).mono ?_
  rintro _ ⟨found, rfl, alike⟩
  exact congrArg some alike

theorem reports_wordStmt (word : Keyword) (make : Span → Stmt) {good : Stmt → Prop}
    {ending : List Token} (terminates : Terminates ending rest causes)
    (made : ∀ span, good (make span)) :
    (wordStmt word make).Reports (.keyword word :: ending) rest causes good := by
  have parts : (do token (Token.keyword word); semicolon).Reports (.keyword word :: ending) rest
      causes fun _ => True := Reports.token_bind terminates.reports
  exact parts.spanned.map fun _ _ => made _

theorem reports_returnStmt (span : Span) {value : Option Expr} {ending : List Token}
    (terminates : Terminates ending rest causes)
    (fits : ∀ result ∈ value, result.Fits [.semicolon]) :
    returnStmt.Reports (.keyword .returnWord :: (value.toList.flatMap Expr.tokens ++ ending)) rest
      causes (·.bare = (Stmt.returnValue span value).bare) := by
  have read : (Parser.optional expr).Yields (value.toList.flatMap Expr.tokens) (ending ++ rest)
      fun found => found.map Expr.bare = value.map Expr.bare := by
    cases value with
    | none =>
        refine (Yields.optional_none (refuses_expr_of_head terminates.plain)).mono ?_
        rintro _ rfl
        rfl
    | some value =>
        have back := yields_expr ((fits value rfl).halt (stops_cons.mpr (Nat.le_refl _))
          terminates.halted) terminates.halted.stops
        have spelled : (some value).toList.flatMap Expr.tokens = value.tokens := by simp
        rw [spelled]
        refine back.optional_some.mono ?_
        rintro _ ⟨found, rfl, alike⟩
        exact congrArg some alike
  have parts : (do
      token (Token.keyword .returnWord)
      let value ← Parser.optional expr
      semicolon
      return value).Reports (.keyword .returnWord :: (value.toList.flatMap Expr.tokens ++ ending))
        rest causes fun found => found.map Expr.bare = value.map Expr.bare := by
    refine Reports.token_bind (Reports.behind _ ending rfl read fun _ alike => ?_)
    exact terminates.reports.map fun _ _ => alike
  refine parts.spanned.map fun found alike => ?_
  rw [Stmt.bare, Stmt.bare, alike]

theorem reports_declStmt (span : Span) {decl : LocalDecl} {ending : List Token}
    (terminates : Terminates ending rest causes) (fits : decl.Fits) :
    declStmt.Reports ((decl.type.tokens ++ Token.listed .comma Declarator.tokens decl.declarators) ++
      ending) rest causes (·.bare = (Stmt.decl span decl).bare) := by
  have parts : (do let decl ← localDecl; semicolon; return decl).Reports ((decl.type.tokens ++
      Token.listed .comma Declarator.tokens decl.declarators) ++ ending) rest causes
        (·.bare = decl.bare) := by
    refine Reports.behind _ ending rfl (yields_localDecl fits terminates.halted) fun _ alike => ?_
    exact terminates.reports.map fun _ _ => alike
  refine parts.spanned.map fun found alike => ?_
  rw [Stmt.bare, Stmt.bare, alike]

theorem reports_exprStmt (span : Span) {value : Expr} {ending : List Token}
    (terminates : Terminates ending rest causes) (fits : value.Fits [.semicolon]) :
    exprStmt.Reports (value.tokens ++ ending) rest causes
      (·.bare = (Stmt.expr span value).bare) := by
  have parts : (do let value ← expr; semicolon; return value).Reports (value.tokens ++ ending) rest
      causes (·.bare = value.bare) := by
    refine Reports.behind _ ending rfl (yields_expr (fits.halt (stops_cons.mpr (Nat.le_refl _))
      terminates.halted) terminates.halted.stops) fun _ alike => ?_
    exact terminates.reports.map fun _ _ => alike
  refine parts.spanned.map fun found alike => ?_
  rw [Stmt.bare, Stmt.bare, alike]

end

theorem refuses_block (different : rest.head? ≠ some .braceOpen) : (block inner).Refuses rest :=
  Refuses.recoverWith
    (Refuses.bind_first (Refuses.spanned (Refuses.between different)))
    (Refuses.bind_first (Refuses.bind_first (Refuses.spanned (Refuses.between different))))

theorem refuses_foreachLoop (different : rest.head? ≠ some (.keyword .foreachWord)) :
    (foreachLoop inner).Refuses rest :=
  Refuses.labelled "foreach"
    (Refuses.bind_first (Refuses.spanned (Refuses.bind_first (refuses_token different))))

theorem refuses_conditional (different : rest.head? ≠ some (.keyword .ifWord)) :
    (conditional inner).Refuses rest :=
  Refuses.labelled "if"
    (Refuses.bind_first (Refuses.spanned (Refuses.bind_first (refuses_token different))))

theorem refuses_whileLoop (different : rest.head? ≠ some (.keyword .whileWord)) :
    (whileLoop inner).Refuses rest :=
  Refuses.bind_first (Refuses.spanned (Refuses.bind_first (refuses_token different)))

theorem refuses_wordStmt {word : Keyword} {make : Span → Stmt}
    (different : rest.head? ≠ some (.keyword word)) : (wordStmt word make).Refuses rest :=
  Refuses.bind_first (Refuses.spanned (Refuses.bind_first (refuses_token different)))

theorem refuses_returnStmt (different : rest.head? ≠ some (.keyword .returnWord)) :
    returnStmt.Refuses rest :=
  Refuses.bind_first (Refuses.spanned (Refuses.bind_first (refuses_token different)))

theorem refuses_emptyStmt (different : rest.head? ≠ some .semicolon) : emptyStmt.Refuses rest :=
  Refuses.bind_first (Refuses.spanned (refuses_token different))

theorem refuses_declStmt (plain : ¬OpensDecl rest) : declStmt.Refuses rest :=
  Refuses.bind_first (Refuses.spanned (Refuses.bind_first (refuses_localDecl plain)))

/-- The reading of a statement that starts with the token. -/
def reading (stmt : Parser Token Stmt) (first : Token) : Parser Token Stmt :=
  if first = .braceOpen then block stmt
  else if first = .keyword .foreachWord then foreachLoop stmt
  else if first = .keyword .ifWord then conditional stmt
  else if first = .keyword .whileWord then whileLoop stmt
  else if first = .keyword .continueWord then wordStmt .continueWord .continueLoop
  else if first = .keyword .breakWord then wordStmt .breakWord .breakLoop
  else if first = .keyword .returnWord then returnStmt
  else if first = .semicolon then emptyStmt
  else declStmt <|> exprStmt <|> unreadable

/-- The first token decides between the readings of a statement. -/
theorem gives_stmtRule {first : Token} {tokens : List Token} {outcome : Outcome Token Stmt}
    (read : (reading inner first).Gives (first :: tokens) rest outcome) :
    (stmtRule inner).Gives (first :: tokens) rest outcome := by
  have different : ∀ {other}, first ≠ other → ((first :: tokens) ++ rest).head? ≠ some other :=
    fun unequal isHead => unequal (by simpa using isHead)
  refine Gives.labelled "statement" ?_
  refine Gives.orElse_ite read (fun other => refuses_block (different other)) fun read => ?_
  refine Gives.orElse_ite read (fun other => refuses_foreachLoop (different other)) fun read => ?_
  refine Gives.orElse_ite read (fun other => refuses_conditional (different other)) fun read => ?_
  refine Gives.orElse_ite read (fun other => refuses_whileLoop (different other)) fun read => ?_
  refine Gives.orElse_ite read (fun other => refuses_wordStmt (different other)) fun read => ?_
  refine Gives.orElse_ite read (fun other => refuses_wordStmt (different other)) fun read => ?_
  refine Gives.orElse_ite read (fun other => refuses_returnStmt (different other)) fun read => ?_
  exact Gives.orElse_ite read (fun other => refuses_emptyStmt (different other)) fun read => read

theorem yields_stmtRule {first : Token} {tokens : List Token} {good : Stmt → Prop}
    (read : (reading inner first).Yields (first :: tokens) rest good) :
    (stmtRule inner).Yields (first :: tokens) rest good :=
  Reports.yields (gives_stmtRule read.reports)

/-- What starts like an expression is a declaration or an expression. -/
theorem gives_stmtRule_of_startsExpr {first : Token} {tokens : List Token}
    {outcome : Outcome Token Stmt} (starts : first.startsExpr = true)
    (late : (declStmt <|> exprStmt <|> unreadable).Gives (first :: tokens) rest outcome) :
    (stmtRule inner).Gives (first :: tokens) rest outcome := by
  have chosen : reading inner first = (declStmt <|> exprStmt <|> unreadable) := by
    cases first with
    | keyword word => cases word <;> first | rfl | cases starts
    | _ => first | rfl | cases starts
  exact gives_stmtRule (chosen ▸ late)

theorem not_opensDecl_append {value : Expr} (halted : Halted rest)
    (plain : ¬OpensDecl (value.tokens ++ [.semicolon])) : ¬OpensDecl (value.tokens ++ rest) := by
  rintro ⟨type, name, tail, named, spelled⟩
  -- the type and the name stand in front of where things end
  have inside : ∀ part ∈ type.tokens ++ [Token.ident name], part.halts = false := by
    intro part listed
    rcases List.mem_append.mp listed with inType | isName
    · exact type.halts_tokens part inType
    · obtain rfl := List.mem_singleton.mp isName
      rfl
  obtain ⟨more, spelled'⟩ : ∃ more, value.tokens ++ [.semicolon] =
      (type.tokens ++ [.ident name]) ++ more :=
    halted.split inside (spelled.trans (List.append_cons ..))
  exact plain ⟨type, name, more, named, spelled'.trans (List.append_cons ..).symm⟩

/-- A simple statement is read as it is written, with its semicolon or without it. -/
theorem reports_simple {written : Stmt} {ending : List Token} {causes : List (Cause Token)}
    (simple : written.isSimple = true) (fits : written.Fits)
    (terminates : Terminates ending rest causes) :
    (stmtRule inner).Reports (written.tokens.dropLast ++ ending) rest causes
      (·.bare = written.bare) := by
  cases written with
  | continueLoop span =>
      rw [Stmt.tokens]
      refine gives_stmtRule (reports_wordStmt .continueWord .continueLoop terminates fun _ => ?_)
      rw [Stmt.bare, Stmt.bare]
  | breakLoop span =>
      rw [Stmt.tokens]
      refine gives_stmtRule (reports_wordStmt .breakWord .breakLoop terminates fun _ => ?_)
      rw [Stmt.bare, Stmt.bare]
  | returnValue span value =>
      rw [Stmt.tokens_returnValue, List.dropLast_concat]
      exact gives_stmtRule (reports_returnStmt span terminates fits)
  | decl span declared =>
      have whole := reports_declStmt span terminates fits
      obtain ⟨name, tokens, starts⟩ := TypeRef.head_tokens fits.1
      rw [Stmt.tokens, LocalDecl.tokens_eq fits.2.1, List.dropLast_concat]
      rw [starts] at whole ⊢
      exact gives_stmtRule_of_startsExpr rfl (Gives.orElse_left whole)
  | expr span value =>
      have whole := reports_exprStmt span terminates fits.1
      have plain := not_opensDecl_append terminates.halted fits.2
      obtain ⟨token, tokens, spelled, starts⟩ := Expr.head_tokens fits.1
      rw [Stmt.tokens, List.dropLast_concat]
      rw [← List.append_assoc] at plain
      rw [spelled] at whole plain ⊢
      exact gives_stmtRule_of_startsExpr starts
        (Gives.orElse_right (refuses_declStmt plain) (Gives.orElse_left whole))
  | _ => cases simple

theorem readBack_stmtRule (readBack : StmtsReadBack bound inner) {written : Stmt}
    (short : written.tokens.length ≤ bound + 1) (fits : written.Fits)
    (settled : written.dangles = false)
    (ends : written.endsInIf = true → rest.head? ≠ some (.keyword .elseWord)) :
    (stmtRule inner).Yields written.tokens rest (·.bare = written.bare) := by
  have simply : written.isSimple = true →
      (stmtRule inner).Yields written.tokens rest (·.bare = written.bare) := by
    intro simple
    rw [Stmt.tokens_of_isSimple simple fits]
    exact (reports_simple simple fits terminates_semicolon).yields
  cases written with
  | block span stmts =>
      rw [Stmt.tokens] at short ⊢
      simp only [List.length_cons, List.length_append, List.length_nil] at short
      exact yields_stmtRule
        (reports_block span (yields_stmts readBack (by omega) fits settled).reports).yields
  | foreach span type var varSpan seq body =>
      obtain ⟨named, seqFits, bodyFits⟩ := fits
      rw [Stmt.tokens] at short ⊢
      simp only [List.length_cons, List.length_append] at short
      have read := readBack.yields body rest (by omega) bodyFits settled ends
      exact yields_stmtRule
        (reports_foreachLoop span varSpan var named seqFits read.reports).yields
  | ifThen span cond body =>
      obtain ⟨condFits, bodyFits⟩ := fits
      have noElse := ends rfl
      rw [Stmt.tokens] at short ⊢
      simp only [List.length_cons, List.length_append] at short
      have read := readBack.yields body rest (by omega) bodyFits settled fun _ => noElse
      exact yields_stmtRule (reports_ifThen span condFits noElse read.reports).yields
  | ifElse span cond body otherwise =>
      obtain ⟨condFits, bodyFits, otherwiseFits⟩ := fits
      simp only [Stmt.dangles, Bool.or_eq_false_iff] at settled
      obtain ⟨⟨closedBody, bodySettled⟩, otherwiseSettled⟩ := settled
      rw [Stmt.tokens] at short ⊢
      simp only [List.length_cons, List.length_append] at short
      have read := readBack.yields body (.keyword .elseWord :: (otherwise.tokens ++ rest)) (by omega)
        bodyFits bodySettled (by simp [closedBody])
      have read' := readBack.yields otherwise rest (by omega) otherwiseFits otherwiseSettled ends
      have whole := reports_conditional span condFits (Yields.reports read)
        (reports_elseBranch read'.reports)
      exact yields_stmtRule whole.yields
  | whileLoop span cond body =>
      obtain ⟨condFits, bodyFits⟩ := fits
      rw [Stmt.tokens] at short ⊢
      simp only [List.length_cons, List.length_append] at short
      have read := readBack.yields body rest (by omega) bodyFits settled ends
      exact yields_stmtRule (reports_whileLoop span condFits read.reports).yields
  | continueLoop span => exact simply rfl
  | breakLoop span => exact simply rfl
  | returnValue span value => exact simply rfl
  | decl span declared => exact simply rfl
  | expr span value => exact simply rfl
  | empty span =>
      rw [Stmt.tokens]
      refine yields_stmtRule ((yields_token Token.semicolon).spanned.map fun _ _ => ?_)
      rw [Stmt.bare, Stmt.bare]
  | error span => exact fits.elim

theorem refuses_type (different : ∀ found, rest.head? ≠ some (.ident found)) : type.Refuses rest := by
  refine refuses_of_ensures ensures_type ?_
  rintro used tail found errors rfl ⟨spelled, named, -⟩
  obtain ⟨name, tokens, starts⟩ := TypeRef.head_tokens named
  refine different name ?_
  rw [List.map_append, spelled, starts]
  rfl

theorem refuses_stmtRule (ends : rest.head? = none ∨ rest.head? = some .braceClose) :
    (stmtRule inner).Refuses rest := by
  have different : ∀ token : Token, token ≠ .braceClose → rest.head? ≠ some token := by
    rintro token other isHead
    rw [isHead] at ends
    rcases ends with none_left | closing
    · simp at none_left
    · exact other (by simpa using closing)
  have nothing : Ends rest := by
    intro token isHead
    rw [Option.mem_def.mp isHead] at ends
    exact .inr (.inr (by simpa using ends))
  refine Refuses.labelled "statement" (Refuses.orElse (refuses_block (different _ (by simp)))
    (Refuses.orElse (refuses_foreachLoop (different _ (by simp)))
      (Refuses.orElse (refuses_conditional (different _ (by simp)))
        (Refuses.orElse (refuses_whileLoop (different _ (by simp)))
          (Refuses.orElse (refuses_wordStmt (different _ (by simp)))
            (Refuses.orElse (refuses_wordStmt (different _ (by simp)))
              (Refuses.orElse (refuses_returnStmt (different _ (by simp)))
                (Refuses.orElse (refuses_emptyStmt (different _ (by simp)))
                  (Refuses.orElse ?_ (Refuses.orElse ?_ ?_))))))))))
  · exact Refuses.bind_first (Refuses.spanned (Refuses.bind_first (Refuses.labelled "declaration"
      (Refuses.bind_first (refuses_type fun found => different _ (by simp))))))
  · exact Refuses.bind_first (Refuses.spanned (Refuses.bind_first (refuses_expr nothing)))
  · refine Refuses.bind_first (Refuses.spanned (Refuses.bind_first (Refuses.bind_first
      (refuses_select fun token isHead => ?_))))
    rcases nothing token isHead with rfl | rfl | rfl
    · exact absurd isHead (different _ (by simp))
    · exact absurd isHead (different _ (by simp))
    · simp

theorem stmtsReadBack_stmtRule (readBack : StmtsReadBack bound inner) :
    StmtsReadBack (bound + 1) (stmtRule inner) :=
  ⟨fun _ _ => readBack_stmtRule readBack, fun _ => refuses_stmtRule⟩

theorem stmtsReadBack_none : StmtsReadBack 0 fun cursor _ => .rejected (cursor.refusal []) where
  yields written _ short fits _ _ := by
    obtain ⟨token, tokens, spelled, -⟩ := Stmt.head_tokens fits
    rw [spelled] at short
    simp at short
  refuses _ _ _ _ _ := ⟨_, rfl⟩

/-- A statement that fits is read as it is written, unless an `else` dangles. -/
theorem readBack_stmt (bound : Nat) : StmtsReadBack bound stmt where
  yields written rest _ fits settled ends := by
    refine Yields.recursive fun budget short => ?_
    exact (unrolled_of_step stmtsReadBack_none (fun _ _ => stmtsReadBack_stmtRule) budget).yields
      written rest (Nat.le_succ_of_le short) fits settled ends
  refuses rest ends := by
    intro cursor furthest spelled
    exact (unrolled_of_step stmtsReadBack_none (fun _ _ => stmtsReadBack_stmtRule)
      cursor.rest).refuses rest ends furthest spelled

end Grammar

end QueryLoop
