import QueryLoop.Proofs.Spelling.Fitted
import QueryLoop.Proofs.Spelling.Statements

namespace QueryLoop.Grammar

/-! Statements that are read without errors are spelled by what was read, fit, and no
`else` in them dangles.

An `if` takes the `else` behind it if it can.  So where a statement ends in an `if`
without `else` and an `else` follows, that `else` cannot be read by anyone, and the
reading as a whole has errors.
-/

open Parsing Parser

/-- An `else` that stands here can be read, with a statement that fits behind it. -/
def ElseReadable (rest : List Token) : Prop :=
  rest.head? = some (.keyword .elseWord) → ∃ (branch : Stmt) (tail : List Token), branch.Fits ∧
    branch.dangles = false ∧
      (branch.endsInIf = true → tail.head? ≠ some (.keyword .elseWord)) ∧
        rest = .keyword .elseWord :: (branch.tokens ++ tail)

theorem elseReadable_of_ne {rest : List Token}
    (different : rest.head? ≠ some (.keyword .elseWord)) : ElseReadable rest :=
  fun isElse => absurd isElse different

/-- A loop that starts with the word for it and ends with some lexeme. -/
def LoopPlace (lexemes : List (Lexeme Token)) (place : Span) : Prop :=
  ∃ first ∈ lexemes, ∃ last ∈ lexemes, first.token = .keyword .foreachWord ∧
    place = ⟨first.span.start, last.span.stop⟩

/-- Every loop in the statement lies on some of the lexemes. -/
def LoopsOn (lexemes : List (Lexeme Token)) (stmts : List Stmt) : Prop :=
  ∀ stmt ∈ stmts, ∀ loop, stmt.loop? = some loop → LoopPlace lexemes loop.span

/-- What a statement was read from. -/
structure StmtRead (used rest : List (Lexeme Token)) (found : Stmt) : Prop where
  spelled : tokensOf used = found.tokens
  fits : found.Fits
  settled : ElseReadable (tokensOf rest) → found.dangles = false ∧
    (found.endsInIf = true → (tokensOf rest).head? ≠ some (.keyword .elseWord))
  loops : LoopsOn used found.statements

/-- A reader for the statements inside a statement, on at most `bound` lexemes. -/
structure ReadsStmts (bound : Nat) (reader : Parser Token Stmt) : Prop where
  back : StmtsReadBack bound reader
  reads : reader.Reads fun used rest found =>
    used.length + rest.length ≤ bound → StmtRead used rest found
  laid : reader.Ensures Laid

variable {bound : Nat} {inner : Parser Token Stmt} {used more : List (Lexeme Token)}

theorem LoopsOn.mono {stmts : List Stmt} (loops : LoopsOn used stmts) (subset : used ⊆ more) :
    LoopsOn more stmts := by
  intro stmt inside loop isLoop
  obtain ⟨first, listed, last, listed', word, place⟩ := loops stmt inside loop isLoop
  exact ⟨first, subset listed, last, subset listed', word, place⟩

theorem loopsOn_of_children {stmt : Stmt} (plain : stmt.loop? = none)
    (children : ∀ child ∈ stmt.children, LoopsOn used child.statements) :
    LoopsOn used stmt.statements := by
  intro inside listed loop isLoop
  rw [Stmt.statements_eq, List.mem_cons, List.mem_flatMap] at listed
  rcases listed with rfl | ⟨child, isChild, deeper⟩
  · rw [plain] at isLoop
    cases isLoop
  · exact children child isChild inside deeper loop isLoop

theorem loopsOn_of_plain {stmt : Stmt} (plain : stmt.loop? = none) (noChildren : stmt.children = []) :
    LoopsOn used stmt.statements :=
  loopsOn_of_children plain (by simp [noChildren])

/-- A statement without statements inside, which does not end in an `if`. -/
theorem stmtRead_of_plain {found : Stmt} {rest : List (Lexeme Token)}
    (spelled : tokensOf used = found.tokens) (fits : found.Fits) (noChildren : found.children = [])
    (plain : found.loop? = none) (settled : found.dangles = false)
    (ends : found.endsInIf = false) : StmtRead used rest found :=
  ⟨spelled, fits, fun _ => ⟨settled, by simp [ends]⟩, loopsOn_of_plain plain noChildren⟩

theorem spanOf_eq {first : Lexeme Token} (used : List (Lexeme Token)) :
    ∃ last ∈ first :: used, spanOf (first :: used) = ⟨first.span.start, last.span.stop⟩ := by
  have stop : ∀ (used : List (Lexeme Token)) (first : Lexeme Token), ∃ last ∈ first :: used,
      used.foldl (fun _ lexeme => lexeme.span.stop) first.span.stop = last.span.stop := by
    intro used
    induction used with
    | nil => exact fun first => ⟨first, by simp, rfl⟩
    | cons next used ih =>
        intro first
        obtain ⟨last, listed, same⟩ := ih next
        exact ⟨last, List.mem_cons_of_mem first listed, same⟩
  obtain ⟨last, listed, same⟩ := stop used first
  exact ⟨last, listed, by simp [spanOf, same]⟩

theorem reads_semicolon : semicolon.Reads fun used _ _ => tokensOf used = [.semicolon] := by
  refine ((reads_token Token.semicolon).optional.spanned.bind fun found =>
    show Reads _ fun used _ _ => used = [] ∧ found.1.isSome = true from ?_).mono ?_
  · obtain ⟨found, span⟩ := found
    cases found with
    | none =>
        refine (ensures_report span .missingSemicolon).mono ?_
        rintro used rest value errors ⟨rfl, reported⟩ clean
        simp [clean] at reported
    | some _ => exact (reads_pure ()).mono fun _ _ _ held => ⟨held.1, rfl⟩
  · rintro used rest value ⟨front, _, ⟨found, span⟩, rfl, ⟨read, -⟩, rfl, isSome⟩
    rcases read with ⟨_, rfl, lexeme, rfl, same⟩ | ⟨rfl, -⟩
    · simp [same]
    · cases isSome

/-- An expression before a token that closes it. -/
theorem fits_of_read {lexeme : Lexeme Token} {rest : List (Lexeme Token)} {found : Expr}
    {closing : Token} (closed : lexeme.token = closing) (closes : closing.closes = true)
    (fits : Stops 0 (tokensOf (lexeme :: rest)) → found.Fits (tokensOf (lexeme :: rest))) :
    found.Fits [closing] := by
  have ends : Closed (tokensOf (lexeme :: rest)) := ⟨lexeme.token, _, rfl, by rw [closed, closes]⟩
  exact (fits ends.stops).close ends.stops ⟨closing, [], rfl, closes⟩

/-- A declarator was read in front of something that ends its initializer. -/
structure DeclaratorRead (used rest : List (Lexeme Token)) (found : Declarator) : Prop where
  spelled : tokensOf used = found.tokens
  fits : Stops 0 (tokensOf rest) → ∀ init ∈ found.init, init.Fits (tokensOf rest)

theorem reads_declarator : declarator.Reads DeclaratorRead := by
  have init_reads : (assigned expr).Reads (After .assign fun used rest found =>
      tokensOf used = found.tokens ∧ (Stops 0 (tokensOf rest) → found.Fits (tokensOf rest))) := by
    refine ((reads_token Token.assign).bind fun _ => reads_expr).mono ?_
    rintro used rest init ⟨_, own, _, rfl, ⟨lexeme, rfl, marked⟩, held⟩
    exact ⟨lexeme, own, rfl, marked, held⟩
  refine ((reads_name.bind fun name => init_reads.optional.bind fun init =>
    reads_pure (name, init)).spanned.bind fun found => reads_pure _).mono ?_
  rintro used rest _ ⟨_, _, found, rfl, ⟨⟨_, _, name, rfl, ⟨lexeme, rfl, isName⟩, own, _, init, rfl,
    choice, rfl, same⟩, -⟩, rfl, rfl⟩
  obtain ⟨⟨_, _⟩, span⟩ := found
  cases same
  simp only [List.append_nil, List.nil_append] at choice ⊢
  rcases choice with ⟨init, rfl, equals, own, rfl, marked, spelled, fits⟩ | ⟨rfl, rfl, -⟩
  · refine ⟨by simp [Declarator.tokens, isName, marked, spelled], fun stops init isInit => ?_⟩
    obtain rfl := Option.mem_some_iff.mp isInit
    exact fits stops
  · exact ⟨by simp [Declarator.tokens, isName], fun _ init isInit => by cases isInit⟩

theorem declarators_of_series {used rest : List (Lexeme Token)} {declarators : List Declarator}
    (series : Series (After .comma DeclaratorRead) used rest declarators)
    (stops : Stops 0 (tokensOf rest)) :
    tokensOf used = (declarators.flatMap fun declarator => .comma :: declarator.tokens) ∧
      Stops 0 (tokensOf (used ++ rest)) ∧
      ∀ before declarator behind, declarators = before ++ declarator :: behind →
        ∀ init ∈ declarator.init, init.Fits
          ((behind.flatMap fun other => .comma :: other.tokens) ++ tokensOf rest) := by
  induction series with
  | nil rest => exact ⟨rfl, stops, by simp⟩
  | @cons used more rest declarator declarators held following ih =>
      obtain ⟨comma, own, rfl, marked, spelled, fits⟩ := held
      obtain ⟨spelled', stops', others⟩ := ih stops
      refine ⟨?_, stops_of_token marked rfl, ?_⟩
      · simp [spelled, spelled', marked]
      · intro before next behind split
        cases before with
        | nil =>
            obtain ⟨rfl, rfl⟩ := List.cons.inj split
            rw [← spelled', ← tokensOf_append]
            exact fits stops'
        | cons first before =>
            obtain ⟨-, rfl⟩ := List.cons.inj split
            exact others before next behind rfl

theorem allFit_of_splits {declarators : List Declarator} (rest : List Token)
    (stops : rest.head? ≠ some .parenOpen)
    (each : ∀ before declarator behind, declarators = before ++ declarator :: behind →
      ∀ init ∈ declarator.init, init.Fits
        ((behind.flatMap fun other => .comma :: other.tokens) ++ rest)) :
    Declarator.AllFit declarators := by
  have closed : Closed [Token.semicolon] := ⟨_, _, rfl, rfl⟩
  induction declarators with
  | nil => trivial
  | cons declarator declarators ih =>
      refine ⟨fun init isInit => ?_, ih fun before next behind split => ?_⟩
      · exact (each [] declarator declarators rfl init isInit).before_halted closed.halted stops
          ((SameUpTo.refl rest [.semicolon]).append _)
      · exact each (declarator :: before) next behind (by rw [split]; rfl)

/-- A declaration that was read in front of something that ends an expression. -/
theorem reads_localDecl : localDecl.Reads fun used rest found => Stops 0 (tokensOf rest) →
    tokensOf used = found.type.tokens ++ Token.listed .comma Declarator.tokens found.declarators ∧
      found.Fits := by
  refine Reads.labelled "declaration" ((reads_type.bind fun type =>
    (reads_declarator.separated1 Token.comma (consumes_of_covers declarator_covers)).bind
      fun declarators => reads_pure _).mono ?_)
  rintro used rest _ ⟨front, _, type, rfl, ⟨spelled, named⟩, _, _, _, rfl,
    ⟨first, back, declarator, others, rfl, rfl, held, series⟩, rfl, rfl⟩ stops
  rw [List.nil_append] at held series
  obtain ⟨spelled', stops', fit⟩ := declarators_of_series series stops
  refine ⟨?_, named, List.cons_ne_nil _ _, ?_⟩
  · simp [spelled, held.spelled, spelled', Token.listed]
  · refine allFit_of_splits (tokensOf rest) (fun isHead => ?_) ?_
    · have weak := stops .parenOpen isHead
      simp [Token.strength] at weak
    · intro before next behind split
      cases before with
      | nil =>
          obtain ⟨rfl, rfl⟩ := List.cons.inj split
          rw [← spelled', ← tokensOf_append]
          exact held.fits stops'
      | cons _ before =>
          obtain ⟨-, rfl⟩ := List.cons.inj split
          exact fit before next behind rfl

theorem reads_declStmt : declStmt.Reads StmtRead := by
  refine ((reads_localDecl.bind fun decl => reads_semicolon.bind fun _ =>
    reads_pure decl).spanned.bind fun found => reads_pure _).mono ?_
  rintro used rest _ ⟨_, _, ⟨_, span⟩, rfl, ⟨⟨front, _, decl, rfl, read, _, _, _, rfl, ends, rfl, rfl⟩,
    -⟩, rfl, rfl⟩
  simp only [List.append_nil, List.nil_append] at read ⊢
  obtain ⟨spelled, fits⟩ := read (by rw [tokensOf_append, ends]; exact stops_cons.mpr (Nat.le_refl _))
  refine stmtRead_of_plain ?_ fits rfl rfl rfl rfl
  obtain ⟨first, others, shape⟩ := List.exists_cons_of_ne_nil fits.2.1
  rw [tokensOf_append, spelled, ends, Stmt.tokens, LocalDecl.tokens, shape, List.append_assoc]

/-- Where no declaration is read there is none. -/
theorem not_opensDecl_of_rejects {lexemes : List (Lexeme Token)}
    (rejects : declStmt.Rejects lexemes) : ¬OpensDecl (tokensOf lexemes) := by
  rintro ⟨type, name, rest, named, spelled⟩
  have semicolon_total : semicolon.Total := by
    refine (total_optional _).spanned.bind fun found => ?_
    obtain ⟨found, span⟩ := found
    cases found with
    | none => exact total_report _ _
    | some _ => exact total_pure _
  have declared : localDecl.Rejects lexemes :=
    ((rejects.of_bind fun _ => total_pure _).of_spanned).of_bind fun _ =>
      semicolon_total.bind fun _ => total_pure _
  obtain ⟨_, tail, spelled', -, declarators⟩ := declared.of_labelled.behind spelled
    (yields_type named ⟨by simp, by simp⟩)
  have declarator := ((declarators.of_bind fun _ => total_pure _).of_bind fun _ =>
    (total_many _).bind fun _ => total_pure _).of_bind fun _ => total_pure _
  obtain ⟨_, _, -, -, rejects'⟩ := declarator.of_spanned.behind
    (show tail.map Lexeme.token = [.ident name] ++ rest from spelled') (yields_name name)
  exact rejects'.not_total ((total_optional _).bind fun _ => total_pure _)

theorem stmts_of_series {rest : List (Lexeme Token)} {stmts : List Stmt}
    (series : Series StmtRead used rest stmts)
    (ends : (tokensOf rest).head? ≠ some (.keyword .elseWord)) :
    tokensOf used = Stmt.allTokens stmts ∧ Stmt.AllFit stmts ∧ Stmt.anyDangles stmts = false := by
  induction series with
  | nil rest => exact ⟨rfl, trivial, rfl⟩
  | @cons used more rest stmt stmts held following ih =>
      obtain ⟨spelled', fit, settled'⟩ := ih ends
      have behind : (tokensOf (more ++ rest)).head? ≠ some (.keyword .elseWord) := by
        rw [tokensOf_append, spelled']
        exact fit.head?_ne_else ends
      obtain ⟨own, -⟩ := held.settled (elseReadable_of_ne behind)
      refine ⟨by rw [tokensOf_append, held.spelled, spelled', Stmt.allTokens], ⟨held.fits, fit⟩, ?_⟩
      rw [Stmt.anyDangles, own, settled']
      rfl

theorem loopsOn_of_series {rest : List (Lexeme Token)} {stmts : List Stmt}
    (series : Series StmtRead used rest stmts) :
    ∀ stmt ∈ stmts, LoopsOn used stmt.statements :=
  series.forall_mem (fun used stmt => LoopsOn used stmt.statements)
    (fun _ _ _ loops subset => LoopsOn.mono loops subset) fun _ _ _ held => held.loops

/-- Statements that were read between braces. -/
structure BracedRead (used : List (Lexeme Token)) (stmts : List Stmt) : Prop where
  spelled : tokensOf used = .braceOpen :: (Stmt.allTokens stmts ++ [.braceClose])
  fit : Stmt.AllFit stmts
  settled : Stmt.anyDangles stmts = false
  loops : ∀ stmt ∈ stmts, LoopsOn used stmt.statements

theorem bracedRead_of_series {opening closing : Lexeme Token} {inside rest : List (Lexeme Token)}
    {stmts : List Stmt} (opened : opening.token = .braceOpen) (closed : closing.token = .braceClose)
    (series : Series StmtRead inside (closing :: rest) stmts) :
    BracedRead (opening :: (inside ++ [closing])) stmts := by
  obtain ⟨spelled, fit, settled⟩ := stmts_of_series series (by simp [closed])
  refine ⟨by simp [opened, closed, spelled], fit, settled, fun stmt listed => ?_⟩
  refine (loopsOn_of_series series stmt listed).mono ?_
  intro lexeme inside
  simp [inside]

theorem reads_block (readsStmts : ReadsStmts bound inner) :
    (block inner).Reads fun used rest found => used.length + rest.length ≤ bound + 1 →
      StmtRead used rest found := by
  refine Reads.recoverWith (((((readsStmts.reads.many (readsStmts.laid.mono
    fun _ _ _ _ held => held.1)).between Token.braceOpen .braceClose).spanned).bind fun found =>
      reads_pure _).mono ?_) (advances_of (skipGroup_laid _ _ _))
  rintro used rest _ ⟨_, _, ⟨stmts, span⟩, rfl, ⟨⟨opening, inside, closing, rfl, opened, closed,
    series, -⟩, -⟩, rfl, rfl⟩ short
  simp only [List.append_nil, List.nil_append, List.length_cons, List.length_append,
    List.length_nil] at series short ⊢
  obtain ⟨spelled, fit, settled, loops⟩ := bracedRead_of_series opened closed
    (series.within (by simp only [List.length_cons]; omega))
  exact ⟨by rw [spelled, Stmt.tokens], fit, fun _ => ⟨settled, by simp [Stmt.endsInIf]⟩,
    loopsOn_of_children rfl loops⟩

theorem reads_condition : condition.Reads fun used _ found =>
    tokensOf used = .parenOpen :: (found.tokens ++ [.parenClose]) ∧ found.Fits [.parenClose] := by
  refine (reads_expr.between Token.parenOpen .parenClose).mono ?_
  rintro used rest cond ⟨opening, inside, closing, rfl, opened, closed, spelled, fits⟩
  exact ⟨by simp [opened, closed, spelled], fits_of_read closed rfl fits⟩

/-- A statement whose last part is one other statement. -/
theorem stmtRead_of_last {front back rest : List (Lexeme Token)} {found body : Stmt}
    (spelled : tokensOf (front ++ back) = found.tokens) (fits : found.Fits)
    (only : found.children = [body]) (sameDangles : found.dangles = body.dangles)
    (sameEnd : found.endsInIf = body.endsInIf)
    (place : ∀ loop, found.loop? = some loop → LoopPlace (front ++ back) loop.span)
    (read : StmtRead back rest body) : StmtRead (front ++ back) rest found := by
  refine ⟨spelled, fits, ?_, ?_⟩
  · rw [sameDangles, sameEnd]
    exact read.settled
  · intro inside listed loop isLoop
    rw [Stmt.statements_eq, only, List.flatMap_singleton, List.mem_cons] at listed
    rcases listed with rfl | deeper
    · exact place loop isLoop
    · exact read.loops.mono (List.subset_append_right front back) inside deeper loop isLoop

theorem reads_foreachLoop (readsStmts : ReadsStmts bound inner) :
    (foreachLoop inner).Reads fun used rest found => used.length + rest.length ≤ bound + 1 →
      StmtRead used rest found := by
  have header_reads : loopHeader.Reads fun used rest found => Closed (tokensOf rest) →
      tokensOf used = found.1.tokens ++ .ident found.2.1.1 :: .keyword .inWord ::
        found.2.2.tokens ∧ found.1.Named ∧ found.2.2.Fits (tokensOf rest) := by
    refine (reads_type.bind fun type => reads_name.spanned.bind fun var =>
      (reads_token (Token.keyword .inWord)).bind fun _ => reads_expr.bind fun seq =>
        reads_pure (type, var, seq)).mono ?_
    rintro used rest _ ⟨front, _, type, rfl, ⟨spelled, named⟩, _, _, var, rfl, ⟨⟨lexeme, rfl, isName⟩, -⟩,
      _, _, _, rfl, ⟨word, rfl, isIn⟩, own, _, seq, rfl, ⟨spelled', fits⟩, rfl, rfl⟩ closed
    rw [List.nil_append] at fits
    exact ⟨by simp [spelled, isName, isIn, spelled'], named, fits closed.stops⟩
  refine Reads.labelled "foreach" ((((reads_token (Token.keyword .foreachWord)).bind fun _ =>
    (header_reads.between Token.parenOpen .parenClose).bind fun header =>
      readsStmts.reads.bind fun body => reads_pure (header, body)).spanned.bind
        fun found => reads_pure _).mono ?_)
  rintro used rest _ ⟨_, _, ⟨_, span⟩, rfl, ⟨⟨_, _, _, rfl, ⟨word, rfl, isWord⟩, _, _,
    ⟨type, ⟨var, varSpan⟩, seq⟩, rfl, ⟨opening, inside, closing, rfl, opened, closed, header⟩,
    back, _, body, rfl, read, rfl, rfl⟩, covered⟩, rfl, rfl⟩ short
  simp only [List.append_nil, List.length_append, List.length_cons] at covered short ⊢
  obtain ⟨spelled, named, fits⟩ := header ⟨closing.token, _, rfl, by rw [closed]; rfl⟩
  have bodyRead := read (by simp only [List.length_nil, List.nil_append] at short ⊢; omega)
  have ends : Closed (tokensOf (closing :: (back ++ [] ++ rest))) :=
    ⟨closing.token, _, rfl, by rw [closed]; rfl⟩
  show StmtRead ((word :: opening :: (inside ++ [closing])) ++ back) rest _
  refine stmtRead_of_last ?_ ⟨named, fits.close ends.stops ⟨_, _, rfl, rfl⟩, bodyRead.fits⟩
    rfl rfl rfl ?_ bodyRead
  · simp [Stmt.tokens, isWord, opened, spelled, closed, bodyRead.spelled]
  · rintro loop isLoop
    cases isLoop
    obtain ⟨last, listed, place⟩ := spanOf_eq (opening :: (inside ++ [closing]) ++ back)
    exact ⟨word, List.mem_cons_self, last, listed, isWord,
      (covered (List.cons_ne_nil _ _)).trans place⟩

theorem reads_whileLoop (readsStmts : ReadsStmts bound inner) :
    (whileLoop inner).Reads fun used rest found => used.length + rest.length ≤ bound + 1 →
      StmtRead used rest found := by
  refine ((((reads_token (Token.keyword .whileWord)).bind fun _ => reads_condition.bind fun cond =>
    readsStmts.reads.bind fun body => reads_pure (cond, body)).spanned.bind
      fun found => reads_pure _).mono ?_)
  rintro used rest _ ⟨_, _, ⟨_, span⟩, rfl, ⟨⟨_, _, _, rfl, ⟨word, rfl, isWord⟩, header, _, cond, rfl,
    ⟨spelled, fits⟩, back, _, body, rfl, read, rfl, rfl⟩, -⟩, rfl, rfl⟩ short
  simp only [List.append_nil, List.nil_append, List.length_append, List.length_cons,
    List.length_nil] at read short ⊢
  have bodyRead := read (by omega)
  show StmtRead ((word :: header) ++ back) rest _
  refine stmtRead_of_last ?_ ⟨fits, bodyRead.fits⟩ rfl rfl rfl (fun _ isLoop => by cases isLoop)
    bodyRead
  simp [Stmt.tokens, isWord, spelled, bodyRead.spelled]

/-- An `if` without `else` does not stand before an `else` that can be read. -/
theorem head?_ne_else_of_rejects (readBack : StmtsReadBack bound inner)
    {rest : List (Lexeme Token)} (short : rest.length ≤ bound + 1)
    (rejects : (elseBranch inner).Rejects rest) (readable : ElseReadable (tokensOf rest)) :
    (tokensOf rest).head? ≠ some (.keyword .elseWord) := by
  intro isElse
  obtain ⟨branch, tail, fits, settled, ends, spelled⟩ := readable isElse
  have length := congrArg List.length spelled
  simp only [length_tokensOf, List.length_cons, List.length_append] at length
  have read := readBack.yields branch tail (by omega) fits settled ends
  exact rejects.not_yields (show tokensOf rest = (.keyword .elseWord :: branch.tokens) ++ tail from
    spelled) (Yields.token_bind read)

variable {word mark : Lexeme Token} {header own back rest : List (Lexeme Token)} {cond : Expr}
  {body branch : Stmt}

/-- An `if` whose `else` was not read. -/
theorem stmtRead_ifThen (span : Span) (isWord : word.token = .keyword .ifWord)
    (spelled : tokensOf header = .parenOpen :: (cond.tokens ++ [.parenClose]))
    (fits : cond.Fits [.parenClose]) (bodyRead : StmtRead own rest body)
    (noElse : ElseReadable (tokensOf rest) → (tokensOf rest).head? ≠ some (.keyword .elseWord)) :
    StmtRead (word :: (header ++ own)) rest (.ifThen span cond body) where
  spelled := by simp [Stmt.tokens, isWord, spelled, bodyRead.spelled]
  fits := ⟨fits, bodyRead.fits⟩
  settled readable := ⟨(bodyRead.settled readable).1, fun _ => noElse readable⟩
  loops := by
    refine loopsOn_of_children rfl ?_
    simp only [Stmt.children, List.forall_mem_singleton]
    refine bodyRead.loops.mono ?_
    intro lexeme inside
    simp [inside]

/-- An `if` with its `else`.  The body cannot end in an `if`, for the `else` was left over. -/
theorem stmtRead_ifElse (span : Span) (isWord : word.token = .keyword .ifWord)
    (marked : mark.token = .keyword .elseWord)
    (spelled : tokensOf header = .parenOpen :: (cond.tokens ++ [.parenClose]))
    (fits : cond.Fits [.parenClose]) (bodyRead : StmtRead own (mark :: back ++ rest) body)
    (branchRead : StmtRead back rest branch) :
    StmtRead (word :: (header ++ (own ++ mark :: back))) rest (.ifElse span cond body branch) where
  spelled := by
    simp [Stmt.tokens, isWord, spelled, bodyRead.spelled, marked, branchRead.spelled]
  fits := ⟨fits, bodyRead.fits, branchRead.fits⟩
  settled readable := by
    have spelling : tokensOf (mark :: back ++ rest) =
        .keyword .elseWord :: (branch.tokens ++ tokensOf rest) := by
      simp [marked, branchRead.spelled]
    obtain ⟨branchSettled, branchEnds⟩ := branchRead.settled readable
    obtain ⟨bodySettled, bodyEnds⟩ := bodyRead.settled fun _ =>
      ⟨branch, tokensOf rest, branchRead.fits, branchSettled, branchEnds, spelling⟩
    have closed : body.endsInIf = false := by
      cases ends : body.endsInIf with
      | false => rfl
      | true => exact absurd (by rw [spelling]; rfl) (bodyEnds ends)
    exact ⟨by simp [Stmt.dangles, closed, bodySettled, branchSettled], branchEnds⟩
  loops := by
    refine loopsOn_of_children rfl ?_
    simp only [Stmt.children, List.forall_mem_cons, List.not_mem_nil, false_implies, implies_true,
      and_true]
    refine ⟨bodyRead.loops.mono ?_, branchRead.loops.mono ?_⟩
    · intro lexeme inside
      simp [inside]
    · intro lexeme inside
      simp [inside]

theorem reads_conditional (readsStmts : ReadsStmts bound inner) :
    (conditional inner).Reads fun used rest found => used.length + rest.length ≤ bound + 1 →
      StmtRead used rest found := by
  have else_reads : (elseBranch inner).Reads (After (.keyword .elseWord) fun used rest found =>
      used.length + rest.length ≤ bound → StmtRead used rest found) := by
    refine ((reads_token (Token.keyword .elseWord)).bind fun _ => readsStmts.reads).mono ?_
    rintro used rest branch ⟨_, own, _, rfl, ⟨lexeme, rfl, marked⟩, held⟩
    exact ⟨lexeme, own, rfl, marked, held⟩
  rw [conditional_eq]
  refine Reads.labelled "if" ((((reads_token (Token.keyword .ifWord)).bind fun _ =>
    reads_condition.bind fun cond => readsStmts.reads.bind fun body => else_reads.optional.bind
      fun otherwise => reads_pure (cond, body, otherwise)).spanned.bind
        fun found => reads_pure _).mono ?_)
  rintro used rest _ ⟨_, _, ⟨_, span⟩, rfl, ⟨⟨_, _, _, rfl, ⟨word, rfl, isWord⟩, header, _, cond, rfl,
    ⟨spelled, fits⟩, own, _, body, rfl, read, back, _, otherwise, rfl, choice, rfl, rfl⟩, -⟩,
    rfl, rfl⟩ short
  simp only [List.append_nil, List.nil_append, List.length_append, List.length_cons,
    List.length_nil] at read choice short ⊢
  have bodyRead := read (by omega)
  rcases choice with ⟨branch, rfl, mark, more, rfl, marked, branchHeld⟩ | ⟨rfl, rfl, rejects⟩
  · rw [List.length_cons] at short
    exact stmtRead_ifElse span isWord marked spelled fits bodyRead (branchHeld (by omega))
  · simp only [List.append_nil, List.nil_append, List.length_nil] at bodyRead short ⊢
    show StmtRead (word :: (header ++ own)) rest _
    exact stmtRead_ifThen span isWord spelled fits bodyRead
      (head?_ne_else_of_rejects readsStmts.back (by omega) rejects)

theorem reads_wordStmt {word : Keyword} {make : Span → Stmt}
    (plain : ∀ span, (make span).tokens = [.keyword word, .semicolon] ∧ (make span).Fits ∧
      (make span).children = [] ∧ (make span).loop? = none ∧ (make span).dangles = false ∧
        (make span).endsInIf = false) : (wordStmt word make).Reads StmtRead := by
  refine (((reads_token (Token.keyword word)).bind fun _ => reads_semicolon).spanned.bind
    fun found => reads_pure _).mono ?_
  rintro used rest _ ⟨_, _, ⟨_, span⟩, rfl, ⟨⟨_, own, _, rfl, ⟨lexeme, rfl, isWord⟩, ends⟩, -⟩,
    rfl, rfl⟩
  obtain ⟨spelled, fits, noChildren, noLoop, settled, noIf⟩ := plain span
  exact stmtRead_of_plain (by simp [isWord, ends, spelled]) fits noChildren noLoop settled noIf

theorem reads_returnStmt : returnStmt.Reads StmtRead := by
  refine (((reads_token (Token.keyword .returnWord)).bind fun _ => reads_expr.optional.bind
    fun value => reads_semicolon.bind fun _ => reads_pure value).spanned.bind
      fun found => reads_pure _).mono ?_
  rintro used rest _ ⟨_, _, ⟨_, span⟩, rfl, ⟨⟨_, _, _, rfl, ⟨word, rfl, isWord⟩, own, _, value, rfl,
    choice, back, _, _, rfl, ends, rfl, rfl⟩, -⟩, rfl, rfl⟩
  simp only [List.append_nil] at choice ⊢
  obtain ⟨mark, rfl, marked⟩ := List.map_eq_singleton_iff.mp ends
  rcases choice with ⟨value, rfl, spelled, fits⟩ | ⟨rfl, rfl, -⟩
  · refine stmtRead_of_plain ?_ (fun result isResult => ?_) rfl rfl rfl rfl
    · simp [Stmt.tokens, isWord, spelled, marked]
    · obtain rfl := Option.mem_some_iff.mp isResult
      exact fits_of_read marked rfl fits
  · refine stmtRead_of_plain ?_ (fun result isResult => by cases isResult) rfl rfl rfl rfl
    simp [Stmt.tokens, isWord, marked]

theorem reads_emptyStmt : emptyStmt.Reads StmtRead := by
  refine ((reads_token Token.semicolon).spanned.bind fun found => reads_pure _).mono ?_
  rintro used rest _ ⟨_, _, ⟨_, span⟩, rfl, ⟨⟨lexeme, rfl, same⟩, -⟩, rfl, rfl⟩
  exact stmtRead_of_plain (by simp [Stmt.tokens, same]) trivial rfl rfl rfl rfl

theorem reads_exprStmt : exprStmt.Reads fun used rest found =>
    ¬OpensDecl (tokensOf (used ++ rest)) → StmtRead used rest found := by
  refine ((reads_expr.bind fun value => reads_semicolon.bind fun _ =>
    reads_pure value).spanned.bind fun found => reads_pure _).mono ?_
  rintro used rest _ ⟨_, _, ⟨_, span⟩, rfl, ⟨⟨front, _, value, rfl, ⟨spelled, fits⟩, back, _, _, rfl,
    ends, rfl, rfl⟩, -⟩, rfl, rfl⟩ plain
  simp only [List.append_nil] at fits plain ⊢
  obtain ⟨mark, rfl, marked⟩ := List.map_eq_singleton_iff.mp ends
  refine stmtRead_of_plain ?_ ⟨fits_of_read marked rfl fits, ?_⟩ rfl rfl rfl rfl
  · simp [Stmt.tokens, spelled, marked]
  · rintro ⟨type, name, tail, named, shape⟩
    refine plain ⟨type, name, tail ++ tokensOf rest, named, ?_⟩
    have longer := congrArg (· ++ tokensOf rest) shape
    simpa [spelled, marked] using longer

/-- What is skipped is reported. -/
theorem reads_unreadable : unreadable.Reads fun _ _ _ => False := by
  have reported : ∀ span, (report span (Cause.unrecognizedStatement : Cause Token)).Reads
      fun _ _ _ => False := by
    intro span
    refine (ensures_report span .unrecognizedStatement).mono ?_
    rintro used rest value errors ⟨-, rfl⟩ clean
    cases clean
  refine ((reads_of_ensures skipped_consumes.spanned).bind fun found =>
    (reported found.2).bind fun _ => reads_pure _).mono ?_
  rintro used rest value ⟨_, _, _, -, -, _, _, _, -, never, -⟩
  exact never

theorem reads_stmtRule (readsStmts : ReadsStmts bound inner) :
    (stmtRule inner).Reads fun used rest found => used.length + rest.length ≤ bound + 1 →
      StmtRead used rest found := by
  refine Reads.labelled "statement" (((reads_block readsStmts).orElse
    ((reads_foreachLoop readsStmts).orElse ((reads_conditional readsStmts).orElse
      ((reads_whileLoop readsStmts).orElse ((reads_wordStmt fun _ => ?_).orElse
        ((reads_wordStmt fun _ => ?_).orElse (reads_returnStmt.orElse (reads_emptyStmt.orElse
          (reads_declStmt.orElse (reads_exprStmt.orElse reads_unreadable)))))))))).mono ?_)
  · exact ⟨by rw [Stmt.tokens], trivial, rfl, rfl, rfl, rfl⟩
  · exact ⟨by rw [Stmt.tokens], trivial, rfl, rfl, rfl, rfl⟩
  · rintro used rest found (held | ⟨-, held | ⟨-, held | ⟨-, held | ⟨-, held | ⟨-, held | ⟨-, held |
      ⟨-, held | ⟨-, held | ⟨noDecl, held | ⟨-, held⟩⟩⟩⟩⟩⟩⟩⟩⟩⟩) short
    · exact held short
    · exact held short
    · exact held short
    · exact held short
    · exact held
    · exact held
    · exact held
    · exact held
    · exact held
    · exact held (not_opensDecl_of_rejects noDecl)
    · exact held.elim

theorem readsStmts_stmtRule (readsStmts : ReadsStmts bound inner) :
    ReadsStmts (bound + 1) (stmtRule inner) :=
  ⟨stmtsReadBack_stmtRule readsStmts.back, reads_stmtRule readsStmts, stmtRule_laid readsStmts.laid⟩

/-- A statement that was read without errors is spelled by what was read and fits, and
no `else` dangles in it if the rest can be read. -/
theorem reads_stmt : stmt.Reads StmtRead := by
  have zero : ReadsStmts 0 fun cursor _ => .rejected (cursor.refusal []) := by
    refine ⟨stmtsReadBack_none, ?_, ?_⟩ <;>
    · intro cursor furthest value after errors furthest' accepted
      simp at accepted
  refine Reads.recursive fun budget => ?_
  refine (unrolled_of_step zero (fun _ _ => readsStmts_stmtRule) budget).reads.mono ?_
  intro used rest found held short
  exact held (Nat.le_succ_of_le short)

end QueryLoop.Grammar
