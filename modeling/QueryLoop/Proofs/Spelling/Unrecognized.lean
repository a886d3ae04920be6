import QueryLoop.Proofs.Reading.Reports
import QueryLoop.Proofs.Spelling.Layout

namespace QueryLoop

open Parsing Parser

/-- Tokens that no item starts with, though they may stand inside one. -/
def Token.strays : Token → Bool
  | .parenClose | .bracketClose | .comma | .dot | .assign | .arrow => true
  | _ => false

theorem Token.startsExpr_of_strays {token : Token} (strays : token.strays = true) :
    token.startsExpr = false := by
  cases token <;> first | rfl | cases strays

namespace Grammar

/-- Where an unrecognized statement ends. -/
abbrev boundaries : List Token :=
  [.semicolon, .braceOpen, .braceClose]

variable {rest : List Token}

theorem yields_noneOf {refused : List Token} {token : Token} (allowed : token ∉ refused) :
    (noneOf refused).Yields [token] rest (· = token) :=
  yields_select (if_neg allowed)

theorem yields_skipped {garbage : List Token} (nonempty : garbage ≠ [])
    (plain : ∀ token ∈ garbage, token ∉ boundaries) :
    (do
      let _ ← many1 (noneOf boundaries)
      Parser.optional (token Token.semicolon)).Yields (garbage ++ [Token.semicolon]) rest
        fun _ => True := by
  obtain ⟨first, others, rfl⟩ := List.exists_cons_of_ne_nil nonempty
  obtain ⟨allowed, allowed'⟩ := List.forall_mem_cons.mp plain
  have stops : (noneOf boundaries).Refuses (.semicolon :: rest) := by
    refine refuses_select fun token isHead => ?_
    obtain rfl : Token.semicolon = token := by simpa using isHead
    simp
  have series : (many (noneOf boundaries)).Yields (others.flatMap fun token => [token])
      (.semicolon :: rest) (List.Forall₂ (fun _ _ => True) others) := by
    refine Yields.many others (fun before next behind split => ?_)
      (fun _ _ => List.cons_ne_nil _ _) stops
    exact (yields_noneOf (allowed' next (by simp [split]))).mono fun _ _ => trivial
  rw [List.flatMap_singleton'] at series
  have skipped : (many1 (noneOf boundaries)).Yields (first :: others) (.semicolon :: rest)
      fun _ => True :=
    Yields.bind [first] others rfl (yields_noneOf allowed) fun value _ =>
      series.map fun _ _ => trivial
  refine Yields.bind (first :: others) [.semicolon] rfl skipped fun _ _ => ?_
  exact (yields_token Token.semicolon).optional_some.mono fun _ _ => trivial

/-- What is skipped is reported once, at the place of the statement that stands for it. -/
theorem gives_unreadable {garbage : List Token} (nonempty : garbage ≠ [])
    (plain : ∀ token ∈ garbage, token ∉ boundaries) :
    unreadable.Gives (garbage ++ [.semicolon]) rest fun used found errors =>
      found = .error (spanOf used) ∧ errors = [⟨spanOf used, .unrecognizedStatement⟩] := by
  have skipped : (do
      let _ ← many1 (noneOf boundaries)
      Parser.optional (token Token.semicolon)).Yields (garbage ++ [Token.semicolon]) ([] ++ rest)
        fun _ => True := yields_skipped nonempty plain
  have placed := skipped.spanned.gives.ensured skipped_consumes.spanned
  refine Gives.bind _ [] (List.append_nil _).symm placed fun used found errors held => ?_
  obtain ⟨⟨rfl, -⟩, _, taken, covered⟩ := held
  obtain ⟨found, span⟩ := found
  obtain rfl : span = spanOf used := covered taken
  refine Gives.bind [] [] rfl (Gives.report _ _) fun more _ errors reported => ?_
  obtain ⟨rfl, rfl⟩ := reported
  refine Gives.pure _ ?_
  simp

/-- Of the readings of a statement, only the last one starts with a stray token. -/
theorem gives_stmtRule_of_strays {inner : Parser Token Stmt} {first : Token} {others : List Token}
    {outcome : Outcome Token Stmt} (strays : first.strays = true)
    (late : unreadable.Gives (first :: others) rest outcome) :
    (stmtRule inner).Gives (first :: others) rest outcome := by
  have chosen : reading inner first = (declStmt <|> exprStmt <|> unreadable) := by
    cases first <;> first | rfl | cases strays
  have noDecl : ¬OpensDecl ((first :: others) ++ rest) := by
    refine not_opensDecl fun name isHead => ?_
    obtain rfl : first = .ident name := by simpa using isHead
    cases strays
  have noExpr : ∀ token ∈ ((first :: others) ++ rest).head?, token.startsExpr = false := by
    intro token isHead
    obtain rfl : first = token := by simpa using isHead
    exact Token.startsExpr_of_strays strays
  refine gives_stmtRule ?_
  rw [chosen]
  refine Gives.orElse_right (refuses_declStmt noDecl) (Gives.orElse_right ?_ late)
  exact Refuses.bind_first (Refuses.spanned (Refuses.bind_first (refuses_expr_of_head noExpr)))

theorem gives_stmt_of_strays {first : Token} {others : List Token} {outcome : Outcome Token Stmt}
    (strays : first.strays = true) (late : unreadable.Gives (first :: others) rest outcome) :
    stmt.Gives (first :: others) rest outcome := by
  refine Gives.recursive fun budget _ => ?_
  cases budget with
  | nil => exact gives_stmtRule_of_strays strays late
  | cons spare budget => exact gives_stmtRule_of_strays strays late

/-- Of the readings of an item, only the last one starts with a stray token. -/
theorem gives_itemRule_of_strays {inner : Parser Token Item} {first : Token} {others : List Token}
    {outcome : Outcome Token Stmt} (strays : first.strays = true)
    (read : stmt.Gives (first :: others) rest outcome) :
    (itemRule inner).Gives (first :: others) rest fun used found errors =>
      ∃ span stmt, found = .statement span stmt ∧ outcome used stmt errors := by
  have plain : first.opensItem = false := by cases first <;> first | rfl | cases strays
  have noMethod : methodItem.Refuses ((first :: others) ++ rest) := by
    refine refuses_methodItem (fun _ => head?_ne_of_opensItem plain rfl)
      (not_opensDecl fun name isHead => ?_)
    obtain rfl : first = .ident name := by simpa using isHead
    cases strays
  have made : stmtItem.Gives (first :: others) rest fun used make errors =>
      ∃ stmt, (∀ span, make span = .statement span stmt) ∧ outcome used stmt errors :=
    Gives.map (read.mono fun used stmt errors held => ⟨stmt, fun _ => rfl, held⟩)
  refine Gives.map ((gives_itemKinds_stmt plain noMethod made).spanned.mono
    fun used found errors held => ?_)
  obtain ⟨stmt, makes, holds⟩ := held
  exact ⟨found.2, stmt, makes found.2, holds⟩

theorem gives_item_of_strays {first : Token} {others : List Token} {outcome : Outcome Token Stmt}
    (strays : first.strays = true) (read : stmt.Gives (first :: others) rest outcome) :
    item.Gives (first :: others) rest fun used found errors =>
      ∃ stmt, found = .statement (spanOf used) stmt ∧ outcome used stmt errors := by
  have unplaced : item.Gives (first :: others) rest fun used found errors =>
      ∃ span stmt, found = .statement span stmt ∧ outcome used stmt errors := by
    refine Gives.recursive fun budget _ => ?_
    cases budget with
    | nil => exact gives_itemRule_of_strays strays read
    | cons spare budget => exact gives_itemRule_of_strays strays read
  refine (unplaced.ensured item_laid).mono fun used found errors held => ?_
  obtain ⟨⟨span, stmt, rfl, holds⟩, _, -, covered, -⟩ := held
  obtain rfl : span = spanOf used := covered
  exact ⟨stmt, rfl, holds⟩

end Grammar

namespace SourceTree

open Grammar

/-- The items of `before` and of `behind`, with a statement between them that was not
recognized. -/
def Joins (tree before : SourceTree) (place : Span) (behind : SourceTree) : Prop :=
  ∃ items items', tree = ⟨items ++ .statement place (.error place) :: items'⟩ ∧
    (⟨items⟩ : SourceTree).bare = before.bare ∧ (⟨items'⟩ : SourceTree).bare = behind.bare

theorem parse_eq_of_clean {source : String} (clean : (parse source).2 = []) :
    parse source = ((parse source).1, []) :=
  Prod.ext rfl clean

theorem ofLexemes_joins {before behind : SourceTree} {first : Token} {others : List Token}
    (fits : before.Fits) (fits' : behind.Fits) (settled : before.dangles = false)
    (settled' : behind.dangles = false) (strays : first.strays = true)
    (plain : ∀ token ∈ first :: others, token ∉ boundaries) {front own back : List (Lexeme Token)}
    (spelled : tokensOf front = before.tokens)
    (spelled' : tokensOf own = first :: others ++ [.semicolon])
    (spelled'' : tokensOf back = behind.tokens) (stop : Nat) :
    ∃ tree, ofLexemes (front ++ (own ++ back)) stop =
        (tree, [⟨spanOf own, .unrecognizedStatement⟩]) ∧ tree.Joins before (spanOf own) behind := by
  have ne_else : first ≠ .keyword .elseWord := by
    rintro rfl
    cases strays
  -- the items of both trees, and the statement between them
  have series := gives_items_around (readBack_item _) (Nat.le_max_left _ _) (Nat.le_max_right _ _)
    fits fits' settled settled' (by simp) (by simp) (by simpa using ne_else)
    (fun _ _ _ => Yields.skipAndRetry) (Gives.skipAndRetry (gives_item_of_strays strays
      (gives_stmt_of_strays strays (gives_unreadable (List.cons_ne_nil first others) plain))))
    (Refuses.skipAndRetry_nil ((readBack_item 0).refuses [] (.inl rfl)))
  have items : sourceTree.Gives (tokensOf (front ++ (own ++ back))) []
      fun used tree errors => ∃ front' own' back', used = front' ++ (own' ++ back') ∧
        tokensOf front' = before.tokens ∧ tokensOf own' = first :: others ++ [.semicolon] ∧
        errors = [⟨spanOf own', .unrecognizedStatement⟩] ∧
        tree.Joins before (spanOf own') behind := by
    rw [tokensOf_append, tokensOf_append, spelled, spelled', spelled'']
    refine Gives.map (series.mono fun used found errors held => ?_)
    obtain ⟨front', own', back', items, _, items', rfl, spelled, spelled', rfl, alike,
      ⟨_, rfl, rfl, rfl⟩, alike'⟩ := held
    refine ⟨front', own', back', rfl, spelled, spelled', rfl, items, items', rfl, ?_, ?_⟩
    · rw [bare, bare, Item.bareAll_eq, Item.bareAll_eq, alike]
    · rw [bare, bare, Item.bareAll_eq, Item.bareAll_eq, alike']
  obtain ⟨tree, errors, ran, front', own', back', split, inFront, inOwn, rfl, joins⟩ :=
    items.run stop
  -- the statement stands where its tokens are
  have same_length : front.length = front'.length := by
    simpa using congrArg List.length (spelled.trans inFront.symm)
  have same_length' : own.length = own'.length := by
    simpa using congrArg List.length (spelled'.trans inOwn.symm)
  obtain ⟨-, split'⟩ := List.append_inj split same_length
  obtain ⟨rfl, -⟩ := List.append_inj split' same_length'
  exact ⟨tree, by rw [ofLexemes, ran]; rfl, joins⟩

/-- Between the tokens of two texts without problems, tokens that start with a stray one,
hold no semicolon or brace and have a semicolon behind them are one statement that was not
recognized.  Nothing else is wrong, and the items on both sides are those of the texts. -/
theorem unrecognized_joins {source source' : String} {before behind : SourceTree}
    {lexemes lexemes' : List (Lexeme Token)} (parsed : parse source = (before, []))
    (parsed' : parse source' = (behind, [])) (read : Token.lex source = (some lexemes, []))
    (read' : Token.lex source' = (some lexemes', [])) {first : Token} {others : List Token}
    (strays : first.strays = true) (plain : ∀ token ∈ first :: others, token ∉ boundaries)
    {front own back : List (Lexeme Token)}
    (spelled : tokensOf front = tokensOf (Token.withoutComments lexemes))
    (spelled' : tokensOf own = first :: others ++ [.semicolon])
    (spelled'' : tokensOf back = tokensOf (Token.withoutComments lexemes')) :
    (∀ stop, ∃ tree, ofLexemes (front ++ (own ++ back)) stop =
        (tree, [⟨spanOf own, .unrecognizedStatement⟩]) ∧
          tree.Joins before (spanOf own) behind) ∧
      ∀ text all, Token.lex text = (some all, []) →
        Token.withoutComments all = front ++ (own ++ back) →
          ∃ tree problem, parse text = (tree, [problem]) ∧ problem.span = spanOf own ∧
            problem.message = "unrecognized statement" ∧ tree.Joins before (spanOf own) behind := by
  obtain ⟨known, readAgain, inFront, fits, settled, -⟩ := of_parse parsed
  obtain ⟨known', readAgain', inBack, fits', settled', -⟩ := of_parse parsed'
  obtain rfl : lexemes = known := by simpa using read.symm.trans readAgain
  obtain rfl : lexemes' = known' := by simpa using read'.symm.trans readAgain'
  have joined := ofLexemes_joins fits fits' settled settled' strays plain (spelled.trans inFront)
    spelled' (spelled''.trans inBack)
  refine ⟨joined, fun text all lexed kept => ?_⟩
  obtain ⟨tree, ran, joins⟩ := joined (Text.byteLength text.toList)
  refine ⟨tree, .grammatical ⟨spanOf own, .unrecognizedStatement⟩, ?_, rfl, rfl, joins⟩
  rw [← kept] at ran
  unfold Token.withoutComments at ran
  simp [parse, lexed, ran]

/-- A stray parenthesis and a name behind it, between two names. -/
theorem unrecognized_joins_names :
    ∃ tree problem, parse "a; ) b; c;" = (tree, [problem]) ∧ problem.span = ⟨3, 7⟩ ∧
      problem.message = "unrecognized statement" ∧
        tree.Joins (parse "a;").1 ⟨3, 7⟩ (parse "c;").1 := by
  have clean := parse_eq_of_clean (List.isEmpty_iff.mp (show (parse "a;").2.isEmpty = true by
    decide +kernel))
  have clean' := parse_eq_of_clean (List.isEmpty_iff.mp (show (parse "c;").2.isEmpty = true by
    decide +kernel))
  have read : Token.lex "a;" = (some [⟨.ident "a", ⟨0, 1⟩⟩, ⟨.semicolon, ⟨1, 2⟩⟩], []) :=
    Prod.ext (by decide +kernel) (List.isEmpty_iff.mp (by decide +kernel))
  have read' : Token.lex "c;" = (some [⟨.ident "c", ⟨0, 1⟩⟩, ⟨.semicolon, ⟨1, 2⟩⟩], []) :=
    Prod.ext (by decide +kernel) (List.isEmpty_iff.mp (by decide +kernel))
  have whole : Token.lex "a; ) b; c;" = (some ([⟨.ident "a", ⟨0, 1⟩⟩, ⟨.semicolon, ⟨1, 2⟩⟩] ++
      ([⟨.parenClose, ⟨3, 4⟩⟩, ⟨.ident "b", ⟨5, 6⟩⟩, ⟨.semicolon, ⟨6, 7⟩⟩] ++
        [⟨.ident "c", ⟨8, 9⟩⟩, ⟨.semicolon, ⟨9, 10⟩⟩])), []) :=
    Prod.ext (by decide +kernel) (List.isEmpty_iff.mp (by decide +kernel))
  have plain : ∀ token ∈ [Token.parenClose, .ident "b"], token ∉ boundaries := by decide
  have spelled' : tokensOf [⟨.parenClose, ⟨3, 4⟩⟩, ⟨.ident "b", ⟨5, 6⟩⟩, ⟨.semicolon, ⟨6, 7⟩⟩] =
      [Token.parenClose, .ident "b"] ++ [.semicolon] := rfl
  have spelled : tokensOf [⟨.ident "a", ⟨0, 1⟩⟩, ⟨.semicolon, ⟨1, 2⟩⟩] =
      [Token.ident "a", .semicolon] := rfl
  have spelled'' : tokensOf [⟨.ident "c", ⟨8, 9⟩⟩, ⟨.semicolon, ⟨9, 10⟩⟩] =
      [Token.ident "c", .semicolon] := rfl
  exact (unrecognized_joins clean clean' read read' rfl plain spelled spelled' spelled'').2 _ _
    whole rfl

end SourceTree

end QueryLoop
