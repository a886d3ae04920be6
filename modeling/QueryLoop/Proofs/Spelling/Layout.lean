import QueryLoop.Parse
import QueryLoop.Proofs.Reading.Alike
import QueryLoop.Proofs.Spelling.Trees

namespace QueryLoop

open Parsing Parser

/-- The types differ in their spans only; likewise for what follows. -/
def TypeRef.Alike (type type' : TypeRef) : Prop :=
  type.bare = type'.bare

def Expr.Alike (expr expr' : Expr) : Prop :=
  expr.bare = expr'.bare

def Declarator.Alike (declarator declarator' : Declarator) : Prop :=
  declarator.bare = declarator'.bare

def LocalDecl.Alike (decl decl' : LocalDecl) : Prop :=
  decl.bare = decl'.bare

def Stmt.Alike (stmt stmt' : Stmt) : Prop :=
  stmt.bare = stmt'.bare

def Param.Alike (param param' : Param) : Prop :=
  param.bare = param'.bare

def Item.Alike (item item' : Item) : Prop :=
  item.bare = item'.bare

def SourceTree.Alike (tree tree' : SourceTree) : Prop :=
  tree.bare = tree'.bare

namespace Grammar

theorem map_eq_of_forall₂ {α β : Type} {forget : α → β} {values values' : List α}
    (alike : List.Forall₂ (fun value value' => forget value = forget value') values values') :
    values.map forget = values'.map forget := by
  induction alike with
  | nil => rfl
  | cons first others ih => rw [List.map_cons, List.map_cons, first, ih]

theorem map_eq_of_rel {α β : Type} {forget : α → β} {value value' : Option α}
    (alike : Option.Rel (fun value value' => forget value = forget value') value value') :
    value.map forget = value'.map forget := by
  cases alike with
  | none => rfl
  | some same => exact congrArg some same

theorem alike_name : name.Alike Eq name :=
  (alike_select _ _).labelled "identifier"

theorem alike_dottedName : dottedName.Alike Eq dottedName := by
  have names := alike_name.separated1 (alike_token Token.dot)
  rwa [List.forall₂_eq_eq_eq] at names

theorem alike_semicolon : semicolon.Alike Eq semicolon := by
  refine (alike_token Token.semicolon).optional.spanned.bind ?_
  rintro ⟨found, span⟩ ⟨found', span'⟩ same
  cases same with
  | none => exact alike_report span span' .missingSemicolon
  | some same => exact alike_pure rfl

theorem alike_typeArgs {type type' : Parser Token TypeRef} (inner : type.Alike TypeRef.Alike type') :
    (typeArgs type).Alike (List.Forall₂ TypeRef.Alike) (typeArgs type') :=
  (alike_token _).between (alike_token _) (inner.separated1 (alike_token _))

/-- What is read in place of nothing is alike too. -/
theorem alike_getD {α : Type} {related : α → α → Prop} {value value' : Option α} {default : α}
    (alike : Option.Rel related value value') (itself : related default default) :
    related (value.getD default) (value'.getD default) := by
  cases alike with
  | none => exact itself
  | some alike => exact alike

theorem alike_type : type.Alike TypeRef.Alike type := by
  refine alike_recursive fun inner inner' alike => .labelled "type" ?_
  have inside := alike_dottedName.bind fun path path' paths =>
    (alike_typeArgs alike).optional.bind fun args args' types =>
      alike_pure (InBoth.mk paths (alike_getD types .nil))
  refine inside.spanned.bind ?_
  rintro ⟨⟨path, args⟩, span⟩ ⟨⟨path', args'⟩, span'⟩ ⟨rfl, types⟩
  refine alike_pure ?_
  simp only [TypeRef.Alike, TypeRef.bare, TypeRef.bareAll_eq]
  rw [map_eq_of_forall₂ types]

section
variable {expr expr' : Parser Token Expr}

theorem alike_literal : literal.Alike Expr.Alike literal := by
  refine ((alike_select literalOf? _).spanned.bind ?_).labelled "literal"
  rintro ⟨value, span⟩ ⟨_, span'⟩ rfl
  exact alike_pure rfl

theorem alike_arguments (inner : expr.Alike Expr.Alike expr') :
    (arguments expr).Alike (List.Forall₂ Expr.Alike) (arguments expr') :=
  ((alike_token _).between (alike_token _) (inner.separated (alike_token _))).labelled "arguments"

theorem alike_lambda (inner : expr.Alike Expr.Alike expr') :
    (lambda expr).Alike Expr.Alike (lambda expr') := by
  have inside := alike_name.bind fun param param' params => (alike_token Token.arrow).bind
    fun _ _ _ => inner.bind fun body body' bodies =>
      alike_pure (InBoth.mk params bodies)
  refine (inside.spanned.bind ?_).labelled "lambda"
  rintro ⟨⟨param, body⟩, span⟩ ⟨⟨_, body'⟩, span'⟩ ⟨rfl, bodies⟩
  exact alike_pure (congrArg (Expr.lambda ⟨0, 0⟩ param) bodies)

theorem alike_newObject (inner : expr.Alike Expr.Alike expr') :
    (newObject expr).Alike Expr.Alike (newObject expr') := by
  have inside := (alike_token (Token.keyword .newWord)).bind fun _ _ _ => alike_type.bind
    fun type type' types => (alike_arguments inner).bind fun args args' allArgs =>
      alike_pure (InBoth.mk types allArgs)
  refine inside.spanned.bind ?_
  rintro ⟨⟨type, args⟩, span⟩ ⟨⟨type', args'⟩, span'⟩ ⟨types, allArgs⟩
  refine alike_pure ?_
  simp only [Expr.Alike, Expr.bare, Expr.bareAll_eq]
  rw [map_eq_of_forall₂ allArgs, show type.bare = type'.bare from types]

theorem alike_ident : ident.Alike Expr.Alike ident := by
  refine alike_name.spanned.bind ?_
  rintro ⟨name, span⟩ ⟨_, span'⟩ rfl
  exact alike_pure rfl

theorem alike_paren (inner : expr.Alike Expr.Alike expr') :
    (paren expr).Alike Expr.Alike (paren expr') := by
  refine .recoverWith ((alike_skipGroup _ _ _).bind fun span span' _ => alike_pure rfl) ?_
  refine ((alike_token _).between (alike_token _) inner).spanned.bind ?_
  rintro ⟨found, span⟩ ⟨found', span'⟩ same
  exact alike_pure (congrArg (Expr.paren ⟨0, 0⟩) same)

theorem alike_atom (inner : expr.Alike Expr.Alike expr') :
    (atom expr).Alike Expr.Alike (atom expr') :=
  alike_literal.orElse ((alike_lambda inner).orElse ((alike_newObject inner).orElse
    (alike_ident.orElse (alike_paren inner))))

/-- The suffixes make alike expressions of alike targets. -/
def Suffix.Alike (suffix suffix' : Suffix) : Prop :=
  ∀ target target' span span', Expr.Alike target target' →
    Expr.Alike (attach target (suffix, span)) (attach target' (suffix', span'))

theorem alike_memberTypeArgs :
    memberTypeArgs.Alike (List.Forall₂ TypeRef.Alike) memberTypeArgs :=
  (alike_typeArgs alike_type).bind fun _ _ types => (alike_token _).ahead.bind
    fun _ _ _ => alike_pure types

theorem alike_memberSuffix : memberSuffix.Alike Suffix.Alike memberSuffix := by
  refine (alike_token _).bind fun _ _ _ => alike_name.bind fun name name' names =>
    alike_memberTypeArgs.optional.bind fun args args' types => alike_pure ?_
  subst names
  intro target target' span span' targets
  simp only [Expr.Alike, Suffix.attach, Expr.bare]
  rw [map_eq_of_forall₂ (alike_getD types .nil), show target.bare = target'.bare from targets]

theorem alike_callSuffix (inner : expr.Alike Expr.Alike expr') :
    (callSuffix expr).Alike Suffix.Alike (callSuffix expr') := by
  refine (alike_arguments inner).bind fun args args' allArgs => alike_pure ?_
  intro target target' span span' targets
  simp only [Expr.Alike, Suffix.attach, Expr.bare, Expr.bareAll_eq]
  rw [map_eq_of_forall₂ allArgs, show target.bare = target'.bare from targets]

theorem alike_indexSuffix (inner : expr.Alike Expr.Alike expr') :
    (indexSuffix expr).Alike Suffix.Alike (indexSuffix expr') := by
  refine ((alike_token _).between (alike_token _) inner).bind fun position position' positions =>
    alike_pure ?_
  intro target target' span span' targets
  exact congrArg₂ (Expr.index ⟨0, 0⟩) targets positions

theorem alike_postfixed (inner : expr.Alike Expr.Alike expr') :
    (postfixed expr).Alike Expr.Alike (postfixed expr') := by
  have suffix := alike_memberSuffix.spanned.orElse ((alike_callSuffix inner).spanned.orElse
    (alike_indexSuffix inner).spanned)
  refine (alike_atom inner).bind fun target target' targets => suffix.many.bind
    fun suffixes suffixes' allSuffixes => alike_pure ?_
  exact List.rel_foldl (fun _ _ targets _ _ same => same _ _ _ _ targets) targets allSuffixes

theorem alike_unary (inner : expr.Alike Expr.Alike expr') :
    (unary expr).Alike Expr.Alike (unary expr') := by
  have sign : (spanned unarySign).Alike (BesideSpan Eq) (spanned unarySign) :=
    (alike_select _ _).spanned
  refine sign.many.bind fun signs signs' allSigns => (alike_postfixed inner).bind
    fun operand operand' operands => alike_pure ?_
  refine List.rel_foldr ?_ operands allSigns
  rintro ⟨op, span⟩ ⟨_, span'⟩ rfl operand operand' operands
  exact congrArg (Expr.unary ⟨0, 0⟩ op) operands

theorem alike_binarySign (level : BinaryLevel) (expected : Expected Token) :
    (binarySign level expected).Alike Eq (binarySign level expected) :=
  alike_select _ _

theorem alike_leftAssociative {operand operand' : Parser Token Expr}
    (runs : operand.Alike Expr.Alike operand') (level : BinaryLevel) (expected : Expected Token) :
    (leftAssociative operand (binarySign level expected)).Alike Expr.Alike
      (leftAssociative operand' (binarySign level expected)) := by
  have step := (alike_binarySign level expected).bind fun op op' ops => runs.bind
    fun rhs rhs' operands => alike_pure (InBoth.mk ops operands)
  refine runs.bind fun first first' firsts => step.many.bind fun others others' allOthers =>
    alike_pure ?_
  refine List.rel_foldl ?_ firsts allOthers
  rintro lhs lhs' left ⟨op, rhs⟩ ⟨_, rhs'⟩ ⟨rfl, right⟩
  exact congrArg₂ (Expr.binary ⟨0, 0⟩ op) left right

theorem alike_disjunction (inner : expr.Alike Expr.Alike expr') :
    (disjunction expr).Alike Expr.Alike (disjunction expr') := by
  have product := alike_leftAssociative (alike_unary inner) .multiplicative .somethingElse
  have sum := alike_leftAssociative product .additive .somethingElse
  have comparison := alike_leftAssociative sum .relational .somethingElse
  have equality := alike_leftAssociative comparison .equality .somethingElse
  have conjunction := alike_leftAssociative equality .and (.token (.sign .and))
  exact alike_leftAssociative conjunction .or (.token (.sign .or))

theorem alike_assigned (inner : expr.Alike Expr.Alike expr') :
    (assigned expr).Alike Expr.Alike (assigned expr') :=
  (alike_token _).bind fun _ _ _ => inner

theorem alike_exprRule (inner : expr.Alike Expr.Alike expr') :
    (exprRule expr).Alike Expr.Alike (exprRule expr') := by
  refine .labelled "expression" ((alike_disjunction inner).bind fun lhs lhs' left =>
    (alike_assigned inner).optional.bind ?_)
  intro rhs rhs' same
  cases same with
  | none => exact alike_pure left
  | some right => exact alike_pure (congrArg₂ (Expr.assign ⟨0, 0⟩) left right)

theorem alike_expr : Grammar.expr.Alike Expr.Alike Grammar.expr :=
  alike_recursive fun _ _ => alike_exprRule

end

theorem alike_declarator : declarator.Alike Declarator.Alike declarator := by
  have inside := alike_name.bind fun name name' names => (alike_assigned alike_expr).optional.bind
    fun init init' inits => alike_pure (InBoth.mk names inits)
  refine inside.spanned.bind ?_
  rintro ⟨⟨name, init⟩, span⟩ ⟨⟨_, init'⟩, span'⟩ ⟨rfl, inits⟩
  refine alike_pure ?_
  simp only [Declarator.Alike, Declarator.bare]
  rw [map_eq_of_rel inits]

theorem alike_localDecl : localDecl.Alike LocalDecl.Alike localDecl := by
  refine .labelled "declaration" (alike_type.bind fun type type' types =>
    (alike_declarator.separated1 (alike_token _)).bind fun declarators declarators' all =>
      alike_pure ?_)
  exact congrArg₂ LocalDecl.mk types (map_eq_of_forall₂ all)

section
variable {stmt stmt' : Parser Token Stmt}

theorem alike_braced (inner : stmt.Alike Stmt.Alike stmt') :
    (braced stmt).Alike (BesideSpan (List.Forall₂ Stmt.Alike)) (braced stmt') :=
  ((alike_token _).between (alike_token _) inner.many).spanned

theorem alike_block (inner : stmt.Alike Stmt.Alike stmt') :
    (block stmt).Alike Stmt.Alike (block stmt') := by
  refine .recoverWith ((alike_skipGroup _ _ _).bind fun span span' _ => alike_pure rfl) ?_
  refine (alike_braced inner).bind ?_
  rintro ⟨stmts, span⟩ ⟨stmts', span'⟩ all
  refine alike_pure ?_
  simp only [Stmt.Alike, Stmt.bare, Stmt.bareAll_eq]
  rw [map_eq_of_forall₂ all]

theorem alike_condition : condition.Alike Expr.Alike condition :=
  (alike_token _).between (alike_token _) alike_expr

theorem alike_loopHeader : loopHeader.Alike
    (InBoth TypeRef.Alike (InBoth (BesideSpan Eq) Expr.Alike)) loopHeader :=
  alike_type.bind fun _ _ types => alike_name.spanned.bind fun _ _ vars =>
    (alike_token _).bind fun _ _ _ => alike_expr.bind fun _ _ seqs =>
      alike_pure (InBoth.mk types (InBoth.mk vars seqs))

theorem alike_foreachLoop (inner : stmt.Alike Stmt.Alike stmt') :
    (foreachLoop stmt).Alike Stmt.Alike (foreachLoop stmt') := by
  have inside := (alike_token (Token.keyword .foreachWord)).bind fun _ _ _ =>
    ((alike_token Token.parenOpen).between (alike_token .parenClose) alike_loopHeader).bind
      fun header header' headers => inner.bind fun body body' bodies =>
        alike_pure (InBoth.mk headers bodies)
  refine (inside.spanned.bind ?_).labelled "foreach"
  rintro ⟨⟨⟨type, ⟨var, varSpan⟩, seq⟩, body⟩, span⟩ ⟨⟨⟨type', ⟨_, varSpan'⟩, seq'⟩, body'⟩, span'⟩
    ⟨⟨types, rfl, seqs⟩, bodies⟩
  refine alike_pure ?_
  simp only [Stmt.Alike, Stmt.bare]
  rw [show type.bare = type'.bare from types, show seq.bare = seq'.bare from seqs,
    show body.bare = body'.bare from bodies]

theorem alike_elseBranch (inner : stmt.Alike Stmt.Alike stmt') :
    (elseBranch stmt).Alike Stmt.Alike (elseBranch stmt') :=
  (alike_token _).bind fun _ _ _ => inner

theorem alike_conditional (inner : stmt.Alike Stmt.Alike stmt') :
    (conditional stmt).Alike Stmt.Alike (conditional stmt') := by
  have inside := (alike_token (Token.keyword .ifWord)).bind fun _ _ _ => alike_condition.bind
    fun cond cond' conds => inner.bind fun body body' bodies =>
      (alike_elseBranch inner).optional.bind fun otherwise otherwise' others =>
        alike_pure (InBoth.mk conds (InBoth.mk bodies others))
  refine (inside.spanned.bind ?_).labelled "if"
  rintro ⟨⟨cond, body, otherwise⟩, span⟩ ⟨⟨cond', body', otherwise'⟩, span'⟩ ⟨conds, bodies, others⟩
  cases others with
  | none => exact alike_pure (congrArg₂ (Stmt.ifThen ⟨0, 0⟩) conds bodies)
  | @some otherwise otherwise' others =>
      refine alike_pure ?_
      simp only [Stmt.Alike, Stmt.bare]
      rw [show cond.bare = cond'.bare from conds, show body.bare = body'.bare from bodies,
        show otherwise.bare = otherwise'.bare from others]

theorem alike_whileLoop (inner : stmt.Alike Stmt.Alike stmt') :
    (whileLoop stmt).Alike Stmt.Alike (whileLoop stmt') := by
  have inside := (alike_token (Token.keyword .whileWord)).bind fun _ _ _ => alike_condition.bind
    fun cond cond' conds => inner.bind fun body body' bodies =>
      alike_pure (InBoth.mk conds bodies)
  refine inside.spanned.bind ?_
  rintro ⟨⟨cond, body⟩, span⟩ ⟨⟨cond', body'⟩, span'⟩ ⟨conds, bodies⟩
  exact alike_pure (congrArg₂ (Stmt.whileLoop ⟨0, 0⟩) conds bodies)

theorem alike_wordStmt (word : Keyword) (make : Span → Stmt)
    (spanless : ∀ span span', (make span).Alike (make span')) :
    (wordStmt word make).Alike Stmt.Alike (wordStmt word make) :=
  ((alike_token _).bind fun _ _ _ => alike_semicolon).spanned.bind
    fun _ _ _ => alike_pure (spanless _ _)

theorem alike_returnStmt : returnStmt.Alike Stmt.Alike returnStmt := by
  have inside := (alike_token (Token.keyword .returnWord)).bind fun _ _ _ =>
    alike_expr.optional.bind fun value value' values => alike_semicolon.bind fun _ _ _ =>
      alike_pure values
  refine inside.spanned.bind ?_
  rintro ⟨value, span⟩ ⟨value', span'⟩ values
  exact alike_pure (congrArg (Stmt.returnValue ⟨0, 0⟩) (map_eq_of_rel values))

theorem alike_emptyStmt : emptyStmt.Alike Stmt.Alike emptyStmt :=
  (alike_token _).spanned.bind fun _ _ _ => alike_pure rfl

theorem alike_declStmt : declStmt.Alike Stmt.Alike declStmt := by
  have inside := alike_localDecl.bind fun _ _ decls => alike_semicolon.bind fun _ _ _ =>
    alike_pure decls
  refine inside.spanned.bind ?_
  rintro ⟨decl, span⟩ ⟨decl', span'⟩ decls
  exact alike_pure (congrArg (Stmt.decl ⟨0, 0⟩) decls)

theorem alike_exprStmt : exprStmt.Alike Stmt.Alike exprStmt := by
  have inside := alike_expr.bind fun _ _ values => alike_semicolon.bind fun _ _ _ =>
    alike_pure values
  refine inside.spanned.bind ?_
  rintro ⟨value, span⟩ ⟨value', span'⟩ values
  exact alike_pure (congrArg (Stmt.expr ⟨0, 0⟩) values)

theorem alike_unreadable : unreadable.Alike Stmt.Alike unreadable := by
  have inside := (alike_noneOf [Token.semicolon, .braceOpen, .braceClose]).many1.bind
    fun _ _ _ => (alike_token Token.semicolon).optional
  refine inside.spanned.bind fun _ _ _ => ?_
  exact (alike_report _ _ .unrecognizedStatement).bind fun _ _ _ => alike_pure rfl

theorem alike_stmtRule (inner : stmt.Alike Stmt.Alike stmt') :
    (stmtRule stmt).Alike Stmt.Alike (stmtRule stmt') := by
  refine .labelled "statement" ?_
  refine (alike_block inner).orElse ((alike_foreachLoop inner).orElse ?_)
  refine (alike_conditional inner).orElse ((alike_whileLoop inner).orElse ?_)
  refine (alike_wordStmt .continueWord .continueLoop fun _ _ => rfl).orElse ?_
  refine (alike_wordStmt .breakWord .breakLoop fun _ _ => rfl).orElse ?_
  refine alike_returnStmt.orElse (alike_emptyStmt.orElse ?_)
  exact alike_declStmt.orElse (alike_exprStmt.orElse alike_unreadable)

theorem alike_stmt : Grammar.stmt.Alike Stmt.Alike Grammar.stmt :=
  alike_recursive fun _ _ => alike_stmtRule

end

/-- The items are alike, whatever their spans will be. -/
def MakesAlike (make make' : Span → Item) : Prop :=
  ∀ span span', (make span).Alike (make' span')

section
variable {item item' : Parser Token Item}

theorem alike_members (inner : item.Alike Item.Alike item') :
    (members item).Alike (List.Forall₂ Item.Alike) (members item') :=
  .recoverWith ((alike_skipGroup _ _ _).bind fun _ _ _ => alike_pure .nil)
    ((alike_token _).between (alike_token _) inner.many)

theorem alike_modifier : modifier.Alike Eq modifier :=
  alike_select _ _

theorem alike_modifiers : (many modifier).Alike Eq (many modifier) := by
  have words := alike_modifier.many
  rwa [List.forall₂_eq_eq_eq] at words

theorem alike_usingItem : usingItem.Alike MakesAlike usingItem := by
  refine (alike_token _).bind fun _ _ _ => alike_dottedName.bind fun path path' paths =>
    alike_semicolon.bind fun _ _ _ => alike_pure ?_
  subst paths
  exact fun span span' => rfl

theorem alike_namespaceItem (inner : item.Alike Item.Alike item') :
    (namespaceItem item).Alike MakesAlike (namespaceItem item') := by
  refine (alike_token _).bind fun _ _ _ => alike_dottedName.bind fun path path' paths =>
    (alike_members inner).bind fun items items' all => alike_pure ?_
  subst paths
  intro span span'
  simp only [Item.Alike, Item.bare, Item.bareAll_eq]
  rw [map_eq_of_forall₂ all]

theorem alike_classItem (inner : item.Alike Item.Alike item') :
    (classItem item).Alike MakesAlike (classItem item') := by
  refine alike_modifiers.bind fun modifiers modifiers' words => (alike_token _).bind fun _ _ _ =>
    alike_name.bind fun name name' names => (alike_members inner).bind fun items items' all =>
      alike_pure ?_
  subst words names
  intro span span'
  simp only [Item.Alike, Item.bare, Item.bareAll_eq]
  rw [map_eq_of_forall₂ all]

theorem alike_param : param.Alike Param.Alike param :=
  alike_type.bind fun _ _ types => alike_name.bind fun _ _ names =>
    alike_pure (congrArg₂ Param.mk types names)

theorem alike_methodBody : methodBody.Alike
    (fun body body' => List.Forall₂ Stmt.Alike body.stmts body'.stmts) methodBody := by
  refine .recoverWith ((alike_skipGroup _ _ _).bind fun _ _ _ => alike_pure .nil) ?_
  exact (alike_braced alike_stmt).bind fun _ _ all => alike_pure all

theorem alike_methodItem : methodItem.Alike MakesAlike methodItem := by
  have parameters := (alike_token Token.parenOpen).between (alike_token .parenClose)
    (alike_param.separated (alike_token Token.comma))
  refine .labelled "method" (alike_modifiers.bind fun modifiers modifiers' words =>
    alike_type.bind fun result result' results => alike_name.bind fun name name' names =>
      parameters.bind fun params params' allParams => alike_methodBody.bind
        fun body body' bodies => alike_pure ?_)
  subst words names
  intro span span'
  simp only [Item.Alike, Item.bare, Stmt.bareAll_eq]
  rw [show result.bare = result'.bare from results, map_eq_of_forall₂ allParams,
    map_eq_of_forall₂ bodies]

theorem alike_fieldItem : fieldItem.Alike MakesAlike fieldItem := by
  have words := alike_modifier.many1
  rw [List.forall₂_eq_eq_eq] at words
  refine words.bind fun modifiers modifiers' same => alike_localDecl.bind
    fun decl decl' decls => alike_semicolon.bind fun _ _ _ => alike_pure ?_
  subst same
  exact fun span span' => congrArg (Item.field ⟨0, 0⟩ modifiers) decls

theorem alike_stmtItem : stmtItem.Alike MakesAlike stmtItem :=
  alike_stmt.bind fun _ _ stmts => alike_pure fun _ _ => congrArg (Item.statement ⟨0, 0⟩) stmts

theorem alike_itemRule (inner : item.Alike Item.Alike item') :
    (itemRule item).Alike Item.Alike (itemRule item') := by
  have kinds := alike_usingItem.orElse ((alike_namespaceItem inner).orElse
    ((alike_classItem inner).orElse (alike_methodItem.orElse
      (alike_fieldItem.orElse alike_stmtItem))))
  refine kinds.spanned.bind ?_
  rintro ⟨make, span⟩ ⟨make', span'⟩ makes
  exact alike_pure (makes span span')

theorem alike_item : Grammar.item.Alike Item.Alike Grammar.item :=
  alike_recursive fun _ _ => alike_itemRule

end

theorem alike_sourceTree : sourceTree.Alike SourceTree.Alike sourceTree := by
  refine alike_item.skipAndRetry.many.bind fun items items' all => alike_pure ?_
  simp only [SourceTree.Alike, SourceTree.bare, Item.bareAll_eq]
  rw [map_eq_of_forall₂ all]

end Grammar

theorem Problem.message_eq_of_allAlike {errors errors' : List (SyntaxError Token)}
    (causes : SyntaxError.AllAlike errors errors') :
    errors.map (message ∘ grammatical) = errors'.map (message ∘ grammatical) := by
  have messages := congrArg (List.map (Cause.message Token.text)) causes
  rwa [List.map_map, List.map_map] at messages

namespace SourceTree

theorem parse_of_lex {source : String} {lexemes : List (Lexeme Token)}
    (read : Token.lex source = (some lexemes, [])) :
    parse source =
      let (tree, errors) := Grammar.sourceTree.run (Token.withoutComments lexemes)
        (Text.byteLength source.toList)
      (tree.getD ⟨[]⟩, errors.map .grammatical) := by
  rw [parse, read]
  rfl

/-- Texts that lex without errors to the same tokens, comments aside, are read as the
same tree up to spans, with as many errors and the same messages.  The texts need not
follow the grammar. -/
theorem parse_layout {source source' : String} {lexemes lexemes' : List (Lexeme Token)}
    (read : Token.lex source = (some lexemes, [])) (read' : Token.lex source' = (some lexemes', []))
    (same : Grammar.tokensOf (Token.withoutComments lexemes) =
      Grammar.tokensOf (Token.withoutComments lexemes')) :
    (parse source).1.bare = (parse source').1.bare ∧
      (parse source).2.length = (parse source').2.length ∧
      (parse source).2.map Problem.message = (parse source').2.map Problem.message := by
  obtain ⟨trees, causes⟩ := Grammar.alike_sourceTree.run same (Text.byteLength source.toList)
    (Text.byteLength source'.toList)
  have messages := Problem.message_eq_of_allAlike causes
  rw [parse_of_lex read, parse_of_lex read']
  refine ⟨?_, ?_, ?_⟩
  · exact Grammar.alike_getD trees rfl
  · simpa using congrArg List.length messages
  · simpa using messages

/-- An assignment without a value and a call without a semicolon, once on one line and
once on two lines with a comment inside. -/
theorem parse_layout_missing_token :
    let source := "a = ; F(x) // c"
    let source' := "a=/* c */;\nF( x )"
    ∃ lexemes lexemes', Token.lex source = (some lexemes, []) ∧
      Token.lex source' = (some lexemes', []) ∧
      Grammar.tokensOf (Token.withoutComments lexemes) =
        Grammar.tokensOf (Token.withoutComments lexemes') ∧
      (parse source).1.bare = (parse source').1.bare ∧
      (parse source).2.length = (parse source').2.length ∧
      (parse source).2.map Problem.message = (parse source').2.map Problem.message := by
  have read : Token.lex "a = ; F(x) // c" = (some [⟨.ident "a", ⟨0, 1⟩⟩, ⟨.assign, ⟨2, 3⟩⟩,
      ⟨.semicolon, ⟨4, 5⟩⟩, ⟨.ident "F", ⟨6, 7⟩⟩, ⟨.parenOpen, ⟨7, 8⟩⟩, ⟨.ident "x", ⟨8, 9⟩⟩,
      ⟨.parenClose, ⟨9, 10⟩⟩, ⟨.lineComment " c", ⟨11, 15⟩⟩], []) :=
    Prod.ext (by decide +kernel) (List.isEmpty_iff.mp (by decide +kernel))
  have read' : Token.lex "a=/* c */;\nF( x )" = (some [⟨.ident "a", ⟨0, 1⟩⟩, ⟨.assign, ⟨1, 2⟩⟩,
      ⟨.blockComment " c ", ⟨2, 9⟩⟩, ⟨.semicolon, ⟨9, 10⟩⟩, ⟨.ident "F", ⟨11, 12⟩⟩,
      ⟨.parenOpen, ⟨12, 13⟩⟩, ⟨.ident "x", ⟨14, 15⟩⟩, ⟨.parenClose, ⟨16, 17⟩⟩], []) :=
    Prod.ext (by decide +kernel) (List.isEmpty_iff.mp (by decide +kernel))
  exact ⟨_, _, read, read', rfl, parse_layout read read' rfl⟩

end SourceTree

end QueryLoop
