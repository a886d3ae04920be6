import QueryLoop.Proofs.Reading.Builds
import QueryLoop.Proofs.Spelling.Fitted
import QueryLoop.Proofs.Spelling.Lossless

namespace QueryLoop

open Parsing Parser

/-- The type has a name, and so has each of its arguments, and all of them are words. -/
structure TypeRef.Legible (type : TypeRef) : Prop where
  named : type.Named
  proper : ∀ token ∈ type.tokens, token.Proper

/-- The words of the expression are tokens. -/
inductive Expr.Legible : Expr → Prop
  | literal {span : Span} {value : Literal} (proper : value.token.Proper) :
      Legible (.literal span value)
  | ident {span : Span} {name : String} (isName : (Token.ident name).Proper) :
      Legible (.ident span name)
  | member {span : Span} {target : Expr} {name : String} {typeArgs : List TypeRef}
      (inTarget : target.Legible) (isName : (Token.ident name).Proper)
      (inTypes : ∀ type ∈ typeArgs, type.Legible) : Legible (.member span target name typeArgs)
  | call {span : Span} {callee : Expr} {args : List Expr} (inCallee : callee.Legible)
      (inArgs : ∀ arg ∈ args, arg.Legible) : Legible (.call span callee args)
  | index {span : Span} {target position : Expr} (inTarget : target.Legible)
      (inPosition : position.Legible) : Legible (.index span target position)
  | new {span : Span} {type : TypeRef} {args : List Expr} (inType : type.Legible)
      (inArgs : ∀ arg ∈ args, arg.Legible) : Legible (.new span type args)
  | unary {span : Span} {op : UnaryOp} {operand : Expr} (inOperand : operand.Legible) :
      Legible (.unary span op operand)
  | binary {span : Span} {op : BinaryOp} {lhs rhs : Expr} (inLhs : lhs.Legible)
      (inRhs : rhs.Legible) : Legible (.binary span op lhs rhs)
  | assign {span : Span} {lhs rhs : Expr} (inLhs : lhs.Legible) (inRhs : rhs.Legible) :
      Legible (.assign span lhs rhs)
  | lambda {span : Span} {param : String} {body : Expr} (isName : (Token.ident param).Proper)
      (inBody : body.Legible) : Legible (.lambda span param body)
  | paren {span : Span} {inner : Expr} (inInner : inner.Legible) : Legible (.paren span inner)
  | error {span : Span} : Legible (.error span)

theorem Expr.Legible.parts {expr : Expr} (legible : expr.Legible) :
    ∀ part ∈ expr.parts, part.Legible := by
  cases legible with
  | call inCallee inArgs => exact List.forall_mem_cons.mpr ⟨inCallee, inArgs⟩
  | new inType inArgs => exact inArgs
  | index inTarget inPosition => simpa [Expr.parts] using ⟨inTarget, inPosition⟩
  | binary inLhs inRhs | assign inLhs inRhs => simpa [Expr.parts] using ⟨inLhs, inRhs⟩
  | member inPart | unary inPart | lambda _ inPart | paren inPart =>
      exact List.forall_mem_singleton.mpr inPart
  | literal | ident | error => exact List.forall_mem_nil _

structure Declarator.Legible (declarator : Declarator) : Prop where
  isName : (Token.ident declarator.name).Proper
  inInit : ∀ init ∈ declarator.init, init.Legible

structure LocalDecl.Legible (decl : LocalDecl) : Prop where
  inType : decl.type.Legible
  nonempty : decl.declarators ≠ []
  each : ∀ declarator ∈ decl.declarators, declarator.Legible

theorem LocalDecl.Legible.exists_declarators {decl : LocalDecl} (legible : decl.Legible) :
    ∃ type first others, decl = ⟨type, first :: others⟩ := by
  obtain ⟨first, others, shape⟩ := List.exists_cons_of_ne_nil legible.nonempty
  exact ⟨decl.type, first, others, by rw [← shape]⟩

/-- The words of the statement are tokens, and it declares nothing without a name. -/
inductive Stmt.Legible : Stmt → Prop
  | block {span : Span} {stmts : List Stmt} (inStmts : ∀ stmt ∈ stmts, stmt.Legible) :
      Legible (.block span stmts)
  | decl {span : Span} {declared : LocalDecl} (inDecl : declared.Legible) :
      Legible (.decl span declared)
  | expr {span : Span} {value : Expr} (inValue : value.Legible) : Legible (.expr span value)
  | ifThen {span : Span} {cond : Expr} {body : Stmt} (inCond : cond.Legible)
      (inBody : body.Legible) : Legible (.ifThen span cond body)
  | ifElse {span : Span} {cond : Expr} {body otherwise : Stmt} (inCond : cond.Legible)
      (inBody : body.Legible) (inOtherwise : otherwise.Legible) :
      Legible (.ifElse span cond body otherwise)
  | foreach {span varSpan : Span} {type : TypeRef} {var : String} {seq : Expr} {body : Stmt}
      (inType : type.Legible) (isName : (Token.ident var).Proper) (inSeq : seq.Legible)
      (inBody : body.Legible) : Legible (.foreach span type var varSpan seq body)
  | whileLoop {span : Span} {cond : Expr} {body : Stmt} (inCond : cond.Legible)
      (inBody : body.Legible) : Legible (.whileLoop span cond body)
  | continueLoop {span : Span} : Legible (.continueLoop span)
  | breakLoop {span : Span} : Legible (.breakLoop span)
  | returnValue {span : Span} {value : Option Expr} (inValue : ∀ expr ∈ value, expr.Legible) :
      Legible (.returnValue span value)
  | empty {span : Span} : Legible (.empty span)
  | error {span : Span} : Legible (.error span)

namespace Stmt

variable {stmt : Stmt}

theorem Legible.children (legible : stmt.Legible) : ∀ child ∈ stmt.children, child.Legible := by
  cases legible with
  | block inStmts => exact inStmts
  | ifElse inCond inBody inOtherwise => simpa [Stmt.children] using ⟨inBody, inOtherwise⟩
  | ifThen inCond inBody => simpa [Stmt.children] using inBody
  | foreach inType isName inSeq inBody => simpa [Stmt.children] using inBody
  | whileLoop inCond inBody => simpa [Stmt.children] using inBody
  | _ => simp [Stmt.children]

theorem Legible.statements (legible : stmt.Legible) :
    ∀ inner ∈ stmt.statements, inner.Legible := by
  induction stmt using children_induction with
  | step stmt ih =>
      rw [statements_eq, List.forall_mem_cons, List.forall_mem_flatMap]
      exact ⟨legible, fun child isChild => ih child isChild (legible.children child isChild)⟩

end Stmt

theorem Stmt.Legible.isEmptyDecl_eq_false {stmt : Stmt} (legible : stmt.Legible) :
    stmt.isEmptyDecl = false := by
  cases legible with
  | decl inDecl =>
      obtain ⟨type, first, others, rfl⟩ := inDecl.exists_declarators
      rfl
  | _ => rfl

namespace Item

/-- A field that declares nothing. -/
def isEmptyField : Item → Bool
  | field _ _ ⟨_, []⟩ => true
  | _ => false

/-- Every field inside declares something. -/
inductive Declares : Item → Prop
  | intro {item : Item} (own : item.isEmptyField = false)
      (subitems : ∀ child ∈ item.subitems, child.Declares) : item.Declares

/-- The words of all statements in the item are tokens, and all fields declare something. -/
structure Legible (item : Item) : Prop where
  statements : ∀ stmt ∈ item.statements, stmt.Legible
  fields : item.Declares

theorem Legible.of_parts {item : Item} (own : item.isEmptyField = false)
    (subitems : ∀ child ∈ item.subitems, child.Legible) (stmts : ∀ stmt ∈ item.stmts, stmt.Legible) :
    item.Legible := by
  refine ⟨?_, .intro own fun child isChild => (subitems child isChild).fields⟩
  rw [statements_eq, List.forall_mem_append, List.forall_mem_flatMap, List.forall_mem_flatMap]
  exact ⟨fun child isChild => (subitems child isChild).statements,
    fun stmt isStmt => (stmts stmt isStmt).statements⟩

end Item

namespace Grammar

theorem builds_name : name.Builds Token.Proper fun found => (Token.ident found).Proper := by
  refine ensures_name.builds ?_
  rintro used rest found errors ⟨lexeme, rfl, spelled, -⟩ allProper
  exact spelled ▸ allProper lexeme List.mem_cons_self

theorem builds_type : type.Builds Token.Proper TypeRef.Legible := by
  refine ensures_type.builds ?_
  rintro used rest found errors ⟨spelled, named, -⟩ allProper
  refine ⟨named, fun token listed => ?_⟩
  rw [← spelled] at listed
  obtain ⟨lexeme, isUsed, rfl⟩ := List.mem_map.mp listed
  exact allProper lexeme isUsed

theorem builds_typeArgs :
    (typeArgs type).Builds Token.Proper fun types => ∀ type ∈ types, type.Legible :=
  .between (.token _) (.token _) ((builds_type.separated1 (.token _)).mono fun _ held => held.2)

def Suffix.Legible : Suffix → Prop
  | .member name typeArgs => (Token.ident name).Proper ∧ ∀ type ∈ typeArgs, type.Legible
  | .call args => ∀ arg ∈ args, arg.Legible
  | .index position => position.Legible

theorem legible_attach {target : Expr} (inTarget : target.Legible) {suffix : Suffix × Span}
    (inSuffix : suffix.1.Legible) : (Suffix.attach target suffix).Legible := by
  obtain ⟨form, span⟩ := suffix
  cases form with
  | member name typeArgs => exact .member inTarget inSuffix.1 inSuffix.2
  | call args => exact .call inTarget inSuffix
  | index position => exact .index inTarget inSuffix

variable {expr : Parser Token Expr}

theorem builds_literal : literal.Builds Token.Proper Expr.Legible :=
  .labelled _ (.bind (.spanned (.select fun _ _ proper chosen =>
    eq_token_of_literalOf? chosen ▸ proper)) fun _ proper => .pure (.literal proper))

theorem builds_arguments (builds : expr.Builds Token.Proper Expr.Legible) :
    (arguments expr).Builds Token.Proper fun args => ∀ arg ∈ args, arg.Legible :=
  .labelled _ (.between (.token _) (.token _) (.separated builds (.token _)))

theorem builds_lambda (builds : expr.Builds Token.Proper Expr.Legible) :
    (lambda expr).Builds Token.Proper Expr.Legible := by
  refine .labelled _ (.bind (.spanned (.bind builds_name fun param isName =>
    .bind (.token _) fun _ _ => .bind builds fun body inBody =>
      .pure_pair isName inBody)) ?_)
  rintro ⟨⟨param, body⟩, span⟩ ⟨isName, inBody⟩
  exact .pure (.lambda isName inBody)

theorem builds_newObject (builds : expr.Builds Token.Proper Expr.Legible) :
    (newObject expr).Builds Token.Proper Expr.Legible := by
  refine .bind (.spanned (.bind (.token _) fun _ _ => .bind builds_type fun type inType =>
    .bind (builds_arguments builds) fun args inArgs =>
      .pure_pair inType inArgs)) ?_
  rintro ⟨⟨type, args⟩, span⟩ ⟨inType, inArgs⟩
  exact .pure (.new inType inArgs)

theorem builds_ident : ident.Builds Token.Proper Expr.Legible :=
  .bind (.spanned builds_name) fun _ isName => .pure (.ident isName)

theorem builds_paren (builds : expr.Builds Token.Proper Expr.Legible) :
    (paren expr).Builds Token.Proper Expr.Legible :=
  .recoverWith (.bind (ensures_skipGroup _ _ _).passes fun _ _ => .pure .error)
    (.bind (.spanned (.between (.token _) (.token _) builds)) fun _ inInner =>
      .pure (.paren inInner))

theorem builds_atom (builds : expr.Builds Token.Proper Expr.Legible) :
    (atom expr).Builds Token.Proper Expr.Legible :=
  .orElse builds_literal (.orElse (builds_lambda builds) (.orElse (builds_newObject builds)
    (.orElse builds_ident (builds_paren builds))))

theorem builds_memberSuffix : memberSuffix.Builds Token.Proper Suffix.Legible := by
  refine .bind (.token _) fun _ _ => .bind builds_name fun name isName =>
    .bind (.optional (.bind builds_typeArgs fun _ inTypes => .bind (.ahead _) fun _ _ =>
      .pure inTypes)) fun typeArgs inTypes => .pure ⟨isName, ?_⟩
  cases typeArgs with
  | none => simp
  | some types => exact inTypes types rfl

theorem builds_callSuffix (builds : expr.Builds Token.Proper Expr.Legible) :
    (callSuffix expr).Builds Token.Proper Suffix.Legible :=
  .bind (builds_arguments builds) fun _ inArgs => .pure inArgs

theorem builds_indexSuffix (builds : expr.Builds Token.Proper Expr.Legible) :
    (indexSuffix expr).Builds Token.Proper Suffix.Legible :=
  .bind (.between (.token _) (.token _) builds) fun _ inPosition => .pure inPosition

theorem builds_postfixed (builds : expr.Builds Token.Proper Expr.Legible) :
    (postfixed expr).Builds Token.Proper Expr.Legible := by
  refine .bind (builds_atom builds) fun target inTarget => .bind (.many (.orElse
    (.spanned builds_memberSuffix) (.orElse (.spanned (builds_callSuffix builds))
      (.spanned (builds_indexSuffix builds))))) fun suffixes inSuffixes => .pure ?_
  induction suffixes generalizing target with
  | nil => exact inTarget
  | cons suffix suffixes ih =>
      obtain ⟨inSuffix, others⟩ := List.forall_mem_cons.mp inSuffixes
      exact ih _ (legible_attach inTarget inSuffix) others

theorem builds_unary (builds : expr.Builds Token.Proper Expr.Legible) :
    (unary expr).Builds Token.Proper Expr.Legible := by
  have sign : unarySign.Builds Token.Proper fun _ => True := .select fun _ _ _ _ => trivial
  refine .bind (.many (.spanned sign)) fun signs _ => .bind (builds_postfixed builds)
    fun operand inOperand => .pure ?_
  induction signs with
  | nil => exact inOperand
  | cons sign signs ih => exact .unary (ih (by simp))

theorem builds_leftAssociative {operand : Parser Token Expr} (level : BinaryLevel)
    (expected : Expected Token) (builds : operand.Builds Token.Proper Expr.Legible) :
    (leftAssociative operand (binarySign level expected)).Builds Token.Proper Expr.Legible := by
  have sign : (binarySign level expected).Builds Token.Proper fun _ => True :=
    .select fun _ _ _ _ => trivial
  refine .bind builds fun first inFirst => .bind (.many (.bind sign fun op _ =>
    .bind builds fun rhs inRhs => .pure_pair trivial inRhs)) fun others inOthers => .pure ?_
  induction others generalizing first with
  | nil => exact inFirst
  | cons other others ih =>
      obtain ⟨inRhs, inOthers⟩ := List.forall_mem_cons.mp inOthers
      exact ih _ (.binary inFirst inRhs.2) inOthers

theorem builds_assigned (builds : expr.Builds Token.Proper Expr.Legible) :
    (assigned expr).Builds Token.Proper Expr.Legible :=
  .bind (.token _) fun _ _ => builds

theorem builds_exprRule (builds : expr.Builds Token.Proper Expr.Legible) :
    (exprRule expr).Builds Token.Proper Expr.Legible := by
  have operators : (disjunction expr).Builds Token.Proper Expr.Legible :=
    builds_leftAssociative _ _ <| builds_leftAssociative _ _ <| builds_leftAssociative _ _ <|
      builds_leftAssociative _ _ <| builds_leftAssociative _ _ <| builds_leftAssociative _ _ <|
        builds_unary builds
  refine .labelled _ (.bind operators fun lhs inLhs =>
    .bind (.optional (builds_assigned builds)) ?_)
  rintro (_ | rhs) inRhs
  · exact .pure inLhs
  · exact .pure (.assign inLhs (inRhs rhs rfl))

theorem builds_expr : Grammar.expr.Builds Token.Proper Expr.Legible :=
  .recursive fun _ => builds_exprRule

theorem builds_declarator : declarator.Builds Token.Proper Declarator.Legible := by
  refine .bind (.spanned (.bind builds_name fun name isName =>
    .bind (.optional (builds_assigned builds_expr)) fun init inInit =>
      .pure_pair isName inInit)) ?_
  rintro ⟨⟨name, init⟩, span⟩ ⟨isName, inInit⟩
  exact .pure ⟨isName, inInit⟩

theorem builds_localDecl : localDecl.Builds Token.Proper LocalDecl.Legible :=
  .labelled _ (.bind builds_type fun _ inType =>
    .bind (builds_declarator.separated1 (.token _)) fun _ each => .pure ⟨inType, each.1, each.2⟩)

theorem builds_condition : condition.Builds Token.Proper Expr.Legible :=
  .between (.token _) (.token _) builds_expr

theorem passes_semicolon : semicolon.Builds Token.Proper fun _ => True :=
  semicolon_advances.passes

variable {stmt : Parser Token Stmt}

theorem builds_braced (builds : stmt.Builds Token.Proper Stmt.Legible) :
    (braced stmt).Builds Token.Proper fun found => ∀ stmt ∈ found.1, stmt.Legible :=
  .spanned (.between (.token _) (.token _) (.many builds))

theorem builds_block (builds : stmt.Builds Token.Proper Stmt.Legible) :
    (block stmt).Builds Token.Proper Stmt.Legible :=
  .recoverWith (.bind (ensures_skipGroup _ _ _).passes fun _ _ => .pure .error)
    (.bind (builds_braced builds) fun _ inStmts => .pure (.block inStmts))

theorem builds_foreachLoop (builds : stmt.Builds Token.Proper Stmt.Legible) :
    (foreachLoop stmt).Builds Token.Proper Stmt.Legible := by
  have header : loopHeader.Builds Token.Proper fun found =>
      found.1.Legible ∧ (Token.ident found.2.1.1).Proper ∧ found.2.2.Legible :=
    .bind builds_type fun _ inType => .bind (.spanned builds_name) fun _ isName =>
      .bind (.token _) fun _ _ => .bind builds_expr fun _ inSeq => .pure ⟨inType, isName, inSeq⟩
  refine .labelled _ (.bind (.spanned (.bind (.token _) fun _ _ =>
    .bind (.between (.token _) (.token _) header) fun header inHeader =>
      .bind builds fun body inBody =>
        .pure_pair inHeader inBody)) ?_)
  rintro ⟨⟨⟨type, ⟨var, varSpan⟩, seq⟩, body⟩, span⟩ ⟨⟨inType, isName, inSeq⟩, inBody⟩
  exact .pure (.foreach inType isName inSeq inBody)

theorem builds_conditional (builds : stmt.Builds Token.Proper Stmt.Legible) :
    (conditional stmt).Builds Token.Proper Stmt.Legible := by
  have elseBranch : (elseBranch stmt).Builds Token.Proper Stmt.Legible :=
    .bind (.token _) fun _ _ => builds
  have parts : (do
      token (Token.keyword .ifWord)
      let cond ← condition
      let body ← stmt
      let otherwise ← Parser.optional (Grammar.elseBranch stmt)
      return (cond, body, otherwise)).Builds Token.Proper fun found => found.1.Legible ∧
        found.2.1.Legible ∧ ∀ otherwise ∈ found.2.2, otherwise.Legible :=
    .bind (.token _) fun _ _ => .bind builds_condition fun _ inCond => .bind builds fun _ inBody =>
      .bind (.optional elseBranch) fun _ inOtherwise => .pure ⟨inCond, inBody, inOtherwise⟩
  refine .labelled _ (.bind (.spanned parts) ?_)
  rintro ⟨⟨cond, body, _ | otherwise⟩, span⟩ ⟨inCond, inBody, inOtherwise⟩
  · exact .pure (.ifThen inCond inBody)
  · exact .pure (.ifElse inCond inBody (inOtherwise otherwise rfl))

theorem builds_whileLoop (builds : stmt.Builds Token.Proper Stmt.Legible) :
    (whileLoop stmt).Builds Token.Proper Stmt.Legible := by
  refine .bind (.spanned (.bind (.token _) fun _ _ => .bind builds_condition fun cond inCond =>
    .bind builds fun body inBody => .pure_pair inCond inBody)) ?_
  rintro ⟨⟨cond, body⟩, span⟩ ⟨inCond, inBody⟩
  exact .pure (.whileLoop inCond inBody)

theorem builds_wordStmt {word : Keyword} {make : Span → Stmt}
    (legible : ∀ span, (make span).Legible) :
    (wordStmt word make).Builds Token.Proper Stmt.Legible :=
  .bind (.spanned (.bind (.token _) fun _ _ => passes_semicolon)) fun _ _ => .pure (legible _)

theorem builds_returnStmt : returnStmt.Builds Token.Proper Stmt.Legible :=
  .bind (.spanned (.bind (.token _) fun _ _ => .bind (.optional builds_expr) fun _ inValue =>
    .bind passes_semicolon fun _ _ => .pure inValue)) fun _ inValue => .pure (.returnValue inValue)

theorem builds_emptyStmt : emptyStmt.Builds Token.Proper Stmt.Legible :=
  .bind (.spanned (.token _)) fun _ _ => .pure .empty

theorem builds_declStmt : declStmt.Builds Token.Proper Stmt.Legible :=
  .bind (.spanned (.bind builds_localDecl fun _ inDecl => .bind passes_semicolon fun _ _ =>
    .pure inDecl)) fun _ inDecl => .pure (.decl inDecl)

theorem builds_exprStmt : exprStmt.Builds Token.Proper Stmt.Legible :=
  .bind (.spanned (.bind builds_expr fun _ inValue => .bind passes_semicolon fun _ _ =>
    .pure inValue)) fun _ inValue => .pure (.expr inValue)

theorem builds_unreadable : unreadable.Builds Token.Proper Stmt.Legible :=
  .bind (skipped_consumes.spanned.passes) fun _ _ => .bind (.report _ _) fun _ _ => .pure .error

theorem builds_stmtRule (builds : stmt.Builds Token.Proper Stmt.Legible) :
    (stmtRule stmt).Builds Token.Proper Stmt.Legible :=
  .labelled _ <| .orElse (builds_block builds) <| .orElse (builds_foreachLoop builds) <|
    .orElse (builds_conditional builds) <| .orElse (builds_whileLoop builds) <|
    .orElse (builds_wordStmt fun _ => .continueLoop) <|
    .orElse (builds_wordStmt fun _ => .breakLoop) <| .orElse builds_returnStmt <|
    .orElse builds_emptyStmt <| .orElse builds_declStmt <| .orElse builds_exprStmt builds_unreadable

theorem builds_stmt : Grammar.stmt.Builds Token.Proper Stmt.Legible :=
  .recursive fun _ => builds_stmtRule

variable {item : Parser Token Item}

/-- Items that are legible wherever they are placed. -/
abbrev MakesLegible (reader : Parser Token (Span → Item)) : Prop :=
  reader.Builds Token.Proper fun make => ∀ span, (make span).Legible

theorem builds_members (builds : item.Builds Token.Proper Item.Legible) :
    (members item).Builds Token.Proper fun items => ∀ item ∈ items, item.Legible :=
  .recoverWith (.bind (ensures_skipGroup _ _ _).passes fun _ _ => .pure (by simp))
    (.between (.token _) (.token _) (.many builds))

theorem makesLegible_usingItem : MakesLegible usingItem :=
  .bind (.token _) fun _ _ => .bind dottedName_consumes.passes fun _ _ =>
    .bind passes_semicolon fun _ _ => .pure fun _ =>
      .of_parts rfl (by simp [Item.subitems]) (by simp [Item.stmts])

theorem makesLegible_namespaceItem (builds : item.Builds Token.Proper Item.Legible) :
    MakesLegible (namespaceItem item) :=
  .bind (.token _) fun _ _ => .bind dottedName_consumes.passes fun _ _ =>
    .bind (builds_members builds) fun _ inItems => .pure fun _ =>
      .of_parts rfl inItems (by simp [Item.stmts])

theorem makesLegible_classItem (builds : item.Builds Token.Proper Item.Legible) :
    MakesLegible (classItem item) :=
  .bind modifiers_advance.passes fun _ _ => .bind (.token _) fun _ _ =>
    .bind builds_name fun _ _ => .bind (builds_members builds) fun _ inItems =>
      .pure fun _ => .of_parts rfl inItems (by simp [Item.stmts])

theorem builds_methodBody :
    methodBody.Builds Token.Proper fun body => ∀ stmt ∈ body.stmts, stmt.Legible :=
  .recoverWith (.bind (ensures_skipGroup _ _ _).passes fun _ _ => .pure (by simp))
    (.bind (builds_braced builds_stmt) fun _ inStmts => .pure inStmts)

theorem makesLegible_methodItem : MakesLegible methodItem := by
  have single : param.Builds Token.Proper fun _ => True :=
    .bind builds_type fun _ _ => .bind builds_name fun _ _ => .pure trivial
  exact .labelled _ (.bind modifiers_advance.passes fun _ _ => .bind builds_type fun _ _ =>
    .bind builds_name fun _ _ =>
      .bind (.between (.token _) (.token _) (.separated single (.token _))) fun _ _ =>
        .bind builds_methodBody fun _ inStmts => .pure fun _ =>
          .of_parts rfl (by simp [Item.subitems]) inStmts)

theorem makesLegible_fieldItem : MakesLegible fieldItem := by
  have modifiers : (many1 modifier).Builds Token.Proper fun _ => True :=
    .bind (.select fun _ _ _ _ => trivial) fun _ _ => .bind modifiers_advance.passes fun _ _ =>
      .pure trivial
  refine .bind modifiers fun _ _ => .bind builds_localDecl fun decl inDecl =>
    .bind passes_semicolon fun _ _ => .pure fun span => ?_
  obtain ⟨type, first, others, rfl⟩ := inDecl.exists_declarators
  exact .of_parts rfl (by simp [Item.subitems]) (by simp [Item.stmts])

theorem makesLegible_stmtItem : MakesLegible stmtItem :=
  .bind builds_stmt fun _ inStmt => .pure fun _ =>
    .of_parts rfl (by simp [Item.subitems]) (by simpa [Item.stmts] using inStmt)

theorem builds_itemRule (builds : item.Builds Token.Proper Item.Legible) :
    (itemRule item).Builds Token.Proper Item.Legible :=
  .bind (.spanned <| .orElse makesLegible_usingItem <|
    .orElse (makesLegible_namespaceItem builds) <| .orElse (makesLegible_classItem builds) <|
    .orElse makesLegible_methodItem <| .orElse makesLegible_fieldItem makesLegible_stmtItem)
    fun _ makes => .pure (makes _)

theorem builds_sourceTree : sourceTree.Builds Token.Proper fun tree =>
    ∀ item ∈ tree.items, item.Legible :=
  .bind (.many (.skipAndRetry (.recursive fun _ => builds_itemRule))) fun _ inItems =>
    .pure inItems

end Grammar

/-- Tokens that are no comments are read where they are written, whatever is reported. -/
theorem Token.proper_lex {source : String} {lexemes : List (Lexeme Token)}
    {errors : List (SyntaxError Char)} (read : lex source = (some lexemes, errors)) :
    ∀ lexeme ∈ lexemes, lexeme.token.isComment = false → lexeme.token.Proper := by
  have laid := Lexer.ensures_each Lexer.ensures_lexeme fun _ _ _ => Lexer.LaidIn.mono
  intro lexeme listed noComment
  obtain ⟨own, rest, -, -, -, spelled⟩ := laid.run read lexeme listed
  exact spelled.proper noComment

namespace SourceTree

/-- Whatever a source text looks like, the words in its tree are tokens, and all that
declares declares something. -/
theorem legible_parse (source : String) : ∀ item ∈ (parse source).1.items, item.Legible := by
  cases parse_cases source with
  | inl empty => simp [empty]
  | inr found =>
      obtain ⟨lexemes, lexical, errors, read, ran⟩ := found
      refine Grammar.builds_sourceTree.run (fun lexeme kept => ?_) ran
      obtain ⟨listed, noComment⟩ := List.mem_filter.mp kept
      exact Token.proper_lex read lexeme listed (by simpa using noComment)

/-- Every statement of a parsed tree has words that are tokens. -/
theorem legible_of_parse {source : String} {stmt : Stmt}
    (inside : stmt ∈ (parse source).1.statements) : stmt.Legible := by
  rw [statements_eq, List.mem_flatMap] at inside
  obtain ⟨item, isItem, inItem⟩ := inside
  exact (legible_parse source item isItem).statements stmt inItem

end SourceTree

end QueryLoop
