import QueryLoop.Token
import QueryLoop.Tree.Item

namespace QueryLoop

/-- Parts one after the other, with `mark` between two of them. -/
def Token.listed {α : Type} (mark : Token) (spell : α → List Token) : List α → List Token
  | [] => []
  | first :: others => spell first ++ others.flatMap fun other => mark :: spell other

def Literal.token : Literal → Token
  | .int digits => .int digits
  | .float digits => .float digits
  | .string content => .string content
  | .bool true => .keyword .trueWord
  | .bool false => .keyword .falseWord
  | .null => .keyword .nullWord

/-- The names of a path with dots between them. -/
def pathTokens (path : List String) : List Token :=
  Token.listed .dot (fun name => [.ident name]) path

mutual

def TypeRef.tokens : TypeRef → List Token
  | ⟨path, [], _⟩ => pathTokens path
  | ⟨path, first :: others, _⟩ =>
      pathTokens path ++
        .sign .less :: (first.tokens ++ (TypeRef.moreTokens others ++ [.sign .greater]))

def TypeRef.moreTokens : List TypeRef → List Token
  | [] => []
  | type :: types => .comma :: (type.tokens ++ TypeRef.moreTokens types)

end

def typeArgTokens : List TypeRef → List Token
  | [] => []
  | types => .sign .less :: (Token.listed .comma TypeRef.tokens types ++ [.sign .greater])

mutual

def Expr.tokens : Expr → List Token
  | .literal _ value => [value.token]
  | .ident _ name => [.ident name]
  | .member _ target name typeArgs =>
      target.tokens ++ .dot :: .ident name :: typeArgTokens typeArgs
  | .call _ callee args => callee.tokens ++ Expr.argTokens args
  | .index _ target position =>
      target.tokens ++ .bracketOpen :: (position.tokens ++ [.bracketClose])
  | .new _ type args => .keyword .newWord :: (type.tokens ++ Expr.argTokens args)
  | .unary _ op operand => .sign op.sign :: operand.tokens
  | .binary _ op lhs rhs => lhs.tokens ++ .sign op.sign :: rhs.tokens
  | .assign _ lhs rhs => lhs.tokens ++ .assign :: rhs.tokens
  | .lambda _ param body => .ident param :: .arrow :: body.tokens
  | .paren _ inner => .parenOpen :: (inner.tokens ++ [.parenClose])
  | .error _ => [.blockComment " error "]

def Expr.argTokens : List Expr → List Token
  | [] => [.parenOpen, .parenClose]
  | first :: others =>
      .parenOpen :: (first.tokens ++ (Expr.moreTokens others ++ [.parenClose]))

def Expr.moreTokens : List Expr → List Token
  | [] => []
  | expr :: exprs => .comma :: (expr.tokens ++ Expr.moreTokens exprs)

end

def Declarator.tokens (declarator : Declarator) : List Token :=
  match declarator.init with
  | none => [.ident declarator.name]
  | some init => .ident declarator.name :: .assign :: init.tokens

/-- A declaration that declares nothing is written as an empty statement. -/
def LocalDecl.tokens (decl : LocalDecl) : List Token :=
  match decl.declarators with
  | [] => [.semicolon]
  | declarators =>
      decl.type.tokens ++ (Token.listed .comma Declarator.tokens declarators ++ [.semicolon])

mutual

def Stmt.tokens : Stmt → List Token
  | .block _ stmts => .braceOpen :: (Stmt.allTokens stmts ++ [.braceClose])
  | .decl _ declared => declared.tokens
  | .expr _ value => value.tokens ++ [.semicolon]
  | .ifThen _ cond body =>
      .keyword .ifWord :: .parenOpen :: (cond.tokens ++ .parenClose :: body.tokens)
  | .ifElse _ cond body otherwise =>
      .keyword .ifWord :: .parenOpen :: (cond.tokens ++ .parenClose ::
        (body.tokens ++ .keyword .elseWord :: otherwise.tokens))
  | .foreach _ type var _ seq body =>
      .keyword .foreachWord :: .parenOpen :: (type.tokens ++ .ident var :: .keyword .inWord ::
        (seq.tokens ++ .parenClose :: body.tokens))
  | .whileLoop _ cond body =>
      .keyword .whileWord :: .parenOpen :: (cond.tokens ++ .parenClose :: body.tokens)
  | .continueLoop _ => [.keyword .continueWord, .semicolon]
  | .breakLoop _ => [.keyword .breakWord, .semicolon]
  | .returnValue _ none => [.keyword .returnWord, .semicolon]
  | .returnValue _ (some value) => .keyword .returnWord :: (value.tokens ++ [.semicolon])
  | .empty _ => [.semicolon]
  | .error _ => [.blockComment " error "]

def Stmt.allTokens : List Stmt → List Token
  | [] => []
  | stmt :: stmts => stmt.tokens ++ Stmt.allTokens stmts

end

def Param.tokens (param : Param) : List Token :=
  param.type.tokens ++ [.ident param.name]

mutual

def Item.tokens : Item → List Token
  | .usingPath _ path => .keyword .usingWord :: (pathTokens path ++ [.semicolon])
  | .namespaceOf _ path items =>
      .keyword .namespaceWord :: (pathTokens path ++
        .braceOpen :: (Item.allTokens items ++ [.braceClose]))
  | .classOf _ modifiers name members =>
      modifiers.map .modifier ++ .keyword .classWord :: .ident name ::
        .braceOpen :: (Item.allTokens members ++ [.braceClose])
  | .method _ modifiers result name params body =>
      modifiers.map .modifier ++ (result.tokens ++ .ident name ::
        .parenOpen :: (Token.listed .comma Param.tokens params ++ .parenClose ::
          .braceOpen :: (Stmt.allTokens body.stmts ++ [.braceClose])))
  | .field _ modifiers decl => modifiers.map .modifier ++ decl.tokens
  | .statement _ stmt => stmt.tokens
  | .error _ => [.blockComment " error "]

def Item.allTokens : List Item → List Token
  | [] => []
  | item :: items => item.tokens ++ Item.allTokens items

end

def SourceTree.tokens (tree : SourceTree) : List Token :=
  Item.allTokens tree.items

/-- The token that an expression starts with. -/
def Expr.headToken : Expr → Token
  | .literal _ value => value.token
  | .ident _ name => .ident name
  | .member _ target _ _ => target.headToken
  | .call _ callee _ => callee.headToken
  | .index _ target _ => target.headToken
  | .new .. => .keyword .newWord
  | .unary _ op _ => .sign op.sign
  | .binary _ _ lhs _ => lhs.headToken
  | .assign _ lhs _ => lhs.headToken
  | .lambda _ param _ => .ident param
  | .paren .. => .parenOpen
  | .error _ => .blockComment " error "

theorem Expr.exists_tokens_eq (expr : Expr) : ∃ tokens, expr.tokens = expr.headToken :: tokens := by
  cases expr with
  | member span target name typeArgs =>
      obtain ⟨tokens, spelled⟩ := target.exists_tokens_eq
      exact ⟨_, by rw [Expr.tokens, spelled]; rfl⟩
  | call span callee args =>
      obtain ⟨tokens, spelled⟩ := callee.exists_tokens_eq
      exact ⟨_, by rw [Expr.tokens, spelled]; rfl⟩
  | index span target position =>
      obtain ⟨tokens, spelled⟩ := target.exists_tokens_eq
      exact ⟨_, by rw [Expr.tokens, spelled]; rfl⟩
  | binary span op lhs rhs =>
      obtain ⟨tokens, spelled⟩ := lhs.exists_tokens_eq
      exact ⟨_, by rw [Expr.tokens, spelled]; rfl⟩
  | assign span lhs rhs =>
      obtain ⟨tokens, spelled⟩ := lhs.exists_tokens_eq
      exact ⟨_, by rw [Expr.tokens, spelled]; rfl⟩
  | _ => exact ⟨_, by rw [Expr.tokens]; rfl⟩

theorem TypeRef.moreTokens_eq (types : List TypeRef) :
    TypeRef.moreTokens types = types.flatMap fun type => .comma :: type.tokens := by
  induction types with
  | nil => rw [TypeRef.moreTokens]; rfl
  | cons type types ih => rw [TypeRef.moreTokens, ih]; rfl

theorem TypeRef.tokens_eq (type : TypeRef) :
    type.tokens = pathTokens type.path ++ typeArgTokens type.args := by
  obtain ⟨path, args, span⟩ := type
  cases args with
  | nil => simp [TypeRef.tokens, typeArgTokens]
  | cons first others =>
      simp [TypeRef.tokens, typeArgTokens, Token.listed, TypeRef.moreTokens_eq]

theorem Expr.moreTokens_eq (exprs : List Expr) :
    Expr.moreTokens exprs = exprs.flatMap fun expr => .comma :: expr.tokens := by
  induction exprs with
  | nil => rw [Expr.moreTokens]; rfl
  | cons expr exprs ih => rw [Expr.moreTokens, ih]; rfl

theorem Expr.argTokens_eq (args : List Expr) :
    Expr.argTokens args =
      .parenOpen :: (Token.listed .comma Expr.tokens args ++ [.parenClose]) := by
  cases args with
  | nil => simp [Expr.argTokens, Token.listed]
  | cons first others => simp [Expr.argTokens, Token.listed, Expr.moreTokens_eq]

theorem Stmt.allTokens_eq (stmts : List Stmt) : Stmt.allTokens stmts = stmts.flatMap Stmt.tokens := by
  induction stmts with
  | nil => rw [Stmt.allTokens]; rfl
  | cons stmt stmts ih => rw [Stmt.allTokens, ih]; rfl

theorem Item.allTokens_eq (items : List Item) : Item.allTokens items = items.flatMap Item.tokens := by
  induction items with
  | nil => rw [Item.allTokens]; rfl
  | cons item items ih => rw [Item.allTokens, ih]; rfl

mutual

def TypeRef.bare : TypeRef → TypeRef
  | ⟨path, args, _⟩ => ⟨path, TypeRef.bareAll args, ⟨0, 0⟩⟩

def TypeRef.bareAll : List TypeRef → List TypeRef
  | [] => []
  | type :: types => type.bare :: TypeRef.bareAll types

end

mutual

/-- The expression with nothing left of where it was read. -/
def Expr.bare : Expr → Expr
  | .literal _ value => .literal ⟨0, 0⟩ value
  | .ident _ name => .ident ⟨0, 0⟩ name
  | .member _ target name typeArgs =>
      .member ⟨0, 0⟩ target.bare name (typeArgs.map TypeRef.bare)
  | .call _ callee args => .call ⟨0, 0⟩ callee.bare (Expr.bareAll args)
  | .index _ target position => .index ⟨0, 0⟩ target.bare position.bare
  | .new _ type args => .new ⟨0, 0⟩ type.bare (Expr.bareAll args)
  | .unary _ op operand => .unary ⟨0, 0⟩ op operand.bare
  | .binary _ op lhs rhs => .binary ⟨0, 0⟩ op lhs.bare rhs.bare
  | .assign _ lhs rhs => .assign ⟨0, 0⟩ lhs.bare rhs.bare
  | .lambda _ param body => .lambda ⟨0, 0⟩ param body.bare
  | .paren _ inner => .paren ⟨0, 0⟩ inner.bare
  | .error _ => .error ⟨0, 0⟩

def Expr.bareAll : List Expr → List Expr
  | [] => []
  | expr :: exprs => expr.bare :: Expr.bareAll exprs

end

def Declarator.bare (declarator : Declarator) : Declarator :=
  ⟨declarator.name, declarator.init.map Expr.bare, ⟨0, 0⟩⟩

def LocalDecl.bare (decl : LocalDecl) : LocalDecl :=
  ⟨decl.type.bare, decl.declarators.map Declarator.bare⟩

mutual

def Stmt.bare : Stmt → Stmt
  | .block _ stmts => .block ⟨0, 0⟩ (Stmt.bareAll stmts)
  | .decl _ declared => .decl ⟨0, 0⟩ declared.bare
  | .expr _ value => .expr ⟨0, 0⟩ value.bare
  | .ifThen _ cond body => .ifThen ⟨0, 0⟩ cond.bare body.bare
  | .ifElse _ cond body otherwise => .ifElse ⟨0, 0⟩ cond.bare body.bare otherwise.bare
  | .foreach _ type var _ seq body => .foreach ⟨0, 0⟩ type.bare var ⟨0, 0⟩ seq.bare body.bare
  | .whileLoop _ cond body => .whileLoop ⟨0, 0⟩ cond.bare body.bare
  | .continueLoop _ => .continueLoop ⟨0, 0⟩
  | .breakLoop _ => .breakLoop ⟨0, 0⟩
  | .returnValue _ value => .returnValue ⟨0, 0⟩ (value.map Expr.bare)
  | .empty _ => .empty ⟨0, 0⟩
  | .error _ => .error ⟨0, 0⟩

def Stmt.bareAll : List Stmt → List Stmt
  | [] => []
  | stmt :: stmts => stmt.bare :: Stmt.bareAll stmts

end

def Param.bare (param : Param) : Param :=
  ⟨param.type.bare, param.name⟩

mutual

def Item.bare : Item → Item
  | .usingPath _ path => .usingPath ⟨0, 0⟩ path
  | .namespaceOf _ path items => .namespaceOf ⟨0, 0⟩ path (Item.bareAll items)
  | .classOf _ modifiers name members => .classOf ⟨0, 0⟩ modifiers name (Item.bareAll members)
  | .method _ modifiers result name params body =>
      .method ⟨0, 0⟩ modifiers result.bare name (params.map Param.bare)
        ⟨Stmt.bareAll body.stmts, ⟨0, 0⟩⟩
  | .field _ modifiers decl => .field ⟨0, 0⟩ modifiers decl.bare
  | .statement _ stmt => .statement ⟨0, 0⟩ stmt.bare
  | .error _ => .error ⟨0, 0⟩

def Item.bareAll : List Item → List Item
  | [] => []
  | item :: items => item.bare :: Item.bareAll items

end

/-- The tree with nothing left of where it was read. -/
def SourceTree.bare (tree : SourceTree) : SourceTree :=
  ⟨Item.bareAll tree.items⟩

theorem TypeRef.bareAll_eq (types : List TypeRef) : TypeRef.bareAll types = types.map TypeRef.bare := by
  induction types with
  | nil => rw [TypeRef.bareAll]; rfl
  | cons type types ih => rw [TypeRef.bareAll, ih]; rfl

theorem Expr.bareAll_eq (exprs : List Expr) : Expr.bareAll exprs = exprs.map Expr.bare := by
  induction exprs with
  | nil => rw [Expr.bareAll]; rfl
  | cons expr exprs ih => rw [Expr.bareAll, ih]; rfl

theorem Stmt.bareAll_eq (stmts : List Stmt) : Stmt.bareAll stmts = stmts.map Stmt.bare := by
  induction stmts with
  | nil => rw [Stmt.bareAll]; rfl
  | cons stmt stmts ih => rw [Stmt.bareAll, ih]; rfl

theorem Item.bareAll_eq (items : List Item) : Item.bareAll items = items.map Item.bare := by
  induction items with
  | nil => rw [Item.bareAll]; rfl
  | cons item items ih => rw [Item.bareAll, ih]; rfl

end QueryLoop
