import QueryLoop.Grammar.Item
import QueryLoop.Proofs.Spelling.Tokens

namespace QueryLoop

/-! Trees that say what their tokens say.

No parentheses or braces are added when a tree is written, so a tree fits only if
its operands bind tightly enough, if nothing that follows would be read as more of
it, and if it could not be read as something else.  What follows is part of the
condition: `a.b` does not fit before `<c>(`, which would be read as type arguments,
and a lambda fits only where its body can end.
-/

mutual

/-- Every path in the type has a name in it. -/
def TypeRef.Named : TypeRef → Prop
  | ⟨path, args, _⟩ => path ≠ [] ∧ TypeRef.AllNamed args

def TypeRef.AllNamed : List TypeRef → Prop
  | [] => True
  | type :: types => type.Named ∧ TypeRef.AllNamed types

end

theorem TypeRef.allNamed_iff {types : List TypeRef} :
    TypeRef.AllNamed types ↔ ∀ type ∈ types, type.Named := by
  induction types with
  | nil => simp [TypeRef.AllNamed]
  | cons type types ih => simp [TypeRef.AllNamed, ih]

theorem TypeRef.named_iff {type : TypeRef} :
    type.Named ↔ type.path ≠ [] ∧ ∀ arg ∈ type.args, arg.Named := by
  rw [← TypeRef.allNamed_iff]
  cases type
  rw [TypeRef.Named]

/-- The tokens start with type arguments and a parenthesis behind them. -/
def OpensTypeArgs (tokens : List Token) : Prop :=
  ∃ types rest, types ≠ [] ∧ (∀ type ∈ types, TypeRef.Named type) ∧
    tokens = typeArgTokens types ++ .parenOpen :: rest

/-- How tightly an expression holds together. -/
def Expr.rank : Expr → Nat
  | .assign .. => 0
  | .binary _ op .. => op.level.rank
  | .unary .. => 7
  | .member .. | .call .. | .index .. => 8
  | .literal .. | .ident .. | .new .. | .lambda .. | .paren .. | .error .. => 9

/-- How tightly a token holds on to the operand in front of it; zero for a token that
no expression goes on with. -/
def Token.strength : Token → Nat
  | .dot | .parenOpen | .bracketOpen | .arrow => 9
  | .sign operator =>
      match BinaryOp.ofSign? operator with
      | some op => op.level.rank + 1
      | none => 0
  | .assign => 1
  | _ => 0

/-- An expression of the given rank ends before these tokens. -/
def Stops (rank : Nat) (tokens : List Token) : Prop :=
  ∀ token ∈ tokens.head?, token.strength ≤ rank

theorem Stops.mono {rank rank' : Nat} {tokens : List Token} (stops : Stops rank tokens)
    (looser : rank ≤ rank') : Stops rank' tokens :=
  fun token isHead => Nat.le_trans (stops token isHead) looser

theorem stops_cons {rank : Nat} {token : Token} {tokens : List Token} :
    Stops rank (token :: tokens) ↔ token.strength ≤ rank := by
  simp [Stops]

theorem Token.strength_binary (op : BinaryOp) :
    (Token.sign op.sign).strength = op.level.rank + 1 := by
  simp only [Token.strength, BinaryOp.ofSign?_sign]

mutual

/-- The tokens of the expression are read as this expression before `rest`. -/
def Expr.Fits : Expr → (rest : List Token) → Prop
  | .literal .., _ => True
  | .ident .., _ => True
  | .member _ target name typeArgs, rest =>
      8 ≤ target.rank ∧ target.Fits (.dot :: .ident name :: (typeArgTokens typeArgs ++ rest)) ∧
        (∀ type ∈ typeArgs, type.Named) ∧
        (typeArgs = [] → ¬OpensTypeArgs rest) ∧
        (typeArgs ≠ [] → rest.head? = some .parenOpen)
  | .call _ callee args, rest =>
      8 ≤ callee.rank ∧ callee.Fits (Expr.argTokens args ++ rest) ∧
        Expr.AllFit args (.parenClose :: rest)
  | .index _ target position, rest =>
      8 ≤ target.rank ∧
        target.Fits (.bracketOpen :: (position.tokens ++ .bracketClose :: rest)) ∧
        position.Fits (.bracketClose :: rest)
  | .new _ type args, rest => type.Named ∧ Expr.AllFit args (.parenClose :: rest)
  | .unary _ _ operand, rest => 7 ≤ operand.rank ∧ operand.Fits rest
  | .binary _ op lhs rhs, rest =>
      op.level.rank ≤ lhs.rank ∧ op.level.rank < rhs.rank ∧
        lhs.Fits (.sign op.sign :: (rhs.tokens ++ rest)) ∧ rhs.Fits rest
  | .assign _ lhs rhs, rest =>
      0 < lhs.rank ∧ lhs.Fits (.assign :: (rhs.tokens ++ rest)) ∧ rhs.Fits rest
  | .lambda _ _ body, rest => Stops 0 rest ∧ body.Fits rest
  | .paren _ inner, rest => inner.Fits (.parenClose :: rest)
  | .error _, _ => False

/-- Expressions with commas between them, before `rest`. -/
def Expr.AllFit : List Expr → (rest : List Token) → Prop
  | [], _ => True
  | expr :: exprs, rest =>
      expr.Fits (Expr.moreTokens exprs ++ rest) ∧ Expr.AllFit exprs rest

end

theorem Expr.allFit_append {before : List Expr} {expr : Expr} {behind : List Expr}
    {rest : List Token} (fit : Expr.AllFit (before ++ expr :: behind) rest) :
    expr.Fits (Expr.moreTokens behind ++ rest) := by
  induction before with
  | nil => exact fit.1
  | cons first before ih => exact ih fit.2

def Token.closes : Token → Bool
  | .parenClose | .bracketClose | .semicolon => true
  | _ => false

/-- No expression goes on with the token, and there is none such inside a type. -/
def Token.halts : Token → Bool
  | .parenClose | .bracketClose | .semicolon | .braceClose | .keyword _ => true
  | _ => false

theorem Token.halts_of_closes {token : Token} (closes : token.closes = true) :
    token.halts = true := by
  cases token <;> first | rfl | cases closes

theorem halts_pathTokens (path : List String) : ∀ token ∈ pathTokens path, token.halts = false := by
  intro token listed
  cases path with
  | nil => simp [pathTokens, Token.listed] at listed
  | cons first others =>
      simp only [pathTokens, Token.listed, List.mem_append, List.mem_flatMap, List.mem_cons,
        List.not_mem_nil, or_false] at listed
      rcases listed with rfl | ⟨name, -, rfl | rfl⟩ <;> rfl

mutual

theorem TypeRef.halts_tokens : ∀ (type : TypeRef), ∀ token ∈ type.tokens, token.halts = false
  | ⟨path, [], span⟩, token, listed => by
      rw [TypeRef.tokens] at listed
      exact halts_pathTokens path token listed
  | ⟨path, first :: others, span⟩, token, listed => by
      simp only [TypeRef.tokens, List.mem_append, List.mem_cons, List.not_mem_nil,
        or_false] at listed
      rcases listed with inPath | rfl | inFirst | inOthers | rfl
      · exact halts_pathTokens path token inPath
      · rfl
      · exact TypeRef.halts_tokens first token inFirst
      · exact TypeRef.halts_moreTokens others token inOthers
      · rfl

theorem TypeRef.halts_moreTokens :
    ∀ (types : List TypeRef), ∀ token ∈ TypeRef.moreTokens types, token.halts = false
  | [], token, listed => by simp [TypeRef.moreTokens] at listed
  | type :: types, token, listed => by
      simp only [TypeRef.moreTokens, List.mem_append, List.mem_cons] at listed
      rcases listed with rfl | inType | inTypes
      · rfl
      · exact TypeRef.halts_tokens type token inType
      · exact TypeRef.halts_moreTokens types token inTypes

end

theorem halts_typeArgTokens (types : List TypeRef) :
    ∀ token ∈ typeArgTokens types, token.halts = false := by
  intro token listed
  cases types with
  | nil => simp [typeArgTokens] at listed
  | cons first others =>
      simp only [typeArgTokens, Token.listed, ← TypeRef.moreTokens_eq, List.mem_append,
        List.mem_cons, List.not_mem_nil, or_false] at listed
      rcases listed with rfl | (inFirst | inOthers) | rfl
      · rfl
      · exact TypeRef.halts_tokens first token inFirst
      · exact TypeRef.halts_moreTokens others token inOthers
      · rfl

/-- The tokens start with a closing one. -/
def Closed (tokens : List Token) : Prop :=
  ∃ token rest, tokens = token :: rest ∧ token.closes = true

/-- Neither an expression nor a type goes on here. -/
def Halted (tokens : List Token) : Prop :=
  ∃ token rest, tokens = token :: rest ∧ token.halts = true

theorem Closed.halted {tokens : List Token} (closed : Closed tokens) : Halted tokens := by
  obtain ⟨token, rest, spelled, closes⟩ := closed
  exact ⟨token, rest, spelled, Token.halts_of_closes closes⟩

theorem Halted.stops {tokens : List Token} (halted : Halted tokens) : Stops 0 tokens := by
  obtain ⟨token, rest, rfl, halts⟩ := halted
  refine stops_cons.mpr ?_
  cases token <;> simp [Token.halts, Token.strength] at halts ⊢

theorem Halted.head?_ne {tokens : List Token} (halted : Halted tokens) {token : Token}
    (goesOn : token.halts = false) : tokens.head? ≠ some token := by
  obtain ⟨first, rest, rfl, halts⟩ := halted
  intro isHead
  obtain rfl : first = token := by simpa using isHead
  rw [halts] at goesOn
  cases goesOn

theorem Closed.stops {tokens : List Token} (closed : Closed tokens) : Stops 0 tokens :=
  closed.halted.stops

/-- Tokens without a halting one end in front of the halt. -/
theorem Halted.split {front rest rest' tokens tail : List Token} (halted : Halted rest')
    (inside : ∀ token ∈ tokens, token.halts = false) (spelled : front ++ rest' = tokens ++ tail) :
    ∃ more, front ++ rest = tokens ++ more := by
  obtain ⟨token, behind, rfl, halts⟩ := halted
  rcases List.append_eq_append_iff.mp spelled with ⟨more, shape, back⟩ | ⟨more, shape, back⟩
  · cases more with
    | nil => exact ⟨rest, by rw [shape, List.append_nil]⟩
    | cons first more =>
        obtain ⟨rfl, -⟩ := List.cons.inj back
        have plain := inside token (by simp [shape])
        rw [halts] at plain
        cases plain
  · exact ⟨more ++ rest, by rw [shape, List.append_assoc]⟩

/-- Tokens that are the same up to `rest`, which a `rest'` where things end takes the
place of. -/
def SameUpTo (rest rest' before after : List Token) : Prop :=
  ∃ middle, before = middle ++ rest ∧ after = middle ++ rest'

section
variable {rest rest' before after : List Token}

theorem SameUpTo.refl (rest rest' : List Token) : SameUpTo rest rest' rest rest' :=
  ⟨[], rfl, rfl⟩

theorem SameUpTo.append (same : SameUpTo rest rest' before after) (front : List Token) :
    SameUpTo rest rest' (front ++ before) (front ++ after) := by
  obtain ⟨middle, rfl, rfl⟩ := same
  exact ⟨front ++ middle, by rw [List.append_assoc], by rw [List.append_assoc]⟩

theorem SameUpTo.cons (same : SameUpTo rest rest' before after) (token : Token) :
    SameUpTo rest rest' (token :: before) (token :: after) :=
  same.append [token]

theorem SameUpTo.stops (same : SameUpTo rest rest' before after) (halted : Halted rest')
    (stops : Stops 0 before) : Stops 0 after := by
  obtain ⟨middle, rfl, rfl⟩ := same
  cases middle with
  | nil => exact halted.stops
  | cons first middle => exact stops

theorem SameUpTo.head? (same : SameUpTo rest rest' before after) {token : Token}
    (different : rest.head? ≠ some token) (isHead : before.head? = some token) :
    after.head? = some token := by
  obtain ⟨middle, rfl, rfl⟩ := same
  cases middle with
  | nil => exact absurd isHead different
  | cons first middle => exact isHead

theorem SameUpTo.opensTypeArgs (same : SameUpTo rest rest' before after) (halted : Halted rest')
    (opens : OpensTypeArgs after) : OpensTypeArgs before := by
  obtain ⟨middle, rfl, rfl⟩ := same
  obtain ⟨types, tail, nonempty, named, spelled⟩ := opens
  have inside : ∀ part ∈ typeArgTokens types ++ [Token.parenOpen], part.halts = false := by
    intro part listed
    rcases List.mem_append.mp listed with inTypes | isOpen
    · exact halts_typeArgTokens types part inTypes
    · obtain rfl := List.mem_singleton.mp isOpen
      rfl
  obtain ⟨more, spelled'⟩ : ∃ more, middle ++ rest = (typeArgTokens types ++ [.parenOpen]) ++ more :=
    halted.split inside (spelled.trans (List.append_cons ..))
  exact ⟨types, more, nonempty, named, spelled'.trans (List.append_cons ..).symm⟩

end

mutual

theorem Expr.Fits.before_halted {rest rest' : List Token} (halted : Halted rest')
    (plain : rest.head? ≠ some .parenOpen) : ∀ {expr : Expr} {before after : List Token},
      SameUpTo rest rest' before after → expr.Fits before → expr.Fits after
  | .literal .., _, _, _, _ => trivial
  | .ident .., _, _, _, _ => trivial
  | .member _ _ name typeArgs, _, _, same, ⟨tight, targetFits, named, noArgs, called⟩ =>
      ⟨tight, targetFits.before_halted halted plain
          (((same.append (typeArgTokens typeArgs)).cons (.ident name)).cons .dot), named,
        fun none_left opens => noArgs none_left (same.opensTypeArgs halted opens),
        fun some_left => same.head? plain (called some_left)⟩
  | .call _ _ args, _, _, same, ⟨tight, calleeFits, fit⟩ =>
      ⟨tight, calleeFits.before_halted halted plain (same.append (Expr.argTokens args)),
        Expr.AllFit.before_halted halted plain (same.cons .parenClose) fit⟩
  | .index _ _ position, _, _, same, ⟨tight, targetFits, positionFits⟩ =>
      ⟨tight, targetFits.before_halted halted plain
          (((same.cons .bracketClose).append position.tokens).cons .bracketOpen),
        positionFits.before_halted halted plain (same.cons .bracketClose)⟩
  | .new .., _, _, same, ⟨named, fit⟩ =>
      ⟨named, Expr.AllFit.before_halted halted plain (same.cons .parenClose) fit⟩
  | .unary .., _, _, same, ⟨tight, fits⟩ => ⟨tight, fits.before_halted halted plain same⟩
  | .binary _ op _ rhs, _, _, same, ⟨leftTight, rightTight, leftFits, rightFits⟩ =>
      ⟨leftTight, rightTight, leftFits.before_halted halted plain
          ((same.append rhs.tokens).cons (.sign op.sign)),
        rightFits.before_halted halted plain same⟩
  | .assign _ _ rhs, _, _, same, ⟨leftTight, leftFits, rightFits⟩ =>
      ⟨leftTight, leftFits.before_halted halted plain ((same.append rhs.tokens).cons .assign),
        rightFits.before_halted halted plain same⟩
  | .lambda .., _, _, same, ⟨stops, fits⟩ =>
      ⟨same.stops halted stops, fits.before_halted halted plain same⟩
  | .paren _ inner, before, after, same, fits =>
      have inside : inner.Fits (.parenClose :: before) := fits
      show inner.Fits (.parenClose :: after) from
        inside.before_halted halted plain (same.cons .parenClose)
  | .error _, _, _, _, fits => fits.elim

theorem Expr.AllFit.before_halted {rest rest' : List Token} (halted : Halted rest')
    (plain : rest.head? ≠ some .parenOpen) : ∀ {exprs : List Expr} {before after : List Token},
      SameUpTo rest rest' before after → Expr.AllFit exprs before → Expr.AllFit exprs after
  | [], _, _, _, _ => trivial
  | _ :: exprs, _, _, same, ⟨fits, others⟩ =>
      ⟨fits.before_halted halted plain (same.append (Expr.moreTokens exprs)),
        Expr.AllFit.before_halted halted plain same others⟩

end

/-- An expression that fits before something that ends it fits wherever nothing goes on. -/
theorem Expr.Fits.halt {expr : Expr} {rest rest' : List Token} (fits : expr.Fits rest)
    (stops : Stops 0 rest) (halted : Halted rest') : expr.Fits rest' := by
  refine fits.before_halted halted (fun isHead => ?_) (.refl rest rest')
  have weak := stops .parenOpen isHead
  simp [Token.strength] at weak

theorem Expr.Fits.close {expr : Expr} {rest rest' : List Token} (fits : expr.Fits rest)
    (stops : Stops 0 rest) (closed : Closed rest') : expr.Fits rest' :=
  fits.halt stops closed.halted

/-- The tokens start as a declaration does, with a type and a name. -/
def OpensDecl (tokens : List Token) : Prop :=
  ∃ type name rest, TypeRef.Named type ∧ tokens = type.tokens ++ .ident name :: rest

/-- Declarators with commas between them, before a semicolon. -/
def Declarator.AllFit : List Declarator → Prop
  | [] => True
  | declarator :: others =>
      (∀ init ∈ declarator.init, init.Fits
        ((others.flatMap fun other => .comma :: other.tokens) ++ [.semicolon])) ∧
        Declarator.AllFit others

def LocalDecl.Fits (decl : LocalDecl) : Prop :=
  decl.type.Named ∧ decl.declarators ≠ [] ∧ Declarator.AllFit decl.declarators

mutual

/-- The statement is read as itself, as far as its expressions go. -/
def Stmt.Fits : Stmt → Prop
  | .block _ stmts => Stmt.AllFit stmts
  | .decl _ declared => declared.Fits
  | .expr _ value => value.Fits [.semicolon] ∧ ¬OpensDecl (value.tokens ++ [.semicolon])
  | .ifThen _ cond body => cond.Fits [.parenClose] ∧ body.Fits
  | .ifElse _ cond body otherwise => cond.Fits [.parenClose] ∧ body.Fits ∧ otherwise.Fits
  | .foreach _ type _ _ seq body => type.Named ∧ seq.Fits [.parenClose] ∧ body.Fits
  | .whileLoop _ cond body => cond.Fits [.parenClose] ∧ body.Fits
  | .returnValue _ value => ∀ result ∈ value, result.Fits [.semicolon]
  | .continueLoop _ | .breakLoop _ | .empty _ => True
  | .error _ => False

def Stmt.AllFit : List Stmt → Prop
  | [] => True
  | stmt :: stmts => stmt.Fits ∧ Stmt.AllFit stmts

end

/-- The statement ends with an `if` that has no `else`, so a following `else` would
belong to it. -/
def Stmt.endsInIf : Stmt → Bool
  | .ifThen .. => true
  | .ifElse _ _ _ otherwise => otherwise.endsInIf
  | .foreach _ _ _ _ _ body => body.endsInIf
  | .whileLoop _ _ body => body.endsInIf
  | _ => false

mutual

/-- Some `else` of the statement is written behind a branch that ends in an `if`
without `else`. -/
def Stmt.dangles : Stmt → Bool
  | .block _ stmts => Stmt.anyDangles stmts
  | .ifThen _ _ body => body.dangles
  | .ifElse _ _ body otherwise => body.endsInIf || body.dangles || otherwise.dangles
  | .foreach _ _ _ _ _ body => body.dangles
  | .whileLoop _ _ body => body.dangles
  | _ => false

def Stmt.anyDangles : List Stmt → Bool
  | [] => false
  | stmt :: stmts => stmt.dangles || Stmt.anyDangles stmts

end

mutual

def Item.Fits : Item → Prop
  | .usingPath _ path => path ≠ []
  | .namespaceOf _ path items => path ≠ [] ∧ Item.AllFit items
  | .classOf _ _ _ members => Item.AllFit members
  | .method _ _ result _ params body =>
      result.Named ∧ (∀ param ∈ params, param.type.Named) ∧ Stmt.AllFit body.stmts
  | .field _ modifiers decl => modifiers ≠ [] ∧ decl.Fits
  | .statement _ stmt => stmt.Fits
  | .error _ => False

def Item.AllFit : List Item → Prop
  | [] => True
  | item :: items => item.Fits ∧ Item.AllFit items

end

mutual

def Item.dangles : Item → Bool
  | .namespaceOf _ _ items => Item.anyDangles items
  | .classOf _ _ _ members => Item.anyDangles members
  | .method _ _ _ _ _ body => Stmt.anyDangles body.stmts
  | .statement _ stmt => stmt.dangles
  | _ => false

def Item.anyDangles : List Item → Bool
  | [] => false
  | item :: items => item.dangles || Item.anyDangles items

end

namespace SourceTree

def Fits (tree : SourceTree) : Prop :=
  Item.AllFit tree.items

/-- Some `else` of the tree would be read as belonging to another `if`. -/
def dangles (tree : SourceTree) : Bool :=
  Item.anyDangles tree.items

end SourceTree

theorem Stmt.allFit_iff {stmts : List Stmt} : Stmt.AllFit stmts ↔ ∀ stmt ∈ stmts, stmt.Fits := by
  induction stmts with
  | nil => simp [Stmt.AllFit]
  | cons stmt stmts ih => simp [Stmt.AllFit, ih]

theorem Stmt.anyDangles_eq_false {stmts : List Stmt} :
    Stmt.anyDangles stmts = false ↔ ∀ stmt ∈ stmts, stmt.dangles = false := by
  induction stmts with
  | nil => simp [Stmt.anyDangles]
  | cons stmt stmts ih => simp [Stmt.anyDangles, ih]

theorem Item.allFit_iff {items : List Item} : Item.AllFit items ↔ ∀ item ∈ items, item.Fits := by
  induction items with
  | nil => simp [Item.AllFit]
  | cons item items ih => simp [Item.AllFit, ih]

theorem Item.anyDangles_eq_false {items : List Item} :
    Item.anyDangles items = false ↔ ∀ item ∈ items, item.dangles = false := by
  induction items with
  | nil => simp [Item.anyDangles]
  | cons item items ih => simp [Item.anyDangles, ih]

end QueryLoop
