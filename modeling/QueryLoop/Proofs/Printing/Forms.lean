import QueryLoop.Proofs.Printing.Parenthesized
import QueryLoop.Proofs.Spelling.Legible
import QueryLoop.Tree.Sexpr

namespace QueryLoop

open Parsing Parser Token.Lexer

/-- What can be read at all is read in one way. -/
theorem Parsing.Parser.Yields.agree {τ α : Type} {reader : Parser τ α} {front rest : List τ}
    {good good' : α → Prop} (yields : reader.Yields front rest good)
    (yields' : reader.Yields front rest good') : ∃ value, good value ∧ good' value := by
  let lexemes : List τ → List (Lexeme τ) := List.map fun token => ⟨token, ⟨0, 0⟩⟩
  have tokens : ∀ front, (lexemes front).map Lexeme.token = front := fun front => by
    simp [lexemes, Function.comp_def]
  have input : (Cursor.start (lexemes front ++ lexemes rest) 0).rest =
      lexemes front ++ lexemes rest := rfl
  obtain ⟨value, after, furthest, accepted, -, holds⟩ :=
    yields none input (tokens front) (tokens rest)
  obtain ⟨value', after', furthest', accepted', -, holds'⟩ :=
    yields' none input (tokens front) (tokens rest)
  obtain ⟨rfl, -⟩ := Reply.accepted.inj (accepted.symm.trans accepted')
  exact ⟨value, holds, holds'⟩

namespace Token

theorem Scans.unique {chars : List Char} {tokens tokens' : List Token}
    (scans : Scans chars tokens []) (scans' : Scans chars tokens' []) : tokens = tokens' := by
  obtain ⟨lexemes, read, rfl⟩ := scans.lex
  obtain ⟨lexemes', read', rfl⟩ := scans'.lex
  obtain ⟨found, -⟩ := Prod.mk.inj (read.symm.trans read')
  rw [Option.some.inj found]

theorem Proper.eq_of_text {token token' : Token} (proper : token.Proper) (proper' : token'.Proper)
    (plain : token.isPlain = true) (plain' : token'.isPlain = true)
    (same : token.text = token'.text) : token = token' := by
  have scans := proper.scans plain .nil
  rw [same] at scans
  exact List.singleton_inj.mp (scans.unique (proper'.scans plain' .nil))

/-- Tokens that stand for a value or a name. -/
def isValue : Token → Bool
  | ident _ | modifier _ | int _ | float _ | string _ | keyword _ => true
  | _ => false

theorem isPlain_of_isWordPart {c : Char} (isPart : isWordPart c = true) :
    Sexpr.isPlain c = true := by
  have others : ∀ d ∈ [' ', '(', ')', '"', ','], isWordPart d = false :=
    List.all_iff_forall_prop.mp (by decide)
  simp only [Sexpr.isPlain, decide_eq_true_eq]
  intro listed
  simp [others c listed] at isPart

theorem isPlain_of_wordChars {first : Char} {others : List Char}
    (starts : isWordStart first = true) (goesOn : ∀ c ∈ others, isWordPart c = true) :
    ∀ c ∈ first :: others, Sexpr.isPlain c = true := by
  refine List.forall_mem_cons.mpr ⟨isPlain_of_isWordPart ?_, fun c listed => ?_⟩
  · simp only [isWordStart, Bool.or_eq_true] at starts
    rcases starts with isAlpha | isLine
    · simp [isWordPart, Char.isAlphanum, isAlpha]
    · simp [isWordPart, isLine]
  · exact isPlain_of_isWordPart (goesOn c listed)

theorem isPlain_of_isDigit {c : Char} (isDigit : c.isDigit = true) : Sexpr.isPlain c = true :=
  isPlain_of_isWordPart (by simp [isWordPart, Char.isAlphanum, isDigit])

theorem isPlain_of_whole {digits : List Char} (whole : Whole digits) :
    digits ≠ [] ∧ ∀ c ∈ digits, Sexpr.isPlain c = true := by
  rcases whole with ⟨first, others, rfl, isDigit, -, allDigits⟩ | rfl
  · refine ⟨List.cons_ne_nil _ _, List.forall_mem_cons.mpr ⟨isPlain_of_isDigit isDigit, ?_⟩⟩
    exact fun c listed => isPlain_of_isDigit (allDigits c listed)
  · exact ⟨List.cons_ne_nil _ _, by simp; decide⟩

theorem Lexer.Spelled.atomic {token : Token} {written rest : List Char}
    (spelled : Spelled token written rest) (isValue : token.isValue = true) :
    Sexpr.Atomic written := by
  cases spelled with
  | word starts goesOn ends =>
      exact .word (.of_plain (List.cons_ne_nil _ _) (isPlain_of_wordChars starts goesOn))
  | int whole ends noFraction =>
      obtain ⟨nonempty, plain⟩ := isPlain_of_whole whole
      exact .word (.of_plain nonempty plain)
  | float whole nonempty allDigits ends =>
      obtain ⟨-, plain⟩ := isPlain_of_whole whole
      refine .word (.of_plain (by simp) (List.forall_mem_append.mpr ⟨plain, ?_⟩))
      refine List.forall_mem_cons.mpr ⟨by decide, fun c listed => ?_⟩
      exact isPlain_of_isDigit (allDigits c listed)
  | string each => exact .quoted each
  | longSign listed =>
      have signs : ∀ sign ∈ longSigns, sign.2.isValue = false := by decide
      simp [signs _ listed] at isValue
  | @shortSign c rest listed short noComment =>
      have signs : ∀ c ∈ shortSigns, (ofShortSign c).isValue = false :=
        List.all_iff_forall_prop.mp (by decide)
      simp [signs c listed] at isValue
  | @separator c rest listed =>
      have separators : ∀ c ∈ separators, (ofSeparator c).isValue = false :=
        List.all_iff_forall_prop.mp (by decide)
      simp [separators c listed] at isValue
  | @bracket c rest listed =>
      have brackets : ∀ c ∈ brackets, (ofBracket c).isValue = false :=
        List.all_iff_forall_prop.mp (by decide)
      simp [brackets c listed] at isValue
  | lineComment _ _ | blockComment _ => cases isValue

theorem Proper.atomic {token : Token} (proper : token.Proper) (isValue : token.isValue = true) :
    Sexpr.Atomic token.text.toList := by
  obtain ⟨rest, spelled⟩ := proper
  exact spelled.atomic isValue

end Token

namespace TypeRef

theorem word_path {path : List String} (nonempty : path ≠ [])
    (names : ∀ name ∈ path, (Token.ident name).Proper) :
    Sexpr.Word (".".intercalate path).toList := by
  have word : ∀ name ∈ path, Sexpr.Word name.toList := by
    intro name isName
    obtain ⟨first, others, shape, starts, goesOn, -⟩ := (names name isName).word
    rw [shape]
    exact .of_plain (List.cons_ne_nil _ _) (Token.isPlain_of_wordChars starts goesOn)
  rw [String.toList_intercalate]
  induction path with
  | nil => exact absurd rfl nonempty
  | cons name path ih =>
      obtain ⟨own, others⟩ := List.forall_mem_cons.mp word
      cases path with
      | nil => simpa [List.intercalate] using own
      | cons next path =>
          have behind := ih (List.cons_ne_nil _ _) (List.forall_mem_cons.mp names).2 others
          have dotted := own.append (.cons (c := '.') (by decide) behind)
          simpa [List.intercalate] using dotted

theorem word_restText {first : List Char} {others : List TypeRef} (word : Sexpr.Word first)
    (each : ∀ other ∈ others, Sexpr.Word other.text.toList) :
    Sexpr.Word (first ++ (restText others).toList) := by
  induction others generalizing first with
  | nil => simpa [restText] using word
  | cons other others ih =>
      obtain ⟨own, others⟩ := List.forall_mem_cons.mp each
      have whole := ih (word.append (.comma own)) others
      simpa [restText] using whole

namespace Legible

variable {type type' : TypeRef}

theorem args (legible : type.Legible) : ∀ arg ∈ type.args, arg.Legible := by
  obtain ⟨-, args_named⟩ := named_iff.mp legible.named
  have proper := legible.proper
  rw [tokens_eq] at proper
  intro arg isArg
  exact ⟨args_named arg isArg, fun token listed =>
    proper token (List.mem_append_right _ (mem_typeArgTokens isArg listed))⟩

theorem word (legible : type.Legible) : Sexpr.Word type.text.toList := by
  induction type using args_induction with
  | step type ih =>
      obtain ⟨nonempty, -⟩ := named_iff.mp legible.named
      have names : ∀ name ∈ type.path, (Token.ident name).Proper := by
        refine proper_of_pathTokens fun token listed => legible.proper token ?_
        rw [tokens_eq]
        exact List.mem_append_left _ listed
      have path := word_path nonempty names
      have args := fun arg isArg => ih arg isArg (legible.args arg isArg)
      obtain ⟨path, types, span⟩ := type
      cases types with
      | nil => simpa [TypeRef.text] using path
      | cons first others =>
          obtain ⟨own, behind⟩ := List.forall_mem_cons.mp args
          have opened := path.append (.cons (c := '<') (by decide) own)
          have closed := (word_restText opened behind).append (.single (c := '>') (by decide))
          simpa [TypeRef.text] using closed

/-- The text of a type is read back as the type. -/
theorem bare_eq_of_text (legible : type.Legible) (legible' : type'.Legible)
    (same : type.text = type'.text) : type.bare = type'.bare := by
  have scans := type.readAs legible.proper [] .nil
  rw [same] at scans
  have tokens := scans.unique (type'.readAs legible'.proper [] .nil)
  have ends : Grammar.EndsType [] := ⟨by simp, by simp⟩
  have read := Grammar.yields_type legible.named ends
  rw [tokens] at read
  obtain ⟨found, alike, alike'⟩ := read.agree (Grammar.yields_type legible'.named ends)
  exact alike.symm.trans alike'

/-- The name of a member and its type arguments are written like a type. -/
theorem member {name : String} {types : List TypeRef} (isName : (Token.ident name).Proper)
    (inTypes : ∀ type ∈ types, type.Legible) (span : Span) :
    (⟨[name], types, span⟩ : TypeRef).Legible := by
  have less : Spelled (.sign .less) ['<'] [] :=
    Token.spelled_tight (c := '<') (by decide) (by simp)
  have greater : Spelled (.sign .greater) ['>'] [] :=
    Token.spelled_tight (c := '>') (by decide) (by simp)
  have comma : Spelled .comma [','] [] := .separator (c := ',') (by decide)
  refine ⟨named_iff.mpr ⟨List.cons_ne_nil _ _, fun type isType => (inTypes type isType).named⟩, ?_⟩
  rw [tokens_eq]
  refine List.forall_mem_append.mpr ⟨by simpa [pathTokens, Token.listed] using isName, ?_⟩
  cases types with
  | nil => simp [typeArgTokens]
  | cons first others =>
      obtain ⟨own, behind⟩ := List.forall_mem_cons.mp inTypes
      refine List.forall_mem_cons.mpr ⟨less.proper rfl,
        List.forall_mem_append.mpr ⟨?_, by simpa using greater.proper rfl⟩⟩
      refine List.forall_mem_append.mpr ⟨own.proper, List.forall_mem_flatMap.mpr ?_⟩
      exact fun other isOther => List.forall_mem_cons.mpr ⟨comma.proper rfl,
        (behind other isOther).proper⟩

end Legible

end TypeRef

mutual

/-- A list that starts with a word for the kind of the node, or an atom where the node is
one token.  No two kinds share their first word and the number of their items. -/
def Expr.form : Expr → Sexpr
  | .literal _ value => .atom value.text
  | .ident _ name => .atom name
  | .member _ target name typeArgs =>
      .list [.atom "member", target.form, .atom (TypeRef.text ⟨[name], typeArgs, ⟨0, 0⟩⟩)]
  | .call _ callee args => .list [.atom "call", callee.form, .list (Expr.forms args)]
  | .index _ target position => .list [.atom "index", target.form, position.form]
  | .new _ type args => .list [.atom "new", .atom type.text, .list (Expr.forms args)]
  | .unary _ op operand => .list [.atom op.text, operand.form]
  | .binary _ op lhs rhs => .list [.atom op.text, lhs.form, rhs.form]
  | .assign _ lhs rhs => .list [.atom "assign", lhs.form, rhs.form]
  | .lambda _ param body => .list [.atom "lambda", .atom param, body.form]
  | .paren _ inner => .list [.atom "paren", inner.form]
  | .error _ => .list [.atom "error"]

def Expr.forms : List Expr → List Sexpr
  | [] => []
  | expr :: exprs => expr.form :: Expr.forms exprs

end

def Expr.formOption : Option Expr → Sexpr
  | none => .list []
  | some expr => expr.form

def Declarator.form (declarator : Declarator) : Sexpr :=
  .list [.atom declarator.name, Expr.formOption declarator.init]

def LocalDecl.form (decl : LocalDecl) : Sexpr :=
  .list (.atom "decl" :: .atom decl.type.text :: decl.declarators.map Declarator.form)

mutual

def Stmt.form : Stmt → Sexpr
  | .block _ stmts => .list (.atom "block" :: Stmt.forms stmts)
  | .decl _ declared => declared.form
  | .expr _ value => value.form
  | .ifThen _ cond body => .list [.atom "if", cond.form, body.form, .list []]
  | .ifElse _ cond body otherwise => .list [.atom "if", cond.form, body.form, otherwise.form]
  | .foreach _ type var _ seq body =>
      .list [.atom "foreach", .atom type.text, .atom var, seq.form, body.form]
  | .whileLoop _ cond body => .list [.atom "while", cond.form, body.form]
  | .continueLoop _ => .atom "continue"
  | .breakLoop _ => .atom "break"
  | .returnValue _ value => .list [.atom "return", Expr.formOption value]
  | .empty _ => .list [.atom "empty"]
  | .error _ => .list [.atom "error"]

def Stmt.forms : List Stmt → List Sexpr
  | [] => []
  | stmt :: stmts => stmt.form :: Stmt.forms stmts

end

theorem Expr.forms_eq (exprs : List Expr) : Expr.forms exprs = exprs.map Expr.form := by
  induction exprs with
  | nil => rw [Expr.forms]; rfl
  | cons expr exprs ih => rw [Expr.forms, ih]; rfl

theorem Stmt.forms_eq (stmts : List Stmt) : Stmt.forms stmts = stmts.map Stmt.form := by
  induction stmts with
  | nil => rw [Stmt.forms]; rfl
  | cons stmt stmts ih => rw [Stmt.forms, ih]; rfl

theorem Expr.joined_forms {exprs : List Expr} (each : ∀ expr ∈ exprs, expr.form.text = expr.sexpr) :
    Sexpr.joined (exprs.map Expr.form) = Expr.sexprs exprs := by
  induction exprs with
  | nil => rfl
  | cons first others ih =>
      obtain ⟨own, behind⟩ := List.forall_mem_cons.mp each
      rw [Expr.sexprs.eq_def]
      cases others with
      | nil => simpa [Sexpr.joined] using own
      | cons second others =>
          have following := ih behind
          rw [List.map_cons] at following
          simp only [List.map_cons, Sexpr.joined, own, following]

theorem Expr.text_form (expr : Expr) : expr.form.text = expr.sexpr := by
  induction expr using Expr.parts_induction with
  | step expr ih =>
      rw [← String.toList_inj, Expr.sexpr.eq_def]
      cases expr with
      | literal | ident => rfl
      | member span target name typeArgs =>
          have inTarget := ih target (by simp [Expr.parts])
          cases typeArgs <;>
            simp [Expr.form, Sexpr.text, Sexpr.joined, TypeRef.text, inTarget]
      | call span callee args =>
          obtain ⟨inCallee, inArgs⟩ := List.forall_mem_cons.mp ih
          simp [Expr.form, Sexpr.text, Sexpr.joined, Expr.forms_eq,
            Expr.joined_forms inArgs, inCallee]
      | new span type args =>
          have inArgs : ∀ arg ∈ args, arg.form.text = arg.sexpr := ih
          simp [Expr.form, Sexpr.text, Sexpr.joined, Expr.forms_eq,
            Expr.joined_forms inArgs]
      | _ =>
          simp only [Expr.parts, List.forall_mem_cons] at ih
          simp [Expr.form, Sexpr.text, Sexpr.joined, ih]

theorem Expr.text_formOption (found : Option Expr) :
    (Expr.formOption found).text = Expr.sexprOption found := by
  cases found with
  | none => rfl
  | some expr => exact expr.text_form

theorem Declarator.text_form (declarator : Declarator) :
    declarator.form.text = declarator.sexpr := by
  rw [← String.toList_inj]
  simp [Declarator.form, Declarator.sexpr, Sexpr.text, Sexpr.joined, Expr.text_formOption]

theorem Sexpr.joined_eq (items : List Sexpr) :
    (joined items).toList = [' '].intercalate (items.map fun item => item.text.toList) := by
  induction items with
  | nil => rfl
  | cons first others ih =>
      cases others with
      | nil => simp [joined, List.intercalate]
      | cons second others => simpa [joined, List.intercalate] using ih

theorem LocalDecl.text_form {decl : LocalDecl} (nonempty : decl.declarators ≠ []) :
    decl.form.text = decl.sexpr := by
  have inside : (Sexpr.joined (decl.declarators.map Declarator.form)).toList =
      (" ".intercalate (decl.declarators.map Declarator.sexpr)).toList := by
    rw [Sexpr.joined_eq, String.toList_intercalate]
    simp [Declarator.text_form, Function.comp_def]
  obtain ⟨first, others, shape⟩ := List.exists_cons_of_ne_nil nonempty
  rw [shape] at inside
  rw [← String.toList_inj]
  simp only [LocalDecl.form, LocalDecl.sexpr, shape, String.toList_append, ← inside]
  simp [Sexpr.text, Sexpr.joined]

theorem Stmt.behind_forms {stmts : List Stmt}
    (each : ∀ stmt ∈ stmts, stmt.form.text = stmt.sexpr) :
    Sexpr.behind (stmts.map Stmt.form) = (Stmt.sexprsBehind stmts).toList := by
  induction stmts with
  | nil => rfl
  | cons stmt stmts ih =>
      obtain ⟨own, others⟩ := List.forall_mem_cons.mp each
      have following := ih others
      rw [Stmt.sexprsBehind.eq_def]
      simp only [Sexpr.behind] at following
      simp [Sexpr.behind, own, following]

theorem Stmt.Legible.text_form {stmt : Stmt} (legible : stmt.Legible) :
    stmt.form.text = stmt.sexpr := by
  induction legible with
  | decl inDecl => exact LocalDecl.text_form inDecl.nonempty
  | expr inValue => exact Expr.text_form _
  | block inStmts ih =>
      rw [← String.toList_inj, Stmt.sexpr.eq_def, Stmt.form, Stmt.forms_eq, Sexpr.toList_list,
        Sexpr.toList_joined, Stmt.behind_forms ih]
      simp [Sexpr.text]
  | ifThen _ _ inBody | foreach _ _ _ _ inBody | whileLoop _ _ inBody =>
      rw [← String.toList_inj, Stmt.sexpr.eq_def]
      simp [Stmt.form, Sexpr.text, Sexpr.joined, Expr.text_form, inBody]
  | ifElse _ _ _ inBody inOtherwise =>
      rw [← String.toList_inj, Stmt.sexpr.eq_def]
      simp [Stmt.form, Sexpr.text, Sexpr.joined, Expr.text_form, inBody, inOtherwise]
  | returnValue _ =>
      rw [← String.toList_inj, Stmt.sexpr.eq_def]
      simp [Stmt.form, Sexpr.text, Sexpr.joined, Expr.text_formOption]
  | continueLoop | breakLoop | empty | error => rfl

/-- The first words of forms, those of operators apart. -/
def Sexpr.heads : List String :=
  ["member", "call", "index", "new", "assign", "lambda", "paren", "error", "block", "decl", "if",
    "foreach", "while", "return", "empty"]

theorem Sexpr.atomic_of_mem_heads {head : String} (listed : head ∈ heads) :
    Atomic head.toList := by
  have words : ∀ head ∈ heads, head.toList ≠ [] ∧ head.toList.all isPlain = true := by decide
  obtain ⟨nonempty, plain⟩ := words head listed
  exact .word (.of_plain nonempty (List.all_eq_true.mp plain))

theorem Sexpr.WellFormed.headed {head : String} {items : List Sexpr} (listed : head ∈ heads)
    (each : ∀ item ∈ items, item.WellFormed) : (Sexpr.list (.atom head :: items)).WellFormed :=
  .list (List.forall_mem_cons.mpr ⟨.atom (atomic_of_mem_heads listed), each⟩)

theorem UnaryOp.word_text (op : UnaryOp) : Sexpr.Word op.text.toList := by
  cases op <;> exact .of_plain (by decide) (List.all_eq_true.mp (by decide))

theorem BinaryOp.word_text (op : BinaryOp) : Sexpr.Word op.text.toList := by
  cases op <;> exact .of_plain (by decide) (List.all_eq_true.mp (by decide))

theorem Literal.token_isValue (value : Literal) :
    value.token.isValue = true ∧ value.token.isPlain = true := by
  cases value with
  | bool value => cases value <;> exact ⟨rfl, rfl⟩
  | _ => exact ⟨rfl, rfl⟩

theorem Expr.Legible.wellFormed {expr : Expr} (legible : expr.Legible) :
    expr.form.WellFormed := by
  have forms : ∀ {args : List Expr}, (∀ arg ∈ args, arg.form.WellFormed) →
      (Sexpr.list (Expr.forms args)).WellFormed := fun each => by
    rw [Expr.forms_eq]
    exact .list (List.forall_mem_map.mpr each)
  induction legible with
  | @literal span value proper =>
      obtain ⟨isValue, -⟩ := value.token_isValue
      have atomic := proper.atomic isValue
      rw [value.text_token] at atomic
      exact .atom atomic
  | ident isName => exact .atom (isName.atomic rfl)
  | member _ isName inTypes inTarget =>
      have named := (TypeRef.Legible.member isName inTypes ⟨0, 0⟩).word
      exact .headed (by decide) (by simpa using ⟨inTarget, .atom (.word named)⟩)
  | call _ _ inCallee inArgs =>
      exact .headed (by decide) (by simpa using ⟨inCallee, forms inArgs⟩)
  | index _ _ inTarget inPosition =>
      exact .headed (by decide) (by simpa using ⟨inTarget, inPosition⟩)
  | new inType _ inArgs =>
      exact .headed (by decide) (by simpa using ⟨.atom (.word inType.word), forms inArgs⟩)
  | @unary span op operand _ inOperand =>
      exact .list (by simpa using ⟨.atom (.word op.word_text), inOperand⟩)
  | @binary span op lhs rhs _ _ inLhs inRhs =>
      exact .list (by simpa using ⟨.atom (.word op.word_text), inLhs, inRhs⟩)
  | assign _ _ inLhs inRhs => exact .headed (by decide) (by simpa using ⟨inLhs, inRhs⟩)
  | lambda isName _ inBody =>
      exact .headed (by decide) (by simpa using ⟨.atom (isName.atomic rfl), inBody⟩)
  | paren _ inInner => exact .headed (by decide) (by simpa using inInner)
  | error => exact .headed (by decide) (by simp)

theorem Expr.wellFormed_formOption {found : Option Expr} (each : ∀ expr ∈ found, expr.Legible) :
    (Expr.formOption found).WellFormed := by
  cases found with
  | none => exact .list (by simp)
  | some expr => exact (each expr rfl).wellFormed

theorem LocalDecl.Legible.wellFormed {decl : LocalDecl} (legible : decl.Legible) :
    decl.form.WellFormed := by
  refine .headed (by decide) (List.forall_mem_cons.mpr ⟨.atom (.word legible.inType.word), ?_⟩)
  refine List.forall_mem_map.mpr fun declarator isDeclarator => .list ?_
  have own := legible.each declarator isDeclarator
  simpa using ⟨.atom (own.isName.atomic rfl), Expr.wellFormed_formOption own.inInit⟩

theorem Stmt.Legible.wellFormed {stmt : Stmt} (legible : stmt.Legible) :
    stmt.form.WellFormed := by
  have keyword : ∀ word : Keyword, (Sexpr.atom word.text).WellFormed := fun word =>
    .atom ((Token.proper_keyword word).atomic rfl)
  induction legible with
  | block _ inStmts =>
      rw [Stmt.form, Stmt.forms_eq]
      exact .headed (by decide) (List.forall_mem_map.mpr inStmts)
  | decl inDecl => exact inDecl.wellFormed
  | expr inValue => exact inValue.wellFormed
  | ifThen inCond _ inBody =>
      have missing : (Sexpr.list []).WellFormed := .list (by simp)
      exact .headed (by decide) (by simpa using ⟨inCond.wellFormed, inBody, missing⟩)
  | ifElse inCond _ _ inBody inOtherwise =>
      exact .headed (by decide) (by simpa using ⟨inCond.wellFormed, inBody, inOtherwise⟩)
  | foreach inType isName inSeq _ inBody =>
      exact .headed (by decide) (by simpa using
        ⟨.atom (.word inType.word), .atom (isName.atomic rfl), inSeq.wellFormed, inBody⟩)
  | whileLoop inCond _ inBody =>
      exact .headed (by decide) (by simpa using ⟨inCond.wellFormed, inBody⟩)
  | continueLoop => exact keyword .continueWord
  | breakLoop => exact keyword .breakWord
  | returnValue inValue =>
      exact .headed (by decide) (by simpa using Expr.wellFormed_formOption inValue)
  | empty | error => exact .headed (by decide) (by simp)

end QueryLoop
