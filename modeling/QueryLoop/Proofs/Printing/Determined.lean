import QueryLoop.Proofs.Fixing.Errors
import QueryLoop.Proofs.Printing.Forms

namespace QueryLoop

open Parsing Sexpr

theorem map_eq_of_map_eq {α β γ : Type} {view : α → β} {view' : α → γ} {front back : List α}
    (each : ∀ first ∈ front, ∀ second ∈ back, view first = view second →
      view' first = view' second)
    (same : front.map view = back.map view) : front.map view' = back.map view' := by
  induction front generalizing back with
  | nil =>
      obtain rfl := List.map_eq_nil_iff.mp same.symm
      rfl
  | cons first front ih =>
      obtain ⟨second, back, rfl, alike, others⟩ := List.map_eq_cons_iff.mp same.symm
      have own := each first List.mem_cons_self second List.mem_cons_self alike.symm
      have behind := ih (fun left isLeft right isRight => each left
        (List.mem_cons_of_mem _ isLeft) right (List.mem_cons_of_mem _ isRight)) others.symm
      rw [List.map_cons, List.map_cons, own, behind]

theorem UnaryOp.eq_of_text {op op' : UnaryOp} (same : op.text = op'.text) : op = op' := by
  revert same
  cases op <;> cases op' <;> decide

theorem BinaryOp.eq_of_text {op op' : BinaryOp} (same : op.text = op'.text) : op = op' := by
  revert same
  cases op <;> cases op' <;> decide

theorem UnaryOp.text_ne_head {op : UnaryOp} {head : String} (listed : head ∈ heads) :
    op.text ≠ head ∧ head ≠ op.text := by
  suffices different : op.text ≠ head from ⟨different, different.symm⟩
  rintro rfl
  revert listed
  cases op <;> decide

theorem BinaryOp.text_ne_head {op : BinaryOp} {head : String} (listed : head ∈ heads) :
    op.text ≠ head ∧ head ≠ op.text := by
  suffices different : op.text ≠ head from ⟨different, different.symm⟩
  rintro rfl
  revert listed
  cases op <;> decide

/-- A token with the text of a literal is read as that literal. -/
theorem Literal.literalOf?_eq_of_text {value : Literal} {token : Token}
    (proper : value.token.Proper) (proper' : token.Proper) (plain : token.isPlain = true)
    (same : value.text = token.text) : Grammar.literalOf? token = some value := by
  rw [← value.text_token] at same
  rw [← proper.eq_of_text proper' value.token_isValue.2 plain same]
  exact Grammar.literalOf?_token value

theorem Literal.eq_of_text {value value' : Literal} (proper : value.token.Proper)
    (proper' : value'.token.Proper) (same : value.text = value'.text) : value = value' := by
  rw [← value'.text_token] at same
  have read := literalOf?_eq_of_text proper proper' value'.token_isValue.2 same
  rw [Grammar.literalOf?_token value'] at read
  exact (Option.some.inj read).symm

/-- No literal is written like a name. -/
theorem Literal.text_ne_name {value : Literal} {name : String} (proper : value.token.Proper)
    (isName : (Token.ident name).Proper) : value.text ≠ name :=
  fun same => nomatch literalOf?_eq_of_text proper isName rfl same

theorem Keyword.text_ne_name {word : Keyword} {name : String} (isName : (Token.ident name).Proper) :
    word.text ≠ name :=
  fun same => nomatch (Token.proper_keyword word).eq_of_text isName rfl rfl same

theorem TypeRef.Legible.member_eq_of_text {name name' : String} {types types' : List TypeRef}
    (isName : (Token.ident name).Proper) (isName' : (Token.ident name').Proper)
    (inTypes : ∀ type ∈ types, type.Legible) (inTypes' : ∀ type ∈ types', type.Legible)
    (same : TypeRef.text ⟨[name], types, ⟨0, 0⟩⟩ = TypeRef.text ⟨[name'], types', ⟨0, 0⟩⟩) :
    name = name' ∧ types.map TypeRef.bare = types'.map TypeRef.bare := by
  have alike := bare_eq_of_text (.member isName inTypes _) (.member isName' inTypes' _) same
  simpa [TypeRef.bare, TypeRef.bareAll_eq] using alike

namespace Expr

/-- The expression without spans and without its parts. -/
def label : Expr → Expr
  | member _ _ name typeArgs => .member ⟨0, 0⟩ (.error ⟨0, 0⟩) name (typeArgs.map TypeRef.bare)
  | call .. => .call ⟨0, 0⟩ (.error ⟨0, 0⟩) []
  | index .. => .index ⟨0, 0⟩ (.error ⟨0, 0⟩) (.error ⟨0, 0⟩)
  | new _ type _ => .new ⟨0, 0⟩ type.bare []
  | unary _ op _ => .unary ⟨0, 0⟩ op (.error ⟨0, 0⟩)
  | binary _ op _ _ => .binary ⟨0, 0⟩ op (.error ⟨0, 0⟩) (.error ⟨0, 0⟩)
  | assign .. => .assign ⟨0, 0⟩ (.error ⟨0, 0⟩) (.error ⟨0, 0⟩)
  | lambda _ param _ => .lambda ⟨0, 0⟩ param (.error ⟨0, 0⟩)
  | paren .. => .paren ⟨0, 0⟩ (.error ⟨0, 0⟩)
  | expr => expr.bare

/-- The expression with other parts. -/
def withParts : Expr → List Expr → Expr
  | member span _ name typeArgs, [target] => .member span target name typeArgs
  | call span _ _, callee :: args => .call span callee args
  | index span _ _, [target, position] => .index span target position
  | new span type _, args => .new span type args
  | unary span op _, [operand] => .unary span op operand
  | binary span op _ _, [lhs, rhs] => .binary span op lhs rhs
  | assign span _ _, [lhs, rhs] => .assign span lhs rhs
  | lambda span param _, [body] => .lambda span param body
  | paren span _, [inner] => .paren span inner
  | expr, _ => expr

theorem bare_eq_withParts (expr : Expr) :
    expr.bare = expr.label.withParts (expr.parts.map bare) := by
  cases expr <;> simp [bare, label, withParts, parts, bareAll_eq]

variable {expr expr' : Expr}

/-- The form of an expression shows which label it has and the forms of its parts. -/
theorem Legible.label_eq_of_form (legible : expr.Legible) (legible' : expr'.Legible)
    (same : expr.form = expr'.form) :
    expr.label = expr'.label ∧ expr.parts.map form = expr'.parts.map form := by
  cases legible with
  | literal proper =>
      cases legible' with
      | literal proper' =>
          rw [Literal.eq_of_text proper proper' (Sexpr.atom.inj same)]
          exact ⟨rfl, rfl⟩
      | ident isName' => exact absurd (Sexpr.atom.inj same) (Literal.text_ne_name proper isName')
      | _ => simp [form] at same
  | ident isName =>
      cases legible' with
      | literal proper' =>
          exact absurd (Sexpr.atom.inj same).symm (Literal.text_ne_name proper' isName)
      | ident isName' =>
          rw [Sexpr.atom.inj same]
          exact ⟨rfl, rfl⟩
      | _ => simp [form] at same
  | member _ isName inTypes =>
      cases legible' with
      | member _ isName' inTypes' =>
          simp only [form, list.injEq, List.cons.injEq, atom.injEq, and_true, true_and] at same
          obtain ⟨rfl, sameTypes⟩ :=
            TypeRef.Legible.member_eq_of_text isName isName' inTypes inTypes' same.2
          simp [label, Expr.parts, sameTypes, same.1]
      | _ => simp (disch := decide) [form, BinaryOp.text_ne_head] at same
  | new inType _ =>
      cases legible' with
      | new inType' _ =>
          simp only [form, forms_eq, list.injEq, List.cons.injEq, atom.injEq, and_true,
            true_and] at same
          exact ⟨congrArg (Expr.new ⟨0, 0⟩ · []) (inType.bare_eq_of_text inType' same.1), same.2⟩
      | _ => simp (disch := decide) [form, BinaryOp.text_ne_head] at same
  | unary _ =>
      cases legible' with
      | unary _ =>
          simp only [form, list.injEq, List.cons.injEq, atom.injEq, and_true] at same
          simp [label, Expr.parts, UnaryOp.eq_of_text same.1, same.2]
      | _ => simp (disch := decide) [form, UnaryOp.text_ne_head] at same
  | binary _ _ =>
      cases legible' with
      | binary _ _ =>
          simp only [form, list.injEq, List.cons.injEq, atom.injEq, and_true] at same
          simp [label, Expr.parts, BinaryOp.eq_of_text same.1, same.2]
      | _ => simp (disch := decide) [form, BinaryOp.text_ne_head] at same
  | call | index | assign | lambda | paren | error =>
      -- the first word is the kind of the node, and no operator is written like it
      cases legible' <;>
        simp (disch := decide) [form, forms_eq, label, Expr.parts, bare, UnaryOp.text_ne_head,
          BinaryOp.text_ne_head] at same ⊢ <;>
        exact same

theorem Legible.bare_eq_of_form (legible : expr.Legible) (legible' : expr'.Legible)
    (same : expr.form = expr'.form) : expr.bare = expr'.bare := by
  induction expr using parts_induction generalizing expr' with
  | step expr ih =>
      obtain ⟨sameLabel, sameParts⟩ := legible.label_eq_of_form legible' same
      have inside := map_eq_of_map_eq (fun part isPart part' isPart' =>
        ih part isPart (legible.parts part isPart) (legible'.parts part' isPart')) sameParts
      rw [bare_eq_withParts, bare_eq_withParts expr', sameLabel, inside]

end Expr

/-- What starts a statement starts no expression. -/
theorem Expr.form_ne_list {expr : Expr} {head : String} {items : List Sexpr}
    (listed : head ∈ ["block", "decl", "if", "foreach", "while", "return", "empty"]) :
    expr.form ≠ .list (.atom head :: items) ∧ .list (.atom head :: items) ≠ expr.form := by
  suffices different : expr.form ≠ .list (.atom head :: items) from ⟨different, different.symm⟩
  have apart : ∀ head ∈ ["block", "decl", "if", "foreach", "while", "return", "empty"],
      head ∈ heads ∧
        head ∉ ["member", "call", "index", "new", "assign", "lambda", "paren", "error"] := by
    decide
  obtain ⟨isHead, different⟩ := apart head listed
  intro same
  cases expr with
  | literal | ident => simp [form] at same
  | unary span op operand =>
      simp only [form, list.injEq, List.cons.injEq, atom.injEq] at same
      exact (UnaryOp.text_ne_head isHead).1 same.1
  | binary span op lhs rhs =>
      simp only [form, list.injEq, List.cons.injEq, atom.injEq] at same
      exact (BinaryOp.text_ne_head isHead).1 same.1
  | _ =>
      simp only [form, list.injEq, List.cons.injEq, atom.injEq] at same
      obtain ⟨rfl, -⟩ := same
      simp at different

theorem Expr.form_ne_nil (expr : Expr) : expr.form ≠ .list [] := by
  cases expr <;> simp [form]

theorem Expr.Legible.form_ne_keyword {expr : Expr} (legible : expr.Legible) (word : Keyword)
    (listed : word ∈ [Keyword.continueWord, .breakWord]) : expr.form ≠ .atom word.text := by
  have noLiteral : ∀ word ∈ [Keyword.continueWord, .breakWord],
      Grammar.literalOf? (.keyword word) = none := by decide
  intro same
  cases legible with
  | ident isName => exact Keyword.text_ne_name isName (Sexpr.atom.inj same).symm
  | literal proper =>
      have read := Literal.literalOf?_eq_of_text proper (Token.proper_keyword word) rfl
        (Sexpr.atom.inj same)
      rw [noLiteral word listed] at read
      cases read
  | _ => simp [form] at same

theorem Expr.bareOption_eq_of_form {found found' : Option Expr}
    (legible : ∀ expr ∈ found, expr.Legible) (legible' : ∀ expr ∈ found', expr.Legible)
    (same : formOption found = formOption found') : found.map Expr.bare = found'.map Expr.bare := by
  cases found with
  | none =>
      cases found' with
      | none => rfl
      | some expr' => exact absurd same.symm expr'.form_ne_nil
  | some expr =>
      cases found' with
      | none => exact absurd same expr.form_ne_nil
      | some expr' =>
          have alike := (legible expr rfl).bare_eq_of_form (legible' expr' rfl) same
          rw [Option.map_some, Option.map_some, alike]

theorem Declarator.Legible.bare_eq_of_form {declarator declarator' : Declarator}
    (legible : declarator.Legible) (legible' : declarator'.Legible)
    (same : declarator.form = declarator'.form) : declarator.bare = declarator'.bare := by
  simp only [Declarator.form, list.injEq, List.cons.injEq, atom.injEq, and_true] at same
  obtain ⟨sameName, sameInit⟩ := same
  rw [Declarator.bare, Declarator.bare, sameName,
    Expr.bareOption_eq_of_form legible.inInit legible'.inInit sameInit]

theorem LocalDecl.Legible.bare_eq_of_form {decl decl' : LocalDecl} (legible : decl.Legible)
    (legible' : decl'.Legible) (same : decl.form = decl'.form) : decl.bare = decl'.bare := by
  simp only [LocalDecl.form, list.injEq, List.cons.injEq, atom.injEq, true_and] at same
  obtain ⟨sameType, sameDeclarators⟩ := same
  rw [LocalDecl.bare, LocalDecl.bare, legible.inType.bare_eq_of_text legible'.inType sameType,
    map_eq_of_map_eq (fun own isOwn own' isOwn' =>
      (legible.each own isOwn).bare_eq_of_form (legible'.each own' isOwn')) sameDeclarators]

/-- A missing branch is written as no statement is. -/
theorem Stmt.form_ne_nil (stmt : Stmt) : stmt.form ≠ .list [] ∧ .list [] ≠ stmt.form := by
  suffices different : stmt.form ≠ .list [] from ⟨different, different.symm⟩
  cases stmt with
  | expr span value => exact value.form_ne_nil
  | _ => simp [form, LocalDecl.form]

namespace Stmt

/-- The statement without spans and without the statements directly inside. -/
def label : Stmt → Stmt
  | block .. => .block ⟨0, 0⟩ []
  | ifThen _ cond _ => .ifThen ⟨0, 0⟩ cond.bare (.empty ⟨0, 0⟩)
  | ifElse _ cond _ _ => .ifElse ⟨0, 0⟩ cond.bare (.empty ⟨0, 0⟩) (.empty ⟨0, 0⟩)
  | foreach _ type var _ seq _ => .foreach ⟨0, 0⟩ type.bare var ⟨0, 0⟩ seq.bare (.empty ⟨0, 0⟩)
  | whileLoop _ cond _ => .whileLoop ⟨0, 0⟩ cond.bare (.empty ⟨0, 0⟩)
  | stmt => stmt.bare

/-- The statement with other statements directly inside. -/
def withChildren : Stmt → List Stmt → Stmt
  | block span _, stmts => .block span stmts
  | ifThen span cond _, [body] => .ifThen span cond body
  | ifElse span cond _ _, [body, otherwise] => .ifElse span cond body otherwise
  | foreach span type var varSpan seq _, [body] => .foreach span type var varSpan seq body
  | whileLoop span cond _, [body] => .whileLoop span cond body
  | stmt, _ => stmt

theorem bare_eq_withChildren (stmt : Stmt) :
    stmt.bare = stmt.label.withChildren (stmt.children.map bare) := by
  cases stmt <;> simp [bare, label, withChildren, children, bareAll_eq]

variable {stmt stmt' : Stmt}

/-- The form of a statement shows which label it has and the forms of what is inside.
Only an error is written like an expression. -/
theorem Legible.label_eq_of_form (legible : stmt.Legible) (legible' : stmt'.Legible)
    (readable : (Node.stmt stmt).isError = false) (readable' : (Node.stmt stmt').isError = false)
    (same : stmt.form = stmt'.form) :
    stmt.label = stmt'.label ∧ stmt.children.map form = stmt'.children.map form := by
  cases legible with
  | decl inDecl =>
      cases legible' with
      | decl inDecl' =>
          exact ⟨congrArg (Stmt.decl ⟨0, 0⟩) (inDecl.bare_eq_of_form inDecl' same), rfl⟩
      | _ => simp (disch := decide) [form, LocalDecl.form, Expr.form_ne_list] at same
  | expr inValue =>
      cases legible' with
      | expr inValue' =>
          exact ⟨congrArg (Stmt.expr ⟨0, 0⟩) (inValue.bare_eq_of_form inValue' same), rfl⟩
      | continueLoop => exact absurd same (inValue.form_ne_keyword .continueWord (by decide))
      | breakLoop => exact absurd same (inValue.form_ne_keyword .breakWord (by decide))
      | error => cases readable'
      | _ => simp (disch := decide) [form, LocalDecl.form, Expr.form_ne_list] at same
  | ifThen inCond _ =>
      cases legible' with
      | ifThen inCond' _ =>
          simp only [form, list.injEq, List.cons.injEq, and_true, true_and] at same
          simp [label, Stmt.children, inCond.bare_eq_of_form inCond' same.1, same.2]
      | _ => simp (disch := decide) [form, LocalDecl.form, Expr.form_ne_list, form_ne_nil] at same
  | ifElse inCond _ _ =>
      cases legible' with
      | ifElse inCond' _ _ =>
          simp only [form, list.injEq, List.cons.injEq, and_true, true_and] at same
          simp [label, Stmt.children, inCond.bare_eq_of_form inCond' same.1, same.2]
      | _ => simp (disch := decide) [form, LocalDecl.form, Expr.form_ne_list, form_ne_nil] at same
  | foreach inType _ inSeq _ =>
      cases legible' with
      | foreach inType' _ inSeq' _ =>
          simp only [form, list.injEq, List.cons.injEq, atom.injEq, and_true, true_and] at same
          obtain ⟨sameType, sameVar, sameSeq, sameBody⟩ := same
          simp [label, Stmt.children, inType.bare_eq_of_text inType' sameType, sameVar,
            inSeq.bare_eq_of_form inSeq' sameSeq, sameBody]
      | _ => simp (disch := decide) [form, LocalDecl.form, Expr.form_ne_list] at same
  | whileLoop inCond _ =>
      cases legible' with
      | whileLoop inCond' _ =>
          simp only [form, list.injEq, List.cons.injEq, and_true, true_and] at same
          simp [label, Stmt.children, inCond.bare_eq_of_form inCond' same.1, same.2]
      | _ => simp (disch := decide) [form, LocalDecl.form, Expr.form_ne_list] at same
  | returnValue inValue =>
      cases legible' with
      | returnValue inValue' =>
          simp only [form, list.injEq, List.cons.injEq, and_true, true_and] at same
          simp [label, Stmt.children, bare, Expr.bareOption_eq_of_form inValue inValue' same]
      | _ => simp (disch := decide) [form, LocalDecl.form, Expr.form_ne_list] at same
  | continueLoop =>
      cases legible' with
      | continueLoop => exact ⟨rfl, rfl⟩
      | expr inValue' => exact absurd same.symm (inValue'.form_ne_keyword .continueWord (by decide))
      | _ => simp [form, LocalDecl.form] at same
  | breakLoop =>
      cases legible' with
      | breakLoop => exact ⟨rfl, rfl⟩
      | expr inValue' => exact absurd same.symm (inValue'.form_ne_keyword .breakWord (by decide))
      | _ => simp [form, LocalDecl.form] at same
  | block | empty =>
      cases legible' <;>
        simp (disch := decide) [form, forms_eq, LocalDecl.form, Expr.form_ne_list, label,
          Stmt.children, bare] at same ⊢ <;>
        exact same
  | error => cases readable

theorem Legible.bare_eq_of_form (legible : stmt.Legible) (legible' : stmt'.Legible)
    (readable : stmt.Readable) (readable' : stmt'.Readable) (same : stmt.form = stmt'.form) :
    stmt.bare = stmt'.bare := by
  induction stmt using children_induction generalizing stmt' with
  | step stmt ih =>
      obtain ⟨own, -, children⟩ := readable_iff.mp readable
      obtain ⟨own', -, children'⟩ := readable_iff.mp readable'
      obtain ⟨sameLabel, sameChildren⟩ := legible.label_eq_of_form legible' own own' same
      have inside := map_eq_of_map_eq (fun child isChild child' isChild' =>
        ih child isChild (legible.children child isChild) (legible'.children child' isChild')
          (children child isChild) (children' child' isChild')) sameChildren
      rw [bare_eq_withChildren, bare_eq_withChildren stmt', sameLabel, inside]

end Stmt

namespace Stmt

/-- Two statements of any two trees that were read, with no error inside, are the same but
for their spans if they are written alike as one line of parentheses. -/
theorem bare_eq_of_sexpr {source source' : String} {stmt stmt' : Stmt}
    (inside : stmt ∈ (SourceTree.parse source).1.statements)
    (inside' : stmt' ∈ (SourceTree.parse source').1.statements)
    (clean : stmt.hasError = false) (clean' : stmt'.hasError = false)
    (same : stmt.sexpr = stmt'.sexpr) : stmt.bare = stmt'.bare := by
  have legible := SourceTree.legible_of_parse inside
  have legible' := SourceTree.legible_of_parse inside'
  rw [← legible.text_form, ← legible'.text_form] at same
  have form := legible.wellFormed.eq_of_text legible'.wellFormed same
  exact legible.bare_eq_of_form legible' (readable_of_hasError clean) (readable_of_hasError clean')
    form

/-- The layout, and a semicolon that is missing, are in no line. -/
theorem bare_eq_of_sexpr_relaid :
    let source := "Map<A, B> x = f(\"a (b\"), y;"
    let source' := "Map< A,B >  x = f( \"a (b\" ),\n  y"
    let line := "(decl Map<A, B> (x (call f (\"a (b\"))) (y ()))"
    ∃ stmt ∈ (SourceTree.parse source).1.statements,
      ∃ stmt' ∈ (SourceTree.parse source').1.statements,
        (stmt.hasError = false ∧ stmt'.hasError = false) ∧
          (stmt.sexpr = line ∧ stmt'.sexpr = line) ∧ stmt.span ≠ stmt'.span ∧
            stmt.bare = stmt'.bare := by
  intro source source' line
  let view : Stmt → Bool × String × Span := fun stmt => (stmt.hasError, stmt.sexpr, stmt.span)
  have first : (SourceTree.parse source).1.statements.head?.map view =
      some (false, line, ⟨0, 27⟩) := by decide +kernel
  have first' : (SourceTree.parse source').1.statements.head?.map view =
      some (false, line, ⟨0, 32⟩) := by decide +kernel
  obtain ⟨stmt, isFirst, shape⟩ := Option.map_eq_some_iff.mp first
  obtain ⟨stmt', isFirst', shape'⟩ := Option.map_eq_some_iff.mp first'
  simp only [view, Prod.mk.injEq] at shape shape'
  obtain ⟨clean, written, place⟩ := shape
  obtain ⟨clean', written', place'⟩ := shape'
  have inside := List.mem_of_head? isFirst
  have inside' := List.mem_of_head? isFirst'
  refine ⟨stmt, inside, stmt', inside', ⟨clean, clean'⟩, ⟨written, written'⟩, ?_, ?_⟩
  · rw [place, place']
    decide
  · exact bare_eq_of_sexpr inside inside' clean clean' (written.trans written'.symm)

end Stmt

end QueryLoop
