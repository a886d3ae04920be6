import QueryLoop.Proofs.Place.Nodes
import QueryLoop.Proofs.Spelling.Derived
import QueryLoop.Proofs.Spelling.Trees

namespace QueryLoop

namespace Expr

/-- What the grammar reads before it looks for operators. -/
def isAtom : Expr → Bool
  | literal .. | lambda .. | new .. | ident .. | paren .. => true
  | _ => false

def isPostfix : Expr → Bool
  | member .. | call .. | index .. => true
  | _ => false

def isUnary : Expr → Bool
  | unary .. => true
  | _ => false

def isAssign : Expr → Bool
  | assign .. => true
  | _ => false

/-- How tightly an expression holds together, with no difference between all that
binds tighter than the binary operators. -/
def precedence : Expr → Nat
  | assign .. => 0
  | binary _ op _ _ => op.level.rank
  | _ => 7

/-- A lambda ends where the expression ends, so what follows would be read as more of
its body. -/
def endsInLambda : Expr → Bool
  | lambda .. => true
  | unary _ _ inner => inner.endsInLambda
  | binary _ _ _ rhs => rhs.endsInLambda
  | assign _ _ rhs => rhs.endsInLambda
  | _ => false

/-- The expressions directly inside an expression, but for the one that it calls. -/
def uncalled : Expr → List Expr
  | call _ _ args => args
  | expr => expr.parts

/-- The operands of the expression stand where the grammar puts them. -/
def Grouped : Expr → Prop
  | member _ target _ _ | call _ target _ | index _ target _ =>
      (target.isPostfix ∨ target.isAtom) ∧ ¬target.isLambda
  | unary _ _ inner => inner.isUnary ∨ inner.isPostfix ∨ inner.isAtom
  | binary _ op lhs rhs =>
      op.level.rank ≤ lhs.precedence ∧ op.level.rank < rhs.precedence ∧ ¬lhs.endsInLambda
  | assign _ lhs _ => ¬lhs.isAssign ∧ ¬lhs.endsInLambda
  | literal .. | ident .. | new .. | lambda .. | paren .. | error .. => True

end Expr

/-- The expressions directly inside a node, but for the one that it calls. -/
def Node.uncalled : Node → List Expr
  | item found => found.exprs
  | stmt found => found.exprs
  | expr found => found.uncalled

/-- What the grammar promises of every node that it reads without a problem. -/
structure Node.Canonical (node : Node) : Prop where
  readable : ¬node.isError
  grouped : ∀ expr, node = .expr expr → expr.Grouped
  /-- Only a member that is called has type arguments. -/
  notGeneric : ∀ expr ∈ node.uncalled, ¬expr.isGeneric
  /-- An `else` belongs to the last `if` before it. -/
  settled : ∀ span cond body otherwise,
    node = .stmt (.ifElse span cond body otherwise) → ¬body.endsInIf

namespace Expr

theorem precedence_eq (expr : Expr) : expr.precedence = min expr.rank 7 := by
  cases expr with
  | binary span op lhs rhs => cases op <;> rfl
  | _ => rfl

theorem level_rank_lt (op : BinaryOp) : op.level.rank < 7 := by
  cases op <;> decide

/-- The expression fits where no parenthesis follows that would call it. -/
def Uncalled (expr : Expr) : Prop :=
  ∃ rest, expr.Fits rest ∧ rest.head? ≠ some .parenOpen

/-- The expression fits somewhere, and only one that can be called is called. -/
def Placed (expr : Expr) : Prop :=
  ∃ rest, expr.Fits rest ∧ (rest.head? = some .parenOpen → 8 ≤ expr.rank)

variable {expr : Expr} {rest : List Token}

theorem Uncalled.placed : expr.Uncalled → expr.Placed := by
  rintro ⟨rest, fits, plain⟩
  exact ⟨rest, fits, fun isOpen => absurd isOpen plain⟩

theorem Uncalled.not_isGeneric (uncalled : expr.Uncalled) : ¬expr.isGeneric := by
  obtain ⟨rest, fits, plain⟩ := uncalled
  rw [isGeneric.eq_def]
  split
  · exact absurd (fits.2.2.2.2 (List.cons_ne_nil _ _)) plain
  · exact Bool.false_ne_true

theorem AllFit.uncalled {args : List Expr} (fit : AllFit args (.parenClose :: rest)) :
    ∀ arg ∈ args, arg.Uncalled := by
  intro arg listed
  obtain ⟨before, behind, rfl⟩ := List.append_of_mem listed
  refine ⟨_, Expr.allFit_append fit, ?_⟩
  cases behind <;> simp [moreTokens]

/-- A lambda takes all that follows as long as it can. -/
theorem Fits.stops_of_endsInLambda (ends : expr.endsInLambda) (fits : expr.Fits rest) :
    Stops 0 rest := by
  induction expr using parts_induction with
  | step expr ih =>
      cases expr with
      | lambda span param body => exact fits.1
      | unary span op inner => exact ih inner (by simp [parts]) ends fits.2
      | binary span op lhs rhs => exact ih rhs (by simp [parts]) ends fits.2.2.2
      | assign span lhs rhs => exact ih rhs (by simp [parts]) ends fits.2.2
      | _ => exact absurd ends Bool.false_ne_true

theorem Fits.not_endsInLambda {token : Token} (fits : expr.Fits (token :: rest))
    (strong : 0 < token.strength) : ¬expr.endsInLambda := by
  intro ends
  have weak := stops_cons.mp (fits.stops_of_endsInLambda ends)
  omega

theorem Fits.postfix_or_atom (fits : expr.Fits rest) (tight : 8 ≤ expr.rank) :
    expr.isPostfix ∨ expr.isAtom := by
  cases expr with
  | binary span op lhs rhs =>
      have loose := level_rank_lt op
      rw [rank] at tight
      omega
  | unary | assign => simp [rank] at tight
  | error => exact fits.elim
  | _ => simp [isPostfix, isAtom]

theorem Fits.unary_or_postfix_or_atom (fits : expr.Fits rest) (tight : 7 ≤ expr.rank) :
    expr.isUnary ∨ expr.isPostfix ∨ expr.isAtom := by
  by_cases unary : expr.isUnary
  · exact .inl unary
  · refine .inr (fits.postfix_or_atom ?_)
    cases expr with
    | binary span op lhs rhs =>
        have loose := level_rank_lt op
        rw [rank] at tight
        omega
    | unary => exact absurd rfl unary
    | assign => simp [rank] at tight
    | _ => simp [rank]

/-- The target of a member, a call or an index fits before the token that goes on with
it. -/
theorem Fits.continued {token : Token} (fits : expr.Fits (token :: rest)) (tight : 8 ≤ expr.rank)
    (strong : 0 < token.strength) : (expr.isPostfix ∨ expr.isAtom) ∧ ¬expr.isLambda :=
  ⟨fits.postfix_or_atom tight, by simp [fits.not_isLambda strong]⟩

theorem Fits.grouped (fits : expr.Fits rest) : expr.Grouped := by
  cases expr with
  | member span target name typeArgs => exact fits.2.1.continued fits.1 (by decide)
  | call span callee args =>
      obtain ⟨tight, calleeFits, -⟩ := fits
      rw [argTokens_eq] at calleeFits
      exact calleeFits.continued tight (by decide)
  | index span target position => exact fits.2.1.continued fits.1 (by decide)
  | unary span op inner => exact fits.2.unary_or_postfix_or_atom fits.1
  | binary span op lhs rhs =>
      obtain ⟨leftTight, rightTight, leftFits, -⟩ := fits
      have loose := level_rank_lt op
      refine ⟨?_, ?_, leftFits.not_endsInLambda ?_⟩
      · rw [precedence_eq]
        omega
      · rw [precedence_eq]
        omega
      · rw [Token.strength_binary]
        omega
  | assign span lhs rhs =>
      obtain ⟨leftTight, leftFits, -⟩ := fits
      refine ⟨?_, leftFits.not_endsInLambda (by decide)⟩
      cases lhs <;> simp [isAssign, rank] at leftTight ⊢
  | _ => trivial

/-- No parenthesis behind an expression calls one of its operands but through the
expression. -/
theorem Placed.uncalled (placed : expr.Placed) : ∀ part ∈ expr.uncalled, part.Uncalled := by
  obtain ⟨rest, fits, called⟩ := placed
  cases expr with
  | member span target name typeArgs =>
      exact List.forall_mem_singleton.mpr ⟨_, fits.2.1, by simp⟩
  | call span callee args => exact fits.2.2.uncalled
  | index span target position =>
      refine List.forall_mem_cons.mpr ⟨⟨_, fits.2.1, by simp⟩, ?_⟩
      exact List.forall_mem_singleton.mpr ⟨_, fits.2.2, by simp⟩
  | new span type args => exact fits.2.uncalled
  | unary span op inner =>
      refine List.forall_mem_singleton.mpr ⟨rest, fits.2, fun isOpen => ?_⟩
      have tight := called isOpen
      simp [rank] at tight
  | binary span op lhs rhs =>
      refine List.forall_mem_cons.mpr ⟨⟨_, fits.2.2.1, by simp⟩, ?_⟩
      refine List.forall_mem_singleton.mpr ⟨rest, fits.2.2.2, fun isOpen => ?_⟩
      have tight := called isOpen
      have loose := level_rank_lt op
      rw [rank] at tight
      omega
  | assign span lhs rhs =>
      refine List.forall_mem_cons.mpr ⟨⟨_, fits.2.1, by simp⟩, ?_⟩
      refine List.forall_mem_singleton.mpr ⟨rest, fits.2.2, fun isOpen => ?_⟩
      have tight := called isOpen
      simp [rank] at tight
  | lambda span param body =>
      refine List.forall_mem_singleton.mpr ⟨rest, fits.2, fun isOpen => ?_⟩
      have weak := fits.1 .parenOpen isOpen
      simp [Token.strength] at weak
  | paren span inner => exact List.forall_mem_singleton.mpr ⟨_, fits, by simp⟩
  | literal | ident | error => exact List.forall_mem_nil _

theorem Placed.parts (placed : expr.Placed) : ∀ part ∈ expr.parts, part.Placed := by
  cases expr with
  | call span callee args =>
      obtain ⟨rest, fits, -⟩ := id placed
      refine List.forall_mem_cons.mpr ⟨⟨_, fits.2.1, fun _ => fits.1⟩, ?_⟩
      exact fun arg listed => (placed.uncalled arg listed).placed
  | _ => exact fun part inside => (placed.uncalled part inside).placed

theorem Placed.canonical (placed : expr.Placed) : (Node.expr expr).Canonical where
  readable isError := by
    obtain ⟨rest, fits, -⟩ := placed
    cases expr with
    | error span => exact fits
    | _ => exact Bool.false_ne_true isError
  grouped := by
    rintro _ ⟨⟩
    obtain ⟨rest, fits, -⟩ := placed
    exact fits.grouped
  notGeneric part inside := (placed.uncalled part inside).not_isGeneric
  settled := nofun

theorem Placed.nodes_canonical (placed : expr.Placed) : ∀ node ∈ expr.nodes, node.Canonical := by
  induction expr using parts_induction with
  | step expr ih =>
      rw [nodes_eq]
      refine List.forall_mem_cons.mpr ⟨placed.canonical, fun node found => ?_⟩
      obtain ⟨part, inside, found⟩ := List.mem_flatMap.mp found
      exact ih part inside (placed.parts part inside) node found

end Expr

theorem Declarator.AllFit.uncalled {declarators : List Declarator} (fit : AllFit declarators) :
    ∀ init ∈ declarators.filterMap Declarator.init, init.Uncalled := by
  induction declarators with
  | nil => exact List.forall_mem_nil _
  | cons declarator others ih =>
      intro init listed
      obtain ⟨found, inside, isInit⟩ := List.mem_filterMap.mp listed
      rcases List.mem_cons.mp inside with rfl | inside
      · refine ⟨_, fit.1 init isInit, ?_⟩
        cases others <;> simp
      · exact ih fit.2 init (List.mem_filterMap.mpr ⟨found, inside, isInit⟩)

namespace Stmt

variable {stmt : Stmt}

theorem Fits.uncalled (fits : stmt.Fits) : ∀ expr ∈ stmt.exprs, expr.Uncalled := by
  cases stmt with
  | decl span declared => exact Declarator.AllFit.uncalled fits.2.2
  | expr span value => exact List.forall_mem_singleton.mpr ⟨_, fits.1, by simp⟩
  | ifThen | ifElse | whileLoop => exact List.forall_mem_singleton.mpr ⟨_, fits.1, by simp⟩
  | foreach span type var varSpan seq body =>
      exact List.forall_mem_singleton.mpr ⟨_, fits.2.1, by simp⟩
  | returnValue span value =>
      exact fun result isResult => ⟨_, fits result (Option.mem_toList.mp isResult), by simp⟩
  | _ => exact List.forall_mem_nil _

theorem Fits.children (fits : stmt.Fits) : ∀ child ∈ stmt.children, child.Fits := by
  cases stmt with
  | block span stmts => exact allFit_iff.mp fits
  | ifThen | whileLoop => exact List.forall_mem_singleton.mpr fits.2
  | ifElse span cond body otherwise =>
      exact List.forall_mem_cons.mpr ⟨fits.2.1, List.forall_mem_singleton.mpr fits.2.2⟩
  | foreach => exact List.forall_mem_singleton.mpr fits.2.2
  | _ => exact List.forall_mem_nil _

theorem children_not_dangles (settled : stmt.dangles = false) :
    ∀ child ∈ stmt.children, child.dangles = false := by
  cases stmt with
  | block span stmts => exact anyDangles_eq_false.mp settled
  | ifThen | whileLoop | foreach => exact List.forall_mem_singleton.mpr settled
  | ifElse span cond body otherwise =>
      simp only [dangles, Bool.or_eq_false_iff] at settled
      exact List.forall_mem_cons.mpr ⟨settled.1.2, List.forall_mem_singleton.mpr settled.2⟩
  | _ => exact List.forall_mem_nil _

theorem Fits.canonical (fits : stmt.Fits) (settled : stmt.dangles = false) :
    (Node.stmt stmt).Canonical where
  readable isError := by
    cases stmt with
    | error span => exact fits
    | _ => exact Bool.false_ne_true isError
  grouped := nofun
  notGeneric expr inside := (fits.uncalled expr inside).not_isGeneric
  settled := by
    rintro span cond body otherwise ⟨⟩
    simp only [dangles, Bool.or_eq_false_iff] at settled
    simp [settled.1.1]

theorem Fits.nodes_canonical (fits : stmt.Fits) (settled : stmt.dangles = false) :
    ∀ node ∈ stmt.nodes, node.Canonical := by
  induction stmt using children_induction with
  | step stmt ih =>
      rw [nodes_eq]
      refine List.forall_mem_cons.mpr ⟨fits.canonical settled, fun node found => ?_⟩
      rcases List.mem_append.mp found with inExprs | inChildren
      · obtain ⟨expr, inside, found⟩ := List.mem_flatMap.mp inExprs
        exact (fits.uncalled expr inside).placed.nodes_canonical node found
      · obtain ⟨child, inside, found⟩ := List.mem_flatMap.mp inChildren
        exact ih child inside (fits.children child inside)
          (children_not_dangles settled child inside) node found

end Stmt

namespace Item

variable {item : Item}

theorem Fits.uncalled (fits : item.Fits) : ∀ expr ∈ item.exprs, expr.Uncalled := by
  cases item with
  | field span modifiers decl => exact Declarator.AllFit.uncalled fits.2.2.2
  | _ => exact List.forall_mem_nil _

theorem Fits.subitems (fits : item.Fits) : ∀ child ∈ item.subitems, child.Fits := by
  cases item with
  | namespaceOf span path items => exact allFit_iff.mp fits.2
  | classOf span modifiers name members => exact allFit_iff.mp fits
  | _ => exact List.forall_mem_nil _

theorem Fits.stmts (fits : item.Fits) : ∀ stmt ∈ item.stmts, stmt.Fits := by
  cases item with
  | method => exact Stmt.allFit_iff.mp fits.2.2
  | statement span stmt => exact List.forall_mem_singleton.mpr fits
  | _ => exact List.forall_mem_nil _

theorem subitems_not_dangles (settled : item.dangles = false) :
    ∀ child ∈ item.subitems, child.dangles = false := by
  cases item with
  | namespaceOf | classOf => exact anyDangles_eq_false.mp settled
  | _ => exact List.forall_mem_nil _

theorem stmts_not_dangles (settled : item.dangles = false) :
    ∀ stmt ∈ item.stmts, stmt.dangles = false := by
  cases item with
  | method => exact Stmt.anyDangles_eq_false.mp settled
  | statement span stmt => exact List.forall_mem_singleton.mpr settled
  | _ => exact List.forall_mem_nil _

theorem Fits.canonical (fits : item.Fits) : (Node.item item).Canonical where
  readable isError := by
    cases item with
    | error span => exact fits
    | _ => exact Bool.false_ne_true isError
  grouped := nofun
  notGeneric expr inside := (fits.uncalled expr inside).not_isGeneric
  settled := nofun

theorem Fits.nodes_canonical (fits : item.Fits) (settled : item.dangles = false) :
    ∀ node ∈ item.nodes, node.Canonical := by
  induction item using subitems_induction with
  | step item ih =>
      rw [nodes_eq]
      refine List.forall_mem_cons.mpr ⟨fits.canonical, fun node found => ?_⟩
      rcases List.mem_append.mp found with inExprs | found
      · obtain ⟨expr, inside, found⟩ := List.mem_flatMap.mp inExprs
        exact (fits.uncalled expr inside).placed.nodes_canonical node found
      rcases List.mem_append.mp found with inItems | inStmts
      · obtain ⟨child, inside, found⟩ := List.mem_flatMap.mp inItems
        exact ih child inside (fits.subitems child inside)
          (subitems_not_dangles settled child inside) node found
      · obtain ⟨stmt, inside, found⟩ := List.mem_flatMap.mp inStmts
        exact (fits.stmts stmt inside).nodes_canonical (stmts_not_dangles settled stmt inside)
          node found

end Item

/-- Every node of a tree that is read without problems is canonical: operators of equal
level associate to the left, lambdas reach as far as they can, type arguments stand
only where a member is called, and an `else` belongs to the nearest `if`. -/
theorem SourceTree.canonical_of_parse {source : String} (clean : (parse source).2 = []) :
    ∀ node ∈ (parse source).1.nodes, node.Canonical := by
  obtain ⟨lexemes, -, -, fits, settled, -⟩ := of_parse (Prod.ext rfl clean)
  rw [nodes_eq]
  intro node found
  obtain ⟨item, inside, found⟩ := List.mem_flatMap.mp found
  exact (Item.allFit_iff.mp fits item inside).nodes_canonical
    (Item.anyDangles_eq_false.mp settled item inside) node found

/-- An `else` after two conditions, a comparison, a negated lambda and a call with a
type argument. -/
theorem SourceTree.canonical_of_parse_mixed :
    let source := "if (a) if (-b * c < d && e) f = !x => y; else g.H<int>(i - j - k);"
    (parse source).2 = [] ∧ ∀ node ∈ (parse source).1.nodes, node.Canonical := by
  intro source
  have clean : (parse source).2 = [] := List.isEmpty_iff.mp (by decide +kernel)
  exact ⟨clean, canonical_of_parse clean⟩

end QueryLoop
