import QueryLoop.Proofs.Binding.Parameter
import QueryLoop.Proofs.Printing.Expressions
import QueryLoop.Proofs.Spelling.Fitting

namespace QueryLoop

open Token

/-- A token without the name it may be. -/
def Token.nameless : Token → Token
  | .ident _ => .ident ""
  | token => token

/-- Tokens that differ in names only. -/
def Token.SameKinds (tokens tokens' : List Token) : Prop :=
  tokens.map nameless = tokens'.map nameless

namespace Token.SameKinds

variable {tokens tokens' more more' : List Token}

theorem refl (tokens : List Token) : SameKinds tokens tokens :=
  rfl

theorem symm (same : SameKinds tokens tokens') : SameKinds tokens' tokens :=
  Eq.symm same

theorem append (same : SameKinds tokens tokens') (same' : SameKinds more more') :
    SameKinds (tokens ++ more) (tokens' ++ more') := by
  rw [SameKinds, List.map_append, List.map_append, same, same']

theorem cons (token : Token) (same : SameKinds tokens tokens') :
    SameKinds (token :: tokens) (token :: tokens') :=
  append (refl [token]) same

theorem ident (name name' : String) (same : SameKinds tokens tokens') :
    SameKinds (.ident name :: tokens) (.ident name' :: tokens') :=
  append (show SameKinds [.ident name] [.ident name'] from rfl) same

/-- What stands in front can be told apart by length. -/
theorem split (same : SameKinds tokens (more ++ more')) : ∃ front back, tokens = front ++ back ∧
    SameKinds front more ∧ SameKinds back more' := by
  rw [SameKinds, List.map_append] at same
  exact List.map_eq_append_iff.mp same

theorem eq_nil (same : SameKinds tokens []) : tokens = [] :=
  List.map_eq_nil_iff.mp same

theorem split_cons {token : Token} (same : SameKinds tokens (token :: more)) :
    ∃ first back, tokens = first :: back ∧ first.nameless = token.nameless ∧ SameKinds back more :=
  List.map_eq_cons_iff.mp same

end Token.SameKinds

theorem Token.eq_of_nameless {token token' : Token} (plain : ∀ name, token ≠ .ident name)
    (same : token'.nameless = token.nameless) : token' = token := by
  cases token with
  | ident name => exact absurd rfl (plain name)
  | _ => cases token' <;> first | exact same | cases same

theorem Token.strength_nameless (token : Token) : token.nameless.strength = token.strength := by
  cases token <;> rfl

theorem Stops.of_sameKinds {rank : Nat} {tokens tokens' : List Token} (stops : Stops rank tokens)
    (same : SameKinds tokens tokens') : Stops rank tokens' := by
  cases tokens' with
  | nil => simp [Stops]
  | cons token' tokens' =>
      obtain ⟨token, tokens, rfl, alike, -⟩ := same.split_cons
      rw [stops_cons] at stops ⊢
      rwa [← strength_nameless, ← alike, strength_nameless]

theorem head?_of_sameKinds {token : Token} {tokens tokens' : List Token}
    (plain : ∀ name, token ≠ .ident name) (same : SameKinds tokens tokens')
    (isHead : tokens.head? = some token) : tokens'.head? = some token := by
  obtain ⟨more, rfl⟩ := List.head?_eq_some_iff.mp isHead
  obtain ⟨token', more', rfl, alike, -⟩ := same.symm.split_cons
  rw [eq_of_nameless plain alike]
  rfl

section

variable {α : Type} {mark : Token} {spell : α → List Token} {holds : α → Prop} {items : List α}

theorem exists_flatMap_of_sameKinds (plain : ∀ name, mark ≠ .ident name)
    (each : ∀ item ∈ items, ∀ tokens, SameKinds tokens (spell item) →
      ∃ item', spell item' = tokens ∧ (holds item → holds item'))
    {tokens : List Token} (same : SameKinds tokens (items.flatMap fun item => mark :: spell item)) :
    ∃ items' : List α, (items'.flatMap fun item => mark :: spell item) = tokens ∧
      ((∀ item ∈ items, holds item) → ∀ item ∈ items', holds item) := by
  induction items generalizing tokens with
  | nil => exact ⟨[], same.eq_nil.symm, fun _ => by simp⟩
  | cons item items ih =>
      obtain ⟨own, others⟩ := List.forall_mem_cons.mp each
      obtain ⟨first, back, rfl, alike, same⟩ := same.split_cons
      obtain rfl := eq_of_nameless plain alike
      obtain ⟨front, back, rfl, sameItem, sameItems⟩ := same.split
      obtain ⟨item', rfl, kept⟩ := own front sameItem
      obtain ⟨items', rfl, allKept⟩ := ih others sameItems
      refine ⟨item' :: items', rfl, fun all => ?_⟩
      obtain ⟨holdsItem, holdsItems⟩ := List.forall_mem_cons.mp all
      exact List.forall_mem_cons.mpr ⟨kept holdsItem, allKept holdsItems⟩

/-- A list of parts with other names in it is a list of such parts. -/
theorem exists_listed_of_sameKinds (plain : ∀ name, mark ≠ .ident name)
    (each : ∀ item ∈ items, ∀ tokens, SameKinds tokens (spell item) →
      ∃ item', spell item' = tokens ∧ (holds item → holds item'))
    {tokens : List Token} (same : SameKinds tokens (Token.listed mark spell items)) :
    ∃ items', Token.listed mark spell items' = tokens ∧ (items ≠ [] → items' ≠ []) ∧
      ((∀ item ∈ items, holds item) → ∀ item ∈ items', holds item) := by
  cases items with
  | nil => exact ⟨[], same.eq_nil.symm, fun nonempty => absurd rfl nonempty, fun _ => by simp⟩
  | cons item items =>
      obtain ⟨own, others⟩ := List.forall_mem_cons.mp each
      obtain ⟨front, back, rfl, sameItem, sameItems⟩ := same.split
      obtain ⟨item', rfl, kept⟩ := own front sameItem
      obtain ⟨items', rfl, allKept⟩ := exists_flatMap_of_sameKinds plain others sameItems
      refine ⟨item' :: items', rfl, fun _ => List.cons_ne_nil _ _, fun all => ?_⟩
      obtain ⟨holdsItem, holdsItems⟩ := List.forall_mem_cons.mp all
      exact List.forall_mem_cons.mpr ⟨kept holdsItem, allKept holdsItems⟩

end

theorem exists_typeArgTokens_of_sameKinds {types : List TypeRef}
    (each : ∀ type ∈ types, ∀ tokens, SameKinds tokens type.tokens →
      ∃ type' : TypeRef, type'.tokens = tokens ∧ (type.Named → type'.Named))
    {tokens : List Token} (same : SameKinds tokens (typeArgTokens types)) :
    ∃ types', typeArgTokens types' = tokens ∧ (types ≠ [] → types' ≠ []) ∧
      ((∀ type ∈ types, type.Named) → ∀ type ∈ types', type.Named) := by
  cases types with
  | nil => exact ⟨[], same.eq_nil.symm, fun nonempty => absurd rfl nonempty, fun _ => by simp⟩
  | cons first others =>
      obtain ⟨less, back, rfl, opened, inside⟩ := same.split_cons
      obtain rfl := eq_of_nameless (by simp) opened
      obtain ⟨listed, closing, rfl, sameTypes, ending⟩ := inside.split
      obtain ⟨greater, _, rfl, closed, nothing⟩ := ending.split_cons
      obtain rfl := eq_of_nameless (by simp) closed
      obtain rfl := nothing.eq_nil
      obtain ⟨types', rfl, nonempty, kept⟩ :=
        exists_listed_of_sameKinds (by simp) each sameTypes
      obtain ⟨first', others', rfl⟩ := List.exists_cons_of_ne_nil (nonempty (List.cons_ne_nil _ _))
      exact ⟨first' :: others', rfl, fun _ => List.cons_ne_nil _ _, kept⟩

/-- Tokens that differ from those of a type in names only are those of a type. -/
theorem TypeRef.exists_of_sameKinds (type : TypeRef) (tokens : List Token)
    (same : SameKinds tokens type.tokens) :
    ∃ type' : TypeRef, type'.tokens = tokens ∧ (type.Named → type'.Named) := by
  induction type using TypeRef.args_induction generalizing tokens with
  | step type ih =>
      rw [TypeRef.tokens_eq] at same
      obtain ⟨front, back, rfl, samePath, sameArgs⟩ := same.split
      have eachName : ∀ name ∈ type.path, ∀ tokens, SameKinds tokens [.ident name] →
          ∃ name', [.ident name'] = tokens ∧ (True → True) := by
        intro name _ tokens same
        obtain ⟨first, _, rfl, alike, same⟩ := same.split_cons
        obtain rfl := same.eq_nil
        cases first with
        | ident name' => exact ⟨name', rfl, id⟩
        | _ => cases alike
      obtain ⟨path', rfl, nonempty, -⟩ := exists_listed_of_sameKinds (by simp) eachName samePath
      obtain ⟨args', rfl, -, kept⟩ := exists_typeArgTokens_of_sameKinds ih sameArgs
      refine ⟨⟨path', args', type.span⟩, TypeRef.tokens_eq _, fun named => ?_⟩
      obtain ⟨hasName, argsNamed⟩ := TypeRef.named_iff.mp named
      exact TypeRef.named_iff.mpr ⟨nonempty hasName, kept argsNamed⟩

theorem OpensTypeArgs.of_sameKinds {tokens tokens' : List Token} (opens : OpensTypeArgs tokens)
    (same : SameKinds tokens tokens') : OpensTypeArgs tokens' := by
  obtain ⟨types, rest, nonempty, named, rfl⟩ := opens
  obtain ⟨front, back, rfl, sameTypes, same⟩ := same.symm.split
  obtain ⟨opening, rest', rfl, alike, -⟩ := same.split_cons
  obtain rfl := eq_of_nameless (by simp) alike
  obtain ⟨types', rfl, nonempty', kept⟩ := exists_typeArgTokens_of_sameKinds
    (fun type _ => type.exists_of_sameKinds) sameTypes
  exact ⟨types', rest', nonempty' nonempty, kept named, rfl⟩

theorem Expr.rank_nameless (expr : Expr) : expr.nameless.rank = expr.rank := by
  cases expr <;> rfl

theorem sameKinds_moreTokens {exprs : List Expr}
    (each : ∀ expr ∈ exprs, SameKinds expr.nameless.tokens expr.tokens) :
    SameKinds (Expr.moreTokens (Expr.namelessAll exprs)) (Expr.moreTokens exprs) := by
  induction exprs with
  | nil => rfl
  | cons expr exprs ih =>
      obtain ⟨own, others⟩ := List.forall_mem_cons.mp each
      rw [Expr.namelessAll, Expr.moreTokens, Expr.moreTokens]
      exact (own.append (ih others)).cons .comma

theorem sameKinds_argTokens {args : List Expr}
    (each : ∀ arg ∈ args, SameKinds arg.nameless.tokens arg.tokens) :
    SameKinds (Expr.argTokens (Expr.namelessAll args)) (Expr.argTokens args) := by
  cases args with
  | nil => rfl
  | cons arg args =>
      obtain ⟨own, others⟩ := List.forall_mem_cons.mp each
      rw [Expr.namelessAll, Expr.argTokens, Expr.argTokens]
      exact (own.append ((sameKinds_moreTokens others).append (.refl _))).cons .parenOpen

theorem Expr.sameKinds_nameless (expr : Expr) : SameKinds expr.nameless.tokens expr.tokens := by
  induction expr using Expr.parts_induction with
  | step expr ih =>
      cases expr with
      | literal span value => exact .refl _
      | ident span name =>
          rw [Expr.nameless, Expr.tokens, Expr.tokens]
          exact .ident "" name (.refl [])
      | member span target name typeArgs =>
          rw [Expr.nameless, Expr.tokens, Expr.tokens]
          exact (ih target List.mem_cons_self).append (.refl _)
      | call span callee args =>
          obtain ⟨own, others⟩ := List.forall_mem_cons.mp ih
          rw [Expr.nameless, Expr.tokens, Expr.tokens]
          exact own.append (sameKinds_argTokens others)
      | index span target position =>
          rw [Expr.nameless, Expr.tokens, Expr.tokens]
          exact (ih target List.mem_cons_self).append
            (((ih position (by simp [parts])).append (.refl _)).cons .bracketOpen)
      | new span type args =>
          rw [Expr.nameless, Expr.tokens, Expr.tokens]
          exact (SameKinds.append (.refl _) (sameKinds_argTokens ih)).cons (.keyword .newWord)
      | unary span op operand =>
          rw [Expr.nameless, Expr.tokens, Expr.tokens]
          exact (ih operand List.mem_cons_self).cons (.sign op.sign)
      | binary span op lhs rhs =>
          rw [Expr.nameless, Expr.tokens, Expr.tokens]
          exact (ih lhs List.mem_cons_self).append
            ((ih rhs (by simp [parts])).cons (.sign op.sign))
      | assign span lhs rhs =>
          rw [Expr.nameless, Expr.tokens, Expr.tokens]
          exact (ih lhs List.mem_cons_self).append ((ih rhs (by simp [parts])).cons .assign)
      | lambda span param body =>
          rw [Expr.nameless, Expr.tokens, Expr.tokens]
          exact .ident "" param ((ih body List.mem_cons_self).cons .arrow)
      | paren span inner =>
          rw [Expr.nameless, Expr.tokens, Expr.tokens]
          exact ((ih inner List.mem_cons_self).append (.refl _)).cons .parenOpen
      | error span => exact .refl _

theorem allFit_namelessAll {exprs : List Expr}
    (each : ∀ expr ∈ exprs, ∀ rest rest', SameKinds rest rest' →
      (expr.nameless.Fits rest ↔ expr.Fits rest'))
    {rest rest' : List Token} (same : SameKinds rest rest') :
    Expr.AllFit (Expr.namelessAll exprs) rest ↔ Expr.AllFit exprs rest' := by
  induction exprs with
  | nil => exact Iff.rfl
  | cons expr exprs ih =>
      obtain ⟨own, others⟩ := List.forall_mem_cons.mp each
      exact and_congr (own _ _ ((sameKinds_moreTokens fun expr _ => expr.sameKinds_nameless).append
        same)) (ih others)

/-- Names do not matter for whether an expression fits. -/
theorem Expr.fits_nameless (expr : Expr) {rest rest' : List Token} (same : SameKinds rest rest') :
    expr.nameless.Fits rest ↔ expr.Fits rest' := by
  induction expr using Expr.parts_induction generalizing rest rest' with
  | step expr ih =>
      have opens : OpensTypeArgs rest ↔ OpensTypeArgs rest' :=
        ⟨fun opens => opens.of_sameKinds same, fun opens => opens.of_sameKinds same.symm⟩
      have called : rest.head? = some .parenOpen ↔ rest'.head? = some .parenOpen :=
        ⟨head?_of_sameKinds (by simp) same, head?_of_sameKinds (by simp) same.symm⟩
      have stops : Stops 0 rest ↔ Stops 0 rest' :=
        ⟨fun stops => stops.of_sameKinds same, fun stops => stops.of_sameKinds same.symm⟩
      cases expr with
      | member span target name typeArgs =>
          have inside := ih target List.mem_cons_self
            ((((SameKinds.refl (typeArgTokens typeArgs)).append same).cons (.ident name)).cons .dot)
          simp only [Expr.nameless, Expr.Fits, rank_nameless, inside, opens, called]
      | call span callee args =>
          obtain ⟨own, others⟩ := List.forall_mem_cons.mp fun part inside => @ih part inside
          have sameArgs : SameKinds (Expr.argTokens (Expr.namelessAll args)) (Expr.argTokens args) :=
            sameKinds_argTokens fun arg _ => arg.sameKinds_nameless
          have inside := own (sameArgs.append same)
          have listed := allFit_namelessAll (fun arg isArg _ _ => others arg isArg)
            (same.cons .parenClose)
          simp only [Expr.nameless, Expr.Fits, rank_nameless, inside, listed]
      | index span target position =>
          have inside := ih target List.mem_cons_self
            ((position.sameKinds_nameless.append (same.cons .bracketClose)).cons .bracketOpen)
          have index := ih position (by simp [parts]) (same.cons .bracketClose)
          simp only [Expr.nameless, Expr.Fits, rank_nameless, inside, index]
      | new span type args =>
          have listed : Expr.AllFit (Expr.namelessAll args) (.parenClose :: rest) ↔
              Expr.AllFit args (.parenClose :: rest') :=
            allFit_namelessAll (fun arg isArg _ _ => ih arg isArg) (same.cons .parenClose)
          simp only [Expr.nameless, Expr.Fits, listed]
      | unary span op operand =>
          simp only [Expr.nameless, Expr.Fits, rank_nameless, ih operand List.mem_cons_self same]
      | binary span op lhs rhs =>
          have left := ih lhs List.mem_cons_self
            ((rhs.sameKinds_nameless.append same).cons (.sign op.sign))
          have right := ih rhs (by simp [parts]) same
          simp only [Expr.nameless, Expr.Fits, rank_nameless, left, right]
      | assign span lhs rhs =>
          have left := ih lhs List.mem_cons_self ((rhs.sameKinds_nameless.append same).cons .assign)
          have right := ih rhs (by simp [parts]) same
          simp only [Expr.nameless, Expr.Fits, rank_nameless, left, right]
      | lambda span param body =>
          simp only [Expr.nameless, Expr.Fits, stops, ih body List.mem_cons_self same]
      | paren span inner =>
          simp only [Expr.nameless, Expr.Fits, ih inner List.mem_cons_self (same.cons .parenClose)]
      | _ => exact Iff.rfl

/-- The renamed expression fits where the original does. -/
theorem Resolver.fits_renamed {var param : String} {expr : Expr} {rest : List Token}
    (fits : expr.Fits rest) : (textual.renamed var param expr).Fits rest := by
  rw [← Expr.fits_nameless _ (.refl rest)] at fits ⊢
  rwa [nameless_renamed]

def Expr.isLambda : Expr → Bool
  | .lambda .. => true
  | _ => false

/-- A member with type arguments. -/
def Expr.isGeneric : Expr → Bool
  | .member _ _ _ (_ :: _) => true
  | _ => false

theorem Expr.rank_of_isPrimary {expr : Expr} (primary : expr.isPrimary = true) :
    8 ≤ expr.rank ∧ expr.isLambda = false := by
  cases expr <;> simp_all [isPrimary, rank, isLambda]

theorem Expr.Fits.not_isLambda {expr : Expr} {token : Token} {rest : List Token}
    (fits : expr.Fits (token :: rest)) (strong : 0 < token.strength) : expr.isLambda = false := by
  cases expr with
  | lambda span param body =>
      have weak := stops_cons.mp fits.1
      omega
  | _ => rfl

/-- What stands behind a closing token does not matter. -/
theorem Expr.Fits.across {expr : Expr} {token : Token} {rest : List Token} (rest' : List Token)
    (fits : expr.Fits (token :: rest)) (closes : token.closes = true) :
    expr.Fits (token :: rest') := by
  refine fits.before_halted ⟨token, rest', rfl, Token.halts_of_closes closes⟩ ?_ (.refl _ _)
  rintro isOpen
  obtain rfl := Option.some.inj isOpen
  cases closes

theorem Expr.AllFit.across {exprs : List Expr} {rest : List Token} (rest' : List Token)
    (fit : Expr.AllFit exprs (.parenClose :: rest)) : Expr.AllFit exprs (.parenClose :: rest') :=
  Expr.AllFit.before_halted ⟨.parenClose, rest', rfl, rfl⟩ (by simp)
    (.refl (.parenClose :: rest) (.parenClose :: rest')) fit

theorem not_opensTypeArgs_cons {token : Token} (tokens : List Token)
    (different : token ≠ .sign .less) : ¬OpensTypeArgs (token :: tokens) := by
  rintro ⟨types, rest, nonempty, -, spelled⟩
  obtain ⟨first, others, rfl⟩ := List.exists_cons_of_ne_nil nonempty
  exact different (List.cons.inj spelled).1

/-- Nothing but type arguments goes on with the meaning of a primary expression, and only
a member with type arguments needs a parenthesis behind it. -/
theorem Expr.Fits.before {expr : Expr} {rest rest' : List Token} (fits : expr.Fits rest)
    (tight : 8 ≤ expr.rank) (noLambda : expr.isLambda = false) (noTypeArgs : ¬OpensTypeArgs rest')
    (called : expr.isGeneric = true → rest.head? = some .parenOpen →
      rest'.head? = some .parenOpen) : expr.Fits rest' := by
  induction expr using Expr.parts_induction generalizing rest rest' with
  | step expr ih =>
      -- An operand is followed by the same token as before, so it is no lambda either.
      have operand : ∀ {target : Expr} {token : Token} {more : List Token} (more' : List Token),
          target ∈ expr.parts → 8 ≤ target.rank → target.Fits (token :: more) →
            0 < token.strength → token ≠ .sign .less → target.Fits (token :: more') :=
        fun more' inside tight fits strong different => ih _ inside fits tight
          (fits.not_isLambda strong) (not_opensTypeArgs_cons more' different) fun _ => id
      cases expr with
      | literal span value => trivial
      | ident span name => trivial
      | member span target name typeArgs =>
          obtain ⟨targetTight, targetFits, named, -, behind⟩ := fits
          refine ⟨targetTight, ?_, named, fun _ => noTypeArgs, fun nonempty => ?_⟩
          · exact operand _ List.mem_cons_self targetTight targetFits (by decide) (by decide)
          · obtain ⟨first, others, rfl⟩ := List.exists_cons_of_ne_nil nonempty
            exact called rfl (behind nonempty)
      | call span callee args =>
          obtain ⟨calleeTight, calleeFits, fit⟩ := fits
          refine ⟨calleeTight, ?_, fit.across rest'⟩
          rw [Expr.argTokens_eq] at calleeFits ⊢
          exact operand _ List.mem_cons_self calleeTight calleeFits (by decide) (by decide)
      | index span target position =>
          obtain ⟨targetTight, targetFits, positionFits⟩ := fits
          refine ⟨targetTight, ?_, positionFits.across rest' rfl⟩
          exact operand _ List.mem_cons_self targetTight targetFits (by decide) (by decide)
      | new span type args => exact ⟨fits.1, fits.2.across rest'⟩
      | paren span inner =>
          have inside : inner.Fits (.parenClose :: rest) := fits
          exact inside.across rest' rfl
      | lambda span param body => cases noLambda
      | error span => exact fits.elim
      | binary span op lhs rhs =>
          cases op <;> simp [rank, BinaryOp.level, BinaryLevel.rank] at tight
      | _ => simp [rank] at tight

/-- An operand fits before a dot, in parentheses or without. -/
theorem Expr.operand_fits_dot {expr : Expr} (rest : List Token)
    (fits : expr.Fits [.parenClose]) :
    8 ≤ expr.operand.rank ∧ expr.operand.Fits (.dot :: rest) := by
  unfold operand
  split
  · rename_i primary
    obtain ⟨tight, noLambda⟩ := rank_of_isPrimary primary
    exact ⟨tight, fits.before tight noLambda (not_opensTypeArgs_cons rest (by decide)) (by simp)⟩
  · have inside : expr.Fits (.parenClose :: .dot :: rest) := fits.across _ rfl
    exact ⟨by simp [rank], inside⟩

theorem Expr.operand_fits {expr : Expr} {rest : List Token} (fits : expr.Fits rest)
    (closed : Closed rest) : 7 ≤ expr.operand.rank ∧ expr.operand.Fits rest := by
  unfold operand
  split
  · rename_i primary
    exact ⟨Nat.le_of_succ_le (rank_of_isPrimary primary).1, fits⟩
  · have inside : expr.Fits (.parenClose :: rest) :=
      fits.close closed.stops ⟨.parenClose, rest, rfl, rfl⟩
    exact ⟨by simp [rank], inside⟩

theorem Expr.negated_fits {expr : Expr} {rest : List Token} (fits : expr.Fits rest)
    (closed : Closed rest) : expr.negated.Fits rest := by
  unfold negated
  split
  · rename_i inner
    have inside : inner.Fits (.parenClose :: rest) := fits.2
    exact inside.close (Closed.stops ⟨.parenClose, rest, rfl, rfl⟩) closed
  · exact fits.2
  · exact operand_fits fits closed

/-- The sequence of a loop with a call of a method on it. -/
theorem Expr.memberCall_fits {seq arg : Expr} (method : String)
    (fits : seq.Fits [.parenClose]) (argFits : arg.Fits [.parenClose]) :
    (seq.memberCall method [arg]).Fits [.parenClose] := by
  obtain ⟨tight, targetFits⟩ := seq.operand_fits_dot
    (.ident method :: (typeArgTokens [] ++ (Expr.argTokens [arg] ++ [.parenClose]))) fits
  refine ⟨by simp [rank], ⟨tight, targetFits, by simp, fun _ => ?_, by simp⟩, ?_, trivial⟩
  · rw [Expr.argTokens_eq]
    exact not_opensTypeArgs_cons _ (by decide)
  · exact argFits.across _ rfl

/-- The lambda of a pipeline fits as an argument. -/
theorem Resolver.lambda?_fits {expr lambda : Expr} {var preferred : String} {negate : Bool}
    {rest : List Token} (made : textual.lambda? expr var preferred negate = some lambda)
    (fits : expr.Fits rest) (stops : Stops 0 rest) : lambda.Fits [.parenClose] := by
  have closed : Closed [.parenClose] := ⟨_, _, rfl, rfl⟩
  unfold lambda? at made
  split at made
  · obtain rfl := Option.some.inj made
    refine ⟨closed.stops, ?_⟩
    have renamed : (textual.renamed var (textual.parameterFor expr var preferred) expr).Fits
        [.parenClose] := fits_renamed (fits.close stops closed)
    split
    · exact Expr.negated_fits renamed closed
    · exact renamed
  · simp at made

end QueryLoop
