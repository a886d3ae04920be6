import QueryLoop.Proofs.Binding.FreshName
import QueryLoop.Proofs.Spelling.Derived

namespace QueryLoop

open Token Token.Lexer

/-- What is read where the token is written, and is not left out as a comment. -/
def Token.Usable (token : Token) : Prop :=
  token.Proper ∧ token.isComment = false

namespace Token

theorem usable_of_spelled {token : Token} {written rest : List Char}
    (spelled : Spelled token written rest) (noComment : token.isComment = false) : token.Usable :=
  ⟨spelled.proper noComment, noComment⟩

theorem usable_keyword (word : Keyword) : (keyword word).Usable :=
  ⟨proper_keyword word, rfl⟩

/-- Brackets, separators and the signs that a fix writes. -/
theorem usable_mark {token : Token} (listed : token ∈ [parenOpen, parenClose, braceOpen, braceClose,
    comma, dot, semicolon, arrow, .sign .not]) : token.Usable := by
  have bracket : ∀ c ∈ brackets, (ofBracket c).isComment = false → (ofBracket c).Usable :=
    fun c listed => usable_of_spelled (.bracket listed : Spelled (ofBracket c) [c] [])
  have separator : ∀ c ∈ separators, (ofSeparator c).isComment = false → (ofSeparator c).Usable :=
    fun c listed => usable_of_spelled (.separator listed : Spelled (ofSeparator c) [c] [])
  have arrow : Spelled .arrow ['=', '>'] [] := .longSign (by decide)
  have negation : Spelled (.sign .not) ['!'] [] := spelled_tight (c := '!') (by decide) (by simp)
  simp only [List.mem_cons, List.not_mem_nil, or_false] at listed
  rcases listed with rfl | rfl | rfl | rfl | rfl | rfl | rfl | rfl | rfl
  · exact bracket '(' (by decide) rfl
  · exact bracket ')' (by decide) rfl
  · exact bracket '\x7b' (by decide) rfl
  · exact bracket '\x7d' (by decide) rfl
  · exact separator ',' (by decide) rfl
  · exact separator '.' (by decide) rfl
  · exact separator ';' (by decide) rfl
  · exact usable_of_spelled arrow rfl
  · exact usable_of_spelled negation rfl

theorem usable_ident {name : String} (proper : (ident name).Proper) : (ident name).Usable :=
  ⟨proper, rfl⟩

/-- Neither keywords nor modifiers end with a digit. -/
theorem ofWord_of_digit {word : String} {c : Char} (last : word.toList.getLast? = some c)
    (isDigit : c.isDigit = true) : ofWord word = ident word := by
  have letters : ∀ known ∈ Keyword.all.map Keyword.text ++ modifierWords,
      known.toList.getLast?.any Char.isDigit = false := by decide
  have different : ∀ known ∈ Keyword.all.map Keyword.text ++ modifierWords, known ≠ word := by
    rintro known listed rfl
    simpa [last, isDigit] using letters known listed
  unfold ofWord
  split
  · rename_i keyword found
    have isWord := List.find?_some found
    have listed : keyword.text ∈ Keyword.all.map Keyword.text ++ modifierWords :=
      List.mem_append_left _ (List.mem_map_of_mem (List.mem_of_find?_eq_some found))
    exact absurd (by simpa using isWord) (different _ listed)
  · split
    · rename_i modifier
      exact absurd rfl (different word (List.mem_append_right _ (by simpa using modifier)))
    · rfl

/-- A number behind a name makes another name. -/
theorem proper_numberedName {preferred : String} (proper : (ident preferred).Proper)
    (number : Nat) : (ident (numberedName preferred number)).Proper := by
  cases number with
  | zero => exact proper
  | succ number =>
      obtain ⟨first, others, shape, starts, goesOn, -⟩ := proper.word
      have written : (numberedName preferred (number + 1)).toList =
          first :: (others ++ Nat.toDigits 10 (number + 1)) := by
        simp [numberedName, shape]
      have digits : ∀ c ∈ Nat.toDigits 10 (number + 1), c.isDigit = true := fun c listed =>
        Nat.isDigit_of_mem_toDigits (Nat.succ_pos 9) (Nat.le_refl 10) listed
      refine proper_ident written starts (List.forall_mem_append.mpr ⟨goesOn, fun c listed => ?_⟩) ?_
      · simp [isWordPart, Char.isAlphanum, digits c listed]
      · have nonempty : Nat.toDigits 10 (number + 1) ≠ [] := by
          rw [← Nat.toList_repr]
          intro empty
          have positive : 0 < (Nat.repr (number + 1)).length := Nat.length_repr_pos
          rw [← String.length_toList, empty] at positive
          cases positive
        refine ofWord_of_digit (c := (Nat.toDigits 10 (number + 1)).getLast nonempty) ?_
          (digits _ (List.getLast_mem nonempty))
        rw [written, List.getLast?_cons, List.getLast?_append, List.getLast?_eq_some_getLast nonempty]
        rfl

end Token

namespace Resolver

variable {var param : String}

theorem parameterFor_proper (resolver : Resolver) (expr : Expr) (var : String) {preferred : String}
    (proper : (ident preferred).Proper) :
    (ident (resolver.parameterFor expr var preferred)).Proper := by
  obtain ⟨number, name_eq, -⟩ := exists_freshName_eq (resolver.otherNames expr var) preferred
  rw [parameterFor, name_eq]
  exact proper_numberedName proper number

end Resolver

/-- All tokens of the expression are usable. -/
def Expr.Usable (expr : Expr) : Prop :=
  ∀ token ∈ expr.tokens, token.Usable

namespace Expr

theorem usable_argTokens {args : List Expr} :
    (∀ token ∈ argTokens args, token.Usable) ↔ ∀ arg ∈ args, arg.Usable := by
  constructor
  · exact fun usable arg isArg token inside => usable token (mem_argTokens isArg inside)
  · intro each
    have listed : ∀ token ∈ Token.listed .comma tokens args, token.Usable := by
      cases args with
      | nil => simp [Token.listed]
      | cons first others =>
          obtain ⟨own, rest⟩ := List.forall_mem_cons.mp each
          refine List.forall_mem_append.mpr ⟨own, List.forall_mem_flatMap.mpr fun expr listed => ?_⟩
          exact List.forall_mem_cons.mpr ⟨usable_mark (by decide), rest expr listed⟩
    rw [argTokens_eq]
    refine List.forall_mem_cons.mpr ⟨usable_mark (by decide), List.forall_mem_append.mpr ⟨listed, ?_⟩⟩
    simpa using (usable_mark (by decide) : Token.parenClose.Usable)

theorem usable_operand {expr : Expr} (usable : expr.Usable) : expr.operand.Usable := by
  unfold operand
  split
  · exact usable
  · rw [Usable, tokens]
    refine List.forall_mem_cons.mpr ⟨usable_mark (by decide), List.forall_mem_append.mpr ⟨usable, ?_⟩⟩
    simpa using (usable_mark (by decide) : Token.parenClose.Usable)

theorem usable_negated {expr : Expr} (usable : expr.Usable) : expr.negated.Usable := by
  unfold negated
  split
  · simp only [Usable, tokens, List.forall_mem_cons, List.forall_mem_append] at usable
    exact usable.2.2.1
  · simp only [Usable, tokens, List.forall_mem_cons] at usable
    exact usable.2
  · rw [Usable, tokens]
    exact List.forall_mem_cons.mpr ⟨usable_mark (by decide), usable_operand usable⟩

theorem usable_memberCall {seq : Expr} {method : String} {args : List Expr} (usable : seq.Usable)
    (isName : (Token.ident method).Proper) (each : ∀ arg ∈ args, arg.Usable) :
    (seq.memberCall method args).Usable := by
  rw [memberCall, Usable, tokens, tokens]
  refine List.forall_mem_append.mpr ⟨List.forall_mem_append.mpr ⟨usable_operand usable, ?_⟩,
    usable_argTokens.mpr each⟩
  simpa [typeArgTokens] using And.intro (usable_mark (by decide) : Token.dot.Usable) (usable_ident isName)

end Expr

namespace Resolver

variable {var param : String}

theorem usable_renamed {expr : Expr} (usable : expr.Usable) (isParam : (ident param).Proper) :
    (textual.renamed var param expr).Usable := by
  have mapped : ∀ {args : List Expr}, (∀ arg ∈ args, (textual.renamed var param arg).Usable) →
      ∀ token ∈ Expr.argTokens (args.map (textual.renamed var param)), token.Usable :=
    fun each => Expr.usable_argTokens.mpr (List.forall_mem_map.mpr each)
  induction expr using Expr.parts_induction with
  | step expr ih =>
      rw [renamed_textual]
      cases expr with
      | literal span value => exact usable
      | error span => exact usable
      | ident span name =>
          simp only [Expr.Usable, Expr.tokens, List.forall_mem_cons] at usable ⊢
          refine ⟨?_, by simp⟩
          split
          · exact usable_ident isParam
          · exact usable.1
      | member span target name typeArgs =>
          simp only [Expr.Usable, Expr.tokens, List.forall_mem_append] at usable ⊢
          exact ⟨ih target List.mem_cons_self usable.1, usable.2⟩
      | call span callee args =>
          simp only [Expr.Usable, Expr.tokens, List.forall_mem_append] at usable ⊢
          have each := Expr.usable_argTokens.mp usable.2
          exact ⟨ih callee List.mem_cons_self usable.1, mapped fun arg isArg =>
            ih arg (List.mem_cons_of_mem _ isArg) (each arg isArg)⟩
      | index span target position =>
          simp only [Expr.Usable, Expr.tokens, List.forall_mem_append, List.forall_mem_cons] at usable ⊢
          exact ⟨ih target List.mem_cons_self usable.1, usable.2.1,
            ih position (by simp [Expr.parts]) usable.2.2.1, usable.2.2.2⟩
      | new span type args =>
          simp only [Expr.Usable, Expr.tokens, List.forall_mem_append, List.forall_mem_cons] at usable ⊢
          have each := Expr.usable_argTokens.mp usable.2.2
          exact ⟨usable.1, usable.2.1, mapped fun arg isArg => ih arg isArg (each arg isArg)⟩
      | unary span op operand =>
          simp only [Expr.Usable, Expr.tokens, List.forall_mem_cons] at usable ⊢
          exact ⟨usable.1, ih operand List.mem_cons_self usable.2⟩
      | binary span op lhs rhs =>
          simp only [Expr.Usable, Expr.tokens, List.forall_mem_append, List.forall_mem_cons] at usable ⊢
          exact ⟨ih lhs List.mem_cons_self usable.1, usable.2.1,
            ih rhs (by simp [Expr.parts]) usable.2.2⟩
      | assign span lhs rhs =>
          simp only [Expr.Usable, Expr.tokens, List.forall_mem_append, List.forall_mem_cons] at usable ⊢
          exact ⟨ih lhs List.mem_cons_self usable.1, usable.2.1,
            ih rhs (by simp [Expr.parts]) usable.2.2⟩
      | lambda span inner body =>
          simp only [Expr.Usable, Expr.tokens, List.forall_mem_cons] at usable ⊢
          refine ⟨usable.1, usable.2.1, ?_⟩
          split
          · exact usable.2.2
          · exact ih body List.mem_cons_self usable.2.2
      | paren span inner =>
          simp only [Expr.Usable, Expr.tokens, List.forall_mem_append, List.forall_mem_cons] at usable ⊢
          exact ⟨usable.1, ih inner List.mem_cons_self usable.2.1, usable.2.2⟩

/-- The lambda of a pipeline has usable tokens. -/
theorem usable_lambda? {expr lambda : Expr} {preferred : String} {negate : Bool}
    (made : textual.lambda? expr var preferred negate = some lambda) (usable : expr.Usable)
    (proper : (ident preferred).Proper) : lambda.Usable := by
  unfold lambda? at made
  split at made
  · obtain rfl := Option.some.inj made
    have isParam := parameterFor_proper textual expr var proper
    have renamed : (textual.renamed var (textual.parameterFor expr var preferred) expr).Usable :=
      usable_renamed usable isParam
    rw [Expr.abstracted, Expr.Usable, Expr.tokens]
    refine List.forall_mem_cons.mpr ⟨usable_ident isParam,
      List.forall_mem_cons.mpr ⟨usable_mark (by decide), ?_⟩⟩
    split
    · exact Expr.usable_negated renamed
    · exact renamed
  · simp at made

end Resolver

end QueryLoop
