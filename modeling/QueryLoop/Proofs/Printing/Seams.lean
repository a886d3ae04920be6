import QueryLoop.Proofs.Printing.Expressions
import QueryLoop.Proofs.Spelling.Located

namespace QueryLoop

/-! Texts that are read alike in front of other texts.

How a token is read depends on little of what follows it, and a blank never goes on
with a token.  The one exception is a division sign in front of a star, which opens a
comment if there is an end for it anywhere behind; no tree is written with these two
signs one behind the other.
-/

open Token Token.Lexer

namespace Token

/-- The second text starts like the first, or with a blank. -/
def StartsLike (rest rest' : List Char) : Prop :=
  rest'.head? = rest.head? ∨ ∃ c ∈ rest'.head?, Text.isBlank c = true

/-- A token in front of the first text is read in front of the second. -/
structure FollowsLike (rest rest' : List Char) : Prop where
  next : StartsLike rest rest'
  behindDot : ∀ behind', rest' = '.' :: behind' →
    ∃ behind, rest = '.' :: behind ∧ StartsLike behind behind'

variable {token : Token} {written front rest rest' : List Char} {tokens : List Token}

theorem StartsLike.forall_head {p : Char → Bool} (alike : StartsLike rest rest')
    (ends : ∀ c ∈ rest.head?, p c = false) (blank : ∀ c, Text.isBlank c = true → p c = false) :
    ∀ c ∈ rest'.head?, p c = false := by
  intro c isHead
  rcases alike with same | ⟨d, isHead', isBlank⟩
  · exact ends c (same ▸ isHead)
  · obtain rfl := Option.mem_unique isHead isHead'
    exact blank c isBlank

theorem StartsLike.noDigit (alike : StartsLike rest rest') (noDigit : NoDigit rest) :
    NoDigit rest' :=
  alike.forall_head noDigit fun _ isBlank => isDigit_of_isWordPart (isWordPart_of_isBlank isBlank)

/-- A character that is no blank starts the first text if it starts the second. -/
theorem StartsLike.head (alike : StartsLike rest rest') {c : Char}
    (isHead : rest'.head? = some c) (noBlank : Text.isBlank c = false) : rest.head? = some c := by
  rcases alike with same | ⟨d, isHead', isBlank⟩
  · exact same ▸ isHead
  · obtain rfl := Option.mem_unique isHead isHead'
    simp [noBlank] at isBlank

theorem Lexer.Spelled.transfer (spelled : Spelled token written rest)
    (alike : FollowsLike rest rest') (noStar : token = .sign .divide → rest'.head? ≠ some '*')
    (ends : token.isComment = true → rest'.head? = rest.head?) : Spelled token written rest' := by
  have noFraction : NoFraction rest → NoFraction rest' := by
    intro noFraction behind' shape
    obtain ⟨behind, rfl, alike'⟩ := alike.behindDot behind' shape
    exact alike'.noDigit (noFraction behind rfl)
  cases spelled with
  | word starts goesOn ends =>
      exact .word starts goesOn (alike.next.forall_head ends fun _ => isWordPart_of_isBlank)
  | int whole ends fraction =>
      exact .int whole (fun different => alike.next.noDigit (ends different)) (noFraction fraction)
  | float whole nonempty allDigits ends =>
      exact .float whole nonempty allDigits (alike.next.noDigit ends)
  | string each => exact .string each
  | longSign listed => exact .longSign listed
  | @shortSign c rest listed short noComment =>
      refine .shortSign listed (fun sign isLong starts => ?_) ?_
      · have pair : ∀ sign ∈ longSigns, sign.1.length = 2 ∧
            sign.1.all (!Text.isBlank ·) = true := by decide
        obtain ⟨two, visible⟩ := pair sign isLong
        obtain ⟨first, second, shape⟩ := List.length_eq_two.mp two
        rw [shape] at starts visible
        obtain ⟨rfl, behind', rfl⟩ := List.cons_prefix_cons.mp starts
        have isHead := alike.next.head (c := second) rfl (by simp_all)
        obtain ⟨behind, rfl⟩ := List.head?_eq_some_iff.mp isHead
        exact short sign isLong (shape ▸ ⟨behind, rfl⟩)
      · rintro (starts | ⟨text, behind, shape⟩)
        · obtain ⟨rfl, behind', rfl⟩ := List.cons_prefix_cons.mp starts
          have isHead := alike.next.head (c := '/') rfl (by decide)
          obtain ⟨behind, rfl⟩ := List.head?_eq_some_iff.mp isHead
          exact noComment (.inl ⟨behind, rfl⟩)
        · obtain ⟨rfl, rfl⟩ := List.cons.inj shape
          exact noStar rfl rfl
  | separator listed => exact .separator listed
  | bracket listed => exact .bracket listed
  | lineComment plain ending =>
      refine .lineComment plain ?_
      have same := ends rfl
      rcases ending with rfl | ⟨c, rfl, isEnd, alone⟩ | ⟨rfl, rfl⟩
      · exact .inl rfl
      · exact .inr (.inl ⟨c, rfl, isEnd, fun isReturn => same ▸ alone isReturn⟩)
      · exact .inr (.inr ⟨rfl, List.head?_eq_none_iff.mp same⟩)
  | blockComment plain => exact .blockComment plain

/-- Only a star is written with a star at the start. -/
theorem Lexer.Spelled.eq_times {others : List Char}
    (spelled : Spelled token ('*' :: others) rest) : token = .sign .times := by
  generalize shape : '*' :: others = written at spelled
  cases spelled with
  | word starts goesOn ends =>
      obtain ⟨rfl, -⟩ := List.cons.inj shape
      cases starts
  | int whole ends fraction =>
      rcases whole with ⟨first, digits, rfl, isDigit, -⟩ | rfl
      · obtain ⟨rfl, -⟩ := List.cons.inj shape
        cases isDigit
      · cases shape
  | float whole nonempty allDigits ends =>
      rcases whole with ⟨first, digits, rfl, isDigit, -⟩ | rfl
      · obtain ⟨rfl, -⟩ := List.cons.inj shape
        cases isDigit
      · cases shape
  | longSign listed =>
      have heads : ∀ sign ∈ longSigns, sign.1.head? ≠ some '*' := by decide
      exact absurd (by rw [← shape]; rfl) (heads _ listed)
  | @shortSign c rest listed short noComment =>
      obtain ⟨rfl, -⟩ := List.cons.inj shape
      rfl
  | @separator c rest listed =>
      obtain ⟨rfl, -⟩ := List.cons.inj shape
      simp [separators] at listed
  | @bracket c rest listed =>
      obtain ⟨rfl, -⟩ := List.cons.inj shape
      simp [brackets] at listed
  | _ => simp at shape

/-- What starts with a star is a star, and what is behind it. -/
theorem Scans.head_times (scans : Scans front tokens rest) (isHead : front.head? = some '*') :
    ∃ more, tokens = .sign .times :: more := by
  cases scans with
  | nil => cases isHead
  | blank isBlank _ =>
      obtain rfl := Option.some.inj isHead
      cases isBlank
  | token spelled _ =>
      obtain ⟨c, others, rfl, -⟩ := spelled.starts
      obtain rfl := Option.some.inj isHead
      exact ⟨_, by rw [spelled.eq_times]⟩

theorem followsLike_of_cons {c : Char} (others : List Char) (isHead : rest.head? = some c)
    (isHead' : rest'.head? = some c) (noDot : c ≠ '.') :
    FollowsLike (others ++ rest) (others ++ rest') := by
  have same : ∀ others : List Char, (others ++ rest').head? = (others ++ rest).head? := by
    intro others
    cases others <;> simp [isHead, isHead']
  refine ⟨.inl (same others), fun behind' shape => ?_⟩
  cases others with
  | nil =>
      obtain rfl : rest' = _ := shape
      exact absurd (Option.some.inj isHead').symm noDot
  | cons d others =>
      obtain ⟨rfl, rfl⟩ := List.cons.inj shape
      exact ⟨others ++ rest, rfl, .inl (same others)⟩

/-- Tokens in front of a word are read in front of any text that starts like the word. -/
theorem Scans.transfer {c : Char} (scans : Scans front tokens rest)
    (noComment : ¬[.sign .divide, .sign .times] <:+: tokens) (isHead : rest.head? = some c)
    (isHead' : rest'.head? = some c) (noDot : c ≠ '.') (noStar : c ≠ '*') :
    Scans front tokens rest' := by
  induction scans with
  | nil rest => exact .nil rest'
  | blank isBlank _ ih => exact .blank isBlank (ih noComment isHead)
  | @token token written front rest tokens spelled following ih =>
      refine .token (spelled.transfer (followsLike_of_cons front isHead isHead' noDot) ?_ ?_)
        (ih (fun inside => noComment (inside.trans (List.suffix_cons _ _).isInfix)) isHead)
      · rintro rfl starts
        cases front with
        | nil => exact noStar (Option.some.inj (isHead'.symm.trans starts))
        | cons d front =>
            obtain ⟨more, rfl⟩ := following.head_times (by simpa using starts)
            exact noComment ⟨[], more, rfl⟩
      · intro _
        cases front <;> simp [isHead, isHead']

end Token

/-- The last token is there, and is no division sign. -/
def Token.Ends (tokens : List Token) : Prop :=
  ∃ last ∈ tokens.getLast?, last ≠ .sign .divide

/-- Every star stands behind a token that is no division sign. -/
def Token.StarsApart (tokens : List Token) : Prop :=
  ∀ front back, tokens = front ++ .sign .times :: back → Ends front

namespace Token

variable {token : Token} {tokens more : List Token}

theorem Ends.append (ends : Ends more) : Ends (tokens ++ more) := by
  obtain ⟨last, isLast, different⟩ := ends
  exact ⟨last, by simp [Option.mem_def.mp isLast], different⟩

theorem Ends.cons (ends : Ends tokens) : Ends (token :: tokens) :=
  show Ends ([token] ++ tokens) from ends.append

theorem ends_singleton (token : Token) (different : token ≠ .sign .divide) : Ends [token] :=
  ⟨token, rfl, different⟩

theorem starsApart_of_forall (different : ∀ token ∈ tokens, token ≠ .sign .times) :
    StarsApart tokens := by
  rintro front back rfl
  exact absurd rfl (different _ (by simp))

theorem starsApart_singleton (token : Token) (different : token ≠ .sign .times) :
    StarsApart [token] :=
  starsApart_of_forall (by simpa using different)

namespace StarsApart

theorem append (apart : StarsApart tokens) (apart' : StarsApart more) :
    StarsApart (tokens ++ more) := by
  intro front back split
  rcases List.append_eq_append_iff.mp split with ⟨middle, rfl, same⟩ | ⟨middle, rfl, same⟩
  · exact (apart' middle back same).append
  · cases middle with
    | nil =>
        obtain ⟨last, isLast, -⟩ := apart' [] back same.symm
        cases isLast
    | cons token middle =>
        obtain ⟨rfl, rfl⟩ := List.cons.inj same
        exact apart front middle rfl

theorem cons (token : Token) (different : token ≠ .sign .times) (apart : StarsApart tokens) :
    StarsApart (token :: tokens) :=
  (starsApart_singleton token different).append apart

/-- Any sign may stand behind an operand. -/
theorem operator (apart : StarsApart tokens) (ends : Ends tokens) (apart' : StarsApart more) :
    StarsApart (tokens ++ token :: more) := by
  have signed : StarsApart (tokens ++ [token]) := by
    intro front back split
    rcases List.append_eq_append_iff.mp split with ⟨middle, rfl, same⟩ | ⟨middle, rfl, same⟩
    · cases middle with
      | nil => simpa using ends
      | cons other middle => simp at same
    · cases middle with
      | nil => simpa using ends
      | cons other middle =>
          obtain ⟨rfl, rfl⟩ := List.cons.inj same
          exact apart front middle rfl
  have whole := signed.append apart'
  rwa [List.append_assoc] at whole

theorem flatMap {α : Type} {spell : α → List Token} {parts : List α}
    (each : ∀ part ∈ parts, StarsApart (spell part)) : StarsApart (parts.flatMap spell) := by
  induction parts with
  | nil => exact starsApart_of_forall (by simp)
  | cons part parts ih =>
      obtain ⟨own, others⟩ := List.forall_mem_cons.mp each
      exact own.append (ih others)

theorem listed {α : Type} (mark : Token) {spell : α → List Token} {parts : List α}
    (different : mark ≠ .sign .times) (each : ∀ part ∈ parts, StarsApart (spell part)) :
    StarsApart (Token.listed mark spell parts) := by
  cases parts with
  | nil => exact starsApart_of_forall (by simp [Token.listed])
  | cons part parts =>
      obtain ⟨own, others⟩ := List.forall_mem_cons.mp each
      exact own.append (flatMap fun part isPart => (others part isPart).cons mark different)

/-- No comment opens between tokens. -/
theorem noOpening (apart : StarsApart tokens) :
    ¬[.sign .divide, .sign .times] <:+: tokens := by
  rintro ⟨front, back, rfl⟩
  obtain ⟨last, isLast, different⟩ := apart (front ++ [.sign .divide]) back (by simp)
  simp at isLast
  exact different isLast.symm

end StarsApart

end Token

theorem starsApart_pathTokens (path : List String) : StarsApart (pathTokens path) :=
  .listed .dot (by decide) fun name _ => starsApart_singleton (.ident name) (by simp)

theorem starsApart_typeArgTokens {types : List TypeRef}
    (each : ∀ type ∈ types, StarsApart type.tokens) : StarsApart (typeArgTokens types) := by
  cases types with
  | nil => exact starsApart_of_forall (by simp [typeArgTokens])
  | cons type types =>
      have listed := StarsApart.listed .comma (by decide) each
      exact (listed.append (starsApart_of_forall (by simp))).cons _ (by decide)

theorem TypeRef.starsApart (type : TypeRef) : StarsApart type.tokens := by
  induction type using TypeRef.args_induction with
  | step type ih =>
      rw [TypeRef.tokens_eq]
      exact (starsApart_pathTokens _).append (starsApart_typeArgTokens ih)

theorem Literal.token_ne_sign (value : Literal) (sign : Sign) : value.token ≠ .sign sign := by
  rcases value with _ | _ | _ | (_ | _) | _ <;> simp [Literal.token]

namespace Expr

theorem ends_argTokens (args : List Expr) : Ends (argTokens args) := by
  rw [argTokens_eq]
  exact (ends_singleton .parenClose (by decide)).append.cons

theorem ends (expr : Expr) : Ends expr.tokens := by
  induction expr using parts_induction with
  | step expr ih =>
      cases expr with
      | literal span value => exact ends_singleton _ (value.token_ne_sign .divide)
      | member span target name typeArgs =>
          rw [Expr.tokens]
          refine Ends.append (.cons ?_)
          cases typeArgs with
          | nil => exact ends_singleton (.ident name) (by simp)
          | cons first others =>
              exact (ends_singleton (.sign .greater) (by decide)).append.cons.cons
      | call span callee args =>
          rw [Expr.tokens]
          exact (ends_argTokens args).append
      | index span target position =>
          rw [Expr.tokens]
          exact (ends_singleton .bracketClose (by decide)).append.cons.append
      | new span type args =>
          rw [Expr.tokens]
          exact (ends_argTokens args).append.cons
      | paren span inner =>
          rw [Expr.tokens]
          exact (ends_singleton .parenClose (by decide)).append.cons
      | ident span name => exact ends_singleton (.ident name) (by simp)
      | error span => exact ends_singleton (.blockComment " error ") (by simp)
      | unary span op operand =>
          rw [Expr.tokens]
          exact (ih operand (by simp [parts])).cons
      | binary span op lhs rhs =>
          rw [Expr.tokens]
          exact (ih rhs (by simp [parts])).cons.append
      | assign span lhs rhs =>
          rw [Expr.tokens]
          exact (ih rhs (by simp [parts])).cons.append
      | lambda span param body =>
          rw [Expr.tokens]
          exact (ih body (by simp [parts])).cons.cons

theorem starsApart_argTokens {args : List Expr} (each : ∀ arg ∈ args, StarsApart arg.tokens) :
    StarsApart (argTokens args) := by
  have listed := StarsApart.listed .comma (by decide) each
  rw [argTokens_eq]
  exact (listed.append (starsApart_of_forall (by simp))).cons _ (by decide)

theorem starsApart (expr : Expr) : StarsApart expr.tokens := by
  induction expr using parts_induction with
  | step expr ih =>
      cases expr with
      | literal span value =>
          exact starsApart_of_forall (by simpa [Expr.tokens] using value.token_ne_sign .times)
      | member span target name typeArgs =>
          rw [Expr.tokens]
          have own := starsApart_typeArgTokens fun type (_ : type ∈ typeArgs) => type.starsApart
          exact (ih target (by simp [parts])).append ((own.cons _ (by simp)).cons _ (by decide))
      | call span callee args =>
          rw [Expr.tokens]
          obtain ⟨own, others⟩ := List.forall_mem_cons.mp ih
          exact own.append (starsApart_argTokens others)
      | index span target position =>
          rw [Expr.tokens]
          have inside := (ih position (by simp [parts])).append
            (starsApart_singleton .bracketClose (by simp))
          exact (ih target (by simp [parts])).append (inside.cons _ (by decide))
      | new span type args =>
          rw [Expr.tokens]
          exact (type.starsApart.append (starsApart_argTokens ih)).cons _ (by decide)
      | paren span inner =>
          rw [Expr.tokens]
          exact ((ih inner (by simp [parts])).append (starsApart_of_forall (by simp))).cons _ (by decide)
      | ident span name => exact starsApart_of_forall (by simp [Expr.tokens])
      | error span => exact starsApart_of_forall (by simp [Expr.tokens])
      | unary span op operand =>
          rw [Expr.tokens]
          exact (ih operand (by simp [parts])).cons _ (by cases op <;> decide)
      | binary span op lhs rhs =>
          rw [Expr.tokens]
          exact (ih lhs (by simp [parts])).operator lhs.ends (ih rhs (by simp [parts]))
      | assign span lhs rhs =>
          rw [Expr.tokens]
          exact (ih lhs (by simp [parts])).operator lhs.ends (ih rhs (by simp [parts]))
      | lambda span param body =>
          rw [Expr.tokens]
          exact ((ih body (by simp [parts])).cons _ (by decide)).cons _ (by simp)

end Expr

theorem Declarator.starsApart (declarator : Declarator) : StarsApart declarator.tokens := by
  obtain ⟨name, init, span⟩ := declarator
  cases init with
  | none => exact starsApart_of_forall (by simp [Declarator.tokens])
  | some init => exact (init.starsApart.cons _ (by decide)).cons _ (by simp)

theorem LocalDecl.starsApart (decl : LocalDecl) : StarsApart decl.tokens := by
  obtain ⟨type, declarators⟩ := decl
  cases declarators with
  | nil => exact starsApart_of_forall (by simp [LocalDecl.tokens])
  | cons first others =>
      have listed := StarsApart.listed .comma (by decide)
        fun declarator (_ : declarator ∈ first :: others) => declarator.starsApart
      exact type.starsApart.append (listed.append (starsApart_of_forall (by simp)))

namespace Stmt

theorem starsApart (stmt : Stmt) : StarsApart stmt.tokens := by
  induction stmt using children_induction with
  | step stmt ih =>
      cases stmt with
      | block span stmts =>
          rw [Stmt.tokens, Stmt.allTokens_eq]
          exact ((StarsApart.flatMap ih).append (starsApart_of_forall (by simp))).cons _ (by decide)
      | decl span declared => exact declared.starsApart
      | expr span value =>
          rw [Stmt.tokens]
          exact value.starsApart.append (starsApart_of_forall (by simp))
      | ifThen span cond body =>
          rw [Stmt.tokens]
          have branch := (ih body (by simp [children])).cons .parenClose (by decide)
          exact ((cond.starsApart.append branch).cons _ (by decide)).cons _ (by decide)
      | ifElse span cond body otherwise =>
          rw [Stmt.tokens]
          have last := (ih otherwise (by simp [children])).cons (.keyword .elseWord) (by decide)
          have branch := ((ih body (by simp [children])).append last).cons .parenClose (by decide)
          exact ((cond.starsApart.append branch).cons _ (by decide)).cons _ (by decide)
      | foreach span type var varSpan seq body =>
          rw [Stmt.tokens]
          have inside := seq.starsApart.append
            ((ih body (by simp [children])).cons .parenClose (by decide))
          have named := (inside.cons (.keyword .inWord) (by decide)).cons (.ident var) (by simp)
          exact ((type.starsApart.append named).cons _ (by decide)).cons _ (by decide)
      | whileLoop span cond body =>
          rw [Stmt.tokens]
          have branch := (ih body (by simp [children])).cons .parenClose (by decide)
          exact ((cond.starsApart.append branch).cons _ (by decide)).cons _ (by decide)
      | returnValue span value =>
          cases value with
          | none => exact starsApart_of_forall (by simp [Stmt.tokens])
          | some value =>
              rw [Stmt.tokens]
              exact (value.starsApart.append (starsApart_of_forall (by simp))).cons _ (by decide)
      | continueLoop span => exact starsApart_of_forall (by simp [Stmt.tokens])
      | breakLoop span => exact starsApart_of_forall (by simp [Stmt.tokens])
      | empty span => exact starsApart_of_forall (by simp [Stmt.tokens])
      | error span => exact starsApart_of_forall (by simp [Stmt.tokens])

end Stmt

theorem Param.starsApart (param : Param) : StarsApart param.tokens :=
  param.type.starsApart.append (starsApart_of_forall (by simp))

theorem Item.starsApart (item : Item) : StarsApart item.tokens := by
  induction item using Item.subitems_induction with
  | step item ih =>
      have words : ∀ modifiers : List String, StarsApart (modifiers.map Token.modifier) :=
        fun modifiers => starsApart_of_forall (by simp)
      cases item with
      | usingPath span path =>
          rw [Item.tokens]
          exact ((starsApart_pathTokens path).append (starsApart_of_forall (by simp))).cons _ (by decide)
      | namespaceOf span path items =>
          rw [Item.tokens, Item.allTokens_eq]
          have braces := ((StarsApart.flatMap ih).append (starsApart_singleton .braceClose (by simp))).cons .braceOpen (by decide)
          exact ((starsApart_pathTokens path).append braces).cons _ (by decide)
      | classOf span modifiers name members =>
          rw [Item.tokens, Item.allTokens_eq]
          have braces := ((StarsApart.flatMap ih).append (starsApart_singleton .braceClose (by simp))).cons .braceOpen (by decide)
          have named := (braces.cons (.ident name) (by simp)).cons (.keyword .classWord) (by decide)
          exact (words modifiers).append named
      | method span modifiers result name params body =>
          rw [Item.tokens, Stmt.allTokens_eq]
          have inside := StarsApart.flatMap fun stmt (_ : stmt ∈ body.stmts) => stmt.starsApart
          have braces := (inside.append (starsApart_singleton .braceClose (by simp))).cons .braceOpen (by decide)
          have listed := StarsApart.listed .comma (by decide)
            fun param (_ : param ∈ params) => param.starsApart
          have behind := (listed.append (braces.cons .parenClose (by decide))).cons .parenOpen (by decide)
          exact (words modifiers).append (result.starsApart.append (behind.cons _ (by simp)))
      | field span modifiers decl => exact (words modifiers).append decl.starsApart
      | statement span stmt => exact stmt.starsApart
      | error span => exact starsApart_of_forall (by simp [Item.tokens])

theorem SourceTree.starsApart (tree : SourceTree) : StarsApart tree.tokens := by
  rw [SourceTree.tokens, Item.allTokens_eq]
  exact .flatMap fun item _ => item.starsApart

end QueryLoop
