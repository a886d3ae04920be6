import QueryLoop.Format.Tree
import QueryLoop.Proofs.Place.Statements
import QueryLoop.Proofs.Printing.Documents

namespace QueryLoop

open Layout Doc Token Token.Lexer

/-- Tokens that start with an equals sign. -/
def Token.isEqualLike : Token → Bool
  | .assign | .arrow | .sign .equal => true
  | _ => false

theorem Token.Lexer.Spelled.head_ne {token : Token} {written rest : List Char}
    (spelled : Spelled token written rest) (different : token.isEqualLike = false) :
    written.head? ≠ some '=' := by
  cases spelled with
  | word starts goesOn ends =>
      intro isHead
      obtain rfl := Option.some.inj isHead
      cases starts
  | int whole ends noFraction =>
      rcases whole with ⟨first, others, rfl, isDigit, -⟩ | rfl
      · intro isHead
        obtain rfl := Option.some.inj isHead
        cases isDigit
      · decide
  | float whole nonempty allDigits ends =>
      rcases whole with ⟨first, others, rfl, isDigit, -⟩ | rfl
      · intro isHead
        obtain rfl := Option.some.inj isHead
        cases isDigit
      · exact (nomatch · : some '0' ≠ some '=')
  | string each => exact (nomatch · : some '"' ≠ some '=')
  | longSign listed =>
      have signs : ∀ sign ∈ longSigns, sign.2.isEqualLike = false → sign.1.head? ≠ some '=' := by
        decide
      exact signs _ listed different
  | @shortSign c rest listed short noComment =>
      have signs : ∀ c ∈ shortSigns, (ofShortSign c).isEqualLike = false → c ≠ '=' :=
        List.all_iff_forall_prop.mp (by decide)
      exact fun isHead => signs c listed different (Option.some.inj isHead)
  | @separator c rest listed =>
      have signs : ∀ c ∈ separators, c ≠ '=' := List.all_iff_forall_prop.mp (by decide)
      exact fun isHead => signs c listed (Option.some.inj isHead)
  | @bracket c rest listed =>
      have signs : ∀ c ∈ brackets, c ≠ '=' := List.all_iff_forall_prop.mp (by decide)
      exact fun isHead => signs c listed (Option.some.inj isHead)
  | lineComment plain ends => exact (nomatch · : some '/' ≠ some '=')
  | blockComment plain => exact (nomatch · : some '/' ≠ some '=')

/-- A text starts with an equals sign only if its first token does. -/
theorem Token.Scans.head_ne {front rest : List Char} {tokens : List Token}
    (scans : Scans front tokens rest)
    (different : ∀ token ∈ tokens.head?, token.isEqualLike = false)
    (behind : rest.head? ≠ some '=') : (front ++ rest).head? ≠ some '=' := by
  cases scans with
  | nil rest => exact behind
  | blank isBlank following =>
      intro isHead
      obtain rfl := Option.some.inj isHead
      cases isBlank
  | @token token written front rest tokens spelled following =>
      obtain ⟨c, others, rfl, -⟩ := spelled.starts
      exact spelled.head_ne (different token rfl)

variable {rest : List Char}

theorem spelled_dot (rest : List Char) : Spelled .dot ['.'] rest :=
  .separator (c := '.') (by decide)

theorem readAs_path {path : List String} (proper : ∀ name ∈ path, (ident name).Proper) :
    ReadAs (".".intercalate path).toList (pathTokens path) := by
  rw [String.toList_intercalate]
  induction path with
  | nil => exact fun rest _ => .nil rest
  | cons name path ih =>
      obtain ⟨own, others⟩ := List.forall_mem_cons.mp proper
      intro rest parting
      cases path with
      | nil =>
          have single : Scans name.toList [ident name] rest := own.scans rfl parting
          simpa [pathTokens, Token.listed, List.intercalate] using single
      | cons next path =>
          let tail := ".".toList.intercalate ((next :: path).map String.toList)
          obtain ⟨more, shape⟩ : ∃ more, tail = next.toList ++ more := by
            cases path with
            | nil => exact ⟨[], by simp [tail, List.intercalate]⟩
            | cons third path => exact ⟨_, by simp [tail, List.intercalate]; rfl⟩
          have noDigit : NoDigit (tail ++ rest) := by
            rw [shape, List.append_assoc]
            exact (others next List.mem_cons_self).noDigit (more ++ rest)
          have behind : Scans ('.' :: tail) (.dot :: pathTokens (next :: path)) rest :=
            .token (spelled_dot (tail ++ rest)) (ih others rest parting)
          have first : Scans name.toList [ident name] ('.' :: tail ++ rest) :=
            own.scans rfl (.dot noDigit)
          simpa [pathTokens, Token.listed, List.intercalate, tail] using first.append behind

theorem proper_of_pathTokens {path : List String}
    (proper : ∀ token ∈ pathTokens path, token.Proper) : ∀ name ∈ path, (ident name).Proper :=
  fun _ isName => proper _ (mem_listed isName (List.mem_singleton_self _))

theorem lays_dottedDoc {path : List String} {chars : List Char} :
    (dottedDoc path).Lays chars ↔ chars = (".".intercalate path).toList := by
  rw [String.toList_intercalate]
  induction path generalizing chars with
  | nil => exact Iff.rfl
  | cons name path ih =>
      cases path with
      | nil => simp [dottedDoc, intersperse, Lays, List.intercalate]
      | cons next path =>
          constructor
          · rintro ⟨_, _, rfl, rfl, _, _, rfl, rfl, laid⟩
            rw [ih.mp laid]
            simp [List.intercalate]
          · rintro rfl
            exact ⟨_, _, by simp [List.intercalate], rfl, _, _, rfl, rfl, ih.mpr rfl⟩

theorem writes_dottedDoc {path : List String} (proper : ∀ token ∈ pathTokens path, token.Proper) :
    (dottedDoc path).Writes (pathTokens path) := by
  intro chars laid
  rw [lays_dottedDoc.mp laid]
  exact readAs_path (proper_of_pathTokens proper)

theorem isEqualLike_head_tokens (type : TypeRef) :
    ∀ token ∈ type.tokens.head?, token.isEqualLike = false := by
  obtain ⟨path, args, span⟩ := type
  rw [TypeRef.tokens_eq]
  cases path with
  | nil => cases args <;> simp [pathTokens, Token.listed, typeArgTokens, Token.isEqualLike]
  | cons first others => simp [pathTokens, Token.listed, Token.isEqualLike]

theorem isEqualLike_head_listed (types : List TypeRef) : ∀ token ∈
    (Token.listed .comma TypeRef.tokens types).head?, token.isEqualLike = false := by
  cases types with
  | nil => simp [Token.listed]
  | cons first others =>
      have own := isEqualLike_head_tokens first
      cases spelled : first.tokens with
      | nil => cases others <;> simp [Token.listed, spelled, Token.isEqualLike]
      | cons token tokens => simpa [Token.listed, spelled] using own

/-- Types between angle brackets. -/
theorem writes_typeArgsDoc {types : List TypeRef}
    (each : ∀ type ∈ types, ReadAs type.text.toList type.tokens) :
    (typeArgsDoc types).Writes (typeArgTokens types) := by
  cases types with
  | nil =>
      rintro chars rfl rest -
      exact .nil rest
  | cons first others =>
      rintro chars ⟨_, _, rfl, rfl, inside, _, rfl, laid, rfl⟩ rest parting
      have listed := writes_intersperse (fun type : TypeRef => text type.text) closes_comma
        parts_comma (fun type isType chars same => same ▸ each type isType) inside laid
      have noEqual : rest.head? ≠ some '=' := fun isHead => (parting.plain '=' isHead).2 rfl
      have closing : Scans ['>'] [.sign .greater] rest :=
        .single (spelled_tight (c := '>') (by decide) noEqual)
      have types := listed ('>' :: rest) (.cons (by decide))
      have opening : Spelled (.sign .less) ['<'] (inside ++ ['>'] ++ rest) := by
        refine spelled_tight (c := '<') (by decide) ?_
        rw [List.append_assoc]
        exact types.head_ne (isEqualLike_head_listed _) (nomatch ·)
      exact .token opening (Scans.append types closing)

theorem passes_typeArgsDoc (types : List TypeRef) : (typeArgsDoc types).Passes := by
  cases types with
  | nil =>
      rintro chars rfl rest parting
      exact parting
  | cons first others =>
      exact (Parts.append (parts_text (c := '<') rfl (by decide))).passes

theorem TypeRef.sizeOf_lt_of_mem_args {type arg : TypeRef} (inside : arg ∈ type.args) :
    sizeOf arg < sizeOf type := by
  obtain ⟨path, args, span⟩ := type
  have smaller : sizeOf arg < sizeOf args := List.sizeOf_lt_of_mem inside
  simp only [TypeRef.mk.sizeOf_spec]
  omega

theorem TypeRef.args_induction {motive : TypeRef → Prop}
    (step : ∀ type : TypeRef, (∀ arg ∈ type.args, motive arg) → motive type) (type : TypeRef) :
    motive type :=
  step type fun arg _ => args_induction step arg
termination_by sizeOf type
decreasing_by exact TypeRef.sizeOf_lt_of_mem_args ‹_›

theorem mem_typeArgTokens {types : List TypeRef} {type : TypeRef} (isType : type ∈ types)
    {token : Token} (listed : token ∈ type.tokens) : token ∈ typeArgTokens types := by
  cases types with
  | nil => simp at isType
  | cons first others =>
      exact List.mem_cons_of_mem _ (List.mem_append_left _ (mem_listed isType listed))

theorem TypeRef.lays_restText (first : TypeRef) (others : List TypeRef) :
    (intersperse (Doc.text ", ") ((first :: others).map fun type => Doc.text type.text)).Lays
      (first.text.toList ++ (TypeRef.restText others).toList) := by
  induction others generalizing first with
  | nil => simp [intersperse, Lays, TypeRef.restText]
  | cons next others ih =>
      refine ⟨_, _, rfl, rfl, ", ".toList, _, ?_, rfl, ih next⟩
      simp [TypeRef.restText]

/-- The text of a type is the only layout of its parts. -/
theorem TypeRef.lays_text (type : TypeRef) :
    (dottedDoc type.path ++ typeArgsDoc type.args).Lays type.text.toList := by
  obtain ⟨path, args, span⟩ := type
  cases args with
  | nil => exact ⟨_, [], by simp [TypeRef.text], lays_dottedDoc.mpr rfl, rfl⟩
  | cons first others =>
      refine ⟨_, _, ?_, lays_dottedDoc.mpr rfl, "<".toList, _, rfl, rfl, _, ">".toList, rfl,
        TypeRef.lays_restText first others, rfl⟩
      simp [TypeRef.text]

/-- The text of a type is read as its tokens. -/
theorem TypeRef.readAs (type : TypeRef) (proper : ∀ token ∈ type.tokens, token.Proper) :
    ReadAs type.text.toList type.tokens := by
  induction type using TypeRef.args_induction with
  | step type ih =>
      rw [TypeRef.tokens_eq] at proper ⊢
      obtain ⟨inPath, inArgs⟩ := List.forall_mem_append.mp proper
      have each : ∀ arg ∈ type.args, ReadAs arg.text.toList arg.tokens := fun arg isArg =>
        ih arg isArg fun token listed => inArgs token (mem_typeArgTokens isArg listed)
      exact (writes_dottedDoc inPath).append (passes_typeArgsDoc type.args)
        (writes_typeArgsDoc each) _ type.lays_text

theorem TypeRef.writes (type : TypeRef) (proper : ∀ token ∈ type.tokens, token.Proper) :
    (Doc.text type.text).Writes type.tokens := by
  rintro chars rfl
  exact type.readAs proper

/-- Tokens that an expression starts with. -/
def Token.opensOperand : Token → Bool
  | .ident _ | .int _ | .float _ | .string _ | .keyword _ | .parenOpen | .blockComment _ => true
  | .sign .not | .sign .minus => true
  | _ => false

theorem Token.isEqualLike_of_opensOperand {token : Token} (opens : token.opensOperand = true) :
    token.isEqualLike = false := by
  unfold opensOperand at opens
  split at opens <;> first | rfl | simp at opens

theorem Literal.text_token (value : Literal) : value.token.text = value.text := by
  cases value with
  | bool value => cases value <;> rfl
  | _ => rfl

theorem Expr.docs_eq_map (format : Format) (exprs : List Expr) :
    Expr.docs format exprs = exprs.map (Expr.doc format) := by
  induction exprs with
  | nil => rw [Expr.docs]; rfl
  | cons expr exprs ih => rw [Expr.docs, ih, List.map_cons]

theorem Expr.opensOperand_headToken (expr : Expr) : expr.headToken.opensOperand = true := by
  cases expr with
  | literal span value =>
      cases value with
      | bool value => cases value <;> rfl
      | _ => rfl
  | ident | new | lambda | paren | error => rfl
  | unary span op operand => cases op <;> rfl
  | member | call | index | binary | assign =>
      rw [headToken]
      exact opensOperand_headToken _

variable {format : Format}

/-- Arguments in parentheses are read whatever follows. -/
theorem closes_argumentList {args : List Expr}
    (each : ∀ arg ∈ args, (arg.doc format).Writes arg.tokens) :
    (argumentList format (Expr.docs format args)).Closes (Expr.argTokens args) := by
  rw [Expr.docs_eq_map, Expr.argTokens_eq]
  cases args with
  | nil =>
      rintro chars rfl rest
      exact .token (.bracket (c := '(') (by decide)) (.single (.bracket (c := ')') (by decide)))
  | cons first others =>
      have comma : (text "," ++ line " ").Closes [.comma] :=
        (closes_separator (c := ',') rfl (by decide)).append (blanks_line blanks_space).closes
      have listed := writes_intersperse (fun arg : Expr => group (arg.doc format)) comma
        (parts_text (c := ',') rfl (by decide)).append each
      have mapped : (first :: others).map (fun arg => group (arg.doc format)) =
          ((first :: others).map (Expr.doc format)).map group := List.map_map.symm
      rw [mapped] at listed
      exact closes_parentheses
        ((blanks_softline.closes.append_writes listed).append_blanks blanks_softline)

theorem parts_argumentList (docs : List Doc) : (argumentList format docs).Parts := by
  cases docs with
  | nil => exact parts_text (c := '(') rfl (by decide)
  | cons first others => exact parts_parentheses

theorem mem_argTokens {args : List Expr} {arg : Expr} (isArg : arg ∈ args) {token : Token}
    (listed : token ∈ arg.tokens) : token ∈ Expr.argTokens args := by
  rw [Expr.argTokens_eq]
  exact List.mem_cons_of_mem _ (List.mem_append_left _ (mem_listed isArg listed))

/-- A name behind a dot, which is no fraction of a number in front of it. -/
theorem Layout.Doc.Writes.dotted {target args : Doc} {name : String} {tokens argTokens : List Token}
    (writes : target.Writes tokens) (isName : (ident name).Proper) (passes : args.Passes)
    (writes' : args.Writes argTokens) :
    (target ++ text "." ++ text name ++ args).Writes
      (tokens ++ .dot :: .ident name :: argTokens) := by
  rintro chars ⟨_, back, rfl, ⟨_, _, rfl, ⟨front, _, rfl, laid, rfl⟩, rfl⟩, laid'⟩ rest parting
  have named : Scans name.toList [.ident name] (back ++ rest) :=
    isName.scans rfl (passes back laid' rest parting)
  have dotted := Scans.token (spelled_dot _) (named.append (writes' back laid' rest parting))
  have noDigit : NoDigit (name.toList ++ back ++ rest) := by
    rw [List.append_assoc]
    exact isName.noDigit (back ++ rest)
  have before := writes front laid ('.' :: (name.toList ++ back ++ rest)) (.dot noDigit)
  simpa using before.append dotted

/-- A sign directly in front of an operand, which starts with no equals sign. -/
theorem writes_unary (op : UnaryOp) {operand : Expr}
    (writes : (operand.doc format).Writes operand.tokens) :
    (text op.text ++ operand.doc format).Writes (.sign op.sign :: operand.tokens) := by
  rintro chars ⟨_, back, rfl, rfl, laid⟩ rest parting
  have scans := writes back laid rest parting
  refine .token (spelled_unary op ?_) scans
  obtain ⟨tokens, spelled⟩ := operand.exists_tokens_eq
  refine scans.head_ne ?_ fun isHead => (parting.plain '=' isHead).2 rfl
  simpa [spelled] using Token.isEqualLike_of_opensOperand operand.opensOperand_headToken

/-- A sign between two operands, with a space in front and a space or a line end behind. -/
theorem Layout.Doc.Writes.binary {lhs rhs : Doc} {left right : List Token} (op : BinaryOp)
    (writes : lhs.Writes left) (writes' : rhs.Writes right) :
    (lhs ++ text " " ++ text op.text ++ line " " ++ rhs).Writes
      (left ++ .sign op.sign :: right) := by
  have sign : (text op.text ++ line " ").Closes [.sign op.sign] :=
    closes_before_spaces (blanks_line blanks_space) (spaces_line spaces_space)
      fun isBlank _ => .single (spelled_binary op isBlank)
  have front := ((writes.append_spaces blanks_space spaces_space).append sign).assoc
  simpa using front.append_writes writes'

theorem closes_assign : (text " = ").Closes [.assign] :=
  closes_between_spaces ['='] rfl fun _ =>
    .single (spelled_before_blank (c := '=') (by decide) (by decide))

theorem closes_arrow : (text " => ").Closes [.arrow] :=
  closes_between_spaces ['=', '>'] rfl fun _ => .single (.longSign (by decide))

/-- Every layout of an expression is read as its tokens. -/
theorem Expr.writes (expr : Expr) (proper : ∀ token ∈ expr.tokens, token.Proper) :
    (expr.doc format).Writes expr.tokens := by
  induction expr using Expr.parts_induction with
  | step expr ih =>
      cases expr with
      | literal span value =>
          rw [Expr.tokens] at proper ⊢
          rw [Expr.doc, ← value.text_token]
          refine writes_token (proper _ List.mem_cons_self) ?_
          cases value with
          | bool value => cases value <;> rfl
          | _ => rfl
      | ident span name =>
          rw [Expr.tokens] at proper ⊢
          rw [Expr.doc]
          exact writes_token (proper _ List.mem_cons_self) rfl
      | member span target name typeArgs =>
          rw [Expr.tokens] at proper ⊢
          rw [Expr.doc]
          simp only [List.forall_mem_append, List.forall_mem_cons] at proper
          obtain ⟨inTarget, -, isName, inArgs⟩ := proper
          have typed := writes_typeArgsDoc fun type isType => type.readAs fun token listed =>
            inArgs token (mem_typeArgTokens isType listed)
          exact (ih target List.mem_cons_self inTarget).dotted isName
            (passes_typeArgsDoc typeArgs) typed
      | call span callee args =>
          rw [Expr.tokens] at proper ⊢
          rw [Expr.doc]
          obtain ⟨inCallee, inArgs⟩ := List.forall_mem_append.mp proper
          have given := closes_argumentList fun arg isArg =>
            ih arg (List.mem_cons_of_mem _ isArg) fun token listed =>
              inArgs token (mem_argTokens isArg listed)
          exact ((ih callee List.mem_cons_self inCallee).append_closes
            (parts_argumentList _) given).writes
      | index span target position =>
          rw [Expr.tokens] at proper ⊢
          rw [Expr.doc]
          simp only [List.forall_mem_append, List.forall_mem_cons] at proper
          obtain ⟨inTarget, -, inPosition, -⟩ := proper
          have opening : (text "[").Closes [.bracketOpen] :=
            closes_bracket (c := '[') rfl (by decide)
          have enclosed : (enclose "[" "]" (position.doc format)).Closes _ :=
            closes_enclose opening (ih position (by simp [parts]) inPosition) (c := ']') rfl (by decide)
          exact ((ih target List.mem_cons_self inTarget).append_closes
            (parts_bracket (c := '[') rfl (by decide)).append enclosed).writes
      | new span type args =>
          rw [Expr.tokens] at proper ⊢
          rw [Expr.doc]
          simp only [List.forall_mem_append, List.forall_mem_cons] at proper
          obtain ⟨-, inType, inArgs⟩ := proper
          have given := closes_argumentList fun arg isArg =>
            ih arg isArg fun token listed => inArgs token (mem_argTokens isArg listed)
          exact (((closes_word .newWord rfl).append_writes (type.writes inType)).append_closes
            (parts_argumentList _) given).writes
      | unary span op operand =>
          rw [Expr.tokens] at proper ⊢
          rw [Expr.doc]
          exact writes_unary op (ih operand List.mem_cons_self (List.forall_mem_cons.mp proper).2)
      | binary span op lhs rhs =>
          rw [Expr.tokens] at proper ⊢
          rw [Expr.doc]
          simp only [List.forall_mem_append, List.forall_mem_cons] at proper
          obtain ⟨inLhs, -, inRhs⟩ := proper
          exact (ih lhs List.mem_cons_self inLhs).binary op (ih rhs (by simp [parts]) inRhs)
      | assign span lhs rhs =>
          rw [Expr.tokens] at proper ⊢
          rw [Expr.doc]
          simp only [List.forall_mem_append, List.forall_mem_cons] at proper
          obtain ⟨inLhs, -, inRhs⟩ := proper
          have front := (ih lhs List.mem_cons_self inLhs).append_closes
            (parts_text (c := ' ') rfl (by decide)) closes_assign
          simpa using front.append_writes (ih rhs (by simp [parts]) inRhs)
      | lambda span param body =>
          rw [Expr.tokens] at proper ⊢
          rw [Expr.doc]
          simp only [List.forall_mem_cons] at proper
          obtain ⟨isParam, -, inBody⟩ := proper
          have front := (writes_token isParam rfl).append_closes
            (parts_text (c := ' ') rfl (by decide)) closes_arrow
          exact front.append_writes (ih body List.mem_cons_self inBody)
      | paren span inner =>
          rw [Expr.tokens] at proper ⊢
          rw [Expr.doc]
          simp only [List.forall_mem_append, List.forall_mem_cons] at proper
          exact (closes_parentheses (ih inner List.mem_cons_self proper.2.1)).writes
      | error span =>
          rw [Expr.tokens, Expr.doc]
          exact closes_error.writes

end QueryLoop
