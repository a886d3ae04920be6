import QueryLoop.Parse
import QueryLoop.Proofs.Reading.Cleanly
import QueryLoop.Proofs.Spelling.Statements

namespace QueryLoop

open Parsing Parser

/-- The item ends with an `if` that has no `else`. -/
def Item.endsInIf : Item → Bool
  | .statement _ stmt => stmt.endsInIf
  | _ => false

/-- The tokens an item can start with. -/
def Token.startsItem (token : Token) : Bool :=
  token.startsStmt || match token with
    | .modifier _ | .keyword .usingWord | .keyword .namespaceWord | .keyword .classWord => true
    | _ => false

/-- The tokens that an item starts with and no statement does. -/
def Token.opensItem (token : Token) : Bool :=
  token.startsItem && !token.startsStmt

theorem Token.opensItem_of_startsStmt {token : Token} (starts : token.startsStmt = true) :
    token.opensItem = false := by
  simp [opensItem, starts]

theorem LocalDecl.head_tokens {decl : LocalDecl} (fits : decl.Fits) :
    ∃ name tokens, decl.tokens = .ident name :: tokens := by
  obtain ⟨named, nonempty, -⟩ := fits
  obtain ⟨name, tokens, spelled⟩ := TypeRef.head_tokens named
  obtain ⟨first, others, shape⟩ := List.exists_cons_of_ne_nil nonempty
  exact ⟨name, _, by rw [LocalDecl.tokens, shape, spelled]; rfl⟩

theorem Item.head_tokens {item : Item} (fits : item.Fits) :
    ∃ token tokens, item.tokens = token :: tokens ∧ token.startsItem = true := by
  cases item with
  | usingPath span path => exact ⟨_, _, by rw [tokens], rfl⟩
  | namespaceOf span path items => exact ⟨_, _, by rw [tokens], rfl⟩
  | classOf span modifiers name members =>
      rw [tokens]
      cases modifiers with
      | nil => exact ⟨_, _, rfl, rfl⟩
      | cons word modifiers => exact ⟨_, _, rfl, rfl⟩
  | method span modifiers result name params body =>
      obtain ⟨first, tokens, spelled⟩ := TypeRef.head_tokens fits.1
      rw [Item.tokens, spelled]
      cases modifiers with
      | nil => exact ⟨_, _, rfl, rfl⟩
      | cons word modifiers => exact ⟨_, _, rfl, rfl⟩
  | field span modifiers decl =>
      obtain ⟨word, others, rfl⟩ := List.exists_cons_of_ne_nil fits.1
      rw [Item.tokens]
      exact ⟨_, _, rfl, rfl⟩
  | statement span stmt =>
      obtain ⟨token, tokens, spelled, starts⟩ := Stmt.head_tokens (show stmt.Fits from fits)
      exact ⟨token, tokens, by rw [Item.tokens, spelled], by simp [Token.startsItem, starts]⟩
  | error span => exact fits.elim

theorem ne_else_of_startsItem {token : Token} (starts : token.startsItem = true) :
    token ≠ .keyword .elseWord := by
  rintro rfl
  simp [Token.startsItem, Token.startsStmt, Token.startsExpr] at starts

theorem Item.AllFit.head?_ne_else {items : List Item} {rest : List Token} (fit : Item.AllFit items)
    (ends : rest.head? ≠ some (.keyword .elseWord)) :
    (Item.allTokens items ++ rest).head? ≠ some (.keyword .elseWord) := by
  cases items with
  | nil => exact ends
  | cons first others =>
      obtain ⟨token, tokens, spelled, starts⟩ := Item.head_tokens fit.1
      simp [Item.allTokens, spelled, ne_else_of_startsItem starts]

theorem Item.AllFit.tokens_ne_nil {items : List Item} (fit : Item.AllFit items) :
    ∀ item ∈ items, item.tokens ≠ [] := by
  intro item listed
  obtain ⟨token, tokens, spelled, -⟩ := Item.head_tokens (Item.allFit_iff.mp fit item listed)
  simp [spelled]

namespace Grammar

variable {rest : List Token}

theorem yields_modifiers (words : List String)
    (ends : ∀ word, rest.head? ≠ some (.modifier word)) :
    (many modifier).Yields (words.map .modifier) rest (· = words) := by
  have each : ∀ before next behind, words = before ++ next :: behind →
      modifier.Yields [.modifier next] ((behind.flatMap fun word => [Token.modifier word]) ++ rest)
        (fun found => id found = id next) := fun _ next _ _ => yields_select rfl
  have stops : modifier.Refuses rest := by
    refine refuses_select fun token isHead => ?_
    cases token with
    | modifier word => exact absurd isHead (ends word)
    | _ => rfl
  rw [List.map_eq_flatMap]
  refine (Yields.many words each (fun _ _ => List.cons_ne_nil _ _) stops).mono fun found alike => ?_
  simpa using eq_of_forall₂ alike

theorem yields_modifiers1 {words : List String} (nonempty : words ≠ [])
    (ends : ∀ word, rest.head? ≠ some (.modifier word)) :
    (many1 modifier).Yields (words.map .modifier) rest (· = words) := by
  obtain ⟨first, others, rfl⟩ := List.exists_cons_of_ne_nil nonempty
  have one : modifier.Yields [.modifier first] (others.map .modifier ++ rest) (· = first) :=
    yields_select rfl
  refine Yields.bind [.modifier first] _ rfl one fun _ same => ?_
  exact (yields_modifiers others ends).map fun _ same' => by rw [same, same']

/-- Items of at most `bound` tokens are read back, unless a following `else` would be
read as part of them. -/
structure ItemsReadBack (bound : Nat) (reader : Parser Token Item) : Prop where
  yields : ∀ (written : Item) (rest : List Token), written.tokens.length ≤ bound → written.Fits →
    written.dangles = false →
    (written.endsInIf = true → rest.head? ≠ some (.keyword .elseWord)) →
      reader.Yields written.tokens rest (·.bare = written.bare)
  refuses : ∀ rest, rest.head? = none ∨ rest.head? = some .braceClose → reader.Refuses rest

variable {bound : Nat} {inner : Parser Token Item}

/-- Every item of several is read before the others, and they before no `else`. -/
theorem ItemsReadBack.each (readBack : ItemsReadBack bound inner) {items : List Item}
    (short : (Item.allTokens items).length ≤ bound) (fit : Item.AllFit items)
    (settled : Item.anyDangles items = false) (ends : rest.head? ≠ some (.keyword .elseWord))
    (before : List Item) (next : Item) (behind : List Item)
    (split : items = before ++ next :: behind) :
    inner.Yields next.tokens (behind.flatMap Item.tokens ++ rest) (·.bare = next.bare) := by
  rw [Item.allTokens_eq] at short
  rw [Item.allFit_iff] at fit
  rw [Item.anyDangles_eq_false] at settled
  have listed : next ∈ items := by simp [split]
  have fit' : Item.AllFit behind :=
    Item.allFit_iff.mpr fun item inside => fit item (by simp [split, inside])
  have ends' := fit'.head?_ne_else ends
  rw [Item.allTokens_eq] at ends'
  exact readBack.yields next _ (Nat.le_trans (length_flatMap_le_of_mem Item.tokens listed) short)
    (fit next listed) (settled next listed) fun _ => ends'

/-- Items one after the other. -/
theorem yields_items (readBack : ItemsReadBack bound inner) {items : List Item}
    (short : (Item.allTokens items).length ≤ bound) (fit : Item.AllFit items)
    (settled : Item.anyDangles items = false) (ends : rest.head? ≠ some (.keyword .elseWord))
    {reader : Parser Token Item}
    (same : ∀ tokens rest good, inner.Yields tokens rest good → reader.Yields tokens rest good)
    (stops : reader.Refuses rest) :
    (many reader).Yields (Item.allTokens items) rest
      fun found => found.map Item.bare = items.map Item.bare := by
  have each := readBack.each short fit settled ends
  rw [Item.allTokens_eq]
  exact (Yields.many items (fun before next behind split =>
    same _ _ _ (each before next behind split)) fit.tokens_ne_nil stops).mono
      fun found alike => eq_of_forall₂ alike

/-- An item that is not read as it is written, between others that are. -/
theorem gives_items_around (readBack : ItemsReadBack bound inner) {early late : List Item}
    {odd : List Token} {outcome : Outcome Token Item} {reader : Parser Token Item}
    (short : (Item.allTokens early).length ≤ bound) (short' : (Item.allTokens late).length ≤ bound)
    (fit : Item.AllFit early) (fit' : Item.AllFit late) (settled : Item.anyDangles early = false)
    (settled' : Item.anyDangles late = false) (ends : rest.head? ≠ some (.keyword .elseWord))
    (nonempty : odd ≠ []) (plain : odd.head? ≠ some (.keyword .elseWord))
    (same : ∀ tokens rest good, inner.Yields tokens rest good → reader.Yields tokens rest good)
    (here : reader.Gives odd (Item.allTokens late ++ rest) outcome) (stops : reader.Refuses rest) :
    (many reader).Gives (Item.allTokens early ++ (odd ++ Item.allTokens late)) rest
      fun used found errors => ∃ front own back before value behind,
        used = front ++ (own ++ back) ∧ front.map Lexeme.token = Item.allTokens early ∧
          own.map Lexeme.token = odd ∧ found = before ++ value :: behind ∧
          before.map Item.bare = early.map Item.bare ∧ outcome own value errors ∧
          behind.map Item.bare = late.map Item.bare := by
  rw [Item.allTokens_eq] at here
  rw [Item.allTokens_eq, Item.allTokens_eq]
  have ends' : ((odd ++ late.flatMap Item.tokens) ++ rest).head? ≠ some (.keyword .elseWord) := by
    obtain ⟨first, others, rfl⟩ := List.exists_cons_of_ne_nil nonempty
    simpa using plain
  have ahead := readBack.each short fit settled ends'
  have afterwards := readBack.each short' fit' settled' ends
  refine (Gives.many_around (fun before next behind split =>
    same _ _ _ (ahead before next behind split)) here (fun before next behind split =>
      same _ _ _ (afterwards before next behind split)) ?_ nonempty stops).mono ?_
  · intro item listed
    rcases listed with inEarly | inLate
    · exact fit.tokens_ne_nil item inEarly
    · exact fit'.tokens_ne_nil item inLate
  · rintro used found errors ⟨front, own, back, before, value, behind, split, spelled, spelled', rfl,
      likes, held, likes'⟩
    exact ⟨front, own, back, before, value, behind, split, spelled, spelled', rfl,
      eq_of_forall₂ likes, held, eq_of_forall₂ likes'⟩

theorem yields_members (readBack : ItemsReadBack bound inner) {items : List Item}
    (short : (Item.allTokens items).length ≤ bound) (fit : Item.AllFit items)
    (settled : Item.anyDangles items = false) :
    (many inner).Yields (Item.allTokens items) (.braceClose :: rest)
      fun found => found.map Item.bare = items.map Item.bare :=
  yields_items readBack short fit settled (by simp) (fun _ _ _ read => read)
    (readBack.refuses _ (.inr rfl))

/-- What an item makes of its span, up to spans. -/
def MakesLike (written : Item) (make : Span → Item) : Prop :=
  ∀ span, (make span).bare = written.bare

theorem yields_usingItem (span : Span) {path : List String} (nonempty : path ≠ []) :
    usingItem.Yields (.keyword .usingWord :: (pathTokens path ++ [.semicolon])) rest
      (MakesLike (.usingPath span path)) := by
  refine Yields.token_bind (Yields.bind _ _ rfl (yields_dottedName nonempty (by simp))
    fun _ same => yields_semicolon.map fun _ _ span => ?_)
  rw [Item.bare, Item.bare, same]

section
variable {tokens : List Token} {causes : List (Cause Token)}

theorem reports_members {good : List Item → Prop}
    (inside : (many inner).Reports tokens (.braceClose :: rest) causes good) :
    (members inner).Reports (.braceOpen :: (tokens ++ [.braceClose])) rest causes good :=
  Gives.recoverWith (Reports.between inside)

theorem reports_namespaceItem (span : Span) {path : List String} {items : List Item}
    (nonempty : path ≠ [])
    (inside : (many inner).Reports tokens (.braceClose :: rest) causes
      fun found => found.map Item.bare = items.map Item.bare) :
    (namespaceItem inner).Reports (.keyword .namespaceWord :: (pathTokens path ++
      .braceOpen :: (tokens ++ [.braceClose]))) rest causes
      (MakesLike (.namespaceOf span path items)) := by
  refine Reports.token_bind (Reports.behind _ _ rfl (yields_dottedName nonempty (by simp))
    fun _ same => (reports_members inside).map fun found alike span => ?_)
  rw [Item.bare, Item.bare, Item.bareAll_eq, Item.bareAll_eq, same, alike]

theorem reports_classItem (span : Span) (modifiers : List String) (name : String)
    {items : List Item}
    (inside : (many inner).Reports tokens (.braceClose :: rest) causes
      fun found => found.map Item.bare = items.map Item.bare) :
    (classItem inner).Reports (modifiers.map .modifier ++ .keyword .classWord :: .ident name ::
      .braceOpen :: (tokens ++ [.braceClose])) rest causes
      (MakesLike (.classOf span modifiers name items)) := by
  refine Reports.behind _ _ rfl (yields_modifiers modifiers (by simp)) fun _ same => ?_
  refine Reports.token_bind (Reports.behind [.ident name] _ rfl (yields_name name)
    fun _ same' => ?_)
  refine (reports_members inside).map fun found alike span => ?_
  rw [Item.bare, Item.bare, Item.bareAll_eq, Item.bareAll_eq, same, same', alike]

end

theorem yields_param {written : Param} (named : written.type.Named) :
    param.Yields written.tokens rest (·.bare = written.bare) := by
  refine Yields.bind _ _ rfl (yields_type named ⟨by simp, by simp⟩) fun _ same => ?_
  refine (yields_name written.name).map fun _ same' => ?_
  rw [Param.bare, Param.bare, same, same']

theorem yields_params {params : List Param} (named : ∀ param ∈ params, param.type.Named) :
    (separated param (token .comma)).Yields (Token.listed .comma Param.tokens params)
      (.parenClose :: rest) fun found => found.map Param.bare = params.map Param.bare := by
  cases params with
  | nil =>
      refine (Yields.separated_nil (Refuses.bind_first (refuses_type (by simp)))).mono ?_
      rintro _ rfl
      rfl
  | cons first others =>
      have each : ∀ before next behind, first :: others = before ++ next :: behind →
          param.Yields next.tokens ((behind.flatMap fun other => Token.comma :: other.tokens) ++
            Token.parenClose :: rest) (·.bare = next.bare) :=
        fun before next behind split => yields_param (named next (by simp [split]))
      exact Yields.orElse_left ((Yields.separated1 Token.comma first others each (by simp)).mono
        fun found alike => eq_of_forall₂ alike)

theorem reports_methodItem (span : Span) (modifiers : List String) {result : TypeRef}
    (name : String) {params : List Param} (body : MethodBody) {tokens : List Token}
    {causes : List (Cause Token)} (named : result.Named)
    (paramsNamed : ∀ param ∈ params, param.type.Named)
    (inside : (many stmt).Reports tokens (.braceClose :: rest) causes
      fun found => found.map Stmt.bare = body.stmts.map Stmt.bare) :
    methodItem.Reports (modifiers.map .modifier ++ (result.tokens ++ .ident name ::
        .parenOpen :: (Token.listed .comma Param.tokens params ++ .parenClose ::
          .braceOpen :: (tokens ++ [.braceClose])))) rest causes
      (MakesLike (.method span modifiers result name params body)) := by
  obtain ⟨first, others, spelled⟩ := TypeRef.head_tokens named
  refine Gives.labelled "method" (Reports.behind _ _ rfl (yields_modifiers modifiers
    (by simp [spelled])) fun _ same => ?_)
  refine Reports.behind _ _ rfl (yields_type named ⟨by simp, by simp⟩) fun _ same' => ?_
  refine Reports.behind [.ident name] _ rfl (yields_name name) fun _ same'' => ?_
  refine Reports.behind (.parenOpen :: (Token.listed .comma Param.tokens params ++ [.parenClose]))
    (.braceOpen :: (tokens ++ [.braceClose])) (by simp)
    (Yields.between (yields_params paramsNamed)) fun _ alike => ?_
  have read : methodBody.Reports (.braceOpen :: (tokens ++ [.braceClose])) rest causes
      fun found => found.stmts.map Stmt.bare = body.stmts.map Stmt.bare :=
    Gives.recoverWith ((reports_braced inside).map fun _ alike => alike)
  refine read.map fun found alike' span => ?_
  simp only [Item.bare, Stmt.bareAll_eq, same, same', same'', alike, alike']

theorem yields_fieldItem (span : Span) {modifiers : List String} {decl : LocalDecl}
    (nonempty : modifiers ≠ []) (fits : decl.Fits) :
    fieldItem.Yields (modifiers.map .modifier ++ decl.tokens) rest
      (MakesLike (.field span modifiers decl)) := by
  obtain ⟨name, tokens, spelled⟩ := LocalDecl.head_tokens fits
  refine Yields.bind _ _ rfl (yields_modifiers1 nonempty (by simp [spelled])) fun _ same => ?_
  rw [LocalDecl.tokens_eq fits.2.1]
  refine Yields.bind _ [.semicolon] rfl (yields_localDecl fits ⟨_, _, rfl, rfl⟩) fun _ alike => ?_
  refine yields_semicolon.map fun _ _ span => ?_
  rw [Item.bare, Item.bare, same, alike]

theorem refuses_usingItem (different : rest.head? ≠ some (.keyword .usingWord)) :
    usingItem.Refuses rest :=
  Refuses.bind_first (refuses_token different)

theorem refuses_namespaceItem (different : rest.head? ≠ some (.keyword .namespaceWord)) :
    (namespaceItem inner).Refuses rest :=
  Refuses.bind_first (refuses_token different)

theorem refuses_classItem (modifiers : List String)
    (plain : ∀ word, rest.head? ≠ some (.modifier word))
    (different : rest.head? ≠ some (.keyword .classWord)) :
    (classItem inner).Refuses (modifiers.map .modifier ++ rest) :=
  Refuses.bind_second (yields_modifiers modifiers plain) fun _ _ =>
    Refuses.bind_first (refuses_token different)

theorem not_opensDecl (different : ∀ name, rest.head? ≠ some (.ident name)) : ¬OpensDecl rest := by
  rintro ⟨type, name, tail, named, rfl⟩
  obtain ⟨first, tokens, spelled⟩ := TypeRef.head_tokens named
  exact different first (by rw [spelled]; rfl)

/-- A method starts with a type and a name, behind its modifiers. -/
theorem refuses_methodItem (plain : ∀ word, rest.head? ≠ some (.modifier word))
    (different : ¬OpensDecl rest) : methodItem.Refuses rest := by
  refine Refuses.labelled "method" (show Refuses _ ([] ++ rest) from
    Refuses.bind_second (yields_modifiers [] plain) fun _ _ => ?_)
  refine Refuses.bind_of_ensures ensures_type ?_
  rintro used tail type errors rfl ⟨spelled, named, -⟩
  refine Refuses.bind_first (refuses_name fun found isHead => different ?_)
  obtain ⟨others, shape⟩ := List.head?_eq_some_iff.mp isHead
  exact ⟨type, found, others, named, by rw [List.map_append, spelled, shape]⟩

/-- A type and a name with no parenthesis behind them are no method. -/
theorem refuses_methodItem_decl (modifiers : List String) {decl : LocalDecl} (fits : decl.Fits)
    (halted : Halted rest) :
    methodItem.Refuses (modifiers.map .modifier ++ ((decl.type.tokens ++
      Token.listed .comma Declarator.tokens decl.declarators) ++ rest)) := by
  obtain ⟨type, declarators⟩ := decl
  obtain ⟨named, nonempty, -⟩ := fits
  obtain ⟨⟨name, init, span⟩, others, rfl⟩ := List.exists_cons_of_ne_nil nonempty
  obtain ⟨first, tokens, starts⟩ := TypeRef.head_tokens named
  obtain ⟨behind, spelled, plain⟩ : ∃ behind : List Token,
      (type.tokens ++ Token.listed .comma Declarator.tokens (⟨name, init, span⟩ :: others)) ++ rest =
        type.tokens ++ .ident name :: behind ∧ behind.head? ≠ some .parenOpen := by
    cases init with
    | some init => exact ⟨_, by simp [Token.listed, Declarator.tokens]; rfl, by simp⟩
    | none =>
        cases others with
        | nil => exact ⟨rest, by simp [Token.listed, Declarator.tokens], halted.head?_ne rfl⟩
        | cons other others => exact ⟨_, by simp [Token.listed, Declarator.tokens]; rfl, by simp⟩
  simp only at spelled ⊢
  rw [spelled]
  refine Refuses.labelled "method" (Refuses.bind_second (yields_modifiers modifiers
    (by simp [starts])) fun _ _ => ?_)
  refine Refuses.bind_second (yields_type named ⟨by simp, by simp⟩) fun _ _ => ?_
  exact show Refuses _ ([.ident name] ++ behind) from Refuses.bind_second (yields_name name)
    fun _ _ => Refuses.bind_first (Refuses.between plain)

theorem head?_ne_of_opensItem {first other : Token} {tokens : List Token}
    (plain : first.opensItem = false) (opens : other.opensItem = true) :
    (first :: tokens).head? ≠ some other := by
  intro isHead
  obtain rfl : first = other := by simpa using isHead
  rw [opens] at plain
  cases plain

/-- A simple statement is no method, even without its semicolon. -/
theorem refuses_methodItem_simple {stmt : Stmt} (simple : stmt.isSimple = true) (fits : stmt.Fits)
    (halted : Halted rest) : methodItem.Refuses (stmt.tokens.dropLast ++ rest) := by
  cases stmt with
  | decl span declared =>
      rw [Stmt.tokens, LocalDecl.tokens_eq fits.2.1, List.dropLast_concat]
      exact refuses_methodItem_decl [] fits halted
  | expr span value =>
      have noDecl := not_opensDecl_append halted fits.2
      obtain ⟨token, tokens, spelled, starts⟩ := Expr.head_tokens fits.1
      rw [Stmt.tokens, List.dropLast_concat]
      rw [spelled] at noDecl ⊢
      have plain := Token.opensItem_of_startsStmt (show token.startsStmt = true by
        simp [Token.startsStmt, starts])
      exact refuses_methodItem (fun _ => head?_ne_of_opensItem plain rfl) noDecl
  | returnValue span value =>
      rw [Stmt.tokens_returnValue, List.dropLast_concat]
      exact refuses_methodItem (by simp) (not_opensDecl (by simp))
  | continueLoop span =>
      exact refuses_methodItem (by simp [Stmt.tokens]) (not_opensDecl (by simp [Stmt.tokens]))
  | breakLoop span =>
      exact refuses_methodItem (by simp [Stmt.tokens]) (not_opensDecl (by simp [Stmt.tokens]))
  | _ => cases simple

theorem refuses_methodItem_stmt {stmt : Stmt} (fits : stmt.Fits) :
    methodItem.Refuses (stmt.tokens ++ rest) := by
  by_cases simple : stmt.isSimple = true
  · rw [Stmt.tokens_of_isSimple simple fits, List.append_assoc]
    exact refuses_methodItem_simple simple fits ⟨_, _, rfl, rfl⟩
  · cases stmt with
    | error span => exact fits.elim
    | _ =>
        first
        | exact absurd rfl simple
        | exact refuses_methodItem (by simp [Stmt.tokens]) (not_opensDecl (by simp [Stmt.tokens]))

theorem refuses_fieldItem (plain : ∀ word, rest.head? ≠ some (.modifier word)) :
    fieldItem.Refuses rest := by
  refine Refuses.bind_first (Refuses.bind_first (refuses_select fun token isHead => ?_))
  cases token with
  | modifier word => exact absurd isHead (plain word)
  | _ => rfl

/-- The readings of an item, given how to read the items inside it. -/
abbrev itemKinds (item : Parser Token Item) : Parser Token (Span → Item) :=
  usingItem <|> namespaceItem item <|> classItem item <|> methodItem <|> fieldItem <|> stmtItem

theorem head?_modifiers (modifiers : List String) {first : Token} {tokens : List Token}
    {other : Token} (different : other ≠ first) (plain : ∀ word, other ≠ .modifier word) :
    ((modifiers.map Token.modifier ++ first :: tokens) ++ rest).head? ≠ some other := by
  cases modifiers with
  | nil => simpa using different.symm
  | cons word modifiers => simpa using (plain word).symm

section
variable {tokens : List Token} {outcome : Outcome Token (Span → Item)}

theorem gives_itemKinds_namespace
    (read : (namespaceItem inner).Gives (.keyword .namespaceWord :: tokens) rest outcome) :
    (itemKinds inner).Gives (.keyword .namespaceWord :: tokens) rest outcome :=
  Gives.orElse_right (refuses_usingItem (by simp)) (Gives.orElse_left read)

theorem gives_itemKinds_class (modifiers : List String)
    (read : (classItem inner).Gives (modifiers.map .modifier ++ .keyword .classWord :: tokens) rest
      outcome) :
    (itemKinds inner).Gives (modifiers.map .modifier ++ .keyword .classWord :: tokens) rest
      outcome := by
  refine Gives.orElse_right (refuses_usingItem ?_) (Gives.orElse_right
    (refuses_namespaceItem ?_) (Gives.orElse_left read))
  · exact head?_modifiers modifiers (by simp) (by simp)
  · exact head?_modifiers modifiers (by simp) (by simp)

/-- Methods and fields start with a type, behind their modifiers. -/
theorem gives_itemKinds_modified (modifiers : List String) {name : String}
    (read : (methodItem <|> fieldItem <|> stmtItem).Gives
      (modifiers.map .modifier ++ .ident name :: tokens) rest outcome) :
    (itemKinds inner).Gives (modifiers.map .modifier ++ .ident name :: tokens) rest outcome := by
  refine Gives.orElse_right (refuses_usingItem ?_) (Gives.orElse_right
    (refuses_namespaceItem ?_) (Gives.orElse_right ?_ read))
  · exact head?_modifiers modifiers (by simp) (by simp)
  · exact head?_modifiers modifiers (by simp) (by simp)
  · rw [List.append_assoc]
    exact refuses_classItem modifiers (by simp) (by simp)

theorem gives_itemKinds_stmt {first : Token} (plain : first.opensItem = false)
    (noMethod : methodItem.Refuses ((first :: tokens) ++ rest))
    (read : stmtItem.Gives (first :: tokens) rest outcome) :
    (itemKinds inner).Gives (first :: tokens) rest outcome := by
  have different : ∀ {other : Token}, other.opensItem = true →
      ((first :: tokens) ++ rest).head? ≠ some other := head?_ne_of_opensItem plain
  refine Gives.orElse_right (refuses_usingItem (different rfl)) ?_
  refine Gives.orElse_right (refuses_namespaceItem (different rfl)) ?_
  refine Gives.orElse_right (refuses_classItem [] (fun _ => different rfl) (different rfl)) ?_
  exact Gives.orElse_right noMethod
    (Gives.orElse_right (refuses_fieldItem fun _ => different rfl) read)

end

theorem reports_statementItem (span : Span) {stmt : Stmt} {first : Token} {tokens : List Token}
    {causes : List (Cause Token)} (starts : first.startsStmt = true)
    (noMethod : methodItem.Refuses ((first :: tokens) ++ rest))
    (read : Grammar.stmt.Reports (first :: tokens) rest causes (·.bare = stmt.bare)) :
    (itemKinds inner).Reports (first :: tokens) rest causes (MakesLike (.statement span stmt)) := by
  refine gives_itemKinds_stmt (Token.opensItem_of_startsStmt starts) noMethod
    (read.map fun found alike span => ?_)
  rw [Item.bare, Item.bare, alike]

theorem reports_itemRule {written : Item} {tokens : List Token} {causes : List (Cause Token)}
    (made : (itemKinds inner).Reports tokens rest causes (MakesLike written)) :
    (itemRule inner).Reports tokens rest causes (·.bare = written.bare) :=
  made.spanned.map fun found alike => alike found.2

theorem readBack_itemRule (readBack : ItemsReadBack bound inner) {written : Item}
    (short : written.tokens.length ≤ bound + 1) (fits : written.Fits)
    (settled : written.dangles = false)
    (ends : written.endsInIf = true → rest.head? ≠ some (.keyword .elseWord)) :
    (itemRule inner).Yields written.tokens rest (·.bare = written.bare) := by
  refine Reports.yields (reports_itemRule ?_)
  cases written with
  | usingPath span path =>
      rw [Item.tokens]
      exact Gives.orElse_left (yields_usingItem span fits).reports
  | namespaceOf span path items =>
      rw [Item.tokens] at short ⊢
      simp only [List.length_cons, List.length_append] at short
      exact gives_itemKinds_namespace (reports_namespaceItem span fits.1
        (yields_members readBack (by omega) fits.2 settled).reports)
  | classOf span modifiers name items =>
      rw [Item.tokens] at short ⊢
      simp only [List.length_cons, List.length_append] at short
      exact gives_itemKinds_class modifiers (reports_classItem span modifiers name
        (yields_members readBack (by omega) fits settled).reports)
  | method span modifiers result name params body =>
      obtain ⟨named, paramsNamed, fit⟩ := fits
      have whole : methodItem.Reports _ rest _ _ := reports_methodItem span modifiers name body
        named paramsNamed (yields_stmts (readBack_stmt _) (Nat.le_refl _) fit settled).reports
      obtain ⟨first, tokens, spelled⟩ := TypeRef.head_tokens named
      rw [Item.tokens]
      rw [spelled] at whole ⊢
      exact gives_itemKinds_modified modifiers (Gives.orElse_left whole)
  | field span modifiers decl =>
      obtain ⟨nonempty, declFits⟩ := fits
      have whole : fieldItem.Yields _ rest _ := yields_fieldItem span nonempty declFits
      have noMethod : methodItem.Refuses ((modifiers.map .modifier ++ decl.tokens) ++ rest) := by
        rw [List.append_assoc, LocalDecl.tokens_eq declFits.2.1, List.append_assoc]
        exact refuses_methodItem_decl modifiers declFits ⟨_, _, rfl, rfl⟩
      obtain ⟨first, tokens, spelled⟩ := LocalDecl.head_tokens declFits
      rw [Item.tokens]
      rw [spelled] at whole noMethod ⊢
      exact gives_itemKinds_modified modifiers
        (Gives.orElse_right noMethod (Gives.orElse_left whole.reports))
  | statement span stmt =>
      obtain ⟨token, tokens, spelled, starts⟩ := Stmt.head_tokens (show stmt.Fits from fits)
      have read := (readBack_stmt _).yields stmt rest (Nat.le_refl _) fits settled ends
      have noMethod : methodItem.Refuses (stmt.tokens ++ rest) := refuses_methodItem_stmt fits
      rw [Item.tokens]
      rw [spelled] at read noMethod ⊢
      exact reports_statementItem span starts noMethod read.reports
  | error span => exact fits.elim

theorem refuses_itemRule (ends : rest.head? = none ∨ rest.head? = some .braceClose) :
    (itemRule inner).Refuses rest := by
  have different : ∀ token : Token, token ≠ .braceClose → rest.head? ≠ some token := by
    intro token other isHead
    rw [isHead] at ends
    rcases ends with none_left | closing
    · simp at none_left
    · exact other (by simpa using closing)
  have plain : ∀ word, rest.head? ≠ some (.modifier word) := fun _ => different _ (by simp)
  refine Refuses.bind_first (Refuses.spanned ?_)
  refine Refuses.orElse (refuses_usingItem (different _ (by simp))) ?_
  refine Refuses.orElse (refuses_namespaceItem (different _ (by simp))) ?_
  refine Refuses.orElse (refuses_classItem [] plain (different _ (by simp))) ?_
  refine Refuses.orElse (refuses_methodItem plain (not_opensDecl fun _ => different _ (by simp))) ?_
  refine Refuses.orElse (refuses_fieldItem plain) (Refuses.bind_first ?_)
  exact (readBack_stmt 0).refuses rest ends

theorem itemsReadBack_itemRule (readBack : ItemsReadBack bound inner) :
    ItemsReadBack (bound + 1) (itemRule inner) :=
  ⟨fun _ _ => readBack_itemRule readBack, fun _ => refuses_itemRule⟩

theorem itemsReadBack_none : ItemsReadBack 0 fun cursor _ => .rejected (cursor.refusal []) where
  yields written _ short fits _ _ := by
    obtain ⟨token, tokens, spelled, -⟩ := Item.head_tokens fits
    rw [spelled] at short
    simp at short
  refuses _ _ _ _ _ := ⟨_, rfl⟩

theorem readBack_item (bound : Nat) : ItemsReadBack bound item where
  yields written rest _ fits settled ends := by
    refine Yields.recursive fun budget short => ?_
    exact (unrolled_of_step itemsReadBack_none (fun _ _ => itemsReadBack_itemRule) budget).yields
      written rest (Nat.le_succ_of_le short) fits settled ends
  refuses rest ends := by
    intro cursor furthest spelled
    exact (unrolled_of_step itemsReadBack_none (fun _ _ => itemsReadBack_itemRule)
      cursor.rest).refuses rest ends furthest spelled

/-- A tree that fits is read as it is written, unless an `else` dangles. -/
theorem yields_sourceTree {tree : SourceTree} (fits : tree.Fits) (settled : tree.dangles = false) :
    sourceTree.Yields tree.tokens [] (·.bare = tree.bare) := by
  have items := yields_items (readBack_item _) (Nat.le_refl _) fits settled (by simp)
    (fun _ _ _ => Yields.skipAndRetry)
    (Refuses.skipAndRetry_nil ((readBack_item 0).refuses [] (.inl rfl)))
  refine items.map fun found alike => ?_
  rw [SourceTree.bare, SourceTree.bare, Item.bareAll_eq, Item.bareAll_eq, alike]

end Grammar

end QueryLoop
