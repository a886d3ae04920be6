import QueryLoop.Proofs.Place.Covered
import QueryLoop.Proofs.Reading.Yields
import QueryLoop.Proofs.Spelling.Fitting

namespace QueryLoop

open Parsing Parser

namespace Parsing.Parser

variable {τ α : Type}

/-- Parts that are each spelled by what was read for them. -/
theorem Repeats.spelled (spell : α → List τ) (fine : α → Prop) {post : Post τ α}
    {used rest : List (Lexeme τ)} {values : List α} {errors : List (SyntaxError τ)}
    (repeated : Repeats post used rest values errors)
    (each : ∀ used rest value errors, post used rest value errors →
      used.map Lexeme.token = spell value ∧ fine value ∧ errors = []) :
    used.map Lexeme.token = values.flatMap spell ∧ (∀ value ∈ values, fine value) ∧
      errors = [] := by
  induction repeated with
  | nil rest => simp
  | cons first following ih =>
      obtain ⟨spelled, isFine, clean⟩ := each _ _ _ _ first
      obtain ⟨spelled', areFine, clean'⟩ := ih
      rw [List.map_append, spelled, spelled', clean, clean']
      exact ⟨rfl, List.forall_mem_cons.mpr ⟨isFine, areFine⟩, rfl⟩

/-- Parts with a token between two of them. -/
theorem ensures_separated1 [DecidableEq τ] {spell : α → List τ} {fine : α → Prop}
    {reader : Parser τ α} (mark : τ)
    (ensured : reader.Ensures fun used _ value errors =>
      used.map Lexeme.token = spell value ∧ fine value ∧ errors = []) :
    (separated1 reader (token mark)).Ensures fun used _ values errors =>
      (∃ first others, values = first :: others ∧ used.map Lexeme.token =
        spell first ++ others.flatMap fun other => mark :: spell other) ∧
      (∀ value ∈ values, fine value) ∧ errors = [] := by
  refine (ensured.separated1 (ensures_token mark) ?_).mono ?_
  · rintro used rest value errors ⟨lexeme, rfl, -, -⟩
    exact List.cons_ne_nil _ _
  · rintro used rest values errors ⟨front, back, value, others, early, late, rfl, rfl, rfl,
      ⟨spelled, isFine, rfl⟩, repeated⟩
    obtain ⟨spelled', areFine, rfl⟩ :=
      repeated.spelled (fun other => mark :: spell other) fine (by
        rintro used rest value errors ⟨_, back, _, _, rfl, rfl, ⟨lexeme, rfl, marked, rfl⟩,
          spelled, isFine, rfl⟩
        exact ⟨by simp [marked, spelled], isFine, rfl⟩)
    refine ⟨⟨value, others, rfl, ?_⟩, List.forall_mem_cons.mpr ⟨isFine, areFine⟩, rfl⟩
    rw [List.map_append, spelled, spelled']

end Parsing.Parser

namespace Grammar

variable {rest : List Token}

theorem yields_name (found : String) : name.Yields [.ident found] rest (· = found) :=
  Yields.labelled "identifier" (yields_select rfl)

theorem refuses_name (different : ∀ found, rest.head? ≠ some (.ident found)) :
    name.Refuses rest := by
  refine Refuses.labelled "identifier" (refuses_select fun token isHead => ?_)
  cases token with
  | ident found => exact absurd isHead (different found)
  | _ => rfl

theorem yields_dottedName {path : List String} (nonempty : path ≠ [])
    (ends : rest.head? ≠ some .dot) : dottedName.Yields (pathTokens path) rest (· = path) := by
  obtain ⟨first, others, rfl⟩ := List.exists_cons_of_ne_nil nonempty
  have each : ∀ before next behind, first :: others = before ++ next :: behind →
      name.Yields [.ident next]
        ((behind.flatMap fun other => [Token.dot, .ident other]) ++ rest)
        (fun found => id found = id next) :=
    fun _ next _ _ => yields_name next
  have read := Yields.separated1 Token.dot first others each ends
  exact read.mono fun found alike => by simpa using eq_of_forall₂ alike

theorem ensures_dottedName : dottedName.Ensures fun used _ path errors =>
    used.map Lexeme.token = pathTokens path ∧ path ≠ [] ∧ errors = [] := by
  have named : name.Ensures fun used _ found errors =>
      used.map Lexeme.token = [Token.ident found] ∧ True ∧ errors = [] := by
    refine ensures_name.mono ?_
    rintro used rest found errors ⟨lexeme, rfl, spelled, rfl⟩
    exact ⟨by simp [spelled], trivial, rfl⟩
  refine (ensures_separated1 Token.dot named).mono ?_
  rintro used rest path errors ⟨⟨first, others, rfl, spelled⟩, -, rfl⟩
  exact ⟨spelled, List.cons_ne_nil _ _, rfl⟩

/-- What ends a type. -/
def EndsType (rest : List Token) : Prop :=
  rest.head? ≠ some .dot ∧ rest.head? ≠ some (.sign .less)

/-- Types of at most `bound` tokens are read back. -/
def TypesReadBack (bound : Nat) (reader : Parser Token TypeRef) : Prop :=
  ∀ (found : TypeRef) (rest : List Token), found.tokens.length ≤ bound → found.Named →
    EndsType rest → reader.Yields found.tokens rest (·.bare = found.bare)

theorem yields_typeArgs {bound : Nat} {inner : Parser Token TypeRef}
    (readBack : TypesReadBack bound inner) {types : List TypeRef} (nonempty : types ≠ [])
    (short : (typeArgTokens types).length ≤ bound + 1) (named : ∀ type ∈ types, type.Named) :
    (typeArgs inner).Yields (typeArgTokens types) rest
      fun found => found.map TypeRef.bare = types.map TypeRef.bare := by
  obtain ⟨first, others, rfl⟩ := List.exists_cons_of_ne_nil nonempty
  have each : ∀ before next behind, first :: others = before ++ next :: behind →
      inner.Yields next.tokens ((behind.flatMap fun other => Token.comma :: other.tokens) ++
        Token.sign .greater :: rest) (·.bare = next.bare) := by
    intro before next behind split
    refine readBack next _ ?_ (named next (by simp [split])) ?_
    · have inside : next.tokens.length ≤ (Token.listed .comma TypeRef.tokens (first :: others)).length := by
        have whole : (first :: others).flatMap (fun type => Token.comma :: type.tokens) =
            Token.comma :: Token.listed .comma TypeRef.tokens (first :: others) := rfl
        have counted := congrArg List.length whole
        rw [split] at counted
        simp only [List.flatMap_append, List.flatMap_cons, List.length_append,
          List.length_cons] at counted
        rw [split]
        omega
      simp only [typeArgTokens, List.length_cons, List.length_append] at short
      omega
    · cases behind with
      | nil => exact ⟨by simp, by simp⟩
      | cons other behind => exact ⟨by simp, by simp⟩
  have read := Yields.separated1 Token.comma first others each (by simp)
  exact Yields.between (read.mono fun found alike => eq_of_forall₂ alike)

theorem readBack_typeRule {bound : Nat} {inner : Parser Token TypeRef}
    (readBack : TypesReadBack bound inner) : TypesReadBack (bound + 1) (typeRule inner) := by
  intro found rest short named ends
  obtain ⟨nonempty, args_named⟩ := TypeRef.named_iff.mp named
  have path_length : 0 < (pathTokens found.path).length := by
    obtain ⟨first, others, shape⟩ := List.exists_cons_of_ne_nil nonempty
    simp [shape, pathTokens, Token.listed]
  rw [TypeRef.tokens_eq] at short ⊢
  refine Yields.labelled "type" ?_
  have args : (Parser.optional (typeArgs inner)).Yields (typeArgTokens found.args) rest
      fun args => (args.getD []).map TypeRef.bare = found.args.map TypeRef.bare := by
    cases shape : found.args with
    | nil =>
        refine (Yields.optional_none (Refuses.between ends.2)).mono ?_
        rintro _ rfl
        rfl
    | cons first others =>
        rw [shape] at short args_named
        refine (Yields.optional_some (yields_typeArgs readBack (List.cons_ne_nil _ _) ?_
          args_named)).mono ?_
        · rw [List.length_append] at short
          omega
        · rintro _ ⟨args, rfl, alike⟩
          exact alike
  have path : dottedName.Yields (pathTokens found.path) (typeArgTokens found.args ++ rest)
      (· = found.path) := by
    refine yields_dottedName nonempty ?_
    cases shape : found.args with
    | nil => exact ends.1
    | cons first others => simp [typeArgTokens]
  have parts : (do
      let path ← dottedName
      let args ← Parser.optional (typeArgs inner)
      return (path, args.getD [])).Yields (pathTokens found.path ++ typeArgTokens found.args) rest
        fun parts => parts.1 = found.path ∧ parts.2.map TypeRef.bare = found.args.map TypeRef.bare :=
    Yields.bind _ _ rfl path fun _ same => args.map fun _ alike => ⟨same, alike⟩
  refine parts.spanned.map fun parts alike => ?_
  obtain ⟨path, args, span⟩ := found
  rw [TypeRef.bare, TypeRef.bare, TypeRef.bareAll_eq, TypeRef.bareAll_eq]
  simpa using alike

theorem yields_type {found : TypeRef} (named : found.Named) (ends : EndsType rest) :
    type.Yields found.tokens rest (·.bare = found.bare) := by
  have zero : TypesReadBack 0 fun cursor _ => .rejected (cursor.refusal []) := by
    intro found rest short named ends
    obtain ⟨nonempty, -⟩ := TypeRef.named_iff.mp named
    obtain ⟨first, others, shape⟩ := List.exists_cons_of_ne_nil nonempty
    rw [TypeRef.tokens_eq, shape] at short
    simp [pathTokens, Token.listed] at short
  refine Yields.recursive fun budget short => ?_
  exact unrolled_of_step zero (fun _ _ => readBack_typeRule) budget found rest
    (Nat.le_succ_of_le short) named ends

theorem ensures_typeArgs {inner : Parser Token TypeRef}
    (ensured : inner.Ensures fun used _ found errors =>
      used.map Lexeme.token = found.tokens ∧ found.Named ∧ errors = []) :
    (typeArgs inner).Ensures fun used _ types errors =>
      used.map Lexeme.token = typeArgTokens types ∧
        (types ≠ [] ∧ ∀ type ∈ types, type.Named) ∧ errors = [] := by
  refine ((ensures_token (Token.sign .less)).between (ensures_token (Token.sign .greater))
    (ensures_separated1 Token.comma ensured)).mono ?_
  rintro used rest types errors ⟨_, inside, _, _, _, _, rfl, rfl, ⟨opening, rfl, opened, rfl⟩,
    ⟨⟨first, others, rfl, spelled⟩, named, rfl⟩, closing, rfl, closed, rfl⟩
  refine ⟨?_, ⟨List.cons_ne_nil _ _, named⟩, rfl⟩
  simp [opened, closed, spelled, typeArgTokens, Token.listed]

theorem ensures_type : type.Ensures fun used _ found errors =>
    used.map Lexeme.token = found.tokens ∧ found.Named ∧ errors = [] := by
  refine ensures_recursive fun inner ensured => Ensures.labelled "type" ?_
  refine ((ensures_dottedName.bind fun path => (ensures_typeArgs ensured).optional.bind fun args =>
    ensures_pure (path, args.getD [])).spanned.bind fun found =>
      ensures_pure (⟨found.1.1, found.1.2, found.2⟩ : TypeRef)).mono ?_
  rintro used rest found errors ⟨_, _, _, _, _, rfl, rfl, ⟨⟨front, _, path, _, _, rfl, rfl,
    ⟨spelled, nonempty, rfl⟩, back, _, args, _, _, rfl, rfl, read, rfl, same, rfl⟩, -⟩, rfl, rfl, rfl⟩
  rw [TypeRef.tokens_eq, TypeRef.named_iff]
  simp only [same]
  rcases read with ⟨types, rfl, spelled', ⟨-, named⟩, rfl⟩ | ⟨rfl, rfl, rfl, -⟩
  · exact ⟨by simp [spelled, spelled'], ⟨nonempty, named⟩, rfl⟩
  · exact ⟨by simp [spelled, typeArgTokens], ⟨nonempty, by simp⟩, rfl⟩

theorem yields_memberTypeArgs {types : List TypeRef} (nonempty : types ≠ [])
    (named : ∀ type ∈ types, type.Named) (called : rest.head? = some .parenOpen) :
    memberTypeArgs.Yields (typeArgTokens types) rest
      fun found => found.map TypeRef.bare = types.map TypeRef.bare := by
  obtain ⟨behind, rfl⟩ : ∃ behind, rest = .parenOpen :: behind := by
    cases rest with
    | nil => simp at called
    | cons first behind => exact ⟨behind, by simpa using called⟩
  have read : (typeArgs type).Yields (typeArgTokens types) (.parenOpen :: behind)
      fun found => found.map TypeRef.bare = types.map TypeRef.bare :=
    yields_typeArgs (fun _ _ _ => yields_type) nonempty (Nat.le_succ _) named
  refine Yields.bind _ [] (List.append_nil _).symm read fun found alike => ?_
  exact (Yields.ahead (yields_token Token.parenOpen)).map fun _ _ => alike

theorem refuses_memberTypeArgs (plain : ¬OpensTypeArgs rest) : memberTypeArgs.Refuses rest := by
  refine refuses_of_ensures ((ensures_typeArgs ensures_type).bind fun types =>
    (ensures_token Token.parenOpen).ahead.bind fun _ => ensures_pure types) ?_
  rintro used tail value errors split ⟨front, _, types, _, _, rfl, -, ⟨spelled, ⟨nonempty, named⟩, -⟩,
    _, _, _, _, _, rfl, -, ⟨rfl, -, _, back, _, _, input, lexeme, rfl, opened, -⟩, rfl, -, -⟩
  refine plain ⟨types, back.map Lexeme.token, nonempty, named, ?_⟩
  have rest_eq : tail = lexeme :: back := by simpa using input
  rw [← split, rest_eq, ← spelled]
  simp [opened]

end Grammar

end QueryLoop
