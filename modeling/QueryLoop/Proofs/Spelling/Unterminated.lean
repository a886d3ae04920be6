import QueryLoop.Proofs.Place.Replaced
import QueryLoop.Proofs.Reading.Reports
import QueryLoop.Proofs.Spelling.Layout

namespace QueryLoop

open Parsing Parser

/-- A block ends or a statement starts with the token. -/
def Token.resumes : Token → Bool
  | .braceClose | .keyword .foreachWord | .keyword .ifWord | .keyword .whileWord
  | .keyword .continueWord | .keyword .breakWord | .keyword .returnWord => true
  | _ => false

/-- The tokens start with one that resumes. -/
def Resumes (tokens : List Token) : Prop :=
  ∃ token ∈ tokens.head?, token.resumes = true

theorem Grammar.terminates_nothing {rest : List Token} (resumes : Resumes rest) :
    Terminates [] rest [.missingSemicolon] := by
  obtain ⟨token, isHead, holds⟩ := resumes
  obtain ⟨others, rfl⟩ := List.head?_eq_some_iff.mp isHead
  refine ⟨reports_semicolon ?_, ⟨token, others, rfl, ?_⟩, ?_⟩
  · rintro isSemicolon
    obtain rfl : token = .semicolon := by simpa using isSemicolon
    cases holds
  · cases token <;> first | rfl | cases holds
  · intro first isFirst
    obtain rfl : token = first := by simpa using isFirst
    cases token with
    | keyword word => cases word <;> first | rfl | cases holds
    | _ => first | rfl | cases holds

/-- A simple statement starts in front of its semicolon. -/
theorem Stmt.head_dropLast {stmt : Stmt} (simple : stmt.isSimple = true) (fits : stmt.Fits) :
    ∃ token tokens, stmt.tokens.dropLast = token :: tokens ∧ token.startsStmt = true := by
  cases stmt with
  | continueLoop span => exact ⟨_, _, by rw [tokens]; rfl, rfl⟩
  | breakLoop span => exact ⟨_, _, by rw [tokens]; rfl, rfl⟩
  | returnValue span value => exact ⟨_, _, by rw [tokens_returnValue, List.dropLast_concat], rfl⟩
  | decl span declared =>
      obtain ⟨name, tokens, spelled⟩ := TypeRef.head_tokens fits.1
      refine ⟨.ident name, tokens ++ Token.listed .comma Declarator.tokens declared.declarators, ?_,
        rfl⟩
      rw [Stmt.tokens, LocalDecl.tokens_eq fits.2.1, List.dropLast_concat, spelled]
      rfl
  | expr span value =>
      obtain ⟨token, tokens, spelled, starts⟩ := Expr.head_tokens fits.1
      exact ⟨token, tokens, by rw [Stmt.tokens, List.dropLast_concat, spelled],
        by simp [Token.startsStmt, starts]⟩
  | _ => cases simple

theorem Stmt.length_of_isSimple {stmt : Stmt} (simple : stmt.isSimple = true) (fits : stmt.Fits) :
    stmt.tokens.length = stmt.tokens.dropLast.length + 1 := by
  have terminated := congrArg List.length (tokens_of_isSimple simple fits)
  rwa [List.length_append] at terminated

namespace Stmt.Hole

def tokensAhead : Hole → List Token
  | here => []
  | inBlock _ front hole _ => .braceOpen :: (Stmt.allTokens front ++ hole.tokensAhead)
  | inIfThen _ cond hole | inBody _ cond hole _ =>
      .keyword .ifWord :: .parenOpen :: (cond.tokens ++ .parenClose :: hole.tokensAhead)
  | inOtherwise _ cond body hole =>
      .keyword .ifWord :: .parenOpen :: (cond.tokens ++ .parenClose :: (body.tokens ++
        .keyword .elseWord :: hole.tokensAhead))
  | inForeach _ type var _ seq hole =>
      .keyword .foreachWord :: .parenOpen :: (type.tokens ++ .ident var :: .keyword .inWord ::
        (seq.tokens ++ .parenClose :: hole.tokensAhead))
  | inWhile _ cond hole =>
      .keyword .whileWord :: .parenOpen :: (cond.tokens ++ .parenClose :: hole.tokensAhead)

def tokensBehind : Hole → List Token
  | here => []
  | inBlock _ _ hole back => hole.tokensBehind ++ (Stmt.allTokens back ++ [.braceClose])
  | inBody _ _ hole otherwise => hole.tokensBehind ++ .keyword .elseWord :: otherwise.tokens
  | inIfThen _ _ hole | inOtherwise _ _ _ hole | inForeach _ _ _ _ _ hole | inWhile _ _ hole =>
      hole.tokensBehind

/-- The tokens of the filled hole, except for the last one of the statement in it. -/
def unterminated (stmt : Stmt) (hole : Hole) : List Token :=
  hole.tokensAhead ++ (stmt.tokens.dropLast ++ hole.tokensBehind)

theorem tokens_fill (stmt : Stmt) (hole : Hole) :
    (hole.fill stmt).tokens = hole.tokensAhead ++ (stmt.tokens ++ hole.tokensBehind) := by
  induction hole <;> simp [fill, tokensAhead, tokensBehind, Stmt.tokens, Stmt.allTokens_eq, *]

theorem unterminated_inBlock (stmt : Stmt) (span : Span) (front : List Stmt) (hole : Hole)
    (back : List Stmt) : (inBlock span front hole back).unterminated stmt =
      .braceOpen :: ((Stmt.allTokens front ++ (hole.unterminated stmt ++ Stmt.allTokens back)) ++
        [.braceClose]) := by
  simp [unterminated, tokensAhead, tokensBehind]

theorem unterminated_inIfThen (stmt : Stmt) (span : Span) (cond : Expr) (hole : Hole) :
    (inIfThen span cond hole).unterminated stmt = .keyword .ifWord :: .parenOpen ::
      (cond.tokens ++ .parenClose :: hole.unterminated stmt) := by
  simp [unterminated, tokensAhead, tokensBehind]

theorem unterminated_inBody (stmt : Stmt) (span : Span) (cond : Expr) (hole : Hole)
    (otherwise : Stmt) :
    (inBody span cond hole otherwise).unterminated stmt = .keyword .ifWord :: .parenOpen ::
      (cond.tokens ++ .parenClose :: (hole.unterminated stmt ++
        .keyword .elseWord :: otherwise.tokens)) := by
  simp [unterminated, tokensAhead, tokensBehind]

theorem unterminated_inOtherwise (stmt : Stmt) (span : Span) (cond : Expr) (body : Stmt)
    (hole : Hole) :
    (inOtherwise span cond body hole).unterminated stmt = .keyword .ifWord :: .parenOpen ::
      (cond.tokens ++ .parenClose :: (body.tokens ++
        .keyword .elseWord :: hole.unterminated stmt)) := by
  simp [unterminated, tokensAhead, tokensBehind]

theorem unterminated_inForeach (stmt : Stmt) (span : Span) (type : TypeRef) (var : String)
    (varSpan : Span) (seq : Expr) (hole : Hole) :
    (inForeach span type var varSpan seq hole).unterminated stmt = .keyword .foreachWord ::
      .parenOpen :: (type.tokens ++ .ident var :: .keyword .inWord :: (seq.tokens ++
        .parenClose :: hole.unterminated stmt)) := by
  simp [unterminated, tokensAhead, tokensBehind]

theorem unterminated_inWhile (stmt : Stmt) (span : Span) (cond : Expr) (hole : Hole) :
    (inWhile span cond hole).unterminated stmt = .keyword .whileWord :: .parenOpen ::
      (cond.tokens ++ .parenClose :: hole.unterminated stmt) := by
  simp [unterminated, tokensAhead, tokensBehind]

theorem length_unterminated {stmt : Stmt} (simple : stmt.isSimple = true) (fits : stmt.Fits)
    (hole : Hole) : (hole.fill stmt).tokens.length = (hole.unterminated stmt).length + 1 := by
  have longer := Stmt.length_of_isSimple simple fits
  simp only [tokens_fill, unterminated, List.length_append]
  omega

theorem fits_of_fill {stmt : Stmt} {hole : Hole} (fits : (hole.fill stmt).Fits) : stmt.Fits := by
  induction hole with
  | here => exact fits
  | inBlock span front hole back ih => exact ih (Stmt.allFit_iff.mp fits _ (by simp))
  | inIfThen span cond hole ih => exact ih fits.2
  | inBody span cond hole otherwise ih => exact ih fits.2.1
  | inOtherwise span cond body hole ih => exact ih fits.2.2
  | inForeach span type var varSpan seq hole ih => exact ih fits.2.2
  | inWhile span cond hole ih => exact ih fits.2

theorem head_unterminated {stmt : Stmt} (simple : stmt.isSimple = true) (fits : stmt.Fits)
    (hole : Hole) :
    ∃ token tokens, hole.unterminated stmt = token :: tokens ∧ token.startsStmt = true := by
  cases hole with
  | here =>
      obtain ⟨token, tokens, spelled, starts⟩ := Stmt.head_dropLast simple fits
      exact ⟨token, _, by rw [unterminated, spelled]; rfl, starts⟩
  | _ => exact ⟨_, _, rfl, rfl⟩

end Stmt.Hole

namespace Grammar

/-- Statements of at most `bound` tokens are read back, and so they are without one of the
semicolons inside, if the next token resumes. -/
structure StmtsResume (bound : Nat) (reader : Parser Token Stmt) : Prop where
  back : StmtsReadBack bound reader
  reports : ∀ (hole : Stmt.Hole) (stmt : Stmt) (rest : List Token), stmt.isSimple = true →
    (hole.fill stmt).tokens.length ≤ bound → (hole.fill stmt).Fits →
    (hole.fill stmt).dangles = false →
    ((hole.fill stmt).endsInIf = true → rest.head? ≠ some (.keyword .elseWord)) →
    Resumes (hole.tokensBehind ++ rest) →
      reader.Reports (hole.unterminated stmt) rest [.missingSemicolon]
        (·.bare = (hole.fill stmt).bare)

variable {bound : Nat} {inner : Parser Token Stmt} {rest : List Token}

theorem reports_unterminated_stmts (resume : StmtsResume bound inner) {stmt : Stmt}
    {front back : List Stmt} {hole : Stmt.Hole} (simple : stmt.isSimple = true)
    (short : (Stmt.allTokens (front ++ hole.fill stmt :: back)).length ≤ bound)
    (fit : Stmt.AllFit (front ++ hole.fill stmt :: back))
    (settled : Stmt.anyDangles (front ++ hole.fill stmt :: back) = false)
    (resumes : Resumes (hole.tokensBehind ++ (Stmt.allTokens back ++ .braceClose :: rest))) :
    (many inner).Reports
      (Stmt.allTokens front ++ (hole.unterminated stmt ++ Stmt.allTokens back))
      (.braceClose :: rest) [.missingSemicolon]
      fun found => found.map Stmt.bare = (front ++ hole.fill stmt :: back).map Stmt.bare := by
  rw [Stmt.allTokens_eq, List.flatMap_append, List.flatMap_cons, ← Stmt.allTokens_eq,
    ← Stmt.allTokens_eq] at short
  simp only [List.length_append] at short
  simp only [Stmt.allFit_iff, List.forall_mem_append, List.forall_mem_cons] at fit
  simp only [Stmt.anyDangles_eq_false, List.forall_mem_append, List.forall_mem_cons] at settled
  obtain ⟨fitFront, fits, fitBack⟩ := fit
  obtain ⟨settledFront, settledHere, settledBack⟩ := settled
  have fitBack := Stmt.allFit_iff.mpr fitBack
  have here := resume.reports hole stmt (Stmt.allTokens back ++ .braceClose :: rest) simple
    (by omega) fits settledHere (fun _ => fitBack.head?_ne_else (by simp)) resumes
  obtain ⟨token, tokens, spelled, starts⟩ :=
    hole.head_unterminated simple (Stmt.Hole.fits_of_fill fits)
  exact reports_stmts_around resume.back (by omega) (by omega) (Stmt.allFit_iff.mpr fitFront)
    fitBack (Stmt.anyDangles_eq_false.mpr settledFront) (Stmt.anyDangles_eq_false.mpr settledBack)
    (by simp [spelled]) (by simp [spelled, head?_ne_else starts]) here

theorem reports_stmtRule_unterminated (resume : StmtsResume bound inner) {hole : Stmt.Hole}
    {stmt : Stmt} (simple : stmt.isSimple = true)
    (short : (hole.fill stmt).tokens.length ≤ bound + 1) (fits : (hole.fill stmt).Fits)
    (settled : (hole.fill stmt).dangles = false)
    (ends : (hole.fill stmt).endsInIf = true → rest.head? ≠ some (.keyword .elseWord))
    (resumes : Resumes (hole.tokensBehind ++ rest)) :
    (stmtRule inner).Reports (hole.unterminated stmt) rest [.missingSemicolon]
      (·.bare = (hole.fill stmt).bare) := by
  cases hole with
  | here => exact reports_simple simple fits (terminates_nothing resumes)
  | inBlock span front hole back =>
      rw [Stmt.Hole.fill, Stmt.tokens] at short
      simp only [List.length_cons, List.length_append, List.length_nil] at short
      rw [Stmt.Hole.unterminated_inBlock]
      refine gives_stmtRule (reports_block span (reports_unterminated_stmts resume simple (by omega)
        fits settled ?_))
      simpa [Stmt.Hole.tokensBehind] using resumes
  | inIfThen span cond hole =>
      obtain ⟨condFits, bodyFits⟩ := fits
      have noElse := ends rfl
      rw [Stmt.Hole.fill, Stmt.tokens] at short
      simp only [List.length_cons, List.length_append] at short
      have read := resume.reports hole stmt rest simple (by omega) bodyFits settled
        (fun _ => noElse) resumes
      rw [Stmt.Hole.unterminated_inIfThen]
      exact gives_stmtRule (reports_ifThen span condFits noElse read)
  | inBody span cond hole otherwise =>
      obtain ⟨condFits, bodyFits, otherwiseFits⟩ := fits
      simp only [Stmt.Hole.fill, Stmt.dangles, Bool.or_eq_false_iff] at settled
      obtain ⟨⟨closedBody, bodySettled⟩, otherwiseSettled⟩ := settled
      rw [Stmt.Hole.fill, Stmt.tokens] at short
      simp only [List.length_cons, List.length_append] at short
      have read := resume.reports hole stmt (.keyword .elseWord :: (otherwise.tokens ++ rest))
        simple (by omega) bodyFits bodySettled (by simp [closedBody])
        (by simpa [Stmt.Hole.tokensBehind] using resumes)
      have read' := resume.back.yields otherwise rest (by omega) otherwiseFits otherwiseSettled ends
      have whole := reports_conditional span condFits read (reports_elseBranch read'.reports)
      rw [Stmt.Hole.unterminated_inBody]
      exact gives_stmtRule whole
  | inOtherwise span cond body hole =>
      obtain ⟨condFits, bodyFits, otherwiseFits⟩ := fits
      simp only [Stmt.Hole.fill, Stmt.dangles, Bool.or_eq_false_iff] at settled
      obtain ⟨⟨closedBody, bodySettled⟩, otherwiseSettled⟩ := settled
      rw [Stmt.Hole.fill, Stmt.tokens] at short
      simp only [List.length_cons, List.length_append] at short
      have read := resume.back.yields body (.keyword .elseWord :: (hole.unterminated stmt ++ rest))
        (by omega) bodyFits bodySettled (by simp [closedBody])
      have read' := resume.reports hole stmt rest simple (by omega) otherwiseFits otherwiseSettled
        ends resumes
      have whole := reports_conditional span condFits (Yields.reports read)
        (reports_elseBranch read')
      rw [Stmt.Hole.unterminated_inOtherwise]
      exact gives_stmtRule whole
  | inForeach span type var varSpan seq hole =>
      obtain ⟨named, seqFits, bodyFits⟩ := fits
      rw [Stmt.Hole.fill, Stmt.tokens] at short
      simp only [List.length_cons, List.length_append] at short
      have read := resume.reports hole stmt rest simple (by omega) bodyFits settled ends resumes
      rw [Stmt.Hole.unterminated_inForeach]
      exact gives_stmtRule (reports_foreachLoop span varSpan var named seqFits read)
  | inWhile span cond hole =>
      obtain ⟨condFits, bodyFits⟩ := fits
      rw [Stmt.Hole.fill, Stmt.tokens] at short
      simp only [List.length_cons, List.length_append] at short
      have read := resume.reports hole stmt rest simple (by omega) bodyFits settled ends resumes
      rw [Stmt.Hole.unterminated_inWhile]
      exact gives_stmtRule (reports_whileLoop span condFits read)

theorem stmtsResume_stmtRule (resume : StmtsResume bound inner) :
    StmtsResume (bound + 1) (stmtRule inner) :=
  ⟨stmtsReadBack_stmtRule resume.back, fun _ _ _ => reports_stmtRule_unterminated resume⟩

theorem stmtsResume_none : StmtsResume 0 fun cursor _ => .rejected (cursor.refusal []) where
  back := stmtsReadBack_none
  reports hole stmt _ _ short fits _ _ _ := by
    obtain ⟨token, tokens, spelled, -⟩ := Stmt.head_tokens fits
    rw [spelled] at short
    simp at short

/-- A statement is read as it is written without one of the semicolons inside, if the next
token resumes. -/
theorem resume_stmt (bound : Nat) : StmtsResume bound stmt where
  back := readBack_stmt bound
  reports hole stmt rest simple _ fits settled ends resumes := by
    refine Gives.recursive fun budget short => ?_
    refine (unrolled_of_step stmtsResume_none (fun _ _ => stmtsResume_stmtRule) budget).reports hole
      stmt rest simple ?_ fits settled ends resumes
    rw [Stmt.Hole.length_unterminated simple (Stmt.Hole.fits_of_fill fits)]
    omega

end Grammar

namespace Item.Hole

def tokensAhead : Hole → List Token
  | inNamespace _ path front hole _ =>
      .keyword .namespaceWord :: (pathTokens path ++ .braceOpen ::
        (Item.allTokens front ++ hole.tokensAhead))
  | inClass _ modifiers name front hole _ =>
      modifiers.map .modifier ++ .keyword .classWord :: .ident name :: .braceOpen ::
        (Item.allTokens front ++ hole.tokensAhead)
  | inMethod _ modifiers result name params front hole _ _ =>
      modifiers.map .modifier ++ (result.tokens ++ .ident name :: .parenOpen ::
        (Token.listed .comma Param.tokens params ++ .parenClose :: .braceOpen ::
          (Stmt.allTokens front ++ hole.tokensAhead)))
  | inStatement _ hole => hole.tokensAhead

def tokensBehind : Hole → List Token
  | inNamespace _ _ _ hole back | inClass _ _ _ _ hole back =>
      hole.tokensBehind ++ (Item.allTokens back ++ [.braceClose])
  | inMethod _ _ _ _ _ _ hole back _ => hole.tokensBehind ++ (Stmt.allTokens back ++ [.braceClose])
  | inStatement _ hole => hole.tokensBehind

def unterminated (stmt : Stmt) (hole : Hole) : List Token :=
  hole.tokensAhead ++ (stmt.tokens.dropLast ++ hole.tokensBehind)

theorem tokens_fill (stmt : Stmt) (hole : Hole) :
    (hole.fill stmt).tokens = hole.tokensAhead ++ (stmt.tokens ++ hole.tokensBehind) := by
  induction hole with
  | inStatement span hole => rw [fill, Item.tokens, hole.tokens_fill]; rfl
  | inMethod span modifiers result name params front hole back braces =>
      simp [fill, tokensAhead, tokensBehind, Item.tokens, Stmt.allTokens_eq, hole.tokens_fill]
  | _ => simp [fill, tokensAhead, tokensBehind, Item.tokens, Item.allTokens_eq, *]

theorem unterminated_inNamespace (stmt : Stmt) (span : Span) (path : List String)
    (front : List Item) (hole : Hole) (back : List Item) :
    (inNamespace span path front hole back).unterminated stmt =
      .keyword .namespaceWord :: (pathTokens path ++ .braceOpen ::
        ((Item.allTokens front ++ (hole.unterminated stmt ++ Item.allTokens back)) ++
          [.braceClose])) := by
  simp [unterminated, tokensAhead, tokensBehind]

theorem unterminated_inClass (stmt : Stmt) (span : Span) (modifiers : List String) (name : String)
    (front : List Item) (hole : Hole) (back : List Item) :
    (inClass span modifiers name front hole back).unterminated stmt =
      modifiers.map .modifier ++ .keyword .classWord :: .ident name :: .braceOpen ::
        ((Item.allTokens front ++ (hole.unterminated stmt ++ Item.allTokens back)) ++
          [.braceClose]) := by
  simp [unterminated, tokensAhead, tokensBehind]

theorem unterminated_inMethod (stmt : Stmt) (span : Span) (modifiers : List String)
    (result : TypeRef) (name : String) (params : List Param) (front : List Stmt)
    (hole : Stmt.Hole) (back : List Stmt) (braces : Span) :
    (inMethod span modifiers result name params front hole back braces).unterminated stmt =
      modifiers.map .modifier ++ (result.tokens ++ .ident name :: .parenOpen ::
        (Token.listed .comma Param.tokens params ++ .parenClose :: .braceOpen ::
          ((Stmt.allTokens front ++ (hole.unterminated stmt ++ Stmt.allTokens back)) ++
            [.braceClose]))) := by
  simp [unterminated, tokensAhead, tokensBehind, Stmt.Hole.unterminated]

theorem fits_of_fill {stmt : Stmt} {hole : Hole} (fits : (hole.fill stmt).Fits) : stmt.Fits := by
  induction hole with
  | inNamespace span path front hole back ih => exact ih (Item.allFit_iff.mp fits.2 _ (by simp))
  | inClass span modifiers name front hole back ih => exact ih (Item.allFit_iff.mp fits _ (by simp))
  | inMethod span modifiers result name params front hole back braces =>
      exact Stmt.Hole.fits_of_fill (Stmt.allFit_iff.mp fits.2.2 (hole.fill stmt) (by simp))
  | inStatement span hole => exact Stmt.Hole.fits_of_fill (show (hole.fill stmt).Fits from fits)

theorem length_unterminated {stmt : Stmt} (simple : stmt.isSimple = true) (fits : stmt.Fits)
    (hole : Hole) : (hole.fill stmt).tokens.length = (hole.unterminated stmt).length + 1 := by
  have longer := Stmt.length_of_isSimple simple fits
  simp only [tokens_fill, unterminated, List.length_append]
  omega

/-- Leaving out a semicolon does not change how the item starts. -/
theorem head_unterminated {stmt : Stmt} {hole : Hole} (simple : stmt.isSimple = true)
    (fits : (hole.fill stmt).Fits) :
    ∃ token tokens, hole.unterminated stmt = token :: tokens ∧ token.startsItem = true := by
  obtain ⟨token, tokens, spelled, starts⟩ := Item.head_tokens fits
  obtain ⟨first, others, shape, -⟩ := Stmt.head_dropLast simple (fits_of_fill fits)
  rw [tokens_fill, Stmt.tokens_of_isSimple simple (fits_of_fill fits), shape] at spelled
  rw [unterminated, shape]
  cases ahead : hole.tokensAhead with
  | nil =>
      rw [ahead] at spelled
      obtain ⟨rfl, -⟩ := List.cons.inj spelled
      exact ⟨first, _, rfl, starts⟩
  | cons other more =>
      rw [ahead] at spelled
      obtain ⟨rfl, -⟩ := List.cons.inj spelled
      exact ⟨other, _, rfl, starts⟩

end Item.Hole

namespace Grammar

structure ItemsResume (bound : Nat) (reader : Parser Token Item) : Prop where
  back : ItemsReadBack bound reader
  reports : ∀ (hole : Item.Hole) (stmt : Stmt) (rest : List Token), stmt.isSimple = true →
    (hole.fill stmt).tokens.length ≤ bound → (hole.fill stmt).Fits →
    (hole.fill stmt).dangles = false →
    ((hole.fill stmt).endsInIf = true → rest.head? ≠ some (.keyword .elseWord)) →
    Resumes (hole.tokensBehind ++ rest) →
      reader.Reports (hole.unterminated stmt) rest [.missingSemicolon]
        (·.bare = (hole.fill stmt).bare)

section
variable {bound : Nat} {inner : Parser Token Item} {rest : List Token} {stmt : Stmt}

theorem reports_unterminated_items (resume : ItemsResume bound inner) {front back : List Item}
    {hole : Item.Hole} (simple : stmt.isSimple = true)
    (short : (Item.allTokens (front ++ hole.fill stmt :: back)).length ≤ bound)
    (fit : Item.AllFit (front ++ hole.fill stmt :: back))
    (settled : Item.anyDangles (front ++ hole.fill stmt :: back) = false)
    (ends : rest.head? ≠ some (.keyword .elseWord))
    (resumes : Resumes (hole.tokensBehind ++ (Item.allTokens back ++ rest)))
    {reader : Parser Token Item}
    (same : ∀ tokens rest outcome, inner.Gives tokens rest outcome →
      reader.Gives tokens rest outcome) (stops : reader.Refuses rest) :
    (many reader).Reports (Item.allTokens front ++ (hole.unterminated stmt ++ Item.allTokens back))
      rest [.missingSemicolon]
      fun found => found.map Item.bare = (front ++ hole.fill stmt :: back).map Item.bare := by
  rw [Item.allTokens_eq, List.flatMap_append, List.flatMap_cons, ← Item.allTokens_eq,
    ← Item.allTokens_eq] at short
  simp only [List.length_append] at short
  simp only [Item.allFit_iff, List.forall_mem_append, List.forall_mem_cons] at fit
  simp only [Item.anyDangles_eq_false, List.forall_mem_append, List.forall_mem_cons] at settled
  obtain ⟨fitFront, fits, fitBack⟩ := fit
  obtain ⟨settledFront, settledHere, settledBack⟩ := settled
  have fitBack := Item.allFit_iff.mpr fitBack
  have here := resume.reports hole stmt (Item.allTokens back ++ rest) simple (by omega) fits
    settledHere (fun _ => fitBack.head?_ne_else ends) resumes
  obtain ⟨token, tokens, spelled, starts⟩ := Item.Hole.head_unterminated simple fits
  refine Gives.mono (gives_items_around resume.back (by omega) (by omega)
    (Item.allFit_iff.mpr fitFront) fitBack (Item.anyDangles_eq_false.mpr settledFront)
    (Item.anyDangles_eq_false.mpr settledBack) ends (by simp [spelled])
    (by simp [spelled, ne_else_of_startsItem starts])
    (fun _ _ _ read => Reports.yields (same _ _ _ read.reports)) (same _ _ _ here) stops) ?_
  rintro used found errors ⟨-, -, -, before, value, behind, -, -, -, rfl, alike, ⟨reported, alike'⟩,
    alike''⟩
  exact ⟨reported, by simp [alike, alike', alike'']⟩

theorem refuses_methodItem_unterminated {hole : Stmt.Hole} (simple : stmt.isSimple = true)
    (fits : (hole.fill stmt).Fits) (resumes : Resumes (hole.tokensBehind ++ rest)) :
    methodItem.Refuses (hole.unterminated stmt ++ rest) := by
  cases hole with
  | here =>
      rw [Stmt.Hole.unterminated, List.append_assoc, List.append_assoc]
      exact refuses_methodItem_simple simple fits (terminates_nothing resumes).halted
  | _ =>
      exact refuses_methodItem (by simp [Stmt.Hole.unterminated, Stmt.Hole.tokensAhead])
        (not_opensDecl (by simp [Stmt.Hole.unterminated, Stmt.Hole.tokensAhead]))

theorem reports_itemRule_unterminated (resume : ItemsResume bound inner) {hole : Item.Hole}
    (simple : stmt.isSimple = true) (short : (hole.fill stmt).tokens.length ≤ bound + 1)
    (fits : (hole.fill stmt).Fits) (settled : (hole.fill stmt).dangles = false)
    (ends : (hole.fill stmt).endsInIf = true → rest.head? ≠ some (.keyword .elseWord))
    (resumes : Resumes (hole.tokensBehind ++ rest)) :
    (itemRule inner).Reports (hole.unterminated stmt) rest [.missingSemicolon]
      (·.bare = (hole.fill stmt).bare) := by
  refine reports_itemRule ?_
  cases hole with
  | inNamespace span path front hole back =>
      obtain ⟨nonempty, fit⟩ := fits
      rw [Item.Hole.fill, Item.tokens] at short
      simp only [List.length_cons, List.length_append] at short
      have inside := reports_unterminated_items resume simple (by omega) fit settled (by simp)
        (by simpa [Item.Hole.tokensBehind] using resumes) (fun _ _ _ read => read)
        (resume.back.refuses (.braceClose :: rest) (.inr rfl))
      rw [Item.Hole.unterminated_inNamespace]
      exact gives_itemKinds_namespace (reports_namespaceItem span nonempty inside)
  | inClass span modifiers name front hole back =>
      rw [Item.Hole.fill, Item.tokens] at short
      simp only [List.length_cons, List.length_append] at short
      have inside := reports_unterminated_items resume simple (by omega) fits settled (by simp)
        (by simpa [Item.Hole.tokensBehind] using resumes) (fun _ _ _ read => read)
        (resume.back.refuses (.braceClose :: rest) (.inr rfl))
      rw [Item.Hole.unterminated_inClass]
      exact gives_itemKinds_class modifiers (reports_classItem span modifiers name inside)
  | inMethod span modifiers result name params front hole back braces =>
      obtain ⟨named, paramsNamed, fit⟩ := fits
      have inside := reports_unterminated_stmts (resume_stmt _) simple (Nat.le_refl _) fit settled
        (by simpa [Item.Hole.tokensBehind] using resumes)
      have whole := reports_methodItem span modifiers name ⟨front ++ hole.fill stmt :: back, braces⟩
        named paramsNamed inside
      obtain ⟨first, tokens, spelled⟩ := TypeRef.head_tokens named
      rw [Item.Hole.unterminated_inMethod]
      rw [spelled] at whole ⊢
      exact gives_itemKinds_modified modifiers (Gives.orElse_left whole)
  | inStatement span hole =>
      have read := (resume_stmt _).reports hole stmt rest simple (Nat.le_refl _) fits settled ends
        resumes
      have noMethod := refuses_methodItem_unterminated simple fits resumes
      obtain ⟨token, tokens, spelled, starts⟩ := hole.head_unterminated simple
        (Stmt.Hole.fits_of_fill fits)
      have same : (Item.Hole.inStatement span hole).unterminated stmt = hole.unterminated stmt := rfl
      rw [same]
      rw [spelled] at read noMethod ⊢
      exact reports_statementItem span starts noMethod read

theorem itemsResume_itemRule (resume : ItemsResume bound inner) :
    ItemsResume (bound + 1) (itemRule inner) :=
  ⟨itemsReadBack_itemRule resume.back, fun _ _ _ => reports_itemRule_unterminated resume⟩

theorem itemsResume_none : ItemsResume 0 fun cursor _ => .rejected (cursor.refusal []) where
  back := itemsReadBack_none
  reports hole stmt _ _ short fits _ _ _ := by
    obtain ⟨token, tokens, spelled, -⟩ := Item.head_tokens fits
    rw [spelled] at short
    simp at short

/-- The same holds of the statements inside an item. -/
theorem resume_item (bound : Nat) : ItemsResume bound item where
  back := readBack_item bound
  reports hole stmt rest simple _ fits settled ends resumes := by
    refine Gives.recursive fun budget short => ?_
    refine (unrolled_of_step itemsResume_none (fun _ _ => itemsResume_itemRule) budget).reports hole
      stmt rest simple ?_ fits settled ends resumes
    rw [Item.Hole.length_unterminated simple (Item.Hole.fits_of_fill fits)]
    omega

end

end Grammar

namespace SourceTree.Hole

def tokensAhead (tree : Hole) : List Token :=
  Item.allTokens tree.front ++ tree.hole.tokensAhead

def tokensBehind (tree : Hole) : List Token :=
  tree.hole.tokensBehind ++ Item.allTokens tree.back

def unterminated (stmt : Stmt) (tree : Hole) : List Token :=
  tree.tokensAhead ++ (stmt.tokens.dropLast ++ tree.tokensBehind)

theorem tokens_fill (stmt : Stmt) (tree : Hole) :
    (tree.fill stmt).tokens = tree.tokensAhead ++ (stmt.tokens ++ tree.tokensBehind) := by
  simp [fill, SourceTree.tokens, tokensAhead, tokensBehind, Item.allTokens_eq,
    Item.Hole.tokens_fill]

theorem fits_of_fill {stmt : Stmt} {tree : Hole} (fits : (tree.fill stmt).Fits) : stmt.Fits :=
  Item.Hole.fits_of_fill (Item.allFit_iff.mp fits (tree.hole.fill stmt) (by simp [fill]))

theorem of_firstStatement? {tree : SourceTree} {stmt : Stmt}
    (isFirst : tree.firstStatement? = some stmt) :
    ∃ span others, tree = fill stmt ⟨[], .inStatement span .here, others⟩ := by
  obtain ⟨item, isHead, isStmt⟩ := Option.bind_eq_some_iff.mp isFirst
  obtain ⟨others, items⟩ := List.head?_eq_some_iff.mp isHead
  cases item with
  | statement span first =>
      obtain rfl : first = stmt := Option.some.inj isStmt
      exact ⟨span, others, congrArg SourceTree.mk items⟩
  | _ => cases isStmt

end SourceTree.Hole

namespace Grammar

theorem reports_unterminated {stmt : Stmt} {tree : SourceTree.Hole} (simple : stmt.isSimple = true)
    (fits : (tree.fill stmt).Fits) (settled : (tree.fill stmt).dangles = false)
    (resumes : Resumes tree.tokensBehind) :
    sourceTree.Reports (tree.unterminated stmt) [] [.missingSemicolon]
      (·.bare = (tree.fill stmt).bare) := by
  have stops : (skipAndRetry item).Refuses [] :=
    Refuses.skipAndRetry_nil ((readBack_item 0).refuses [] (.inl rfl))
  have items := reports_unterminated_items (resume_item _) simple (Nat.le_refl _) fits settled
    (by simp) (by simpa [SourceTree.Hole.tokensBehind] using resumes)
    (fun _ _ _ => Gives.skipAndRetry) stops
  have same : tree.unterminated stmt = Item.allTokens tree.front ++
      (tree.hole.unterminated stmt ++ Item.allTokens tree.back) := by
    simp [SourceTree.Hole.unterminated, SourceTree.Hole.tokensAhead,
      SourceTree.Hole.tokensBehind, Item.Hole.unterminated]
  rw [same]
  refine items.map fun found alike => ?_
  rw [SourceTree.bare, SourceTree.bare, Item.bareAll_eq, Item.bareAll_eq, alike]
  rfl

end Grammar

namespace SourceTree

open Grammar

theorem ofLexemes_unterminated {stmt : Stmt} {tree : Hole} (simple : stmt.isSimple = true)
    (fits : (tree.fill stmt).Fits) (settled : (tree.fill stmt).dangles = false)
    (resumes : Resumes tree.tokensBehind) {lexemes : List (Lexeme Token)}
    (spelled : tokensOf lexemes = tree.unterminated stmt) (stop : Nat) :
    ∃ found error, ofLexemes lexemes stop = (found, [error]) ∧ error.cause = .missingSemicolon ∧
      found.bare = (tree.fill stmt).bare := by
  have reports := reports_unterminated simple fits settled resumes
  rw [← spelled] at reports
  obtain ⟨found, errors, ran, reported, same⟩ := Gives.run reports stop
  obtain ⟨error, rfl, cause⟩ := List.map_eq_singleton_iff.mp reported
  exact ⟨found, error, by rw [ofLexemes, ran]; rfl, cause, same⟩

/-- Every declaration, expression and jump in the tree of a text without problems ends with
a semicolon.  Where the token behind it resumes, leaving it out costs one error, and what
is read is the same tree but for spans. -/
theorem parse_unterminated {source : String} {tree : Hole} {stmt : Stmt}
    {lexemes : List (Lexeme Token)} (parsed : parse source = (tree.fill stmt, []))
    (read : Token.lex source = (some lexemes, [])) (simple : stmt.isSimple = true) :
    ∃ front semicolon back, Token.withoutComments lexemes = front ++ semicolon :: back ∧
      semicolon.token = .semicolon ∧
      tokensOf front = tree.tokensAhead ++ stmt.tokens.dropLast ∧
      (Resumes (tokensOf back) →
        (∀ stop, ∃ found error, ofLexemes (front ++ back) stop = (found, [error]) ∧
          error.cause = .missingSemicolon ∧ found.bare = (tree.fill stmt).bare) ∧
        ∀ text all, Token.lex text = (some all, []) →
          tokensOf (Token.withoutComments all) = tokensOf (front ++ back) →
            ∃ found problem, parse text = (found, [problem]) ∧ problem.message = "expected `;`" ∧
              found.bare = (tree.fill stmt).bare) := by
  obtain ⟨known, readAgain, spelled, fits, settled, -⟩ := of_parse parsed
  obtain rfl : lexemes = known := by simpa using read.symm.trans readAgain
  rw [Hole.tokens_fill, Stmt.tokens_of_isSimple simple (Hole.fits_of_fill fits), List.append_assoc,
    ← List.append_assoc] at spelled
  obtain ⟨front, behind, split, inFront, inBehind⟩ := List.map_eq_append_iff.mp spelled
  obtain ⟨semicolon, back, rfl, isSemicolon, inBack⟩ := List.map_eq_cons_iff.mp inBehind
  have inFront : tokensOf front = tree.tokensAhead ++ stmt.tokens.dropLast := inFront
  have inBack : tokensOf back = tree.tokensBehind := inBack
  refine ⟨front, semicolon, back, split, isSemicolon, inFront, fun resumes => ?_⟩
  have inBoth : tokensOf (front ++ back) = tree.unterminated stmt := by
    rw [tokensOf_append, inFront, inBack, Hole.unterminated, List.append_assoc]
  rw [inBack] at resumes
  refine ⟨ofLexemes_unterminated simple fits settled resumes inBoth, fun text all lexed kept => ?_⟩
  obtain ⟨found, error, ran, cause, same⟩ := ofLexemes_unterminated simple fits settled resumes
    (kept.trans inBoth) (Text.byteLength text.toList)
  unfold Token.withoutComments at ran
  refine ⟨found, .grammatical error, by simp [parse, lexed, ran], ?_, same⟩
  obtain ⟨span, rfl⟩ : ∃ span, error = ⟨span, .missingSemicolon⟩ := ⟨error.span, by rw [← cause]⟩
  rfl

/-- The statement behind starts with a keyword. -/
theorem parse_unterminated_conditional :
    ∃ found problem, parse "a if (b) c;" = (found, [problem]) ∧
      problem.message = "expected `;`" ∧ found.bare = (parse "a; if (b) c;").1.bare := by
  have clean : (parse "a; if (b) c;").2 = [] := List.isEmpty_iff.mp (by decide +kernel)
  have known : ∃ stmt ∈ (parse "a; if (b) c;").1.firstStatement?, stmt.isSimple = true ∧
      stmt.tokens = [.ident "a", .semicolon] := by decide +kernel
  have read : Token.lex "a; if (b) c;" = (some [⟨.ident "a", ⟨0, 1⟩⟩, ⟨.semicolon, ⟨1, 2⟩⟩,
      ⟨.keyword .ifWord, ⟨3, 5⟩⟩, ⟨.parenOpen, ⟨6, 7⟩⟩, ⟨.ident "b", ⟨7, 8⟩⟩,
      ⟨.parenClose, ⟨8, 9⟩⟩, ⟨.ident "c", ⟨10, 11⟩⟩, ⟨.semicolon, ⟨11, 12⟩⟩], []) :=
    Prod.ext (by decide +kernel) (List.isEmpty_iff.mp (by decide +kernel))
  have read' : Token.lex "a if (b) c;" = (some [⟨.ident "a", ⟨0, 1⟩⟩,
      ⟨.keyword .ifWord, ⟨2, 4⟩⟩, ⟨.parenOpen, ⟨5, 6⟩⟩, ⟨.ident "b", ⟨6, 7⟩⟩,
      ⟨.parenClose, ⟨7, 8⟩⟩, ⟨.ident "c", ⟨9, 10⟩⟩, ⟨.semicolon, ⟨10, 11⟩⟩], []) :=
    Prod.ext (by decide +kernel) (List.isEmpty_iff.mp (by decide +kernel))
  obtain ⟨stmt, isFirst, simple, spelled⟩ := known
  obtain ⟨span, others, isTree⟩ := Hole.of_firstStatement? isFirst
  rw [isTree]
  obtain ⟨front, semicolon, back, split, -, inFront, missing⟩ :=
    parse_unterminated (Prod.ext isTree clean) read simple
  rw [spelled] at inFront
  obtain ⟨first, rfl, -⟩ := List.map_eq_singleton_iff.mp inFront
  obtain ⟨rfl, behind⟩ := List.cons.inj split
  obtain ⟨-, rfl⟩ := List.cons.inj behind
  exact (missing ⟨.keyword .ifWord, rfl, rfl⟩).2 _ _ read' rfl

end SourceTree

end QueryLoop
