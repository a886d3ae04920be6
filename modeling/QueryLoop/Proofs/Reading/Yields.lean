import Mathlib.Data.List.Forall2
import QueryLoop.Proofs.Reading.Ensures

namespace QueryLoop.Parsing.Parser

variable {τ α β : Type}

/-- The reader takes exactly the tokens `front` where `rest` follows them, reports nothing
and gives a good value. -/
def Yields (reader : Parser τ α) (front rest : List τ) (good : α → Prop) : Prop :=
  ∀ ⦃cursor : Cursor τ⦄ (furthest : Option (Failure τ)) ⦃used tail : List (Lexeme τ)⦄,
    cursor.rest = used ++ tail → used.map Lexeme.token = front → tail.map Lexeme.token = rest →
      ∃ value after furthest', reader cursor furthest = .accepted value after [] furthest' ∧
        after.rest = tail ∧ good value

def Refuses (reader : Parser τ α) (front : List τ) : Prop :=
  ∀ ⦃cursor : Cursor τ⦄ (furthest : Option (Failure τ)),
    cursor.rest.map Lexeme.token = front → ∃ failure, reader cursor furthest = .rejected failure

variable {reader first second : Parser τ α} {front back rest : List τ} {good : α → Prop}

namespace Yields

theorem mono {good' : α → Prop} (yields : reader.Yields front rest good)
    (weaker : ∀ value, good value → good' value) : reader.Yields front rest good' := by
  intro cursor furthest used tail split spelled following
  obtain ⟨value, after, furthest', accepted, left, holds⟩ :=
    yields furthest split spelled following
  exact ⟨value, after, furthest', accepted, left, weaker value holds⟩

theorem pure (value : α) (holds : good value) :
    (Pure.pure value : Parser τ α).Yields [] rest good := by
  intro cursor furthest used tail split spelled following
  obtain rfl := List.map_eq_nil_iff.mp spelled
  exact ⟨value, cursor, furthest, rfl, split, holds⟩

theorem bind {next : α → Parser τ β} {good' : β → Prop} {whole : List τ} (front back : List τ)
    (split : whole = front ++ back) (yields : first.Yields front (back ++ rest) good)
    (following : ∀ value, good value → (next value).Yields back rest good') :
    (first >>= next).Yields whole rest good' := by
  intro cursor furthest used tail input spelled remaining
  rw [split] at spelled
  obtain ⟨used₁, used₂, rfl, spelled₁, spelled₂⟩ := List.map_eq_append_iff.mp spelled
  rw [List.append_assoc] at input
  obtain ⟨value, middle, furthest₁, accepted₁, left₁, holds⟩ :=
    yields furthest input spelled₁ (by rw [List.map_append, spelled₂, remaining])
  obtain ⟨result, after, furthest₂, accepted₂, left₂, holds'⟩ :=
    following value holds furthest₁ left₁ spelled₂ remaining
  refine ⟨result, after, furthest₂, ?_, left₂, holds'⟩
  change Parser.bind first next cursor furthest = _
  simp only [Parser.bind, accepted₁, accepted₂, List.append_nil]

/-- A step that makes the value from what was read. -/
theorem map {make : α → β} {good' : β → Prop} (yields : first.Yields front rest good)
    (made : ∀ value, good value → good' (make value)) :
    (do let value ← first; return make value).Yields front rest good' :=
  bind front [] (List.append_nil front).symm yields fun value holds =>
    Yields.pure (make value) (made value holds)

theorem orElse_left (yields : first.Yields front rest good) :
    (first <|> second).Yields front rest good := by
  intro cursor furthest used tail split spelled following
  obtain ⟨value, after, furthest', accepted, left, holds⟩ :=
    yields furthest split spelled following
  refine ⟨value, after, furthest', ?_, left, holds⟩
  change Parser.orElse first (fun _ => second) cursor furthest = _
  simp only [Parser.orElse, accepted]

theorem orElse_right (refuses : first.Refuses (front ++ rest))
    (yields : second.Yields front rest good) : (first <|> second).Yields front rest good := by
  intro cursor furthest used tail split spelled following
  obtain ⟨failure, rejected⟩ := refuses furthest
    (show cursor.rest.map Lexeme.token = front ++ rest by
      rw [split, List.map_append, spelled, following])
  obtain ⟨value, after, furthest', accepted, left, holds⟩ :=
    yields (some failure) split spelled following
  refine ⟨value, after, furthest', ?_, left, holds⟩
  change Parser.orElse first (fun _ => second) cursor furthest = _
  simp only [Parser.orElse, rejected, accepted]

theorem optional_some (yields : reader.Yields front rest good) :
    (Parser.optional reader).Yields front rest fun found => ∃ value, found = some value ∧
      good value := by
  intro cursor furthest used tail split spelled following
  obtain ⟨value, after, furthest', accepted, left, holds⟩ :=
    yields furthest split spelled following
  exact ⟨some value, after, furthest', by simp only [Parser.optional, accepted], left, value, rfl,
    holds⟩

theorem optional_none (refuses : reader.Refuses rest) :
    (Parser.optional reader).Yields [] rest (· = none) := by
  intro cursor furthest used tail split spelled following
  obtain rfl := List.map_eq_nil_iff.mp spelled
  obtain ⟨failure, rejected⟩ := refuses furthest
    (show cursor.rest.map Lexeme.token = rest by rw [split]; exact following)
  exact ⟨none, cursor, some failure, by simp only [Parser.optional, rejected], split, rfl⟩

theorem spanned (yields : reader.Yields front rest good) :
    (Parser.spanned reader).Yields front rest fun found => good found.1 := by
  intro cursor furthest used tail split spelled following
  obtain ⟨value, after, furthest', accepted, left, holds⟩ :=
    yields furthest split spelled following
  exact ⟨(value, cursor.spanTo after), after, furthest', by simp only [Parser.spanned, accepted],
    left, holds⟩

theorem ahead (yields : reader.Yields front rest good) :
    (Parser.ahead reader).Yields [] (front ++ rest) fun _ => True := by
  intro cursor furthest used tail split spelled following
  obtain rfl := List.map_eq_nil_iff.mp spelled
  obtain ⟨used', tail', rfl, spelled', following'⟩ := List.map_eq_append_iff.mp following
  obtain ⟨value, after, furthest', accepted, -⟩ :=
    yields furthest (split.trans (List.nil_append _)) spelled' following'
  exact ⟨(), cursor, furthest', by simp only [Parser.ahead, accepted], split, trivial⟩

theorem recoverWith {instead : Parser τ α} (yields : reader.Yields front rest good) :
    (Parser.recoverWith instead reader).Yields front rest good := by
  intro cursor furthest used tail split spelled following
  obtain ⟨value, after, furthest', accepted, left, holds⟩ :=
    yields furthest split spelled following
  exact ⟨value, after, furthest', by simp only [Parser.recoverWith, accepted], left, holds⟩

theorem skipAndRetry (yields : reader.Yields front rest good) :
    (Parser.skipAndRetry reader).Yields front rest good := by
  intro cursor furthest used tail split spelled following
  obtain ⟨value, after, furthest', accepted, left, holds⟩ :=
    yields furthest split spelled following
  exact ⟨value, after, furthest', by simp only [Parser.skipAndRetry, accepted], left, holds⟩

/-- The first of several pieces, and then the others, until the reader refuses. -/
theorem manyWithin {γ : Type} {spell : γ → List τ} {likes : γ → α → Prop} (pieces : List γ)
    (each : ∀ before piece behind, pieces = before ++ piece :: behind →
      reader.Yields (spell piece) (behind.flatMap spell ++ rest) (likes piece))
    (stops : reader.Refuses rest) (budget : List (Lexeme τ)) {cursor : Cursor τ}
    (furthest : Option (Failure τ)) {used tail : List (Lexeme τ)}
    (enough : pieces.length ≤ budget.length) (split : cursor.rest = used ++ tail)
    (spelled : used.map Lexeme.token = pieces.flatMap spell)
    (following : tail.map Lexeme.token = rest) :
    ∃ values after furthest', Parser.manyWithin reader budget cursor furthest =
      .accepted values after [] furthest' ∧ after.rest = tail ∧
        List.Forall₂ likes pieces values := by
  induction pieces generalizing budget cursor furthest used with
  | nil =>
      obtain rfl := List.map_eq_nil_iff.mp spelled
      obtain ⟨failure, rejected⟩ := stops furthest
        (show cursor.rest.map Lexeme.token = rest by rw [split]; exact following)
      refine ⟨[], cursor, some failure, ?_, split, .nil⟩
      cases budget <;> simp only [Parser.manyWithin, rejected]
  | cons piece pieces ih =>
      obtain ⟨spare, budget, rfl⟩ : ∃ spare others, budget = spare :: others := by
        cases budget with
        | nil => simp at enough
        | cons spare others => exact ⟨spare, others, rfl⟩
      rw [List.flatMap_cons] at spelled
      obtain ⟨used₁, used₂, rfl, spelled₁, spelled₂⟩ := List.map_eq_append_iff.mp spelled
      rw [List.append_assoc] at split
      obtain ⟨value, middle, furthest₁, accepted₁, left₁, holds⟩ :=
        each [] piece pieces rfl furthest split spelled₁
          (by rw [List.map_append, spelled₂, following])
      obtain ⟨values, after, furthest₂, accepted₂, left₂, others⟩ :=
        ih (fun before next behind shape => each (piece :: before) next behind (by rw [shape]; rfl))
          budget furthest₁ (by simpa using enough) left₁ spelled₂
      refine ⟨value :: values, after, furthest₂, ?_, left₂, .cons holds others⟩
      simp only [Parser.manyWithin, accepted₁, accepted₂, List.append_nil]

theorem many {γ : Type} {spell : γ → List τ} {likes : γ → α → Prop} (pieces : List γ)
    (each : ∀ before piece behind, pieces = before ++ piece :: behind →
      reader.Yields (spell piece) (behind.flatMap spell ++ rest) (likes piece))
    (nonempty : ∀ piece ∈ pieces, spell piece ≠ []) (stops : reader.Refuses rest) :
    (Parser.many reader).Yields (pieces.flatMap spell) rest (List.Forall₂ likes pieces) := by
  intro cursor furthest used tail split spelled following
  refine manyWithin pieces each stops cursor.rest furthest ?_ split spelled following
  have longer : pieces.length ≤ (pieces.flatMap spell).length := by
    clear each spelled
    induction pieces with
    | nil => simp
    | cons piece pieces ih =>
        have positive := List.length_pos_iff.mpr (nonempty piece List.mem_cons_self)
        have others := ih fun other found => nonempty other (List.mem_cons_of_mem _ found)
        simp only [List.length_cons, List.flatMap_cons, List.length_append]
        omega
  have whole := congrArg List.length split
  have taken := congrArg List.length spelled
  simp only [List.length_append, List.length_map] at whole taken
  omega

theorem many_nil (stops : reader.Refuses rest) : (Parser.many reader).Yields [] rest (· = []) := by
  intro cursor furthest used tail split spelled following
  obtain rfl := List.map_eq_nil_iff.mp spelled
  obtain ⟨failure, rejected⟩ := stops furthest
    (show cursor.rest.map Lexeme.token = rest by rw [split]; exact following)
  refine ⟨[], cursor, some failure, ?_, split, rfl⟩
  unfold Parser.many
  cases cursor.rest <;> simp only [Parser.manyWithin, rejected]

end Yields

theorem eq_of_forall₂ {γ : Type} {view : α → β} {view' : γ → β} {first : List γ} {second : List α}
    (alike : List.Forall₂ (fun x y => view y = view' x) first second) :
    second.map view = first.map view' := by
  induction alike with
  | nil => rfl
  | cons same _ ih => rw [List.map_cons, List.map_cons, same, ih]

namespace Refuses

theorem bind_first {next : α → Parser τ β} (refuses : first.Refuses front) :
    (first >>= next).Refuses front := by
  intro cursor furthest spelled
  obtain ⟨failure, rejected⟩ := refuses furthest spelled
  refine ⟨failure, ?_⟩
  change Parser.bind first next cursor furthest = _
  simp only [Parser.bind, rejected]

theorem bind_second {next : α → Parser τ β} (yields : first.Yields front rest good)
    (refuses : ∀ value, good value → (next value).Refuses rest) :
    (first >>= next).Refuses (front ++ rest) := by
  intro cursor furthest spelled
  obtain ⟨used, tail, split, spelled₁, following⟩ := List.map_eq_append_iff.mp spelled
  obtain ⟨value, middle, furthest₁, accepted, left, holds⟩ :=
    yields furthest split spelled₁ following
  obtain ⟨failure, rejected⟩ := refuses value holds furthest₁
    (show middle.rest.map Lexeme.token = rest by rw [left]; exact following)
  refine ⟨failure, ?_⟩
  change Parser.bind first next cursor furthest = _
  simp only [Parser.bind, accepted, rejected]

theorem orElse (left : first.Refuses front) (right : second.Refuses front) :
    (first <|> second).Refuses front := by
  intro cursor furthest spelled
  obtain ⟨failure, rejected⟩ := left furthest spelled
  obtain ⟨failure', rejected'⟩ := right (some failure) spelled
  refine ⟨failure', ?_⟩
  change Parser.orElse first (fun _ => second) cursor furthest = _
  simp only [Parser.orElse, rejected, rejected']

theorem spanned (refuses : reader.Refuses front) : (Parser.spanned reader).Refuses front := by
  intro cursor furthest spelled
  obtain ⟨failure, rejected⟩ := refuses furthest spelled
  exact ⟨failure, by simp only [Parser.spanned, rejected]⟩

theorem recoverWith {instead : Parser τ α} (refuses : reader.Refuses front)
    (hopeless : instead.Refuses front) : (Parser.recoverWith instead reader).Refuses front := by
  intro cursor furthest spelled
  obtain ⟨failure, rejected⟩ := refuses furthest spelled
  obtain ⟨failure', rejected'⟩ := hopeless none spelled
  exact ⟨failure, by simp only [Parser.recoverWith, rejected, rejected']⟩

/-- At the end of the input there is nothing left to skip. -/
theorem skipAndRetry_nil (refuses : reader.Refuses []) : (Parser.skipAndRetry reader).Refuses [] := by
  intro cursor furthest spelled
  obtain ⟨failure, rejected⟩ := refuses furthest spelled
  have none_left := List.map_eq_nil_iff.mp spelled
  exact ⟨failure, by simp only [Parser.skipAndRetry, rejected, none_left, retryAfter]⟩

end Refuses

section
variable [DecidableEq τ]

theorem yields_select {accept : τ → Option α} {expected : List (Expected τ)} {found : τ}
    {value : α} (accepts : accept found = some value) :
    (select accept expected).Yields [found] rest (· = value) := by
  intro cursor furthest used tail split spelled following
  obtain ⟨lexeme, rfl, rfl⟩ := List.map_eq_singleton_iff.mp spelled
  have shape : cursor.rest = lexeme :: tail := split
  exact ⟨value, ⟨tail, cursor.index + 1, lexeme.span.stop, cursor.inputStop⟩, furthest,
    by simp [select, Cursor.next?, shape, accepts], rfl, rfl⟩

theorem refuses_select {accept : τ → Option α} {expected : List (Expected τ)}
    (refused : ∀ found ∈ front.head?, accept found = none) :
    (select accept expected).Refuses front := by
  intro cursor furthest spelled
  cases shape : cursor.rest with
  | nil => exact ⟨_, by simp only [select, Cursor.next?, shape]; rfl⟩
  | cons lexeme tail =>
      rw [shape, List.map_cons] at spelled
      have none_left : accept lexeme.token = none := refused _ (by rw [← spelled]; rfl)
      exact ⟨_, by simp only [select, Cursor.next?, shape, none_left]; rfl⟩

theorem yields_token (wanted : τ) : (token wanted).Yields [wanted] rest fun _ => True := by
  have accepts : (if wanted = wanted then some () else none) = some () := if_pos rfl
  exact Yields.mono (yields_select accepts) fun _ _ => trivial

theorem refuses_token {wanted : τ} (different : front.head? ≠ some wanted) :
    (token wanted).Refuses front := by
  refine refuses_select fun found isHead => ?_
  have unequal : found ≠ wanted := fun same => different (same ▸ isHead)
  simp [unequal]

theorem Yields.labelled (label : String) (yields : reader.Yields front rest good) :
    (Parser.labelled label reader).Yields front rest good := by
  intro cursor furthest used tail split spelled following
  obtain ⟨value, after, furthest', accepted, left, holds⟩ := yields none split spelled following
  exact ⟨value, after, _, by simp only [Parser.labelled, accepted]; rfl, left, holds⟩

theorem Refuses.labelled (label : String) (refuses : reader.Refuses front) :
    (Parser.labelled label reader).Refuses front := by
  intro cursor furthest spelled
  obtain ⟨failure, rejected⟩ := refuses none spelled
  exact ⟨_, by simp only [Parser.labelled, rejected]; rfl⟩

theorem Yields.token_bind {wanted : τ} {next : Unit → Parser τ α} {good : α → Prop}
    (following : (next ()).Yields front rest good) :
    (token wanted >>= next).Yields (wanted :: front) rest good :=
  bind [wanted] front rfl (yields_token wanted) fun _ _ => following

theorem Yields.between {opening closing : τ} {inside : List τ}
    (yields : reader.Yields inside (closing :: rest) good) :
    (Parser.between (token opening) (token closing) reader).Yields
      (opening :: (inside ++ [closing])) rest good :=
  token_bind (bind inside [closing] rfl yields fun _ holds =>
    (yields_token closing).map fun _ _ => holds)

theorem Refuses.between {opening closing : τ} (different : front.head? ≠ some opening) :
    (Parser.between (token opening) (token closing) reader).Refuses front :=
  bind_first (refuses_token different)

theorem Yields.separated1 {γ : Type} {spell : γ → List τ} {likes : γ → α → Prop} (mark : τ)
    (piece : γ) (pieces : List γ)
    (each : ∀ before next behind, piece :: pieces = before ++ next :: behind →
      reader.Yields (spell next) ((behind.flatMap fun other => mark :: spell other) ++ rest)
        (likes next))
    (stops : rest.head? ≠ some mark) :
    (Parser.separated1 reader (token mark)).Yields
      (spell piece ++ pieces.flatMap fun other => mark :: spell other) rest
      (List.Forall₂ likes (piece :: pieces)) := by
  refine bind (spell piece) _ rfl (each [] piece pieces rfl) fun value holds => ?_
  have others : (Parser.many (do token mark; reader)).Yields
      (pieces.flatMap fun other => mark :: spell other) rest (List.Forall₂ likes pieces) := by
    refine many pieces (fun before next behind split => ?_) (fun _ _ => List.cons_ne_nil _ _)
      (Refuses.bind_first (refuses_token stops))
    exact token_bind (each (piece :: before) next behind (by rw [split]; rfl))
  exact others.map fun values liked => .cons holds liked

omit [DecidableEq τ] in
theorem Yields.separated_nil {separator : Parser τ Unit} (refuses : reader.Refuses rest) :
    (Parser.separated reader separator).Yields [] rest (· = []) :=
  orElse_right (Refuses.bind_first refuses) (Yields.pure [] rfl)

end

/-- What a rule keeps, with one more lexeme each time, holds of every unrolling. -/
theorem unrolled_of_step {rule : Parser τ α → Parser τ α} {keeps : Nat → Parser τ α → Prop}
    (zero : keeps 0 fun cursor _ => .rejected (cursor.refusal []))
    (step : ∀ bound inner, keeps bound inner → keeps (bound + 1) (rule inner))
    (budget : List (Lexeme τ)) : keeps (budget.length + 1) (unrolled rule budget) := by
  induction budget with
  | nil => exact step 0 _ zero
  | cons spare budget ih => exact step _ _ ih

theorem Yields.recursive {rule : Parser τ α → Parser τ α}
    (each : ∀ budget : List (Lexeme τ), front.length ≤ budget.length →
      Yields (unrolled rule budget) front rest good) :
    (Parser.recursive rule).Yields front rest good := by
  intro cursor furthest used tail split spelled following
  refine each cursor.rest ?_ furthest split spelled following
  rw [split, ← spelled]
  simp

/-- A reader that cannot have accepted rejects. -/
theorem refuses_of_ensures {post : Post τ α} (ensured : reader.Ensures post)
    (never : ∀ used tail value errors, (used ++ tail).map Lexeme.token = front →
      ¬post used tail value errors) : reader.Refuses front := by
  intro cursor furthest spelled
  cases ran : reader cursor furthest with
  | rejected failure => exact ⟨failure, rfl⟩
  | accepted value after errors furthest' =>
      obtain ⟨used, taken, holds⟩ := ensured ran
      exact absurd holds (never used after.rest value errors (by rw [← taken.rest, spelled]))

/-- A reader that can only accept where the next one rejects. -/
theorem Refuses.bind_of_ensures {next : α → Parser τ β} {post : Post τ α}
    (ensured : reader.Ensures post)
    (refuses : ∀ used tail value errors, (used ++ tail).map Lexeme.token = front →
      post used tail value errors → (next value).Refuses (tail.map Lexeme.token)) :
    (reader >>= next).Refuses front := by
  intro cursor furthest spelled
  change ∃ failure, Parser.bind reader next cursor furthest = _
  cases ran : reader cursor furthest with
  | rejected failure => exact ⟨failure, by simp only [Parser.bind, ran]⟩
  | accepted value after errors furthest' =>
      obtain ⟨used, taken, holds⟩ := ensured ran
      obtain ⟨failure, rejected⟩ := refuses used after.rest value errors
        (by rw [← taken.rest, spelled]) holds furthest' rfl
      exact ⟨failure, by simp only [Parser.bind, ran, rejected]⟩

theorem Rejects.not_yields {lexemes : List (Lexeme τ)} (rejects : reader.Rejects lexemes)
    (split : lexemes.map Lexeme.token = front ++ rest) : ¬reader.Yields front rest good := by
  intro yields
  obtain ⟨cursor, furthest, failure, rfl, rejected⟩ := rejects
  obtain ⟨used, tail, input, spelled, following⟩ := List.map_eq_append_iff.mp split
  obtain ⟨value, after, furthest', accepted, -⟩ := yields furthest input spelled following
  rw [rejected] at accepted
  cases accepted

def Total (reader : Parser τ α) : Prop :=
  ∀ cursor furthest, ∃ value after errors furthest',
    reader cursor furthest = .accepted value after errors furthest'

theorem total_pure (value : α) : (pure value : Parser τ α).Total :=
  fun cursor furthest => ⟨value, cursor, [], furthest, rfl⟩

theorem Total.bind {next : α → Parser τ β} (total : first.Total)
    (following : ∀ value, (next value).Total) : (first >>= next).Total := by
  intro cursor furthest
  obtain ⟨value, middle, errors, furthest₁, accepted⟩ := total cursor furthest
  obtain ⟨result, after, more, furthest₂, accepted'⟩ := following value middle furthest₁
  refine ⟨result, after, errors ++ more, furthest₂, ?_⟩
  change Parser.bind first next cursor furthest = _
  simp only [Parser.bind, accepted, accepted']

theorem total_optional (reader : Parser τ α) : (Parser.optional reader).Total := by
  intro cursor furthest
  unfold Parser.optional
  split
  · exact ⟨_, _, _, _, rfl⟩
  · exact ⟨_, _, _, _, rfl⟩

theorem total_report (span : Span) (cause : Cause τ) : (report span cause).Total :=
  fun _ _ => ⟨_, _, _, _, rfl⟩

theorem Total.spanned (total : reader.Total) : (Parser.spanned reader).Total := by
  intro cursor furthest
  obtain ⟨value, after, errors, furthest', accepted⟩ := total cursor furthest
  exact ⟨_, _, _, _, by simp only [Parser.spanned, accepted]; rfl⟩

theorem total_manyWithin (reader : Parser τ α) (budget : List (Lexeme τ)) :
    Total (Parser.manyWithin reader budget) := by
  induction budget with
  | nil =>
      intro cursor furthest
      cases ran : reader cursor furthest with
      | rejected failure => exact ⟨_, _, _, _, by simp only [Parser.manyWithin, ran]; rfl⟩
      | accepted value after errors furthest' =>
          exact ⟨_, _, _, _, by simp only [Parser.manyWithin, ran]; rfl⟩
  | cons spare budget ih =>
      intro cursor furthest
      cases ran : reader cursor furthest with
      | rejected failure => exact ⟨_, _, _, _, by simp only [Parser.manyWithin, ran]; rfl⟩
      | accepted value after errors furthest' =>
          obtain ⟨values, last, more, furthest'', accepted⟩ := ih after furthest'
          exact ⟨_, _, _, _, by simp only [Parser.manyWithin, ran, accepted]; rfl⟩

theorem total_many (reader : Parser τ α) : (Parser.many reader).Total :=
  fun cursor furthest => total_manyWithin reader cursor.rest cursor furthest

namespace Rejects

variable {lexemes : List (Lexeme τ)}

theorem not_total (rejects : reader.Rejects lexemes) : ¬reader.Total := by
  intro total
  obtain ⟨cursor, furthest, failure, -, rejected⟩ := rejects
  obtain ⟨value, after, errors, furthest', accepted⟩ := total cursor furthest
  rw [rejected] at accepted
  cases accepted

theorem of_bind {next : α → Parser τ β} (rejects : (first >>= next).Rejects lexemes)
    (total : ∀ value, (next value).Total) : first.Rejects lexemes := by
  obtain ⟨cursor, furthest, failure, same, rejected⟩ := rejects
  change Parser.bind first next cursor furthest = _ at rejected
  cases ran : first cursor furthest with
  | rejected failure => exact ⟨cursor, furthest, failure, same, ran⟩
  | accepted value middle errors furthest₁ =>
      obtain ⟨result, after, more, furthest₂, accepted⟩ := total value middle furthest₁
      simp [Parser.bind, ran, accepted] at rejected

/-- Where the first of two readers accepts, it is the second one that rejects. -/
theorem behind {next : α → Parser τ β} (rejects : (first >>= next).Rejects lexemes)
    (split : lexemes.map Lexeme.token = front ++ rest) (yields : first.Yields front rest good) :
    ∃ value tail, tail.map Lexeme.token = rest ∧ good value ∧ (next value).Rejects tail := by
  obtain ⟨cursor, furthest, failure, rfl, rejected⟩ := rejects
  obtain ⟨used, tail, input, spelled, following⟩ := List.map_eq_append_iff.mp split
  obtain ⟨value, after, furthest₁, accepted, left, holds⟩ :=
    yields furthest input spelled following
  refine ⟨value, tail, following, holds, after, furthest₁, ?_⟩
  change Parser.bind first next cursor furthest = _ at rejected
  cases ran : next value after furthest₁ with
  | rejected failure' => exact ⟨failure', left, rfl⟩
  | accepted result last errors furthest₂ => simp [Parser.bind, accepted, ran] at rejected

theorem of_spanned (rejects : (Parser.spanned reader).Rejects lexemes) :
    reader.Rejects lexemes := by
  obtain ⟨cursor, furthest, failure, same, rejected⟩ := rejects
  cases ran : reader cursor furthest with
  | rejected failure => exact ⟨cursor, furthest, failure, same, ran⟩
  | accepted value after errors furthest' => simp [Parser.spanned, ran] at rejected

theorem of_labelled [DecidableEq τ] {label : String}
    (rejects : (Parser.labelled label reader).Rejects lexemes) : reader.Rejects lexemes := by
  obtain ⟨cursor, furthest, failure, same, rejected⟩ := rejects
  cases ran : reader cursor none with
  | rejected failure => exact ⟨cursor, none, failure, same, ran⟩
  | accepted value after errors furthest' => simp [Parser.labelled, ran] at rejected

end Rejects

end QueryLoop.Parsing.Parser
