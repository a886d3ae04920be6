import QueryLoop.Proofs.Reading.Yields

namespace QueryLoop.Parsing.Parser

variable {τ α β : Type}

/-- A claim about the lexemes taken, the lexemes left and the value. -/
abbrev CleanPost (τ α : Type) : Type :=
  List (Lexeme τ) → List (Lexeme τ) → α → Prop

def Reads (reader : Parser τ α) (post : CleanPost τ α) : Prop :=
  reader.Ensures fun used rest value errors => errors = [] → post used rest value

/-- Readings one after the other, each before the lexemes of the later ones. -/
inductive Series (post : CleanPost τ α) : CleanPost τ (List α)
  | nil (rest : List (Lexeme τ)) : Series post [] rest []
  | cons {used more rest : List (Lexeme τ)} {value : α} {values : List α}
      (first : post used (more ++ rest) value) (following : Series post more rest values) :
      Series post (used ++ more) rest (value :: values)

variable {reader first : Parser τ α} {post other : CleanPost τ α}

theorem Repeats.series {full : Post τ α} {used rest : List (Lexeme τ)} {values : List α}
    {errors : List (SyntaxError τ)} (repeated : Repeats full used rest values errors)
    (clean : errors = []) (each : ∀ used rest value, full used rest value [] → post used rest value) :
    Series post used rest values := by
  induction repeated with
  | nil rest => exact .nil rest
  | cons held following ih =>
      obtain ⟨rfl, late⟩ := List.append_eq_nil_iff.mp clean
      exact .cons (each _ _ _ held) (ih late)

/-- What holds of each reading on its own lexemes holds of it on all of them. -/
theorem Series.forall_mem (holds : List (Lexeme τ) → α → Prop) {used rest : List (Lexeme τ)}
    {values : List α} (series : Series post used rest values)
    (mono : ∀ ⦃used more value⦄, holds used value → used ⊆ more → holds more value)
    (each : ∀ used rest value, post used rest value → holds used value) :
    ∀ value ∈ values, holds used value := by
  induction series with
  | nil rest => simp
  | @cons used more rest value values held following ih =>
      refine List.forall_mem_cons.mpr
        ⟨mono (each _ _ _ held) (List.subset_append_left used more), ?_⟩
      exact fun other listed => mono (ih other listed) (List.subset_append_right used more)

/-- What was read one after the other lies within the same bound. -/
theorem Series.within {bound : Nat} {used rest : List (Lexeme τ)} {values : List α}
    (series : Series (fun used rest value => used.length + rest.length ≤ bound →
      post used rest value) used rest values)
    (short : used.length + rest.length ≤ bound) : Series post used rest values := by
  induction series with
  | nil rest => exact .nil rest
  | cons held following ih =>
      rw [List.length_append] at short
      exact .cons (held (by rw [List.length_append]; omega)) (ih (by omega))

namespace Reads

theorem mono (reads : reader.Reads post)
    (weaker : ∀ used rest value, post used rest value → other used rest value) :
    reader.Reads other :=
  Ensures.mono reads fun _ _ _ _ held clean => weaker _ _ _ (held clean)

theorem bind {second : α → Parser τ β} {then' : α → CleanPost τ β} (reads : first.Reads post)
    (following : ∀ value, (second value).Reads (then' value)) :
    (first >>= second).Reads fun used rest result => ∃ front back value, used = front ++ back ∧
      post front (back ++ rest) value ∧ then' value back rest result := by
  refine Ensures.mono (Ensures.bind reads following) ?_
  rintro used rest result errors ⟨front, back, value, early, late, rfl, rfl, held, held'⟩ clean
  obtain ⟨clean, clean'⟩ := List.append_eq_nil_iff.mp clean
  exact ⟨front, back, value, rfl, held clean, held' clean'⟩

theorem orElse {second : Parser τ α} (left : first.Reads post) (right : second.Reads other) :
    (first <|> second).Reads fun used rest value =>
      post used rest value ∨ first.Rejects (used ++ rest) ∧ other used rest value := by
  refine Ensures.mono (Ensures.orElse left right) ?_
  rintro used rest value errors (held | ⟨rejects, held⟩) clean
  · exact .inl (held clean)
  · exact .inr ⟨rejects, held clean⟩

theorem optional (reads : reader.Reads post) :
    (Parser.optional reader).Reads fun used rest value =>
      (∃ found, value = some found ∧ post used rest found) ∨
        value = none ∧ used = [] ∧ reader.Rejects rest := by
  refine Ensures.mono (Ensures.optional reads) ?_
  rintro used rest value errors (⟨found, rfl, held⟩ | ⟨rfl, rfl, -, rejects⟩) clean
  · exact .inl ⟨found, rfl, held clean⟩
  · exact .inr ⟨rfl, rfl, rejects⟩

theorem spanned (reads : reader.Reads post) :
    (Parser.spanned reader).Reads fun used rest value =>
      post used rest value.1 ∧ (used ≠ [] → value.2 = spanOf used) := by
  refine Ensures.mono (Ensures.spanned reads) ?_
  rintro used rest value errors ⟨held, covered⟩ clean
  exact ⟨held clean, covered⟩

theorem recoverWith {instead : Parser τ α} (reads : reader.Reads post)
    (advances : instead.Advances) : (Parser.recoverWith instead reader).Reads post := by
  refine Ensures.mono (Ensures.recoverWith reads advances) ?_
  rintro used rest value errors (held | ⟨own, error, rfl, -⟩) clean
  · exact held clean
  · simp at clean

theorem skipAndRetry (reads : reader.Reads post) : (Parser.skipAndRetry reader).Reads post := by
  refine Ensures.mono (Ensures.skipAndRetry reads) ?_
  rintro used rest value errors (held | ⟨dropped, own, error, rfl, rfl, -⟩) clean
  · exact held clean
  · simp at clean

theorem many (reads : reader.Reads post) (consumes : reader.Ensures Consumes) :
    (Parser.many reader).Reads fun used rest values =>
      Series post used rest values ∧ reader.Rejects rest := by
  have both := Ensures.and reads consumes
  refine Ensures.mono (both.many fun _ _ _ _ held => held.2) ?_
  rintro used rest values errors ⟨repeated, rejects⟩ clean
  exact ⟨repeated.series clean fun _ _ _ held => held.1 rfl, rejects⟩

end Reads

theorem reads_pure (value : α) :
    (pure value : Parser τ α).Reads fun used _ found => used = [] ∧ found = value :=
  (ensures_pure value).mono fun _ _ _ _ held _ => ⟨held.1, held.2.1⟩

theorem reads_of_ensures {post : Post τ α} (ensured : reader.Ensures post) :
    reader.Reads fun used rest value => post used rest value [] :=
  Ensures.mono ensured fun _ _ _ _ held clean => clean ▸ held

section
variable [DecidableEq τ]

theorem reads_token (wanted : τ) :
    (token wanted).Reads fun used _ _ => ∃ lexeme, used = [lexeme] ∧ lexeme.token = wanted := by
  refine (ensures_token wanted).mono ?_
  rintro used rest value errors ⟨lexeme, rfl, same, -⟩ -
  exact ⟨lexeme, rfl, same⟩

theorem reads_select (accept : τ → Option α) (expected : List (Expected τ)) :
    (select accept expected).Reads fun used _ value =>
      ∃ lexeme, used = [lexeme] ∧ accept lexeme.token = some value := by
  refine (ensures_select accept expected).mono ?_
  rintro used rest value errors ⟨lexeme, rfl, chosen, -⟩ -
  exact ⟨lexeme, rfl, chosen⟩

theorem Reads.labelled (label : String) (reads : reader.Reads post) :
    (Parser.labelled label reader).Reads post :=
  Ensures.labelled label reads

theorem Reads.between (opening closing : τ) (reads : reader.Reads post) :
    (Parser.between (token opening) (token closing) reader).Reads fun used rest value =>
      ∃ first inner last, used = first :: (inner ++ [last]) ∧ first.token = opening ∧
        last.token = closing ∧ post inner (last :: rest) value := by
  refine ((reads_token opening).bind fun _ => reads.bind fun value =>
    (reads_token closing).bind fun _ => reads_pure value).mono ?_
  rintro used rest value ⟨_, _, _, rfl, ⟨first, rfl, opened⟩, inner, _, _, rfl, held,
    _, _, _, rfl, ⟨last, rfl, closed⟩, rfl, rfl⟩
  exact ⟨first, inner, last, by simp, opened, closed, by simpa using held⟩

/-- A reading behind a token. -/
def After (mark : τ) (post : CleanPost τ α) : CleanPost τ α := fun used rest value =>
  ∃ lexeme own, used = lexeme :: own ∧ lexeme.token = mark ∧ post own rest value

theorem Reads.separated1 (mark : τ) (reads : reader.Reads post)
    (consumes : reader.Ensures Consumes) :
    (Parser.separated1 reader (token mark)).Reads fun used rest values =>
      ∃ front back value others, used = front ++ back ∧ values = value :: others ∧
        post front (back ++ rest) value ∧ Series (After mark post) back rest others := by
  have step : (do token mark; reader).Reads (After mark post) := by
    refine ((reads_token mark).bind fun _ => reads).mono ?_
    rintro used rest value ⟨_, back, _, rfl, ⟨lexeme, rfl, marked⟩, held⟩
    exact ⟨lexeme, back, rfl, marked, held⟩
  refine (reads.bind fun value => (step.many (bind_consumes (token_consumes mark) fun _ =>
    advances_of consumes)).bind fun others => reads_pure (value :: others)).mono ?_
  rintro used rest values ⟨front, _, value, rfl, held, back, _, others, rfl, ⟨series, -⟩, rfl, rfl⟩
  exact ⟨front, back, value, others, by simp, rfl, by simpa using held, by simpa using series⟩

theorem Reads.separated (mark : τ) (reads : reader.Reads post)
    (consumes : reader.Ensures Consumes) :
    (Parser.separated reader (token mark)).Reads fun used rest values =>
      (∃ front back value others, used = front ++ back ∧ values = value :: others ∧
        post front (back ++ rest) value ∧ Series (After mark post) back rest others) ∨
      used = [] ∧ values = [] := by
  refine ((reads.separated1 mark consumes).orElse (reads_pure [])).mono ?_
  rintro used rest values (some_read | ⟨-, none_read⟩)
  · exact .inl some_read
  · exact .inr none_read

end

theorem Reads.recursive {rule : Parser τ α → Parser τ α}
    (each : ∀ budget : List (Lexeme τ), Reads (unrolled rule budget)
      fun used rest value => used.length + rest.length ≤ budget.length → post used rest value) :
    (Parser.recursive rule).Reads post := by
  intro cursor furthest value after errors furthest' accepted
  obtain ⟨used, taken, held⟩ := each cursor.rest accepted
  refine ⟨used, taken, fun clean => held clean (Nat.le_of_eq ?_)⟩
  rw [taken.rest, List.length_append]

/-- Where nothing is reported there is a value. -/
theorem exists_of_run [DecidableEq τ] {lexemes : List (Lexeme τ)} {stop : Nat} {found : Option α}
    (ran : reader.run lexemes stop = (found, [])) : ∃ value, found = some value := by
  unfold Parser.run at ran
  split at ran
  · simp at ran
  · split at ran
    · simp at ran
    · simp only [Prod.mk.injEq] at ran
      exact ⟨_, ran.1.symm⟩

/-- A reader that gives a value and reports nothing has read the whole input. -/
theorem Reads.run [DecidableEq τ] (reads : reader.Reads post) {lexemes : List (Lexeme τ)}
    {stop : Nat} {value : α} (ran : reader.run lexemes stop = (some value, [])) :
    post lexemes [] value :=
  Ensures.run reads ran rfl

/-- A reader that yields gives its value for the whole input. -/
theorem Yields.run [DecidableEq τ] {lexemes : List (Lexeme τ)} {good : α → Prop}
    (yields : reader.Yields (lexemes.map Lexeme.token) [] good) (stop : Nat) :
    ∃ value, reader.run lexemes stop = (some value, []) ∧ good value := by
  obtain ⟨value, after, furthest, accepted, left, holds⟩ :=
    yields none (show (Cursor.start lexemes stop).rest = lexemes ++ [] from
      (List.append_nil lexemes).symm) rfl rfl
  refine ⟨value, ?_, holds⟩
  simp [Parser.run, accepted, endOfInput, left]

end QueryLoop.Parsing.Parser
