import QueryLoop.Proofs.Reading.Cleanly

namespace QueryLoop.Parsing.Parser

variable {τ α β : Type}

/-- A claim about the lexemes taken, the value and the errors. -/
abbrev Outcome (τ α : Type) : Type :=
  List (Lexeme τ) → α → List (SyntaxError τ) → Prop

/-- The reader takes exactly the tokens `front` where `rest` follows them, with this
outcome. -/
def Gives (reader : Parser τ α) (front rest : List τ) (outcome : Outcome τ α) : Prop :=
  ∀ ⦃cursor : Cursor τ⦄ (furthest : Option (Failure τ)) ⦃used tail : List (Lexeme τ)⦄,
    cursor.rest = used ++ tail → used.map Lexeme.token = front → tail.map Lexeme.token = rest →
      ∃ value after errors furthest',
        reader cursor furthest = .accepted value after errors furthest' ∧ after.rest = tail ∧
          outcome used value errors

/-- As `Yields`, but errors with these causes are reported, in this order. -/
def Reports (reader : Parser τ α) (front rest : List τ) (causes : List (Cause τ))
    (good : α → Prop) : Prop :=
  reader.Gives front rest fun _ value errors => errors.map SyntaxError.cause = causes ∧ good value

variable {reader first second : Parser τ α} {front back rest : List τ} {outcome : Outcome τ α}
  {causes : List (Cause τ)} {good : α → Prop}

namespace Gives

theorem mono {other : Outcome τ α} (gives : reader.Gives front rest outcome)
    (weaker : ∀ used value errors, outcome used value errors → other used value errors) :
    reader.Gives front rest other := by
  intro cursor furthest used tail split spelled following
  obtain ⟨value, after, errors, furthest', accepted, left, holds⟩ :=
    gives furthest split spelled following
  exact ⟨value, after, errors, furthest', accepted, left, weaker used value errors holds⟩

/-- What a reader ensures of every reading, it ensures of this one. -/
theorem ensured {post : Post τ α} (gives : reader.Gives front rest outcome)
    (ensured : reader.Ensures post) :
    reader.Gives front rest fun used value errors =>
      outcome used value errors ∧ ∃ tail, post used tail value errors := by
  intro cursor furthest used tail split spelled following
  obtain ⟨value, after, errors, furthest', accepted, left, holds⟩ :=
    gives furthest split spelled following
  obtain ⟨used', taken, held⟩ := ensured accepted
  have same : used' = used := by
    have whole := taken.rest.symm.trans split
    rw [left] at whole
    exact List.append_cancel_right whole
  exact ⟨value, after, errors, furthest', accepted, left, holds, after.rest, same ▸ held⟩

theorem spelled (gives : reader.Gives front rest outcome) :
    reader.Gives front rest fun used value errors =>
      used.map Lexeme.token = front ∧ outcome used value errors := by
  intro cursor furthest used tail split spelled following
  obtain ⟨value, after, errors, furthest', accepted, left, holds⟩ :=
    gives furthest split spelled following
  exact ⟨value, after, errors, furthest', accepted, left, spelled, holds⟩

theorem pure (value : α) (holds : outcome [] value []) :
    (Pure.pure value : Parser τ α).Gives [] rest outcome := by
  intro cursor furthest used tail split spelled following
  obtain rfl := List.map_eq_nil_iff.mp spelled
  exact ⟨value, cursor, [], furthest, rfl, split, holds⟩

theorem report (span : Span) (cause : Cause τ) :
    (Parser.report span cause).Gives [] rest fun used _ errors =>
      used = [] ∧ errors = [⟨span, cause⟩] := by
  intro cursor furthest used tail split spelled following
  obtain rfl := List.map_eq_nil_iff.mp spelled
  exact ⟨(), cursor, _, furthest, rfl, split, rfl, rfl⟩

theorem bind {next : α → Parser τ β} {whole : Outcome τ β} {tokens : List τ} (front back : List τ)
    (split : tokens = front ++ back) (gives : first.Gives front (back ++ rest) outcome)
    (following : ∀ used value errors, outcome used value errors →
      (next value).Gives back rest fun more result others =>
        whole (used ++ more) result (errors ++ others)) :
    (first >>= next).Gives tokens rest whole := by
  intro cursor furthest used tail input spelled remaining
  rw [split] at spelled
  obtain ⟨used₁, used₂, rfl, spelled₁, spelled₂⟩ := List.map_eq_append_iff.mp spelled
  rw [List.append_assoc] at input
  obtain ⟨value, middle, errors, furthest₁, accepted₁, left₁, holds⟩ :=
    gives furthest input spelled₁ (by rw [List.map_append, spelled₂, remaining])
  obtain ⟨result, after, others, furthest₂, accepted₂, left₂, holds'⟩ :=
    following used₁ value errors holds furthest₁ left₁ spelled₂ remaining
  refine ⟨result, after, errors ++ others, furthest₂, ?_, left₂, holds'⟩
  change Parser.bind first next cursor furthest = _
  simp only [Parser.bind, accepted₁, accepted₂]

/-- A step that makes the value from what was read. -/
theorem map {make : α → β} {whole : Outcome τ β}
    (gives : first.Gives front rest fun used value errors => whole used (make value) errors) :
    (do let value ← first; return make value).Gives front rest whole := by
  refine bind front [] (List.append_nil front).symm gives fun used value errors holds => ?_
  refine pure (make value) ?_
  rw [List.append_nil, List.append_nil]
  exact holds

theorem orElse_left (gives : first.Gives front rest outcome) :
    (first <|> second).Gives front rest outcome := by
  intro cursor furthest used tail split spelled following
  obtain ⟨value, after, errors, furthest', accepted, left, holds⟩ :=
    gives furthest split spelled following
  refine ⟨value, after, errors, furthest', ?_, left, holds⟩
  change Parser.orElse first (fun _ => second) cursor furthest = _
  simp only [Parser.orElse, accepted]

theorem orElse_right (refuses : first.Refuses (front ++ rest))
    (gives : second.Gives front rest outcome) : (first <|> second).Gives front rest outcome := by
  intro cursor furthest used tail split spelled following
  obtain ⟨failure, rejected⟩ := refuses furthest
    (show cursor.rest.map Lexeme.token = front ++ rest by
      rw [split, List.map_append, spelled, following])
  obtain ⟨value, after, errors, furthest', accepted, left, holds⟩ :=
    gives (some failure) split spelled following
  refine ⟨value, after, errors, furthest', ?_, left, holds⟩
  change Parser.orElse first (fun _ => second) cursor furthest = _
  simp only [Parser.orElse, rejected, accepted]

/-- A choice that a condition has made. -/
theorem orElse_ite {condition : Prop} [Decidable condition] {late : Parser τ α}
    (gives : (if condition then first else late).Gives front rest outcome)
    (refuses : ¬condition → first.Refuses (front ++ rest))
    (otherwise : late.Gives front rest outcome → second.Gives front rest outcome) :
    (first <|> second).Gives front rest outcome := by
  split at gives
  · exact orElse_left gives
  · rename_i no
    exact orElse_right (refuses no) (otherwise gives)

theorem recoverWith {instead : Parser τ α} (gives : reader.Gives front rest outcome) :
    (Parser.recoverWith instead reader).Gives front rest outcome := by
  intro cursor furthest used tail split spelled following
  obtain ⟨value, after, errors, furthest', accepted, left, holds⟩ :=
    gives furthest split spelled following
  exact ⟨value, after, errors, furthest', by simp only [Parser.recoverWith, accepted], left, holds⟩

theorem skipAndRetry (gives : reader.Gives front rest outcome) :
    (Parser.skipAndRetry reader).Gives front rest outcome := by
  intro cursor furthest used tail split spelled following
  obtain ⟨value, after, errors, furthest', accepted, left, holds⟩ :=
    gives furthest split spelled following
  exact ⟨value, after, errors, furthest', by simp only [Parser.skipAndRetry, accepted], left, holds⟩

theorem spanned (gives : reader.Gives front rest outcome) :
    (Parser.spanned reader).Gives front rest fun used found errors =>
      outcome used found.1 errors := by
  intro cursor furthest used tail split spelled following
  obtain ⟨value, after, errors, furthest', accepted, left, holds⟩ :=
    gives furthest split spelled following
  exact ⟨(value, cursor.spanTo after), after, errors, furthest',
    by simp only [Parser.spanned, accepted], left, holds⟩

theorem optional_some (gives : reader.Gives front rest outcome) :
    (Parser.optional reader).Gives front rest fun used found errors =>
      ∃ value, found = some value ∧ outcome used value errors := by
  intro cursor furthest used tail split spelled following
  obtain ⟨value, after, errors, furthest', accepted, left, holds⟩ :=
    gives furthest split spelled following
  exact ⟨some value, after, errors, furthest', by simp only [Parser.optional, accepted], left,
    value, rfl, holds⟩

theorem labelled [DecidableEq τ] (label : String) (gives : reader.Gives front rest outcome) :
    (Parser.labelled label reader).Gives front rest outcome := by
  intro cursor furthest used tail split spelled following
  obtain ⟨value, after, errors, furthest', accepted, left, holds⟩ :=
    gives none split spelled following
  exact ⟨value, after, errors, _, by simp only [Parser.labelled, accepted]; rfl, left, holds⟩

end Gives

theorem Yields.gives (yields : reader.Yields front rest good) :
    reader.Gives front rest fun _ value errors => errors = [] ∧ good value := by
  intro cursor furthest used tail split spelled following
  obtain ⟨value, after, furthest', accepted, left, holds⟩ :=
    yields furthest split spelled following
  exact ⟨value, after, [], furthest', accepted, left, rfl, holds⟩

/-- The reader, time after time, takes exactly the tokens `front`, with any budget that is
enough for them. -/
def Repeated (reader : Parser τ α) (front rest : List τ) (outcome : Outcome τ (List α)) : Prop :=
  ∀ budget : List (Lexeme τ), front.length ≤ budget.length →
    Gives (manyWithin reader budget) front rest outcome

namespace Repeated

variable {outcomes : Outcome τ (List α)}

theorem many (repeated : reader.Repeated front rest outcomes) :
    (Parser.many reader).Gives front rest outcomes := by
  intro cursor furthest used tail split spelled following
  refine repeated cursor.rest ?_ furthest split spelled following
  rw [split, ← spelled]
  simp

theorem nil (stops : reader.Refuses rest) :
    reader.Repeated [] rest fun used values errors => used = [] ∧ values = [] ∧ errors = [] := by
  intro budget _ cursor furthest used tail split spelled following
  obtain rfl := List.map_eq_nil_iff.mp spelled
  obtain ⟨failure, rejected⟩ := stops furthest
    (show cursor.rest.map Lexeme.token = rest by rw [split]; exact following)
  refine ⟨[], cursor, [], some failure, ?_, split, rfl, rfl, rfl⟩
  cases budget <;> simp only [manyWithin, rejected]

theorem cons (nonempty : front ≠ []) (gives : reader.Gives front (back ++ rest) outcome)
    (following : reader.Repeated back rest outcomes) :
    reader.Repeated (front ++ back) rest fun used values errors =>
      ∃ own more value others reported late, used = own ++ more ∧ values = value :: others ∧
        errors = reported ++ late ∧ outcome own value reported ∧ outcomes more others late := by
  intro budget enough cursor furthest used tail split spelled remaining
  have longer := List.length_pos_iff.mpr nonempty
  rw [List.length_append] at enough
  obtain ⟨used₁, used₂, rfl, spelled₁, spelled₂⟩ := List.map_eq_append_iff.mp spelled
  rw [List.append_assoc] at split
  cases budget with
  | nil =>
      rw [List.length_nil] at enough
      omega
  | cons spare budget =>
      obtain ⟨value, middle, errors, furthest₁, accepted₁, left₁, holds⟩ :=
        gives furthest split spelled₁ (by rw [List.map_append, spelled₂, remaining])
      obtain ⟨values, after, others, furthest₂, accepted₂, left₂, holds'⟩ :=
        following budget (by rw [List.length_cons] at enough; omega) furthest₁ left₁ spelled₂
          remaining
      refine ⟨value :: values, after, errors ++ others, furthest₂, ?_, left₂, used₁, used₂, value,
        values, errors, others, rfl, rfl, rfl, holds, holds'⟩
      simp only [manyWithin, accepted₁, accepted₂]

/-- Pieces that are read without errors, in front of other readings. -/
theorem ahead {γ : Type} {spell : γ → List τ} {likes : γ → α → Prop} (pieces : List γ)
    (each : ∀ before next behind, pieces = before ++ next :: behind →
      reader.Yields (spell next) (behind.flatMap spell ++ (back ++ rest)) (likes next))
    (nonempty : ∀ piece ∈ pieces, spell piece ≠ [])
    (following : reader.Repeated back rest outcomes) :
    reader.Repeated (pieces.flatMap spell ++ back) rest fun used values errors =>
      ∃ front more before behind, used = front ++ more ∧
        front.map Lexeme.token = pieces.flatMap spell ∧ values = before ++ behind ∧
          List.Forall₂ likes pieces before ∧ outcomes more behind errors := by
  induction pieces with
  | nil =>
      intro budget enough
      refine (following budget enough).mono fun used values errors held => ?_
      exact ⟨[], used, [], values, rfl, rfl, rfl, .nil, held⟩
  | cons piece pieces ih =>
      have first := each [] piece pieces rfl
      rw [← List.append_assoc] at first
      have others := ih
        (fun before next behind split => each (piece :: before) next behind (by rw [split]; rfl))
        fun other listed => nonempty other (List.mem_cons_of_mem _ listed)
      rw [List.flatMap_cons, List.append_assoc]
      intro budget enough
      refine (cons (nonempty piece List.mem_cons_self) first.gives.spelled others budget
        enough).mono ?_
      rintro used values errors ⟨own, _, value, _, _, _, rfl, rfl, rfl, ⟨spelled, rfl, liked⟩, front,
        more, before, behind, rfl, spelled', rfl, likes, held⟩
      refine ⟨own ++ front, more, value :: before, behind, (List.append_assoc ..).symm, ?_, rfl,
        .cons liked likes, held⟩
      rw [List.map_append, spelled, spelled']

end Repeated

/-- One reading with an outcome of its own, between pieces that are read without errors. -/
theorem Gives.many_around {γ : Type} {spell : γ → List τ} {likes : γ → α → Prop}
    {early late : List γ} {odd : List τ}
    (ahead : ∀ before next behind, early = before ++ next :: behind →
      reader.Yields (spell next) (behind.flatMap spell ++ ((odd ++ late.flatMap spell) ++ rest))
        (likes next))
    (here : reader.Gives odd (late.flatMap spell ++ rest) outcome)
    (afterwards : ∀ before next behind, late = before ++ next :: behind →
      reader.Yields (spell next) (behind.flatMap spell ++ rest) (likes next))
    (nonempty : ∀ piece, piece ∈ early ∨ piece ∈ late → spell piece ≠ []) (nonempty' : odd ≠ [])
    (stops : reader.Refuses rest) :
    (Parser.many reader).Gives (early.flatMap spell ++ (odd ++ late.flatMap spell)) rest
      fun used values errors => ∃ front own back before value behind,
        used = front ++ (own ++ back) ∧ front.map Lexeme.token = early.flatMap spell ∧
          own.map Lexeme.token = odd ∧ values = before ++ value :: behind ∧
          List.Forall₂ likes early before ∧ outcome own value errors ∧
          List.Forall₂ likes late behind := by
  have last := Repeated.ahead late afterwards (fun piece listed => nonempty piece (.inr listed))
    (.nil stops)
  rw [List.append_nil] at last
  refine (Repeated.ahead early ahead (fun piece listed => nonempty piece (.inl listed))
    (.cons nonempty' here.spelled last)).many.mono ?_
  rintro used values errors ⟨front, _, before, _, rfl, spelled, rfl, likes, own, _, value, _, _, _,
    rfl, rfl, rfl, ⟨spelled', held⟩, back, _, behind, _, rfl, -, rfl, likes', rfl, rfl, rfl⟩
  simp only [List.append_nil]
  exact ⟨front, own, back, before, value, behind, rfl, spelled, spelled', rfl, likes, held, likes'⟩

theorem Yields.reports (yields : reader.Yields front rest good) :
    reader.Reports front rest [] good :=
  yields.gives.mono fun _ _ _ held => ⟨by rw [held.1]; rfl, held.2⟩

theorem Reports.yields (reports : reader.Reports front rest [] good) :
    reader.Yields front rest good := by
  intro cursor furthest used tail split spelled following
  obtain ⟨value, after, errors, furthest', accepted, left, none_reported, holds⟩ :=
    reports furthest split spelled following
  obtain rfl := List.map_eq_nil_iff.mp none_reported
  exact ⟨value, after, furthest', accepted, left, holds⟩

namespace Reports

theorem mono {good' : α → Prop} (reports : reader.Reports front rest causes good)
    (weaker : ∀ value, good value → good' value) : reader.Reports front rest causes good' :=
  Gives.mono reports fun _ value _ held => ⟨held.1, weaker value held.2⟩

theorem bind {next : α → Parser τ β} {good' : β → Prop} {tokens : List τ}
    {all late : List (Cause τ)} (front back : List τ) (split : tokens = front ++ back)
    (listed : all = causes ++ late) (reports : first.Reports front (back ++ rest) causes good)
    (following : ∀ value, good value → (next value).Reports back rest late good') :
    (first >>= next).Reports tokens rest all good' := by
  refine Gives.bind front back split reports fun used value errors held => ?_
  refine Gives.mono (following value held.2) fun more result others held' => ⟨?_, held'.2⟩
  rw [List.map_append, held.1, held'.1, listed]

/-- Nothing is reported at first. -/
theorem behind {next : α → Parser τ β} {good' : β → Prop} {tokens : List τ} (front back : List τ)
    (split : tokens = front ++ back) (yields : first.Yields front (back ++ rest) good)
    (following : ∀ value, good value → (next value).Reports back rest causes good') :
    (first >>= next).Reports tokens rest causes good' :=
  bind front back split (List.nil_append _).symm yields.reports following

/-- Nothing is reported in the end. -/
theorem before {next : α → Parser τ β} {good' : β → Prop} {tokens : List τ} (front back : List τ)
    (split : tokens = front ++ back) (reports : first.Reports front (back ++ rest) causes good)
    (following : ∀ value, good value → (next value).Yields back rest good') :
    (first >>= next).Reports tokens rest causes good' :=
  bind front back split (List.append_nil _).symm reports fun value holds =>
    (following value holds).reports

theorem map {make : α → β} {good' : β → Prop} (reports : first.Reports front rest causes good)
    (made : ∀ value, good value → good' (make value)) :
    (do let value ← first; return make value).Reports front rest causes good' :=
  before front [] (List.append_nil front).symm reports fun value holds =>
    Yields.pure (make value) (made value holds)

theorem spanned (reports : reader.Reports front rest causes good) :
    (Parser.spanned reader).Reports front rest causes fun found => good found.1 :=
  Gives.spanned reports

theorem optional_some (reports : reader.Reports front rest causes good) :
    (Parser.optional reader).Reports front rest causes fun found =>
      ∃ value, found = some value ∧ good value := by
  refine Gives.mono (Gives.optional_some reports) fun used found errors held => ?_
  obtain ⟨value, same, reported, holds⟩ := held
  exact ⟨reported, value, same, holds⟩

theorem report (span : Span) (cause : Cause τ) :
    (Parser.report span cause).Reports [] rest [cause] fun _ => True :=
  (Gives.report span cause).mono fun _ _ _ held => ⟨by rw [held.2]; rfl, trivial⟩

theorem many_around {γ : Type} {spell : γ → List τ} {likes : γ → α → Prop}
    {early late : List γ} {odd : List τ}
    (ahead : ∀ before next behind, early = before ++ next :: behind →
      reader.Yields (spell next) (behind.flatMap spell ++ ((odd ++ late.flatMap spell) ++ rest))
        (likes next))
    (here : reader.Reports odd (late.flatMap spell ++ rest) causes good)
    (afterwards : ∀ before next behind, late = before ++ next :: behind →
      reader.Yields (spell next) (behind.flatMap spell ++ rest) (likes next))
    (nonempty : ∀ piece, piece ∈ early ∨ piece ∈ late → spell piece ≠ []) (nonempty' : odd ≠ [])
    (stops : reader.Refuses rest) :
    (Parser.many reader).Reports (early.flatMap spell ++ (odd ++ late.flatMap spell)) rest causes
      fun values => ∃ before value behind, values = before ++ value :: behind ∧
        List.Forall₂ likes early before ∧ good value ∧ List.Forall₂ likes late behind := by
  refine Gives.mono (Gives.many_around ahead here afterwards nonempty nonempty' stops) ?_
  rintro used values errors ⟨-, -, -, before, value, behind, -, -, -, split, likes, ⟨reported, holds⟩,
    likes'⟩
  exact ⟨reported, before, value, behind, split, likes, holds, likes'⟩

section
variable [DecidableEq τ]

theorem token_bind {wanted : τ} {next : Unit → Parser τ α}
    (following : (next ()).Reports front rest causes good) :
    (token wanted >>= next).Reports (wanted :: front) rest causes good :=
  behind [wanted] front rfl (yields_token wanted) fun _ _ => following

theorem between {opening closing : τ} {inside : List τ}
    (reports : reader.Reports inside (closing :: rest) causes good) :
    (Parser.between (token opening) (token closing) reader).Reports
      (opening :: (inside ++ [closing])) rest causes good :=
  token_bind (before inside [closing] rfl reports fun _ holds =>
    (yields_token closing).map fun _ _ => holds)

end

end Reports

theorem Gives.recursive {rule : Parser τ α → Parser τ α}
    (each : ∀ budget : List (Lexeme τ), front.length ≤ budget.length →
      Gives (unrolled rule budget) front rest outcome) :
    (Parser.recursive rule).Gives front rest outcome := by
  intro cursor furthest used tail split spelled following
  refine each cursor.rest ?_ furthest split spelled following
  rw [split, ← spelled]
  simp

theorem Gives.run [DecidableEq τ] {lexemes : List (Lexeme τ)}
    (gives : reader.Gives (lexemes.map Lexeme.token) [] outcome) (stop : Nat) :
    ∃ value errors, reader.run lexemes stop = (some value, errors) ∧
      outcome lexemes value errors := by
  obtain ⟨value, after, errors, furthest, accepted, left, holds⟩ :=
    gives none (show (Cursor.start lexemes stop).rest = lexemes ++ [] from
      (List.append_nil lexemes).symm) rfl rfl
  refine ⟨value, errors, ?_, holds⟩
  simp [Parser.run, accepted, endOfInput, left]

end QueryLoop.Parsing.Parser
