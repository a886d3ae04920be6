import QueryLoop.Proofs.Fixing.Spliced
import QueryLoop.Proofs.Printing.Reindented
import QueryLoop.Proofs.Printing.Rewritten

namespace QueryLoop

open Parsing Token Token.Lexer Grammar

/-- No lexeme lies on both sides of the place. -/
def Uncut (lexemes : List (Lexeme Token)) (place : Nat) : Prop :=
  ∀ lexeme ∈ lexemes, lexeme.span.stop ≤ place ∨ place ≤ lexeme.span.start

theorem Uncut.mono {lexemes more : List (Lexeme Token)} {place : Nat} (uncut : Uncut more place)
    (subset : lexemes ⊆ more) : Uncut lexemes place :=
  fun lexeme listed => uncut lexeme (subset listed)

namespace Token.Located

variable {offset : Nat} {front back rest : List Char} {lexemes : List (Lexeme Token)}

theorem bounds (located : Located offset front lexemes rest) : ∀ lexeme ∈ lexemes,
    offset ≤ lexeme.span.start ∧ lexeme.span.start < lexeme.span.stop ∧
      lexeme.span.stop ≤ offset + Text.byteLength front := by
  induction located with
  | nil offset rest => simp
  | @blank offset c front rest lexemes isBlank following ih =>
      intro lexeme listed
      obtain ⟨low, nonempty, high⟩ := ih lexeme listed
      rw [Text.byteLength_cons]
      omega
  | @token offset token written front rest lexemes spelled following ih =>
      obtain ⟨c, others, rfl, -⟩ := spelled.starts
      have positive := c.utf8Size_pos
      rw [Text.byteLength_append] at *
      refine List.forall_mem_cons.mpr ⟨?_, fun lexeme listed => ?_⟩
      · simp only [Text.byteLength_cons]
        omega
      · obtain ⟨low, nonempty, high⟩ := ih lexeme listed
        omega

theorem pairwise (located : Located offset front lexemes rest) :
    lexemes.Pairwise fun first second => first.span.Before second.span := by
  induction located with
  | nil offset rest => exact .nil
  | blank isBlank following ih => exact ih
  | token spelled following ih =>
      exact List.pairwise_cons.mpr ⟨fun lexeme listed => (following.bounds lexeme listed).1, ih⟩

/-- Neither the start nor the end of a lexeme cuts another. -/
theorem uncut (located : Located offset front lexemes rest) {lexeme : Lexeme Token}
    (listed : lexeme ∈ lexemes) :
    Uncut lexemes lexeme.span.start ∧ Uncut lexemes lexeme.span.stop := by
  obtain ⟨before, behind, rfl⟩ := List.append_of_mem listed
  have nonempty := (located.bounds lexeme listed).2.1
  obtain ⟨-, later, earlier⟩ := List.pairwise_append.mp located.pairwise
  have after := (List.pairwise_cons.mp later).1
  unfold Span.Before at *
  refine ⟨fun other isOther => ?_, fun other isOther => ?_⟩ <;>
  · rcases List.mem_append.mp isOther with isOther | isOther
    · have := earlier other isOther lexeme List.mem_cons_self
      omega
    · rcases List.mem_cons.mp isOther with rfl | isOther
      · omega
      · have := after other isOther
        omega

/-- A text is cut into two where no lexeme is. -/
theorem split (located : Located offset (front ++ back) lexemes rest)
    (uncut : Uncut lexemes (offset + Text.byteLength front)) :
    ∃ before behind, lexemes = before ++ behind ∧ Located offset front before (back ++ rest) ∧
      Located (offset + Text.byteLength front) back behind rest := by
  generalize whole : front ++ back = chars at located
  induction located generalizing front with
  | nil offset rest =>
      obtain ⟨rfl, rfl⟩ := List.append_eq_nil_iff.mp whole
      exact ⟨[], [], rfl, .nil offset rest, .nil _ rest⟩
  | @blank offset c chars rest lexemes isBlank following ih =>
      cases front with
      | nil =>
          obtain rfl : back = c :: chars := whole
          exact ⟨[], lexemes, rfl, .nil offset _, .blank isBlank following⟩
      | cons d front =>
          obtain ⟨rfl, rfl⟩ := List.cons.inj whole
          rw [Text.byteLength_cons, ← Nat.add_assoc] at uncut ⊢
          obtain ⟨before, behind, rfl, first, second⟩ := ih uncut rfl
          exact ⟨before, behind, rfl, .blank isBlank first, second⟩
  | @token offset token written chars rest lexemes spelled following ih =>
      obtain ⟨own, others⟩ := List.forall_mem_cons.mp uncut
      rcases List.append_eq_append_iff.mp whole with ⟨middle, rfl, rfl⟩ | ⟨middle, rfl, rfl⟩
      · have place : middle = [] ∨ front = [] := by
          simp only [Text.byteLength_append] at own
          rcases own with ends | starts
          · exact .inl (Text.byteLength_eq_zero_iff.mp (by omega))
          · exact .inr (Text.byteLength_eq_zero_iff.mp (by omega))
        rcases place with rfl | rfl
        · rw [List.append_nil] at spelled following ⊢
          refine ⟨[_], lexemes, rfl, .single spelled, following⟩
        · exact ⟨[], _, rfl, .nil offset _, .token spelled following⟩
      · rw [Text.byteLength_append, ← Nat.add_assoc] at others ⊢
        obtain ⟨before, behind, rfl, first, second⟩ := ih others rfl
        refine ⟨_ :: before, behind, rfl, .token ?_ first, second⟩
        rwa [← List.append_assoc]

/-- A lexeme that starts where the text starts is written there. -/
theorem starts (located : Located offset front lexemes rest) {lexeme : Lexeme Token}
    (listed : lexeme ∈ lexemes) (place : lexeme.span.start = offset) :
    ∃ written others, front = written ++ others ∧ Spelled lexeme.token written (others ++ rest) := by
  cases located with
  | nil => cases listed
  | @blank _ c front _ _ isBlank following =>
      have positive := c.utf8Size_pos
      have := (following.bounds lexeme listed).1
      omega
  | token spelled following =>
      rcases List.mem_cons.mp listed with rfl | later
      · exact ⟨_, _, rfl, spelled⟩
      · obtain ⟨c, others, rfl, -⟩ := spelled.starts
        have positive := c.utf8Size_pos
        have low := (following.bounds lexeme later).1
        rw [Text.byteLength_cons] at low
        omega

/-- A text is cut into what is in front of a region, in it and behind it. -/
theorem splitRegion {old : List Char} {region : Span}
    (located : Located offset (front ++ (old ++ back)) lexemes rest)
    (start : region.start = offset + Text.byteLength front)
    (stop : region.stop = region.start + Text.byteLength old)
    (uncutStart : Uncut lexemes region.start) (uncutStop : Uncut lexemes region.stop) :
    ∃ before inside behind, lexemes = before ++ (inside ++ behind) ∧
      Located offset front before (old ++ back ++ rest) ∧
      Located region.start old inside (back ++ rest) ∧ Located region.stop back behind rest ∧
      lexemes.filter (fun lexeme => lexeme.span.stop ≤ region.start) = before ∧
      lexemes.filter (fun lexeme => region.stop ≤ lexeme.span.start) = behind := by
  obtain ⟨before, more, rfl, ahead, fromRegion⟩ := located.split (start ▸ uncutStart)
  rw [← start] at fromRegion
  obtain ⟨inside, behind, rfl, inRegion, fromBehind⟩ :=
    fromRegion.split (stop ▸ uncutStop.mono (List.subset_append_right before more))
  rw [← stop] at fromBehind
  refine ⟨before, inside, behind, rfl, ahead, inRegion, fromBehind, ?_, ?_⟩
  · have none : (inside ++ behind).filter (fun lexeme => lexeme.span.stop ≤ region.start) = [] := by
      refine List.filter_eq_nil_iff.mpr fun lexeme listed => ?_
      have := (inRegion.append (stop ▸ fromBehind)).bounds lexeme listed
      simp only [decide_eq_true_eq]
      omega
    have all : before.filter (fun lexeme => lexeme.span.stop ≤ region.start) = before := by
      refine List.filter_eq_self.mpr fun lexeme listed => ?_
      have := ahead.bounds lexeme listed
      simp only [decide_eq_true_eq]
      omega
    rw [List.filter_append, all, none, List.append_nil]
  · have none : (before ++ inside).filter (fun lexeme => region.stop ≤ lexeme.span.start) = [] := by
      refine List.filter_eq_nil_iff.mpr fun lexeme listed => ?_
      simp only [decide_eq_true_eq]
      rcases List.mem_append.mp listed with listed | listed
      · have := ahead.bounds lexeme listed
        omega
      · have := inRegion.bounds lexeme listed
        omega
    have all : behind.filter (fun lexeme => region.stop ≤ lexeme.span.start) = behind := by
      refine List.filter_eq_self.mpr fun lexeme listed => ?_
      have := fromBehind.bounds lexeme listed
      simp only [decide_eq_true_eq]
      omega
    rw [← List.append_assoc, List.filter_append, none, all, List.nil_append]

end Token.Located

/-- The tokens of the lexemes, with others for those in the regions, which stand one behind
the other. -/
def exchangedTokens (tokensAt : Span → List Token) :
    (regions : List Span) → (lexemes : List (Lexeme Token)) → List Token
  | [], lexemes => tokensOf lexemes
  | region :: regions, lexemes =>
      tokensOf (lexemes.filter fun lexeme => lexeme.span.stop ≤ region.start) ++ tokensAt region ++
        exchangedTokens tokensAt regions
          (lexemes.filter fun lexeme => region.stop ≤ lexeme.span.start)

/-- The region starts with the word for a loop, and neither end of it cuts a lexeme. -/
structure LoopRegion (lexemes : List (Lexeme Token)) (region : Span) : Prop where
  word : ∃ first ∈ lexemes, first.token = .keyword .foreachWord ∧ first.span.start = region.start
  start : Uncut lexemes region.start
  stop : Uncut lexemes region.stop

theorem LoopRegion.behind {before lexemes : List (Lexeme Token)} {region : Span} {place : Nat}
    (framed : LoopRegion (before ++ lexemes) region) (late : place ≤ region.start)
    (early : ∀ lexeme ∈ before, lexeme.span.start < place) : LoopRegion lexemes region := by
  have subset : lexemes ⊆ before ++ lexemes := List.subset_append_right before lexemes
  obtain ⟨⟨first, listed, word, same⟩, start, stop⟩ := framed
  refine ⟨⟨first, ?_, word, same⟩, start.mono subset, stop.mono subset⟩
  refine (List.mem_append.mp listed).resolve_left fun isEarly => ?_
  have := early first isEarly
  omega

theorem LoopRegion.head_eq {offset : Nat} {chars rest : List Char} {lexemes : List (Lexeme Token)}
    {region : Span} (framed : LoopRegion lexemes region)
    (located : Located offset chars lexemes rest) (start : region.start = offset) :
    chars.head? = some 'f' := by
  obtain ⟨first, listed, isWord, place⟩ := framed.word
  obtain ⟨written, others, rfl, spelled⟩ := located.starts listed (place.trans start)
  rw [isWord] at spelled
  rw [← spelled.text_eq rfl]
  rfl

theorem noOpening_of_append {front back : List (Lexeme Token)}
    (apart : ¬[.sign .divide, .sign .times] <:+: tokensOf (front ++ back)) :
    ¬[.sign .divide, .sign .times] <:+: tokensOf front ∧
      ¬[.sign .divide, .sign .times] <:+: tokensOf back := by
  rw [tokensOf_append] at apart
  exact ⟨fun opening => apart (opening.trans (List.prefix_append _ _).isInfix),
    fun opening => apart (opening.trans (List.suffix_append _ _).isInfix)⟩

/-- The blanks in front of the line on which the place lies. -/
def indentAt (chars : List Char) (place : Nat) : List Char :=
  (Text.splitBytes? chars place).elim [] fun parts => leadingBlanks (lastLine parts.1)

theorem indentAt_append (front back : List Char) :
    indentAt (front ++ back) (Text.byteLength front) = leadingBlanks (lastLine front) := by
  rw [indentAt, Text.splitBytes?_append]
  rfl

theorem isBlank_of_mem_leadingBlanks {line : List Char} :
    ∀ c ∈ leadingBlanks line, Text.isBlank c = true :=
  fun _ listed => List.all_eq_true.mp List.all_takeWhile _ listed

namespace Spliced

variable {tree : SourceTree} {format : Format} {front text result : List Char}
  {regions : List Span} {lexemes : List (Lexeme Token)}

theorem ahead (spliced : Spliced tree format front regions text result) :
    ∀ region ∈ regions, Text.byteLength front ≤ region.start := by
  induction spliced with
  | rest front text => simp
  | @region front gap old text result regions stmt found start stop later ih =>
      simp only [Text.byteLength_append] at *
      refine List.forall_mem_cons.mpr ⟨by omega, fun region listed => ?_⟩
      have := ih region listed
      omega

/-- A loop that is put in is read as its tokens with their lines indented, and what is in
front of it as in front of a loop of the source. -/
theorem scans_put {loop : Loop} {offset : Nat} {gap old result indent : List Char}
    {tokens : List Token} (inGap : Located offset gap lexemes old) (isHead : old.head? = some 'f')
    (apart : ¬[.sign .divide, .sign .times] <:+: tokensOf lexemes)
    (usable : ∀ token ∈ loop.toStmt.tokens, token.Usable)
    (allBlank : ∀ c ∈ indent, Text.isBlank c = true) (behind : Scans result tokens []) :
    Scans (gap ++ loop.toStmt.renderIndented format indent ++ result)
      (tokensOf lexemes ++ loop.toStmt.tokens.map (Token.indented indent) ++ tokens) [] := by
  have newHead : (loop.toStmt.renderIndented format indent ++ (result ++ [])).head? = some 'f' := by
    obtain ⟨others, shape⟩ :=
      List.head?_eq_some_iff.mp (Stmt.head_renderIndented loop format indent)
    rw [shape]
    rfl
  have ahead := inGap.scans.transfer apart isHead newHead (by decide) (by decide)
  exact (ahead.append (loop.toStmt.scans_renderIndented format usable allBlank _)).append behind

/-- What is put in for loops is read as their tokens with their lines indented, and all
other tokens are read as before. -/
theorem scans {chars : List Char} {tokensAt : Span → List Token}
    (spliced : Spliced tree format front regions text result) (whole : chars = front ++ text)
    (located : Located (Text.byteLength front) text lexemes [])
    (apart : ¬[.sign .divide, .sign .times] <:+: tokensOf lexemes)
    (framed : ∀ region ∈ regions, LoopRegion lexemes region)
    (loops : ∀ region ∈ regions, ∀ stmt, tree.statements.filter (·.span = region) = [stmt] →
      (∃ loop : Loop, stmt = loop.toStmt) ∧ (∀ token ∈ stmt.tokens, token.Usable) ∧
        tokensAt region = stmt.tokens) :
    Scans result (exchangedTokens (fun region =>
      (tokensAt region).map (Token.indented (indentAt chars region.start))) regions lexemes) [] := by
  induction spliced generalizing lexemes with
  | rest front text => exact located.scans
  | @region front gap old text result regions stmt found start stop later ih =>
      obtain ⟨own, others⟩ := List.forall_mem_cons.mp framed
      obtain ⟨isLoop, otherLoops⟩ := List.forall_mem_cons.mp loops
      obtain ⟨⟨loop, rfl⟩, usable, sameTokens⟩ := isLoop stmt found
      have place : loop.toStmt.span.start = Text.byteLength front + Text.byteLength gap := by
        rw [start, Text.byteLength_append]
      have size : loop.toStmt.span.stop = loop.toStmt.span.start + Text.byteLength old := by
        rw [start, stop, Text.byteLength_append]
      rw [List.append_assoc] at located
      obtain ⟨before, inside, behind, rfl, inGap, inRegion, fromBehind, atFront, atBack⟩ :=
        located.splitRegion place size own.start own.stop
      have early : ∀ lexeme ∈ before, lexeme.span.start < loop.toStmt.span.start := by
        intro lexeme listed
        have := inGap.bounds lexeme listed
        omega
      have fromRegion := inRegion.append (size ▸ fromBehind)
      have isHead : (old ++ text ++ []).head? = some 'f' := by
        rw [List.append_nil]
        exact (own.behind (Nat.le_refl _) early).head_eq fromRegion rfl
      have indent : indentAt chars loop.toStmt.span.start =
          leadingBlanks (lastLine (front ++ gap)) := by
        rw [start, whole, ← indentAt_append (front ++ gap) (old ++ text)]
        simp only [List.append_assoc]
      obtain ⟨apartBefore, apartRegion⟩ := noOpening_of_append apart
      have othersBehind : ∀ region ∈ regions, LoopRegion behind region := by
        intro region listed
        have framed := others region listed
        rw [← List.append_assoc] at framed
        refine framed.behind (later.ahead region listed) (List.forall_mem_append.mpr ⟨?_, ?_⟩)
        · intro lexeme isEarly
          have := inGap.bounds lexeme isEarly
          omega
        · intro lexeme isInside
          have := inRegion.bounds lexeme isInside
          omega
      have restScans := ih (by simpa only [List.append_assoc] using whole) (stop ▸ fromBehind)
        (noOpening_of_append apartRegion).2 othersBehind otherLoops
      rw [exchangedTokens, atFront, atBack, sameTokens, indent]
      exact scans_put inGap isHead apartBefore usable isBlank_of_mem_leadingBlanks restScans

end Spliced

/-- The tokens of a text that is read without problems, but for comments. -/
def Token.readTokens (text : String) : Option (List Token) :=
  match Token.lex text with
  | (some lexemes, []) => some (tokensOf (withoutComments lexemes))
  | _ => none

/-- The tokens of the text of the statement with this span. -/
def SourceTree.printedTokens (tree : SourceTree) (format : Format) (region : Span) : List Token :=
  ((Node.stmtAt? (tree.nodesAround region) region).bind fun stmt =>
    readTokens (stmt.render format)).getD []

theorem tokensOf_withoutComments (lexemes : List (Lexeme Token)) :
    tokensOf (withoutComments lexemes) = (tokensOf lexemes).filter (!·.isComment) := by
  rw [tokensOf, tokensOf, withoutComments, List.filter_map]
  rfl

theorem readTokens_of_scans {chars : List Char} {tokens : List Token}
    (scans : Scans chars tokens []) :
    readTokens (String.ofList chars) = some (tokens.filter (!·.isComment)) := by
  obtain ⟨lexemes, read, rfl⟩ := scans.lex
  rw [readTokens, read]
  exact congrArg some (tokensOf_withoutComments lexemes)

theorem Stmt.readTokens_render (stmt : Stmt) (format : Format)
    (usable : ∀ token ∈ stmt.tokens, token.Usable) :
    readTokens (stmt.render format) = some stmt.tokens := by
  have scans : Scans (stmt.render format).toList stmt.tokens [] :=
    stmt.closes (fun token listed => (usable token listed).1) _ (Layout.lays_render _ _) []
  have read := readTokens_of_scans scans
  rw [String.ofList_toList] at read
  rw [read, List.filter_eq_self.mpr fun token listed => by simp [(usable token listed).2]]

section

variable {tokensAt tokensAt' : Span → List Token} {regions : List Span}
  {lexemes : List (Lexeme Token)}

/-- Leaving out the comments of the lexemes leaves out the comments. -/
theorem filter_exchangedTokens
    (plain : ∀ region ∈ regions, ∀ token ∈ tokensAt region, token.isComment = false) :
    (exchangedTokens tokensAt regions lexemes).filter (!·.isComment) =
      exchangedTokens tokensAt regions (withoutComments lexemes) := by
  induction regions generalizing lexemes with
  | nil => exact (tokensOf_withoutComments lexemes).symm
  | cons region regions ih =>
      obtain ⟨own, others⟩ := List.forall_mem_cons.mp plain
      have commute : ∀ keep : Lexeme Token → Bool,
          (withoutComments lexemes).filter keep = withoutComments (lexemes.filter keep) := fun keep =>
        List.filter_comm ..
      have kept : (tokensAt region).filter (!·.isComment) = tokensAt region :=
        List.filter_eq_self.mpr fun token listed => by simp [own token listed]
      rw [exchangedTokens, exchangedTokens, commute, commute, ← ih others, tokensOf_withoutComments,
        List.filter_append, List.filter_append, kept]

/-- Tokens of the same number at each region make the same sequence only if they are the
same at each region. -/
theorem exchangedTokens_eq_iff
    (sameLength : ∀ region ∈ regions, (tokensAt region).length = (tokensAt' region).length) :
    exchangedTokens tokensAt regions lexemes = exchangedTokens tokensAt' regions lexemes ↔
      ∀ region ∈ regions, tokensAt region = tokensAt' region := by
  induction regions generalizing lexemes with
  | nil => simp [exchangedTokens]
  | cons region regions ih =>
      obtain ⟨own, others⟩ := List.forall_mem_cons.mp sameLength
      rw [exchangedTokens, exchangedTokens, List.append_assoc, List.append_assoc,
        List.append_cancel_left_eq, List.forall_mem_cons, ← ih others]
      exact ⟨fun same => List.append_inj same own, fun ⟨same, behind⟩ => by rw [same, behind]⟩

end

theorem SourceTree.Writable.of_mem {tree : SourceTree} {length : Nat} {stmt : Stmt}
    (writable : tree.Writable) (arranged : tree.Arranged length)
    (inside : stmt ∈ tree.statements) : stmt.Writable := by
  obtain ⟨after, -, exchanged⟩ := arranged.replaceStmt? stmt inside
  exact (exchanged.writable writable).1

theorem SourceTree.Arranged.printedTokens_eq {tree : SourceTree} {length : Nat} {stmt : Stmt}
    (arranged : tree.Arranged length) (format : Format) (inside : stmt ∈ tree.statements)
    (usable : ∀ token ∈ stmt.tokens, token.Usable) :
    tree.printedTokens format stmt.span = stmt.tokens := by
  rw [printedTokens, arranged.stmtAt?_eq inside, Option.bind_some,
    stmt.readTokens_render format usable]
  rfl

/-- The place of a loop that was read cuts no lexeme. -/
theorem LoopRegion.of_place {lexemes : List (Lexeme Token)} {chars : List Char} {region : Span}
    (located : Located 0 chars lexemes []) (place : LoopPlace (withoutComments lexemes) region) :
    LoopRegion lexemes region := by
  obtain ⟨first, listed, last, listed', word, rfl⟩ := place
  have subset : withoutComments lexemes ⊆ lexemes := List.filter_subset_self lexemes
  exact ⟨⟨first, subset listed, word, rfl⟩, (located.uncut (subset listed)).1,
    (located.uncut (subset listed')).2⟩

/-- Every lexeme is in front of a region, in it or behind it. -/
theorem LoopRegion.apart {lexemes : List (Lexeme Token)} {region : Span} (framed : LoopRegion lexemes region) :
    ∀ lexeme ∈ lexemes, lexeme.span.Before region ∨ region.contains lexeme.span = true ∨
      region.Before lexeme.span := by
  intro lexeme listed
  rcases framed.start lexeme listed with ahead | inside
  · exact .inl ahead
  · rcases framed.stop lexeme listed with inside' | behind
    · exact .inr (.inl (Span.contains_iff.mpr ⟨inside, inside'⟩))
    · exact .inr (.inr behind)

theorem newline_not_mem_indentAt (chars : List Char) (place : Nat) :
    '\n' ∉ indentAt chars place := by
  intro listed
  unfold indentAt at listed
  cases cut : Text.splitBytes? chars place with
  | none => simp [cut] at listed
  | some parts =>
      rw [cut, Option.elim_some] at listed
      have inLine : '\n' ∈ lastLine parts.1 := (List.takeWhile_prefix _).subset listed
      rw [lastLine, List.mem_reverse] at inLine
      simpa using List.all_eq_true.mp List.all_takeWhile _ inLine

/-- Every loop of a text without problems is a region of it. -/
theorem LoopRegion.of_parse {source : String} {tree : SourceTree} {lexemes : List (Lexeme Token)}
    (parsed : SourceTree.parse source = (tree, [])) (read : Token.lex source = (some lexemes, [])) :
    ∀ region ∈ tree.loops.map Loop.span, LoopRegion lexemes region := by
  obtain ⟨lexemes', read', -, -, -, places⟩ := SourceTree.of_parse parsed
  obtain rfl : lexemes' = lexemes := by simpa [read] using read'.symm
  intro region listed
  obtain ⟨loop, inTree, rfl⟩ := List.mem_map.mp listed
  exact .of_place (located_lex read) (places _ (SourceTree.mem_loops_iff.mp inTree) loop rfl)

/-- In a text without problems no star stands behind a division sign, not even with a
comment between them. -/
theorem noOpening_of_parse {source : String} {tree : SourceTree} {lexemes : List (Lexeme Token)}
    (parsed : SourceTree.parse source = (tree, [])) (read : Token.lex source = (some lexemes, [])) :
    ¬[.sign .divide, .sign .times] <:+: tokensOf lexemes := by
  obtain ⟨lexemes', read', spelled, -⟩ := SourceTree.of_parse parsed
  obtain rfl : lexemes' = lexemes := by simpa [read] using read'.symm
  intro opening
  have inTree := opening.filter (!·.isComment)
  rw [← tokensOf_withoutComments, spelled] at inTree
  exact tree.starsApart.noOpening inTree

/-- The region holds the loop, whose tokens are those of its text. -/
structure PrintedLoop (tree : SourceTree) (format : Format) (region : Span) (loop : Loop) : Prop where
  only : tree.statements.filter (·.span = region) = [loop.toStmt]
  usable : ∀ token ∈ loop.toStmt.tokens, token.Usable
  printed : tree.printedTokens format region = loop.toStmt.tokens

theorem SourceTree.Arranged.printedLoop {tree : SourceTree} {length : Nat} {loop : Loop}
    (arranged : tree.Arranged length) (writable : tree.Writable) (format : Format)
    (inTree : loop ∈ tree.loops) : PrintedLoop tree format loop.span loop := by
  have inside := mem_loops_iff.mp inTree
  have usable := (writable.of_mem arranged inside).usable
  exact ⟨arranged.filter_span_eq inside, usable, arranged.printedTokens_eq format inside usable⟩

/-- The text with loops put in has their tokens with the lines indented in place of those in
the regions. -/
theorem Spliced.readTokens_eq {tree source : SourceTree} {format : Format} {text : String}
    {result : List Char} {regions : List Span} {lexemes : List (Lexeme Token)}
    (spliced : Spliced tree format [] regions text.toList result)
    (parsed : SourceTree.parse text = (source, [])) (read : Token.lex text = (some lexemes, []))
    (framed : ∀ region ∈ regions, LoopRegion lexemes region)
    (loops : ∀ region ∈ regions, ∃ loop, PrintedLoop tree format region loop) :
    readTokens (String.ofList result) = some (exchangedTokens (fun region =>
      (tree.printedTokens format region).map
        (Token.indented (indentAt text.toList region.start))) regions (withoutComments lexemes)) := by
  have fromTree : ∀ region ∈ regions, ∀ stmt,
      tree.statements.filter (·.span = region) = [stmt] →
        (∃ loop : Loop, stmt = loop.toStmt) ∧ (∀ token ∈ stmt.tokens, token.Usable) ∧
          tree.printedTokens format region = stmt.tokens := by
    intro region isRegion stmt only
    obtain ⟨loop, only', usable, printed⟩ := loops region isRegion
    obtain rfl : stmt = loop.toStmt := by simpa [only'] using only.symm
    exact ⟨⟨loop, rfl⟩, usable, printed⟩
  have scans := spliced.scans (show text.toList = [] ++ text.toList from rfl) (located_lex read)
    (noOpening_of_parse parsed read) framed fromTree
  have plain : ∀ region ∈ regions, ∀ token ∈ (tree.printedTokens format region).map
      (Token.indented (indentAt text.toList region.start)), token.isComment = false := by
    intro region isRegion token listed
    obtain ⟨loop, -, usable, printed⟩ := loops region isRegion
    obtain ⟨own, isOwn, rfl⟩ := List.mem_map.mp listed
    rw [Token.isComment_indented]
    exact (usable own (printed ▸ isOwn)).2
  exact (readTokens_of_scans scans).trans (congrArg some (filter_exchangedTokens plain))

/-- Fixing a text exchanges the tokens of the outermost fixed loops for those of the fixed
statements with their lines indented; all other tokens but comments are kept.  These are
the tokens of the statements as printed exactly if every string literal in them is on one
line, or stands where nothing is put in front of lines and no carriage return is dropped. -/
theorem fixSource_tokens_iff {source path text : String} {config : Config} {format : Format}
    {applied : Nat} {span : Span}
    (isName : Token.lex config.options.lambdaParameter =
      (some [⟨.ident config.options.lambdaParameter, span⟩], []))
    (fixes : fixSource source path config format = .ok (text, applied)) :
    let fixed := (Document.parse source path).1.fixUntilDone config
    let printed := fixed.document.tree.printedTokens format
    ∃ lexemes regions, Token.lex source = (some lexemes, []) ∧
      regions.Perm (outermostRegions fixed.regions) ∧ regions.Pairwise Span.Before ∧
      (∀ region ∈ regions,
        (∃ stmt, fixed.document.tree.statements.filter (·.span = region) = [stmt] ∧
          readTokens (stmt.render format) = some (printed region)) ∧
        ∀ lexeme ∈ withoutComments lexemes, lexeme.span.Before region ∨
          region.contains lexeme.span = true ∨ region.Before lexeme.span) ∧
      readTokens text = some (exchangedTokens (fun region => (printed region).map
        (Token.indented (indentAt source.toList region.start))) regions (withoutComments lexemes)) ∧
      (readTokens text = some (exchangedTokens printed regions (withoutComments lexemes)) ↔
        ∀ region ∈ regions, ∀ content, Token.string content ∈ printed region →
          '\n' ∉ content.toList ∨ indentAt source.toList region.start = [] ∧
            ¬['\r', '\n'] <:+: content.toList) := by
  intro fixed printed
  obtain ⟨clean, text_eq, -⟩ := fixSource_eq_ok_iff.mp fixes
  have parsed : SourceTree.parse source = ((Document.parse source path).1.tree, []) :=
    Prod.ext rfl clean
  have opened : (Document.parse source path).1.Reachable := .opened source path
  have run : (Document.parse source path).1.FixedTo fixed.regions fixed.document :=
    Document.fixedTo_fixRounds _ config _
  have arranged := (run.reachable opened).arranged
  have proper : (Token.ident config.options.lambdaParameter).Proper :=
    (located_lex isName).scans.proper _ List.mem_cons_self rfl
  have writable : fixed.document.tree.Writable := Document.writable_fixRounds proper _ opened
    (SourceTree.writable_of_parse parsed)
  obtain ⟨lexemes, read, -⟩ := SourceTree.of_parse parsed
  obtain ⟨regions, result, perm, ordered, -, spliced, whole⟩ := run.spliced opened format
  obtain ⟨kept, listed⟩ := run.loops opened
  -- Each region is the place of a loop in the source, and of one in the fixed tree.
  have isLoop : ∀ region ∈ regions, region ∈ (Document.parse source path).1.tree.loops.map Loop.span :=
    fun region isRegion => listed region (mem_outermostRegions_iff.mp (perm.mem_iff.mp isRegion)).1
  have framed : ∀ region ∈ regions, LoopRegion lexemes region :=
    fun region isRegion => .of_parse parsed read region (isLoop region isRegion)
  have loops : ∀ region ∈ regions, ∃ loop, PrintedLoop fixed.document.tree format region loop := by
    intro region isRegion
    obtain ⟨loop, inTree, rfl⟩ := List.mem_map.mp (kept ▸ isLoop region isRegion)
    exact ⟨loop, arranged.printedLoop writable format inTree⟩
  have readText : readTokens text = some (exchangedTokens (fun region => (printed region).map
      (Token.indented (indentAt source.toList region.start))) regions (withoutComments lexemes)) := by
    rw [← text_eq, show splice source _ _ format = (String.ofList result, []) from whole]
    exact spliced.readTokens_eq parsed read framed loops
  refine ⟨lexemes, regions, read, perm, ordered, fun region isRegion => ⟨?_, ?_⟩, readText, ?_⟩
  · obtain ⟨loop, only, usable, same⟩ := loops region isRegion
    exact ⟨loop.toStmt, only,
      (loop.toStmt.readTokens_render format usable).trans (congrArg some same.symm)⟩
  · intro lexeme isLexeme
    exact (framed region isRegion).apart lexeme (List.filter_subset_self lexemes isLexeme)
  · rw [readText, Option.some.injEq, exchangedTokens_eq_iff fun region _ => List.length_map _]
    exact forall₂_congr fun region _ =>
      Token.map_indented_eq_iff (newline_not_mem_indentAt source.toList region.start)

/-- An indented loop with a string literal, in front of a comment. -/
theorem fixSource_tokens_string :
    let source := "  foreach (var a in b) \x7b if (a.S == \"x\") F(a); \x7d // d"
    ∃ text lexemes regions, fixSource source "" {} {} = .ok (text, 1) ∧
      Token.lex source = (some lexemes, []) ∧ regions.Perm [⟨2, 48⟩] ∧
      readTokens text = some (exchangedTokens
        (((Document.parse source "").1.fixUntilDone {}).document.tree.printedTokens {}) regions
          (withoutComments lexemes)) := by
  intro source
  have isName : Token.lex ({} : Config).options.lambdaParameter =
      (some [⟨.ident ({} : Config).options.lambdaParameter, ⟨0, 1⟩⟩], []) :=
    Prod.ext (by decide +kernel) (List.isEmpty_iff.mp (by decide +kernel))
  have succeeds : (fixSource source "" {} {}).toOption.any (·.2 == 1) = true := by
    decide +kernel
  have outermost : outermostRegions ((Document.parse source "").1.fixUntilDone {}).regions =
      [⟨2, 48⟩] := by
    decide +kernel
  have oneLine : (((Document.parse source "").1.fixUntilDone {}).document.tree.printedTokens {}
      ⟨2, 48⟩).all (fun token => token.text.toList.all (· != '\n')) = true := by
    decide +kernel
  clear_value source
  cases fixes : fixSource source "" {} {} with
  | error problems => simp [fixes, Except.toOption] at succeeds
  | ok result =>
      obtain ⟨text, applied⟩ := result
      obtain rfl : applied = 1 := by simpa [fixes, Except.toOption] using succeeds
      obtain ⟨lexemes, regions, read, perm, -, -, -, same⟩ := fixSource_tokens_iff isName fixes
      rw [outermost] at perm
      refine ⟨text, lexemes, regions, rfl, read, perm, same.mpr ?_⟩
      intro region isRegion content listed
      obtain rfl := List.mem_singleton.mp (perm.mem_iff.mp isRegion)
      refine .inl fun hasFeed => ?_
      have noFeed := List.all_eq_true.mp (List.all_eq_true.mp oneLine _ listed) '\n'
        (by simp [Token.text, hasFeed])
      cases noFeed

/-- The second line of a string literal is indented. -/
theorem fixSource_tokens_lineFeed :
    let source := "  foreach (var a in b) \x7b if (a.S == \"x\ny\") F(a); \x7d"
    ∃ text lexemes, fixSource source "" {} {} = .ok (text, 1) ∧
      Token.lex source = (some lexemes, []) ∧
      outermostRegions ((Document.parse source "").1.fixUntilDone {}).regions = [⟨2, 50⟩] ∧
      readTokens text ≠ some (exchangedTokens
        (((Document.parse source "").1.fixUntilDone {}).document.tree.printedTokens {}) [⟨2, 50⟩]
          (withoutComments lexemes)) := by
  intro source
  have clean : (Token.lex source).2 = [] := List.isEmpty_iff.mp (by decide +kernel)
  have outermost : outermostRegions ((Document.parse source "").1.fixUntilDone {}).regions =
      [⟨2, 50⟩] := by
    decide +kernel
  have differs : (fixSource source "" {} {}).toOption.any (fun result => result.2 == 1 &&
      (Token.lex source).1.any fun lexemes => readTokens result.1 != some (exchangedTokens
        (((Document.parse source "").1.fixUntilDone {}).document.tree.printedTokens {}) [⟨2, 50⟩]
          (withoutComments lexemes))) = true := by
    decide +kernel
  clear_value source
  obtain ⟨⟨text, applied⟩, fixes, differs⟩ := (Option.any_eq_true _ _).mp differs
  obtain ⟨once, differs⟩ := Bool.and_eq_true_iff.mp differs
  obtain ⟨lexemes, read, differs⟩ := (Option.any_eq_true _ _).mp differs
  obtain rfl : applied = 1 := by simpa using once
  refine ⟨text, lexemes, ?_, Prod.ext read clean, outermost, by simpa using differs⟩
  cases found : fixSource source "" {} {} with
  | error problems => simp [found, Except.toOption] at fixes
  | ok result => simpa [found, Except.toOption] using fixes

end QueryLoop
