import QueryLoop.Proofs.Spelling.Items
import QueryLoop.Proofs.Spelling.Settled

namespace QueryLoop

open Parsing Parser

namespace Grammar

/-- What an item was read from. -/
structure ItemRead (used rest : List (Lexeme Token)) (found : Item) : Prop where
  spelled : tokensOf used = found.tokens
  fits : found.Fits
  settled : (tokensOf rest).head? ≠ some (.keyword .elseWord) → found.dangles = false
  loops : LoopsOn used found.statements

/-- What was read makes an item, given a span. -/
def MakeRead : CleanPost Token (Span → Item) := fun used rest make =>
  ∀ span, ItemRead used rest (make span)

variable {inner : Parser Token Item} {used : List (Lexeme Token)}

theorem items_of_series {rest : List (Lexeme Token)} {items : List Item}
    (series : Series ItemRead used rest items)
    (ends : (tokensOf rest).head? ≠ some (.keyword .elseWord)) :
    tokensOf used = Item.allTokens items ∧ Item.AllFit items ∧ Item.anyDangles items = false := by
  induction series with
  | nil rest => exact ⟨rfl, trivial, rfl⟩
  | @cons used more rest item items held following ih =>
      obtain ⟨spelled', fit, settled'⟩ := ih ends
      have behind : (tokensOf (more ++ rest)).head? ≠ some (.keyword .elseWord) := by
        rw [tokensOf_append, spelled']
        exact fit.head?_ne_else ends
      refine ⟨by rw [tokensOf_append, held.spelled, spelled', Item.allTokens], ⟨held.fits, fit⟩, ?_⟩
      rw [Item.anyDangles, held.settled behind, settled']
      rfl

theorem loopsOn_of_itemSeries {rest : List (Lexeme Token)} {items : List Item}
    (series : Series ItemRead used rest items) :
    ∀ item ∈ items, LoopsOn used item.statements :=
  series.forall_mem (fun used item => LoopsOn used item.statements)
    (fun _ _ _ loops subset => LoopsOn.mono loops subset) fun _ _ _ held => held.loops

theorem reads_members (reads : inner.Reads ItemRead) (laid : inner.Ensures LaidItem) :
    (members inner).Reads fun used _ items =>
      tokensOf used = .braceOpen :: (Item.allTokens items ++ [.braceClose]) ∧ Item.AllFit items ∧
        Item.anyDangles items = false ∧ ∀ item ∈ items, LoopsOn used item.statements := by
  refine Reads.recoverWith (((reads.many (laid.mono fun _ _ _ _ held => held.1)).between
    Token.braceOpen .braceClose).mono ?_) (bind_advances (advances_of (ensures_skipGroup _ _ _))
      fun _ => advances_of (ensures_pure _))
  rintro used rest items ⟨opening, inside, closing, rfl, opened, closed, series, -⟩
  obtain ⟨spelled, fit, settled⟩ := items_of_series series (by simp [closed])
  refine ⟨by simp [opened, closed, spelled], fit, settled, fun item listed => ?_⟩
  refine (loopsOn_of_itemSeries series item listed).mono ?_
  intro lexeme listed
  simp [listed]

theorem reads_modifier : modifier.Reads fun used _ word => tokensOf used = [.modifier word] := by
  refine (reads_select _ _).mono ?_
  rintro used rest word ⟨lexeme, rfl, accepted⟩
  split at accepted
  · rename_i same
    cases accepted
    simp [same]
  · cases accepted

theorem reads_modifiers : (many modifier).Reads fun used _ words =>
    tokensOf used = words.map .modifier := by
  refine (reads_modifier.many (select_consumes _ _)).mono ?_
  rintro used rest words ⟨series, -⟩
  induction series with
  | nil rest => rfl
  | cons held following ih => simp [held, ih]

theorem reads_dottedName : dottedName.Reads fun used _ path =>
    tokensOf used = pathTokens path ∧ path ≠ [] :=
  (reads_of_ensures ensures_dottedName).mono fun _ _ _ held => ⟨held.1, held.2.1⟩

theorem loopsOn_of_parts {item : Item}
    (subitems : ∀ child ∈ item.subitems, LoopsOn used child.statements)
    (stmts : ∀ stmt ∈ item.stmts, LoopsOn used stmt.statements) :
    LoopsOn used item.statements := by
  intro inside listed loop isLoop
  rw [Item.statements_eq, List.mem_append, List.mem_flatMap, List.mem_flatMap] at listed
  rcases listed with ⟨child, isChild, deeper⟩ | ⟨stmt, isStmt, deeper⟩
  · exact subitems child isChild inside deeper loop isLoop
  · exact stmts stmt isStmt inside deeper loop isLoop

theorem reads_usingItem : usingItem.Reads MakeRead := by
  refine ((reads_token (Token.keyword .usingWord)).bind fun _ => reads_dottedName.bind fun path =>
    reads_semicolon.bind fun _ => reads_pure _).mono ?_
  rintro used rest _ ⟨_, _, _, rfl, ⟨word, rfl, isWord⟩, own, _, path, rfl, ⟨spelled, nonempty⟩,
    back, _, _, rfl, ends, rfl, rfl⟩ span
  refine ⟨?_, nonempty, fun _ => rfl, loopsOn_of_parts ?_ ?_⟩
  · simp [Item.tokens, isWord, spelled, ends]
  · simp [Item.subitems]
  · simp [Item.stmts]

theorem reads_namespaceItem (reads : inner.Reads ItemRead) (laid : inner.Ensures LaidItem) :
    (namespaceItem inner).Reads MakeRead := by
  refine ((reads_token (Token.keyword .namespaceWord)).bind fun _ => reads_dottedName.bind
    fun path => (reads_members reads laid).bind fun items => reads_pure _).mono ?_
  rintro used rest _ ⟨_, _, _, rfl, ⟨word, rfl, isWord⟩, own, _, path, rfl, ⟨spelled, nonempty⟩,
    back, _, items, rfl, ⟨inside, fit, settled, loops⟩, rfl, rfl⟩ span
  refine ⟨?_, ⟨nonempty, fit⟩, fun _ => settled, loopsOn_of_parts (fun child listed => ?_) ?_⟩
  · simp [Item.tokens, isWord, spelled, inside]
  · refine (loops child listed).mono ?_
    intro lexeme listed
    simp [listed]
  · simp [Item.stmts]

theorem reads_classItem (reads : inner.Reads ItemRead) (laid : inner.Ensures LaidItem) :
    (classItem inner).Reads MakeRead := by
  refine (reads_modifiers.bind fun modifiers => (reads_token (Token.keyword .classWord)).bind
    fun _ => reads_name.bind fun name => (reads_members reads laid).bind
      fun items => reads_pure _).mono ?_
  rintro used rest _ ⟨front, _, modifiers, rfl, words, _, _, _, rfl, ⟨word, rfl, isWord⟩, _, _, name,
    rfl, ⟨lexeme, rfl, isName⟩, back, _, items, rfl, ⟨inside, fit, settled, loops⟩, rfl, rfl⟩ span
  refine ⟨?_, fit, fun _ => settled, loopsOn_of_parts (fun child listed => ?_) ?_⟩
  · simp [Item.tokens, words, isWord, isName, inside]
  · refine (loops child listed).mono ?_
    intro lexeme listed
    simp [listed]
  · simp [Item.stmts]

theorem reads_param : param.Reads fun used _ found =>
    tokensOf used = found.tokens ∧ found.type.Named := by
  refine (reads_type.bind fun type => reads_name.bind fun name => reads_pure _).mono ?_
  rintro used rest _ ⟨front, _, type, rfl, ⟨spelled, named⟩, _, _, name, rfl, ⟨lexeme, rfl, isName⟩,
    rfl, rfl⟩
  exact ⟨by simp [Param.tokens, spelled, isName], named⟩

theorem param_consumes : param.Ensures Consumes :=
  bind_consumes type_consumes fun _ => advances_of (name_consumes.bind fun _ => ensures_pure _)

theorem reads_params : (separated param (token .comma)).Reads fun used _ params =>
    tokensOf used = Token.listed .comma Param.tokens params ∧
      ∀ param ∈ params, param.type.Named := by
  refine (reads_param.separated Token.comma param_consumes).mono ?_
  rintro used rest params (⟨front, back, first, others, rfl, rfl, ⟨spelled, named⟩, series⟩ |
    ⟨rfl, rfl⟩)
  · have behind : tokensOf back = (others.flatMap fun param => .comma :: param.tokens) ∧
        ∀ param ∈ others, param.type.Named := by
      induction series with
      | nil rest => exact ⟨rfl, by simp⟩
      | cons held following ih =>
          obtain ⟨comma, own, rfl, marked, spelled', named'⟩ := held
          obtain ⟨spelled'', named''⟩ := ih
          exact ⟨by simp [marked, spelled', spelled''],
            List.forall_mem_cons.mpr ⟨named', named''⟩⟩
    exact ⟨by simp [Token.listed, spelled, behind.1],
      List.forall_mem_cons.mpr ⟨named, behind.2⟩⟩
  · exact ⟨rfl, by simp⟩

theorem reads_methodBody : methodBody.Reads fun used _ body => BracedRead used body.stmts := by
  refine Reads.recoverWith (((((reads_stmt.many (stmt_laid.mono
    fun _ _ _ _ held => held.1)).between Token.braceOpen .braceClose).spanned).bind fun found =>
      reads_pure _).mono ?_) (bind_advances (advances_of (ensures_skipGroup _ _ _))
        fun _ => advances_of (ensures_pure _))
  rintro used rest _ ⟨_, _, ⟨stmts, span⟩, rfl, ⟨⟨opening, inside, closing, rfl, opened, closed,
    series, -⟩, -⟩, rfl, rfl⟩
  rw [List.append_nil]
  exact bracedRead_of_series opened closed series

theorem reads_methodItem : methodItem.Reads MakeRead := by
  refine Reads.labelled "method" ((reads_modifiers.bind fun modifiers => reads_type.bind
    fun result => reads_name.bind fun name => (reads_params.between Token.parenOpen
      .parenClose).bind fun params => reads_methodBody.bind fun body => reads_pure _).mono ?_)
  rintro used rest _ ⟨front, _, modifiers, rfl, words, type, _, result, rfl, ⟨spelled, named⟩, _, _,
    name, rfl, ⟨lexeme, rfl, isName⟩, _, _, params, rfl, ⟨opening, own, closing, rfl, opened, closed,
    listed, paramsNamed⟩, back, _, body, rfl, ⟨inside, fit, settled, loops⟩, rfl, rfl⟩ span
  refine ⟨?_, ⟨named, paramsNamed, fit⟩, fun _ => settled, loopsOn_of_parts ?_ fun stmt listed => ?_⟩
  · simp [Item.tokens, words, spelled, isName, opened, listed, closed, inside]
  · simp [Item.subitems]
  · refine (loops stmt listed).mono ?_
    intro lexeme listed
    simp [listed]

theorem reads_fieldItem : fieldItem.Reads MakeRead := by
  have modifiers1 : (many1 modifier).Reads fun used _ words =>
      tokensOf used = words.map .modifier ∧ words ≠ [] := by
    refine (reads_modifier.bind fun first => reads_modifiers.bind fun others =>
      reads_pure (first :: others)).mono ?_
    rintro used rest _ ⟨front, _, first, rfl, held, own, _, others, rfl, held', rfl, rfl⟩
    exact ⟨by simp [held, held'], List.cons_ne_nil _ _⟩
  refine (modifiers1.bind fun modifiers => reads_localDecl.bind fun decl => reads_semicolon.bind
    fun _ => reads_pure _).mono ?_
  rintro used rest _ ⟨front, _, modifiers, rfl, ⟨words, nonempty⟩, own, _, decl, rfl, read, back, _,
    _, rfl, ends, rfl, rfl⟩ span
  obtain ⟨spelled, fits⟩ := read (by simp [ends]; exact stops_cons.mpr (Nat.le_refl _))
  refine ⟨?_, ⟨nonempty, fits⟩, fun _ => rfl, loopsOn_of_parts ?_ ?_⟩
  · obtain ⟨first, others, shape⟩ := List.exists_cons_of_ne_nil fits.2.1
    simp [Item.tokens, LocalDecl.tokens, words, spelled, ends, shape]
  · simp [Item.subitems]
  · simp [Item.stmts]

theorem reads_stmtItem : stmtItem.Reads MakeRead := by
  refine (reads_stmt.bind fun stmt => reads_pure _).mono ?_
  rintro used rest _ ⟨front, _, stmt, rfl, read, rfl, rfl⟩ span
  rw [List.nil_append] at read
  rw [List.append_nil]
  refine ⟨by rw [Item.tokens, read.spelled], read.fits, fun ends =>
    (read.settled (elseReadable_of_ne ends)).1, loopsOn_of_parts ?_ ?_⟩
  · simp [Item.subitems]
  · simpa [Item.stmts] using read.loops

theorem reads_itemRule (reads : inner.Reads ItemRead) (laid : inner.Ensures LaidItem) :
    (itemRule inner).Reads ItemRead := by
  refine ((reads_usingItem.orElse ((reads_namespaceItem reads laid).orElse
    ((reads_classItem reads laid).orElse (reads_methodItem.orElse
      (reads_fieldItem.orElse reads_stmtItem))))).spanned.bind fun found =>
        reads_pure (found.1 found.2)).mono ?_
  rintro used rest _ ⟨front, _, ⟨make, span⟩, rfl, ⟨held, -⟩, rfl, rfl⟩
  rw [List.append_nil]
  rcases held with held | ⟨-, held | ⟨-, held | ⟨-, held | ⟨-, held | ⟨-, held⟩⟩⟩⟩⟩
  all_goals exact held span

theorem reads_item : item.Reads ItemRead := by
  have step : ∀ budget : List (Lexeme Token), Reads (unrolled itemRule budget) ItemRead := by
    intro budget
    induction budget with
    | nil =>
        refine reads_itemRule ?_ ?_ <;>
        · intro cursor furthest value after errors furthest' accepted
          simp at accepted
    | cons spare budget ih =>
        exact reads_itemRule ih (ensures_unrolled (fun _ => itemRule_laid) budget)
  exact Reads.recursive fun budget => (step budget).mono fun _ _ _ held _ => held

/-- A tree that was read without errors from all there was. -/
theorem reads_sourceTree : sourceTree.Reads fun used rest tree => rest = [] →
    tokensOf used = tree.tokens ∧ tree.Fits ∧ tree.dangles = false ∧
      LoopsOn used tree.statements := by
  have consumes : (skipAndRetry item).Ensures Consumes := by
    refine item_laid.skipAndRetry.mono ?_
    rintro used rest value errors (held | ⟨dropped, own, error, rfl, -, held⟩)
    · exact held.1
    · exact List.append_ne_nil_of_right_ne_nil dropped held.1
  refine ((reads_item.skipAndRetry.many consumes).bind fun items => reads_pure _).mono ?_
  rintro used rest _ ⟨front, _, items, rfl, ⟨series, -⟩, rfl, rfl⟩ rfl
  obtain ⟨spelled, fit, settled⟩ := items_of_series series (by simp)
  rw [List.append_nil]
  refine ⟨spelled, fit, settled, fun stmt listed => ?_⟩
  rw [SourceTree.statements_eq, List.mem_flatMap] at listed
  obtain ⟨item, isItem, inside⟩ := listed
  exact loopsOn_of_itemSeries series item isItem stmt inside

end Grammar

open Grammar

/-- The lexemes of a text that are not comments. -/
def Token.withoutComments (lexemes : List (Lexeme Token)) : List (Lexeme Token) :=
  lexemes.filter fun lexeme => !lexeme.token.isComment

namespace SourceTree

theorem parse_eq_clean_iff {source : String} {tree : SourceTree} :
    parse source = (tree, []) ↔ ∃ lexemes, Token.lex source = (some lexemes, []) ∧
      Grammar.sourceTree.run (Token.withoutComments lexemes) (Text.byteLength source.toList) =
        (some tree, []) := by
  constructor
  · intro parsed
    cases lexed : Token.lex source with
    | mk found lexical =>
        cases found with
        | none =>
            simp only [parse, lexed, Prod.mk.injEq, List.map_eq_nil_iff] at parsed
            rw [parsed.2] at lexed
            obtain ⟨_, impossible⟩ := exists_of_run lexed
            cases impossible
        | some lexemes =>
            simp only [parse, lexed, ofLexemes, Prod.mk.injEq, List.append_eq_nil_iff,
              List.map_eq_nil_iff] at parsed
            obtain ⟨isTree, rfl, clean⟩ := parsed
            refine ⟨lexemes, rfl, ?_⟩
            cases ran : Grammar.sourceTree.run (Token.withoutComments lexemes)
                (Text.byteLength source.toList) with
            | mk value errors =>
                unfold Token.withoutComments at ran
                rw [ran] at isTree clean
                obtain rfl : errors = [] := clean
                obtain ⟨value, rfl⟩ := exists_of_run ran
                rw [← isTree]
                rfl
  · rintro ⟨lexemes, lexed, ran⟩
    unfold Token.withoutComments at ran
    simp [parse, lexed, ofLexemes, ran]

/-- The tokens of a text without problems spell a tree that fits and in which no `else`
dangles. -/
theorem of_parse {source : String} {tree : SourceTree} (parsed : parse source = (tree, [])) :
    ∃ lexemes, Token.lex source = (some lexemes, []) ∧
      tokensOf (Token.withoutComments lexemes) = tree.tokens ∧ tree.Fits ∧
        tree.dangles = false ∧ LoopsOn (Token.withoutComments lexemes) tree.statements := by
  obtain ⟨lexemes, lexed, ran⟩ := parse_eq_clean_iff.mp parsed
  exact ⟨lexemes, lexed, reads_sourceTree.run ran rfl⟩

/-- A text whose tokens spell a tree that fits is read as that tree, unless an `else`
dangles. -/
theorem parse_of_tokens {source : String} {tree : SourceTree} {lexemes : List (Lexeme Token)}
    (lexed : Token.lex source = (some lexemes, []))
    (spelled : tokensOf (Token.withoutComments lexemes) = tree.tokens) (fits : tree.Fits)
    (settled : tree.dangles = false) :
    ∃ found, parse source = (found, []) ∧ found.bare = tree.bare := by
  have yields := yields_sourceTree fits settled
  rw [← spelled] at yields
  obtain ⟨found, ran, alike⟩ := yields.run (Text.byteLength source.toList)
  exact ⟨found, parse_eq_clean_iff.mpr ⟨lexemes, lexed, ran⟩, alike⟩

end SourceTree

end QueryLoop
