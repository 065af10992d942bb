import RandomTables.Proofs.Token.LineEnd

namespace RandomTables

def declarationKinds : List TokenKind :=
  [.hash, .identifier, .exportWord, .number, .leftBracket, .rightBracket, .comma]

def expressionKinds : List TokenKind :=
  [.hash, .identifier, .atSign, .slash, .pipe, .modifier, .diceRoll]

inductive IsContent : List TokenKind → Prop
  | nil : IsContent []
  | text {kinds} : IsContent kinds → IsContent (.text :: kinds)
  | braced {inner kinds} : inner ⊆ expressionKinds → IsContent kinds →
      IsContent (.leftBrace :: (inner ++ .rightBrace :: kinds))

/-- The kinds of a line that has come to the given mode: it is still a declaration, or behind the
colon in content, or behind a brace in an expression that is still open. -/
inductive IsLine : List TokenKind → Mode → Prop
  | declaration {kinds} : kinds ⊆ declarationKinds → IsLine kinds .declaration
  | ruleContent {kinds content} : kinds ⊆ declarationKinds → IsContent content →
      IsLine (kinds ++ .colon :: content) .ruleContent
  | expression {kinds content inner} : kinds ⊆ declarationKinds → IsContent content →
      inner ⊆ expressionKinds →
      IsLine (kinds ++ .colon :: (content ++ .leftBrace :: inner)) .expression

inductive AreLines (mode : Mode) : List (List TokenKind) → Prop
  | last {kinds} : IsLine kinds mode → AreLines mode [kinds]
  | cons {kinds lines} (before : Mode) : IsLine kinds before → AreLines mode lines →
      AreLines mode (kinds :: lines)

namespace Piece

def isComment (piece : Piece) : Bool :=
  piece.kind.isNone && startsComment piece.text

def isBlockComment (piece : Piece) : Bool :=
  piece.kind.isNone && ['/', '*'].isPrefixOf piece.text

/-- A line ends with the piece: it is a line end, or a block comment that holds a line feed. -/
def endsLine (piece : Piece) : Bool :=
  piece.kind = some .newline || (piece.isBlockComment && piece.text.contains '\n')

end Piece

def lineKinds (pieces : List Piece) : List (List TokenKind) :=
  (pieces.splitOnP Piece.endsLine).map fun line => line.filterMap Piece.kind

@[simp] theorem lineKinds_nil : lineKinds [] = [[]] := rfl

/-- A piece that ends a line begins a new one. -/
theorem lineKinds_cons (piece : Piece) (pieces : List Piece) :
    lineKinds (piece :: pieces) =
      if piece.endsLine then [] :: lineKinds pieces
      else (lineKinds pieces).modifyHead (piece.kind.toList ++ ·) := by
  rw [lineKinds, List.splitOnP_cons_eq_if_modifyHead]
  split
  · rfl
  · obtain ⟨line, lines, hlines⟩ :=
      List.exists_cons_of_ne_nil (List.splitOnP_ne_nil Piece.endsLine pieces)
    rw [lineKinds, hlines]
    cases hkind : piece.kind <;> simp [hkind]

theorem modifyHead_nil_append (lines : List (List TokenKind)) :
    lines.modifyHead ([] ++ ·) = lines :=
  congrFun List.modifyHead_id lines

section Words
variable {kinds first second : List TokenKind} {mode mode' : Mode} {lines : List (List TokenKind)}

theorem isContent_append (h₁ : IsContent first) (h₂ : IsContent second) :
    IsContent (first ++ second) := by
  induction h₁ with
  | nil => exact h₂
  | text _ ih => exact .text ih
  | braced hinner _ ih =>
    rw [List.cons_append, List.append_assoc, List.cons_append]
    exact .braced hinner ih

theorem count_eq_zero_of_subset {k : TokenKind} (h : first ⊆ second) (hk : k ∉ second) :
    first.count k = 0 :=
  List.count_eq_zero.mpr fun hmem => hk (h hmem)

/-- Each expression opens and closes its own braces. -/
theorem count_of_isContent (h : IsContent kinds) :
    kinds.count .colon = 0 ∧ kinds.count .leftBrace = kinds.count .rightBrace := by
  induction h with
  | nil => exact ⟨rfl, rfl⟩
  | text _ ih => simpa using ih
  | braced hinner _ ih =>
    simp [List.count_append, count_eq_zero_of_subset hinner, expressionKinds, ih]

/-- The colons and braces of a line say which mode it has come to. -/
theorem counts_of_isLine (h : IsLine kinds mode) :
    match mode with
    | .declaration => kinds.count .colon = 0
    | .ruleContent => 0 < kinds.count .colon ∧ kinds.count .leftBrace = kinds.count .rightBrace
    | .expression => 0 < kinds.count .colon ∧ kinds.count .rightBrace < kinds.count .leftBrace := by
  cases h with
  | declaration hkinds => exact count_eq_zero_of_subset hkinds (by decide)
  | ruleContent hkinds hcontent =>
    have hcount := count_of_isContent hcontent
    simp [List.count_append, count_eq_zero_of_subset hkinds, declarationKinds,
      hcount]
  | expression hkinds hcontent hinner =>
    have hcount := count_of_isContent hcontent
    simp [List.count_append, count_eq_zero_of_subset hkinds, declarationKinds,
      count_eq_zero_of_subset hinner, expressionKinds, hcount]

/-- A line has come to one mode only. -/
theorem mode_of_isLine (h : IsLine kinds mode) (h' : IsLine kinds mode') : mode = mode' := by
  have hcounts := counts_of_isLine h
  have hcounts' := counts_of_isLine h'
  cases mode <;> cases mode' <;> dsimp only at hcounts hcounts' <;> first | rfl | omega

theorem isLine_iff (h : IsLine kinds mode) : IsLine kinds mode' ↔ mode' = mode :=
  ⟨fun h' => mode_of_isLine h' h, fun heq => heq ▸ h⟩

theorem line_of_areLines (h : AreLines mode lines) : ∀ kinds ∈ lines, ∃ m, IsLine kinds m := by
  induction h with
  | last hline => exact List.forall_mem_singleton.mpr ⟨mode, hline⟩
  | cons before hline _ ih => exact List.forall_mem_cons.mpr ⟨⟨before, hline⟩, ih⟩

/-- The last of the lines is the one that has come to the mode. -/
theorem last_of_areLines (h : AreLines mode lines) :
    ∃ kinds, lines.getLast? = some kinds ∧ IsLine kinds mode := by
  induction h with
  | last hline => exact ⟨_, rfl, hline⟩
  | cons before _ _ ih =>
    obtain ⟨kinds, hlast, hkinds⟩ := ih
    exact ⟨kinds, by rw [List.getLast?_cons, hlast, Option.getD_some], hkinds⟩

end Words

section Steps
variable {after : List Char} {mode mode' next : Mode} {last last' : Option TokenKind}
variable {piece : Piece} {pieces : List Piece} {rest : List Char} {kinds : List TokenKind}

theorem endsLine_blockComment (body : List Char) :
    (Piece.trivia ('/' :: '*' :: (body ++ ['*', '/']))).endsLine = body.contains '\n' := by
  simp [Piece.endsLine, Piece.isBlockComment, Piece.trivia]

/-- A piece that ends a line leads back to declarations, from whatever mode. -/
theorem mode_of_endsLine (h : Lexes mode last piece next rest) (hends : piece.endsLine = true) :
    next = .declaration := by
  simp only [Piece.endsLine, Piece.isBlockComment, Bool.or_eq_true, Bool.and_eq_true,
    decide_eq_true_eq, Option.isNone_iff_eq_none, List.isPrefixOf_iff_prefix] at hends
  rcases hends with hkind | ⟨⟨hkind, hopen⟩, hfeed⟩
  · exact (newline_cases h hkind).1
  · rcases trivia_cases h hkind with ⟨body, rfl, -⟩ | ⟨body, rfl, rfl, -⟩ | ⟨run, rfl, -, hgap⟩
    · exact absurd hopen (by simp [Piece.trivia])
    · rw [modeAfter, if_pos]
      simpa [Piece.trivia] using hfeed
    · -- A run of blanks does not begin with a slash.
      have hslash := hgap.blank '/' (hopen.subset List.mem_cons_self)
      rw [isBlankIn_slash] at hslash
      cases hslash

/-- A line goes on with another token of a declaration. -/
theorem isLine_concat_declaration {kind : TokenKind} (hline : IsLine kinds .declaration)
    (hkind : kind ∈ declarationKinds) : IsLine (kinds ++ [kind]) .declaration := by
  cases hline with
  | declaration hkinds =>
    exact .declaration (List.append_subset.mpr ⟨hkinds, List.forall_mem_singleton.mpr hkind⟩)

theorem isLine_concat_expression {kind : TokenKind} (hline : IsLine kinds .expression)
    (hkind : kind ∈ expressionKinds) : IsLine (kinds ++ [kind]) .expression := by
  cases hline with
  | expression hkinds hcontent hinner =>
    rw [List.append_assoc, List.cons_append, List.append_assoc, List.cons_append]
    exact .expression hkinds hcontent
      (List.append_subset.mpr ⟨hinner, List.forall_mem_singleton.mpr hkind⟩)

/-- Within a line each piece is of the mode that the line has come to, and leads to the next. -/
theorem isLine_of_lexes (h : Lexes mode last piece next rest) (hends : piece.endsLine = false)
    (hline : IsLine kinds mode) : IsLine (kinds ++ piece.kind.toList) next := by
  cases h with
  | lineFeed | returnFeed => cases hends
  | lineComment | blanks | spaces => rwa [Piece.trivia, Option.toList_none, List.append_nil]
  | blockComment =>
    rw [endsLine_blockComment] at hends
    rwa [Piece.trivia, Option.toList_none, List.append_nil, modeAfter, hends]
  | mark hmark =>
    have hsubset : [TokenKind.hash, .leftBracket, .rightBracket, .comma] ⊆ declarationKinds := by
      decide
    exact isLine_concat_declaration hline (hsubset (kind_of_mark hmark))
  | number => exact isLine_concat_declaration hline (by decide)
  | word =>
    apply isLine_concat_declaration hline
    rw [declaredKind]
    split <;> decide
  | colon =>
    cases hline with
    | declaration hkinds => exact .ruleContent hkinds .nil
  | openBrace =>
    cases hline with
    | ruleContent hkinds hcontent =>
      rw [List.append_assoc]
      exact .expression hkinds hcontent (List.nil_subset _)
  | text =>
    cases hline with
    | ruleContent hkinds hcontent =>
      rw [List.append_assoc]
      exact .ruleContent hkinds (isContent_append hcontent (.text .nil))
  | closeBrace =>
    cases hline with
    | expression hkinds hcontent hinner =>
      rw [List.append_assoc, List.cons_append, List.append_assoc, List.cons_append]
      exact .ruleContent hkinds (isContent_append hcontent (.braced hinner .nil))
  | sign hmark =>
    have hsubset : [TokenKind.hash, .atSign, .slash, .pipe] ⊆ expressionKinds := by decide
    exact isLine_concat_expression hline (hsubset (kind_of_sign hmark))
  | dice => exact isLine_concat_expression hline (by decide)
  | name =>
    apply isLine_concat_expression hline
    rw [namedKind]
    split <;> decide

/-- A run goes on with a line that has come to its mode, and leaves lines. -/
theorem areLines_of_reads (h : Reads after mode last pieces mode' last')
    (hline : IsLine kinds mode) :
    AreLines mode' ((lineKinds pieces).modifyHead (kinds ++ ·)) := by
  induction h generalizing kinds with
  | nil =>
    rw [lineKinds_nil, List.modifyHead_cons, List.append_nil]
    exact .last hline
  | @cons mode last piece pieces next mode' last' htakes _ ih =>
    have hlexes := takes_iff_lexes.mp htakes
    rw [lineKinds_cons]
    split
    · next hends =>
      obtain rfl := mode_of_endsLine hlexes hends
      rw [List.modifyHead_cons, List.append_nil]
      have hmore := ih (.declaration (List.nil_subset _))
      rw [modifyHead_nil_append] at hmore
      exact .cons _ hline hmore
    · next hends =>
      have hmore := ih (isLine_of_lexes hlexes (Bool.eq_false_iff.mpr hends) hline)
      simp only [List.append_assoc] at hmore
      rwa [List.modifyHead_modifyHead]

/-- A text does not end where another one begins. -/
theorem not_endsText_of_text {s t rest : List Char} (ht : IsPlain t) (hends : EndsText t rest) :
    ¬EndsText s (t ++ rest) := by
  intro h
  obtain ⟨c, run, rfl⟩ := List.exists_cons_of_ne_nil ht.nonempty
  obtain ⟨hopen, hclose, hline, hcomment⟩ := plain_goes_on [] c run rest ht hends
  rcases h.ended with hend | hend | hend | hend | ⟨hend, -⟩
  · cases hend
  · exact hopen (Option.some.inj hend)
  · exact hclose (Option.some.inj hend)
  · rw [hline] at hend
    cases hend
  · obtain ⟨b, hb, -⟩ := hcomment hend
    cases hb

/-- Two texts with no token between them have a comment between them. -/
theorem comment_between_texts {t u : Piece} {between more : List Piece}
    (h : Reads after mode last (t :: (between ++ u :: more)) mode' last')
    (ht : t.kind = some .text) (hu : u.kind = some .text)
    (hbetween : ∀ piece ∈ between, piece.kind = none) :
    ∃ piece ∈ between, piece.isComment = true := by
  cases h with
  | cons htakes hreads =>
    obtain ⟨s, rfl, rfl, rfl, -, hends⟩ := text_of_lexes (takes_iff_lexes.mp htakes) ht
    cases between with
    | nil =>
      cases hreads with
      | cons hnext _ =>
        obtain ⟨s', rfl, -, -, hplain', hends'⟩ := text_of_lexes (takes_iff_lexes.mp hnext) hu
        rw [List.nil_append, textOf_cons, List.append_assoc] at hends
        exact absurd hends (not_endsText_of_text hplain' hends')
    | cons piece between =>
      refine ⟨piece, List.mem_cons_self, ?_⟩
      cases hreads with
      | cons hnext _ =>
        -- Rule content leaves out no blanks, so that what stands here is a comment.
        rcases trivia_cases (takes_iff_lexes.mp hnext) (hbetween piece List.mem_cons_self) with
          ⟨body, rfl, -⟩ | ⟨body, rfl, -⟩ | ⟨run, rfl, -, hgap⟩
        · rfl
        · rfl
        · obtain ⟨c, run, rfl⟩ := List.exists_cons_of_ne_nil hgap.nonempty
          exact absurd (hgap.blank c List.mem_cons_self) (by simp [isBlankIn])

end Steps

/-- The pieces follow the modes. Each line of them is one of the lines that there are, the last has
come to the given mode and to no other, and texts stand next to each other only across a comment. -/
structure FollowsModes (pieces : List Piece) (mode : Mode) : Prop where
  lines : ∀ kinds ∈ lineKinds pieces, ∃ m, IsLine kinds m
  ending : ∃ kinds, (lineKinds pieces).getLast? = some kinds ∧ ∀ m, IsLine kinds m ↔ m = mode
  texts : ∀ before t between u after, pieces = before ++ t :: (between ++ u :: after) →
    t.kind = some .text → u.kind = some .text → (∀ piece ∈ between, piece.kind = none) →
    ∃ piece ∈ between, piece.isComment = true

/-- The tokens of every source that can be read follow the modes of the scanner, and the mode at
the end is the one that the last line has come to. -/
theorem scan_followsModes (source : List Char) (s : Scan) (h : scan source = .ok s) :
    ∃ pieces, s.HasPieces source pieces ∧ FollowsModes pieces s.mode := by
  obtain ⟨pieces, hpieces⟩ := exists_pieces_of_scan h
  obtain ⟨last, hreads⟩ := hpieces.reads
  have hlines := areLines_of_reads hreads (.declaration (List.nil_subset _))
  rw [modifyHead_nil_append] at hlines
  refine ⟨pieces, hpieces, line_of_areLines hlines, ?_, ?_⟩
  · obtain ⟨kinds, hlast, hkinds⟩ := last_of_areLines hlines
    exact ⟨kinds, hlast, fun m => isLine_iff hkinds⟩
  · rintro before t between u after rfl ht hu hbetween
    obtain ⟨mode', last', -, hrest⟩ := reads_append_iff.mp hreads
    exact comment_between_texts hrest ht hu hbetween

/-- A comment that ends the line leaves one brace open, and the source ends with another. -/
theorem scan_followsModes_openBrace :
    ∃ s, scan "#t\n1:a /*b*/c\x7b#x/*\n*/2:\x7bd6".toList = .ok s ∧ s.mode = .expression ∧
      ∃ pieces, s.HasPieces "#t\n1:a /*b*/c\x7b#x/*\n*/2:\x7bd6".toList pieces ∧
        FollowsModes pieces s.mode := by
  have hreads : Reads [] .declaration none
      [.token .hash ['#'], .token .identifier ['t'], .token .newline ['\n'],
        ⟨some .number, some (.weight (Decimal.floatOfLiteral ['1'])), ['1']⟩, .token .colon [':'],
        .token .text ['a', ' '], .trivia "/*b*/".toList, .token .text ['c'],
        .token .leftBrace ['\x7b'], .token .hash ['#'], .token .identifier ['x'],
        .trivia "/*\n*/".toList,
        ⟨some .number, some (.weight (Decimal.floatOfLiteral ['2'])), ['2']⟩, .token .colon [':'],
        .token .leftBrace ['\x7b'], ⟨some .diceRoll, some (.dice ⟨none, 6⟩), ['d', '6']⟩]
      .expression (some .diceRoll) := by
    repeat
      first
      | exact Reads.nil
      | refine Reads.cons ⟨_, _, rfl, rfl⟩ ?_
  have h := (scan_eq_ok_iff _ ⟨_, _⟩).mpr ⟨_, _, rfl, hreads, rfl⟩
  exact ⟨_, h, rfl, scan_followsModes _ _ h⟩

end RandomTables
