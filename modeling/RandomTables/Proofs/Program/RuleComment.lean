import RandomTables.Proofs.Program.RuleEnd
import RandomTables.Proofs.Program.Trivia
import RandomTables.Proofs.Token.Mode

namespace RandomTables

/-- The scanner comes to the end of `u` behind the colon of a rule, and there takes just `k`, a
block comment that holds a line feed. -/
def CutsRule (u k v : List Char) : Prop :=
  ∃ pieces mode last next, textOf pieces = u ∧ Reads (k ++ v) .declaration none pieces mode last ∧
    mode ≠ .declaration ∧ Takes mode last (.trivia k) next v ∧
    (Piece.trivia k).isBlockComment = true ∧ '\n' ∈ k

section Runs
variable {after v : List Char} {mode mode' next : Mode} {last last' : Option TokenKind}
variable {piece : Piece} {pieces : List Piece} {kinds : List TokenKind}

theorem kinds_tokensFrom (offset : Nat) (pieces : List Piece) :
    (tokensFrom offset pieces).map (·.kind) = pieces.filterMap Piece.kind := by
  have hfaces := congrArg (List.map (·.1)) (map_face_tokensFrom offset pieces)
  rw [List.map_map, faces, List.map_filterMap] at hfaces
  simpa [Function.comp_def, Token.face] using hfaces

/-- The last line of a run has come to its mode. -/
theorem exists_line_of_reads (h : Reads after mode last pieces mode' last')
    (hline : IsLine kinds mode) :
    ∃ before line, kinds ++ pieces.filterMap Piece.kind = before ++ line ∧ IsLine line mode' := by
  induction h generalizing kinds with
  | nil => exact ⟨[], kinds, by simp, hline⟩
  | @cons mode last piece pieces next mode' last' htakes _ ih =>
    have hlexes := takes_iff_lexes.mp htakes
    have hkinds : kinds ++ (piece :: pieces).filterMap Piece.kind =
        kinds ++ piece.kind.toList ++ pieces.filterMap Piece.kind := by
      cases hkind : piece.kind <;> simp [hkind]
    rw [hkinds]
    by_cases hends : piece.endsLine = true
    · -- A new line begins behind the piece.
      obtain rfl := mode_of_endsLine hlexes hends
      obtain ⟨before, line, hsplit, hline'⟩ := ih (.declaration (List.nil_subset _))
      rw [List.nil_append] at hsplit
      exact ⟨kinds ++ piece.kind.toList ++ before, line, by simp [hsplit], hline'⟩
    · exact ih (isLine_of_lexes hlexes (Bool.eq_false_iff.mpr hends) hline)

/-- Read as a declaration, a text begins as a line does. -/
theorem startsLine_of_reads (h : Reads after .declaration last pieces mode' last') :
    StartsLine (pieces.filterMap Piece.kind) := by
  generalize hmode : Mode.declaration = mode at h
  induction h with
  | nil => exact ⟨[], [], rfl, List.nil_subset _, nofun⟩
  | @cons mode last piece pieces next mode' last' htakes _ ih =>
    subst hmode
    have hdeclared {kind : TokenKind} (hkind : piece.kind = some kind)
        (hmem : kind ∈ declarationKinds) (hnext : next = .declaration) :
        StartsLine ((piece :: pieces).filterMap Piece.kind) := by
      obtain ⟨declared, rest, hsplit, hsubset, hrest⟩ := ih hnext.symm
      exact ⟨kind :: declared, rest, by simp [hkind, hsplit], List.cons_subset.mpr ⟨hmem, hsubset⟩,
        hrest⟩
    have hends {kind : TokenKind} (hkind : piece.kind = some kind)
        (hmem : kind = .colon ∨ kind = .newline) :
        StartsLine ((piece :: pieces).filterMap Piece.kind) := by
      refine ⟨[], kind :: pieces.filterMap Piece.kind, by simp [hkind], List.nil_subset _, ?_⟩
      rintro _ ⟨⟩
      exact hmem
    cases takes_iff_lexes.mp htakes with
    | lineFeed | returnFeed => exact hends rfl (.inr rfl)
    | colon => exact hends rfl (.inl rfl)
    | lineComment | blanks => exact ih rfl
    | blockComment => exact ih (by rw [modeAfter]; split <;> rfl)
    | mark hmark =>
      have hsubset : [TokenKind.hash, .leftBracket, .rightBracket, .comma] ⊆ declarationKinds := by
        decide
      exact hdeclared rfl (hsubset (kind_of_mark hmark)) rfl
    | number => exact hdeclared rfl (by decide) rfl
    | word => exact hdeclared rfl (by rw [declaredKind]; split <;> decide) rfl

/-- In front of a comment behind a colon, no return is left that could join a line feed. -/
theorem getLast_ne_return (h : Lexes mode last piece next after) (hafter : after.head? = some '/')
    (hnext : next ≠ .declaration) : piece.text.getLast? ≠ some '\r' := by
  intro hreturn
  have hmem : '\r' ∈ piece.text := List.mem_of_getLast? hreturn
  by_cases hkind : piece.kind = none
  · rcases trivia_cases h hkind with
      ⟨body, rfl, -, -, hrest⟩ | ⟨body, rfl, -, -⟩ | ⟨run, rfl, rfl, hgap⟩
    · -- A line comment would have gone on.
      rw [Text.stops_iff_head, hafter] at hrest
      exact absurd hrest (by decide)
    · have hslash : '/' :: '*' :: (body ++ ['*', '/']) =
          '/' :: '*' :: (body ++ ['*']) ++ ['/'] := by simp
      rw [Piece.trivia, hslash, List.getLast?_concat] at hreturn
      exact absurd hreturn (by decide)
    · have hblank := hgap.blank _ hmem
      cases next with
      | declaration => exact hnext rfl
      | ruleContent | expression => exact absurd hblank (by decide)
  by_cases htext : piece.kind = some .text
  · obtain ⟨s, rfl, -, -, -, hends⟩ := text_of_lexes h htext
    obtain ⟨c, rest, rfl⟩ : ∃ c rest, after = c :: rest := by
      cases after <;> simp_all
    obtain rfl : c = '/' := Option.some.inj hafter
    rcases hends.ended with hend | hend | hend | hend | ⟨-, c, hlast, hblank⟩
    · cases hend
    · exact absurd (Option.some.inj hend) (by decide)
    · exact absurd (Option.some.inj hend) (by decide)
    · exact absurd hend (by simp)
    · -- Text goes on up to a comment after a space or tab.
      obtain rfl : c = '\r' := Option.some.inj (hlast.symm.trans hreturn)
      exact absurd hblank (by decide)
  by_cases hline : piece.kind = some .newline
  · exact hnext (newline_cases h hline).1
  · exact absurd (oneLine_of_token h hkind htext hline _ hmem) (by decide)

/-- The pieces before a comment are the same before a line feed, if they are not in a declaration.
-/
theorem reads_before_lineFeed_of_comment (h : Reads after .declaration none pieces mode last)
    (hafter : after.head? = some '/') (hmode : mode ≠ .declaration) :
    Reads ('\n' :: v) .declaration none pieces mode last := by
  apply reads_before_lineFeed (reads_at_end h)
  rcases pieces.eq_nil_or_concat with rfl | ⟨pieces, piece, rfl⟩
  · exact nofun
  · rw [List.concat_eq_append] at h ⊢
    obtain ⟨_, _, -, htakes, -⟩ := reads_concat h
    rw [textOf_append, textOf_singleton,
      List.getLast?_append_of_ne_nil _ (text_ne_nil_of_takes htakes)]
    exact getLast_ne_return (takes_iff_lexes.mp htakes) hafter hmode

/-- Behind a piece that leads back to declarations, a source is read through exactly if what comes
after the piece is, and then from there on into the same pieces. -/
theorem parse_across_iff (hreads : Reads (piece.text ++ v) .declaration none pieces mode last)
    (htakes : Takes mode last piece .declaration v) (p : Program) :
    Program.parse (String.ofList (textOf pieces ++ piece.text ++ v)) = .ok p ↔
      ∃ rest mode' last', textOf rest = v ∧ Reads [] .declaration none rest mode' last' ∧
        Grammar.IsProgram
          (tokensFrom 0 pieces ++ tokensFrom (textOf pieces).length (piece :: rest)) p := by
  have htokens (rest : List Piece) : tokensFrom 0 (pieces ++ piece :: rest) =
      tokensFrom 0 pieces ++ tokensFrom (textOf pieces).length (piece :: rest) := by
    rw [tokensFrom_append, Nat.zero_add]
  simp only [← htokens]
  rw [Program.parse_eq_ok_iff, String.toList_ofList, List.append_assoc]
  constructor
  · rintro ⟨all, mode', last', htext, hall, hp⟩
    obtain ⟨more, rfl, hmore, hmoreReads⟩ := reads_split hreads hall htext
    have hpiece : Reads v mode last [piece] .declaration (piece.kind.or last) :=
      .cons (by simpa using htakes) .nil
    obtain ⟨rest, rfl, hrest, hrestReads⟩ :=
      reads_split hpiece hmoreReads (by rw [hmore, textOf_singleton])
    obtain ⟨last'', hrestReads'⟩ := reads_declaration hrestReads none
    exact ⟨rest, mode', last'', hrest, hrestReads', hp⟩
  · rintro ⟨rest, mode', last', rfl, hrest, hp⟩
    obtain ⟨last'', hrest'⟩ := reads_declaration hrest (piece.kind.or last)
    have hfront : Reads (textOf (piece :: rest) ++ []) .declaration none pieces mode last := by
      simpa using hreads
    have hpiece : Takes mode last piece .declaration (textOf rest ++ []) := by simpa using htakes
    exact ⟨pieces ++ piece :: rest, mode', last'', by simp,
      reads_append hfront (.cons hpiece hrest'), hp⟩

/-- A split of the kinds is a split of the tokens. -/
theorem exists_token_of_kinds {tokens : List Token} {before rest : List TokenKind}
    {kind : TokenKind} (h : tokens.map (·.kind) = before ++ kind :: rest) :
    ∃ front t after, tokens = front ++ t :: after ∧ front.map (·.kind) = before ∧
      t.kind = kind ∧ after.map (·.kind) = rest := by
  obtain ⟨front, others, rfl, hfront, hothers⟩ := List.map_eq_append_iff.mp h
  obtain ⟨t, after, rfl, ht, hafter⟩ := List.map_eq_cons_iff.mp hothers
  exact ⟨front, t, after, rfl, hfront, ht, hafter⟩

/-- Between what is read up to some place behind a colon and what is read as a declaration, the
grammar does not miss a line end. -/
theorem program_across_iff {rest : List Piece}
    (hreads : Reads after .declaration none pieces mode last) (hmode : mode ≠ .declaration)
    (hrest : Reads [] .declaration none rest mode' last') (t : Token) (ht : t.kind = .newline)
    (offset : Nat) (p : Program) :
    Grammar.IsProgram (tokensFrom 0 pieces ++ t :: tokensFrom offset rest) p ↔
      Grammar.IsProgram (tokensFrom 0 pieces ++ tokensFrom offset rest) p := by
  obtain ⟨before, line, hkinds, hline⟩ :=
    exists_line_of_reads hreads (.declaration (List.nil_subset _))
  rw [List.nil_append, ← kinds_tokensFrom 0] at hkinds
  have hstarts : StartsLine ((tokensFrom offset rest).map (·.kind)) := by
    rw [kinds_tokensFrom]
    exact startsLine_of_reads hrest
  generalize tokensFrom 0 pieces = tokens at hkinds
  cases hline with
  | declaration => exact absurd rfl hmode
  | @ruleContent declared content _ hcontent =>
    rw [← List.append_assoc] at hkinds
    obtain ⟨front, colon, content, rfl, -, hcolon, rfl⟩ := exists_token_of_kinds hkinds
    simp only [List.append_assoc, List.cons_append]
    exact Grammar.program_behind_content_iff t ht hcolon hcontent
      (endsContent_of_startsLine hstarts)
  | @expression declared content inner _ hcontent hinner =>
    rw [← List.append_assoc] at hkinds
    obtain ⟨front, colon, others, rfl, -, hcolon, hothers⟩ := exists_token_of_kinds hkinds
    obtain ⟨content, brace, inner, rfl, rfl, hbrace, rfl⟩ := exists_token_of_kinds hothers
    -- The brace is left open, with the line end as well as without.
    have hline : StartsLine ((t :: tokensFrom offset rest).map (·.kind)) := by
      refine ⟨[], _, rfl, List.nil_subset _, ?_⟩
      rintro _ ⟨⟩
      exact .inr ht
    simp only [List.append_assoc, List.cons_append]
    exact iff_of_false (Grammar.not_program_of_open hcolon hcontent hbrace hinner hline)
      (Grammar.not_program_of_open hcolon hcontent hbrace hinner hstarts)

/-- With and without the line end there are the same programs up to spans, however far the tokens
behind it have moved. -/
theorem programs_across {rest : List Piece}
    (hreads : Reads after .declaration none pieces mode last) (hmode : mode ≠ .declaration)
    (hrest : Reads [] .declaration none rest mode' last') (t : Token) (ht : t.kind = .newline)
    (offset offset' : Nat) :
    (∀ p, Grammar.IsProgram (tokensFrom 0 pieces ++ tokensFrom offset rest) p →
      ∃ p', Grammar.IsProgram (tokensFrom 0 pieces ++ t :: tokensFrom offset' rest) p' ∧
        p'.unplaced = p.unplaced) ∧
    ∀ p', Grammar.IsProgram (tokensFrom 0 pieces ++ t :: tokensFrom offset' rest) p' →
      ∃ p, Grammar.IsProgram (tokensFrom 0 pieces ++ tokensFrom offset rest) p := by
  have halike (offset offset' : Nat) : Grammar.Alike (tokensFrom 0 pieces ++ tokensFrom offset rest)
      (tokensFrom 0 pieces ++ tokensFrom offset' rest) := by
    apply Grammar.alike_of_faces
    simp only [List.map_append, map_face_tokensFrom]
  have hacross := program_across_iff hreads hmode hrest t ht offset'
  constructor
  · intro p hp
    obtain ⟨p', hp', hsame⟩ := Grammar.program_of_alike hp (halike offset offset')
    exact ⟨p', (hacross p').mpr hp', hsame⟩
  · intro p' hp'
    obtain ⟨p, hp, -⟩ := Grammar.program_of_alike ((hacross p').mp hp') (halike offset' offset)
    exact ⟨p, hp⟩

end Runs

namespace Program

/-- A comment over several lines in a rule acts as a line break. With a line feed in its place the
source has a program or has none as before, and the program is the same up to spans. -/
theorem parse_commentInRule (u k v : List Char) (h : CutsRule u k v) :
    ((∃ p, parse (String.ofList (u ++ k ++ v)) = .ok p) ↔
      ∃ p, parse (String.ofList (u ++ '\n' :: v)) = .ok p) ∧
    ∀ p p', parse (String.ofList (u ++ k ++ v)) = .ok p →
      parse (String.ofList (u ++ '\n' :: v)) = .ok p' → p'.unplaced = p.unplaced := by
  obtain ⟨pieces, mode, last, next, rfl, hreads, hmode, htakes, hcomment, hfeed⟩ := h
  have hends : (Piece.trivia k).endsLine = true := by
    simpa [Piece.endsLine, Piece.trivia, hfeed] using hcomment
  obtain rfl := mode_of_endsLine (takes_iff_lexes.mp htakes) hends
  have hslash : (k ++ v).head? = some '/' := by
    simp only [Piece.isBlockComment, Bool.and_eq_true, List.isPrefixOf_iff_prefix] at hcomment
    obtain ⟨tail, htail⟩ := hcomment.2
    have htext : ['/', '*'] ++ tail = k := htail
    rw [← htext]
    rfl
  -- With the line feed the same pieces come before, and the same pieces can come after.
  have hline : Takes mode last (.token .newline ['\n']) .declaration v := takes_of_lexes .lineFeed
  have hcut := parse_across_iff hreads htakes
  have hbroken := parse_across_iff (reads_before_lineFeed_of_comment hreads hslash hmode) hline
  let lineEnd : Token := ⟨.newline, "\n", ⟨(textOf pieces).length, (textOf pieces).length + 1,
    by omega⟩, none⟩
  have hforth : ∀ p, parse (String.ofList (textOf pieces ++ k ++ v)) = .ok p →
      ∃ p', parse (String.ofList (textOf pieces ++ ['\n'] ++ v)) = .ok p' ∧
        p'.unplaced = p.unplaced := by
    intro p hp
    obtain ⟨rest, mode', last', hv, hrest, hp⟩ := (hcut p).mp hp
    obtain ⟨p', hp', hsame⟩ := (programs_across hreads hmode hrest lineEnd rfl _ _).1 p hp
    exact ⟨p', (hbroken p').mpr ⟨rest, mode', last', hv, hrest, hp'⟩, hsame⟩
  have hback : ∀ p', parse (String.ofList (textOf pieces ++ ['\n'] ++ v)) = .ok p' →
      ∃ p, parse (String.ofList (textOf pieces ++ k ++ v)) = .ok p := by
    intro p' hp'
    obtain ⟨rest, mode', last', hv, hrest, hp'⟩ := (hbroken p').mp hp'
    obtain ⟨p, hp⟩ := (programs_across hreads hmode hrest lineEnd rfl _ _).2 p' hp'
    exact ⟨p, (hcut p).mpr ⟨rest, mode', last', hv, hrest, hp⟩⟩
  rw [List.append_cons]
  refine ⟨⟨?_, ?_⟩, ?_⟩
  · rintro ⟨p, hp⟩
    obtain ⟨p', hp', -⟩ := hforth p hp
    exact ⟨p', hp'⟩
  · rintro ⟨p', hp'⟩
    exact hback p' hp'
  · intro p p' hp hp'
    obtain ⟨q, hq, hsame⟩ := hforth p hp
    obtain rfl : p' = q := Except.ok.inj (hp'.symm.trans hq)
    exact hsame

/-- A second rule comes right behind the comment, on the line where the comment ends. -/
theorem parse_commentInRule_twoRules :
    CutsRule "#t\n1:a ".toList "/*\n*/".toList "2:b".toList ∧ ∃ p p',
      parse (String.ofList ("#t\n1:a ".toList ++ "/*\n*/".toList ++ "2:b".toList)) = .ok p ∧
      parse (String.ofList ("#t\n1:a ".toList ++ '\n' :: "2:b".toList)) = .ok p' ∧
      p'.unplaced = p.unplaced := by
  have hfront : Reads ("/*\n*/".toList ++ "2:b".toList) .declaration none
      [.token .hash ['#'], .token .identifier ['t'], .token .newline ['\n'],
        ⟨some .number, some (.weight (Decimal.floatOfLiteral ['1'])), ['1']⟩, .token .colon [':'],
        .token .text ['a', ' ']] .ruleContent (some .text) := by
    repeat
      first
      | exact Reads.nil
      | refine Reads.cons ⟨_, _, rfl, rfl⟩ ?_
  have hcuts : CutsRule "#t\n1:a ".toList "/*\n*/".toList "2:b".toList :=
    ⟨_, _, _, _, rfl, hfront, by decide, ⟨_, _, rfl, rfl⟩, by decide, by decide⟩
  have hreads : Reads [] .declaration none
      [.token .hash ['#'], .token .identifier ['t'], .token .newline ['\n'],
        ⟨some .number, some (.weight (Decimal.floatOfLiteral ['1'])), ['1']⟩, .token .colon [':'],
        .token .text ['a', ' '], .token .newline ['\n'],
        ⟨some .number, some (.weight (Decimal.floatOfLiteral ['2'])), ['2']⟩, .token .colon [':'],
        .token .text ['b']] .ruleContent (some .text) := by
    repeat
      first
      | exact Reads.nil
      | refine Reads.cons ⟨_, _, rfl, rfl⟩ ?_
  have hfirst : Grammar.IsRule (tokensFrom 3
      [⟨some .number, some (.weight (Decimal.floatOfLiteral ['1'])), ['1']⟩, .token .colon [':'],
        .token .text ['a', ' ']]) _ :=
    .mk rfl rfl (Grammar.content_text _ [] [] rfl .nil trivial) (List.cons_ne_nil _ _) (by decide)
  have hsecond : Grammar.IsRule (tokensFrom 8
      [⟨some .number, some (.weight (Decimal.floatOfLiteral ['2'])), ['2']⟩, .token .colon [':'],
        .token .text ['b']]) _ :=
    .mk rfl rfl (Grammar.content_text _ [] [] rfl .nil trivial) (List.cons_ne_nil _ _) (by decide)
  have hlines := Grammar.Lines.rule hsecond .nil
  rw [List.append_nil] at hlines
  have htable := @Grammar.IsTable.lines
    (tokensFrom 0 [.token .hash ['#'], .token .identifier ['t']]) _ _
    ⟨.newline, "\n", ⟨2, 3, by decide⟩, none⟩ _ _ [] (.plain rfl rfl) rfl
    (.rule hfirst (@Grammar.Lines.lineEnd ⟨.newline, "\n", ⟨7, 8, by decide⟩, none⟩ _ _ rfl hlines))
  have htables := Grammar.Tables.cons htable .nil
  have hp' := (parse_eq_ok_iff (String.ofList ("#t\n1:a ".toList ++ '\n' :: "2:b".toList)) _).mpr
    ⟨_, _, _, by rw [String.toList_ofList]; rfl, hreads,
      @Grammar.IsProgram.mk [] _ _ nofun htables (List.cons_ne_nil _ _)⟩
  obtain ⟨hiff, hsame⟩ := parse_commentInRule _ _ _ hcuts
  obtain ⟨p, hp⟩ := hiff.mpr ⟨_, hp'⟩
  exact ⟨hcuts, p, _, hp, hp', hsame p _ hp hp'⟩

end Program

end RandomTables
