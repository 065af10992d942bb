import RandomTables.Proofs.Program.Alike
import RandomTables.Proofs.Program.RoundTrip

namespace RandomTables

def Program.unplaced (p : Program) : List (String × Bool × List Rule) :=
  p.tables.map Grammar.bareTable

/-- Two outcomes agree on results if each result of one is a result of the other. -/
theorem map_toOption_eq {ε α β : Type} (f : α → β) (x y : Except ε α)
    (hxy : ∀ a, x = .ok a → ∃ b, y = .ok b ∧ f b = f a)
    (hyx : ∀ b, y = .ok b → ∃ a, x = .ok a ∧ f a = f b) :
    y.toOption.map f = x.toOption.map f := by
  cases x with
  | error e =>
    cases y with
    | error e' => rfl
    | ok b =>
      obtain ⟨a, ha, -⟩ := hyx b rfl
      cases ha
  | ok a =>
    obtain ⟨b, rfl, hb⟩ := hxy a rfl
    exact congrArg some hb

/-- Sources with alike tokens have the same program up to spans, or both none. -/
theorem parse_of_alike {pieces pieces' : List Piece} {mode mode' : Mode}
    {last last' : Option TokenKind} (source source' : String)
    (hreads : Reads [] .declaration none pieces mode last) (htext : textOf pieces = source.toList)
    (hreads' : Reads [] .declaration none pieces' mode' last')
    (htext' : textOf pieces' = source'.toList)
    (halike : Grammar.Alike (tokensFrom 0 pieces) (tokensFrom 0 pieces')) :
    (Program.parse source').toOption.map Program.unplaced =
      (Program.parse source).toOption.map Program.unplaced := by
  apply map_toOption_eq
  · intro p hp
    rw [Program.parse_of_reads hreads source htext] at hp
    obtain ⟨p', hp', hsame⟩ := Grammar.program_of_alike hp halike
    exact ⟨p', (Program.parse_of_reads hreads' source' htext' p').mpr hp', hsame⟩
  · intro p' hp'
    rw [Program.parse_of_reads hreads' source' htext'] at hp'
    obtain ⟨p, hp, hsame⟩ :=
      Grammar.program_of_alike hp' (Grammar.alike_symm _ _ halike)
    exact ⟨p, (Program.parse_of_reads hreads source htext p).mpr hp, hsame⟩

theorem sameButCut_append {faces faces' : List (TokenKind × String × Option TokenValue)}
    (h : SameButCut faces faces') (more : List (TokenKind × String × Option TokenValue)) :
    SameButCut (faces ++ more) (faces' ++ more) := by
  rcases h with rfl | ⟨before, s, t, after, rfl, rfl⟩
  · exact .inl rfl
  · exact .inr ⟨before, s, t, after ++ more, by simp, by simp⟩

/-- A source that can be read can be read after an insertion too. Its tokens are the same, save that
one text may be cut in two, and so is its program up to spans, if it has one. -/
theorem insertion_keeps_program (u w v : List Char) (s : Scan) (hs : scan (u ++ v) = .ok s)
    (h : Insertion u w v) :
    (∃ s', scan (u ++ w ++ v) = .ok s' ∧
      SameButCut (s.tokens.map Token.face) (s'.tokens.map Token.face)) ∧
    (Program.parse (String.ofList (u ++ w ++ v))).toOption.map Program.unplaced =
      (Program.parse (String.ofList (u ++ v))).toOption.map Program.unplaced := by
  obtain ⟨all, last, htext, hreads, htokens⟩ := (scan_eq_ok_iff _ s).mp hs
  obtain ⟨all', htext', hreads', hcut⟩ := reads_of_insertion h hreads htext
  constructor
  · refine ⟨⟨tokensFrom 0 all' ++ [.endAt (u ++ w ++ v).length], s.mode⟩,
      (scan_eq_ok_iff _ _).mpr ⟨all', last, htext', hreads', rfl⟩, ?_⟩
    rw [htokens, List.map_append, List.map_append, map_face_tokensFrom, map_face_tokensFrom]
    exact sameButCut_append hcut [(.endOfInput, "", none)]
  · apply parse_of_alike _ _ hreads _ hreads'
    · rw [htext', String.toList_ofList]
    · apply Grammar.alike_of_sameButCut
      rw [map_face_tokensFrom, map_face_tokensFrom]
      exact hcut
    · rw [htext, String.toList_ofList]

/-- A comment cuts the text in two, and closes behind slashes of its own. -/
theorem insertion_keeps_program_cut :
    Insertion ['#', 't', '\n', '1', ':', 'a', ' '] ['/', '*', '/', '/', '*', '/']
      ['b', '\x7b', 'd', '6', '\x7d'] ∧
    ∃ s s', scan ['#', 't', '\n', '1', ':', 'a', ' ', 'b', '\x7b', 'd', '6', '\x7d'] = .ok s ∧
      scan ['#', 't', '\n', '1', ':', 'a', ' ', '/', '*', '/', '/', '*', '/',
        'b', '\x7b', 'd', '6', '\x7d'] = .ok s' ∧
      SameButCut (s.tokens.map Token.face) (s'.tokens.map Token.face) ∧
      (Program.parse (String.ofList ['#', 't', '\n', '1', ':', 'a', ' ', '/', '*', '/', '/', '*',
        '/', 'b', '\x7b', 'd', '6', '\x7d'])).toOption.map Program.unplaced =
      (Program.parse (String.ofList ['#', 't', '\n', '1', ':', 'a', ' ',
        'b', '\x7b', 'd', '6', '\x7d'])).toOption.map Program.unplaced := by
  have hinsertion : Insertion ['#', 't', '\n', '1', ':', 'a', ' '] ['/', '*', '/', '/', '*', '/']
      ['b', '\x7b', 'd', '6', '\x7d'] := by
    have htext : Reads ['\x7b', 'd', '6', '\x7d'] .ruleContent (some .colon)
        [.token .text (['a', ' '] ++ ['b'])] .ruleContent (some .text) :=
      .cons ⟨'a', [' ', 'b'], rfl, rfl⟩ .nil
    have hbody : IsCommentBody ['/', '/'] :=
      (isCommentBody_cons _ _).mpr ⟨by simp, (isCommentBody_cons _ _).mpr
        ⟨by simp, isCommentBody_nil⟩⟩
    exact .commentInText rfl rfl (List.cons_ne_nil _ _) ⟨' ', rfl, rfl⟩
      (reads_append (reads_rulePieces _) htext) ⟨['/', '/'], rfl, by simp, hbody⟩
  have hcontent : Reads [] .ruleContent (some .colon)
      [.token .text ['a', ' ', 'b'], .token .leftBrace ['\x7b'],
        ⟨some .diceRoll, some (.dice ⟨none, 6⟩), ['d', '6']⟩, .token .rightBrace ['\x7d']]
      .ruleContent (some .rightBrace) := by
    repeat
      first
      | exact Reads.nil
      | refine Reads.cons ⟨_, _, rfl, rfl⟩ ?_
  have hs : scan (['#', 't', '\n', '1', ':', 'a', ' '] ++ ['b', '\x7b', 'd', '6', '\x7d']) =
      .ok ⟨_, .ruleContent⟩ :=
    (scan_eq_ok_iff _ _).mpr ⟨_, _, rfl, reads_append (reads_rulePieces _) hcontent, rfl⟩
  obtain ⟨⟨s', hs', hcut⟩, hparse⟩ := insertion_keeps_program _ _ _ _ hs hinsertion
  exact ⟨hinsertion, _, s', hs, hs', hcut, hparse⟩

end RandomTables
