import RandomTables.Proofs.Program.Trivia
import RandomTables.Proofs.Token.Returns

namespace RandomTables

/-- The characters of a token stand in the source. -/
theorem mem_textOf_of_lexeme {offset : Nat} {pieces : List Piece} {t : Token} {c : Char}
    (ht : t ∈ tokensFrom offset pieces) (hc : c ∈ t.lexeme.toList) : c ∈ textOf pieces := by
  induction pieces generalizing offset with
  | nil => cases ht
  | cons piece pieces ih =>
    rw [tokensFrom, List.mem_append, Option.mem_toList] at ht
    rw [textOf_cons, List.mem_append]
    rcases ht with ht | ht
    · obtain ⟨kind, -, rfl⟩ := Option.map_eq_some_iff.mp ht
      rw [String.toList_ofList] at hc
      exact .inl hc
    · exact .inr (ih ht)

/-- The characters of a text in a rule are those of its tokens. -/
theorem Grammar.exists_token_of_char {tokens : List Token} {items : List Item}
    (h : Grammar.Content tokens items) {s : String} (hs : .text s ∈ items) {c : Char}
    (hc : c ∈ s.toList) : ∃ t ∈ tokens, t.kind = .text ∧ c ∈ t.lexeme.toList := by
  induction h with
  | nil => cases hs
  | @texts run tokens items _ hkind _ _ ih =>
    rcases List.mem_cons.mp hs with hs | hs
    · cases hs
      rw [String.toList_join, List.flatMap_map] at hc
      obtain ⟨t, ht, hct⟩ := List.mem_flatMap.mp hc
      exact ⟨t, List.mem_append_left _ ht, hkind t ht, hct⟩
    · obtain ⟨t, ht, hfound⟩ := ih hs
      exact ⟨t, List.mem_append_right _ ht, hfound⟩
  | expression _ hinner _ _ ih =>
    rcases List.mem_cons.mp hs with rfl | hs
    · cases hinner
    · obtain ⟨t, ht, hfound⟩ := ih hs
      exact ⟨t, by simp [ht], hfound⟩

namespace Program

/-- The text of a rule is made of characters of the source. -/
theorem mem_source_of_text {source : String} {p : Program} (h : parse source = .ok p)
    {table : Located Table} (htable : table ∈ p.tables) {r : Located Rule}
    (hr : r ∈ table.value.rules) {s : String} (hs : .text s ∈ r.value.content) {c : Char}
    (hc : c ∈ s.toList) : c ∈ source.toList := by
  obtain ⟨pieces, mode, last, htext, -, hp⟩ := (parse_eq_ok_iff source p).mp h
  rw [← htext]
  generalize htokens : tokensFrom 0 pieces = tokens at hp
  cases hp with
  | @mk lineEnds tokens _ _ htables =>
    obtain ⟨part, hpart, hrule⟩ := rules_of_tables htables table htable r hr
    cases hrule with
    | @mk weight colon content _ _ _ hcontent =>
      obtain ⟨t, ht, -, hct⟩ := Grammar.exists_token_of_char hcontent hs hc
      refine @mem_textOf_of_lexeme 0 pieces t _ ?_ hct
      rw [htokens]
      exact List.mem_append_right _ (hpart.subset (by simp [ht]))

/-- The same tables without spans have the same rules. -/
theorem exists_rule_of_unplaced {p p' : Program} (h : p'.unplaced = p.unplaced)
    {table' : Located Table} (htable' : table' ∈ p'.tables) {r' : Located Rule}
    (hr' : r' ∈ table'.value.rules) :
    ∃ table ∈ p.tables, ∃ r ∈ table.value.rules, r.value = r'.value := by
  have hmem : Grammar.bareTable table' ∈ p.unplaced := h ▸ List.mem_map_of_mem htable'
  obtain ⟨table, htable, hbare⟩ := List.mem_map.mp hmem
  have hrules : table.value.rules.map (·.value) = table'.value.rules.map (·.value) :=
    congrArg (·.2.2) hbare
  have hvalue : r'.value ∈ table.value.rules.map (·.value) := hrules ▸ List.mem_map_of_mem hr'
  obtain ⟨r, hr, hsame⟩ := List.mem_map.mp hvalue
  exact ⟨table, htable, r, hr, hsame⟩

/-- With a return before every line feed, a source without returns has the same program up to spans,
or still none. The texts of its rules hold no return. -/
theorem parse_withReturns (source : String) (h : '\r' ∉ source.toList) :
    (parse (String.ofList (Text.withReturns source.toList))).toOption.map unplaced =
      (parse source).toOption.map unplaced ∧
    ∀ p, parse (String.ofList (Text.withReturns source.toList)) = .ok p → ∀ table ∈ p.tables,
      ∀ r ∈ table.value.rules, ∀ s, .text s ∈ r.value.content → '\r' ∉ s.toList := by
  have hsame : (parse (String.ofList (Text.withReturns source.toList))).toOption.map unplaced =
      (parse source).toOption.map unplaced := by
    by_cases hread : ∃ pieces mode last, textOf pieces = source.toList ∧
        Reads [] .declaration none pieces mode last
    · obtain ⟨pieces, mode, last, htext, hreads⟩ := hread
      have hreturn : '\r' ∉ textOf pieces ++ [] := by rwa [List.append_nil, htext]
      obtain ⟨pieces', htext', hwords, hreads'⟩ := reads_withReturns hreads hreturn nofun
      apply parse_of_alike _ _ hreads htext hreads'
      · rw [htext', htext, String.toList_ofList]
      · exact Grammar.alike_of_sameWords (sameWords_tokensFrom hwords 0 0)
    · -- Neither source is read up to its end.
      apply map_toOption_eq
      · intro p hp
        obtain ⟨pieces, mode, last, htext, hreads, -⟩ := (parse_eq_ok_iff _ p).mp hp
        exact absurd ⟨pieces, mode, last, htext, hreads⟩ hread
      · intro p hp
        obtain ⟨pieces, mode, last, htext, hreads, -⟩ := (parse_eq_ok_iff _ p).mp hp
        rw [String.toList_ofList] at htext
        exact absurd (exists_reads_of_withReturns h hreads htext) hread
  refine ⟨hsame, ?_⟩
  intro p' hp' table' htable' r' hr' s hs hreturn
  rw [hp'] at hsame
  obtain ⟨p, hp, hunplaced⟩ := Option.map_eq_some_iff.mp hsame.symm
  obtain ⟨table, htable, r, hr, hvalue⟩ := exists_rule_of_unplaced hunplaced.symm htable' hr'
  rw [← hvalue] at hs
  cases hparse : parse source with
  | error failure =>
    rw [hparse] at hp
    cases hp
  | ok q =>
    rw [hparse] at hp
    cases hp
    exact h (mem_source_of_text hparse htable hr hs hreturn)

def commentedLines : String := "#t //c\n1:a /*\n*/"

theorem parse_commentedLines : ∃ ruleSpan tableSpan, parse commentedLines = .ok
    ⟨[⟨⟨"t", false, [⟨⟨Decimal.floatOfLiteral ['1'], [.text "a "]⟩, ruleSpan⟩]⟩, tableSpan⟩]⟩ := by
  have hnumber : Takes .declaration (some .newline)
      ⟨some .number, some (.weight (Decimal.floatOfLiteral ['1'])), ['1']⟩ .declaration
      ":a /*\n*/".toList :=
    takes_of_lexes (@Lexes.number _ '1' [] [] _ rfl nofun (.inl rfl)
      ((Text.stops_cons _ _ _).mpr (by decide)) (by decide))
  have hreads : Reads [] .declaration none [.token .hash ['#'], .token .identifier ['t'],
      .trivia [' '], .trivia ['/', '/', 'c'], .token .newline ['\n'],
      ⟨some .number, some (.weight (Decimal.floatOfLiteral ['1'])), ['1']⟩, .token .colon [':'],
      .token .text ['a', ' '], .trivia ['/', '*', '\n', '*', '/']] .declaration (some .text) := by
    repeat
      first
      | exact Reads.nil
      | refine Reads.cons hnumber ?_
      | refine Reads.cons ⟨_, _, rfl, rfl⟩ ?_
  have hcontent := Grammar.content_text ⟨.text, "a ", ⟨9, 11, by decide⟩, none⟩ [] [] rfl .nil
    trivial
  have hrule := @Grammar.IsRule.mk
    ⟨.number, "1", ⟨7, 8, by decide⟩, some (.weight (Decimal.floatOfLiteral ['1']))⟩
    ⟨.colon, ":", ⟨8, 9, by decide⟩, none⟩ _ _ rfl rfl hcontent (List.cons_ne_nil _ _) (by decide)
  have htable := @Grammar.IsTable.lines [⟨.hash, "#", ⟨0, 1, by decide⟩, none⟩,
    ⟨.identifier, "t", ⟨1, 2, by decide⟩, none⟩] _ _ ⟨.newline, "\n", ⟨6, 7, by decide⟩, none⟩
    _ _ [] (.plain rfl rfl) rfl (.rule hrule .nil)
  have hprogram := @Grammar.IsProgram.mk [] _ _ nofun (.cons htable .nil) (List.cons_ne_nil _ _)
  exact ⟨_, _, (parse_eq_ok_iff _ _).mpr ⟨_, _, _, rfl, hreads, hprogram⟩⟩

/-- One comment runs up to the end of its line, and the other over two lines. -/
theorem parse_withReturns_comments :
    '\r' ∉ commentedLines.toList ∧ ∃ p p', parse commentedLines = .ok p ∧
      parse (String.ofList (Text.withReturns commentedLines.toList)) = .ok p' ∧
      p'.unplaced = p.unplaced ∧ ∀ table ∈ p'.tables, ∀ r ∈ table.value.rules,
        ∀ s, .text s ∈ r.value.content → '\r' ∉ s.toList := by
  have hreturn : '\r' ∉ commentedLines.toList := by decide
  obtain ⟨ruleSpan, tableSpan, hp⟩ := parse_commentedLines
  obtain ⟨hsame, htexts⟩ := parse_withReturns commentedLines hreturn
  rw [hp] at hsame
  generalize hparse : parse (String.ofList (Text.withReturns commentedLines.toList)) = outcome
    at hsame
  cases outcome with
  | error failure => cases hsame
  | ok p' => exact ⟨hreturn, _, p', hp, rfl, Option.some.inj hsame, htexts p' hparse⟩

end Program

end RandomTables
