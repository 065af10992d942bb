import RandomTables.Proofs.Program.Parse
import RandomTables.Proofs.Program.Shift
import RandomTables.Proofs.Token.Seam

namespace RandomTables

namespace Grammar

section Joins
variable {tokens : List Token}

/-- Line ends after the last rule are lines of the same table. -/
theorem lines_append_lineEnds {rules : List (Located Rule)} (h : Lines tokens rules)
    (run : List Token) (hrun : ∀ t ∈ run, t.kind = .newline) : Lines (tokens ++ run) rules := by
  induction h with
  | nil =>
    rw [List.nil_append]
    induction run with
    | nil => exact .nil
    | cons t run ih =>
      obtain ⟨ht, hrun⟩ := List.forall_mem_cons.mp hrun
      exact .lineEnd ht (ih hrun)
  | lineEnd ht _ ih => exact .lineEnd ht ih
  | rule hfirst _ ih =>
    rw [List.append_assoc]
    exact .rule hfirst ih

/-- With line ends after it, the last table of the input is a table anywhere. -/
theorem table_append_lineEnds {table : Located Table} (h : IsTable tokens [] table)
    (run after : List Token) (hne : run ≠ []) (hrun : ∀ t ∈ run, t.kind = .newline) :
    IsTable (tokens ++ run) after table := by
  cases h with
  | @bare _ id exported hheader =>
    obtain ⟨lineEnd, run, rfl⟩ := List.exists_cons_of_ne_nil hne
    obtain ⟨hline, hrun⟩ := List.forall_mem_cons.mp hrun
    have htable := @IsTable.lines _ _ _ _ _ _ after hheader hline
      (lines_append_lineEnds .nil run hrun)
    have hspan : tableSpan (extent tokens) [] = extent tokens := by simp [tableSpan, Span.cover]
    rw [hspan] at htable
    exact htable
  | lines hheader hline hlines =>
    rw [List.append_assoc, List.cons_append]
    exact .lines hheader hline (lines_append_lineEnds hlines run hrun)

/-- The line ends between the two belong to the last table of the first. -/
theorem tables_append {tables more : List (Located Table)} (h : Tables tokens tables)
    (hne : tables ≠ []) (run rest : List Token) (hrunne : run ≠ [])
    (hrun : ∀ t ∈ run, t.kind = .newline) (hrest : Tables rest more) :
    Tables (tokens ++ (run ++ rest)) (tables ++ more) := by
  induction h with
  | nil => exact absurd rfl hne
  | @cons first tokens table tables hfirst htail ih =>
    cases htail with
    | nil =>
      -- The last table takes the line ends, and those of the second list follow it.
      rw [List.append_nil, ← List.append_assoc]
      exact .cons (table_append_lineEnds hfirst run rest hrunne hrun) hrest
    | @cons second tokens' table' tables' hsecond htail' =>
      have htokens : second ++ tokens' ≠ [] := by
        obtain ⟨hash, taken, rfl, -⟩ := isTable_cons _ _ _ hsecond
        simp
      rw [List.append_assoc]
      exact .cons (isTable_of_after _ _ _ _ hfirst htokens) (ih (List.cons_ne_nil _ _))

/-- Two programs with a line end between them are one program. -/
theorem program_append {tokens' : List Token} {p q : Program} {lineEnd : Token}
    (hp : IsProgram tokens p) (hline : lineEnd.kind = .newline) (hq : IsProgram tokens' q) :
    IsProgram (tokens ++ lineEnd :: tokens') ⟨p.tables ++ q.tables⟩ := by
  cases hp with
  | @mk lineEnds tokens tables hlineEnds htables hne =>
    cases hq with
    | @mk lineEnds' tokens' tables' hlineEnds' htables' _ =>
      have hrun : ∀ t ∈ lineEnd :: lineEnds', t.kind = .newline :=
        List.forall_mem_cons.mpr ⟨hline, hlineEnds'⟩
      have hjoined := tables_append htables hne (lineEnd :: lineEnds') tokens'
        (List.cons_ne_nil _ _) hrun htables'
      rw [List.append_assoc, ← List.cons_append]
      exact .mk hlineEnds hjoined (by simp [hne])

/-- A program further on in a source has the same tables, each moved. -/
theorem program_shift (n : Nat) {p : Program} (h : IsProgram tokens p) :
    IsProgram (tokens.map (Token.shift n)) ⟨p.tables.map (shiftTable n)⟩ := by
  cases h with
  | @mk lineEnds tokens tables hlineEnds htables hne =>
    rw [List.map_append]
    refine .mk ?_ (tables_shift n htables) (by simpa using hne)
    intro t ht
    obtain ⟨u, hu, rfl⟩ := List.mem_map.mp ht
    exact hlineEnds u hu

end Joins

end Grammar

namespace Program

/-- Two sources that have programs have one together when a line feed stands between them: the
tables of the first and then those of the second, moved to their place. A return at the end of the
first source would make one line end with the line feed. -/
theorem parse_joined (a b : String) (p q : Program) (hreturn : a.toList.getLast? ≠ some '\r')
    (ha : parse a = .ok p) (hb : parse b = .ok q) :
    parse (a ++ "\n" ++ b) = .ok ⟨p.tables ++ q.tables.map (shiftTable (a.length + 1))⟩ := by
  obtain ⟨pieces, mode, last, htext, hreads, hp⟩ := (parse_eq_ok_iff a p).mp ha
  obtain ⟨pieces', mode', last', htext', hreads', hq⟩ := (parse_eq_ok_iff b q).mp hb
  -- The two runs meet at the line feed, which begins a declaration.
  have hfirst : Reads ('\n' :: textOf pieces') .declaration none pieces mode last := by
    apply reads_before_lineFeed hreads
    rw [htext]
    exact hreturn
  obtain ⟨last'', hsecond⟩ := reads_declaration hreads' (some .newline)
  have hline : Takes mode last (.token .newline ['\n']) .declaration (textOf pieces' ++ []) :=
    takes_of_lexes .lineFeed
  have hall : Reads [] .declaration none (pieces ++ .token .newline ['\n'] :: pieces') mode'
      last'' := by
    refine reads_append ?_ (.cons hline hsecond)
    rw [List.append_nil]
    exact hfirst
  have hsource : textOf (pieces ++ .token .newline ['\n'] :: pieces') =
      (a ++ "\n" ++ b).toList := by
    rw [textOf_append, textOf_cons, htext, htext', String.toList_append, String.toList_append,
      List.append_assoc]
    rfl
  -- The tokens of the second source are those it has alone, moved on by the first.
  have hmoved : tokensFrom ((textOf pieces).length + 1) pieces' =
      (tokensFrom 0 pieces').map (Token.shift (a.length + 1)) := by
    rw [htext, String.length_toList, ← tokensFrom_add, Nat.zero_add]
  have htokens : tokensFrom 0 (pieces ++ .token .newline ['\n'] :: pieces') =
      tokensFrom 0 pieces ++ ⟨.newline, "\n", ⟨(textOf pieces).length, (textOf pieces).length + 1,
        by omega⟩, none⟩ :: (tokensFrom 0 pieces').map (Token.shift (a.length + 1)) := by
    calc tokensFrom 0 (pieces ++ .token .newline ['\n'] :: pieces')
        = tokensFrom 0 pieces ++
            tokensFrom (0 + (textOf pieces).length) (.token .newline ['\n'] :: pieces') :=
          tokensFrom_append _ _ _
      _ = tokensFrom 0 pieces ++ ⟨.newline, "\n", ⟨(textOf pieces).length,
            (textOf pieces).length + 1, by omega⟩, none⟩ ::
              tokensFrom ((textOf pieces).length + 1) pieces' := by
          rw [Nat.zero_add]
          rfl
      _ = _ := by rw [hmoved]
  rw [parse_of_reads hall _ hsource, htokens]
  exact Grammar.program_append hp rfl (Grammar.program_shift (a.length + 1) hq)

/-- A comment ends the first source, and the line feed between the two ends the comment. -/
theorem parse_joined_comment :
    "#t//".toList.getLast? ≠ some '\r' ∧
    parse "#t//" = .ok ⟨[⟨⟨"t", false, []⟩, ⟨0, 2, by decide⟩⟩]⟩ ∧
    parse "\n#u\n1:y" = .ok ⟨[⟨⟨"u", false, [⟨⟨Decimal.floatOfLiteral ['1'], [.text "y"]⟩,
      ⟨4, 7, by decide⟩⟩]⟩, ⟨1, 7, by decide⟩⟩]⟩ ∧
    parse ("#t//" ++ "\n" ++ "\n#u\n1:y") = .ok ⟨[⟨⟨"t", false, []⟩, ⟨0, 2, by decide⟩⟩,
      ⟨⟨"u", false, [⟨⟨Decimal.floatOfLiteral ['1'], [.text "y"]⟩, ⟨9, 12, by decide⟩⟩]⟩,
        ⟨6, 12, by decide⟩⟩]⟩ := by
  have hreturn : "#t//".toList.getLast? ≠ some '\r' := by decide
  have ha : parse "#t//" = .ok ⟨[⟨⟨"t", false, []⟩, ⟨0, 2, by decide⟩⟩]⟩ := by
    have hreads : Reads [] .declaration none
        [.token .hash ['#'], .token .identifier ['t'], .trivia ['/', '/']] .declaration
        (some .identifier) :=
      .cons ⟨_, _, rfl, rfl⟩ (.cons ⟨_, _, rfl, rfl⟩ (.cons ⟨_, _, rfl, rfl⟩ .nil))
    have hheader : Grammar.Header
        (tokensFrom 0 [.token .hash ['#'], .token .identifier ['t'], .trivia ['/', '/']])
        "t" false := .plain rfl rfl
    have htables := Grammar.Tables.cons (.bare hheader) .nil
    exact (parse_eq_ok_iff _ _).mpr ⟨_, _, _, rfl, hreads,
      @Grammar.IsProgram.mk [] _ _ nofun htables (List.cons_ne_nil _ _)⟩
  have hb : parse "\n#u\n1:y" = .ok ⟨[⟨⟨"u", false, [⟨⟨Decimal.floatOfLiteral ['1'], [.text "y"]⟩,
      ⟨4, 7, by decide⟩⟩]⟩, ⟨1, 7, by decide⟩⟩]⟩ := by
    have hreads : Reads [] .declaration none (.token .newline ['\n'] :: .token .hash ['#'] ::
        .token .identifier ['u'] :: .token .newline ['\n'] ::
        [⟨some .number, some (.weight (Decimal.floatOfLiteral ['1'])), ['1']⟩, .token .colon [':'],
          .token .text ['y']]) .ruleContent (some .text) := by
      repeat
        first
        | exact Reads.nil
        | refine Reads.cons ⟨_, _, rfl, rfl⟩ ?_
    have hheader : Grammar.Header (tokensFrom 1 [.token .hash ['#'], .token .identifier ['u']])
        "u" false := .plain rfl rfl
    have hrule : Grammar.IsRule (tokensFrom 4
        [⟨some .number, some (.weight (Decimal.floatOfLiteral ['1'])), ['1']⟩, .token .colon [':'],
          .token .text ['y']]) ⟨⟨Decimal.floatOfLiteral ['1'], [.text "y"]⟩, ⟨4, 7, by decide⟩⟩ :=
      .mk rfl rfl (Grammar.content_text _ [] [] rfl .nil trivial) (List.cons_ne_nil _ _) (by decide)
    have htable := @Grammar.IsTable.lines _ _ _ ⟨.newline, "\n", ⟨3, 4, by decide⟩, none⟩ _ _ []
      hheader rfl (.rule hrule .nil)
    have htables := Grammar.Tables.cons htable .nil
    exact (parse_eq_ok_iff _ _).mpr ⟨_, _, _, rfl, hreads,
      @Grammar.IsProgram.mk [_] _ _ (by decide) htables (List.cons_ne_nil _ _)⟩
  exact ⟨hreturn, ha, hb, parse_joined _ _ _ _ hreturn ha hb⟩

end Program

end RandomTables
