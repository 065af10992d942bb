import RandomTables.Proofs.Program.Parse
import RandomTables.Proofs.Program.Shift
import RandomTables.Proofs.Token.Part
import RandomTables.Proofs.Token.Seam

namespace RandomTables

namespace Grammar

section Trims
variable {tokens after : List Token}

/-- A rule ends where its last token does. -/
theorem rule_stop {r : Located Rule} (h : IsRule tokens r) (horder : InOrder tokens)
    (offset : Nat) : r.span.stop = stopAfter offset tokens := by
  cases h with
  | mk =>
    rw [extent_stop _ _ horder, stopAfter_cons offset]

/-- Without the line ends after its last rule, a table ends where that rule does. -/
theorem lines_trimmed {rules : List (Located Rule)} (h : Lines tokens rules)
    (horder : InOrder tokens) :
    ∃ kept run, tokens = kept ++ run ∧ Lines kept rules ∧
      ∀ offset, rulesStop offset rules = stopAfter offset kept := by
  induction h with
  | nil => exact ⟨[], [], rfl, .nil, fun _ => rfl⟩
  | @lineEnd t tokens rules ht _ ih =>
    obtain ⟨kept, run, rfl, hkept, hstop⟩ := ih (List.pairwise_cons.mp horder).2
    cases kept with
    | nil =>
      -- No rule is left, so this line end is one of those after the last.
      exact ⟨[], t :: run, rfl, hkept, hstop⟩
    | cons u kept =>
      refine ⟨t :: u :: kept, run, rfl, .lineEnd ht hkept, ?_⟩
      intro offset
      rw [hstop, stopAfter_cons, stopAfter_cons, stopAfter_cons]
  | @rule first tokens r rules hfirst _ ih =>
    obtain ⟨hfirst', htail, -⟩ := List.pairwise_append.mp horder
    obtain ⟨kept, run, rfl, hkept, hstop⟩ := ih htail
    refine ⟨first ++ kept, run, (List.append_assoc _ _ _).symm, .rule hfirst hkept, ?_⟩
    intro offset
    calc rulesStop offset (r :: rules) = rulesStop r.span.stop rules := rulesStop_cons _ _ _
      _ = stopAfter r.span.stop kept := hstop _
      _ = stopAfter (stopAfter offset first) kept := by rw [rule_stop hfirst hfirst' offset]
      _ = stopAfter offset (first ++ kept) := (stopAfter_append _ _ _).symm

/-- The tokens in the span of a table are the table without what comes after it. -/
theorem table_trimmed {table : Located Table} (h : IsTable tokens after table)
    (hafter : HeadIn [.hash] after) (horder : InOrder tokens) :
    ∃ hash kept run, tokens = hash :: kept ++ run ∧ hash.kind = .hash ∧
      IsTable (hash :: kept) [] table ∧ table.span.start = hash.span.start ∧
      table.span.stop = stopAfter hash.span.stop kept := by
  obtain ⟨header, lines, id, exported, rules, rfl, hheader, hline, hlines, rfl⟩ :=
    (isTable_iff _ _ _ hafter).mp h
  obtain ⟨hash, name, flags, rfl, hhash, -⟩ := header_cons header id exported hheader
  obtain ⟨hstart, hstop⟩ := tableSpan_ends hash (name :: flags) lines rules hlines horder
  have hlines' : InOrder lines := (List.pairwise_append.mp horder).2.1
  obtain ⟨kept, run, rfl, hkept, htrimmed⟩ := lines_trimmed hlines hlines'
  have hline' : HeadIn [.newline] (kept ++ []) := by
    cases kept with
    | nil => exact headIn_nil _
    | cons t kept => exact hline
  refine ⟨hash, name :: flags ++ kept, run, by simp, hhash, ?_, hstart, ?_⟩
  · exact (isTable_iff _ _ _ (headIn_nil _)).mpr
      ⟨hash :: name :: flags, kept, id, exported, rules, rfl, hheader, hline', hkept, rfl⟩
  · rw [stopAfter_append, ← htrimmed]
    exact hstop

end Trims

def EndsOutside (tokens : List Token) : Prop :=
  ∀ t ∈ tokens.getLast?, insideBraces t.kind = false

section Ends
variable {tokens after : List Token}

theorem endsOutside_append (first second : List Token) (hfirst : EndsOutside first)
    (hsecond : EndsOutside second) : EndsOutside (first ++ second) :=
  forall_last_append hfirst hsecond

theorem endsOutside_of_kinds (kinds : List TokenKind) (h : ∀ t ∈ tokens, t.kind ∈ kinds)
    (hkinds : ∀ kind ∈ kinds, insideBraces kind = false) : EndsOutside tokens :=
  fun t ht => hkinds _ (h t (List.mem_of_getLast? ht))

theorem endsOutside_of_content {items : List Item} (h : Content tokens items) :
    EndsOutside tokens := by
  induction h with
  | nil => exact nofun
  | texts _ hrun _ _ ih =>
    exact endsOutside_append _ _ (endsOutside_of_kinds [.text] (by simpa using hrun) (by decide)) ih
  | @expression opening inner closing tokens _ _ _ _ hclosing _ ih =>
    have hbraces : EndsOutside (opening :: (inner ++ [closing])) := by
      intro t ht
      rw [← List.cons_append, List.getLast?_concat, Option.mem_some_iff] at ht
      rw [← ht, hclosing]
      rfl
    have := endsOutside_append _ tokens hbraces ih
    simpa using this

/-- Lines end outside of expressions, since content does. -/
theorem endsOutside_of_lines {rules : List (Located Rule)} (h : Lines tokens rules) :
    EndsOutside tokens := by
  induction h with
  | nil => exact nofun
  | @lineEnd t tokens _ ht _ ih =>
    exact endsOutside_append [t] tokens
      (endsOutside_of_kinds [.newline] (by simpa using ht) (by decide)) ih
  | rule hfirst _ ih =>
    apply endsOutside_append _ _ _ ih
    cases hfirst with
    | @mk weight colon tokens _ hweight hcolon hcontent =>
      have hmark : EndsOutside [weight, colon] :=
        endsOutside_of_kinds [.number, .colon] (by simp [hweight, hcolon]) (by decide)
      exact endsOutside_append _ _ hmark (endsOutside_of_content hcontent)

theorem endsOutside_of_table {table : Located Table} (h : IsTable tokens after table)
    (hafter : after ≠ []) : EndsOutside tokens := by
  cases h with
  | bare => exact absurd rfl hafter
  | @lines header _ _ lineEnd tokens _ _ _ hline hlines =>
    intro t ht
    have hend := endsOutside_of_lines (Lines.lineEnd hline hlines)
    rw [List.getLast?_append_of_ne_nil _ (List.cons_ne_nil _ _)] at ht
    exact hend t ht

/-- By induction on the tables, of which the one in question comes first or behind the first. -/
theorem tables_part {tables : List (Located Table)} (h : Tables tokens tables)
    (table : Located Table) (htable : table ∈ tables) :
    ∃ before first after, tokens = before ++ first ++ after ∧ EndsOutside before ∧
      IsTable first after table ∧ HeadIn [.hash] after := by
  induction h with
  | nil => exact absurd htable List.not_mem_nil
  | @cons first tokens table' tables hfirst htail ih =>
    rcases List.mem_cons.mp htable with rfl | htable
    · exact ⟨[], first, tokens, rfl, nofun, hfirst, tables_head tokens tables htail⟩
    · obtain ⟨before, first', after, rfl, hbefore, hfirst', hafter⟩ := ih htable
      obtain ⟨hash, taken, rfl, -⟩ := isTable_cons first' after table hfirst'
      refine ⟨first ++ before, hash :: taken, after, by simp, ?_, hfirst', hafter⟩
      exact endsOutside_append first before (endsOutside_of_table hfirst (by simp)) hbefore

/-- A table of a program has its tokens in one place, after a token that leaves nothing open. -/
theorem program_part {p : Program} (h : IsProgram tokens p) (table : Located Table)
    (htable : table ∈ p.tables) :
    ∃ before first after, tokens = before ++ first ++ after ∧ EndsOutside before ∧
      IsTable first after table ∧ HeadIn [.hash] after := by
  cases h with
  | @mk lineEnds tokens tables hlineEnds htables _ =>
    obtain ⟨before, first, after, rfl, hbefore, hfirst, hafter⟩ := tables_part htables table htable
    refine ⟨lineEnds ++ before, first, after, by simp, ?_, hfirst, hafter⟩
    exact endsOutside_append lineEnds before
      (endsOutside_of_kinds [.newline] (by simpa using hlineEnds) (by decide)) hbefore

end Ends

end Grammar

section Parts
variable {after : List Char} {mode : Mode} {last : Option TokenKind}
variable {front part back : List Piece}

/-- A span with the bounds of a part cuts out its text. -/
theorem slice_part (s : Span) (hstart : s.start = (textOf front).length)
    (hstop : s.stop = (textOf front).length + (textOf part).length) :
    s.slice (textOf (front ++ part ++ back)) = textOf part := by
  obtain ⟨start, stop, hle⟩ := s
  subst hstart
  subst hstop
  rw [textOf_append, textOf_append]
  exact Span.slice_append _ _ _

/-- Behind a token that leaves nothing open, a hash is met in a declaration, and what begins with it
is read alone as in its place. -/
theorem reads_alone (h : Reads after .declaration none (front ++ part ++ back) mode last)
    (hhead : part.head?.bind Piece.kind = some .hash)
    (hfront : Grammar.EndsOutside (tokensFrom 0 front)) :
    ∃ mode' last', Reads [] .declaration none part mode' last' := by
  obtain ⟨mode₂, last₂, hboth, -⟩ := reads_append_iff.mp h
  obtain ⟨mode₁, last₁, hbefore, hpart⟩ := reads_append_iff.mp hboth
  have hlast : last₁.any insideBraces = false := by
    rw [last_of_reads hbefore 0, Option.or_none]
    cases hend : (tokensFrom 0 front).getLast? with
    | none => rfl
    | some t => exact hfront t hend
  have hmode : mode₁ = .declaration := by
    cases hpart with
    | nil => cases hhead
    | cons htakes => exact mode_of_hash hbefore htakes hhead hlast
  subst hmode
  obtain ⟨last₃, halone⟩ := reads_declaration hpart none
  exact ⟨mode₂, last₃, reads_at_end halone⟩

end Parts

namespace Program

/-- The source of a table, cut out at its span, has a program of its own: that table alone, with
every span as far from the start as it was from the start of the table. -/
theorem parse_slice (source : String) (p : Program) (table : Located Table)
    (h : parse source = .ok p) (htable : table ∈ p.tables) :
    ∃ alone, parse (String.ofList (table.span.slice source.toList)) = .ok ⟨[alone]⟩ ∧
      shiftTable table.span.start alone = table := by
  obtain ⟨pieces, mode, last, htext, hreads, hp⟩ := (parse_eq_ok_iff source p).mp h
  obtain ⟨before, first, after, htokens, hbefore, hfirst, hafter⟩ :=
    Grammar.program_part hp table htable
  have hsound := sound_of_reads hreads
  rw [htokens] at hsound
  have hsound' := (Grammar.sound_of_append _ _ (Grammar.sound_of_append _ _ hsound).1).2
  obtain ⟨hash, kept, run, rfl, hhash, hkept, hstart, hstop⟩ :=
    Grammar.table_trimmed hfirst hafter hsound'.inOrder
  -- The pieces of the table, from the hash to the last token in the span.
  rw [← List.append_assoc, List.append_assoc _ run] at htokens
  obtain ⟨front, part, back, rfl, hfront, hpart, hstart', hstop', hhead⟩ :=
    exists_part pieces kept htokens
  have hslice : table.span.slice source.toList = textOf part := by
    rw [← htext]
    exact slice_part table.span (hstart.trans hstart') (hstop.trans hstop')
  rw [← hfront] at hbefore
  obtain ⟨mode', last', halone⟩ := reads_alone hreads (hhead.trans (congrArg some hhash)) hbefore
  -- Alone they make the tokens that they make in their place, moved to the start.
  have hmoved : (tokensFrom 0 part).map (Token.shift (textOf front).length) = hash :: kept := by
    rw [← tokensFrom_add, Nat.zero_add]
    exact hpart
  have hsound'' := (Grammar.sound_of_append _ _ hsound').1
  rw [← hmoved] at hkept hsound''
  obtain ⟨alone, hisTable, hshift⟩ := Grammar.exists_table_of_shift _ hkept hsound''
  refine ⟨alone, ?_, ?_⟩
  · rw [parse_of_reads halone _ (by rw [hslice, String.toList_ofList])]
    have htables := Grammar.Tables.cons hisTable .nil
    rw [List.append_nil] at htables
    exact @Grammar.IsProgram.mk [] _ _ (List.forall_mem_nil _) htables (List.cons_ne_nil _ _)
  · rw [hstart, hstart']
    exact hshift

/-- The comment in the table stays, and the line ends around the table go. -/
theorem parse_slice_comment :
    let table : Located Table := ⟨⟨"u", false, [⟨⟨Decimal.floatOfLiteral ['1'], [.text "y"]⟩,
      ⟨7, 10, by decide⟩⟩]⟩, ⟨1, 10, by decide⟩⟩
    parse "\n#u//z\n1:y\n" = .ok ⟨[table]⟩ ∧ table ∈ [table] ∧
      ∃ alone, parse (String.ofList "#u//z\n1:y".toList) = .ok ⟨[alone]⟩ ∧
        shiftTable 1 alone = table := by
  intro table
  have hparse : parse "\n#u//z\n1:y\n" = .ok ⟨[table]⟩ := by
    have hreads : Reads [] .declaration none [.token .newline ['\n'], .token .hash ['#'],
        .token .identifier ['u'], .trivia ['/', '/', 'z'], .token .newline ['\n'],
        ⟨some .number, some (.weight (Decimal.floatOfLiteral ['1'])), ['1']⟩, .token .colon [':'],
        .token .text ['y'], .token .newline ['\n']] .declaration (some .newline) := by
      repeat
        first
        | exact Reads.nil
        | refine Reads.cons ⟨_, _, rfl, rfl⟩ ?_
    have hheader : Grammar.Header (tokensFrom 1 [.token .hash ['#'], .token .identifier ['u']])
        "u" false := .plain rfl rfl
    have hrule : Grammar.IsRule (tokensFrom 7
        [⟨some .number, some (.weight (Decimal.floatOfLiteral ['1'])), ['1']⟩, .token .colon [':'],
          .token .text ['y']]) ⟨⟨Decimal.floatOfLiteral ['1'], [.text "y"]⟩, ⟨7, 10, by decide⟩⟩ :=
      .mk rfl rfl (Grammar.content_text _ [] [] rfl .nil trivial) (List.cons_ne_nil _ _) (by decide)
    have hline : Token.kind ⟨.newline, "\n", ⟨10, 11, by decide⟩, none⟩ = .newline := rfl
    have htable := @Grammar.IsTable.lines _ _ _ ⟨.newline, "\n", ⟨6, 7, by decide⟩, none⟩ _ _ []
      hheader rfl (.rule hrule (.lineEnd hline .nil))
    have htables := Grammar.Tables.cons htable .nil
    exact (parse_eq_ok_iff _ _).mpr ⟨_, _, _, rfl, hreads,
      @Grammar.IsProgram.mk [_] _ _ (by decide) htables (List.cons_ne_nil _ _)⟩
  have hmem : table ∈ [table] := List.mem_singleton_self table
  have hslice : table.span.slice "\n#u//z\n1:y\n".toList = "#u//z\n1:y".toList := by decide
  have halone := parse_slice _ _ table hparse hmem
  rw [hslice] at halone
  exact ⟨hparse, hmem, halone⟩

end Program

end RandomTables
