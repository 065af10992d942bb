import RandomTables.Proofs.Program.Kinds
import RandomTables.Proofs.Program.Slice
import RandomTables.Proofs.Program.Weight
import RandomTables.Proofs.Token.Mark

namespace RandomTables

/-- Of some tokens, a span has just the given part in it: those before end before it begins, and
those after begin after it ends. -/
def Span.Holds (s : Span) (tokens part : List Token) : Prop :=
  ∃ before after, tokens = before ++ part ++ after ∧ (∀ t ∈ before, t.span.stop ≤ s.start) ∧
    (∀ t ∈ part, s.start ≤ t.span.start ∧ t.span.stop ≤ s.stop) ∧
    ∀ t ∈ after, s.stop ≤ t.span.start

/-- A rule has its weight, its colon and its content in its span. It begins at a digit, from where
its weight is written, and it ends with a text or closing brace. -/
structure RuleStands (source : List Char) (tokens : List Token) (r : Located Rule)
    (weight colon : Token) (content : List Token) : Prop where
  holds : r.span.Holds tokens (weight :: colon :: content)
  nonempty : r.span.isEmpty = false
  start : r.span.start = weight.span.start
  digit : ∃ c, source[r.span.start]? = some c ∧ Text.isDigit c = true
  number : weight.kind = .number ∧ weight.value = some (.weight r.value.weight)
  literal : r.value.weight = Decimal.floatOfLiteral (literalAt source r.span.start)
  mark : colon.kind = .colon
  items : Grammar.Content content r.value.content
  alone : ∀ t ∈ content, t.kind ≠ .number ∧ t.kind ≠ .colon
  stop : ∃ last, content.getLast? = some last ∧ (last.kind = .text ∨ last.kind = .rightBrace) ∧
    r.span.stop = last.span.stop

/-- A table has its header and its lines in its span. It begins at its hash and ends where the last
of its rules does or, without any, where its header does, with the name or the closing bracket. -/
structure TableStands (source : List Char) (tokens : List Token) (table : Located Table)
    (header lines : List Token) : Prop where
  holds : table.span.Holds tokens (header ++ lines)
  nonempty : table.span.isEmpty = false
  start : ∃ hash, header.head? = some hash ∧ hash.kind = .hash ∧
    table.span.start = hash.span.start
  hash : source[table.span.start]? = some '#'
  heading : Grammar.Header header table.value.id table.value.exported
  body : Grammar.Lines lines table.value.rules
  stop : ∃ last, header.getLast? = some last ∧
    last.kind = (if table.value.exported then .rightBracket else .identifier) ∧
    table.span.stop = Grammar.rulesStop last.span.stop table.value.rules
  ordered : table.value.rules.Pairwise fun r r' => r.span.stop ≤ r'.span.start
  inside : ∀ r ∈ table.value.rules,
    table.span.start ≤ r.span.start ∧ r.span.stop ≤ table.span.stop
  rules : ∀ r ∈ table.value.rules, ∃ weight colon content,
    RuleStands source tokens r weight colon content

/-- The tables of a program, and all of its rules, follow one another without overlap, and each
stands where its span says. -/
structure Program.IsLaidOut (source : List Char) (tokens : List Token) (p : Program) : Prop where
  tables : p.tables.Pairwise fun table table' => table.span.stop ≤ table'.span.start
  rules : (p.tables.flatMap (·.value.rules)).Pairwise fun r r' => r.span.stop ≤ r'.span.start
  stands : ∀ table ∈ p.tables, ∃ header lines, TableStands source tokens table header lines

/-- No token of the part reaches out of the span. -/
theorem within_of_holds {s : Span} {tokens part : List Token} (h : s.Holds tokens part) :
    ∀ t ∈ part, s.start ≤ t.span.start ∧ t.span.stop ≤ s.stop := by
  obtain ⟨-, -, -, -, hpart, -⟩ := h
  exact hpart

theorem isEmpty_of_lt {s : Span} (h : s.start < s.stop) : s.isEmpty = false :=
  beq_eq_false_iff_ne.mpr (Nat.ne_of_lt h)

/-- A span holds a row of tokens in order if it begins and ends with them. -/
theorem holds_of_inOrder {before after rest : List Token} {first : Token} {s : Span}
    (horder : InOrder (before ++ first :: rest ++ after)) (hstart : s.start = first.span.start)
    (hstop : s.stop = stopAfter first.span.stop rest) :
    s.Holds (before ++ first :: rest ++ after) (first :: rest) := by
  obtain ⟨hfront, -, hafter⟩ := List.pairwise_append.mp horder
  obtain ⟨-, hpart, hbefore⟩ := List.pairwise_append.mp hfront
  have hstop' : stopAfter 0 (first :: rest) = s.stop := by rw [hstop, stopAfter_cons]
  refine ⟨before, after, rfl, ?_, ?_, ?_⟩
  · intro t ht
    rw [hstart]
    exact hbefore t ht first List.mem_cons_self
  · intro t ht
    refine ⟨?_, hstop' ▸ stop_le_stopAfter 0 _ hpart t ht⟩
    rw [hstart]
    rcases List.mem_cons.mp ht with rfl | ht
    · exact Nat.le_refl _
    · exact Nat.le_trans first.span.start_le_stop (List.rel_of_pairwise_cons hpart ht)
  · intro t ht
    obtain ⟨last, hlast, hend⟩ := exists_stopAfter first rest
    rw [hstop, hend]
    exact hafter last (List.mem_append_right before hlast) t ht

namespace Grammar
variable {tokens after : List Token} {rules : List (Located Rule)} {tables : List (Located Table)}

/-- A rule ends with one of the tokens it was read from. -/
theorem exists_rule_stop {r : Located Rule} (h : IsRule tokens r) (horder : InOrder tokens) :
    ∃ last ∈ tokens, r.span.stop = last.span.stop := by
  obtain ⟨weight, taken, rfl, -⟩ := isRule_cons tokens r h
  obtain ⟨last, hlast, hstop⟩ := exists_stopAfter weight taken
  exact ⟨last, hlast, by rw [rule_stop h horder 0, stopAfter_cons, hstop]⟩

theorem rules_before (h : Lines tokens rules) (horder : InOrder tokens) (offset : Nat)
    (hoffset : ∀ t ∈ tokens, t.span.stop ≤ offset) : ∀ r ∈ rules, r.span.stop ≤ offset := by
  intro r hr
  obtain ⟨part, hpart, hrule⟩ := rules_of_lines h r hr
  obtain ⟨last, hlast, hstop⟩ := exists_rule_stop hrule (horder.sublist hpart.sublist)
  rw [hstop]
  exact hoffset last (hpart.subset hlast)

/-- Rules come one after the other, as their tokens do. -/
theorem rules_ordered (h : Lines tokens rules) (horder : InOrder tokens) :
    rules.Pairwise fun r r' => r.span.stop ≤ r'.span.start := by
  induction h with
  | nil => exact .nil
  | lineEnd _ _ ih => exact ih (List.pairwise_cons.mp horder).2
  | @rule first tokens r rules hfirst htail ih =>
    obtain ⟨hfirst', htail', hcross⟩ := List.pairwise_append.mp horder
    obtain ⟨last, hlast, hstop⟩ := exists_rule_stop hfirst hfirst'
    -- Every later rule begins at a token behind the last of this one.
    refine List.pairwise_cons.mpr ⟨?_, ih htail'⟩
    rw [hstop]
    exact rules_after tokens rules htail htail' _ (hcross last hlast)

/-- A table begins at its first token and ends with another. -/
theorem exists_table_bounds {table : Located Table} (h : IsTable tokens after table)
    (hafter : HeadIn [.hash] after) (horder : InOrder tokens) :
    (∃ first ∈ tokens, table.span.start = first.span.start) ∧
      ∃ last ∈ tokens, table.span.stop = last.span.stop := by
  obtain ⟨hash, kept, run, rfl, -, -, hstart, hstop⟩ := table_trimmed h hafter horder
  obtain ⟨last, hlast, hend⟩ := exists_stopAfter hash kept
  exact ⟨⟨hash, by simp, hstart⟩, last, List.mem_append_left _ hlast, hstop.trans hend⟩

theorem tables_after (h : Tables tokens tables) (horder : InOrder tokens) (offset : Nat)
    (hoffset : ∀ t ∈ tokens, offset ≤ t.span.start) :
    ∀ table ∈ tables, offset ≤ table.span.start := by
  intro table htable
  obtain ⟨before, first, after, rfl, -, hfirst, hafter⟩ := tables_part h table htable
  have hfirst' := (List.pairwise_append.mp (List.pairwise_append.mp horder).1).2.1
  obtain ⟨⟨t, ht, hstart⟩, -⟩ := exists_table_bounds hfirst hafter hfirst'
  rw [hstart]
  exact hoffset t (by simp [ht])

/-- So do tables. -/
theorem tables_ordered (h : Tables tokens tables) (horder : InOrder tokens) :
    tables.Pairwise fun table table' => table.span.stop ≤ table'.span.start := by
  induction h with
  | nil => exact .nil
  | @cons first tokens table tables hfirst htail ih =>
    obtain ⟨hfirst', htail', hcross⟩ := List.pairwise_append.mp horder
    obtain ⟨-, last, hlast, hstop⟩ :=
      exists_table_bounds hfirst (tables_head tokens tables htail) hfirst'
    refine List.pairwise_cons.mpr ⟨?_, ih htail'⟩
    rw [hstop]
    exact tables_after htail htail' _ (hcross last hlast)

/-- A list of flags ends with its bracket. -/
theorem last_of_flags (h : Flags tokens) :
    ∃ last, tokens.getLast? = some last ∧ last.kind = .rightBracket := by
  induction h with
  | last _ hclosing => exact ⟨_, rfl, hclosing⟩
  | more _ _ _ ih =>
    obtain ⟨last, hlast, hkind⟩ := ih
    exact ⟨last, by simp [List.getLast?_cons, hlast], hkind⟩

/-- A header ends with the name of the table or with the bracket behind its flags. -/
theorem last_of_header {id : String} {exported : Bool} (h : Header tokens id exported) :
    ∃ last, tokens.getLast? = some last ∧
      last.kind = if exported then .rightBracket else .identifier := by
  cases h with
  | plain _ hname => exact ⟨_, rfl, hname⟩
  | flagged _ _ _ hflags =>
    obtain ⟨last, hlast, hkind⟩ := last_of_flags hflags
    exact ⟨last, by simp [List.getLast?_cons, hlast], hkind⟩

/-- A table ends where its rules do, and before them where its header does. -/
theorem table_parts {table : Located Table} (h : IsTable tokens [] table)
    (horder : InOrder tokens) :
    ∃ header lines, tokens = header ++ lines ∧
      Header header table.value.id table.value.exported ∧ Lines lines table.value.rules ∧
      ∃ last, header.getLast? = some last ∧
        last.kind = (if table.value.exported then .rightBracket else .identifier) ∧
        table.span.stop = rulesStop last.span.stop table.value.rules := by
  obtain ⟨header, lines, id, exported, rules, rfl, hheader, -, hlines, rfl⟩ :=
    (isTable_iff _ _ _ (headIn_nil _)).mp h
  obtain ⟨last, hlast, hkind⟩ := last_of_header hheader
  obtain ⟨hash, name, flags, rfl, -⟩ := header_cons header id exported hheader
  refine ⟨_, lines, rfl, hheader, hlines, last, hlast, hkind, ?_⟩
  have hend : stopAfter hash.span.stop (name :: flags) = last.span.stop := by
    rw [← stopAfter_cons 0, stopAfter, hlast]
    rfl
  rw [← hend]
  exact (tableSpan_ends hash (name :: flags) lines rules hlines horder).2

end Grammar

section Stands
variable {pieces : List Piece} {mode : Mode} {last : Option TokenKind} {tokens : List Token}

/-- Of the tokens that were read, those of a rule stand in its span. -/
theorem ruleStands_of_isRule (hreads : Reads [] .declaration none pieces mode last)
    (horder : InOrder (tokensFrom 0 pieces ++ tokens)) {part : List Token} {r : Located Rule}
    (h : Grammar.IsRule part r) (hpart : part <:+: tokensFrom 0 pieces) :
    ∃ weight colon content,
      RuleStands (textOf pieces) (tokensFrom 0 pieces ++ tokens) r weight colon content := by
  obtain ⟨before, after, hsplit⟩ := hpart
  have hsound : Grammar.Sound part := by
    have hall := sound_of_reads hreads
    rw [← hsplit] at hall
    exact (Grammar.sound_of_append _ _ (Grammar.sound_of_append _ _ hall).1).2
  have hstop := Grammar.rule_stop h hsound.inOrder 0
  cases h with
  | @mk weight colon content items hnumber hcolon hcontent hne =>
    have hweight : weight ∈ tokensFrom 0 pieces := by rw [← hsplit]; simp
    have hstart := extent_start weight (colon :: content) hsound.inOrder
    have hholds : (extent (weight :: colon :: content)).Holds (tokensFrom 0 pieces ++ tokens)
        (weight :: colon :: content) := by
      rw [← hsplit, List.append_assoc] at horder ⊢
      exact holds_of_inOrder horder hstart (by rw [hstop, stopAfter_cons])
    have hlong : (extent (weight :: colon :: content)).start <
        (extent (weight :: colon :: content)).stop := by
      have hwithin := within_of_holds hholds weight List.mem_cons_self
      have hweight' := start_lt_stop_of_reads hreads hweight
      omega
    obtain ⟨w, hw⟩ := hsound.weights weight List.mem_cons_self hnumber
    obtain ⟨final, hfinal⟩ := Option.isSome_iff_exists.mp (List.getLast?_isSome.mpr hne)
    refine ⟨weight, colon, content, hholds, isEmpty_of_lt hlong, hstart, ?_, ⟨hnumber, ?_⟩,
      ?_, hcolon, hcontent, ?_, final, hfinal, Grammar.last_of_content hcontent final hfinal, ?_⟩
    · rw [hstart]
      exact digit_of_number hreads hweight hnumber
    · rw [Grammar.weightOf_eq weight w hw, hw]
    · rw [hstart]
      exact (weightOf_eq_literal hreads hweight hnumber).1
    · -- Neither kind is one of those that content is made of.
      intro t ht
      have hkind := Grammar.kind_of_content hcontent t ht
      constructor <;> (intro heq; rw [heq] at hkind; exact absurd hkind (by decide))
    · rw [hstop, stopAfter_cons, stopAfter_cons, stopAfter, hfinal]
      rfl

/-- The characters at the ends of a table are told by the kinds of its first and last tokens. -/
theorem tableStands_of_isTable (hreads : Reads [] .declaration none pieces mode last)
    (horder : InOrder (tokensFrom 0 pieces ++ tokens)) {before first after : List Token}
    {table : Located Table} (h : Grammar.IsTable first after table)
    (hafter : Grammar.HeadIn [.hash] after)
    (hsplit : tokensFrom 0 pieces = before ++ first ++ after) :
    ∃ header lines,
      TableStands (textOf pieces) (tokensFrom 0 pieces ++ tokens) table header lines := by
  have hfirst : InOrder first := by
    have hall := (List.pairwise_append.mp horder).1
    rw [hsplit] at hall
    exact (List.pairwise_append.mp (List.pairwise_append.mp hall).1).2.1
  obtain ⟨hash, kept, run, rfl, hhash, hkept, hstart, hstop⟩ :=
    Grammar.table_trimmed h hafter hfirst
  have hkeptOrder := (List.pairwise_append.mp hfirst).1
  obtain ⟨header, lines, hparts, hheader, hlines, hend⟩ := Grammar.table_parts hkept hkeptOrder
  have hholds : table.span.Holds (tokensFrom 0 pieces ++ tokens) (header ++ lines) := by
    have hwhole : tokensFrom 0 pieces ++ tokens =
        before ++ hash :: kept ++ (run ++ (after ++ tokens)) := by simp [hsplit]
    rw [hwhole] at horder ⊢
    rw [← hparts]
    exact holds_of_inOrder horder hstart hstop
  have hwithin := within_of_holds hholds
  have hmem : hash ∈ tokensFrom 0 pieces := by rw [hsplit]; simp
  have hlong := start_lt_stop_of_reads hreads hmem
  have hhashWithin := hwithin hash (hparts ▸ List.mem_cons_self)
  -- The rules are read from the lines, which are part of all the tokens.
  have hlinesOrder : InOrder lines := by
    rw [hparts] at hkeptOrder
    exact (List.pairwise_append.mp hkeptOrder).2.1
  have hlinesWithin := fun t ht => hwithin t (List.mem_append_right header ht)
  have hinfix : lines <:+: tokensFrom 0 pieces := by
    apply List.IsInfix.trans (List.suffix_append header lines).isInfix
    rw [← hparts, hsplit]
    exact ⟨before, run ++ after, by simp⟩
  refine ⟨header, lines, hholds, isEmpty_of_lt (by omega), ⟨hash, ?_, hhash, hstart⟩, ?_, hheader,
    hlines, hend, Grammar.rules_ordered hlines hlinesOrder, ?_, ?_⟩
  · obtain ⟨hash', name, flags, rfl, -⟩ := Grammar.header_cons _ _ _ hheader
    cases hparts
    rfl
  · rw [hstart]
    exact getElem_of_character hreads hmem (by rw [hhash]; rfl)
  · have hbefore := Grammar.rules_after lines _ hlines hlinesOrder _ fun t ht =>
      (hlinesWithin t ht).1
    have hbehind := Grammar.rules_before hlines hlinesOrder _ fun t ht => (hlinesWithin t ht).2
    exact fun r hr => ⟨hbefore r hr, hbehind r hr⟩
  · intro r hr
    obtain ⟨part, hpart, hrule⟩ := rules_of_lines hlines r hr
    exact ruleStands_of_isRule hreads horder hrule (hpart.trans hinfix)

end Stands

theorem lexeme_eq_textIn {source : List Char} {s : Scan} (h : scan source = .ok s) :
    ∀ t ∈ s.tokens, t.lexeme.toList = t.textIn source := by
  obtain ⟨words, htokens, hwords⟩ := words_of_tiles (tiles_of_scan source s h)
  intro t ht
  rw [htokens, List.mem_append, List.mem_singleton] at ht
  rcases ht with ht | rfl
  · obtain ⟨-, hkind, hlexeme⟩ := hwords t ht
    rw [Token.textIn, if_neg hkind, hlexeme]
  · rfl

namespace Program

/-- The spans of a program are laid out over the tokens of its source, each of which is the text at
its place. -/
theorem parse_isLaidOut (source : String) (p : Program) (h : parse source = .ok p) :
    ∃ s, scan source.toList = .ok s ∧
      (∀ t ∈ s.tokens, t.lexeme.toList = t.textIn source.toList) ∧
      p.IsLaidOut source.toList s.tokens := by
  obtain ⟨pieces, mode, last, htext, hreads, hp⟩ := (parse_eq_ok_iff source p).mp h
  have hscan := (scan_eq_ok_iff source.toList ⟨_, mode⟩).mpr ⟨pieces, last, htext, hreads, rfl⟩
  have horder := ordered_of_tiles (tiles_of_scan _ _ hscan)
  have hstands : ∀ table ∈ p.tables, ∃ header lines, TableStands source.toList
      (tokensFrom 0 pieces ++ [.endAt source.toList.length]) table header lines := by
    intro table htable
    obtain ⟨before, first, after, hsplit, -, hfirst, hafter⟩ :=
      Grammar.program_part hp table htable
    rw [← htext] at horder ⊢
    exact tableStands_of_isTable hreads horder hfirst hafter hsplit
  have htables : p.tables.Pairwise fun table table' => table.span.stop ≤ table'.span.start := by
    have horder' := (List.pairwise_append.mp horder).1
    generalize tokensFrom 0 pieces = tokens at hp horder'
    cases hp with
    | mk _ htables => exact Grammar.tables_ordered htables (List.pairwise_append.mp horder').2.1
  refine ⟨_, hscan, lexeme_eq_textIn hscan, htables, ?_, hstands⟩
  -- Rules of one table are in order there, and those of two are as far apart as the tables.
  refine List.pairwise_flatMap.mpr ⟨?_, ?_⟩
  · intro table htable
    obtain ⟨header, lines, hstand⟩ := hstands table htable
    exact hstand.ordered
  · apply List.Pairwise.imp_of_mem _ htables
    intro table table' htable htable' hapart r hr r' hr'
    obtain ⟨_, _, hstand⟩ := hstands table htable
    obtain ⟨_, _, hstand'⟩ := hstands table' htable'
    calc r.span.stop ≤ table.span.stop := (hstand.inside r hr).2
      _ ≤ table'.span.start := hapart
      _ ≤ r'.span.start := (hstand'.inside r' hr').1

def flaggedTables : String := "\n#a[export]//z\n1:x \x7bd6\x7d\n2:y\n#b"

theorem parse_flaggedTables : parse flaggedTables = .ok ⟨[
    ⟨⟨"a", true, [
      ⟨⟨Decimal.floatOfLiteral ['1'], [.text "x ", .dice ⟨none, 6⟩]⟩, ⟨15, 23, by decide⟩⟩,
      ⟨⟨Decimal.floatOfLiteral ['2'], [.text "y"]⟩, ⟨24, 27, by decide⟩⟩]⟩, ⟨1, 27, by decide⟩⟩,
    ⟨⟨"b", false, []⟩, ⟨28, 30, by decide⟩⟩]⟩ := by
  have hreads : Reads [] .declaration none [.token .newline ['\n'], .token .hash ['#'],
      .token .identifier ['a'], .token .leftBracket ['['], .token .exportWord "export".toList,
      .token .rightBracket [']'], .trivia ['/', '/', 'z'], .token .newline ['\n'],
      ⟨some .number, some (.weight (Decimal.floatOfLiteral ['1'])), ['1']⟩, .token .colon [':'],
      .token .text ['x', ' '], .token .leftBrace ['\x7b'],
      ⟨some .diceRoll, some (.dice ⟨none, 6⟩), ['d', '6']⟩, .token .rightBrace ['\x7d'],
      .token .newline ['\n'],
      ⟨some .number, some (.weight (Decimal.floatOfLiteral ['2'])), ['2']⟩, .token .colon [':'],
      .token .text ['y'], .token .newline ['\n'], .token .hash ['#'], .token .identifier ['b']]
      .declaration (some .identifier) := by
    repeat
      first
      | exact Reads.nil
      | refine Reads.cons ⟨_, _, rfl, rfl⟩ ?_
  have hflags : Grammar.Flags (tokensFrom 4 [.token .exportWord "export".toList,
      .token .rightBracket [']']]) := .last rfl rfl
  have hheader : Grammar.Header (tokensFrom 1 [.token .hash ['#'], .token .identifier ['a'],
      .token .leftBracket ['['], .token .exportWord "export".toList, .token .rightBracket [']']])
      "a" true := .flagged rfl rfl rfl hflags
  have hroll : Grammar.Content (tokensFrom 19 [.token .leftBrace ['\x7b'],
      ⟨some .diceRoll, some (.dice ⟨none, 6⟩), ['d', '6']⟩, .token .rightBrace ['\x7d']])
      [.dice ⟨none, 6⟩] :=
    @Grammar.Content.expression _ [_] _ [] _ [] rfl (.dice rfl) rfl .nil
  have hfirst : Grammar.IsRule (tokensFrom 15
      [⟨some .number, some (.weight (Decimal.floatOfLiteral ['1'])), ['1']⟩, .token .colon [':'],
        .token .text ['x', ' '], .token .leftBrace ['\x7b'],
        ⟨some .diceRoll, some (.dice ⟨none, 6⟩), ['d', '6']⟩, .token .rightBrace ['\x7d']])
      ⟨⟨Decimal.floatOfLiteral ['1'], [.text "x ", .dice ⟨none, 6⟩]⟩, ⟨15, 23, by decide⟩⟩ :=
    .mk rfl rfl (Grammar.content_text _ _ _ rfl hroll trivial) (List.cons_ne_nil _ _) (by decide)
  have hsecond : Grammar.IsRule (tokensFrom 24
      [⟨some .number, some (.weight (Decimal.floatOfLiteral ['2'])), ['2']⟩, .token .colon [':'],
        .token .text ['y']])
      ⟨⟨Decimal.floatOfLiteral ['2'], [.text "y"]⟩, ⟨24, 27, by decide⟩⟩ :=
    .mk rfl rfl (Grammar.content_text _ [] [] rfl .nil trivial) (List.cons_ne_nil _ _) (by decide)
  have hlineEnd (offset : Nat) : (⟨.newline, "\n", ⟨offset, offset + 1, by omega⟩, none⟩ :
      Token).kind = .newline := rfl
  have htable := @Grammar.IsTable.lines _ _ _ ⟨.newline, "\n", ⟨14, 15, by decide⟩, none⟩ _ _
    (tokensFrom 28 [.token .hash ['#'], .token .identifier ['b']]) hheader rfl
    (.rule hfirst (.lineEnd (hlineEnd 23) (.rule hsecond (.lineEnd (hlineEnd 27) .nil))))
  have hbare : Grammar.Header (tokensFrom 28 [.token .hash ['#'], .token .identifier ['b']])
      "b" false := .plain rfl rfl
  have htail := Grammar.Tables.cons (.bare hbare) .nil
  rw [List.append_nil] at htail
  have htables := Grammar.Tables.cons htable htail
  exact (parse_eq_ok_iff _ _).mpr ⟨_, _, _, rfl, hreads,
    @Grammar.IsProgram.mk [_] _ _ (by decide) htables (List.cons_ne_nil _ _)⟩

/-- The second table has no rules, and ends with its name. -/
theorem parse_isLaidOut_flaggedTables : ∃ p, parse flaggedTables = .ok p ∧
    ∃ s, scan flaggedTables.toList = .ok s ∧
      (∀ t ∈ s.tokens, t.lexeme.toList = t.textIn flaggedTables.toList) ∧
      p.IsLaidOut flaggedTables.toList s.tokens :=
  ⟨_, parse_flaggedTables, parse_isLaidOut flaggedTables _ parse_flaggedTables⟩

end Program

end RandomTables
