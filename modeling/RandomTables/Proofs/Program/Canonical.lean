import RandomTables.Proofs.Program.RoundTrip
import RandomTables.Proofs.Program.Slashes

namespace RandomTables
open Text (isBlank HasVisible IsTrimmed)

/-- Where a comment opens, the scanner takes one. -/
theorem comment_of_startsComment {mode next : Mode} {last : Option TokenKind} {piece : Piece}
    {rest : List Char} (h : Takes mode last piece next rest)
    (hstart : startsComment (piece.text ++ rest) = true) :
    piece.kind = none ∧ '/' ∈ piece.text := by
  obtain ⟨c, tail, htext, hstep⟩ := h
  rw [htext, List.cons_append] at hstart
  obtain ⟨rfl, hnext⟩ := (startsComment_cons c _).mp hstart
  rw [step_of_comment mode last _ hnext, stepComment] at hstep
  refine ⟨?_, htext ▸ List.mem_cons_self⟩
  split at hstep
  · injection hstep with hbite
    injection hbite with hkind
    exact hkind.symm
  · split at hstep
    · injection hstep with hbite
      injection hbite with hkind
      exact hkind.symm
    · cases hstep

/-- With a comment behind it, the space is a text of its own. -/
theorem reads_space_before_comment {rest : List Char} (h : startsComment rest = true) :
    Reads rest .ruleContent (some .colon) [.token .text [' ']] .ruleContent (some .text) := by
  have hplain : IsPlain [' '] :=
    (plain_of_textRun ' ' [] [] (by decide) (by decide) rfl rfl rfl).1
  have hends : EndsText [' '] rest :=
    ⟨by simp, .inr (.inr (.inr (.inr ⟨h, ' ', rfl, rfl⟩)))⟩
  exact .cons (takes_of_lexes (.text hplain hends)) .nil

/-- After the space the scanner takes a comment, so that the slash which opens it is in no token. -/
theorem slashes_lt_of_comment {pieces : List Piece} {mode : Mode} {last : Option TokenKind}
    {rest : List Char} (hcomment : startsComment rest = true)
    (hreads : Reads [] .declaration none pieces mode last)
    (htext : textOf pieces = "#t\n1: ".toList ++ rest) :
    slashes (tokensFrom 0 pieces) < rest.count '/' := by
  have hfront := reads_append (reads_rulePieces _) (reads_space_before_comment hcomment)
  have hprefix : textOf (rulePieces ++ [.token .text [' ']]) = "#t\n1: ".toList := rfl
  rw [← hprefix] at htext
  obtain ⟨back, rfl, hback, hreadsBack⟩ := reads_split hfront hreads htext
  cases hreadsBack with
  | nil =>
    rw [← hback] at hcomment
    cases hcomment
  | @cons _ _ piece back _ _ _ htakes =>
    rw [textOf_cons] at hback
    obtain ⟨hkind, hslash⟩ := comment_of_startsComment htakes (by rwa [List.append_nil, hback])
    have hfrontSlashes : slashes (tokensFrom 0 (rulePieces ++ [.token .text [' ']])) = 0 := rfl
    have hbackSlashes := slashes_tokensFrom_le
      (0 + (textOf (rulePieces ++ [.token .text [' ']])).length + piece.text.length) back
    have hpiece : 0 < piece.text.count '/' := List.count_pos_iff.mpr hslash
    have htoken : (piece.tokenAt
        (0 + (textOf (rulePieces ++ [.token .text [' ']])).length)).toList = [] := by
      rw [Piece.tokenAt, hkind]
      rfl
    rw [tokensFrom_append, slashes_append, hfrontSlashes, tokensFrom, htoken, List.nil_append,
      ← hback, List.count_append]
    omega

namespace Rule

def canonicalSource (r : Rule) : String :=
  "#t\n1: " ++ r.contentText

/-- The content text is read back: as one table of one rule with the same content text and the same
expressions. -/
def ComesBack (r : Rule) : Prop :=
  ∃ table back, Program.parse r.canonicalSource = .ok ⟨[table]⟩ ∧ table.value.rules = [back] ∧
    back.value.contentText = r.contentText ∧ back.value.expressions = r.expressions

theorem toList_contentText (r : Rule) : r.contentText.toList = Text.trim (printed r.content) := by
  rw [contentText, Text.strip, String.toList_ofList, toList_join_print]

/-- The content text of a rule, after a space, is the source form of content with the same
expressions. -/
theorem exists_canonical {r : Rule} (h : WellFormed r.content)
    (hcomment : startsComment r.contentText.toList = false) :
    ∃ content, WellFormed content ∧ printed content = ' ' :: r.contentText.toList ∧
      content.filter Item.isExpression = r.expressions := by
  have hvisible := (hasVisible_printed_iff r.content).mpr h.visible
  obtain ⟨left, middle, right, hprint, hleft, hmiddle, hright⟩ := Text.exists_isTrimmed hvisible
  have htext : r.contentText.toList = middle := by
    rw [toList_contentText, hprint, Text.trim_append hleft hmiddle hright]
  rw [htext] at hcomment ⊢
  have hfront : HasVisible (left ++ middle) :=
    (Text.hasVisible_append _ _).mpr (.inr hmiddle.hasVisible)
  rw [← List.append_assoc] at hprint
  obtain ⟨content₁, hwell₁, hprint₁, hsame₁⟩ := exists_trimmedRight h hprint hfront hright
  obtain ⟨content₂, hwell₂, hprint₂, hsame₂⟩ :=
    exists_spaceFirst hwell₁ hprint₁ hmiddle.hasVisible hleft hcomment
  exact ⟨content₂, hwell₂, hprint₂, hsame₂.trans hsame₁⟩

/-- Without a comment at its start, what stands behind the space is the source form of content
again. -/
theorem comesBack_of_noComment {r : Rule} (h : WellFormed r.content)
    (hcomment : startsComment r.contentText.toList = false) : r.ComesBack := by
  obtain ⟨content, hwell, hprint, hsame⟩ := exists_canonical h hcomment
  obtain ⟨ruleSpan, tableSpan, hparse⟩ := parse_ruleSource content hwell
  have hsource : ruleSource content = r.canonicalSource := by
    rw [← String.toList_inj, ruleSource, canonicalSource, String.toList_append,
      String.toList_append, toList_join_print, hprint]
    rfl
  have htrimmed : IsTrimmed r.contentText.toList := by
    rw [toList_contentText]
    exact Text.isTrimmed_trim ((hasVisible_printed_iff r.content).mpr h.visible)
  rw [hsource] at hparse
  refine ⟨_, _, hparse, rfl, ?_, hsame⟩
  have hblank : ∀ c ∈ [' '], isBlank c = true := List.forall_mem_singleton.mpr rfl
  have htrim := @Text.trim_append _ [' '] [] hblank htrimmed (List.forall_mem_nil _)
  rw [← String.toList_inj, toList_contentText]
  rw [List.append_nil] at htrim
  exact (congrArg Text.trim hprint).trans htrim

/-- The comment takes slashes with it, of which what was read has too few then. -/
theorem not_comesBack_of_comment {r : Rule} (hcomment : startsComment r.contentText.toList = true) :
    ¬r.ComesBack := by
  rintro ⟨table, back, hparse, hrules, htext, -⟩
  obtain ⟨pieces, mode, last, hsource, hreads, hp⟩ := (Program.parse_eq_ok_iff _ _).mp hparse
  rw [canonicalSource, String.toList_append] at hsource
  have hless := slashes_lt_of_comment hcomment hreads hsource
  have hslash := lexeme_of_slash hreads 0
  generalize tokensFrom 0 pieces = tokens at hp hless hslash
  cases hp with
  | @mk lineEnds tokens _ _ htables =>
    have hback : back ∈ table.value.rules := hrules ▸ List.mem_singleton_self back
    obtain ⟨part, hpart, hrule⟩ := rules_of_tables htables table (List.mem_singleton_self table)
      back hback
    cases hrule with
    | @mk weight colon content items _ _ hcontent =>
      -- The content text that came back has no more slashes than the tokens.
      have hwithin : content <:+: lineEnds ++ tokens :=
        ((List.suffix_append [weight, colon] content).isInfix.trans hpart).trans
          (List.suffix_append lineEnds tokens).isInfix
      have hprinted := Grammar.count_printed_le hcontent fun t ht => hslash t (hwithin.subset ht)
      have hcontentText := congrArg (List.count '/') (congrArg String.toList htext)
      rw [toList_contentText] at hcontentText
      have htrimmed := (Text.trim_sublist (printed items)).count_le '/'
      have hwhole := slashes_le_of_infix hwithin
      dsimp only at hcontentText
      omega

end Rule

/-- The content text of a rule that was read from a source is read back as a rule with the same
content text and the same expressions, unless a comment opens at its start. -/
theorem comesBack_iff (source : String) (p : Program) (h : Program.parse source = .ok p) :
    ∀ table ∈ p.tables, ∀ r ∈ table.value.rules,
      r.value.ComesBack ↔ startsComment r.value.contentText.toList = false := by
  intro table htable r hr
  constructor
  · intro hback
    refine Bool.eq_false_iff.mpr fun hcomment => ?_
    exact Rule.not_comesBack_of_comment hcomment hback
  · exact Rule.comesBack_of_noComment (wellFormed_of_parse source p h table htable r hr)

/-- The blanks at both ends are trimmed away, and the slash before the dice opens no comment. -/
theorem comesBack_iff_paddedRoll :
    ∃ p table r, Program.parse (ruleSource [.text "\u00a0a /", .dice ⟨some 2, 6⟩, .text "\t"]) =
        .ok p ∧ table ∈ p.tables ∧ r ∈ table.value.rules ∧ r.value.ComesBack := by
  have hplain : IsPlain "\u00a0a /".toList :=
    (plain_of_textRun '\u00a0' "a /".toList [] (by decide) (by decide) rfl rfl rfl).1
  have hblank : IsPlain "\t".toList :=
    (plain_of_textRun '\t' [] [] (by decide) (by decide) rfl rfl rfl).1
  have hwell : WellFormed [.text "\u00a0a /", .dice ⟨some 2, 6⟩, .text "\t"] := by
    constructor
    · exact List.cons_ne_nil _ _
    · exact fun hall => absurd (hall _ List.mem_cons_self) (by decide)
    · simp [ItemsApart, Item.isExpression]
    · simp only [List.forall_mem_cons]
      refine ⟨.text hplain, .dice ⟨by decide, ?_⟩, .text hblank, List.forall_mem_nil _⟩
      intro n hn
      obtain rfl := Option.some.inj hn
      decide
  obtain ⟨ruleSpan, tableSpan, hparse⟩ := parse_ruleSource _ hwell
  refine ⟨_, _, _, hparse, List.mem_singleton_self _, List.mem_singleton_self _, ?_⟩
  apply (comesBack_iff _ _ hparse _ (List.mem_singleton_self _) _ (List.mem_singleton_self _)).mpr
  rw [Rule.toList_contentText]
  change startsComment (Text.trim (printed
    [.text "\u00a0a /", .dice ⟨some 2, 6⟩, .text "\t"])) = false
  decide

def slashesAfterBlank : List Item :=
  [.text "\u00a0// x"]

theorem wellFormed_slashesAfterBlank : WellFormed slashesAfterBlank := by
  have hplain : IsPlain "\u00a0// x".toList :=
    (plain_of_textRun '\u00a0' "// x".toList [] (by decide) (by decide) rfl rfl rfl).1
  constructor
  · exact List.cons_ne_nil _ _
  · exact fun hall => absurd (hall _ List.mem_cons_self) (by decide)
  · exact List.isChain_singleton _
  · exact List.forall_mem_singleton.mpr (.text hplain)

/-- The blank that keeps the comment from opening is trimmed away, and in the source made of the
content text all of it is a comment. -/
theorem not_comesBack_slashesAfterBlank :
    ∃ p table r, Program.parse (ruleSource slashesAfterBlank) = .ok p ∧ table ∈ p.tables ∧
      r ∈ table.value.rules ∧ r.value.contentText = "// x" ∧ ¬r.value.ComesBack := by
  obtain ⟨ruleSpan, tableSpan, hparse⟩ := parse_ruleSource _ wellFormed_slashesAfterBlank
  have htext (weight : Float) : (Rule.mk weight slashesAfterBlank).contentText = "// x" := by
    rw [← String.toList_inj, Rule.toList_contentText]
    change Text.trim (printed slashesAfterBlank) = "// x".toList
    decide
  refine ⟨_, _, _, hparse, List.mem_singleton_self _, List.mem_singleton_self _, htext _, ?_⟩
  apply Rule.not_comesBack_of_comment
  rw [htext]
  decide

end RandomTables
