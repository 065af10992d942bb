import RandomTables.Proofs.Program.Printing

namespace RandomTables
open Text (Stops)

section Reading
variable {after : List Char} {last : Option TokenKind}

theorem stops_modifiers (modifiers : List String) (after : List Char)
    (h : Stops Text.continuesName after) :
    Stops Text.continuesName (textOf (modifierPieces modifiers) ++ after) := by
  cases modifiers with
  | nil => exact h
  | cons m modifiers => exact stops_mark '|' _ (by simp)

theorem takes_expressionMark {rest : List Char} (c : Char) (kind : TokenKind)
    (hmark : expressionMark? c = some kind) (hcomment : c ≠ '/') :
    Takes .expression last (.token kind [c]) .expression rest :=
  takes_of_lexes (.sign hmark (startsComment_of_ne c rest hcomment))

/-- Each name ends at the next bar, or at the brace. -/
theorem reads_modifiers (modifiers : List String)
    (h : ∀ m ∈ modifiers, Modifier.isName m = true) (hafter : Stops Text.continuesName after) :
    ∃ last', Reads after .expression last (modifierPieces modifiers) .expression last' := by
  induction modifiers generalizing last with
  | nil => exact ⟨last, .nil⟩
  | cons m modifiers ih =>
    obtain ⟨hm, hmodifiers⟩ := List.forall_mem_cons.mp h
    obtain ⟨last', htail⟩ := ih hmodifiers
    refine ⟨last', .cons (takes_expressionMark '|' .pipe rfl (by decide)) (.cons ?_ htail)⟩
    exact takes_modifier m hm (stops_modifiers modifiers after hafter)

theorem reads_table (id : String) (modifiers : List String) (hid : IsName id.toList)
    (h : ∀ m ∈ modifiers, Modifier.isName m = true) (hafter : Stops Text.continuesName after) :
    ∃ last', Reads after .expression last (tablePieces id modifiers) .expression last' := by
  obtain ⟨last', htail⟩ := reads_modifiers modifiers h hafter
  refine ⟨last', .cons (takes_expressionMark '#' .hash rfl (by decide)) (.cons ?_ htail)⟩
  exact takes_identifier (some .hash) rfl nofun id hid (stops_modifiers modifiers after hafter)

/-- No comment opens at the slash, since a name begins with a letter. -/
theorem startsComment_slash_name (name rest : List Char) (h : IsName name) :
    startsComment ('/' :: (name ++ rest)) = false := by
  obtain ⟨c, tail, rfl, hletter, -⟩ := h
  have hslash : c ≠ '/' := Text.ne_of_property Text.isLetter c '/' hletter (by decide)
  have hstar : c ≠ '*' := Text.ne_of_property Text.isLetter c '*' hletter (by decide)
  simp [startsComment, hslash, hstar]

theorem reads_external (publisher collection id : String) (modifiers : List String)
    (hpublisher : IsName publisher.toList) (hcollection : IsName collection.toList)
    (hid : IsName id.toList) (h : ∀ m ∈ modifiers, Modifier.isName m = true)
    (hafter : Stops Text.continuesName after) :
    ∃ last', Reads after .expression last
      (externalPieces publisher collection ++ tablePieces id modifiers) .expression last' := by
  obtain ⟨last', htable⟩ : ∃ last', Reads after .expression (some .identifier)
      (tablePieces id modifiers) .expression last' := reads_table id modifiers hid h hafter
  have hname₁ (rest : List Char) := takes_identifier (some .atSign) rfl nofun publisher
    hpublisher (stops_mark '/' rest (by simp))
  have hname₂ (rest : List Char) := takes_identifier (some .slash) rfl nofun collection
    hcollection (stops_mark '#' rest (by simp))
  have hslash : Takes .expression (some .identifier) (.token .slash ['/']) .expression
      (collection.toList ++ (textOf (tablePieces id modifiers) ++ after)) :=
    takes_of_lexes (.sign rfl (startsComment_slash_name _ _ hcollection))
  rw [← List.append_assoc] at hslash
  exact ⟨last', .cons (takes_expressionMark '@' .atSign rfl (by decide))
    (.cons (hname₁ _) (.cons hslash (.cons (hname₂ _) htable)))⟩

/-- The braces lead into an expression and out of it. -/
theorem reads_braced (inner : List Piece) (last' : Option TokenKind)
    (h : Reads ('\x7d' :: after) .expression (some .leftBrace) inner .expression last') :
    Reads after .ruleContent last (bracedPieces inner) .ruleContent (some .rightBrace) := by
  have hclosing : Reads after .expression last' [.token .rightBrace ['\x7d']] .ruleContent
      (some .rightBrace) := .cons (takes_of_lexes .closeBrace) .nil
  refine .cons (takes_of_lexes .openBrace) (reads_append ?_ hclosing)
  simpa [Piece.token] using h

/-- A text needs what follows it to end it, and an expression needs nothing. -/
theorem reads_item (item : Item) (h : item.IsWritable)
    (hafter : item.isExpression = true ∨ after = [] ∨ after.head? = some '\x7b') :
    ∃ last', Reads after .ruleContent last item.pieces .ruleContent last' := by
  have hmark : Stops Text.continuesName ('\x7d' :: after) := stops_mark '\x7d' _ (by simp)
  cases h with
  | @text s hplain =>
    have hafter : after = [] ∨ after.head? = some '\x7b' := by
      rcases hafter with hafter | hafter
      · cases hafter
      · exact hafter
    -- A brace or the end of input ends the text whatever its last character is.
    have hends : EndsText s.toList after := by
      constructor
      · intro _
        rcases hafter with rfl | hhead
        · nofun
        · simp [hhead]
      · rcases hafter with rfl | hhead
        · exact .inl rfl
        · exact .inr (.inl hhead)
    exact ⟨_, .cons (takes_of_lexes (.text hplain hends)) .nil⟩
  | table hid hmodifiers =>
    obtain ⟨last', hinner⟩ := reads_table _ _ hid hmodifiers hmark
    exact ⟨_, reads_braced _ last' hinner⟩
  | external hpublisher hcollection hid hmodifiers =>
    obtain ⟨last', hinner⟩ :=
      reads_external _ _ _ _ hpublisher hcollection hid hmodifiers hmark
    exact ⟨_, reads_braced _ last' hinner⟩
  | @dice d hd =>
    have hword : Stops Text.continuesWord ('\x7d' :: after) :=
      Text.stops_mono _ _ _ Text.continuesName_of_continuesWord hmark
    exact ⟨_, reads_braced _ _ (.cons (takes_printDice d hd _ hword) .nil)⟩

theorem head_of_contentPieces (item : Item) (content : List Item) (h : item.isExpression = true) :
    (textOf ((item :: content).flatMap Item.pieces)).head? = some '\x7b' := by
  cases item with
  | text => cases h
  | _ => simp [Item.pieces, textOf_bracedPieces]

/-- By induction on the items: next to a text stands an expression. -/
theorem reads_content (content : List Item) (hwritable : ∀ item ∈ content, item.IsWritable)
    (hapart : content.IsChain ItemsApart) :
    ∃ last', Reads [] .ruleContent last (content.flatMap Item.pieces) .ruleContent last' := by
  induction content generalizing last with
  | nil => exact ⟨last, .nil⟩
  | cons item content ih =>
    obtain ⟨hitem, hcontent⟩ := List.forall_mem_cons.mp hwritable
    obtain ⟨hnext, hapart⟩ := List.isChain_cons.mp hapart
    have hafter : item.isExpression = true ∨ textOf (content.flatMap Item.pieces) ++ [] = [] ∨
        (textOf (content.flatMap Item.pieces) ++ []).head? = some '\x7b' := by
      cases content with
      | nil => exact .inr (.inl rfl)
      | cons next content =>
        rcases hnext next rfl with hitem | hnext
        · exact .inl hitem
        · rw [List.append_nil]
          exact .inr (.inr (head_of_contentPieces next content hnext))
    obtain ⟨last₁, hfirst⟩ := reads_item item hitem hafter
    obtain ⟨last₂, hrest⟩ := ih hcontent hapart
    exact ⟨last₂, reads_append hfirst hrest⟩

end Reading

theorem tokensFrom_token (offset : Nat) (kind : TokenKind) (text : List Char)
    (pieces : List Piece) :
    tokensFrom offset (.token kind text :: pieces) =
      ⟨kind, String.ofList text, ⟨offset, offset + text.length, by omega⟩, none⟩ ::
        tokensFrom (offset + text.length) pieces := rfl

theorem modifiers_tokensFrom (modifiers : List String) (offset : Nat) :
    Grammar.Modifiers (tokensFrom offset (modifierPieces modifiers)) modifiers := by
  induction modifiers generalizing offset with
  | nil => exact .nil
  | cons m modifiers ih =>
    change Grammar.Modifiers (tokensFrom offset
      (.token .pipe ['|'] :: .token .modifier m.toList :: modifierPieces modifiers)) _
    rw [tokensFrom_token, tokensFrom_token, String.ofList_toList]
    exact .cons rfl rfl (ih _)

theorem content_bracedPieces (inner pieces : List Piece) (item : Item) (items : List Item)
    (hinner : ∀ offset, Grammar.Braced (tokensFrom offset inner) item)
    (hpieces : ∀ offset, Grammar.Content (tokensFrom offset pieces) items) (offset : Nat) :
    Grammar.Content (tokensFrom offset (bracedPieces inner ++ pieces)) (item :: items) := by
  rw [bracedPieces, List.cons_append, tokensFrom_token, List.append_assoc, List.singleton_append,
    tokensFrom_append, tokensFrom_token]
  exact .expression rfl (hinner _) rfl (hpieces _)

theorem braced_table (id : String) (modifiers : List String) (offset : Nat) :
    Grammar.Braced (tokensFrom offset (tablePieces id modifiers)) (.table id modifiers) := by
  rw [tablePieces, tokensFrom_token, tokensFrom_token, String.ofList_toList]
  exact .table rfl rfl (modifiers_tokensFrom modifiers _)

theorem braced_external (publisher collection id : String) (modifiers : List String)
    (offset : Nat) :
    Grammar.Braced
      (tokensFrom offset (externalPieces publisher collection ++ tablePieces id modifiers))
      (.external publisher collection id modifiers) := by
  simp only [externalPieces, tablePieces, List.cons_append, List.nil_append, tokensFrom_token,
    String.ofList_toList]
  exact .external rfl rfl rfl rfl rfl rfl (modifiers_tokensFrom modifiers _)

theorem braced_dice (d : Dice) (offset : Nat) :
    Grammar.Braced (tokensFrom offset [⟨some .diceRoll, some (.dice d), d.print.toList⟩])
      (.dice d) :=
  @Grammar.Braced.dice ⟨.diceRoll, _, _, some (.dice d)⟩ rfl

/-- By induction on the items, whose tokens derive them one by one. -/
theorem content_tokensFrom (content : List Item) (hapart : content.IsChain ItemsApart)
    (offset : Nat) :
    Grammar.Content (tokensFrom offset (content.flatMap Item.pieces)) content := by
  induction content generalizing offset with
  | nil => exact .nil
  | cons item content ih =>
    obtain ⟨hnext, hapart⟩ := List.isChain_cons.mp hapart
    have htail := ih hapart
    rw [List.flatMap_cons]
    cases item with
    | text s =>
      have hfirst : Grammar.NoTextFirst content := by
        cases content with
        | nil => trivial
        | cons next content =>
          rcases hnext next rfl with htext | hexpression
          · cases htext
          · cases next with
            | text => cases hexpression
            | _ => trivial
      rw [Item.pieces, List.singleton_append, tokensFrom_token, String.ofList_toList]
      exact Grammar.content_text _ _ _ rfl (htail _) hfirst
    | table id modifiers => exact content_bracedPieces _ _ _ _ (braced_table id modifiers) htail _
    | external publisher collection id modifiers =>
      exact content_bracedPieces _ _ _ _ (braced_external publisher collection id modifiers) htail _
    | dice d => exact content_bracedPieces _ _ _ _ (braced_dice d) htail _

def ruleSource (content : List Item) : String :=
  "#t\n1:" ++ String.join (content.map Item.print)

def rulePieces : List Piece :=
  [.token .hash ['#'], .token .identifier ['t'], .token .newline ['\n'],
    ⟨some .number, some (.weight (Decimal.floatOfLiteral ['1'])), ['1']⟩, .token .colon [':']]

theorem reads_rulePieces (after : List Char) :
    Reads after .declaration none rulePieces .ruleContent (some .colon) := by
  have hnumber : Takes .declaration (some .newline)
      ⟨some .number, some (.weight (Decimal.floatOfLiteral ['1'])), ['1']⟩ .declaration
      (':' :: after) :=
    takes_of_lexes (@Lexes.number _ '1' [] [] _ rfl nofun (.inl rfl)
      ((Text.stops_cons _ _ _).mpr (by decide)) (by decide))
  exact .cons ⟨_, _, rfl, rfl⟩ (.cons ⟨_, _, rfl, rfl⟩ (.cons ⟨_, _, rfl, rfl⟩
    (.cons hnumber (.cons ⟨_, _, rfl, rfl⟩ .nil))))

/-- One table of one rule derives a program. -/
theorem isProgram_rulePieces (content : List Item) (h : WellFormed content) :
    ∃ ruleSpan tableSpan,
      Grammar.IsProgram (tokensFrom 0 (rulePieces ++ content.flatMap Item.pieces))
        ⟨[⟨⟨"t", false, [⟨⟨Decimal.floatOfLiteral ['1'], content⟩, ruleSpan⟩]⟩, tableSpan⟩]⟩ := by
  have hcontent := content_tokensFrom content h.apart 5
  have hblank := Grammar.all_isBlank_iff _ _ ((Grammar.content_iff_grown _ _).mp hcontent)
  rw [List.all_eq_true] at hblank
  have hvisible := fun hall => h.visible (hblank.mpr hall)
  have hne : tokensFrom 5 (content.flatMap Item.pieces) ≠ [] := by
    intro hnil
    rw [hnil] at hvisible
    exact hvisible nofun
  have hrule := @Grammar.IsRule.mk
    ⟨.number, "1", ⟨3, 4, by decide⟩, some (.weight (Decimal.floatOfLiteral ['1']))⟩
    ⟨.colon, ":", ⟨4, 5, by decide⟩, none⟩ _ _ rfl rfl hcontent hne hvisible
  have hlines := Grammar.Lines.rule hrule .nil
  have htable := @Grammar.IsTable.lines [⟨.hash, "#", ⟨0, 1, by decide⟩, none⟩,
    ⟨.identifier, "t", ⟨1, 2, by decide⟩, none⟩] _ _ ⟨.newline, "\n", ⟨2, 3, by decide⟩, none⟩
    _ _ [] (.plain rfl rfl) rfl hlines
  have htables := Grammar.Tables.cons htable .nil
  rw [List.append_nil, List.append_nil] at htables
  exact ⟨_, _, @Grammar.IsProgram.mk [] _ _ nofun htables (List.cons_ne_nil _ _)⟩

/-- Content that rules can have is read back from its source form. -/
theorem parse_ruleSource (content : List Item) (h : WellFormed content) :
    ∃ ruleSpan tableSpan, Program.parse (ruleSource content) = .ok
      ⟨[⟨⟨"t", false, [⟨⟨Decimal.floatOfLiteral ['1'], content⟩, ruleSpan⟩]⟩, tableSpan⟩]⟩ := by
  obtain ⟨last, hcontent⟩ := reads_content content h.writable h.apart
  have hreads := reads_append (reads_rulePieces _) hcontent
  have htext : textOf (rulePieces ++ content.flatMap Item.pieces) =
      (ruleSource content).toList := by
    rw [textOf_append, textOf_contentPieces, ruleSource, String.toList_append]
    rfl
  obtain ⟨ruleSpan, tableSpan, hp⟩ := isProgram_rulePieces content h
  exact ⟨ruleSpan, tableSpan, (Program.parse_eq_ok_iff _ _).mpr ⟨_, _, _, htext, hreads, hp⟩⟩

/-- What was written out is read back, and what is read could have been written out: contents that
are well-formed come back from their source form, and no source gives a rule any other content. -/
theorem wellFormed_roundTrip :
    (∀ content, WellFormed content → ∃ ruleSpan tableSpan,
      Program.parse (ruleSource content) = .ok ⟨[⟨⟨"t", false,
        [⟨⟨Decimal.floatOfLiteral ['1'], content⟩, ruleSpan⟩]⟩, tableSpan⟩]⟩) ∧
    (∀ source p, Program.parse source = .ok p →
      ∀ table ∈ p.tables, ∀ r ∈ table.value.rules, WellFormed r.value.content) :=
  ⟨parse_ruleSource, wellFormed_of_parse⟩

/-- Slashes at the end of a text, names that look like dice, and a text of one blank. -/
theorem wellFormed_roundTrip_slashes :
    WellFormed [.text "x//y /", .table "d6" ["definite"], .external "p" "c-1" "d4" [],
      .dice ⟨some 2, 6⟩, .text " "] ∧
    ∃ p, Program.parse (ruleSource [.text "x//y /", .table "d6" ["definite"],
        .external "p" "c-1" "d4" [], .dice ⟨some 2, 6⟩, .text " "]) = .ok p ∧
      ∀ table ∈ p.tables, ∀ r ∈ table.value.rules, WellFormed r.value.content := by
  have hslashes : IsPlain "x//y /".toList :=
    (plain_of_textRun 'x' "//y /".toList [] (by decide) (by decide) rfl rfl rfl).1
  have hblank : IsPlain " ".toList :=
    (plain_of_textRun ' ' [] [] (by decide) (by decide) rfl rfl rfl).1
  have hname (s : String) (h : s ∈ ["d6", "p", "c-1", "d4"]) : IsName s.toList := by
    simp only [List.mem_cons, List.not_mem_nil, or_false] at h
    rcases h with rfl | rfl | rfl | rfl <;> exact (isName_cons _ _).mpr (by decide)
  have hwell : WellFormed [.text "x//y /", .table "d6" ["definite"], .external "p" "c-1" "d4" [],
      .dice ⟨some 2, 6⟩, .text " "] := by
    constructor
    · exact List.cons_ne_nil _ _
    · exact fun hall => absurd (hall (.dice ⟨some 2, 6⟩) (by simp)) (by decide)
    · simp [ItemsApart, Item.isExpression]
    · simp only [List.forall_mem_cons]
      refine ⟨.text hslashes, .table (hname _ (by simp)) (by decide), .external (hname _ (by simp))
        (hname _ (by simp)) (hname _ (by simp)) nofun, .dice ⟨by decide, ?_⟩, .text hblank, nofun⟩
      intro n hn
      obtain rfl := Option.some.inj hn
      decide
  obtain ⟨ruleSpan, tableSpan, hp⟩ := wellFormed_roundTrip.1 _ hwell
  exact ⟨hwell, _, hp, wellFormed_roundTrip.2 _ _ hp⟩

end RandomTables
