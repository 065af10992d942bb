import RandomTables.Proofs.Token.Tiling

namespace RandomTables
open Text (Stops)

def IsName (s : List Char) : Prop :=
  ∃ c tail, s = c :: tail ∧ Text.isLetter c = true ∧ ∀ d ∈ tail, Text.continuesName d = true

structure Dice.InBounds (d : Dice) : Prop where
  sides : 1 ≤ d.sides ∧ d.sides ≤ maxDice
  count : ∀ n, d.count = some n → 1 ≤ n ∧ n ≤ maxDice

structure Token.Shape (t : Token) : Prop where
  number : t.kind = .number → ∃ w, t.value = some (.weight w)
  dice : t.kind = .diceRoll → ∃ d, t.value = some (.dice d) ∧ d.InBounds
  text : t.kind = .text → IsPlain t.lexeme.toList
  name : t.kind = .identifier → IsName t.lexeme.toList
  modifier : t.kind = .modifier → Modifier.isName t.lexeme = true

def TextsApart (t u : Token) : Prop :=
  t.kind = .text → u.kind = .text → EndsBlank t.lexeme.toList

theorem isName_cons (c : Char) (tail : List Char) :
    IsName (c :: tail) ↔ Text.isLetter c = true ∧ tail.all Text.continuesName = true := by
  rw [List.all_eq_true]
  constructor
  · intro h
    obtain ⟨d, rest, hsplit, hletter, htail⟩ := h
    obtain ⟨rfl, rfl⟩ := List.cons_eq_cons.mp hsplit
    exact ⟨hletter, htail⟩
  · intro h
    exact ⟨c, tail, rfl, h⟩

/-- What is read as dice was checked against the bounds. -/
theorem inBounds_of_readDice (count sides : List Char) (d : Dice)
    (h : readDice count sides = .ok d) : d.InBounds := by
  simp only [readDice] at h
  split at h
  · cases h
  split at h
  · cases h
  split at h
  · cases h
  split at h
  · cases h
  rename_i hsides hcount hmaxSides hmaxCount
  cases h
  constructor
  · dsimp only
    omega
  · intro n hn
    dsimp only at hn
    split at hn
    · cases hn
    · rename_i hne
      cases hn
      rw [not_and] at hcount
      have := hcount hne
      omega

theorem shape_of_kind (t : Token)
    (h : t.kind ∉ [TokenKind.number, .diceRoll, .text, .identifier, .modifier]) : t.Shape := by
  simp only [List.mem_cons, List.not_mem_nil, or_false, not_or] at h
  obtain ⟨hnumber, hdice, htext, hname, hmodifier⟩ := h
  exact ⟨fun hk => absurd hk hnumber, fun hk => absurd hk hdice, fun hk => absurd hk htext,
    fun hk => absurd hk hname, fun hk => absurd hk hmodifier⟩

theorem shape_of_name (t : Token) (hkind : t.kind = .identifier) (h : IsName t.lexeme.toList) :
    t.Shape := by
  constructor
  case name => exact fun _ => h
  all_goals
    intro hk
    rw [hkind] at hk
    cases hk

theorem shape_of_modifier (t : Token) (hkind : t.kind = .modifier)
    (h : Modifier.isName t.lexeme = true) : t.Shape := by
  constructor
  case modifier => exact fun _ => h
  all_goals
    intro hk
    rw [hkind] at hk
    cases hk

/-- By the rule of the piece. -/
theorem shape_of_lexes {mode : Mode} {last : Option TokenKind} {piece : Piece} {next : Mode}
    {rest : List Char} {kind : TokenKind} (h : Lexes mode last piece next rest)
    (hkind : piece.kind = some kind) (span : Span) :
    Token.Shape ⟨kind, String.ofList piece.text, span, piece.value⟩ := by
  cases h with
  | lineFeed | returnFeed | colon | openBrace | closeBrace =>
    cases hkind
    exact shape_of_kind _ (by simp)
  | lineComment | blockComment | blanks | spaces => cases hkind
  | mark hmark =>
    cases hkind
    rcases mark_cases _ _ hmark with rfl | rfl | rfl | rfl <;> cases hmark <;>
      exact shape_of_kind _ (by simp)
  | sign hmark =>
    cases hkind
    rcases sign_cases _ _ hmark with rfl | rfl | rfl | rfl <;> cases hmark <;>
      exact shape_of_kind _ (by simp)
  | number =>
    cases hkind
    constructor
    case number => exact fun _ => ⟨_, rfl⟩
    all_goals exact nofun
  | dice _ _ _ _ _ _ _ hread =>
    cases hkind
    constructor
    case dice => exact fun _ => ⟨_, rfl, inBounds_of_readDice _ _ _ hread⟩
    all_goals exact nofun
  | text hplain =>
    cases hkind
    constructor
    case text =>
      intro _
      rw [String.toList_ofList]
      exact hplain
    all_goals exact nofun
  | @word _ c tail _ hletter htail =>
    have hname : IsName (String.ofList (c :: tail)).toList := by
      rw [String.toList_ofList]
      exact ⟨c, tail, rfl, hletter, htail⟩
    cases hkind
    -- The word `export` is a token of its own kind, any other word a name.
    by_cases hexport : c :: tail = "export".toList
    · rw [declaredKind, if_pos hexport]
      exact shape_of_kind _ (by simp)
    · rw [declaredKind, if_neg hexport]
      exact shape_of_name _ rfl hname
  | @name _ c tail _ hletter htail =>
    have hname : IsName (String.ofList (c :: tail)).toList := by
      rw [String.toList_ofList]
      exact ⟨c, tail, rfl, hletter, htail⟩
    cases hkind
    by_cases hmodifier : last = some .pipe ∧ Modifier.isName (String.ofList (c :: tail)) = true
    · rw [namedKind, if_pos hmodifier]
      exact shape_of_modifier _ rfl hmodifier.2
    · rw [namedKind, if_neg hmodifier]
      exact shape_of_name _ rfl hname

theorem start_of_mem_tokensFrom (offset : Nat) (pieces : List Piece) (t : Token)
    (ht : t ∈ tokensFrom offset pieces) : offset ≤ t.span.start := by
  induction pieces generalizing offset with
  | nil => cases ht
  | cons piece pieces ih =>
    rw [tokensFrom, List.mem_append, Option.mem_toList] at ht
    rcases ht with ht | ht
    · obtain ⟨kind, -, rfl⟩ := Option.map_eq_some_iff.mp ht
      exact Nat.le_refl _
    · have := ih _ ht
      omega

/-- Each token ends where its piece does, before the next one begins. -/
theorem inOrder_tokensFrom (offset : Nat) (pieces : List Piece) :
    InOrder (tokensFrom offset pieces) := by
  induction pieces generalizing offset with
  | nil => exact List.Pairwise.nil
  | cons piece pieces ih =>
    rw [tokensFrom]
    apply List.pairwise_append.mpr
    refine ⟨?_, ih _, ?_⟩
    · cases piece.tokenAt offset with
      | none => exact List.Pairwise.nil
      | some t => exact List.pairwise_singleton _ _
    · intro t ht u hu
      obtain ⟨kind, -, rfl⟩ := Option.map_eq_some_iff.mp (Option.mem_toList.mp ht)
      exact start_of_mem_tokensFrom _ _ u hu

section Runs
variable {after : List Char} {mode mode' : Mode} {last last' : Option TokenKind}
variable {pieces : List Piece}

/-- What holds of the token of every piece that can be taken holds of all tokens of a run. -/
theorem forall_tokens_of_reads {P : Token → Prop}
    (hpiece : ∀ {mode last piece next rest kind}, Takes mode last piece next rest →
      piece.kind = some kind → ∀ span, P ⟨kind, String.ofList piece.text, span, piece.value⟩)
    (h : Reads after mode last pieces mode' last') (offset : Nat) :
    ∀ t ∈ tokensFrom offset pieces, P t := by
  induction h generalizing offset with
  | nil => exact nofun
  | @cons mode last piece pieces next mode' last' htakes _ ih =>
    intro t ht
    rw [tokensFrom, List.mem_append, Option.mem_toList] at ht
    rcases ht with ht | ht
    · obtain ⟨kind, hkind, rfl⟩ := Option.map_eq_some_iff.mp ht
      exact hpiece htakes hkind _
    · exact ih _ t ht

/-- Each piece was taken by a rule. -/
theorem shape_of_reads (h : Reads after mode last pieces mode' last') (offset : Nat) :
    ∀ t ∈ tokensFrom offset pieces, t.Shape :=
  forall_tokens_of_reads (fun htakes => shape_of_lexes (takes_iff_lexes.mp htakes)) h offset

theorem kind_ne_end_of_reads (h : Reads after mode last pieces mode' last') (offset : Nat) :
    ∀ t ∈ tokensFrom offset pieces, t.kind ≠ .endOfInput := by
  refine forall_tokens_of_reads (fun htakes hkind _ => ?_) h offset
  rintro rfl
  exact kind_ne_end_of_takes htakes hkind

/-- A brace or a line end makes a token of its own, and no text. -/
theorem kind_of_closing {piece : Piece} {next : Mode} {rest : List Char}
    (h : Lexes .ruleContent last piece next rest)
    (hhead : (piece.text ++ rest).head? = some '\x7b' ∨ (piece.text ++ rest).head? = some '\x7d' ∨
      startsLineEnd (piece.text ++ rest) = true) :
    ∃ kind, piece.kind = some kind ∧ kind ≠ .text := by
  cases h with
  | lineFeed | returnFeed | openBrace => exact ⟨_, rfl, nofun⟩
  | lineComment | blockComment => simp [Piece.trivia, startsLineEnd] at hhead
  | @text _ s rest hplain hends =>
    -- Text does not begin with what ends it.
    cases s with
    | nil => exact absurd rfl hplain.nonempty
    | cons c run =>
      obtain ⟨hopen, hclose, hline, -⟩ := plain_goes_on [] c run rest hplain hends
      rcases hhead with hhead | hhead | hhead
      · exact absurd (Option.some.inj hhead) hopen
      · exact absurd (Option.some.inj hhead) hclose
      · rw [show startsLineEnd (c :: run ++ rest) = true from hhead] at hline
        cases hline

/-- What follows a text that does not end in a space or tab is no further text. -/
theorem textsApart_cons {s : List Char} (h : EndsText s (textOf pieces ++ after))
    (hreads : Reads after .ruleContent last pieces mode' last') (offset : Nat) (t : Token)
    (ht : t.lexeme.toList = s) : ∀ u ∈ (tokensFrom offset pieces).head?, TextsApart t u := by
  intro u hu _ hukind
  rw [ht]
  cases hreads with
  | nil => cases hu
  | @cons _ _ piece pieces next _ _ htakes =>
    rw [textOf_cons, List.append_assoc] at h
    have hclosing : ¬((piece.text ++ (textOf pieces ++ after)).head? = some '\x7b' ∨
        (piece.text ++ (textOf pieces ++ after)).head? = some '\x7d' ∨
        startsLineEnd (piece.text ++ (textOf pieces ++ after)) = true) := by
      intro hhead
      obtain ⟨kind, hkind, hne⟩ := kind_of_closing (takes_iff_lexes.mp htakes) hhead
      rw [tokensFrom, Piece.tokenAt, hkind] at hu
      cases hu
      exact hne hukind
    -- Of all that can end a text, only a comment leaves room for another text.
    rcases h.ended with hend | hend | hend | hend | ⟨-, hblank⟩
    · exact absurd (List.append_eq_nil_iff.mp hend).1 (text_ne_nil_of_takes htakes)
    · exact absurd (.inl hend) hclosing
    · exact absurd (.inr (.inl hend)) hclosing
    · exact absurd (.inr (.inr hend)) hclosing
    · exact hblank

/-- A text is taken in rule content, and ends where text does. -/
theorem text_of_lexes {piece : Piece} {next : Mode} {rest : List Char}
    (h : Lexes mode last piece next rest) (hkind : piece.kind = some .text) :
    ∃ s, piece = .token .text s ∧ mode = .ruleContent ∧ next = .ruleContent ∧ IsPlain s ∧
      EndsText s rest := by
  cases h with
  | text hplain hends => exact ⟨_, rfl, rfl, rfl, hplain, hends⟩
  | mark hmark =>
    cases hkind
    exact absurd (kind_of_mark hmark) (by decide)
  | sign hmark =>
    cases hkind
    exact absurd (kind_of_sign hmark) (by decide)
  | word => exact absurd (Option.some.inj hkind) (declaredKind_ne _ (by decide))
  | name => exact absurd (Option.some.inj hkind) (namedKind_ne _ _ (by decide))
  | _ => cases hkind

/-- Text goes on as far as it can, so only a comment comes between two texts. -/
theorem textsApart_of_reads (h : Reads after mode last pieces mode' last') (offset : Nat) :
    (tokensFrom offset pieces).IsChain TextsApart := by
  induction h generalizing offset with
  | nil => exact List.IsChain.nil
  | @cons mode last piece pieces next mode' last' htakes hreads ih =>
    rw [tokensFrom]
    cases htoken : piece.tokenAt offset with
    | none => exact ih _
    | some t =>
      obtain ⟨kind, hkind, rfl⟩ := Option.map_eq_some_iff.mp htoken
      refine List.isChain_cons.mpr ⟨?_, ih _⟩
      intro u hu htext
      obtain rfl : kind = .text := htext
      obtain ⟨s, rfl, -, rfl, -, hends⟩ := text_of_lexes (takes_iff_lexes.mp htakes) hkind
      exact textsApart_cons hends hreads _ _ (String.toList_ofList ..) u hu rfl

end Runs

end RandomTables
