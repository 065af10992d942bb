import RandomTables.Proofs.Decimal.Arithmetic
import RandomTables.Proofs.Token.Part

namespace RandomTables
open Decimal (floatOfLiteral literalValue natOfDigits RoundsTo)
open Text (Stops)

/-- The scanner comes to an offset of the source in the given mode, and has made the given tokens of
the text before it. -/
def ComesIn (source : List Char) (offset : Nat) (mode : Mode) (before : List Token) : Prop :=
  ∃ pieces after last, source = textOf pieces ++ after ∧
    Reads after .declaration none pieces mode last ∧ offset = (textOf pieces).length ∧
    before = tokensFrom 0 pieces

namespace Token

def IsWord (t : Token) : Prop :=
  t.kind ∈ [TokenKind.identifier, .exportWord, .modifier]

/-- A number with digits, and maybe a point and more digits, that carries the double of what is
written as its weight. With `after` behind it, it does not run on. -/
structure IsNumber (t : Token) (after : List Char) : Prop where
  written : ∃ whole fraction, t.lexeme.toList = whole ++ fraction ∧ whole ≠ [] ∧
    (∀ c ∈ whole, Text.isDigit c = true) ∧ IsFraction fraction
  value : ∃ w, t.value = some (.weight w) ∧ w = floatOfLiteral t.lexeme.toList ∧
    RoundsTo (literalValue t.lexeme.toList) w ∧ 0 < w
  ended : Stops clingsToNumber after

/-- A roll that carries the numbers written before and after its letter as its dice, where the first
may be left out. With `after` behind it, it does not run on. -/
structure IsDiceRoll (t : Token) (after : List Char) : Prop where
  written : ∃ count sides d, t.lexeme.toList = count ++ 'd' :: sides ∧ IsRoll count sides after ∧
    t.value = some (.dice d) ∧ d.InBounds ∧ d.sides = natOfDigits sides ∧
    d.count = if count = [] then none else some (natOfDigits count : Int)

/-- Kind, text and value of a token agree with each other, with the mode it was read in, with the
kind of the token before, and with the text after it. -/
structure Agrees (t : Token) (mode : Mode) (previous : Option TokenKind) (after : List Char) :
    Prop where
  number : t.kind = .number → t.IsNumber after
  dice : t.kind = .diceRoll → t.IsDiceRoll after
  word : t.IsWord → IsName t.lexeme.toList ∧ Stops Text.continuesName after ∧ mode ≠ .ruleContent
  declared : t.IsWord → mode = .declaration →
    (t.kind = .exportWord ↔ t.lexeme = "export") ∧ t.kind ≠ .modifier
  named : t.IsWord → mode = .expression →
    (t.kind = .modifier ↔ previous = some .pipe ∧ ∃ m : Modifier, m.name = t.lexeme) ∧
      t.kind ≠ .exportWord
  announced : t.kind = .identifier → mode = .expression →
    ∀ c rest, t.lexeme.toList = 'd' :: c :: rest → Text.isDigit c = true →
      previous ∈ [some TokenKind.hash, some .atSign, some .slash, some .pipe]

theorem agrees_of_kind {t : Token} (mode : Mode) (previous : Option TokenKind) (after : List Char)
    (h : t.kind ∉ [TokenKind.number, .diceRoll, .identifier, .exportWord, .modifier]) :
    t.Agrees mode previous after := by
  simp only [List.mem_cons, List.not_mem_nil, or_false, not_or] at h
  obtain ⟨hnumber, hdice, hname, hexport, hmodifier⟩ := h
  have hword : ¬t.IsWord := by simp [IsWord, hname, hexport, hmodifier]
  exact ⟨fun hk => absurd hk hnumber, fun hk => absurd hk hdice, fun hk => absurd hk hword,
    fun hk => absurd hk hword, fun hk => absurd hk hword, fun hk => absurd hk hname⟩

theorem agrees_of_number {t : Token} {mode : Mode} {previous : Option TokenKind}
    {after : List Char} (hkind : t.kind = .number) (h : t.IsNumber after) :
    t.Agrees mode previous after := by
  constructor
  case number => exact fun _ => h
  all_goals simp [IsWord, hkind]

theorem agrees_of_diceRoll {t : Token} {mode : Mode} {previous : Option TokenKind}
    {after : List Char} (hkind : t.kind = .diceRoll) (h : t.IsDiceRoll after) :
    t.Agrees mode previous after := by
  constructor
  case dice => exact fun _ => h
  all_goals simp [IsWord, hkind]

end Token

theorem zero_lt_floatOfLiteral (literal : List Char) (h : ¬floatOfLiteral literal ≤ 0) :
    0 < floatOfLiteral literal := by
  have hround := Decimal.roundsTo_floatOfLiteral literal
  by_contra hnot
  exact h ((Decimal.not_lt_iff_le (Decimal.not_isNaN_of_isFinite Decimal.isFinite_zero)
    hround.isNaN_eq_false).mp hnot)

/-- Dice that are read are in bounds, and are the numbers that are written. -/
theorem readDice_eq_ok {count sides : List Char} {d : Dice} (h : readDice count sides = .ok d) :
    d.InBounds ∧ d.sides = natOfDigits sides ∧
      d.count = if count = [] then none else some (natOfDigits count : Int) := by
  refine ⟨inBounds_of_readDice count sides d h, ?_⟩
  simp only [readDice] at h
  split at h
  · cases h
  split at h
  · cases h
  split at h
  · cases h
  split at h
  · cases h
  cases h
  exact ⟨rfl, rfl⟩

theorem announcesName_iff (last : Option TokenKind) : announcesName last = true ↔
    last ∈ [some TokenKind.hash, some .atSign, some .slash, some .pipe] := by
  rcases last with _ | kind
  · decide
  · cases kind <;> decide

section Steps
variable {mode next : Mode} {last : Option TokenKind} {piece : Piece} {rest : List Char}
variable {c : Char} {tail : List Char}

theorem isName_ofList (hletter : Text.isLetter c = true)
    (htail : ∀ d ∈ tail, Text.continuesName d = true) :
    IsName (String.ofList (c :: tail)).toList := by
  rw [String.toList_ofList]
  exact ⟨c, tail, rfl, hletter, htail⟩

/-- A word of a declaration is a name or `export`. -/
theorem agrees_of_declared (hletter : Text.isLetter c = true)
    (htail : ∀ d ∈ tail, Text.continuesName d = true) (hrest : Stops Text.continuesName rest)
    (span : Span) :
    Token.Agrees ⟨declaredKind (c :: tail), String.ofList (c :: tail), span, none⟩ .declaration
      last rest := by
  have hname := isName_ofList hletter htail
  constructor
  case number => exact fun h => absurd h (declaredKind_ne _ (by decide))
  case dice => exact fun h => absurd h (declaredKind_ne _ (by decide))
  case word => exact fun _ => ⟨hname, hrest, by decide⟩
  case declared =>
    intro _ _
    refine ⟨?_, declaredKind_ne _ (by decide)⟩
    dsimp only
    rw [← String.toList_inj, String.toList_ofList, declaredKind]
    split <;> simp_all
  case named => exact fun _ hmode => absurd hmode (by decide)
  case announced => exact fun _ hmode => absurd hmode (by decide)

/-- A name of an expression is a modifier behind a bar only. -/
theorem agrees_of_named (hletter : Text.isLetter c = true)
    (htail : ∀ d ∈ tail, Text.continuesName d = true) (hrest : Stops Text.continuesName rest)
    (hdice : c = 'd' → tail.head?.any Text.isDigit = true → announcesName last = true)
    (span : Span) :
    Token.Agrees ⟨namedKind last (c :: tail), String.ofList (c :: tail), span, none⟩ .expression
      last rest := by
  have hname := isName_ofList hletter htail
  constructor
  case number => exact fun h => absurd h (namedKind_ne _ _ (by decide))
  case dice => exact fun h => absurd h (namedKind_ne _ _ (by decide))
  case word => exact fun _ => ⟨hname, hrest, by decide⟩
  case declared => exact fun _ hmode => absurd hmode (by decide)
  case named =>
    intro _ _
    refine ⟨?_, namedKind_ne _ _ (by decide)⟩
    dsimp only
    rw [← Modifier.isName_iff, namedKind]
    split <;> simp_all
  case announced =>
    intro _ _ d rest htext hdigit
    rw [String.toList_ofList] at htext
    obtain ⟨rfl, rfl⟩ := List.cons_eq_cons.mp htext
    exact (announcesName_iff last).mp (hdice rfl hdigit)

/-- By the rule of the piece, with one case for each kind that carries more than its text. -/
theorem agrees_of_lexes {kind : TokenKind} (h : Lexes mode last piece next rest)
    (hkind : piece.kind = some kind) (span : Span) :
    Token.Agrees ⟨kind, String.ofList piece.text, span, piece.value⟩ mode last rest := by
  cases h with
  | lineFeed | returnFeed | colon | openBrace | closeBrace | text =>
    cases hkind
    exact Token.agrees_of_kind _ _ _ (by simp)
  | lineComment | blockComment | blanks | spaces => cases hkind
  | mark hmark =>
    cases hkind
    rcases mark_cases _ _ hmark with rfl | rfl | rfl | rfl <;> cases hmark <;>
      exact Token.agrees_of_kind _ _ _ (by simp)
  | sign hmark =>
    cases hkind
    rcases sign_cases _ _ hmark with rfl | rfl | rfl | rfl <;> cases hmark <;>
      exact Token.agrees_of_kind _ _ _ (by simp)
  | @number _ c digits fraction _ hc hdigits hfraction hrest hpositive =>
    cases hkind
    apply Token.agrees_of_number rfl
    refine ⟨⟨c :: digits, fraction, String.toList_ofList, List.cons_ne_nil c digits,
      List.forall_mem_cons.mpr ⟨hc, hdigits⟩, hfraction⟩, ?_, hrest⟩
    refine ⟨_, rfl, ?_, ?_, zero_lt_floatOfLiteral _ hpositive⟩
    · rw [String.toList_ofList, List.cons_append]
    · rw [String.toList_ofList]
      exact Decimal.roundsTo_floatOfLiteral _
  | @dice _ count sides d _ hcount hsides hne hrest _ _ _ hread =>
    cases hkind
    apply Token.agrees_of_diceRoll rfl
    exact ⟨count, sides, d, String.toList_ofList, ⟨hcount, hsides, hne, hrest⟩, rfl,
      readDice_eq_ok hread⟩
  | word hletter htail hrest =>
    cases hkind
    exact agrees_of_declared hletter htail hrest span
  | name hletter htail hrest hdice =>
    cases hkind
    exact agrees_of_named hletter htail hrest hdice span

end Steps

/-- Every token of a run agrees with the place where it is taken. -/
theorem agrees_of_reads {pieces : List Piece} {mode : Mode} {last : Option TokenKind}
    (h : Reads [] .declaration none pieces mode last) {before after : List Token} {t : Token}
    (htokens : tokensFrom 0 pieces = before ++ t :: after) :
    ∃ mode', ComesIn (textOf pieces) t.span.start mode' before ∧
      t.Agrees mode' (before.getLast?.map (·.kind)) ((textOf pieces).drop t.span.stop) := by
  obtain ⟨front, piece, back, rfl, rfl, hpiece, -⟩ := exists_piece_of_token 0 pieces htokens
  rw [Nat.zero_add] at hpiece
  obtain ⟨mode', last', hfront, hrest⟩ := reads_append_iff.mp h
  have hlast := last_of_reads hfront 0
  rw [Option.or_none] at hlast
  rw [List.append_nil] at hfront
  have hstart := tokenAt_start hpiece
  have hstop := tokenAt_stop hpiece
  obtain ⟨kind, hkind, rfl⟩ := Option.map_eq_some_iff.mp hpiece
  cases hrest with
  | cons htakes _ =>
    rw [List.append_nil] at htakes
    have hagrees := agrees_of_lexes (takes_iff_lexes.mp htakes) hkind
    have hafter : (textOf (front ++ piece :: back)).drop
        ((textOf front).length + piece.text.length) = textOf back := by
      rw [textOf_append, textOf_cons, ← List.append_assoc, ← List.length_append, List.drop_left]
    refine ⟨mode', ⟨front, _, last', textOf_append _ _, hfront, hstart, rfl⟩, ?_⟩
    rw [← hlast, hstop, hafter]
    exact hagrees _

/-- Every token of a source that can be read agrees in kind, text and value with the mode, the
token before and the text after it. -/
theorem scan_agrees (source : List Char) (s : Scan) (h : scan source = .ok s)
    (before : List Token) (t : Token) (after : List Token)
    (htokens : s.tokens = before ++ t :: after) :
    ∃ mode, ComesIn source t.span.start mode before ∧
      t.Agrees mode (before.getLast?.map (·.kind)) (source.drop t.span.stop) := by
  obtain ⟨pieces, rfl, ⟨last, hreads⟩, hpieces⟩ := exists_pieces_of_scan h
  rw [hpieces] at htokens
  rcases after.eq_nil_or_concat with rfl | ⟨after, u, rfl⟩
  · -- The end of input comes after all pieces, and says nothing.
    obtain ⟨rfl, ht⟩ := List.append_inj' htokens rfl
    obtain rfl := List.singleton_inj.mp ht
    refine ⟨s.mode, ⟨pieces, [], last, (List.append_nil _).symm, hreads, rfl, rfl⟩, ?_⟩
    exact Token.agrees_of_kind _ _ _ (by simp [Token.endAt])
  · rw [List.concat_eq_append, ← List.cons_append, ← List.append_assoc] at htokens
    exact agrees_of_reads hreads (List.append_inj' htokens rfl).1

/-- Behind the hash `d6` is a name, even with a comment in between. -/
theorem scan_agrees_afterHash :
    ∃ s before after mode, scan "1:\x7b#/**/d6 2d10".toList = .ok s ∧
      s.tokens = before ++ ⟨.identifier, "d6", ⟨8, 10, by decide⟩, none⟩ :: after ∧
      ComesIn "1:\x7b#/**/d6 2d10".toList 8 mode before ∧
      Token.Agrees ⟨.identifier, "d6", ⟨8, 10, by decide⟩, none⟩ mode
        (before.getLast?.map (·.kind)) ("1:\x7b#/**/d6 2d10".toList.drop 10) := by
  have hreads : Reads [] .declaration none
      [⟨some .number, some (.weight (Decimal.floatOfLiteral ['1'])), ['1']⟩, .token .colon [':'],
        .token .leftBrace ['\x7b'], .token .hash ['#'], .trivia "/**/".toList,
        .token .identifier ['d', '6'], .trivia [' '],
        ⟨some .diceRoll, some (.dice ⟨some 2, 10⟩), "2d10".toList⟩]
      .expression (some .diceRoll) := by
    repeat
      first
      | exact Reads.nil
      | refine Reads.cons ⟨_, _, rfl, rfl⟩ ?_
  have h := (scan_eq_ok_iff "1:\x7b#/**/d6 2d10".toList ⟨_, _⟩).mpr ⟨_, _, rfl, hreads, rfl⟩
  obtain ⟨mode, hcomes, hagrees⟩ := scan_agrees _ _ h [_, _, _, _] _ _ rfl
  exact ⟨_, _, _, mode, h, rfl, hcomes, hagrees⟩

end RandomTables
