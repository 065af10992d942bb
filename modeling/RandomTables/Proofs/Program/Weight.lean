import RandomTables.Proofs.Program.Content
import RandomTables.Proofs.Token.Part

namespace RandomTables
open Text (Stops)

def literalAt (source : List Char) (offset : Nat) : List Char :=
  (source.drop offset).takeWhile fun c => Text.isDigit c || c == '.'

section Literals
variable {literal after : List Char}

/-- The literal ends where no digit or point follows. -/
theorem literalAt_append (before : List Char)
    (hliteral : ∀ c ∈ literal, (Text.isDigit c || c == '.') = true)
    (hafter : Stops clingsToNumber after) :
    literalAt (before ++ literal ++ after) before.length = literal := by
  have hstops : Stops (fun c => Text.isDigit c || c == '.') after := by
    cases after with
    | nil => trivial
    | cons c rest =>
      obtain ⟨hword, hpoint⟩ := Bool.or_eq_false_iff.mp (hafter : clingsToNumber c = false)
      have hdigit : Text.isDigit c = false :=
        Bool.eq_false_iff.mpr fun hdigit =>
          Bool.eq_false_iff.mp hword (Text.continuesWord_of_isDigit c hdigit)
      exact Bool.or_eq_false_iff.mpr ⟨hdigit, hpoint⟩
  rw [literalAt, List.append_assoc, List.drop_left]
  exact Text.takeWhile_append_of_stops _ literal after hliteral hstops

theorem digits_of_isFraction {fraction : List Char} (h : IsFraction fraction) :
    ∀ c ∈ fraction, (Text.isDigit c || c == '.') = true := by
  rcases h with rfl | ⟨digits, rfl, -, hdigits⟩
  · exact nofun
  · refine List.forall_mem_cons.mpr ⟨by rw [beq_self_eq_true, Bool.or_true], fun c hc => ?_⟩
    rw [hdigits c hc, Bool.true_or]

end Literals

/-- A number is taken as digits and maybe a fraction, and its weight is read from just these. -/
theorem number_of_lexes {mode next : Mode} {last : Option TokenKind} {piece : Piece}
    {rest : List Char} (h : Lexes mode last piece next rest) (hkind : piece.kind = some .number) :
    ∃ c digits fraction, piece.text = c :: (digits ++ fraction) ∧
      piece.value = some (.weight (Decimal.floatOfLiteral piece.text)) ∧
      Text.isDigit c = true ∧ (∀ d ∈ digits, Text.isDigit d = true) ∧ IsFraction fraction ∧
      Stops clingsToNumber rest ∧ ¬Decimal.floatOfLiteral piece.text ≤ 0 := by
  cases h with
  | number hc hdigits hfraction hrest hpositive =>
    exact ⟨_, _, _, rfl, rfl, hc, hdigits, hfraction, hrest, hpositive⟩
  | mark hmark =>
    cases hkind
    exact absurd (kind_of_mark hmark) (by decide)
  | sign hmark =>
    cases hkind
    exact absurd (kind_of_sign hmark) (by decide)
  | word => exact absurd (Option.some.inj hkind) (declaredKind_ne _ (by decide))
  | name => exact absurd (Option.some.inj hkind) (namedKind_ne _ _ (by decide))
  | _ => cases hkind

section Numbers
variable {pieces : List Piece} {mode : Mode} {last : Option TokenKind} {t : Token}

/-- A number among the tokens of a source begins with a digit. -/
theorem digit_of_number (h : Reads [] .declaration none pieces mode last)
    (ht : t ∈ tokensFrom 0 pieces) (hkind : t.kind = .number) :
    ∃ c, (textOf pieces)[t.span.start]? = some c ∧ Text.isDigit c = true := by
  obtain ⟨front, piece, back, _, _, _, rfl, hpiece, hstart, hlexes⟩ := exists_lexes_of_token h ht
  obtain ⟨c, digits, fraction, htext, -, hc, -⟩ :=
    number_of_lexes hlexes ((tokenAt_kind hpiece).trans (congrArg some hkind))
  rw [hstart]
  exact ⟨c, getElem_of_text htext, hc⟩

/-- A number among the tokens of a source stands for the literal at its place. -/
theorem weightOf_eq_literal (h : Reads [] .declaration none pieces mode last)
    (ht : t ∈ tokensFrom 0 pieces) (hkind : t.kind = .number) :
    Grammar.weightOf t = Decimal.floatOfLiteral (literalAt (textOf pieces) t.span.start) ∧
      ¬Grammar.weightOf t ≤ 0 := by
  obtain ⟨front, piece, back, _, _, _, rfl, hpiece, hstart, hlexes⟩ := exists_lexes_of_token h ht
  obtain ⟨c, digits, fraction, htext, hvalue, hc, hdigits, hfraction, hafter, hpositive⟩ :=
    number_of_lexes hlexes ((tokenAt_kind hpiece).trans (congrArg some hkind))
  have hliteral : literalAt (textOf (front ++ piece :: back)) t.span.start = piece.text := by
    rw [hstart, textOf_append, textOf_cons, ← List.append_assoc]
    refine literalAt_append _ ?_ hafter
    rw [htext]
    simp only [List.forall_mem_cons, List.forall_mem_append]
    exact ⟨by rw [hc, Bool.true_or], fun d hd => by rw [hdigits d hd, Bool.true_or],
      digits_of_isFraction hfraction⟩
  rw [hliteral, Grammar.weightOf_eq t _ ((tokenAt_value hpiece).trans hvalue)]
  exact ⟨rfl, hpositive⟩

end Numbers

/-- The weight of a rule is that of the literal at which the rule begins. -/
theorem Program.weight_eq_literal {source : String} {p : Program} (h : parse source = .ok p)
    {table : Located Table} (htable : table ∈ p.tables) {r : Located Rule}
    (hr : r ∈ table.value.rules) :
    r.value.weight = Decimal.floatOfLiteral (literalAt source.toList r.span.start) ∧
      ¬r.value.weight ≤ 0 := by
  obtain ⟨pieces, mode, last, htext, hreads, hp⟩ := (parse_eq_ok_iff source p).mp h
  rw [← htext]
  have hweight := fun t => @weightOf_eq_literal pieces mode last t hreads
  have horder := inOrder_tokensFrom 0 pieces
  generalize tokensFrom 0 pieces = tokens at hp hweight horder
  cases hp with
  | @mk lineEnds tokens _ _ htables =>
    obtain ⟨part, hpart, hrule⟩ := rules_of_tables htables table htable r hr
    cases hrule with
    | @mk weight colon content _ hkind =>
      have hwithin := hpart.trans (List.suffix_append lineEnds tokens).isInfix
      have hstart := extent_start _ _ (horder.sublist hwithin.sublist)
      dsimp only
      rw [hstart]
      exact hweight weight (hwithin.subset List.mem_cons_self) hkind

end RandomTables
