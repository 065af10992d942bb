import RandomTables.Proofs.Diagnostic.Row
import RandomTables.Proofs.Text.Terminal

namespace RandomTables.Diagnostic
variable {d : Diagnostic}

structure HasNoEscape (d : Diagnostic) : Prop where
  message : '\x1b' ∉ d.message.toList
  sourceLine : '\x1b' ∉ d.sourceLine.toList
  suggestion : ∀ suggestion, d.suggestion = some suggestion → '\x1b' ∉ suggestion.toList
  code : ∀ code, d.code = some code → '\x1b' ∉ code.toList

/-- What is left of a text has no new characters. -/
theorem not_mem_ofString {c : Char} (style : Option Text.Style) {s : String} (h : c ∉ s.toList) :
    c ∉ (Text.Piece.ofString style s).text :=
  fun hmem => h (List.mem_of_mem_filter hmem)

namespace HasNoEscape

/-- Severity and code are all that the heading quotes. -/
theorem heading (h : d.HasNoEscape) : '\x1b' ∉ d.heading.toList := by
  have hseverity : '\x1b' ∉ d.severity.toList := by
    rw [severity]
    cases d.stage <;> decide
  rw [Diagnostic.heading]
  split
  · exact hseverity
  · rename_i code hcode
    exact not_mem_toList_append
      (not_mem_toList_append (not_mem_toList_append hseverity (by decide)) (h.code code hcode))
      (by decide)

theorem suggestionPieces {suggestion : String} (h : '\x1b' ∉ suggestion.toList) :
    ∀ piece ∈ Diagnostic.suggestionPieces suggestion, '\x1b' ∉ piece.text := by
  have hline : '\x1b' ∉ (": " ++ suggestion ++ "\n").toList :=
    not_mem_toList_append (not_mem_toList_append (by decide) h) (by decide)
  simp only [Diagnostic.suggestionPieces, List.forall_mem_cons]
  exact ⟨not_mem_ofString _ (by decide), not_mem_ofString _ (by decide),
    not_mem_ofString _ (by decide), not_mem_ofString _ hline, nofun⟩

/-- No piece of the excerpt holds the escape character, whether suggestions are shown or not. -/
theorem pieces (h : d.HasNoEscape) (suggestions : Bool) :
    '\x1b' ∉ Text.plainText (d.pieces suggestions) := by
  have hnumber (z : Int) : '\x1b' ∉ (toString z).toList := by
    intro hmem
    rcases Decimal.digit_or_minus_of_mem_toString z _ hmem with h | h <;> exact absurd h (by decide)
  have hmessage : '\x1b' ∉ (": " ++ d.message ++ "\n").toList :=
    not_mem_toList_append (not_mem_toList_append (by decide) h.message) (by decide)
  have hplace : '\x1b' ∉ (d.placeRow ++ "\n").toList := by
    have hline : '\x1b' ∉ ("    ┌─ line " ++ toString d.location.line ++ ":").toList :=
      not_mem_toList_append (not_mem_toList_append (by decide) (hnumber _)) (by decide)
    exact not_mem_toList_append (not_mem_toList_append hline (hnumber _)) (by decide)
  have hgutter : '\x1b' ∉ d.gutter := fun hmem => by
    have hcell := mem_gutter hmem
    revert hcell
    decide
  have hcarets : '\x1b' ∉ (d.carets ++ "\n").toList := by
    obtain ⟨more, hcarets⟩ := toList_carets d
    refine not_mem_toList_append ?_ (by decide)
    simp [hcarets]
  have hsource : '\x1b' ∉ (d.sourceLine ++ "\n").toList :=
    not_mem_toList_append h.sourceLine (by decide)
  intro hmem
  obtain ⟨piece, hpiece, hmem⟩ := List.mem_flatMap.mp hmem
  rw [Diagnostic.pieces, List.mem_append] at hpiece
  -- The excerpt is of eight pieces, and those of a suggestion follow if it is shown.
  rcases hpiece with hpiece | hpiece
  · simp only [List.mem_cons, List.not_mem_nil, or_false] at hpiece
    rcases hpiece with rfl | rfl | rfl | rfl | rfl | rfl | rfl | rfl
    · exact not_mem_ofString _ h.heading hmem
    · exact not_mem_ofString _ hmessage hmem
    · exact not_mem_ofString _ hplace hmem
    · exact not_mem_ofString _ (by decide) hmem
    · exact not_mem_ofString _ hgutter hmem
    · exact not_mem_ofString _ hsource hmem
    · exact not_mem_ofString _ (by decide) hmem
    · exact not_mem_ofString _ hcarets hmem
  · split at hpiece
    · rename_i suggestion hsuggestion
      split at hpiece
      · exact suggestionPieces (h.suggestion suggestion hsuggestion) piece hpiece hmem
      · cases hpiece
    · cases hpiece

end HasNoEscape

/-- Once its escape sequences are deleted, the excerpt in colours is the plain excerpt with every
tab replaced by the blanks up to the next multiple of eight cells of its line. -/
theorem withoutEscapes_render {console : Text.Console} (hconsole : console.Documented)
    (d : Diagnostic) (suggestions : Bool) (h : d.HasNoEscape) (text : List Char) :
    Text.withoutEscapes (d.render ⟨true, suggestions⟩ console).toList = text ↔
      Text.Untabbed console.cells [] (d.render ⟨false, suggestions⟩ console).toList text := by
  have hcolours : (d.render ⟨true, suggestions⟩ console).toList =
      console.print (d.pieces suggestions) := by
    rw [render, if_pos rfl, String.toList_ofList]
  have hplain : (d.render ⟨false, suggestions⟩ console).toList =
      Text.plainText (d.pieces suggestions) := by
    rw [render, if_neg Bool.false_ne_true, String.toList_ofList]
  have huntabbed := hconsole.withoutEscapes_print (h.pieces suggestions)
  rw [hcolours, hplain]
  constructor
  · rintro rfl
    exact huntabbed
  · exact Text.untabbed_unique huntabbed

def aboutTabs : Diagnostic where
  stage := .parsing
  location := ⟨6, 1, 7, some 7, some 8⟩
  message := "Expected a rule, found 'x'"
  sourceLine := "\t日本\té\tx"
  suggestion := some "write\t1: x"
  code := some "PARSER_EXPECTED_RULE"

/-- The line has tabs behind wide characters, and the suggestion has one of its own. -/
theorem withoutEscapes_render_aboutTabs :
    (Text.Console.terminal Text.cellCount).Documented ∧ aboutTabs.HasNoEscape ∧
      ∃ text, Text.withoutEscapes
          (aboutTabs.render ⟨true, true⟩ (.terminal Text.cellCount)).toList = text ∧
        Text.Untabbed Text.cellCount []
          (aboutTabs.render ⟨false, true⟩ (.terminal Text.cellCount)).toList text := by
  have hconsole := Text.isAdditive_cellCount.documented_terminal
  have h : aboutTabs.HasNoEscape := by
    refine ⟨by decide, by decide, ?_, ?_⟩
    · rintro _ ⟨⟩
      decide
    · rintro _ ⟨⟩
      decide
  exact ⟨hconsole, h, _, rfl, (withoutEscapes_render hconsole aboutTabs true h _).mp rfl⟩

end RandomTables.Diagnostic
