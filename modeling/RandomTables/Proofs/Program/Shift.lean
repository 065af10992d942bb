import RandomTables.Proofs.Program.Alike
import RandomTables.Proofs.Token.Shift

namespace RandomTables.Grammar

section Shifts
variable {tokens after : List Token}

/-- Moved tokens are the same tokens at other places. -/
theorem alike_shift (n : Nat) (tokens : List Token) :
    Alike tokens (tokens.map (Token.shift n)) := by
  apply alike_of_faces
  rw [List.map_map]
  rfl

/-- The rules of the grammar look at kinds, which do not move. -/
theorem rule_shift (n : Nat) {r : Located Rule} (h : IsRule tokens r) :
    IsRule (tokens.map (Token.shift n)) (r.shift n) := by
  cases h with
  | @mk weight colon tokens items hweight hcolon hcontent hne hblank =>
    have hgrown := (content_iff_grown tokens items).mp hcontent
    have hcontent' := (content_iff_grown _ items).mpr (grown_of_alike hgrown (alike_shift n tokens))
    have hblank' : ¬∀ t ∈ tokens.map (Token.shift n), IsBlankText t := by
      intro hall
      apply hblank
      intro t ht
      exact hall (t.shift n) (List.mem_map_of_mem ht)
    have hrule := @IsRule.mk (weight.shift n) (colon.shift n) _ items hweight hcolon hcontent'
      (by simpa using hne) hblank'
    rw [← List.map_cons, ← List.map_cons, extent_shift] at hrule
    exact hrule

theorem lines_shift (n : Nat) {rules : List (Located Rule)} (h : Lines tokens rules) :
    Lines (tokens.map (Token.shift n)) (rules.map (Located.shift n)) := by
  induction h with
  | nil => exact .nil
  | lineEnd ht _ ih => exact .lineEnd ht ih
  | rule hfirst _ ih =>
    rw [List.map_append]
    exact .rule (rule_shift n hfirst) ih

/-- The span of a table moves with its header and rules. -/
theorem tableSpan_shift (n : Nat) (header : Span) (rules : List (Located Rule)) :
    tableSpan (header.shift n) (rules.map (Located.shift n)) =
      (tableSpan header rules).shift n := by
  rw [tableSpan, tableSpan, List.getLast?_map]
  -- Without rules the header stands for the last of them.
  cases rules.getLast? with
  | none => exact cover_shift n header header
  | some r => exact cover_shift n header r.span

theorem extent_header_shift (n : Nat) {id : String} {exported : Bool}
    (h : Header tokens id exported) :
    extent (tokens.map (Token.shift n)) = (extent tokens).shift n := by
  obtain ⟨hash, name, flags, rfl, -⟩ := header_cons tokens id exported h
  exact extent_shift n hash (name :: flags)

/-- What comes behind a table moves as well. -/
theorem table_shift (n : Nat) {table : Located Table} (h : IsTable tokens after table) :
    IsTable (tokens.map (Token.shift n)) (after.map (Token.shift n)) (shiftTable n table) := by
  cases h with
  | bare hheader =>
    have htable := IsTable.bare (header_of_alike hheader (alike_shift n _))
    rw [extent_header_shift n hheader] at htable
    exact htable
  | @lines header id exported lineEnd tokens rules _ hheader hline hrules =>
    have htable := @IsTable.lines _ _ _ (lineEnd.shift n) _ _ (after.map (Token.shift n))
      (header_of_alike hheader (alike_shift n _)) hline (lines_shift n hrules)
    rw [extent_header_shift n hheader, tableSpan_shift] at htable
    rw [List.map_append]
    exact htable

theorem tables_shift (n : Nat) {tables : List (Located Table)} (h : Tables tokens tables) :
    Tables (tokens.map (Token.shift n)) (tables.map (shiftTable n)) := by
  induction h with
  | nil => exact .nil
  | cons hfirst _ ih =>
    rw [List.map_append]
    exact .cons (table_shift n hfirst) ih

/-- The tree of a table at the end of input is determined by its tokens. -/
theorem table_unique {table table' : Located Table} (h : IsTable tokens [] table)
    (h' : IsTable tokens [] table') (hsound : Sound tokens) : table = table' := by
  obtain ⟨hash, taken, rfl, -⟩ := isTable_cons tokens [] table h
  have hread := readTable_complete hash taken [] table h hsound (headIn_nil _)
  rw [readTable_complete hash taken [] table' h' hsound (headIn_nil _)] at hread
  injection hread with hread
  exact (congrArg Prod.fst hread).symm

/-- A table of moved tokens is a moved table. -/
theorem exists_table_of_shift (n : Nat) {table : Located Table}
    (h : IsTable (tokens.map (Token.shift n)) [] table)
    (hsound : Sound (tokens.map (Token.shift n))) :
    ∃ table', IsTable tokens [] table' ∧ shiftTable n table' = table := by
  have halike := alike_symm _ _ (alike_shift n tokens)
  obtain ⟨table', htable', -⟩ := table_of_alike h halike fun _ => rfl
  exact ⟨table', htable', table_unique (table_shift n htable') h hsound⟩

end Shifts

end RandomTables.Grammar
