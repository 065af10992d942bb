import RandomTables.Proofs.Diagnostic.Line
import RandomTables.Proofs.Program.Outcome
import RandomTables.Proofs.Token.LineEnd

/-! The lines that errors are reported on. An error is reported where the scanner comes by, and the
scanner comes between a return and its line feed only behind a line comment, which takes the
return. -/
namespace RandomTables

structure Diagnostic.ShowsLine (d : Diagnostic) (source : List Char) (offset : Nat) : Prop where
  number : d.location.line = 1 + (source.take offset).count '\n'
  text : d.sourceLine = String.ofList
    (Text.withoutReturn (Text.lineAround (source.take offset) (source.drop offset)))

/-- The scanner takes a line comment that ends in a return, and then comes to the line feed at the
given offset. -/
def ReturnInComment (source : List Char) (offset : Nat) : Prop :=
  ∃ pieces body rest mode last,
    source = textOf pieces ++ ('/' :: '/' :: (body ++ ['\r'])) ++ '\n' :: rest ∧ '\n' ∉ body ∧
    Reads ('/' :: '/' :: (body ++ ['\r']) ++ '\n' :: rest) .declaration none pieces mode last ∧
    offset = (textOf pieces).length + (body.length + 3)

section Returns
variable {mode : Mode} {last : Option TokenKind} {pieces : List Piece} {after : List Char}

/-- Where the scanner comes by, a line end is cut only behind a line comment. -/
theorem cutsLineEnd_iff (h : Reads after .declaration none pieces mode last) :
    Text.CutsLineEnd (textOf pieces) after ↔
      ReturnInComment (textOf pieces ++ after) (textOf pieces).length := by
  constructor
  · rintro ⟨hreturn, hfeed⟩
    rcases pieces.eq_nil_or_concat with rfl | ⟨front, piece, rfl⟩
    · cases hreturn
    rw [List.concat_eq_append] at h hreturn ⊢
    obtain ⟨mode', last', hfront, htakes, -⟩ := reads_concat h
    rw [textOf_append, textOf_singleton,
      List.getLast?_append_of_ne_nil _ (text_ne_nil_of_takes htakes)] at hreturn
    obtain ⟨body, hpiece, hbody⟩ :=
      comment_of_return (takes_iff_lexes.mp htakes) hreturn hfeed
    have htext : piece.text = '/' :: '/' :: (body ++ ['\r']) := by rw [hpiece, Piece.trivia]
    obtain ⟨rest, rfl⟩ := List.head?_eq_some_iff.mp hfeed
    rw [htext] at hfront
    refine ⟨front, body, rest, mode', last', ?_, hbody, hfront, ?_⟩
    · rw [textOf_append, textOf_singleton, htext]
    · rw [textOf_append, textOf_singleton, htext]
      simp
  · rintro ⟨front, body, rest, _, _, hsource, -, -, hoffset⟩
    have hlength : (textOf pieces).length =
        (textOf front ++ '/' :: '/' :: (body ++ ['\r'])).length := by
      rw [hoffset]
      simp
    obtain ⟨hbefore, rfl⟩ := List.append_inj hsource hlength
    refine ⟨?_, rfl⟩
    rw [hbefore, ← List.cons_append, ← List.cons_append, ← List.append_assoc, List.getLast?_concat]

end Returns

namespace Program

/-- An error is reported on the line where it is, if it is not at a line feed whose return a line
comment has taken. There it is reported on the next line. -/
theorem shows_line_iff (source : String) (e : ParseError)
    (h : parse source = .error (.reported e)) :
    ∃ offset : Nat, e.diagnostic.location.position = offset ∧
      (e.diagnostic.ShowsLine source.toList offset ↔ ¬ReturnInComment source.toList offset) ∧
      (ReturnInComment source.toList offset →
        e.diagnostic.location.line = 1 + (source.toList.take offset).count '\n' + 1) := by
  rcases parse_error source _ h with ⟨hno, -⟩ | ⟨e', offset, he, hcomes, hat⟩
  · cases hno
  cases he
  obtain ⟨pieces, after, mode, last, hsource, hreads, rfl⟩ := hcomes
  rw [hsource] at hat ⊢
  have hbefore : (textOf pieces ++ after).take (textOf pieces).length = textOf pieces :=
    List.take_left
  have hafter : (textOf pieces ++ after).drop (textOf pieces).length = after := List.drop_left
  have hnext : Text.CutsLineEnd (textOf pieces) after →
      e.diagnostic.location.line = 1 + (textOf pieces).count '\n' + 1 := by
    intro hcut
    rw [hat.line, LineTable.lineAt_of_cut hcut]
    rfl
  refine ⟨_, hat.position, ?_, ?_⟩
  · rw [← cutsLineEnd_iff hreads]
    constructor
    · intro hshows hcut
      have hline := hshows.number
      rw [hnext hcut, hbefore] at hline
      omega
    · intro hcut
      obtain ⟨hnumber, htext⟩ := LineTable.lineAt_of_not_cut hcut
      constructor
      · rw [hat.line, hnumber, hbefore]
        rfl
      · rw [hat.sourceLine, htext, hbefore, hafter]
  · rw [← cutsLineEnd_iff hreads, hbefore]
    exact hnext

def unnamedError (source : String) (offset : Nat) : ParseError :=
  ⟨.unexpectedToken "table name" "newline", (LineTable.ofSource source.toList).diagnose
    .parsing offset "Expected a table name after '#', found newline"
    (some "PARSER_EXPECTED_TABLE_ID")
    (some "Table names start with a letter and may contain letters, digits, '_' and '-'")⟩

/-- A source of a hash and a line end has that error, whatever stands between the two. -/
theorem parse_unnamed {source : String} {pieces : List Piece} {hash newline : Token}
    (hsource : source.toList = textOf pieces)
    (hreads : Reads [] .declaration none pieces .declaration (some .newline))
    (htokens : tokensFrom 0 pieces = [hash, newline]) (hhash : hash.kind = .hash)
    (hnewline : newline.kind = .newline) :
    parse source = .error (.reported (unnamedError source newline.span.start)) := by
  obtain ⟨_, name, place, payload⟩ := hash
  obtain ⟨_, lexeme, span, value⟩ := newline
  cases hhash
  cases hnewline
  have hscan := (scan_eq_ok_iff source.toList ⟨_, .declaration⟩).mpr
    ⟨_, _, hsource.symm, hreads, rfl⟩
  have hread : readProgram [⟨.hash, name, place, payload⟩, ⟨.newline, lexeme, span, value⟩] =
      .error (.unexpected .tableName [⟨.newline, lexeme, span, value⟩]) := by
    rw [readProgram, readTables.eq_def]
    rfl
  rw [htokens] at hscan
  rw [parse, hscan]
  exact congrArg (Except.mapError _) hread

def nakedHash : String := "# \r\n"

def commentedHash : String := "# //c\r\n"

/-- The line end is one word, as a blank comes before its return. -/
theorem parse_nakedHash : parse nakedHash = .error (.reported (unnamedError nakedHash 2)) := by
  refine @parse_unnamed _ [.token .hash ['#'], .trivia [' '], .token .newline ['\r', '\n']]
    ⟨_, _, _, _⟩ ⟨_, _, ⟨2, 4, by decide⟩, _⟩ rfl ?_ rfl rfl rfl
  repeat
    first
    | exact Reads.nil
    | refine Reads.cons ⟨_, _, rfl, rfl⟩ ?_

/-- The comment takes the return, and the line feed is a word of its own. -/
theorem parse_commentedHash :
    parse commentedHash = .error (.reported (unnamedError commentedHash 6)) := by
  refine @parse_unnamed _ [.token .hash ['#'], .trivia [' '], .trivia ['/', '/', 'c', '\r'],
    .token .newline ['\n']] ⟨_, _, _, _⟩ ⟨_, _, ⟨6, 7, by decide⟩, _⟩ rfl ?_ rfl rfl rfl
  repeat
    first
    | exact Reads.nil
    | refine Reads.cons ⟨_, _, rfl, rfl⟩ ?_

/-- The line end behind a blank is shown on the line that it ends, and the one behind a comment on
the next. -/
theorem shows_line_iff_commentedHash :
    (parse nakedHash = .error (.reported (unnamedError nakedHash 2)) ∧
      (∃ offset : Nat, (unnamedError nakedHash 2).diagnostic.location.position = offset ∧
        ((unnamedError nakedHash 2).diagnostic.ShowsLine nakedHash.toList offset ↔
          ¬ReturnInComment nakedHash.toList offset) ∧
        (ReturnInComment nakedHash.toList offset →
          (unnamedError nakedHash 2).diagnostic.location.line =
            1 + (nakedHash.toList.take offset).count '\n' + 1)) ∧
      (unnamedError nakedHash 2).diagnostic.ShowsLine nakedHash.toList 2) ∧
    (parse commentedHash = .error (.reported (unnamedError commentedHash 6)) ∧
      ∃ offset : Nat, (unnamedError commentedHash 6).diagnostic.location.position = offset ∧
        ((unnamedError commentedHash 6).diagnostic.ShowsLine commentedHash.toList offset ↔
          ¬ReturnInComment commentedHash.toList offset) ∧
        (ReturnInComment commentedHash.toList offset →
          (unnamedError commentedHash 6).diagnostic.location.line =
            1 + (commentedHash.toList.take offset).count '\n' + 1)) :=
  ⟨⟨parse_nakedHash, shows_line_iff _ _ parse_nakedHash, ⟨rfl, rfl⟩⟩,
    ⟨parse_commentedHash, shows_line_iff _ _ parse_commentedHash⟩⟩

/-- The line feed ends the first line, and the error there is shown on the second, which is empty.
-/
theorem commentedHash_on_next_line :
    parse commentedHash = .error (.reported (unnamedError commentedHash 6)) ∧
      (unnamedError commentedHash 6).diagnostic.location.position = 6 ∧
      (unnamedError commentedHash 6).diagnostic.location.line = 2 ∧
      (unnamedError commentedHash 6).diagnostic.sourceLine = "" ∧
      ¬(unnamedError commentedHash 6).diagnostic.ShowsLine commentedHash.toList 6 := by
  refine ⟨parse_commentedHash, rfl, rfl, rfl, ?_⟩
  intro h
  exact absurd h.number (by decide)

end Program

end RandomTables
