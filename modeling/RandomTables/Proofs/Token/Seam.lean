import RandomTables.Proofs.Token.Gap
import RandomTables.Proofs.Token.Shape

namespace RandomTables
open Text (Stops)

section Seams
variable {after rest : List Char} {mode mode' next : Mode} {last last' : Option TokenKind}
variable {piece : Piece} {pieces : List Piece}

/-- A piece needs nothing to follow it. -/
theorem lexes_at_end (h : Lexes mode last piece next rest) : Lexes mode last piece next [] := by
  cases h with
  | lineFeed => exact .lineFeed
  | returnFeed => exact .returnFeed
  | lineComment hbody => exact .lineComment hbody trivial
  | blockComment hbody => exact .blockComment hbody
  | blanks hne hrun => exact .blanks hne ⟨hrun.blank, by simp, .inl trivial⟩
  | mark hmark => exact .mark hmark
  | colon => exact .colon
  | number hc hdigits hfraction _ hpos => exact .number hc hdigits hfraction trivial hpos
  | word hc htail => exact .word hc htail trivial
  | openBrace => exact .openBrace
  | text hplain => exact .text hplain ⟨by simp, .inl rfl⟩
  | spaces hne hrun => exact .spaces hne hrun trivial
  | closeBrace => exact .closeBrace
  | sign hmark => exact .sign hmark (by simp [startsComment])
  | dice hcount hsides hne _ hannounced hlcount hlsides hread =>
    exact .dice hcount hsides hne trivial hannounced hlcount hlsides hread
  | name hc htail _ hdice => exact .name hc htail trivial hdice

/-- To what comes before it, a piece looks the same with the end of input after it. -/
theorem sameAhead_at_end (h : Takes mode last piece next rest) :
    SameAhead (piece.text ++ rest) piece.text := by
  obtain ⟨hreturn, hcomment⟩ := single_of_takes h
  have hne := text_ne_nil_of_takes h
  rcases htext : piece.text with _ | ⟨c, _ | ⟨d, s⟩⟩
  · exact absurd htext hne
  · -- Only a single return or slash could look beyond the piece.
    rw [htext] at hreturn hcomment
    have hline : startsLineEnd ([c] ++ rest) = startsLineEnd [c] := by
      rw [Bool.eq_iff_iff, List.singleton_append, startsLineEnd_cons, startsLineEnd_cons]
      simp only [List.head?_nil, reduceCtorEq, and_false, or_false]
      apply or_iff_left
      rintro ⟨rfl, hnext⟩
      exact hreturn rfl hnext
    have hslash : startsComment ([c] ++ rest) = startsComment [c] := by
      by_cases hc : c = '/'
      · subst hc
        exact (hcomment rfl).1
      · rw [List.singleton_append, startsComment_of_ne c rest hc, startsComment_of_ne c [] hc]
    exact ⟨rfl, hline, hslash⟩
  · have hsame := sameAhead_cons_cons c d s rest []
    rw [List.append_nil] at hsame
    exact hsame

/-- What comes after the next piece is out of sight. -/
theorem sameAhead_of_reads (h : Reads after mode last pieces mode' last') (hne : pieces ≠ []) :
    SameAhead (textOf pieces ++ after) (textOf pieces) := by
  induction h with
  | nil => exact absurd rfl hne
  | @cons mode last piece pieces next mode' last' htakes _ ih =>
    cases pieces with
    | nil =>
      have hsame := sameAhead_at_end htakes
      simpa using hsame
    | cons piece' pieces =>
      rw [textOf_cons, List.append_assoc]
      exact sameAhead_append piece.text (ih (List.cons_ne_nil _ _))

/-- Pieces that are read in front of a text are read without it. -/
theorem reads_at_end (h : Reads after mode last pieces mode' last') :
    Reads [] mode last pieces mode' last' := by
  induction h with
  | nil => exact .nil
  | @cons mode last piece pieces next mode' last' htakes hreads ih =>
    refine .cons ?_ ih
    rw [List.append_nil]
    cases pieces with
    | nil => exact takes_iff_lexes.mpr (lexes_at_end (takes_iff_lexes.mp htakes))
    | cons piece' pieces =>
      have hsame := sameAhead_of_reads hreads (List.cons_ne_nil _ _)
      exact takes_iff_lexes.mpr (lexes_of_sameAhead hsame (takes_iff_lexes.mp htakes))

theorem stops_of_lineEnd (p : Char → Bool) (hfeed : p '\n' = false) (hreturn : p '\r' = false)
    (h : startsLineEnd rest = true) : Stops p rest := by
  cases rest with
  | nil => trivial
  | cons c rest =>
    rw [Text.stops_cons]
    rcases (startsLineEnd_cons c rest).mp h with rfl | ⟨rfl, -⟩
    · exact hfeed
    · exact hreturn

/-- A piece ends where a line ends, if it takes no part of the line end: neither a return at its own
end nor, as a line comment, the return of the line end. -/
theorem lexes_before_lineEnd (h : Lexes mode last piece next []) (hline : startsLineEnd rest = true)
    (hreturn : piece.text.getLast? = some '\r' → rest.head? ≠ some '\n')
    (hcomment : ∀ body, piece = .trivia ('/' :: '/' :: body) → rest.head? = some '\n') :
    Lexes mode last piece next rest := by
  cases h with
  | lineFeed => exact .lineFeed
  | returnFeed => exact .returnFeed
  | lineComment hbody =>
    refine .lineComment hbody ((Text.stops_iff_head _ _).mpr ?_)
    rw [hcomment _ rfl]
    rfl
  | blockComment hbody => exact .blockComment hbody
  | blanks hne hrun => exact .blanks hne ⟨hrun.blank, hreturn, .inr hline⟩
  | mark hmark => exact .mark hmark
  | colon => exact .colon
  | number hc hdigits hfraction _ hpos =>
    exact .number hc hdigits hfraction (stops_of_lineEnd _ (by decide) (by decide) hline) hpos
  | word hc htail => exact .word hc htail (stops_of_lineEnd _ (by decide) (by decide) hline)
  | openBrace => exact .openBrace
  | text hplain => exact .text hplain ⟨hreturn, .inr (.inr (.inr (.inl hline)))⟩
  | spaces hne hrun => exact .spaces hne hrun (stops_of_lineEnd _ (by decide) (by decide) hline)
  | closeBrace => exact .closeBrace
  | @sign _ c _ _ hmark _ =>
    refine .sign hmark (Bool.eq_false_iff.mpr fun hstart => ?_)
    have hslash : Stops (fun d => d == '/' || d == '*') rest :=
      stops_of_lineEnd _ (by decide) (by decide) hline
    rw [Text.stops_iff_head] at hslash
    rcases ((startsComment_cons c rest).mp hstart).2 with hnext | hnext <;> simp [hnext] at hslash
  | dice hcount hsides hne _ hannounced hlcount hlsides hread =>
    exact .dice hcount hsides hne (stops_of_lineEnd _ (by decide) (by decide) hline) hannounced
      hlcount hlsides hread
  | name hc htail _ hdice =>
    exact .name hc htail (stops_of_lineEnd _ (by decide) (by decide) hline) hdice

theorem lexes_before_lineFeed (h : Lexes mode last piece next [])
    (hreturn : piece.text.getLast? ≠ some '\r') (rest : List Char) :
    Lexes mode last piece next ('\n' :: rest) :=
  lexes_before_lineEnd h (by simp) (fun hlast => absurd hlast hreturn) fun _ _ => rfl

theorem sameAhead_before_lineFeed (s : List Char) (hne : s ≠ []) (hreturn : s.getLast? ≠ some '\r')
    (rest : List Char) : SameAhead s (s ++ '\n' :: rest) := by
  rcases s with _ | ⟨c, _ | ⟨d, s⟩⟩
  · exact absurd rfl hne
  · have hc : c ≠ '\r' := by simpa using hreturn
    exact ⟨rfl, by simp [startsLineEnd, hc], by simp [startsComment]⟩
  · have hsame := sameAhead_cons_cons c d s [] ('\n' :: rest)
    rw [List.append_nil] at hsame
    exact hsame

/-- The pieces of a text are read in front of a line feed too, unless the text ends in a return that
would make a line end with it. -/
theorem reads_before_lineFeed (h : Reads [] mode last pieces mode' last')
    (hreturn : (textOf pieces).getLast? ≠ some '\r') (rest : List Char) :
    Reads ('\n' :: rest) mode last pieces mode' last' := by
  induction h with
  | nil => exact .nil
  | @cons mode last piece pieces next mode' last' htakes hreads ih =>
    rw [textOf_cons] at hreturn
    rw [List.append_nil] at htakes
    have hlexes := takes_iff_lexes.mp htakes
    cases pieces with
    | nil =>
      cases hreads
      rw [textOf_nil, List.append_nil] at hreturn
      exact .cons (takes_iff_lexes.mpr (lexes_before_lineFeed hlexes hreturn rest)) .nil
    | cons piece' pieces =>
      -- The last character of the text is that of the pieces still to come.
      have hne : textOf (piece' :: pieces) ≠ [] := by
        rw [textOf_cons]
        cases hreads with
        | cons htakes' => simp [text_ne_nil_of_takes htakes']
      rw [List.getLast?_append_of_ne_nil _ hne] at hreturn
      have hsame := sameAhead_before_lineFeed _ hne hreturn rest
      exact .cons (takes_iff_lexes.mpr (lexes_of_sameAhead hsame hlexes)) (ih hreturn)

/-- Only expressions look at the token before. -/
theorem lexes_declaration (h : Lexes .declaration last piece next rest) (other : Option TokenKind) :
    Lexes .declaration other piece next rest := by
  cases h with
  | lineFeed => exact .lineFeed
  | returnFeed => exact .returnFeed
  | lineComment hbody hrest => exact .lineComment hbody hrest
  | blockComment hbody => exact .blockComment hbody
  | blanks hne hrun => exact .blanks hne hrun
  | mark hmark => exact .mark hmark
  | colon => exact .colon
  | number hc hdigits hfraction hrest hpos => exact .number hc hdigits hfraction hrest hpos
  | word hc htail hrest => exact .word hc htail hrest

/-- A declaration is read the same whatever token came before it. -/
theorem reads_declaration (h : Reads after .declaration last pieces mode' last')
    (other : Option TokenKind) :
    ∃ last'', Reads after .declaration other pieces mode' last'' := by
  generalize hmode : Mode.declaration = mode at h
  induction h generalizing other with
  | nil => exact ⟨other, .nil⟩
  | @cons mode last piece pieces next mode' last' htakes hreads ih =>
    subst hmode
    have hlexes := takes_iff_lexes.mp htakes
    have htakes' := takes_iff_lexes.mpr (lexes_declaration hlexes other)
    cases hkind : piece.kind with
    | some kind =>
      rw [hkind, Option.some_or] at hreads
      refine ⟨last', .cons htakes' ?_⟩
      rw [hkind, Option.some_or]
      exact hreads
    | none =>
      -- Blanks and comments leave the mode of a declaration as it is.
      have hnext : next = .declaration := by
        rcases trivia_cases hlexes hkind with
          ⟨_, -, hnext, -⟩ | ⟨body, -, hnext, -⟩ | ⟨_, -, hnext, -⟩
        · exact hnext
        · rw [hnext, modeAfter]
          split <;> rfl
        · exact hnext
      obtain ⟨last'', hreads'⟩ := ih other hnext.symm
      refine ⟨last'', .cons htakes' ?_⟩
      rw [hkind, Option.none_or]
      exact hreads'

end Seams

end RandomTables
