import RandomTables.Proofs.Token.Seam

namespace RandomTables
open Text (Stops)

def isLineEnd (c : Char) : Bool :=
  c == '\n' || c == '\r'

section Pieces
variable {mode next : Mode} {last : Option TokenKind} {piece : Piece} {rest : List Char}

theorem isLineEnd_eq_false_of {p : Char → Bool} (hfeed : p '\n' = false) (hreturn : p '\r' = false)
    {c : Char} (hc : p c = true) : isLineEnd c = false := by
  rw [isLineEnd, Bool.or_eq_false_iff, beq_eq_false_iff_ne, beq_eq_false_iff_ne]
  exact ⟨Text.ne_of_property p c _ hc hfeed, Text.ne_of_property p c _ hc hreturn⟩

/-- A line end is a line feed, with a return before it or not. -/
theorem newline_cases (h : Lexes mode last piece next rest) (hkind : piece.kind = some .newline) :
    next = .declaration ∧
      (piece = .token .newline ['\n'] ∨ piece = .token .newline ['\r', '\n']) := by
  cases h with
  | lineFeed => exact ⟨rfl, .inl rfl⟩
  | returnFeed => exact ⟨rfl, .inr rfl⟩
  | mark hmark =>
    cases hkind
    exact absurd (kind_of_mark hmark) (by decide)
  | sign hmark =>
    cases hkind
    exact absurd (kind_of_sign hmark) (by decide)
  | word => exact absurd (Option.some.inj hkind) (declaredKind_ne _ (by decide))
  | name => exact absurd (Option.some.inj hkind) (namedKind_ne _ _ (by decide))
  | _ => cases hkind

/-- No token other than line ends and rule text holds a line feed or return. -/
theorem oneLine_of_token (h : Lexes mode last piece next rest) (hkind : piece.kind ≠ none)
    (htext : piece.kind ≠ some .text) (hline : piece.kind ≠ some .newline) :
    ∀ c ∈ piece.text, isLineEnd c = false := by
  have hdigit (c : Char) (hc : Text.isDigit c = true) : isLineEnd c = false :=
    isLineEnd_eq_false_of (by decide) (by decide) hc
  have hletter (c : Char) (hc : Text.isLetter c = true) : isLineEnd c = false :=
    isLineEnd_eq_false_of (by decide) (by decide) hc
  have hname (c : Char) (hc : Text.continuesName c = true) : isLineEnd c = false :=
    isLineEnd_eq_false_of (by decide) (by decide) hc
  cases h with
  | lineFeed | returnFeed => exact absurd rfl hline
  | lineComment | blockComment | blanks | spaces => exact absurd rfl hkind
  | text => exact absurd rfl htext
  | colon | openBrace | closeBrace => exact List.forall_mem_singleton.mpr (by decide)
  | mark hmark =>
    refine List.forall_mem_singleton.mpr ?_
    rcases mark_cases _ _ hmark with rfl | rfl | rfl | rfl <;> decide
  | sign hmark =>
    refine List.forall_mem_singleton.mpr ?_
    rcases sign_cases _ _ hmark with rfl | rfl | rfl | rfl <;> decide
  | number hc hdigits hfraction =>
    refine List.forall_mem_cons.mpr ⟨hdigit _ hc, List.forall_mem_append.mpr ⟨?_, ?_⟩⟩
    · exact fun d hd => hdigit d (hdigits d hd)
    · rcases hfraction with rfl | ⟨digits, rfl, -, hdigits⟩
      · exact nofun
      · exact List.forall_mem_cons.mpr ⟨by decide, fun d hd => hdigit d (hdigits d hd)⟩
  | word hc htail | name hc htail =>
    exact List.forall_mem_cons.mpr ⟨hletter _ hc, fun d hd => hname d (htail d hd)⟩
  | dice hcount hsides =>
    refine List.forall_mem_append.mpr ⟨fun d hd => hdigit d (hcount d hd), ?_⟩
    exact List.forall_mem_cons.mpr ⟨by decide, fun d hd => hdigit d (hsides d hd)⟩

/-- A line comment goes up to a line feed or to the end of the source. -/
theorem ended_of_lineComment {body : List Char}
    (h : Lexes mode last (.trivia ('/' :: '/' :: body)) next rest) :
    next = mode ∧ '\n' ∉ body ∧ (rest = [] ∨ rest.head? = some '\n') := by
  rcases trivia_cases h rfl with
    ⟨body', hpiece, hnext, hbody, hrest⟩ | ⟨body', hpiece, -, -⟩ | ⟨run, hpiece, -, hgap⟩
  · obtain rfl : body = body' := by simpa [Piece.trivia] using hpiece
    refine ⟨hnext, hbody, ?_⟩
    cases rest with
    | nil => exact .inl rfl
    | cons c rest =>
      right
      simpa using hrest
  · simp [Piece.trivia] at hpiece
  · obtain rfl : '/' :: '/' :: body = run := by simpa [Piece.trivia] using hpiece
    have hblank := hgap.blank '/' List.mem_cons_self
    rw [isBlankIn_slash] at hblank
    cases hblank

/-- Only line ends and block comments hold a line feed. -/
theorem lineFeed_cases (h : Lexes mode last piece next rest) (hmem : '\n' ∈ piece.text) :
    piece.kind = some .newline ∨
      ∃ body, piece = .trivia ('/' :: '*' :: (body ++ ['*', '/'])) ∧ next = modeAfter mode body ∧
        IsCommentBody body := by
  by_cases hkind : piece.kind = none
  · rcases trivia_cases h hkind with
      ⟨body, rfl, -, hbody, -⟩ | hblock | ⟨run, rfl, -, hgap⟩
    · rw [Piece.trivia, List.mem_cons, List.mem_cons] at hmem
      rcases hmem with hmem | hmem | hmem
      · exact absurd hmem (by decide)
      · exact absurd hmem (by decide)
      · exact absurd hmem hbody
    · exact .inr hblock
    · rcases isLineBlank_of_isBlankIn mode _ (hgap.blank _ hmem) with hc | hc | hc <;>
        exact absurd hc (by decide)
  by_cases htext : piece.kind = some .text
  · obtain ⟨s, rfl, -, -, hplain, -⟩ := text_of_lexes h htext
    exact absurd hmem hplain.oneLine
  by_cases hline : piece.kind = some .newline
  · exact .inl hline
  · exact absurd (oneLine_of_token h hkind htext hline _ hmem) (by decide)

/-- Of all pieces only a line comment takes the return of a line end and leaves its line feed. -/
theorem comment_of_return (h : Lexes mode last piece next rest)
    (hreturn : piece.text.getLast? = some '\r') (hfeed : rest.head? = some '\n') :
    ∃ body, piece = .trivia ('/' :: '/' :: (body ++ ['\r'])) ∧ '\n' ∉ body := by
  have hmem : '\r' ∈ piece.text := List.mem_of_getLast? hreturn
  -- Blanks and rule text leave a return that a line feed follows, and no other piece holds one.
  by_cases hkind : piece.kind = none
  · rcases trivia_cases h hkind with
      ⟨body, rfl, -, hbody, -⟩ | ⟨body, rfl, -, -⟩ | ⟨run, rfl, -, hgap⟩
    · rcases body.eq_nil_or_concat with rfl | ⟨body, c, rfl⟩
      · exact absurd hreturn (by decide)
      · rw [List.concat_eq_append] at hreturn hbody ⊢
        change ('/' :: '/' :: body ++ [c]).getLast? = some '\r' at hreturn
        rw [List.getLast?_concat, Option.some.injEq] at hreturn
        subst hreturn
        exact ⟨body, rfl, fun hfeed => hbody (List.mem_append_left _ hfeed)⟩
    · have hslash : '/' :: '*' :: (body ++ ['*', '/']) =
          '/' :: '*' :: (body ++ ['*']) ++ ['/'] := by
        simp
      rw [Piece.trivia, hslash, List.getLast?_concat] at hreturn
      exact absurd hreturn (by decide)
    · exact absurd hfeed (hgap.returnAlone hreturn)
  by_cases htext : piece.kind = some .text
  · obtain ⟨s, rfl, -, -, -, hends⟩ := text_of_lexes h htext
    exact absurd hfeed (hends.returnAlone hreturn)
  by_cases hline : piece.kind = some .newline
  · rcases (newline_cases h hline).2 with rfl | rfl <;> exact absurd hreturn (by decide)
  · exact absurd (oneLine_of_token h hkind htext hline _ hmem) (by decide)

end Pieces

end RandomTables
