import RandomTables.Proofs.Token.Reading

namespace RandomTables
open Text (Stops)

/-- The texts begin with the same character, and both or neither with a line end or a comment. -/
structure SameAhead (rest rest' : List Char) : Prop where
  head : rest.head? = rest'.head?
  lineEnd : startsLineEnd rest = startsLineEnd rest'
  comment : startsComment rest = startsComment rest'

section Ahead
variable {rest rest' : List Char}

/-- One character is enough to tell that a run ends. -/
theorem stops_of_sameAhead (h : SameAhead rest rest') (p : Char → Bool) (hstops : Stops p rest) :
    Stops p rest' := by
  rw [Text.stops_iff_head] at hstops ⊢
  rw [← h.head]
  exact hstops

theorem nil_of_sameAhead (h : SameAhead rest rest') (hnil : rest = []) : rest' = [] := by
  have hhead := h.head
  rw [hnil] at hhead
  exact List.head?_eq_none_iff.mp hhead.symm

/-- Nothing of a text is looked at beyond its second character. -/
theorem sameAhead_cons_cons (c d : Char) (s rest rest' : List Char) :
    SameAhead (c :: d :: s ++ rest) (c :: d :: s ++ rest') := by
  constructor
  · rfl
  · simp [startsLineEnd]
  · simp [startsComment]

theorem sameAhead_append (s : List Char) (h : SameAhead rest rest') :
    SameAhead (s ++ rest) (s ++ rest') := by
  rcases s with _ | ⟨c, _ | ⟨d, s⟩⟩
  · exact h
  · constructor
    · rfl
    · simp [startsLineEnd, h.head]
    · simp [startsComment, h.head]
  · exact sameAhead_cons_cons c d s rest rest'

theorem isBlankRun_of_sameAhead (h : SameAhead rest rest') (run : List Char)
    (hrun : IsBlankRun run rest) : IsBlankRun run rest' := by
  refine ⟨hrun.blank, ?_, ?_⟩
  · rw [← h.head]
    exact hrun.returnAlone
  · rcases hrun.ended with hended | hended
    · exact .inl (stops_of_sameAhead h _ hended)
    · exact .inr (h.lineEnd ▸ hended)

/-- Text is ended by a character, a line end or a comment. -/
theorem endsText_of_sameAhead (h : SameAhead rest rest') (s : List Char) (hs : EndsText s rest) :
    EndsText s rest' := by
  refine ⟨?_, ?_⟩
  · rw [← h.head]
    exact hs.returnAlone
  · rw [← h.head, ← h.lineEnd, ← h.comment]
    rcases hs.ended with hended | hended
    · exact .inl (nil_of_sameAhead h hended)
    · exact .inr hended

theorem startsComment_of_sameAhead (h : SameAhead rest rest') (c : Char) :
    startsComment (c :: rest) = startsComment (c :: rest') := by
  simp [startsComment, h.head]

/-- By the rule of the piece: none looks further ahead. -/
theorem lexes_of_sameAhead {mode : Mode} {last : Option TokenKind} {piece : Piece} {next : Mode}
    (h : SameAhead rest rest') (hlexes : Lexes mode last piece next rest) :
    Lexes mode last piece next rest' := by
  cases hlexes with
  | lineFeed => exact .lineFeed
  | returnFeed => exact .returnFeed
  | lineComment hbody hrest => exact .lineComment hbody (stops_of_sameAhead h _ hrest)
  | blockComment hbody => exact .blockComment hbody
  | blanks hne hrun => exact .blanks hne (isBlankRun_of_sameAhead h _ hrun)
  | mark hmark => exact .mark hmark
  | colon => exact .colon
  | number hc hdigits hfraction hrest hpos =>
    exact .number hc hdigits hfraction (stops_of_sameAhead h _ hrest) hpos
  | word hc htail hrest => exact .word hc htail (stops_of_sameAhead h _ hrest)
  | openBrace => exact .openBrace
  | text hplain hends => exact .text hplain (endsText_of_sameAhead h _ hends)
  | spaces hne hrun hrest => exact .spaces hne hrun (stops_of_sameAhead h _ hrest)
  | closeBrace => exact .closeBrace
  | sign hmark hcomment =>
    exact .sign hmark (startsComment_of_sameAhead h _ ▸ hcomment)
  | dice hcount hsides hne hrest hname hlcount hlsides hread =>
    exact .dice hcount hsides hne (stops_of_sameAhead h _ hrest) hname hlcount hlsides hread
  | name hc htail hrest hdice => exact .name hc htail (stops_of_sameAhead h _ hrest) hdice

/-- By induction on the pieces, of which the last is the one next to what follows. -/
theorem reads_of_sameAhead {mode mode' : Mode} {last last' : Option TokenKind}
    {pieces : List Piece} (h : SameAhead rest rest')
    (hreads : Reads rest mode last pieces mode' last') :
    Reads rest' mode last pieces mode' last' := by
  induction hreads with
  | nil => exact .nil
  | cons htakes _ ih =>
    -- Behind the piece stand the other pieces first, the same in both texts.
    have hlexes := lexes_of_sameAhead (sameAhead_append _ h) (takes_iff_lexes.mp htakes)
    exact .cons (takes_iff_lexes.mpr hlexes) ih

end Ahead

end RandomTables
