import RandomTables.Proofs.Token.Gap
import RandomTables.Proofs.Token.Shape

namespace RandomTables
open Text (Stops)

def IsInlineComment (w : List Char) : Prop :=
  ∃ body, w = '/' :: '*' :: (body ++ ['*', '/']) ∧ '\n' ∉ body ∧ IsCommentBody body

def Token.face (t : Token) : TokenKind × String × Option TokenValue :=
  (t.kind, t.lexeme, t.value)

/-- The tokens differ in their places only or, if they are line ends, in their characters too. -/
structure Token.SameWord (t t' : Token) : Prop where
  kind : t.kind = t'.kind
  value : t.value = t'.value
  lexeme : t.kind ≠ .newline → t.lexeme = t'.lexeme

def faces (pieces : List Piece) : List (TokenKind × String × Option TokenValue) :=
  pieces.filterMap fun piece =>
    piece.kind.map fun kind => (kind, String.ofList piece.text, piece.value)

theorem Token.sameWord_of_face {t t' : Token} (h : t.face = t'.face) : t.SameWord t' := by
  simp only [Token.face, Prod.mk.injEq] at h
  exact ⟨h.1, h.2.2, fun _ => h.2.1⟩

theorem Token.SameWord.symm {t t' : Token} (h : t.SameWord t') : t'.SameWord t :=
  ⟨h.kind.symm, h.value.symm, fun hkind => (h.lexeme (h.kind ▸ hkind)).symm⟩

theorem faces_append (pieces pieces' : List Piece) :
    faces (pieces ++ pieces') = faces pieces ++ faces pieces' :=
  List.filterMap_append

theorem faces_cons (piece : Piece) (pieces : List Piece) :
    faces (piece :: pieces) = faces [piece] ++ faces pieces :=
  faces_append [piece] pieces

theorem faces_trivia (text : List Char) (pieces : List Piece) :
    faces (.trivia text :: pieces) = faces pieces := rfl

/-- Without their places, tokens are the same wherever their pieces begin. -/
theorem map_face_tokensFrom (offset : Nat) (pieces : List Piece) :
    (tokensFrom offset pieces).map Token.face = faces pieces := by
  induction pieces generalizing offset with
  | nil => rfl
  | cons piece pieces ih =>
    obtain ⟨kind, value, text⟩ := piece
    rw [tokensFrom, List.map_append, ih]
    cases kind <;> rfl

section Insertions
variable {before mode mode' : Mode} {earlier last last' : Option TokenKind}
variable {piece : Piece} {pieces : List Piece}

/-- Blanks before the pieces become a gap, with the blanks that the pieces begin with. -/
theorem reads_blanks (run : List Char) (hne : run ≠ [])
    (hblank : ∀ c ∈ run, isBlankIn mode c = true) (hreturn : run.getLast? ≠ some '\r')
    (hreads : Reads [] mode last pieces mode' last') :
    ∃ tail, textOf tail = run ++ textOf pieces ∧ Reads [] mode last tail mode' last' ∧
      faces tail = faces pieces := by
  cases hreads with
  | nil =>
    have hgap : IsGap _ run (textOf [] ++ []) :=
      ⟨hne, hblank, fun h => absurd h hreturn, .inl trivial⟩
    refine ⟨[.trivia run], by simp [Piece.trivia], ?_, rfl⟩
    exact .cons (takes_of_lexes (lexes_of_isGap run hgap)) .nil
  | @cons _ _ piece pieces next _ _ htakes htail =>
    rcases gap_or_stops htakes with ⟨run', rfl, rfl, hgap⟩ | hstops
    · -- The blanks meet those of the first piece, and the two runs are one.
      have hgap' : IsGap next (run ++ run') (textOf pieces ++ []) := by
        refine ⟨by simp [hne], ?_, ?_, hgap.ended⟩
        · exact List.forall_mem_append.mpr ⟨hblank, hgap.blank⟩
        · rw [List.getLast?_append_of_ne_nil _ hgap.nonempty]
          exact hgap.returnAlone
      refine ⟨.trivia (run ++ run') :: pieces, by simp [Piece.trivia], ?_, rfl⟩
      exact .cons (takes_of_lexes (lexes_of_isGap _ hgap')) htail
    · have hgap : IsGap mode run (textOf (piece :: pieces) ++ []) := by
        refine ⟨hne, hblank, fun h => absurd h hreturn, ?_⟩
        rw [textOf_cons, List.append_assoc]
        exact hstops
      refine ⟨.trivia run :: piece :: pieces, by simp [Piece.trivia], ?_, rfl⟩
      exact .cons (takes_of_lexes (lexes_of_isGap run hgap)) (.cons htakes htail)

/-- A block comment within a line is taken in every mode, and leads to no other. -/
theorem takes_inlineComment {rest : List Char} (w : List Char) (h : IsInlineComment w) :
    Takes mode last (.trivia w) mode rest := by
  obtain ⟨body, rfl, hfeed, hbody⟩ := h
  have hmode : modeAfter mode body = mode := by
    rw [modeAfter, if_neg (by simpa using hfeed)]
  have := takes_of_lexes (@Lexes.blockComment mode last body rest hbody)
  rwa [hmode] at this

theorem endsText_before_comment (s rest : List Char) (hs : EndsBlank s) :
    EndsText s ('/' :: '*' :: rest) := by
  refine ⟨fun _ => by simp, .inr (.inr (.inr (.inr ⟨?_, hs⟩)))⟩
  simp

/-- A line comment takes in all of the line that is put after it. -/
theorem insert_after_lineComment (body w : List Char) (hbody : '\n' ∉ body) (hw : '\n' ∉ w)
    (hrest : Stops (· ≠ '\n') (textOf pieces)) (hreads : Reads [] mode last pieces mode' last') :
    ∃ tail, textOf tail = '/' :: '/' :: body ++ (w ++ textOf pieces) ∧
      Reads [] mode last tail mode' last' ∧ faces tail = faces pieces := by
  refine ⟨.trivia ('/' :: '/' :: (body ++ w)) :: pieces, by simp [Piece.trivia], ?_, rfl⟩
  have hbody' : '\n' ∉ body ++ w := by simp [hbody, hw]
  rw [← List.append_nil (textOf pieces)] at hrest
  exact .cons (takes_of_lexes (.lineComment hbody' hrest)) hreads

/-- Blanks become a part of blanks behind them, or a piece of their own. -/
theorem insert_blanks (w : List Char) (hne : w ≠ []) (hw : ∀ c ∈ w, isInlineBlank c = true)
    (hmode : mode ≠ .ruleContent) (h : Takes before earlier piece mode (textOf pieces))
    (hreads : Reads [] mode (piece.kind.or earlier) pieces mode' last') :
    ∃ tail, textOf tail = piece.text ++ (w ++ textOf pieces) ∧
      Reads [] before earlier tail mode' last' ∧ faces tail = faces (piece :: pieces) := by
  have hblank : ∀ c ∈ w, isBlankIn mode c = true :=
    fun c hc => isBlankIn_of_isInlineBlank mode c hmode (hw c hc)
  have hreturn : w.getLast? ≠ some '\r' := by
    intro hlast
    exact absurd (hw _ (List.mem_of_getLast? hlast)) (by decide)
  have hfeed : '\n' ∉ w := fun h => absurd (hw _ h) (by decide)
  -- Where the piece stays as it is, the blanks are read in front of what follows.
  have hkept (hpiece : Lexes before earlier piece mode (w ++ textOf pieces)) :
      ∃ tail, textOf tail = piece.text ++ (w ++ textOf pieces) ∧
        Reads [] before earlier tail mode' last' ∧ faces tail = faces (piece :: pieces) := by
    obtain ⟨tail, htext, htail, hfaces⟩ := reads_blanks w hne hblank hreturn hreads
    rw [← htext, ← List.append_nil (textOf tail)] at hpiece
    refine ⟨piece :: tail, by rw [textOf_cons, htext], .cons (takes_of_lexes hpiece) htail, ?_⟩
    rw [faces_cons, hfaces, ← faces_cons]
  have hlexes := takes_iff_lexes.mp h
  by_cases hkind : piece.kind = none
  · rcases trivia_cases hlexes hkind with
      ⟨body, rfl, rfl, hbody, hrest⟩ | ⟨body, rfl, rfl, hbody⟩ | ⟨run, rfl, rfl, hgap⟩
    · exact insert_after_lineComment body w hbody hfeed hrest hreads
    · exact hkept (.blockComment hbody)
    · -- The piece was a run of blanks, which is read again with the new ones at its end.
      obtain ⟨tail, htext, htail, hfaces⟩ := reads_blanks (run ++ w) (by simp [hne])
        (List.forall_mem_append.mpr ⟨hgap.blank, hblank⟩)
        (by rwa [List.getLast?_append_of_ne_nil _ hne]) hreads
      exact ⟨tail, by rw [htext, List.append_assoc]; rfl, htail, hfaces⟩
  · obtain ⟨c, w, rfl⟩ := List.exists_cons_of_ne_nil hne
    have hc := hw c List.mem_cons_self
    refine hkept (lexes_before_gap hlexes c _ ?_ hkind ?_ ?_)
    · rw [opensGap, hc, Bool.or_true]
    · intro htext
      obtain ⟨s, -, -, hcontent, -⟩ := text_of_lexes hlexes htext
      exact hmode hcontent
    · rintro rfl
      exact absurd hc (by decide)

/-- A comment is taken as it is, if nothing before it takes a part of it. -/
theorem insert_comment (w : List Char) (hw : IsInlineComment w)
    (hslash : piece.kind ≠ some .slash) (htext : piece.kind = some .text → EndsBlank piece.text)
    (h : Takes before earlier piece mode (textOf pieces))
    (hreads : Reads [] mode (piece.kind.or earlier) pieces mode' last') :
    ∃ tail, textOf tail = piece.text ++ (w ++ textOf pieces) ∧
      Reads [] before earlier tail mode' last' ∧ faces tail = faces (piece :: pieces) := by
  have hcomment : Reads [] mode (piece.kind.or earlier) (.trivia w :: pieces) mode' last' :=
    .cons (takes_inlineComment w hw) hreads
  -- Where the piece stays as it is, the comment is a piece after it.
  have hkept (hpiece : Lexes before earlier piece mode (w ++ textOf pieces)) :
      ∃ tail, textOf tail = piece.text ++ (w ++ textOf pieces) ∧
        Reads [] before earlier tail mode' last' ∧ faces tail = faces (piece :: pieces) := by
    rw [← List.append_nil (w ++ textOf pieces)] at hpiece
    exact ⟨piece :: .trivia w :: pieces, by simp [Piece.trivia],
      .cons (takes_of_lexes hpiece) hcomment, by rw [faces_cons, faces_trivia, ← faces_cons]⟩
  have hlexes := takes_iff_lexes.mp h
  obtain ⟨body, rfl, hfeed, hbody⟩ := hw
  by_cases hkind : piece.kind = none
  · rcases trivia_cases hlexes hkind with
      ⟨body', rfl, rfl, hbody', hrest⟩ | ⟨body', rfl, rfl, hbody'⟩ | ⟨run, rfl, rfl, hgap⟩
    · exact insert_after_lineComment body' _ hbody' (by simp [hfeed]) hrest hreads
    · exact hkept (.blockComment hbody')
    · refine hkept (lexes_of_isGap run ⟨hgap.nonempty, hgap.blank, by simp, .inl ?_⟩)
      exact (Text.stops_cons _ _ _).mpr (isBlankIn_slash _)
  by_cases hkindText : piece.kind = some .text
  · obtain ⟨s, rfl, rfl, rfl, hplain, hends⟩ := text_of_lexes hlexes hkindText
    exact hkept (.text hplain (endsText_before_comment s _ (htext rfl)))
  · exact hkept (lexes_before_gap hlexes '/' _ rfl hkind hkindText fun _ => hslash)

end Insertions

end RandomTables
