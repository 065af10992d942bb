import RandomTables.Proofs.Token.Ahead

namespace RandomTables
open Text (Stops)

section Gaps
variable {mode next : Mode} {last : Option TokenKind} {piece : Piece} {rest : List Char}

def opensGap (c : Char) : Bool :=
  c == '/' || isInlineBlank c

/-- Blanks and comments begin with a space, a tab or a slash. -/
theorem opensGap_iff (c : Char) : opensGap c = true ↔ c = '/' ∨ c = ' ' ∨ c = '\t' := by
  simp [opensGap, isInlineBlank]

theorem continuesName_of_opensGap (c : Char) (h : opensGap c = true) :
    Text.continuesName c = false := by
  rcases (opensGap_iff c).mp h with rfl | rfl | rfl <;> decide

theorem continuesWord_of_opensGap (c : Char) (h : opensGap c = true) :
    Text.continuesWord c = false := by
  rcases (opensGap_iff c).mp h with rfl | rfl | rfl <;> decide

theorem clingsToNumber_of_opensGap (c : Char) (h : opensGap c = true) :
    clingsToNumber c = false := by
  rcases (opensGap_iff c).mp h with rfl | rfl | rfl <;> decide

/-- A token other than text ends where a gap is opened, unless the two open a comment together. -/
theorem lexes_before_gap (hlexes : Lexes mode last piece next rest) (c : Char) (after : List Char)
    (hc : opensGap c = true) (hkind : piece.kind ≠ none) (htext : piece.kind ≠ some .text)
    (hslash : c = '/' → piece.kind ≠ some .slash) :
    Lexes mode last piece next (c :: after) := by
  have hname := continuesName_of_opensGap c hc
  have hword := continuesWord_of_opensGap c hc
  cases hlexes with
  | lineFeed => exact .lineFeed
  | returnFeed => exact .returnFeed
  | lineComment | blockComment | blanks | spaces => exact absurd rfl hkind
  | text => exact absurd rfl htext
  | mark hmark => exact .mark hmark
  | colon => exact .colon
  | openBrace => exact .openBrace
  | closeBrace => exact .closeBrace
  | number hd hdigits hfraction _ hpos =>
    exact .number hd hdigits hfraction (clingsToNumber_of_opensGap c hc) hpos
  | word hd htail => exact .word hd htail hname
  | dice hcount hsides hne _ hannounced hlcount hlsides hread =>
    exact .dice hcount hsides hne hword hannounced hlcount hlsides hread
  | name hd htail _ hdice => exact .name hd htail hname hdice
  | @sign _ d kind _ hmark _ =>
    -- The slash is the one sign that could open a comment.
    refine .sign hmark ?_
    rw [← Bool.not_eq_true, startsComment_cons]
    intro hcomment
    obtain ⟨rfl, hnext⟩ := hcomment
    cases hmark
    rcases (opensGap_iff c).mp hc with rfl | rfl | rfl
    · exact hslash rfl rfl
    · simp at hnext
    · simp at hnext

/-- A piece that is one return or slash makes no line end or comment with what follows it. -/
theorem single_of_takes (h : Takes mode last piece next rest) :
    (piece.text = ['\r'] → rest.head? ≠ some '\n') ∧
    (piece.text = ['/'] → startsComment ('/' :: rest) = false ∧
      (piece.kind = some .slash ∨ piece.kind = some .text)) := by
  obtain ⟨kind, value, text⟩ := piece
  obtain ⟨c, tail, hpiece, hstep⟩ := h
  dsimp only at hpiece hstep ⊢
  constructor
  · intro htext hnext
    rw [htext] at hpiece
    obtain ⟨rfl, rfl⟩ := List.cons_eq_cons.mp hpiece
    rw [List.nil_append, step.eq_def, if_neg (by decide), if_pos ⟨rfl, hnext⟩] at hstep
    cases hstep
  · intro htext
    rw [htext] at hpiece
    obtain ⟨rfl, rfl⟩ := List.cons_eq_cons.mp hpiece
    rw [List.nil_append] at hstep
    -- A comment is longer than its first slash.
    have hcomment : startsComment ('/' :: rest) = false := by
      rw [← Bool.not_eq_true, startsComment_cons]
      intro hcomment
      rw [step_of_comment mode last rest hcomment.2, stepComment] at hstep
      split at hstep
      · rename_i hslash
        cases rest with
        | nil => cases hslash
        | cons d rest =>
          obtain rfl : d = '/' := Option.some.inj hslash
          cases hstep
      · split at hstep
        · simp only [Except.ok.injEq, Bite.trivia, Bite.mk.injEq, List.length_nil] at hstep
          omega
        · cases hstep
    -- A slash on its own is no token of a declaration, but text in a rule, a sign in an expression.
    refine ⟨hcomment, ?_⟩
    obtain ⟨hdeclaration, hcontent, hexpression⟩ :=
      step_of_mode last '/' rest (startsLineEnd_of_ne '/' rest (by decide) (by decide)) hcomment
    cases mode with
    | declaration =>
      rw [hdeclaration] at hstep
      cases hstep
    | ruleContent =>
      rw [hcontent] at hstep
      injection hstep with hbite
      injection hbite with hkind
      exact .inr hkind.symm
    | expression =>
      rw [hexpression] at hstep
      cases hstep
      exact .inl rfl

/-- To the pieces before a piece it is all the same whether a gap is opened after it. -/
theorem sameAhead_before_gap (h : Takes mode last piece next rest) (c : Char)
    (after : List Char) (hc : opensGap c = true) (hslash : c = '/' → piece.text ≠ ['/']) :
    SameAhead (piece.text ++ rest) (piece.text ++ c :: after) := by
  obtain ⟨hreturn, hcomment⟩ := single_of_takes h
  have hne := text_ne_nil_of_takes h
  -- Only past a piece of one character can the gap be seen from before it.
  rcases htext : piece.text with _ | ⟨d, _ | ⟨e, s⟩⟩
  · exact absurd htext hne
  · rw [htext] at hreturn hcomment hslash
    constructor
    · rfl
    · rw [Bool.eq_iff_iff, List.singleton_append, List.singleton_append, startsLineEnd_cons,
        startsLineEnd_cons]
      have hfeed : c ≠ '\n' := by
        rintro rfl
        exact absurd hc (by decide)
      have hd : d = '\r' → rest.head? ≠ some '\n' := fun h => hreturn (h ▸ rfl)
      simp only [List.head?_cons, Option.some.injEq, hfeed, and_false, or_false]
      exact or_iff_left fun h => hd h.1 h.2
    · rw [List.singleton_append, List.singleton_append]
      by_cases hd : d = '/'
      · subst hd
        rw [(hcomment rfl).1, eq_comm, ← Bool.not_eq_true, startsComment_cons]
        intro hnext
        rcases (opensGap_iff c).mp hc with rfl | rfl | rfl
        · exact hslash rfl rfl
        · simp at hnext
        · simp at hnext
      · rw [startsComment_of_ne d _ hd, startsComment_of_ne d _ hd]
  · exact sameAhead_cons_cons d e s rest (c :: after)

def isBlankIn : Mode → Char → Bool
  | .declaration, c => isLineBlank c
  | .ruleContent, _ => false
  | .expression, c => isInlineBlank c

/-- A run of blanks that are left out in a mode, as one piece before `rest`. -/
structure IsGap (mode : Mode) (run rest : List Char) : Prop where
  nonempty : run ≠ []
  blank : ∀ c ∈ run, isBlankIn mode c = true
  returnAlone : run.getLast? = some '\r' → rest.head? ≠ some '\n'
  ended : Stops (isBlankIn mode) rest ∨ startsLineEnd rest = true

/-- By the mode, each of which has blanks of its own. -/
theorem lexes_of_isGap (run : List Char) (h : IsGap mode run rest) :
    Lexes mode last (.trivia run) mode rest := by
  cases mode with
  | declaration => exact .blanks h.nonempty ⟨h.blank, h.returnAlone, h.ended⟩
  | ruleContent =>
    obtain ⟨c, run, rfl⟩ := List.exists_cons_of_ne_nil h.nonempty
    exact absurd (h.blank c List.mem_cons_self) (by simp [isBlankIn])
  | expression =>
    -- A line end is no blank of an expression, so it stops the run too.
    refine .spaces h.nonempty h.blank ?_
    rcases h.ended with hstops | hline
    · exact hstops
    · cases rest with
      | nil => trivial
      | cons c rest =>
        rw [Text.stops_cons]
        rcases (startsLineEnd_cons c rest).mp hline with rfl | ⟨rfl, -⟩ <;> decide

/-- What leaves no token is a line comment, a block comment or a gap. -/
theorem trivia_cases (hlexes : Lexes mode last piece next rest) (hkind : piece.kind = none) :
    (∃ body, piece = .trivia ('/' :: '/' :: body) ∧ next = mode ∧ '\n' ∉ body ∧
      Stops (· ≠ '\n') rest) ∨
    (∃ body, piece = .trivia ('/' :: '*' :: (body ++ ['*', '/'])) ∧ next = modeAfter mode body ∧
      IsCommentBody body) ∨
    (∃ run, piece = .trivia run ∧ next = mode ∧ IsGap mode run rest) := by
  cases hlexes with
  | lineComment hbody hrest => exact .inl ⟨_, rfl, rfl, hbody, hrest⟩
  | blockComment hbody => exact .inr (.inl ⟨_, rfl, rfl, hbody⟩)
  | blanks hne hrun =>
    exact .inr (.inr ⟨_, rfl, rfl, hne, hrun.blank, hrun.returnAlone, hrun.ended⟩)
  | @spaces _ run _ hne hrun hrest =>
    refine .inr (.inr ⟨_, rfl, rfl, hne, hrun, ?_, .inl hrest⟩)
    intro hlast
    exact absurd (hrun _ (List.mem_of_getLast? hlast)) (by decide)
  | _ => cases hkind

theorem isLineBlank_of_isBlankIn (mode : Mode) (c : Char) (h : isBlankIn mode c = true) :
    c = ' ' ∨ c = '\t' ∨ c = '\r' := by
  cases mode with
  | declaration => exact (isLineBlank_iff c).mp h
  | ruleContent => cases h
  | expression =>
    have hinline : c = ' ' ∨ c = '\t' := by simpa [isBlankIn, isInlineBlank] using h
    rcases hinline with hc | hc
    · exact .inl hc
    · exact .inr (.inl hc)

theorem isBlankIn_slash (mode : Mode) : isBlankIn mode '/' = false := by
  cases mode <;> decide

theorem isBlankIn_of_isInlineBlank (mode : Mode) (c : Char) (hmode : mode ≠ .ruleContent)
    (h : isInlineBlank c = true) : isBlankIn mode c = true := by
  cases mode with
  | declaration =>
    simp only [isInlineBlank, Bool.or_eq_true, beq_iff_eq] at h
    simp [isBlankIn, isLineBlank, h]
  | ruleContent => exact absurd rfl hmode
  | expression => exact h

/-- The scanner leaves out a blank that begins no line end. -/
theorem kind_of_blank (h : Takes mode last piece next rest) (c : Char) (after : List Char)
    (htext : piece.text ++ rest = c :: after) (hc : isBlankIn mode c = true)
    (hline : startsLineEnd (c :: after) = false) : piece.kind = none := by
  obtain ⟨kind, value, text⟩ := piece
  obtain ⟨d, tail, rfl, hstep⟩ := h
  obtain ⟨rfl, rfl⟩ := List.cons_eq_cons.mp htext
  have hslash : d ≠ '/' := by
    rintro rfl
    exact absurd hc (by simp [isBlankIn_slash])
  obtain ⟨hdeclaration, -, hexpression⟩ :=
    step_of_mode last d (tail ++ rest) hline (startsComment_of_ne d _ hslash)
  cases mode with
  | declaration =>
    rw [hdeclaration, stepDeclaration, if_pos (isLineBlank_of_isBlankIn .declaration d hc)] at hstep
    injection hstep with hbite
    injection hbite with hkind
    exact hkind.symm
  | ruleContent => cases hc
  | expression =>
    have hinline : isInlineBlank d = true := hc
    rw [hexpression, stepExpression, if_pos hinline] at hstep
    injection hstep with hbite
    injection hbite with hkind
    exact hkind.symm

/-- A piece that is no gap does not begin with a blank, other than as a line end. -/
theorem gap_or_stops (h : Takes mode last piece next rest) :
    (∃ run, piece = .trivia run ∧ next = mode ∧ IsGap mode run rest) ∨
      Stops (isBlankIn mode) (piece.text ++ rest) ∨ startsLineEnd (piece.text ++ rest) = true := by
  obtain ⟨c, tail, htext, -⟩ := id h
  have hsplit : piece.text ++ rest = c :: (tail ++ rest) := by rw [htext, List.cons_append]
  cases hline : startsLineEnd (piece.text ++ rest) with
  | true => exact .inr (.inr rfl)
  | false =>
    cases hc : isBlankIn mode c with
    | false =>
      rw [hsplit]
      exact .inr (.inl hc)
    | true =>
      rw [hsplit] at hline
      have hkind := kind_of_blank h c _ hsplit hc hline
      -- Comments begin with a slash and not with a blank.
      rcases trivia_cases (takes_iff_lexes.mp h) hkind with
        ⟨body, rfl, -⟩ | ⟨body, rfl, -⟩ | hgap
      · obtain ⟨rfl, -⟩ := List.cons_eq_cons.mp htext
        exact absurd hc (by simp [isBlankIn_slash])
      · obtain ⟨rfl, -⟩ := List.cons_eq_cons.mp htext
        exact absurd hc (by simp [isBlankIn_slash])
      · exact .inl hgap

end Gaps

end RandomTables
