import RandomTables.Proofs.Token.Insertion

namespace RandomTables

/-- Between `u` and `v`, of which `u` is read up to its end, or ends within a text, something is put
that leaves no token: a comment or, outside of rule content, blanks. A comment may not follow a
slash, which would open another one with it, and in rule content it is only told from text after a
colon, a closing brace, another comment, a space or a tab. -/
inductive Insertion (u w v : List Char) : Prop
  | comment {pieces mode last} : textOf pieces = u → Reads v .declaration none pieces mode last →
      IsInlineComment w → (∀ piece ∈ pieces.getLast?, piece.kind ≠ some .slash) →
      (mode = .ruleContent → EndsBlank u ∨
        ∃ piece ∈ pieces.getLast?, piece.kind ∈ [none, some .colon, some .rightBrace]) →
      Insertion u w v
  | commentInText {pieces s t rest mode last} : u = textOf pieces ++ s → v = t ++ rest →
      t ≠ [] → EndsBlank s →
      Reads rest .declaration none (pieces ++ [.token .text (s ++ t)]) mode last →
      IsInlineComment w → Insertion u w v
  | blanks {pieces mode last} : textOf pieces = u → Reads v .declaration none pieces mode last →
      mode ≠ .ruleContent → (∀ c ∈ w, isInlineBlank c = true) → Insertion u w v

/-- The second tokens are the first, but that one text may be cut in two. -/
def SameButCut (faces faces' : List (TokenKind × String × Option TokenValue)) : Prop :=
  faces' = faces ∨ ∃ before s t after, faces = before ++ (.text, s ++ t, none) :: after ∧
    faces' = before ++ (.text, s, none) :: (.text, t, none) :: after

section Sites
variable {mode mode' : Mode} {last last' : Option TokenKind} {pieces more : List Piece}
variable {u w v : List Char}

/-- The pieces before the last one are read as they were when a gap is opened after it. -/
theorem reads_before_gap {piece : Piece} {tail : List Piece} {before : Mode}
    {earlier : Option TokenKind}
    (hfront : Reads (piece.text ++ textOf more) .declaration none pieces before earlier)
    (htakes : Takes before earlier piece mode (textOf more)) (c : Char) (hc : opensGap c = true)
    (hslash : c = '/' → piece.text ≠ ['/'])
    (htail : textOf tail = piece.text ++ (c :: w ++ textOf more))
    (hreads : Reads [] before earlier tail mode' last')
    (hfaces : faces tail = faces (piece :: more)) :
    ∃ all, textOf all = textOf (pieces ++ [piece]) ++ (c :: w ++ textOf more) ∧
      Reads [] .declaration none all mode' last' ∧
      faces all = faces (pieces ++ [piece] ++ more) := by
  have hsame := sameAhead_before_gap htakes c (w ++ textOf more) hc hslash
  rw [← List.cons_append, ← htail, ← List.append_nil (textOf tail)] at hsame
  refine ⟨pieces ++ tail, ?_, reads_append (reads_of_sameAhead hsame hfront) hreads, ?_⟩
  · simp [htail]
  · rw [faces_append, hfaces, ← faces_append, List.append_assoc, List.singleton_append]

/-- Between two pieces a comment is a piece of its own. -/
theorem insert_comment_between (hw : IsInlineComment w)
    (hpieces : Reads (textOf more) .declaration none pieces mode last)
    (hmore : Reads [] mode last more mode' last')
    (hslash : ∀ piece ∈ pieces.getLast?, piece.kind ≠ some .slash)
    (htext : ∀ piece ∈ pieces.getLast?, piece.kind = some .text → EndsBlank piece.text) :
    ∃ all, textOf all = textOf pieces ++ (w ++ textOf more) ∧
      Reads [] .declaration none all mode' last' ∧ faces all = faces (pieces ++ more) := by
  rcases pieces.eq_nil_or_concat with rfl | ⟨pieces, piece, rfl⟩
  · cases hpieces
    refine ⟨.trivia w :: more, by simp [Piece.trivia], ?_, rfl⟩
    exact .cons (takes_inlineComment w hw) hmore
  · rw [List.concat_eq_append] at *
    have hlast : piece ∈ (pieces ++ [piece]).getLast? := by simp
    have hslash := hslash piece hlast
    have htext := htext piece hlast
    obtain ⟨before, earlier, hfront, htakes, rfl⟩ := reads_concat hpieces
    obtain ⟨tail, htail, hreads, hfaces⟩ := insert_comment w hw hslash htext htakes hmore
    obtain ⟨body, rfl, -⟩ := hw
    refine reads_before_gap hfront htakes '/' rfl ?_ htail hreads hfaces
    -- A single slash is a sign or a text, and neither may come before the comment.
    intro _ honly
    rcases ((single_of_takes htakes).2 honly).2 with hkind | hkind
    · exact hslash hkind
    · obtain ⟨c, hc, hblank⟩ := htext hkind
      rw [honly] at hc
      cases hc
      exact absurd hblank (by decide)

theorem insert_blanks_between (hw : ∀ c ∈ w, isInlineBlank c = true) (hmode : mode ≠ .ruleContent)
    (hpieces : Reads (textOf more) .declaration none pieces mode last)
    (hmore : Reads [] mode last more mode' last') :
    ∃ all, textOf all = textOf pieces ++ (w ++ textOf more) ∧
      Reads [] .declaration none all mode' last' ∧ faces all = faces (pieces ++ more) := by
  rcases w with _ | ⟨c, w⟩
  · rw [← List.append_nil (textOf more)] at hpieces
    exact ⟨pieces ++ more, by simp, reads_append hpieces hmore, rfl⟩
  have hc := hw c List.mem_cons_self
  have hslash : c ≠ '/' := by
    rintro rfl
    exact absurd hc (by decide)
  rcases pieces.eq_nil_or_concat with rfl | ⟨pieces, piece, rfl⟩
  · cases hpieces
    have hreturn : (c :: w).getLast? ≠ some '\r' := by
      intro hlast
      exact absurd (hw _ (List.mem_of_getLast? hlast)) (by decide)
    exact reads_blanks (c :: w) (List.cons_ne_nil c w)
      (fun d hd => isBlankIn_of_isInlineBlank _ d hmode (hw d hd)) hreturn hmore
  · rw [List.concat_eq_append] at *
    obtain ⟨before, earlier, hfront, htakes, rfl⟩ := reads_concat hpieces
    obtain ⟨tail, htail, hreads, hfaces⟩ :=
      insert_blanks (c :: w) (List.cons_ne_nil c w) hw hmode htakes hmore
    have hgap : opensGap c = true := by rw [opensGap, hc, Bool.or_true]
    exact reads_before_gap hfront htakes c hgap (fun h => absurd h hslash) htail hreads hfaces

/-- Behind a blank a plain text may be cut. -/
theorem isPlain_cut (s t : List Char) (h : IsPlain (s ++ t)) (hs : EndsBlank s) (ht : t ≠ []) :
    IsPlain s ∧ IsPlain t := by
  obtain ⟨-, hunopened, hunclosed, hline, hcomment⟩ := h
  simp only [List.mem_append, not_or] at hunopened hunclosed hline
  obtain ⟨b, hlast, hb⟩ := hs
  constructor
  · refine ⟨?_, hunopened.1, hunclosed.1, hline.1, ?_⟩
    · rintro rfl
      cases hlast
    · intro before after hsplit hstart
      exact hcomment before (after ++ t) (by rw [hsplit, List.append_assoc])
        (startsComment_append after t hstart)
  · refine ⟨ht, hunopened.2, hunclosed.2, hline.2, ?_⟩
    intro before after hsplit hstart
    -- A comment at the cut would open after the space or tab before it.
    obtain ⟨c, hc, hnot⟩ :=
      hcomment (s ++ before) after (by rw [hsplit, List.append_assoc]) hstart
    cases before with
    | nil =>
      rw [List.append_nil, hlast] at hc
      cases hc
      rw [hb] at hnot
      cases hnot
    | cons d before =>
      rw [List.getLast?_append_of_ne_nil _ (List.cons_ne_nil d before)] at hc
      exact ⟨c, hc, hnot⟩

theorem endsText_cut (s t rest : List Char) (h : EndsText (s ++ t) rest) (ht : t ≠ []) :
    EndsText t rest := by
  have hlast : (s ++ t).getLast? = t.getLast? := List.getLast?_append_of_ne_nil _ ht
  obtain ⟨hreturn, hended⟩ := h
  rw [EndsBlank, hlast] at hended
  rw [hlast] at hreturn
  exact ⟨hreturn, hended⟩

/-- A text that ends in a space or tab makes no line end or comment with what follows it. -/
theorem sameAhead_of_endsBlank (s rest rest' : List Char) (hs : EndsBlank s) :
    SameAhead (s ++ rest) (s ++ rest') := by
  obtain ⟨c, hlast, hc⟩ := hs
  rcases s with _ | ⟨d, _ | ⟨e, s⟩⟩
  · cases hlast
  · cases hlast
    have hblank : d = ' ' ∨ d = '\t' := by simpa [isInlineBlank] using hc
    rcases hblank with rfl | rfl <;> exact ⟨rfl, rfl, rfl⟩
  · exact sameAhead_cons_cons d e s rest rest'

/-- The comment makes two texts of one, the first of which ends in a blank. -/
theorem insert_comment_in_text (hw : IsInlineComment w) (s t : List Char) (hs : EndsBlank s)
    (ht : t ≠ [])
    (hpieces : Reads (textOf more) .declaration none (pieces ++ [.token .text (s ++ t)]) mode last)
    (hmore : Reads [] mode last more mode' last') :
    ∃ all, textOf all = textOf pieces ++ s ++ (w ++ (t ++ textOf more)) ∧
      Reads [] .declaration none all mode' last' ∧
      faces all = faces pieces ++ (.text, String.ofList s, none) ::
        (.text, String.ofList t, none) :: faces more := by
  obtain ⟨before, earlier, hfront, htakes, rfl⟩ := reads_concat hpieces
  obtain ⟨text, htext, rfl, rfl, hplain, hends⟩ := text_of_lexes (takes_iff_lexes.mp htakes) rfl
  cases htext
  obtain ⟨hplain₁, hplain₂⟩ := isPlain_cut s t hplain hs ht
  -- The text becomes its two parts with the comment between them.
  have hreads : Reads [] .ruleContent earlier
      (.token .text s :: .trivia w :: .token .text t :: more) mode' last' := by
    refine .cons (takes_of_lexes (.text hplain₁ ?first))
      (.cons (takes_inlineComment w hw) (.cons (takes_of_lexes (.text hplain₂ ?second)) hmore))
    case first =>
      obtain ⟨body, rfl, -⟩ := hw
      exact endsText_before_comment s _ hs
    case second =>
      rw [List.append_nil]
      exact endsText_cut s t _ hends ht
  have hsame : SameAhead (s ++ t ++ textOf more)
      (textOf (.token .text s :: .trivia w :: .token .text t :: more) ++ []) := by
    rw [List.append_assoc, textOf_cons, List.append_assoc]
    exact sameAhead_of_endsBlank s _ _ hs
  refine ⟨pieces ++ .token .text s :: .trivia w :: .token .text t :: more, ?_,
    reads_append (reads_of_sameAhead hsame hfront) hreads, ?_⟩
  · simp [Piece.token, Piece.trivia]
  · rw [faces_append]
    rfl

theorem endsBlank_of_last (h : Reads v .declaration none pieces mode last)
    (hcontent : mode = .ruleContent → EndsBlank (textOf pieces) ∨
      ∃ piece ∈ pieces.getLast?, piece.kind ∈ [none, some .colon, some .rightBrace])
    (piece : Piece) (hlast : piece ∈ pieces.getLast?) (hkind : piece.kind = some .text) :
    EndsBlank piece.text := by
  -- After a text the mode is that of rule content, where the place must be one of those allowed.
  obtain ⟨front, rfl⟩ := List.getLast?_eq_some_iff.mp hlast
  obtain ⟨before, earlier, -, htakes, -⟩ := reads_concat h
  obtain ⟨-, -, -, hmode, -⟩ := text_of_lexes (takes_iff_lexes.mp htakes) hkind
  rcases hcontent hmode with hblank | ⟨piece', hlast', hkind'⟩
  · rw [textOf_append, textOf_cons, textOf_nil, List.append_nil, EndsBlank,
      List.getLast?_append_of_ne_nil _ (text_ne_nil_of_takes htakes)] at hblank
    exact hblank
  · obtain rfl : piece = piece' := by simpa using hlast'
    simp [hkind] at hkind'

/-- After an insertion the source is read into the same tokens, up to one cut. -/
theorem reads_of_insertion {all : List Piece} (h : Insertion u w v)
    (hreads : Reads [] .declaration none all mode' last') (htext : textOf all = u ++ v) :
    ∃ all', textOf all' = u ++ w ++ v ∧ Reads [] .declaration none all' mode' last' ∧
      SameButCut (faces all) (faces all') := by
  cases h with
  | comment hu hpieces hw hslash hcontent =>
    subst hu
    obtain ⟨more, rfl, rfl, hmore⟩ := reads_split hpieces hreads htext
    obtain ⟨all', htext', hall', hfaces⟩ := insert_comment_between hw hpieces hmore hslash
      (endsBlank_of_last hpieces hcontent)
    exact ⟨all', by rw [htext', List.append_assoc], hall', .inl hfaces⟩
  | @commentInText pieces s t rest _ _ hu hv ht hblank hpieces hw =>
    subst hu hv
    have hsplit : textOf all = textOf (pieces ++ [.token .text (s ++ t)]) ++ rest := by
      simp [htext, Piece.token]
    obtain ⟨more, rfl, rfl, hmore⟩ := reads_split hpieces hreads hsplit
    obtain ⟨all', htext', hall', hfaces⟩ := insert_comment_in_text hw s t hblank ht hpieces hmore
    refine ⟨all', by rw [htext', List.append_assoc (_ ++ s)], hall', .inr ?_⟩
    refine ⟨faces pieces, String.ofList s, String.ofList t, faces more, ?_, hfaces⟩
    rw [faces_append, faces_append, ← String.ofList_append, List.append_assoc]
    rfl
  | blanks hu hpieces hmode hw =>
    subst hu
    obtain ⟨more, rfl, rfl, hmore⟩ := reads_split hpieces hreads htext
    obtain ⟨all', htext', hall', hfaces⟩ := insert_blanks_between hw hmode hpieces hmore
    exact ⟨all', by rw [htext', List.append_assoc], hall', .inl hfaces⟩

end Sites

end RandomTables
