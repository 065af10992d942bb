import RandomTables.Proofs.Token.Extent
import RandomTables.Proofs.Token.Reading

namespace RandomTables
open Text (Stops)

/-- Text that no token stands for, with `after` behind it: blanks, line comments up to the next line
feed or the end, and block comments up to the first closing mark after their opening. -/
inductive IsTrivia (after : List Char) : List Char → Prop
  | nil : IsTrivia after []
  | blank {c rest} : isLineBlank c = true → IsTrivia after rest → IsTrivia after (c :: rest)
  | lineComment {body rest} : '\n' ∉ body → Stops (· ≠ '\n') (rest ++ after) →
      IsTrivia after rest → IsTrivia after ('/' :: '/' :: (body ++ rest))
  | blockComment {body rest} : IsCommentBody body →
      IsTrivia after rest → IsTrivia after ('/' :: '*' :: (body ++ '*' :: '/' :: rest))

/-- Trivia in a row are trivia. -/
theorem isTrivia_append (first second after : List Char) (h₁ : IsTrivia (second ++ after) first)
    (h₂ : IsTrivia after second) : IsTrivia after (first ++ second) := by
  induction h₁ with
  | nil => exact h₂
  | blank hc _ ih => exact IsTrivia.blank hc ih
  | lineComment hbody hstops _ ih =>
    rw [List.cons_append, List.cons_append, List.append_assoc]
    apply IsTrivia.lineComment hbody _ ih
    rw [List.append_assoc]
    exact hstops
  | blockComment hbody _ ih =>
    rw [List.cons_append, List.cons_append, List.append_assoc]
    exact IsTrivia.blockComment hbody ih

theorem isTrivia_of_blank (run after : List Char) (h : ∀ c ∈ run, isLineBlank c = true) :
    IsTrivia after run := by
  induction run with
  | nil => exact IsTrivia.nil
  | cons c run ih =>
    exact IsTrivia.blank (h c List.mem_cons_self)
      (ih fun d hd => h d (List.mem_cons_of_mem c hd))

theorem isLineBlank_of_isInlineBlank (c : Char) (h : isInlineBlank c = true) :
    isLineBlank c = true := by
  rw [isInlineBlank] at h
  rw [isLineBlank, h, Bool.true_or]

section Steps
variable {mode : Mode} {last : Option TokenKind} {piece : Piece} {next : Mode} {rest : List Char}

/-- A piece without a token is blanks or a comment. -/
theorem isTrivia_of_takes (h : Takes mode last piece next rest) (hkind : piece.kind = none) :
    IsTrivia rest piece.text := by
  cases takes_iff_lexes.mp h with
  | @lineComment _ _ body _ hbody hrest =>
    have hline := IsTrivia.lineComment hbody (List.nil_append rest ▸ hrest) IsTrivia.nil
    rw [List.append_nil] at hline
    exact hline
  | blockComment hbody => exact IsTrivia.blockComment hbody IsTrivia.nil
  | blanks _ hrun => exact isTrivia_of_blank _ _ hrun.blank
  | spaces _ hrun _ =>
    exact isTrivia_of_blank _ _ fun c hc => isLineBlank_of_isInlineBlank c (hrun c hc)
  | _ => exact absurd hkind (by simp [Piece.token])

theorem kind_ne_end_of_takes (h : Takes mode last piece next rest) :
    piece.kind ≠ some .endOfInput := by
  intro hkind
  cases takes_iff_lexes.mp h with
  | mark hmark =>
    cases hkind
    exact absurd (kind_of_mark hmark) (by decide)
  | sign hmark =>
    cases hkind
    exact absurd (kind_of_sign hmark) (by decide)
  | word => exact absurd (Option.some.inj hkind) (declaredKind_ne _ (by decide))
  | name => exact absurd (Option.some.inj hkind) (namedKind_ne _ _ (by decide))
  | _ => cases hkind

end Steps

def between (source : List Char) (start stop : Nat) : List Char :=
  (source.take stop).drop start

theorem between_eq_take (source : List Char) (start stop : Nat) :
    between source start stop = (source.drop start).take (stop - start) :=
  List.drop_take

theorem between_append_drop (source : List Char) (start stop : Nat) (h : start ≤ stop) :
    between source start stop ++ source.drop stop = source.drop start := by
  have hdrop : source.drop stop = (source.drop start).drop (stop - start) := by
    rw [List.drop_drop, Nat.add_sub_cancel' h]
  rw [between_eq_take, hdrop, List.take_append_drop]

/-- From an offset on, a source is trivia and the words of the tokens, up to its end. -/
inductive TilesFrom (source : List Char) : Nat → List Token → Prop
  | ending {offset} : offset ≤ source.length → IsTrivia [] (source.drop offset) →
      TilesFrom source offset [.endAt source.length]
  | word {offset t tokens} : offset ≤ t.span.start → t.span.start < t.span.stop →
      t.span.stop ≤ source.length → t.kind ≠ .endOfInput →
      t.lexeme.toList = t.span.slice source →
      IsTrivia (source.drop t.span.start) (between source offset t.span.start) →
      TilesFrom source t.span.stop tokens → TilesFrom source offset (t :: tokens)

def reassemble (source : List Char) : Nat → List Token → List Char
  | _, [] => []
  | offset, t :: tokens =>
    between source offset t.span.start ++ t.lexeme.toList ++ reassemble source t.span.stop tokens

section Tilings
variable {source : List Char} {offset : Nat} {tokens : List Token}

/-- The tokens before the last are words of the source. -/
theorem words_of_tiles (h : TilesFrom source offset tokens) :
    ∃ words, tokens = words ++ [.endAt source.length] ∧
      ∀ t ∈ words, t.span.start < t.span.stop ∧ t.kind ≠ .endOfInput ∧
        t.lexeme.toList = t.span.slice source := by
  induction h with
  | ending => exact ⟨[], rfl, nofun⟩
  | @word offset t tokens _ hne _ hkind hlexeme _ _ ih =>
    obtain ⟨words, rfl, hwords⟩ := ih
    refine ⟨t :: words, rfl, ?_⟩
    intro u hu
    rcases List.mem_cons.mp hu with rfl | hu
    · exact ⟨hne, hkind, hlexeme⟩
    · exact hwords u hu

theorem span_bounds_of_tiles (h : TilesFrom source offset tokens) :
    ∀ t ∈ tokens, offset ≤ t.span.start ∧ t.span.stop ≤ source.length := by
  induction h with
  | ending hoffset =>
    intro t ht
    obtain rfl := List.mem_singleton.mp ht
    exact ⟨hoffset, Nat.le_refl _⟩
  | word hstart hne hstop _ _ _ _ ih =>
    intro u hu
    rcases List.mem_cons.mp hu with rfl | hu
    · exact ⟨hstart, hstop⟩
    · have hu := ih u hu
      exact ⟨by omega, hu.2⟩

/-- Each token begins behind those before it. -/
theorem ordered_of_tiles (h : TilesFrom source offset tokens) :
    tokens.Pairwise fun t u => t.span.stop ≤ u.span.start := by
  induction h with
  | ending => exact List.pairwise_singleton _ _
  | word _ _ _ _ _ _ htail ih =>
    exact List.Pairwise.cons (fun u hu => (span_bounds_of_tiles htail u hu).1) ih

/-- What stands between two tokens is trivia. -/
theorem gap_of_tiles (h : TilesFrom source offset tokens) (before : List Token) (t : Token)
    (rest : List Token) (hsplit : tokens = before ++ t :: rest) :
    IsTrivia (source.drop t.span.start)
      (between source (stopAfter offset before) t.span.start) := by
  induction h generalizing before with
  | @ending offset _ htrivia =>
    cases before with
    | nil =>
      obtain ⟨rfl, -⟩ := List.cons_eq_cons.mp hsplit
      simpa [between, stopAfter, Token.endAt, Span.empty] using htrivia
    | cons u before => simp at hsplit
  | @word offset u tokens _ _ _ _ _ htrivia _ ih =>
    cases before with
    | nil =>
      obtain ⟨rfl, -⟩ := List.cons_eq_cons.mp hsplit
      exact htrivia
    | cons v before =>
      obtain ⟨rfl, hsplit'⟩ := List.cons_eq_cons.mp hsplit
      have hgap := ih before hsplit'
      -- The gap begins at the end of `u` only if no other token is before `t`.
      cases before with
      | nil => exact hgap
      | cons w before =>
        rw [stopAfter, List.getLast?_cons_cons]
        exact hgap

/-- Tokens and gaps together are the source. -/
theorem reassemble_of_tiles (h : TilesFrom source offset tokens) :
    reassemble source offset tokens = source.drop offset := by
  -- Each gap and word ends where the next begins, so the stretches join to the rest of the source.
  induction h with
  | ending =>
    simp [reassemble, between, Token.endAt, Span.empty]
  | @word offset t tokens hstart hne hstop _ hlexeme _ _ ih =>
    have hslice : t.span.slice source = between source t.span.start t.span.stop :=
      (between_eq_take source _ _).symm
    rw [reassemble, ih, hlexeme, hslice, List.append_assoc,
      between_append_drop source _ _ t.span.start_le_stop, between_append_drop source _ _ hstart]

end Tilings

theorem between_append (before gap after : List Char) :
    between (before ++ gap ++ after) before.length (before ++ gap).length = gap := by
  rw [between, List.take_left, List.drop_left]

/-- A run tiles the text it reads. -/
theorem tiles_of_reads (before gap : List Char) (mode : Mode) (last : Option TokenKind)
    (pieces : List Piece) (mode' : Mode) (last' : Option TokenKind)
    (h : Reads [] mode last pieces mode' last') (hgap : IsTrivia (textOf pieces) gap) :
    TilesFrom (before ++ gap ++ textOf pieces) before.length
      (tokensFrom (before ++ gap).length pieces ++
        [.endAt (before ++ gap ++ textOf pieces).length]) := by
  -- The rule of a tiling takes a whole gap at once, so the induction carries what was passed over
  -- since the last token.
  induction pieces generalizing before gap mode last with
  | nil =>
    apply TilesFrom.ending
    · simp
    · rw [textOf_nil, List.append_nil, List.drop_left]
      exact hgap
  | cons piece pieces ih =>
    cases h with
    | cons htakes hreads =>
      rw [List.append_nil] at htakes
      have htext : before ++ gap ++ textOf (piece :: pieces) =
          before ++ (gap ++ piece.text) ++ textOf pieces := by
        simp
      cases hkind : piece.kind with
      | none =>
        -- Trivia joins the gap, and the next token is still to come.
        have hgap' : IsTrivia (textOf pieces) (gap ++ piece.text) :=
          isTrivia_append gap piece.text _ (textOf_cons piece pieces ▸ hgap)
            (isTrivia_of_takes htakes hkind)
        have htiles := ih before (gap ++ piece.text) _ _ hreads hgap'
        rw [htext, tokensFrom, Piece.tokenAt, hkind]
        simpa [Nat.add_assoc] using htiles
      | some kind =>
        -- A token ends the gap before it, and an empty one begins.
        have htiles := ih (before ++ gap ++ piece.text) [] _ _ hreads IsTrivia.nil
        have htext' : before ++ gap ++ piece.text ++ [] ++ textOf pieces =
            before ++ gap ++ textOf (piece :: pieces) := by
          simp
        rw [htext', List.append_nil, List.length_append] at htiles
        have hpos : 0 < piece.text.length := List.length_pos_iff.mpr (text_ne_nil_of_takes htakes)
        rw [tokensFrom, Piece.tokenAt, hkind]
        apply TilesFrom.word _ _ _ _ _ _ htiles
        · simp
        · dsimp only
          omega
        · simp only [List.length_append, textOf_cons]
          omega
        · rintro rfl
          exact kind_ne_end_of_takes htakes hkind
        · have hslice := Span.slice_append (before ++ gap) piece.text (textOf pieces)
          rw [String.toList_ofList, textOf_cons, ← List.append_assoc]
          exact hslice.symm
        · rw [between_append, List.drop_left]
          exact hgap

theorem tiles_of_scan (source : List Char) (s : Scan) (h : scan source = .ok s) :
    TilesFrom source 0 s.tokens := by
  obtain ⟨pieces, last, rfl, hreads, htokens⟩ := (scan_eq_ok_iff source s).mp h
  rw [htokens]
  exact tiles_of_reads [] [] _ _ pieces _ _ hreads IsTrivia.nil

/-- The tokens lie in order and apart within the source, each is the text at its place, the end of
input comes last, and all else is trivia. Nothing is lost or taken twice. -/
structure Tiling (source : List Char) (tokens : List Token) : Prop where
  words : ∃ words, tokens = words ++ [.endAt source.length] ∧
    ∀ t ∈ words, t.span.start < t.span.stop ∧ t.kind ≠ .endOfInput ∧
      t.lexeme.toList = t.span.slice source
  ordered : tokens.Pairwise fun t u => t.span.stop ≤ u.span.start
  inside : ∀ t ∈ tokens, t.span.stop ≤ source.length
  gaps : ∀ before t rest, tokens = before ++ t :: rest →
    IsTrivia (source.drop t.span.start) (between source (stopAfter 0 before) t.span.start)
  whole : reassemble source 0 tokens = source

/-- The tokens of every source that can be read tile it. -/
theorem scan_tiles (source : List Char) (s : Scan) (h : scan source = .ok s) :
    Tiling source s.tokens := by
  have htiles := tiles_of_scan source s h
  exact ⟨words_of_tiles htiles, ordered_of_tiles htiles,
    fun t ht => (span_bounds_of_tiles htiles t ht).2, gap_of_tiles htiles,
    reassemble_of_tiles htiles⟩

/-- A line comment takes a return, and a block comment has a slash between its marks. -/
theorem scan_tiles_comments : ∃ s, scan "// a\r\n#t\n1:x /*/*/y".toList = .ok s ∧
    Tiling "// a\r\n#t\n1:x /*/*/y".toList s.tokens := by
  have hreads : Reads [] .declaration none
      [.trivia "// a\r".toList, .token .newline ['\n'], .token .hash ['#'],
        .token .identifier ['t'], .token .newline ['\n'],
        ⟨some .number, some (.weight (Decimal.floatOfLiteral ['1'])), ['1']⟩, .token .colon [':'],
        .token .text "x ".toList, .trivia "/*/*/".toList, .token .text ['y']]
      .ruleContent (some .text) := by
    repeat
      first
      | exact Reads.nil
      | refine Reads.cons ⟨_, _, rfl, rfl⟩ ?_
  have h := (scan_eq_ok_iff _ ⟨_, _⟩).mpr ⟨_, _, rfl, hreads, rfl⟩
  exact ⟨_, h, scan_tiles _ _ h⟩

end RandomTables
