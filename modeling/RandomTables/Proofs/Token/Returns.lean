import Mathlib.Data.List.Forall2
import RandomTables.Proofs.Token.Insertion
import RandomTables.Proofs.Token.LineEnd

namespace RandomTables
open Text (Stops)

namespace Text

def withReturns (s : List Char) : List Char :=
  s.flatMap fun c => if c = '\n' then ['\r', '\n'] else [c]

@[simp] theorem withReturns_nil : withReturns [] = [] := rfl

@[simp] theorem withReturns_lineFeed (s : List Char) :
    withReturns ('\n' :: s) = '\r' :: '\n' :: withReturns s := rfl

theorem withReturns_cons (c : Char) (s : List Char) (h : c ≠ '\n') :
    withReturns (c :: s) = c :: withReturns s := by
  simp [withReturns, h]

theorem withReturns_append (s t : List Char) :
    withReturns (s ++ t) = withReturns s ++ withReturns t :=
  List.flatMap_append

/-- Without line feeds there is nothing to change. -/
theorem withReturns_of_oneLine (s : List Char) (h : '\n' ∉ s) : withReturns s = s := by
  induction s with
  | nil => rfl
  | cons c s ih =>
    rw [List.mem_cons, not_or] at h
    rw [withReturns_cons c s (Ne.symm h.1), ih h.2]

theorem contains_withReturns (s : List Char) :
    (withReturns s).contains '\n' = s.contains '\n' := by
  induction s with
  | nil => rfl
  | cons c s ih =>
    by_cases hc : c = '\n'
    · subst hc
      simp
    · rw [withReturns_cons c s hc, List.contains_cons, List.contains_cons, ih]

theorem head?_withReturns (s : List Char) (c : Char) (hfeed : c ≠ '\n') (hreturn : c ≠ '\r') :
    (withReturns s).head? = some c ↔ s.head? = some c := by
  cases s with
  | nil => rfl
  | cons d s =>
    by_cases hd : d = '\n'
    · subst hd
      simp [Ne.symm hfeed, Ne.symm hreturn]
    · rw [withReturns_cons d s hd, List.head?_cons, List.head?_cons]

/-- The front of a text with returns that cuts no line end is the front of the text. -/
theorem exists_of_withReturns {front after s : List Char} (h : front ++ after = withReturns s)
    (hfeed : '\n' ∉ front) (hreturn : front.getLast? = some '\r' → after.head? ≠ some '\n') :
    ∃ rest, s = front ++ rest ∧ after = withReturns rest := by
  induction front generalizing s with
  | nil => exact ⟨s, rfl, h⟩
  | cons c front ih =>
    rw [List.mem_cons, not_or] at hfeed
    cases s with
    | nil => cases h
    | cons d s =>
      by_cases hd : d = '\n'
      · -- A line end here would be cut or lie within the front.
        subst hd
        rw [withReturns_lineFeed, List.cons_append] at h
        obtain ⟨rfl, htail⟩ := List.cons_eq_cons.mp h
        cases front with
        | nil => exact absurd (congrArg List.head? htail) (hreturn rfl)
        | cons e front =>
          obtain ⟨rfl, -⟩ := List.cons_eq_cons.mp htail
          exact absurd List.mem_cons_self hfeed.2
      · rw [withReturns_cons d s hd, List.cons_append] at h
        obtain ⟨rfl, htail⟩ := List.cons_eq_cons.mp h
        have hlast : front.getLast? = some '\r' → after.head? ≠ some '\n' := by
          intro hlast
          cases front with
          | nil => cases hlast
          | cons e front => exact hreturn (by rwa [List.getLast?_cons_cons])
        obtain ⟨rest, rfl, hafter⟩ := ih htail hfeed.2 hlast
        exact ⟨rest, rfl, hafter⟩

end Text

open Text (withReturns)

section Comments

/-- No closing mark is put in or taken apart. -/
theorem closedComment_withReturns (s : List Char) :
    closedComment? (withReturns s) = (closedComment? s).map withReturns := by
  induction s with
  | nil => rfl
  | cons c s ih =>
    have hhead := Text.head?_withReturns s '/' (by decide) (by decide)
    by_cases hc : c = '\n'
    · subst hc
      rw [Text.withReturns_lineFeed, closedComment?, closedComment?, closedComment?, ih,
        if_neg (by simp), if_neg (by simp), if_neg (by simp), Option.map_map, Option.map_map,
        Option.map_map]
      rfl
    · rw [Text.withReturns_cons c s hc, closedComment?, closedComment?, ih]
      simp only [hhead]
      split
      · rfl
      · rw [Option.map_map, Option.map_map]
        congr 1
        funext comment
        exact (Text.withReturns_cons c comment hc).symm

/-- The mark is at the end only, with returns and without. -/
theorem isCommentBody_withReturns (body : List Char) (h : IsCommentBody body) :
    IsCommentBody (withReturns body) := by
  have hclosed := closedComment_withReturns (body ++ ['*', '/'])
  rw [closedComment_append body [] h, Option.map_some, Text.withReturns_append] at hclosed
  obtain ⟨body', rest, -, hbody, hcomment⟩ := exists_of_closedComment _ _ hclosed
  rw [List.append_cancel_right hbody]
  exact hcomment

theorem modeAfter_withReturns (mode : Mode) (body : List Char) :
    modeAfter mode (withReturns body) = modeAfter mode body := by
  rw [modeAfter, modeAfter, Text.contains_withReturns]

end Comments

/-- The pieces are the same word, or the same blank or comment but for its characters. Line ends may
differ in their characters as well. -/
structure Piece.SameWord (piece piece' : Piece) : Prop where
  kind : piece.kind = piece'.kind
  value : piece.value = piece'.value
  text : piece.kind ≠ none → piece.kind ≠ some .newline → piece.text = piece'.text

/-- Tokens of the same pieces are the same words. -/
theorem sameWords_tokensFrom {pieces pieces' : List Piece}
    (h : List.Forall₂ Piece.SameWord pieces pieces') (offset offset' : Nat) :
    List.Forall₂ Token.SameWord (tokensFrom offset pieces) (tokensFrom offset' pieces') := by
  induction h generalizing offset offset' with
  | nil => exact .nil
  | @cons piece piece' pieces pieces' hword _ ih =>
    obtain ⟨kind, value, text⟩ := piece
    obtain ⟨kind', value', text'⟩ := piece'
    obtain ⟨hkind, hvalue, htext⟩ := hword
    obtain rfl : kind = kind' := hkind
    cases kind with
    | none => exact ih _ _
    | some kind =>
      refine .cons ⟨rfl, hvalue, fun hline => ?_⟩ (ih _ _)
      have hsame := htext nofun fun h => hline (Option.some.inj h)
      exact congrArg String.ofList hsame

section Pieces
variable {mode next : Mode} {last : Option TokenKind} {piece : Piece} {rest : List Char}

theorem sameAhead_symm {rest rest' : List Char} (h : SameAhead rest rest') :
    SameAhead rest' rest :=
  ⟨h.head.symm, h.lineEnd.symm, h.comment.symm⟩

/-- What comes ahead looks the same, if it does not begin with a line feed. -/
theorem sameAhead_withReturns (hreturn : '\r' ∉ rest) (hfeed : rest.head? ≠ some '\n') :
    SameAhead rest (withReturns rest) := by
  cases rest with
  | nil => exact ⟨rfl, rfl, rfl⟩
  | cons c rest =>
    have hc : c ≠ '\n' := by simpa using hfeed
    have hcreturn : c ≠ '\r' := by
      rintro rfl
      exact hreturn List.mem_cons_self
    rw [Text.withReturns_cons c rest hc]
    refine ⟨rfl, ?_, ?_⟩
    · rw [startsLineEnd_of_ne c _ hc hcreturn, startsLineEnd_of_ne c _ hc hcreturn]
    · rw [Bool.eq_iff_iff, startsComment_cons, startsComment_cons,
        Text.head?_withReturns _ _ (by decide) (by decide),
        Text.head?_withReturns _ _ (by decide) (by decide)]

/-- To a piece that takes no return, returns before line feeds make no difference after it. -/
theorem lexes_withReturns_iff (hpiece : piece.text.getLast? ≠ some '\r')
    (hcomment : ∀ body, piece ≠ .trivia ('/' :: '/' :: body)) (hreturn : '\r' ∉ rest) :
    Lexes mode last piece next (withReturns rest) ↔ Lexes mode last piece next rest := by
  by_cases hfeed : rest.head? = some '\n'
  · obtain ⟨rest, rfl⟩ := List.head?_eq_some_iff.mp hfeed
    have hlexes (line : List Char) (hline : startsLineEnd line = true)
        (h : Lexes mode last piece next []) : Lexes mode last piece next line :=
      lexes_before_lineEnd h hline (fun hlast => absurd hlast hpiece)
        fun body hbody => absurd hbody (hcomment body)
    constructor
    · exact fun h => hlexes _ (by simp) (lexes_at_end h)
    · exact fun h => hlexes _ (by simp) (lexes_at_end h)
  · have hsame := sameAhead_withReturns hreturn hfeed
    exact ⟨lexes_of_sameAhead (sameAhead_symm hsame), lexes_of_sameAhead hsame⟩

/-- By the rule of the piece: only line ends, blanks and block comments can hold a line feed. -/
theorem exists_piece_withReturns (h : Lexes mode last piece next rest)
    (hcomment : ∀ body, piece ≠ .trivia ('/' :: '/' :: body))
    (hreturn : '\r' ∉ piece.text ++ rest) :
    ∃ piece', piece'.text = withReturns piece.text ∧ piece.SameWord piece' ∧
      Lexes mode last piece' next (withReturns rest) := by
  rw [List.mem_append, not_or] at hreturn
  by_cases hmem : '\n' ∈ piece.text
  · rcases lineFeed_cases h hmem with hkind | ⟨body, rfl, rfl, hbody⟩
    · obtain ⟨rfl, rfl | rfl⟩ := newline_cases h hkind
      · exact ⟨.token .newline ['\r', '\n'], rfl, ⟨rfl, rfl, fun _ hno => absurd rfl hno⟩,
          .returnFeed⟩
      · exact absurd (List.mem_cons_self) hreturn.1
    · have hblock := @Lexes.blockComment mode last _ (withReturns rest)
        (isCommentBody_withReturns body hbody)
      rw [modeAfter_withReturns] at hblock
      refine ⟨.trivia ('/' :: '*' :: (withReturns body ++ ['*', '/'])), ?_,
        ⟨rfl, rfl, fun hno => absurd rfl hno⟩, hblock⟩
      exact (Text.withReturns_append ('/' :: '*' :: body) ['*', '/']).symm
  · refine ⟨piece, (Text.withReturns_of_oneLine _ hmem).symm, ⟨rfl, rfl, fun _ _ => rfl⟩, ?_⟩
    refine (lexes_withReturns_iff (fun hlast => ?_) hcomment hreturn.2).mpr h
    exact hreturn.1 (List.mem_of_getLast? hlast)

theorem exists_lexes_of_comment {s : List Char} (hstart : startsComment s = true)
    (h : Lexes mode last piece next rest) (htext : piece.text ++ rest = withReturns s) :
    ∃ piece' next' rest', s = piece'.text ++ rest' ∧ Lexes mode last piece' next' rest' := by
  cases s with
  | nil => cases hstart
  | cons c s =>
    obtain ⟨rfl, hslash | hstar⟩ := (startsComment_cons c s).mp hstart
    · obtain ⟨s, rfl⟩ := List.head?_eq_some_iff.mp hslash
      obtain ⟨body, rest', rfl, hbody, hrest'⟩ := Text.exists_run (· ≠ '\n') s
      have honeLine : '\n' ∉ body := fun hmem => absurd (hbody _ hmem) (by decide)
      exact ⟨.trivia ('/' :: '/' :: body), mode, rest', rfl, .lineComment honeLine hrest'⟩
    · obtain ⟨s, rfl⟩ := List.head?_eq_some_iff.mp hstar
      obtain ⟨d, tail, hpiece, hstep⟩ := takes_of_lexes h
      rw [hpiece, List.cons_append, Text.withReturns_cons _ _ (by decide),
        Text.withReturns_cons _ _ (by decide)] at htext
      obtain ⟨rfl, htail⟩ := List.cons_eq_cons.mp htext
      -- The step found the end of the block comment, which is there without the returns too.
      rw [htail, step_of_comment _ _ _ (by simp), stepComment, if_neg (by simp), List.tail_cons,
        closedComment_withReturns] at hstep
      cases hclosed : closedComment? s with
      | none =>
        rw [hclosed] at hstep
        cases hstep
      | some comment =>
        obtain ⟨body, rest', rfl, -, hbody⟩ := exists_of_closedComment s comment hclosed
        refine ⟨.trivia ('/' :: '*' :: (body ++ ['*', '/'])), _, rest', ?_, .blockComment hbody⟩
        simp [Piece.trivia]

/-- Where the scanner takes a piece of a text with returns, it takes one of the text without. -/
theorem exists_lexes_of_withReturns {s : List Char} (h : Lexes mode last piece next rest)
    (htext : piece.text ++ rest = withReturns s) (hreturn : '\r' ∉ s)
    (hfeed : s.head? ≠ some '\n') :
    ∃ piece' next' rest', s = piece'.text ++ rest' ∧ Lexes mode last piece' next' rest' := by
  have hsame := sameAhead_withReturns hreturn hfeed
  cases hstart : startsComment s with
  | true => exact exists_lexes_of_comment hstart h htext
  | false =>
    have hnocomment : startsComment (piece.text ++ rest) = false := by
      rw [htext, ← hsame.comment, hstart]
    have hnofeed : '\n' ∉ piece.text := by
      intro hmem
      rcases lineFeed_cases h hmem with hkind | ⟨body, rfl, -, -⟩
      · -- The text begins with the line end, and so would the one without returns.
        have hline : startsLineEnd (piece.text ++ rest) = true := by
          rcases (newline_cases h hkind).2 with rfl | rfl <;> rfl
        rw [htext, ← hsame.lineEnd] at hline
        cases s with
        | nil => cases hline
        | cons c s =>
          rcases (startsLineEnd_cons c s).mp hline with rfl | ⟨rfl, -⟩
          · exact hfeed rfl
          · exact hreturn List.mem_cons_self
      · exact absurd hnocomment (by simp [Piece.trivia])
    have hcomment : ∀ body, piece ≠ .trivia ('/' :: '/' :: body) := by
      rintro body rfl
      exact absurd hnocomment (by simp [Piece.trivia])
    have halone : piece.text.getLast? = some '\r' → rest.head? ≠ some '\n' := by
      intro hlast hnext
      obtain ⟨body, hbody, -⟩ := comment_of_return h hlast hnext
      exact hcomment _ hbody
    obtain ⟨rest, rfl, rfl⟩ := Text.exists_of_withReturns htext hnofeed halone
    rw [List.mem_append, not_or] at hreturn
    have hlast : piece.text.getLast? ≠ some '\r' :=
      fun hlast => hreturn.1 (List.mem_of_getLast? hlast)
    exact ⟨piece, next, rest, rfl, (lexes_withReturns_iff hlast hcomment hreturn.2).mp h⟩

end Pieces

section Runs
variable {after : List Char} {mode mode' : Mode} {last last' : Option TokenKind}
variable {pieces : List Piece}

/-- A line end of two characters can be read as one of its line feed alone. -/
theorem exists_lineFeed {rest : List Char} (h : Reads after mode last pieces mode' last')
    (htext : textOf pieces = '\r' :: '\n' :: rest) :
    ∃ tail, pieces = .token .newline ['\r', '\n'] :: tail ∧ textOf tail = rest ∧
      Reads after mode last (.token .newline ['\n'] :: tail) mode' last' := by
  cases h with
  | nil => cases htext
  | @cons _ _ piece tail _ _ _ htakes hreads =>
    rw [textOf_cons] at htext
    have hline : Takes mode last (.token .newline ['\r', '\n']) .declaration (rest ++ after) :=
      takes_of_lexes .returnFeed
    have hsplit : piece.text ++ (textOf tail ++ after) = ['\r', '\n'] ++ (rest ++ after) := by
      rw [← List.append_assoc, htext]
      rfl
    obtain ⟨rfl, rfl, hrest⟩ := takes_unique htakes hline hsplit
    exact ⟨tail, rfl, List.append_cancel_right hrest, .cons (takes_of_lexes .lineFeed) hreads⟩

/-- A line comment takes the return that is put before the line feed after it. -/
theorem reads_lineComment_withReturns {body : List Char} {pieces' : List Piece}
    (hbody : '\n' ∉ body)
    (hended : textOf pieces ++ after = [] ∨ (textOf pieces ++ after).head? = some '\n')
    (hfeed : after.head? ≠ some '\n') (htext : textOf pieces' = withReturns (textOf pieces))
    (hwords : List.Forall₂ Piece.SameWord pieces pieces')
    (hreads : Reads (withReturns after) mode last pieces' mode' last') :
    ∃ all, textOf all = withReturns ('/' :: '/' :: body ++ textOf pieces) ∧
      List.Forall₂ Piece.SameWord (.trivia ('/' :: '/' :: body) :: pieces) all ∧
      Reads (withReturns after) mode last all mode' last' := by
  have hcomment : withReturns ('/' :: '/' :: body) = '/' :: '/' :: body :=
    Text.withReturns_of_oneLine _ (by simp [hbody])
  rw [Text.withReturns_append, hcomment, ← htext]
  cases hpieces : textOf pieces with
  | nil =>
    -- No line feed follows here, so that the comment goes up to the end of the source.
    obtain rfl : after = [] := by simpa [hpieces, hfeed] using hended
    have hnil : textOf pieces' ++ withReturns [] = [] := by rw [htext, hpieces]; rfl
    have hsame : Piece.SameWord (.trivia ('/' :: '/' :: body)) (.trivia ('/' :: '/' :: body)) :=
      ⟨rfl, rfl, fun _ _ => rfl⟩
    refine ⟨.trivia ('/' :: '/' :: body) :: pieces', rfl, .cons hsame hwords, ?_⟩
    refine .cons (takes_of_lexes ?_) hreads
    rw [hnil]
    exact .lineComment hbody trivial
  | cons c rest =>
    obtain rfl : c = '\n' := by simpa [hpieces] using hended
    rw [hpieces] at htext
    obtain ⟨tail, rfl, htail, hreads'⟩ := exists_lineFeed hreads htext
    cases hwords with
    | @cons piece _ pieces _ hword hwords =>
      have hline : piece.SameWord (.token .newline ['\n']) :=
        ⟨hword.kind, hword.value, fun _ hno => absurd hword.kind hno⟩
      refine ⟨.trivia ('/' :: '/' :: (body ++ ['\r'])) :: .token .newline ['\n'] :: tail,
        ?_, ?_, ?_⟩
      · simp [Piece.trivia, Piece.token]
      · exact .cons ⟨rfl, rfl, fun hno => absurd rfl hno⟩ (.cons hline hwords)
      · refine .cons (takes_of_lexes (.lineComment ?_ ?_)) hreads'
        · simp [hbody]
        · exact (Text.stops_cons _ _ _).mpr (by decide)

/-- With returns before its line feeds, a text is read in the same words. -/
theorem reads_withReturns (h : Reads after mode last pieces mode' last')
    (hreturn : '\r' ∉ textOf pieces ++ after) (hfeed : after.head? ≠ some '\n') :
    ∃ pieces', textOf pieces' = withReturns (textOf pieces) ∧
      List.Forall₂ Piece.SameWord pieces pieces' ∧
      Reads (withReturns after) mode last pieces' mode' last' := by
  induction h with
  | nil => exact ⟨[], rfl, .nil, .nil⟩
  | @cons mode last piece pieces next mode' last' htakes _ ih =>
    have hlexes := takes_iff_lexes.mp htakes
    rw [textOf_cons, List.append_assoc] at hreturn
    obtain ⟨pieces', htext, hwords, hreads⟩ := ih fun hmem =>
      hreturn (List.mem_append_right _ hmem)
    by_cases hcomment : ∃ body, piece = .trivia ('/' :: '/' :: body)
    · obtain ⟨body, rfl⟩ := hcomment
      obtain ⟨rfl, hbody, hended⟩ := ended_of_lineComment hlexes
      exact reads_lineComment_withReturns hbody hended hfeed htext hwords hreads
    · rw [not_exists] at hcomment
      obtain ⟨piece', hpiece, hword, hlexes'⟩ :=
        exists_piece_withReturns hlexes hcomment hreturn
      rw [Text.withReturns_append, ← htext] at hlexes'
      rw [hword.kind] at hreads
      refine ⟨piece' :: pieces', ?_, .cons hword hwords, .cons (takes_of_lexes hlexes') hreads⟩
      rw [textOf_cons, textOf_cons, Text.withReturns_append, hpiece, htext]

/-- A text that can be read with returns before its line feeds can be read without them. -/
theorem exists_reads_of_withReturns {s : List Char} {pieces' : List Piece} (hreturn : '\r' ∉ s)
    (h : Reads [] mode last pieces' mode' last') (htext : textOf pieces' = withReturns s) :
    ∃ pieces mode₁ last₁, textOf pieces = s ∧ Reads [] mode last pieces mode₁ last₁ := by
  rcases reads_or_halts mode last s with
    hreads | ⟨pieces, halt, mode₁, last₁, c, rest, rfl, hreads, hstep⟩
  · exact hreads
  · -- The step that fails comes after as much of the text with returns, where one succeeds.
    have hfeed : (c :: rest).head? ≠ some '\n' := by
      intro hhead
      obtain rfl : c = '\n' := by simpa using hhead
      cases hstep
    obtain ⟨front, hfront, -, hreads'⟩ := reads_withReturns hreads hreturn hfeed
    rw [Text.withReturns_append, ← hfront] at htext
    obtain ⟨back, rfl, hback, hreadsBack⟩ := reads_split hreads' h htext
    rw [List.mem_append, not_or] at hreturn
    cases hreadsBack with
    | nil =>
      rw [textOf_nil, Text.withReturns_cons c rest (by simpa using hfeed)] at hback
      cases hback
    | @cons _ _ piece back _ _ _ htakes =>
      rw [textOf_cons] at hback
      rw [List.append_nil] at htakes
      obtain ⟨piece', next, rest', hsplit, hlexes⟩ :=
        exists_lexes_of_withReturns (takes_iff_lexes.mp htakes) hback hreturn.2 hfeed
      obtain ⟨d, tail, hpiece, hok⟩ := takes_of_lexes hlexes
      rw [hpiece, List.cons_append] at hsplit
      obtain ⟨rfl, rfl⟩ := List.cons_eq_cons.mp hsplit
      rw [hstep] at hok
      cases hok

end Runs

end RandomTables
