import RandomTables.Proofs.Program.Completion
import RandomTables.Proofs.Program.Kinds

namespace RandomTables

/-- The first of these kinds, if there is one, goes on with no content. -/
def EndsContent (kinds : List TokenKind) : Prop :=
  ∀ kind ∈ kinds.head?, kind ≠ .text ∧ kind ≠ .leftBrace

def StartsLine (kinds : List TokenKind) : Prop :=
  ∃ declared rest, kinds = declared ++ rest ∧ declared ⊆ declarationKinds ∧
    ∀ kind ∈ rest.head?, kind = .colon ∨ kind = .newline

section Words
variable {kinds content rest more inner : List TokenKind}

theorem append_cons_inj {k : TokenKind} (hkinds : k ∉ kinds) (hcontent : k ∉ content)
    (h : kinds ++ k :: more = content ++ k :: rest) : kinds = content ∧ more = rest := by
  rcases List.append_eq_append_iff.mp h with ⟨middle, rfl, hsplit⟩ | ⟨middle, rfl, hsplit⟩
  · cases middle with
    | nil => exact ⟨by simp, (List.cons_eq_cons.mp hsplit).2⟩
    | cons k' middle =>
      obtain ⟨rfl, -⟩ := List.cons_eq_cons.mp hsplit
      exact absurd (by simp) hcontent
  · cases middle with
    | nil => exact ⟨by simp, (List.cons_eq_cons.mp hsplit).2.symm⟩
    | cons k' middle =>
      obtain ⟨rfl, -⟩ := List.cons_eq_cons.mp hsplit
      exact absurd (by simp) hkinds

/-- Content that goes on as far as it can takes in all content at its front. -/
theorem exists_more_content (h : IsContent kinds) (hcontent : IsContent content)
    (hends : EndsContent rest) (hsplit : kinds ++ more = content ++ rest) :
    ∃ extra, IsContent extra ∧ content = kinds ++ extra ∧ more = extra ++ rest := by
  induction h generalizing content with
  | nil => exact ⟨content, hcontent, rfl, hsplit⟩
  | text _ ih =>
    cases hcontent with
    | nil =>
      rw [List.nil_append] at hsplit
      exact absurd rfl (hends _ (hsplit ▸ rfl)).1
    | text hcontent =>
      obtain ⟨extra, hextra, rfl, hmore⟩ := ih hcontent (List.cons_eq_cons.mp hsplit).2
      exact ⟨extra, hextra, rfl, hmore⟩
    | braced => cases hsplit
  | @braced inner kinds hinner _ ih =>
    cases hcontent with
    | nil =>
      rw [List.nil_append] at hsplit
      exact absurd rfl (hends _ (hsplit ▸ rfl)).2
    | text => cases hsplit
    | @braced inner' content hinner' hcontent =>
      -- Neither expression has a closing brace but at its end.
      have hclosed (inner : List TokenKind) (h : inner ⊆ expressionKinds) : .rightBrace ∉ inner :=
        fun hmem => absurd (h hmem) (by decide)
      have hsplit : inner ++ .rightBrace :: (kinds ++ more) =
          inner' ++ .rightBrace :: (content ++ rest) := by simpa using hsplit
      obtain ⟨rfl, htail⟩ := append_cons_inj (hclosed inner hinner) (hclosed inner' hinner') hsplit
      obtain ⟨extra, hextra, rfl, hmore⟩ := ih hcontent htail
      exact ⟨extra, hextra, by simp, hmore⟩

/-- Content in front of what goes on with none is no content. -/
theorem isContent_eq_nil (h : IsContent content) (hends : EndsContent (content ++ rest)) :
    content = [] := by
  cases h with
  | nil => rfl
  | text => exact absurd rfl (hends _ rfl).1
  | braced => exact absurd rfl (hends _ rfl).2

/-- No line begins with a text or a brace. -/
theorem endsContent_of_startsLine (h : StartsLine kinds) : EndsContent kinds := by
  obtain ⟨declared, rest, rfl, hdeclared, hrest⟩ := h
  intro kind hkind
  cases declared with
  | nil => rcases hrest kind hkind with rfl | rfl <;> decide
  | cons first declared =>
    cases hkind
    have hmem : kind ∈ declarationKinds := hdeclared List.mem_cons_self
    constructor <;> (rintro rfl; exact absurd hmem (by decide))

/-- Nothing that a line begins with closes an expression: of all that is neither declared nor within
braces, a colon or a line end comes first. -/
theorem ne_closed_of_startsLine {inner' : List TokenKind} (h : StartsLine more)
    (hinner : inner ⊆ expressionKinds) (hinner' : inner' ⊆ expressionKinds) :
    inner ++ more ≠ inner' ++ .rightBrace :: rest := by
  obtain ⟨declared, tail, rfl, hdeclared, htail⟩ := h
  let within (kind : TokenKind) : Bool := kind ∈ declarationKinds ++ expressionKinds
  have hexpression (inner : List TokenKind) (h : inner ⊆ expressionKinds) :
      ∀ kind ∈ inner, within kind = true :=
    fun kind hkind => decide_eq_true (List.mem_append_right _ (h hkind))
  intro hsplit
  have hdrop := congrArg (List.dropWhile within) hsplit
  rw [List.dropWhile_append_of_pos (hexpression inner hinner),
    List.dropWhile_append_of_pos (hexpression inner' hinner'), List.dropWhile_append_of_pos
      fun kind hkind => decide_eq_true (List.mem_append_left _ (hdeclared hkind))] at hdrop
  cases tail with
  | nil => cases hdrop
  | cons kind tail =>
    rcases htail kind rfl with rfl | rfl <;> cases hdrop

end Words

namespace Grammar
variable {tokens front more : List Token} {colon : Token} {goal goal' : List Token → Prop}

def SameButLineEnd (tokens tokens' : List Token) : Prop :=
  ∃ t : Token, t.kind = .newline ∧ (tokens' = t :: tokens ∨ tokens = t :: tokens')

/-- The tokens are content as far as it goes and then others, in front of which a line end makes no
difference to what is called for. -/
def ContentFirst (goal : List Token → Prop) (tokens : List Token) : Prop :=
  ∃ content rest items, tokens = content ++ rest ∧ Content content items ∧
    HeadNot [.text, .leftBrace] rest ∧ ∀ rest', SameButLineEnd rest rest' → goal (content ++ rest')

theorem contentFirst_mono (h : ContentFirst goal tokens) (hgoal : ∀ rest, goal rest → goal' rest) :
    ContentFirst goal' tokens := by
  obtain ⟨content, rest, items, hsplit, hcontent, hrest, hsame⟩ := h
  exact ⟨content, rest, items, hsplit, hcontent, hrest, fun rest' h => hgoal _ (hsame rest' h)⟩

/-- In front of the next table there is no line end to leave out, and none comes to be there. -/
theorem contentFirst_append (h : ContentFirst goal tokens) (hmore : HeadIn [.hash] more)
    (hgoal : ∀ rest, goal rest → goal' (rest ++ more)) : ContentFirst goal' (tokens ++ more) := by
  obtain ⟨content, rest, items, rfl, hcontent, hrest, hsame⟩ := h
  refine ⟨content, rest ++ more, items, List.append_assoc _ _ _, hcontent,
    headNot_append _ _ _ hrest (headNot_of_headIn _ _ _ hmore (by decide)), ?_⟩
  rintro rest' ⟨t, ht, rfl | hcut⟩
  · have hlonger := hgoal _ (hsame (t :: rest) ⟨t, ht, .inl rfl⟩)
    rwa [List.append_assoc] at hlonger
  · cases rest with
    | nil =>
      rw [List.nil_append] at hcut
      rw [hcut, headIn_cons, ht] at hmore
      exact absurd hmore (by decide)
    | cons u rest =>
      obtain ⟨rfl, rfl⟩ := List.cons_eq_cons.mp hcut
      have hshorter := hgoal _ (hsame rest ⟨u, ht, .inr rfl⟩)
      rwa [List.append_assoc] at hshorter

/-- By the lines of the derivation, of which the first may be the line end. -/
theorem lines_of_sameButLineEnd {tokens' : List Token} {rules : List (Located Rule)}
    (h : Lines tokens rules) (hsame : SameButLineEnd tokens tokens') : Lines tokens' rules := by
  obtain ⟨t, ht, rfl | rfl⟩ := hsame
  · exact .lineEnd ht h
  · exact lines_of_lineEnd t tokens' rules ht h

/-- A colon that is not in the first of two lists is in the second. -/
theorem exists_front_of_colon {before after : List Token} (hcolon : colon.kind = .colon)
    (hbefore : ∀ t ∈ before, t.kind ≠ .colon) (hsplit : before ++ after = front ++ colon :: more) :
    ∃ rest, front = before ++ rest ∧ after = rest ++ colon :: more := by
  rcases List.append_eq_append_iff.mp hsplit with ⟨rest, rfl, hafter⟩ | ⟨rest, rfl, hcut⟩
  · exact ⟨rest, rfl, hafter⟩
  · cases rest with
    | nil => exact ⟨[], by simp, by simpa using hcut.symm⟩
    | cons t rest =>
      obtain ⟨rfl, -⟩ := List.cons_eq_cons.mp hcut
      exact absurd hcolon (hbefore colon (by simp))

theorem kind_ne_colon_of_content {content : List Token} {items : List Item}
    (h : Content content items) : ∀ t ∈ content, t.kind ≠ .colon := by
  intro t ht heq
  have hkind := kind_of_content h t ht
  rw [heq] at hkind
  exact absurd hkind (by decide)

/-- Behind the colon of a rule comes its content, and then the lines after it. -/
theorem lines_behind_colon {rules : List (Located Rule)} (h : Lines tokens rules)
    (hcolon : colon.kind = .colon) (hsplit : tokens = front ++ colon :: more) :
    ContentFirst (fun rest => Lines (front ++ colon :: rest) rules) more := by
  induction h generalizing front with
  | nil => simp at hsplit
  | @lineEnd t tokens rules ht _ ih =>
    have hline : ∀ u ∈ [t], u.kind ≠ .colon := by simp [ht]
    obtain ⟨rest, rfl, hrest⟩ := exists_front_of_colon hcolon hline hsplit
    exact contentFirst_mono (ih hrest) fun _ hlines => .lineEnd ht hlines
  | @rule first tokens r rules hfirst htail ih =>
    have hrule := hfirst
    cases hfirst with
    | @mk weight colon' content items hweight hcolon' hcontent =>
      have hnumber : ∀ u ∈ [weight], u.kind ≠ .colon := by simp [hweight]
      obtain ⟨rest, rfl, hrest⟩ := exists_front_of_colon hcolon hnumber hsplit
      cases rest with
      | nil =>
        obtain ⟨rfl, rfl⟩ := List.cons_eq_cons.mp hrest
        refine ⟨content, tokens, items, rfl, hcontent,
          headNot_of_headIn _ _ _ (lines_head tokens rules htail) (by decide), ?_⟩
        intro rest' hsame
        simpa using Lines.rule hrule (lines_of_sameButLineEnd htail hsame)
      | cons u rest =>
        -- The colon is not that of this rule, nor in its content.
        obtain ⟨rfl, hbehind⟩ := List.cons_eq_cons.mp hrest
        have hbehind : content ++ tokens = rest ++ colon :: more := hbehind
        obtain ⟨rest, rfl, hlater⟩ :=
          exists_front_of_colon hcolon (kind_ne_colon_of_content hcontent) hbehind
        apply contentFirst_mono (ih hlater)
        intro rest' hlines
        simpa using Lines.rule hrule hlines

theorem kind_of_flags (h : Flags tokens) : ∀ t ∈ tokens, t.kind ≠ .colon := by
  induction h with
  | last hword hclosing => simp [hword, hclosing]
  | more hword hcomma _ ih => simpa [hword, hcomma] using ih

theorem kind_ne_colon_of_header {id : String} {exported : Bool} (h : Header tokens id exported) :
    ∀ t ∈ tokens, t.kind ≠ .colon := by
  cases h with
  | plain hhash hname => simp [hhash, hname]
  | flagged hhash hname hopening hflags =>
    simpa [hhash, hname, hopening] using kind_of_flags hflags

/-- Behind a colon the content of a rule comes first, and then anything but content. -/
theorem tables_behind_colon {tables : List (Located Table)} (h : Tables tokens tables)
    (hcolon : colon.kind = .colon) (hsplit : tokens = front ++ colon :: more) :
    ContentFirst (fun rest => Tables (front ++ colon :: rest) tables) more := by
  induction h generalizing front more with
  | nil => simp at hsplit
  | @cons first tokens table tables hfirst htail ih =>
    have hhead := tables_head tokens tables htail
    rcases List.append_eq_append_iff.mp hsplit with ⟨rest, rfl, hrest⟩ | ⟨rest, rfl, hmore⟩
    · -- The colon is in a later table, before which this one stays what it is.
      have hne : tokens ≠ [] := by simp [hrest]
      apply contentFirst_mono (ih hrest)
      intro rest' htables
      rw [List.append_assoc]
      exact .cons (isTable_of_after first tokens _ table hfirst hne) htables
    · cases rest with
      | nil =>
        rw [List.nil_append] at hmore
        rw [← hmore, headIn_cons, hcolon] at hhead
        exact absurd hhead (by decide)
      | cons t rest =>
        obtain ⟨rfl, rfl⟩ := List.cons_eq_cons.mp hmore
        generalize hall : front ++ colon :: rest = all at hfirst
        cases hfirst with
        | bare hheader =>
          exact absurd hcolon (kind_ne_colon_of_header hheader colon (by simp [← hall]))
        | @lines header _ _ lineEnd lines _ _ hheader hline hlines =>
          have hline' : ∀ t ∈ [lineEnd], t.kind ≠ .colon := by simp [hline]
          obtain ⟨rest', rfl, hrest'⟩ :=
            exists_front_of_colon hcolon (kind_ne_colon_of_header hheader) hall.symm
          obtain ⟨rest', rfl, hlinesAll⟩ := exists_front_of_colon hcolon hline' hrest'
          apply contentFirst_append (lines_behind_colon hlines hcolon hlinesAll) hhead
          intro rest'' hlinesShort
          have hall' := Tables.cons (.lines hheader hline hlinesShort) htail
          simpa using hall'

/-- Behind every colon of a program comes the content of a rule, and then it makes no difference
whether a line end follows. -/
theorem program_behind_colon {p : Program} (h : IsProgram (front ++ colon :: more) p)
    (hcolon : colon.kind = .colon) :
    ContentFirst (fun rest => IsProgram (front ++ colon :: rest) p) more := by
  generalize hall : front ++ colon :: more = all at h
  cases h with
  | @mk lineEnds tokens tables hlineEnds htables hne =>
    have hlineEnds' : ∀ t ∈ lineEnds, t.kind ≠ .colon := fun t ht => by simp [hlineEnds t ht]
    obtain ⟨rest, rfl, hrest⟩ := exists_front_of_colon hcolon hlineEnds' hall.symm
    apply contentFirst_mono (tables_behind_colon htables hcolon hrest)
    intro rest' htables'
    rw [List.append_assoc]
    exact .mk hlineEnds htables' hne

section Ends
variable {content rest inner : List Token} {p : Program}

theorem endsContent_of_headNot (h : HeadNot [.text, .leftBrace] tokens) :
    EndsContent (tokens.map (·.kind)) := by
  cases tokens with
  | nil => exact nofun
  | cons t tokens =>
    intro kind hkind
    cases hkind
    simpa using h

/-- Content that is all there is of it before something else is that of a rule. -/
theorem program_of_sameButLineEnd {rest' : List Token}
    (h : IsProgram (front ++ colon :: (content ++ rest)) p) (hcolon : colon.kind = .colon)
    (hcontent : IsContent (content.map (·.kind))) (hrest : EndsContent (rest.map (·.kind)))
    (hsame : SameButLineEnd rest rest') :
    IsProgram (front ++ colon :: (content ++ rest')) p := by
  obtain ⟨content', others, items, hsplit, hderived, hothers, hgoal⟩ :=
    program_behind_colon h hcolon
  have hkinds := congrArg (List.map (·.kind)) hsplit
  rw [List.map_append, List.map_append] at hkinds
  obtain ⟨extra, hextra, hcontent', hmore⟩ := exists_more_content hcontent
    (isContent_of_content hderived) (endsContent_of_headNot hothers) hkinds
  -- The rule has this content and no more.
  rw [hmore] at hrest
  obtain rfl := isContent_eq_nil hextra hrest
  have hlength : content.length = content'.length := by
    simpa using (congrArg List.length hcontent').symm
  obtain ⟨rfl, rfl⟩ := List.append_inj hsplit hlength
  exact hgoal rest' hsame

/-- Behind whole content a line end can be put in or left out. -/
theorem program_behind_content_iff (t : Token) (ht : t.kind = .newline)
    (hcolon : colon.kind = .colon) (hcontent : IsContent (content.map (·.kind)))
    (hrest : EndsContent (rest.map (·.kind))) :
    IsProgram (front ++ colon :: (content ++ t :: rest)) p ↔
      IsProgram (front ++ colon :: (content ++ rest)) p := by
  constructor
  · intro h
    have hline : EndsContent ((t :: rest).map (·.kind)) :=
      endsContent_of_headNot (by simp [ht])
    exact program_of_sameButLineEnd h hcolon hcontent hline ⟨t, ht, .inr rfl⟩
  · intro h
    exact program_of_sameButLineEnd h hcolon hcontent hrest ⟨t, ht, .inl rfl⟩

/-- An expression that is open where a line begins has no closing brace, and no program has it. -/
theorem not_program_of_open {brace : Token} (hcolon : colon.kind = .colon)
    (hcontent : IsContent (content.map (·.kind))) (hbrace : brace.kind = .leftBrace)
    (hinner : inner.map (·.kind) ⊆ expressionKinds) (hrest : StartsLine (rest.map (·.kind))) :
    ¬IsProgram (front ++ colon :: (content ++ brace :: (inner ++ rest))) p := by
  intro h
  obtain ⟨content', others, items, hsplit, hderived, hothers, -⟩ := program_behind_colon h hcolon
  have hkinds := congrArg (List.map (·.kind)) hsplit
  simp only [List.map_append, List.map_cons, hbrace] at hkinds
  obtain ⟨extra, hextra, -, hmore⟩ := exists_more_content hcontent
    (isContent_of_content hderived) (endsContent_of_headNot hothers) hkinds
  cases hextra with
  | nil =>
    rw [List.nil_append] at hmore
    exact (endsContent_of_headNot hothers _ (hmore ▸ rfl)).2 rfl
  | text => cases hmore
  | braced hinner' _ =>
    have hinside := (List.cons_eq_cons.mp hmore).2
    exact ne_closed_of_startsLine hrest hinner hinner' (by simpa using hinside)

end Ends

end Grammar

end RandomTables
