import Mathlib.Data.List.Forall2
import RandomTables.Proofs.Program.Table
import RandomTables.Proofs.Token.Site

namespace RandomTables.Grammar

/-- The same words at places of their own, where a text of one side may be two on the other. -/
inductive Alike : List Token → List Token → Prop
  | nil : Alike [] []
  | cons {t t' tokens tokens'} : t.SameWord t' → Alike tokens tokens' →
      Alike (t :: tokens) (t' :: tokens')
  | cut {t first second tokens tokens'} : t.kind = .text → first.kind = .text →
      second.kind = .text → t.lexeme = first.lexeme ++ second.lexeme → Alike tokens tokens' →
      Alike (t :: tokens) (first :: second :: tokens')
  | join {first second t tokens tokens'} : first.kind = .text → second.kind = .text →
      t.kind = .text → t.lexeme = first.lexeme ++ second.lexeme → Alike tokens tokens' →
      Alike (first :: second :: tokens) (t :: tokens')

theorem alike_symm (tokens tokens' : List Token) (h : Alike tokens tokens') :
    Alike tokens' tokens := by
  induction h with
  | nil => exact .nil
  | cons hsame _ ih => exact .cons hsame.symm ih
  | cut ht hfirst hsecond hlexeme _ ih => exact .join hfirst hsecond ht hlexeme ih
  | join hfirst hsecond ht hlexeme _ ih => exact .cut ht hfirst hsecond hlexeme ih

/-- Tokens that differ in their places only are alike. -/
theorem alike_of_faces (tokens tokens' : List Token)
    (h : tokens'.map Token.face = tokens.map Token.face) : Alike tokens tokens' := by
  induction tokens generalizing tokens' with
  | nil =>
    rw [List.map_nil, List.map_eq_nil_iff] at h
    rw [h]
    exact .nil
  | cons t tokens ih =>
    obtain ⟨t', rest, rfl, hface, hrest⟩ := List.map_eq_cons_iff.mp h
    exact .cons (Token.sameWord_of_face hface.symm) (ih rest hrest)

/-- So are tokens of which one text was cut in two. -/
theorem alike_of_sameButCut (tokens tokens' : List Token)
    (h : SameButCut (tokens.map Token.face) (tokens'.map Token.face)) : Alike tokens tokens' := by
  rcases h with hsame | ⟨before, s, t, after, htokens, htokens'⟩
  · exact alike_of_faces tokens tokens' hsame
  induction before generalizing tokens tokens' with
  | nil =>
    obtain ⟨u, rest, rfl, hu, hrest⟩ := List.map_eq_cons_iff.mp htokens
    obtain ⟨first, more, rfl, hfirst, hmore⟩ := List.map_eq_cons_iff.mp htokens'
    obtain ⟨second, rest', rfl, hsecond, hrest'⟩ := List.map_eq_cons_iff.mp hmore
    simp only [Token.face, Prod.mk.injEq] at hu hfirst hsecond
    refine .cut hu.1 hfirst.1 hsecond.1 ?_ (alike_of_faces rest rest' (hrest'.trans hrest.symm))
    rw [hu.2.1, hfirst.2.1, hsecond.2.1]
  | cons face before ih =>
    obtain ⟨u, rest, rfl, hu, hrest⟩ := List.map_eq_cons_iff.mp htokens
    obtain ⟨u', rest', rfl, hu', hrest'⟩ := List.map_eq_cons_iff.mp htokens'
    exact .cons (Token.sameWord_of_face (hu.trans hu'.symm)) (ih rest rest' hrest hrest')

theorem alike_nil (tokens : List Token) (h : Alike [] tokens) : tokens = [] := by
  cases h
  rfl

/-- So are tokens with line ends of other characters. -/
theorem alike_of_sameWords {tokens tokens' : List Token}
    (h : List.Forall₂ Token.SameWord tokens tokens') : Alike tokens tokens' := by
  induction h with
  | nil => exact .nil
  | cons hsame _ ih => exact .cons hsame ih

/-- A token other than text has one counterpart. -/
theorem alike_cons {t : Token} {tokens others : List Token} {kind : TokenKind}
    (h : Alike (t :: tokens) others) (ht : t.kind = kind) (hkind : kind ≠ .text) :
    ∃ t' tokens', others = t' :: tokens' ∧ t'.kind = kind ∧
      (kind ≠ .newline → t'.lexeme = t.lexeme) ∧ t'.value = t.value ∧ Alike tokens tokens' := by
  subst ht
  cases h with
  | cons hsame htail =>
    exact ⟨_, _, rfl, hsame.kind.symm, fun hkind => (hsame.lexeme hkind).symm, hsame.value.symm,
      htail⟩
  | cut hcut => exact absurd hcut hkind
  | join hjoin => exact absurd hjoin hkind

/-- Tokens fall apart alike where the second part does not begin with text. -/
theorem alike_append (before after others : List Token) (h : Alike (before ++ after) others)
    (hafter : HeadNot [.text] after) :
    ∃ before' after', others = before' ++ after' ∧ Alike before before' ∧ Alike after after' := by
  generalize hall : before ++ after = all at h
  induction h generalizing before with
  | nil =>
    obtain ⟨rfl, rfl⟩ := List.append_eq_nil_iff.mp hall
    exact ⟨[], [], rfl, .nil, .nil⟩
  | @cons t t' tokens tokens' hsame htail ih =>
    cases before with
    | nil =>
      rw [List.nil_append] at hall
      rw [hall]
      exact ⟨[], t' :: tokens', rfl, .nil, .cons hsame htail⟩
    | cons u before =>
      obtain ⟨rfl, hrest⟩ := List.cons_eq_cons.mp hall
      obtain ⟨before', after', rfl, hbefore, hafter⟩ := ih before hrest
      exact ⟨t' :: before', after', rfl, .cons hsame hbefore, hafter⟩
  | @cut t first second tokens tokens' ht hfirst hsecond hlexeme htail ih =>
    cases before with
    | nil =>
      rw [List.nil_append] at hall
      rw [hall]
      exact ⟨[], first :: second :: tokens', rfl, .nil, .cut ht hfirst hsecond hlexeme htail⟩
    | cons u before =>
      obtain ⟨rfl, hrest⟩ := List.cons_eq_cons.mp hall
      obtain ⟨before', after', rfl, hbefore, hafter⟩ := ih before hrest
      exact ⟨first :: second :: before', after', rfl,
        .cut ht hfirst hsecond hlexeme hbefore, hafter⟩
  | @join first second t tokens tokens' hfirst hsecond ht hlexeme htail ih =>
    rcases before with _ | ⟨u, _ | ⟨u', before⟩⟩
    · rw [List.nil_append] at hall
      rw [hall]
      exact ⟨[], t :: tokens', rfl, .nil, .join hfirst hsecond ht hlexeme htail⟩
    · -- The cut would lie between a text and what begins with another.
      simp only [List.cons_append, List.nil_append, List.cons.injEq] at hall
      rw [hall.2, headNot_cons, List.mem_singleton] at hafter
      exact absurd hsecond hafter
    · simp only [List.cons_append, List.cons.injEq] at hall
      obtain ⟨rfl, rfl, hrest⟩ := hall
      obtain ⟨before', after', rfl, hbefore, hafter⟩ := ih before hrest
      exact ⟨t :: before', after', rfl, .join hfirst hsecond ht hlexeme hbefore, hafter⟩

section Derivations
variable {tokens others : List Token}

/-- No modifier is a text, so the tokens are alike one by one. -/
theorem modifiers_of_alike {modifiers : List String} (h : Modifiers tokens modifiers)
    (halike : Alike tokens others) : Modifiers others modifiers := by
  induction h generalizing others with
  | nil =>
    rw [alike_nil others halike]
    exact .nil
  | cons hbar hword _ ih =>
    obtain ⟨bar, rest, rfl, hbar, -, -, hrest⟩ := alike_cons halike hbar (by decide)
    obtain ⟨word, rest, rfl, hword, hlexeme, -, hrest⟩ := alike_cons hrest hword (by decide)
    rw [← hlexeme (by decide)]
    exact .cons hbar hword (ih hrest)

theorem braced_of_alike {item : Item} (h : Braced tokens item) (halike : Alike tokens others) :
    Braced others item := by
  cases h with
  | table hhash hid hmodifiers =>
    obtain ⟨hash, rest, rfl, hhash, -, -, hrest⟩ := alike_cons halike hhash (by decide)
    obtain ⟨id, rest, rfl, hid, hname, -, hrest⟩ := alike_cons hrest hid (by decide)
    rw [← hname (by decide)]
    exact .table hhash hid (modifiers_of_alike hmodifiers hrest)
  | external hmark hpublisher hslash hcollection hhash hid hmodifiers =>
    obtain ⟨mark, rest, rfl, hmark, -, -, hrest⟩ := alike_cons halike hmark (by decide)
    obtain ⟨publisher, rest, rfl, hpublisher, hname₁, -, hrest⟩ :=
      alike_cons hrest hpublisher (by decide)
    obtain ⟨slash, rest, rfl, hslash, -, -, hrest⟩ := alike_cons hrest hslash (by decide)
    obtain ⟨collection, rest, rfl, hcollection, hname₂, -, hrest⟩ :=
      alike_cons hrest hcollection (by decide)
    obtain ⟨hash, rest, rfl, hhash, -, -, hrest⟩ := alike_cons hrest hhash (by decide)
    obtain ⟨id, rest, rfl, hid, hname₃, -, hrest⟩ := alike_cons hrest hid (by decide)
    rw [← hname₁ (by decide), ← hname₂ (by decide), ← hname₃ (by decide)]
    exact .external hmark hpublisher hslash hcollection hhash hid
      (modifiers_of_alike hmodifiers hrest)
  | @dice roll hroll =>
    obtain ⟨roll', rest, rfl, hroll', -, hvalue, hrest⟩ := alike_cons halike hroll (by decide)
    obtain rfl := alike_nil rest hrest
    have hdice : diceOf roll = diceOf roll' := by rw [diceOf, diceOf, hvalue]
    rw [hdice]
    exact .dice hroll'

/-- Text that is put in front in two parts is one text. -/
theorem consText_append (s t : String) (items : List Item) :
    consText (s ++ t) items = consText s (consText t items) := by
  unfold consText
  split
  · rw [String.append_assoc]
  · rfl

/-- A text in front joins what grew before. -/
theorem grown_of_cons_text (t : Token) (items : List Item) (h : Grown (t :: tokens) items)
    (ht : t.kind = .text) : ∃ items', items = consText t.lexeme items' ∧ Grown tokens items' := by
  cases h with
  | text _ htail => exact ⟨_, rfl, htail⟩
  | expression hopening =>
    rw [ht] at hopening
    cases hopening

/-- By induction on how the tokens are alike: where a text is cut in two, both parts join. -/
theorem grown_of_alike {items : List Item} (h : Grown tokens items)
    (halike : Alike tokens others) : Grown others items := by
  induction h generalizing others with
  | nil =>
    rw [alike_nil others halike]
    exact .nil
  | @text t tokens items ht _ ih =>
    cases halike with
    | @cons _ t' _ tokens' hsame htail =>
      rw [hsame.lexeme (by simp [ht])]
      exact .text (hsame.kind ▸ ht) (ih htail)
    | cut _ hfirst hsecond hlexeme htail =>
      rw [hlexeme, consText_append]
      exact .text hfirst (.text hsecond (ih htail))
    | @join _ second whole tokens tokens' _ hsecond hwhole hlexeme htail =>
      -- What follows the second half is content on its own, which the whole text joins.
      obtain ⟨items', rfl, htail'⟩ :=
        grown_of_cons_text second items (ih (.cons (Token.sameWord_of_face rfl) htail)) hsecond
      rw [← consText_append, ← hlexeme]
      exact .text hwhole htail'
  | @expression _ inner _ tokens _ _ hopening hinner hclosing _ ih =>
    -- Braces are not cut, so what is between them is alike on its own.
    obtain ⟨opening, rest, rfl, hopening, -, -, hrest⟩ := alike_cons halike hopening (by decide)
    obtain ⟨inner', rest, rfl, hinner', hrest⟩ :=
      alike_append inner _ rest hrest (by simp [hclosing])
    obtain ⟨closing, rest, rfl, hclosing, -, -, hrest⟩ := alike_cons hrest hclosing (by decide)
    exact .expression hopening (braced_of_alike hinner hinner') hclosing (ih hrest)

/-- The rule is the same but for its span. -/
theorem rule_of_alike {r : Located Rule} (h : IsRule tokens r) (halike : Alike tokens others) :
    ∃ r', IsRule others r' ∧ r'.value = r.value := by
  cases h with
  | @mk weight colon tokens items hweight hcolon hcontent hne hblank =>
    obtain ⟨weight', rest, rfl, hweight', -, hvalue, hrest⟩ :=
      alike_cons halike hweight (by decide)
    obtain ⟨colon', rest, rfl, hcolon', -, -, hrest⟩ := alike_cons hrest hcolon (by decide)
    -- The halves of a text are blank if the whole is, as the joined items show.
    have hgrown := (content_iff_grown tokens items).mp hcontent
    have hgrown' := grown_of_alike hgrown hrest
    rw [← all_isBlank_iff tokens items hgrown, all_isBlank_iff rest items hgrown'] at hblank
    refine ⟨_, .mk hweight' hcolon' ((content_iff_grown rest items).mpr hgrown') ?_ hblank, ?_⟩
    · rintro rfl
      exact hblank nofun
    · have hsame : weightOf weight' = weightOf weight := by rw [weightOf, weightOf, hvalue]
      rw [hsame]

/-- Line ends may come in other characters, and rules keep their values. -/
theorem lines_of_alike {rules : List (Located Rule)} (h : Lines tokens rules)
    (halike : Alike tokens others) :
    ∃ rules', Lines others rules' ∧ rules'.map (·.value) = rules.map (·.value) := by
  induction h generalizing others with
  | nil =>
    rw [alike_nil others halike]
    exact ⟨[], .nil, rfl⟩
  | lineEnd ht _ ih =>
    obtain ⟨t, rest, rfl, ht, -, -, hrest⟩ := alike_cons halike ht (by decide)
    obtain ⟨rules', hrules', hsame⟩ := ih hrest
    exact ⟨rules', .lineEnd ht hrules', hsame⟩
  | @rule first tokens r rules hfirst htail ih =>
    have hafter := headNot_of_headIn _ [.text] _ (lines_head tokens rules htail) (by decide)
    obtain ⟨first', rest, rfl, hfirst', hrest⟩ := alike_append first tokens others halike hafter
    obtain ⟨r', hr', hvalue⟩ := rule_of_alike hfirst hfirst'
    obtain ⟨rules', hrules', hsame⟩ := ih hrest
    refine ⟨r' :: rules', .rule hr' hrules', ?_⟩
    rw [List.map_cons, List.map_cons, hvalue, hsame]

theorem flags_of_alike (h : Flags tokens) (halike : Alike tokens others) : Flags others := by
  induction h generalizing others with
  | last hword hclosing =>
    obtain ⟨word, rest, rfl, hword, -, -, hrest⟩ := alike_cons halike hword (by decide)
    obtain ⟨closing, rest, rfl, hclosing, -, -, hrest⟩ := alike_cons hrest hclosing (by decide)
    obtain rfl := alike_nil rest hrest
    exact .last hword hclosing
  | more hword hcomma _ ih =>
    obtain ⟨word, rest, rfl, hword, -, -, hrest⟩ := alike_cons halike hword (by decide)
    obtain ⟨comma, rest, rfl, hcomma, -, -, hrest⟩ := alike_cons hrest hcomma (by decide)
    exact .more hword hcomma (ih hrest)

theorem header_of_alike {id : String} {exported : Bool} (h : Header tokens id exported)
    (halike : Alike tokens others) : Header others id exported := by
  cases h with
  | plain hhash hname =>
    obtain ⟨hash, rest, rfl, hhash, -, -, hrest⟩ := alike_cons halike hhash (by decide)
    obtain ⟨name, rest, rfl, hname, hid, -, hrest⟩ := alike_cons hrest hname (by decide)
    obtain rfl := alike_nil rest hrest
    rw [← hid (by decide)]
    exact .plain hhash hname
  | flagged hhash hname hopening hflags =>
    obtain ⟨hash, rest, rfl, hhash, -, -, hrest⟩ := alike_cons halike hhash (by decide)
    obtain ⟨name, rest, rfl, hname, hid, -, hrest⟩ := alike_cons hrest hname (by decide)
    obtain ⟨opening, rest, rfl, hopening, -, -, hrest⟩ := alike_cons hrest hopening (by decide)
    rw [← hid (by decide)]
    exact .flagged hhash hname hopening (flags_of_alike hflags hrest)

def bareTable (table : Located Table) : String × Bool × List Rule :=
  (table.value.id, table.value.exported, table.value.rules.map (·.value))

/-- Nothing comes behind the one table if nothing comes behind the other. -/
theorem table_of_alike {after after' : List Token} {table : Located Table}
    (h : IsTable tokens after table) (halike : Alike tokens others)
    (hafter : after = [] → after' = []) :
    ∃ table', IsTable others after' table' ∧ bareTable table' = bareTable table := by
  cases h with
  | bare hheader =>
    obtain rfl := hafter rfl
    exact ⟨_, .bare (header_of_alike hheader halike), rfl⟩
  | @lines header id exported lineEnd tokens rules _ hheader hline hrules =>
    obtain ⟨header', rest, rfl, hheader', hrest⟩ :=
      alike_append header _ others halike (by simp [hline])
    obtain ⟨lineEnd', rest, rfl, hline', -, -, hrest⟩ := alike_cons hrest hline (by decide)
    obtain ⟨rules', hrules', hsame⟩ := lines_of_alike hrules hrest
    refine ⟨_, .lines (header_of_alike hheader hheader') hline' hrules', ?_⟩
    rw [bareTable, bareTable, hsame]

theorem tables_of_alike {tables : List (Located Table)} (h : Tables tokens tables)
    (halike : Alike tokens others) :
    ∃ tables', Tables others tables' ∧ tables'.map bareTable = tables.map bareTable := by
  induction h generalizing others with
  | nil =>
    rw [alike_nil others halike]
    exact ⟨[], .nil, rfl⟩
  | @cons first tokens table tables hfirst htail ih =>
    have hafter := headNot_of_headIn _ [.text] _ (tables_head tokens tables htail) (by decide)
    obtain ⟨first', rest, rfl, hfirst', hrest⟩ := alike_append first tokens others halike hafter
    -- A header without a line end stays the last of the input.
    have hend : tokens = [] → rest = [] := by
      rintro rfl
      exact alike_nil rest hrest
    obtain ⟨table', htable', hbare⟩ := table_of_alike hfirst hfirst' hend
    obtain ⟨tables', htables', hsame⟩ := ih hrest
    refine ⟨table' :: tables', .cons htable' htables', ?_⟩
    rw [List.map_cons, List.map_cons, hbare, hsame]

theorem lineEnds_of_alike (h : ∀ t ∈ tokens, t.kind = .newline) (halike : Alike tokens others) :
    ∀ t ∈ others, t.kind = .newline := by
  induction tokens generalizing others with
  | nil =>
    rw [alike_nil others halike]
    exact nofun
  | cons t tokens ih =>
    obtain ⟨ht, htokens⟩ := List.forall_mem_cons.mp h
    obtain ⟨t', rest, rfl, ht', -, -, hrest⟩ := alike_cons halike ht (by decide)
    exact List.forall_mem_cons.mpr ⟨ht', ih htokens hrest⟩

/-- All tables are the same but for the spans in them. -/
theorem program_of_alike {p : Program} (h : IsProgram tokens p) (halike : Alike tokens others) :
    ∃ p', IsProgram others p' ∧ p'.tables.map bareTable = p.tables.map bareTable := by
  cases h with
  | @mk lineEnds tokens tables hlineEnds htables hne =>
    have hafter := headNot_of_headIn _ [.text] _ (tables_head tokens tables htables) (by decide)
    obtain ⟨lineEnds', rest, rfl, hlineEnds', hrest⟩ :=
      alike_append lineEnds tokens others halike hafter
    obtain ⟨tables', htables', hsame⟩ := tables_of_alike htables hrest
    refine ⟨⟨tables'⟩, .mk (lineEnds_of_alike hlineEnds hlineEnds') htables' ?_, hsame⟩
    rintro rfl
    exact hne (List.map_eq_nil_iff.mp hsame.symm)

end Derivations

end RandomTables.Grammar
