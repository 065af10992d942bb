import RandomTables.Proofs.Program.Parse

namespace RandomTables

inductive Item.IsWritable : Item → Prop
  | text {s : String} : IsPlain s.toList → IsWritable (.text s)
  | table {id : String} {modifiers : List String} : IsName id.toList →
      (∀ m ∈ modifiers, Modifier.isName m = true) → IsWritable (.table id modifiers)
  | external {publisher collection id : String} {modifiers : List String} :
      IsName publisher.toList → IsName collection.toList → IsName id.toList →
      (∀ m ∈ modifiers, Modifier.isName m = true) →
      IsWritable (.external publisher collection id modifiers)
  | dice {d : Dice} : d.InBounds → IsWritable (.dice d)

def ItemsApart (item next : Item) : Prop :=
  item.isExpression = true ∨ next.isExpression = true

/-- Content that a rule can have: it is not all blank text, no two texts are neighbours, and each
item can be written. -/
structure WellFormed (content : List Item) : Prop where
  nonempty : content ≠ []
  visible : ¬∀ item ∈ content, item.isBlank = true
  apart : content.IsChain ItemsApart
  writable : ∀ item ∈ content, item.IsWritable

/-- The blank between two texts keeps slashes apart that would open a comment. -/
theorem isPlain_append (s t : List Char) (hs : IsPlain s) (ht : IsPlain t)
    (hblank : EndsBlank s) : IsPlain (s ++ t) := by
  refine ⟨?_, ?_, ?_, ?_, ?_⟩
  · simp [hs.nonempty]
  · simp [hs.unopened, ht.unopened]
  · simp [hs.unclosed, ht.unclosed]
  · simp [hs.oneLine, ht.oneLine]
  · intro before after hsplit hcomment
    -- A comment would open in the second text, at the seam or in the first. At the seam the slash
    -- that opens it would be the last of the first text, which is a space or tab.
    rcases List.append_eq_append_iff.mp hsplit with ⟨middle, rfl, rfl⟩ | ⟨middle, rfl, rfl⟩
    · obtain ⟨c, hlast, hc⟩ := ht.noComment middle after rfl hcomment
      exact ⟨c, by rw [List.getLast?_append, hlast, Option.some_or], hc⟩
    · rcases middle with _ | ⟨c, _ | ⟨d, middle⟩⟩
      · obtain ⟨c, hlast, -⟩ := ht.noComment [] t rfl hcomment
        cases hlast
      · obtain ⟨b, hlast, hb⟩ := hblank
        obtain rfl : c = b := by simpa using hlast
        obtain ⟨rfl, -⟩ := (startsComment_cons c t).mp hcomment
        exact absurd hb (by decide)
      · exact hs.noComment before _ rfl (startsComment_of_append c d middle t hcomment)

section Tokens
variable {tokens : List Token} {items : List Item}

/-- By induction on the texts of a run. -/
theorem isPlain_join (run : List Token) (hne : run ≠ []) (hkind : ∀ t ∈ run, t.kind = .text)
    (hshape : ∀ t ∈ run, t.Shape) (hapart : run.IsChain TextsApart) :
    IsPlain (String.join (run.map (·.lexeme))).toList := by
  induction run with
  | nil => exact absurd rfl hne
  | cons t run ih =>
    obtain ⟨ht, hrun⟩ := List.forall_mem_cons.mp hkind
    obtain ⟨htshape, hrunshape⟩ := List.forall_mem_cons.mp hshape
    rw [List.map_cons, String.join_cons, String.toList_append]
    cases run with
    | nil => simpa using htshape.text ht
    | cons u run =>
      obtain ⟨htu, htail⟩ := List.isChain_cons_cons.mp hapart
      have hrest := ih (List.cons_ne_nil u run) hrun hrunshape htail
      exact isPlain_append _ _ (htshape.text ht) hrest (htu ht (hrun u List.mem_cons_self))

theorem modifiers_isName {modifiers : List String} (h : Grammar.Modifiers tokens modifiers)
    (hshape : ∀ t ∈ tokens, t.Shape) : ∀ m ∈ modifiers, Modifier.isName m = true := by
  induction h with
  | nil => exact nofun
  | cons hbar hword _ ih =>
    obtain ⟨-, hshape⟩ := List.forall_mem_cons.mp hshape
    obtain ⟨hwordshape, hshape⟩ := List.forall_mem_cons.mp hshape
    exact List.forall_mem_cons.mpr ⟨hwordshape.modifier hword, ih hshape⟩

/-- The shapes of its tokens are what an expression needs to be written. -/
theorem isWritable_of_braced {item : Item} (h : Grammar.Braced tokens item)
    (hshape : ∀ t ∈ tokens, t.Shape) : item.IsWritable := by
  cases h with
  | table _ hid hmodifiers =>
    refine .table ((hshape _ ?_).name hid) (modifiers_isName hmodifiers ?_)
    · simp
    · exact fun t ht => hshape t (by simp [ht])
  | external _ hpublisher _ hcollection _ hid hmodifiers =>
    refine .external ((hshape _ ?_).name hpublisher) ((hshape _ ?_).name hcollection)
      ((hshape _ ?_).name hid) (modifiers_isName hmodifiers ?_)
    · simp
    · simp
    · simp
    · exact fun t ht => hshape t (by simp [ht])
  | dice hroll =>
    obtain ⟨d, hd, hbounds⟩ := (hshape _ (by simp)).dice hroll
    rw [Grammar.diceOf_eq _ d hd]
    exact .dice hbounds

theorem isWritable_of_content (h : Grammar.Content tokens items)
    (hshape : ∀ t ∈ tokens, t.Shape) (hapart : tokens.IsChain TextsApart) :
    ∀ item ∈ items, item.IsWritable := by
  induction h with
  | nil => exact nofun
  | @texts run tokens items hne hkind _ _ ih =>
    rw [List.forall_mem_append] at hshape
    have hjoined := isPlain_join run hne hkind hshape.1 hapart.left_of_append
    exact List.forall_mem_cons.mpr ⟨.text hjoined, ih hshape.2 hapart.right_of_append⟩
  | @expression opening inner closing tokens item items _ hinner _ _ ih =>
    have hsplit : opening :: (inner ++ closing :: tokens) =
        [opening] ++ inner ++ [closing] ++ tokens := by simp
    rw [hsplit] at hshape hapart
    simp only [List.forall_mem_append] at hshape
    exact List.forall_mem_cons.mpr ⟨isWritable_of_braced hinner hshape.1.1.2,
      ih hshape.2 hapart.right_of_append⟩

theorem isExpression_of_braced {item : Item} (h : Grammar.Braced tokens item) :
    item.isExpression = true := by
  cases h <;> rfl

/-- A run of texts is one item, and so has an expression beside it. -/
theorem itemsApart_of_content (h : Grammar.Content tokens items) : items.IsChain ItemsApart := by
  induction h with
  | nil => exact List.IsChain.nil
  | @texts _ _ items _ _ _ hfirst ih =>
    refine List.isChain_cons.mpr ⟨?_, ih⟩
    intro item hitem
    cases items with
    | nil => cases hitem
    | cons item' items =>
      cases hitem
      cases item with
      | text => exact False.elim hfirst
      | _ => exact .inr rfl
  | expression _ hinner _ _ ih =>
    exact List.isChain_cons.mpr ⟨fun _ _ => .inl (isExpression_of_braced hinner), ih⟩

/-- A rule of sound tokens has content that rules can have. -/
theorem wellFormed_of_isRule {r : Located Rule} (h : Grammar.IsRule tokens r)
    (hshape : ∀ t ∈ tokens, t.Shape) (hapart : tokens.IsChain TextsApart) :
    WellFormed r.value.content := by
  cases h with
  | @mk weight colon tokens items _ _ hcontent hne hblank =>
    rw [← Grammar.all_isBlank_iff tokens items ((Grammar.content_iff_grown _ _).mp hcontent),
      List.all_eq_true] at hblank
    have hitems : ∀ item ∈ items, item.IsWritable := by
      apply isWritable_of_content hcontent
      · exact fun t ht => hshape t (by simp [ht])
      · exact hapart.tail.tail
    refine ⟨?_, hblank, itemsApart_of_content hcontent, hitems⟩
    rintro rfl
    exact hblank nofun

/-- Every rule of a program is read from some stretch of its tokens. -/
theorem rules_of_lines {rules : List (Located Rule)} (h : Grammar.Lines tokens rules) :
    ∀ r ∈ rules, ∃ part, part <:+: tokens ∧ Grammar.IsRule part r := by
  induction h with
  | nil => exact nofun
  | lineEnd _ _ ih =>
    intro r hr
    obtain ⟨part, hpart, hrule⟩ := ih r hr
    exact ⟨part, hpart.trans (List.suffix_cons _ _).isInfix, hrule⟩
  | rule hfirst _ ih =>
    intro r hr
    rcases List.mem_cons.mp hr with rfl | hr
    · exact ⟨_, (List.prefix_append _ _).isInfix, hfirst⟩
    · obtain ⟨part, hpart, hrule⟩ := ih r hr
      exact ⟨part, hpart.trans (List.suffix_append _ _).isInfix, hrule⟩

/-- The tokens of a rule stand together in those of its program. -/
theorem rules_of_tables {tables : List (Located Table)} (h : Grammar.Tables tokens tables) :
    ∀ table ∈ tables, ∀ r ∈ table.value.rules,
      ∃ part, part <:+: tokens ∧ Grammar.IsRule part r := by
  induction h with
  | nil => exact nofun
  | cons hfirst htail ih =>
    intro table htable r hr
    rcases List.mem_cons.mp htable with rfl | htable
    · obtain ⟨header, lines, id, exported, rules, rfl, -, -, hlines, rfl⟩ :=
        (Grammar.isTable_iff _ _ _ (Grammar.tables_head _ _ htail)).mp hfirst
      obtain ⟨part, hpart, hrule⟩ := rules_of_lines hlines r hr
      refine ⟨part, hpart.trans ?_, hrule⟩
      exact (List.suffix_append _ _).isInfix.trans (List.prefix_append _ _).isInfix
    · obtain ⟨part, hpart, hrule⟩ := ih table htable r hr
      exact ⟨part, hpart.trans (List.suffix_append _ _).isInfix, hrule⟩

theorem ids_of_tables {tables : List (Located Table)} (h : Grammar.Tables tokens tables) :
    ∀ table ∈ tables, ∃ name ∈ tokens, name.kind = .identifier ∧ table.value.id = name.lexeme := by
  induction h with
  | nil => exact nofun
  | cons hfirst htail ih =>
    intro table htable
    rcases List.mem_cons.mp htable with rfl | htable
    · obtain ⟨header, lines, id, exported, rules, rfl, hheader, -, -, rfl⟩ :=
        (Grammar.isTable_iff _ _ _ (Grammar.tables_head _ _ htail)).mp hfirst
      obtain ⟨hash, name, flags, rfl, -, hname, rfl⟩ := Grammar.header_cons _ _ _ hheader
      exact ⟨name, by simp, hname, rfl⟩
    · obtain ⟨name, hmem, hname, hid⟩ := ih table htable
      exact ⟨name, List.mem_append_right _ hmem, hname, hid⟩

end Tokens

/-- The ids of tables are names. -/
theorem isName_of_parse {source : String} {p : Program} (h : Program.parse source = .ok p) :
    ∀ table ∈ p.tables, IsName table.value.id.toList := by
  obtain ⟨pieces, mode, last, -, hreads, hp⟩ := (Program.parse_eq_ok_iff source p).mp h
  have hshape := shape_of_reads hreads 0
  intro table htable
  generalize tokensFrom 0 pieces = tokens at hp hshape
  cases hp with
  | @mk lineEnds tokens _ _ htables =>
    obtain ⟨name, hmem, hname, hid⟩ := ids_of_tables htables table htable
    rw [hid]
    exact (hshape name (List.mem_append_right _ hmem)).name hname

theorem wellFormed_of_parse (source : String) (p : Program) (h : Program.parse source = .ok p) :
    ∀ table ∈ p.tables, ∀ r ∈ table.value.rules, WellFormed r.value.content := by
  obtain ⟨pieces, mode, last, -, hreads, hp⟩ := (Program.parse_eq_ok_iff source p).mp h
  have hshape := shape_of_reads hreads 0
  have hapart := textsApart_of_reads hreads 0
  intro table htable r hr
  generalize tokensFrom 0 pieces = tokens at hp hshape hapart
  cases hp with
  | @mk lineEnds tokens _ _ htables =>
    obtain ⟨part, hpart, hrule⟩ := rules_of_tables htables table htable r hr
    have hpart := hpart.trans (List.suffix_append lineEnds tokens).isInfix
    have hpartApart : part.IsChain TextsApart := List.IsChain.infix hapart hpart
    exact wellFormed_of_isRule hrule (fun t ht => hshape t (hpart.subset ht)) hpartApart

end RandomTables
