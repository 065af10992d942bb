import RandomTables.Proofs.Program.Content
import RandomTables.Proofs.Text.Visible

namespace RandomTables
open Text (isBlank HasVisible)

def printed (content : List Item) : List Char :=
  content.flatMap fun item => item.print.toList

@[simp] theorem printed_nil : printed [] = [] := rfl

@[simp] theorem printed_cons (item : Item) (content : List Item) :
    printed (item :: content) = item.print.toList ++ printed content :=
  List.flatMap_cons

theorem printed_append (content more : List Item) :
    printed (content ++ more) = printed content ++ printed more :=
  List.flatMap_append

theorem toList_join_print (content : List Item) :
    (String.join (content.map Item.print)).toList = printed content := by
  rw [String.toList_join, List.flatMap_map, printed]

theorem toList_braced (s : String) : (Item.braced s).toList = '\x7b' :: (s.toList ++ ['\x7d']) := by
  simp [Item.braced]

theorem exists_braces {item : Item} (h : item.isExpression = true) :
    ∃ inner, item.print.toList = '\x7b' :: (inner ++ ['\x7d']) := by
  cases item with
  | text => cases h
  | _ => exact ⟨_, toList_braced _⟩

theorem exists_text {item : Item} (h : item.isExpression = false) : ∃ s, item = .text s := by
  cases item with
  | text s => exact ⟨s, rfl⟩
  | _ => cases h

/-- An expression shows its braces, and a text itself. -/
theorem hasVisible_print_iff (item : Item) :
    HasVisible item.print.toList ↔ item.isBlank = false := by
  cases hexpression : item.isExpression with
  | true =>
    obtain ⟨inner, hprint⟩ := exists_braces hexpression
    have hvisible : HasVisible item.print.toList := by
      rw [hprint]
      exact ⟨'\x7b', List.mem_cons_self, by decide⟩
    have hblank : item.isBlank = false := by
      cases item with
      | text => cases hexpression
      | _ => rfl
    exact iff_of_true hvisible hblank
  | false =>
    cases item with
    | text s => simp [Item.print, Item.isBlank, HasVisible]
    | _ => cases hexpression

theorem hasVisible_printed_iff (content : List Item) :
    HasVisible (printed content) ↔ ¬∀ item ∈ content, item.isBlank = true := by
  induction content with
  | nil => simp [HasVisible]
  | cons item content ih =>
    rw [printed_cons, Text.hasVisible_append, hasVisible_print_iff, ih, List.forall_mem_cons,
      Classical.not_and_iff_not_or_not, Bool.not_eq_true]

/-- What is seen is not all blank. -/
theorem wellFormed_of_hasVisible {content : List Item} (hvisible : HasVisible (printed content))
    (hapart : content.IsChain ItemsApart) (hwritable : ∀ item ∈ content, item.IsWritable) :
    WellFormed content := by
  have hblank := (hasVisible_printed_iff content).mp hvisible
  refine ⟨?_, hblank, hapart, hwritable⟩
  rintro rfl
  exact hblank nofun

section Plain
variable {s t : List Char}

/-- The front of a plain text is plain. -/
theorem isPlain_of_prefix (h : IsPlain (s ++ t)) (hne : s ≠ []) : IsPlain s := by
  refine ⟨hne, ?_, ?_, ?_, ?_⟩
  · exact fun hmem => h.unopened (List.mem_append_left t hmem)
  · exact fun hmem => h.unclosed (List.mem_append_left t hmem)
  · exact fun hmem => h.oneLine (List.mem_append_left t hmem)
  · rintro before after rfl hstart
    exact h.noComment before (after ++ t) (List.append_assoc ..) (startsComment_append _ t hstart)

/-- The rest of a plain text can stand after a space, if no comment opens at its first character. -/
theorem isPlain_space_cons (h : IsPlain (s ++ t)) (hcomment : startsComment t = false) :
    IsPlain (' ' :: t) := by
  refine ⟨List.cons_ne_nil _ _, ?_, ?_, ?_, ?_⟩
  · simpa using fun hmem => h.unopened (List.mem_append_right s hmem)
  · simpa using fun hmem => h.unclosed (List.mem_append_right s hmem)
  · simpa using fun hmem => h.oneLine (List.mem_append_right s hmem)
  · intro before after hsplit hstart
    rcases before with _ | ⟨b, _ | ⟨c, before⟩⟩
    · obtain rfl : ' ' :: t = after := hsplit
      rw [startsComment_of_ne _ _ (by decide)] at hstart
      cases hstart
    · obtain ⟨-, rfl⟩ := List.cons_eq_cons.mp hsplit
      rw [hcomment] at hstart
      cases hstart
    · obtain ⟨-, rfl⟩ := List.cons_eq_cons.mp hsplit
      obtain ⟨d, hlast, hd⟩ :=
        h.noComment (s ++ c :: before) after (List.append_assoc ..).symm hstart
      rw [List.getLast?_append_of_ne_nil _ (List.cons_ne_nil c before)] at hlast
      exact ⟨d, by rwa [List.getLast?_cons_cons], hd⟩

end Plain

section Ends
variable {content : List Item} {left middle right : List Char}

theorem isChain_text_cons {s s' : String} (h : (Item.text s :: content).IsChain ItemsApart) :
    (Item.text s' :: content).IsChain ItemsApart := by
  obtain ⟨hnext, htail⟩ := List.isChain_cons.mp h
  refine List.isChain_cons.mpr ⟨fun next hmem => ?_, htail⟩
  exact .inr ((hnext next hmem).resolve_left nofun)

theorem isChain_concat_text {s s' : String} (h : (content ++ [Item.text s]).IsChain ItemsApart) :
    (content ++ [Item.text s']).IsChain ItemsApart := by
  obtain ⟨hcontent, -, hseam⟩ := List.isChain_append.mp h
  refine List.isChain_append.mpr ⟨hcontent, List.isChain_singleton _, ?_⟩
  intro item hitem next hnext
  exact .inl ((hseam item hitem _ rfl).resolve_right nofun)

/-- A brace stands after every text but the last, and before every text but the first. -/
theorem head?_printed_after_text {s : String} (h : (Item.text s :: content).IsChain ItemsApart) :
    ∀ c ∈ (printed content).head?, isBlank c = false := by
  cases content with
  | nil => exact nofun
  | cons next content =>
    obtain ⟨hnext, -⟩ := List.isChain_cons_cons.mp h
    obtain ⟨inner, hprint⟩ := exists_braces (hnext.resolve_left nofun)
    rw [printed_cons, hprint]
    rintro c ⟨⟩
    decide

/-- Before a text stands an expression, which ends with a brace. -/
theorem getLast?_printed_before_text {s : String}
    (h : (content ++ [Item.text s]).IsChain ItemsApart) :
    ∀ c ∈ (printed content).getLast?, isBlank c = false := by
  rcases content.eq_nil_or_concat with rfl | ⟨content, item, rfl⟩
  · exact nofun
  · rw [List.concat_eq_append] at h ⊢
    obtain ⟨-, -, hseam⟩ := List.isChain_append.mp h
    obtain ⟨inner, hprint⟩ := exists_braces
      ((hseam item List.getLast?_concat _ rfl).resolve_right nofun)
    rw [printed_append, printed_cons, printed_nil, List.append_nil, hprint, ← List.cons_append,
      ← List.append_assoc, List.getLast?_concat]
    rintro c ⟨⟩
    decide

/-- Blanks that a text with a visible front begins with are none. -/
theorem eq_nil_of_head (hleft : ∀ c ∈ left, isBlank c = true)
    (h : ∀ c ∈ (left ++ middle).head?, isBlank c = false) : left = [] := by
  cases left with
  | nil => rfl
  | cons c left =>
    have hblank := hleft c List.mem_cons_self
    rw [h c rfl] at hblank
    cases hblank

theorem eq_nil_of_getLast (hright : ∀ c ∈ right, isBlank c = true)
    (h : ∀ c ∈ (middle ++ right).getLast?, isBlank c = false) : right = [] := by
  rcases right.eq_nil_or_concat with rfl | ⟨right, c, rfl⟩
  · rfl
  · rw [List.concat_eq_append] at hright h
    have hblank := hright c (by simp)
    rw [h c (by rw [← List.append_assoc, List.getLast?_concat]; rfl)] at hblank
    cases hblank

/-- The blanks at the end of a source form can be left out. -/
theorem exists_trimmedRight (h : WellFormed content) (hprint : printed content = middle ++ right)
    (hmiddle : HasVisible middle) (hright : ∀ c ∈ right, isBlank c = true) :
    ∃ content', WellFormed content' ∧ printed content' = middle ∧
      content'.filter Item.isExpression = content.filter Item.isExpression := by
  rcases content.eq_nil_or_concat with rfl | ⟨content, item, rfl⟩
  · exact absurd rfl h.nonempty
  rw [List.concat_eq_append] at h hprint ⊢
  rw [printed_append, printed_cons, printed_nil, List.append_nil] at hprint
  cases hexpression : item.isExpression with
  | true =>
    obtain ⟨inner, hbraces⟩ := exists_braces hexpression
    have hnil : right = [] := by
      refine @eq_nil_of_getLast middle right hright ?_
      rw [← hprint, hbraces, ← List.cons_append, ← List.append_assoc, List.getLast?_concat]
      rintro c ⟨⟩
      decide
    subst hnil
    refine ⟨_, h, ?_, rfl⟩
    rw [printed_append, printed_cons, printed_nil, List.append_nil, hprint, List.append_nil]
  | false =>
    obtain ⟨s, rfl⟩ := exists_text hexpression
    obtain ⟨hwritable, hs⟩ := List.forall_mem_append.mp h.writable
    have hfilter : (content ++ [Item.text s]).filter Item.isExpression =
        content.filter Item.isExpression := by
      simp [Item.isExpression]
    -- A last text of blanks is left out as a whole.
    have hdropped (hsame : printed content = middle) : ∃ content', WellFormed content' ∧
        printed content' = middle ∧ content'.filter Item.isExpression =
          (content ++ [Item.text s]).filter Item.isExpression := by
      have hvisible : HasVisible (printed content) := hsame ▸ hmiddle
      have hwell := wellFormed_of_hasVisible hvisible h.apart.left_of_append hwritable
      exact ⟨content, hwell, hsame, hfilter.symm⟩
    rcases List.append_eq_append_iff.mp hprint with ⟨t, hmiddle', ht⟩ | ⟨t, hcontent, hright'⟩
    · by_cases hnil : t = []
      · exact hdropped (by rw [hmiddle', hnil, List.append_nil])
      · have hplain : IsPlain t := by
          cases hs _ (List.mem_singleton_self _) with
          | text hplain =>
            change IsPlain (Item.print (.text s)).toList at hplain
            exact isPlain_of_prefix (ht ▸ hplain) hnil
        have hprint' : printed (content ++ [.text (String.ofList t)]) = middle := by
          simp [printed_append, Item.print, hmiddle']
        refine ⟨content ++ [.text (String.ofList t)], ?_, hprint', ?_⟩
        · refine wellFormed_of_hasVisible (hprint' ▸ hmiddle) (isChain_concat_text h.apart) ?_
          refine List.forall_mem_append.mpr ⟨hwritable, List.forall_mem_singleton.mpr (.text ?_)⟩
          rwa [String.toList_ofList]
        · simp [Item.isExpression]
    · have hnil : t = [] := by
        refine @eq_nil_of_getLast middle t (fun c hc => hright c ?_) ?_
        · exact hright' ▸ List.mem_append_left _ hc
        · exact hcontent ▸ getLast?_printed_before_text h.apart
      exact hdropped (by rw [hcontent, hnil, List.append_nil])

/-- The first text may be put together anew, with a space in front. -/
theorem wellFormed_space_cons {s : String} {t : List Char} (hplain : IsPlain (' ' :: t))
    (hapart : (Item.text s :: content).IsChain ItemsApart)
    (hwritable : ∀ item ∈ content, item.IsWritable) (hvisible : HasVisible (t ++ printed content)) :
    ∃ content', WellFormed content' ∧ printed content' = ' ' :: (t ++ printed content) ∧
      content'.filter Item.isExpression = content.filter Item.isExpression := by
  have hprint : printed (.text (String.ofList (' ' :: t)) :: content) =
      ' ' :: (t ++ printed content) := by
    simp [Item.print]
  refine ⟨.text (String.ofList (' ' :: t)) :: content, ?_, hprint, by simp [Item.isExpression]⟩
  refine wellFormed_of_hasVisible ?_ (isChain_text_cons hapart) ?_
  · rw [hprint]
    exact (Text.hasVisible_append [' '] _).mpr (.inr hvisible)
  · refine List.forall_mem_cons.mpr ⟨.text ?_, hwritable⟩
    rwa [String.toList_ofList]

/-- The blanks that a source form begins with can be a single space, where no comment opens after
them. -/
theorem exists_spaceFirst (h : WellFormed content) (hprint : printed content = left ++ middle)
    (hmiddle : HasVisible middle) (hleft : ∀ c ∈ left, isBlank c = true)
    (hcomment : startsComment middle = false) :
    ∃ content', WellFormed content' ∧ printed content' = ' ' :: middle ∧
      content'.filter Item.isExpression = content.filter Item.isExpression := by
  have hspace : IsPlain [' '] :=
    (plain_of_textRun ' ' [] [] (by decide) (by decide) rfl rfl rfl).1
  cases content with
  | nil => exact absurd rfl h.nonempty
  | cons item content =>
    cases hexpression : item.isExpression with
    | true =>
      have hnil : left = [] := by
        refine @eq_nil_of_head left middle hleft ?_
        obtain ⟨inner, hbraces⟩ := exists_braces hexpression
        rw [← hprint, printed_cons, hbraces]
        rintro c ⟨⟩
        decide
      have hapart : (Item.text " " :: item :: content).IsChain ItemsApart :=
        List.isChain_cons_cons.mpr ⟨.inr hexpression, h.apart⟩
      rw [hnil, List.nil_append] at hprint
      rw [← hprint] at hmiddle ⊢
      exact wellFormed_space_cons hspace hapart h.writable hmiddle
    | false =>
      obtain ⟨s, rfl⟩ := exists_text hexpression
      obtain ⟨hs, hwritable⟩ := List.forall_mem_cons.mp h.writable
      have hfilter : (Item.text s :: content).filter Item.isExpression =
          content.filter Item.isExpression := by
        simp [Item.isExpression]
      rw [printed_cons, Item.print] at hprint
      rw [hfilter]
      rcases List.append_eq_append_iff.mp hprint with ⟨t, hleft', hcontent⟩ | ⟨t, hs', rfl⟩
      · -- A first text of blanks is followed by what is visible.
        have hnil : t = [] := by
          refine @eq_nil_of_head t middle (fun c hc => hleft c ?_) ?_
          · exact hleft' ▸ List.mem_append_right _ hc
          · exact hcontent ▸ head?_printed_after_text h.apart
        rw [hnil, List.nil_append] at hcontent
        rw [← hcontent] at hmiddle ⊢
        exact wellFormed_space_cons hspace h.apart hwritable hmiddle
      · have hplain : IsPlain (left ++ t) := by
          cases hs with
          | text hplain => exact hs' ▸ hplain
        have hopen : startsComment t = false := by
          refine Bool.eq_false_iff.mpr fun hstart => ?_
          rw [startsComment_append t _ hstart] at hcomment
          cases hcomment
        exact wellFormed_space_cons (isPlain_space_cons hplain hopen) h.apart hwritable hmiddle

end Ends

end RandomTables
