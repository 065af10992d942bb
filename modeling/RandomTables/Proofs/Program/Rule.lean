import RandomTables.Program.Reader.Rule
import RandomTables.Proofs.Program.Expression

namespace RandomTables.Grammar

/-- Content that grows at its front, where text joins the text that it meets. -/
inductive Grown : List Token → List Item → Prop
  | nil : Grown [] []
  | text {t tokens items} : t.kind = .text → Grown tokens items →
      Grown (t :: tokens) (consText t.lexeme items)
  | expression {opening inner closing tokens item items} :
      opening.kind = .leftBrace → Braced inner item → closing.kind = .rightBrace →
      Grown tokens items → Grown (opening :: (inner ++ closing :: tokens)) (item :: items)

theorem consText_of_noTextFirst (s : String) (items : List Item) (h : NoTextFirst items) :
    consText s items = .text s :: items := by
  cases items with
  | nil => rfl
  | cons item items =>
    cases item with
    | text => exact False.elim h
    | _ => rfl

theorem noTextFirst_of_braced (inner : List Token) (item : Item) (items : List Item)
    (h : Braced inner item) : NoTextFirst (item :: items) := by
  cases h <;> trivial

theorem content_text (t : Token) (tokens : List Token) (items : List Item) (ht : t.kind = .text)
    (h : Content tokens items) (hfirst : NoTextFirst items) :
    Content (t :: tokens) (.text t.lexeme :: items) := by
  have hrun : ∀ u ∈ [t], u.kind = .text := by
    intro u hu
    rw [List.mem_singleton.mp hu]
    exact ht
  have := Content.texts (List.cons_ne_nil t []) hrun h hfirst
  simpa using this

/-- A text in front joins the run of texts that it meets. -/
theorem content_cons_text (t : Token) (tokens : List Token) (items : List Item)
    (ht : t.kind = .text) (h : Content tokens items) :
    Content (t :: tokens) (consText t.lexeme items) := by
  have hall := h
  cases h with
  | nil => exact content_text t [] [] ht hall trivial
  | @texts run tokens items hne hrun htail hfirst =>
    have hrun' : ∀ u ∈ t :: run, u.kind = .text := by
      intro u hu
      rcases List.mem_cons.mp hu with rfl | hu
      · exact ht
      · exact hrun u hu
    have := Content.texts (List.cons_ne_nil t run) hrun' htail hfirst
    simpa [consText] using this
  | @expression opening inner closing tokens item items hopening hinner hclosing htail =>
    have hfirst := noTextFirst_of_braced inner item items hinner
    rw [consText_of_noTextFirst _ _ hfirst]
    exact content_text t _ _ ht hall hfirst

/-- A run of texts grows to one item, from its end. -/
theorem grown_texts (run tokens : List Token) (items : List Item) (hne : run ≠ [])
    (hrun : ∀ t ∈ run, t.kind = .text) (h : Grown tokens items) (hfirst : NoTextFirst items) :
    Grown (run ++ tokens) (.text (String.join (run.map (·.lexeme))) :: items) := by
  induction run with
  | nil => exact absurd rfl hne
  | cons t run ih =>
    have ht := hrun t List.mem_cons_self
    -- The last text of the run meets no other, and each before it joins the one after it.
    cases run with
    | nil =>
      have := Grown.text ht h
      rw [consText_of_noTextFirst _ _ hfirst] at this
      simpa using this
    | cons u run =>
      have htail := ih (List.cons_ne_nil u run) (fun v hv => hrun v (List.mem_cons_of_mem t hv))
      have := Grown.text ht htail
      simpa [consText] using this

/-- Runs can be taken whole or one text at a time. -/
theorem content_iff_grown (tokens : List Token) (items : List Item) :
    Content tokens items ↔ Grown tokens items := by
  constructor
  · intro h
    induction h with
    | nil => exact .nil
    | texts hne hrun _ hfirst ih => exact grown_texts _ _ _ hne hrun ih hfirst
    | expression hopening hinner hclosing _ ih => exact .expression hopening hinner hclosing ih
  · intro h
    induction h with
    | nil => exact .nil
    | text ht _ ih => exact content_cons_text _ _ _ ht ih
    | expression hopening hinner hclosing _ ih => exact .expression hopening hinner hclosing ih

theorem all_isBlank_consText (s : String) (items : List Item) :
    (consText s items).all Item.isBlank =
      (s.toList.all Text.isBlank && items.all Item.isBlank) := by
  unfold consText
  split
  · rw [List.all_cons, List.all_cons, ← Bool.and_assoc]
    simp [Item.isBlank, List.all_append]
  · rfl

/-- Content is all blank if all of its tokens are blank texts. -/
theorem all_isBlank_iff (tokens : List Token) (items : List Item) (h : Grown tokens items) :
    items.all Item.isBlank = true ↔ ∀ t ∈ tokens, IsBlankText t := by
  induction h with
  | nil => simp
  | text ht _ ih =>
    rw [all_isBlank_consText, Bool.and_eq_true, ih, List.forall_mem_cons]
    simp [IsBlankText, ht]
  | @expression opening _ _ _ item items hopening hinner _ _ _ =>
    have hitem : item.isBlank = false := by cases hinner <;> rfl
    simp [hitem, IsBlankText, hopening]

/-- By induction on the tokens: text and expressions come in front of what was read after them. -/
theorem readContent_sound (stop stop' : Nat) (tokens rest : List Token) (items : List Item)
    (h : readContent stop tokens = .ok ((items, stop'), rest)) :
    ∃ taken, tokens = taken ++ rest ∧ Grown taken items ∧ stop' = stopAfter stop taken := by
  fun_induction readContent stop tokens generalizing items stop' rest with
  | case1 =>
    cases h
    exact ⟨[], rfl, .nil, rfl⟩
  | case2 stop t tokens ht ih =>
    simp only [bind_eq_ok_iff, pure_eq_ok_iff, Prod.exists, Prod.mk.injEq] at h
    obtain ⟨items', stop', after, htail, ⟨rfl, rfl⟩, rfl⟩ := h
    obtain ⟨taken, rfl, htaken, rfl⟩ := ih _ _ _ htail
    exact ⟨t :: taken, rfl, .text ht htaken, by rw [stopAfter_cons]⟩
  | case3 => cases h
  | case4 stop t tokens ht e tokens' he hlt ih =>
    simp only [bind_eq_ok_iff, pure_eq_ok_iff, Prod.exists, Prod.mk.injEq] at h
    obtain ⟨items', stop', after, htail, ⟨rfl, rfl⟩, rfl⟩ := h
    obtain ⟨inner, closing, rfl, hinner, hclosing, hstop⟩ := readExpression_sound _ _ _ _ he
    obtain ⟨taken, rfl, htaken, rfl⟩ := ih _ _ _ htail
    refine ⟨t :: (inner ++ closing :: taken), by simp, .expression ht hinner hclosing htaken, ?_⟩
    rw [stopAfter_cons, stopAfter_append, stopAfter_cons, hstop]
  | case5 =>
    cases h
    exact ⟨[], rfl, .nil, rfl⟩

/-- Content that begins with an expression, as a chain of readers. -/
theorem readContent_leftBrace (stop : Nat) (t : Token) (tokens : List Token)
    (ht : t.kind = .leftBrace) :
    readContent stop (t :: tokens) = readExpression t tokens >>= fun (e, rest) =>
      readContent e.span.stop rest >>= fun ((items, stop'), after) =>
        pure ((e.value :: items, stop'), after) := by
  rw [readContent.eq_def]
  simp only [ht]
  split
  all_goals
    rename_i h
    rw [h]
    rfl

/-- By induction on how the content grows. -/
theorem readContent_complete (stop : Nat) (taken rest : List Token) (items : List Item)
    (h : Grown taken items) (hsound : Sound taken) (hrest : HeadNot [.text, .leftBrace] rest) :
    readContent stop (taken ++ rest) = .ok ((items, stopAfter stop taken), rest) := by
  induction h generalizing stop with
  | nil =>
    cases rest with
    | nil => rw [List.nil_append, readContent, stopAfter_nil]
    | cons t rest =>
      simp only [headNot_cons, List.mem_cons, List.not_mem_nil, or_false, not_or] at hrest
      rw [List.nil_append, readContent, stopAfter_nil]
      split
      · rename_i hkind
        exact absurd hkind hrest.1
      · rename_i hkind
        exact absurd hkind hrest.2
      · rfl
  | @text t tokens items ht _ ih =>
    have htail := ih t.span.stop (sound_of_cons _ _ hsound)
    rw [List.cons_append, readContent.eq_def]
    simp only [ht]
    rw [htail, stopAfter_cons]
    rfl
  | @expression opening inner closing tokens item items hopening hinner hclosing _ ih =>
    -- The reader takes the expression as a whole, and its span runs to the closing brace.
    have hsplit : opening :: (inner ++ closing :: tokens) =
        (opening :: (inner ++ [closing])) ++ tokens := by simp
    rw [hsplit] at hsound
    obtain ⟨hfirst, htail⟩ := sound_of_append _ _ hsound
    obtain ⟨e, he, rfl, hstop⟩ :=
      readExpression_complete opening closing inner (tokens ++ rest) item hinner hclosing hfirst
    have htail := ih closing.span.stop htail
    rw [← hstop] at htail
    rw [List.cons_append, List.append_assoc, List.cons_append,
      readContent_leftBrace _ _ _ hopening, bind_eq_ok_iff]
    refine ⟨_, he, (bind_eq_ok_iff _ _ _).mpr ⟨_, htail, ?_⟩⟩
    rw [stopAfter_cons, stopAfter_append, stopAfter_cons, hstop]
    rfl

theorem number_eq_ok_iff (t : Token) (w : Float) :
    t.number = .ok w ↔ t.value = some (.weight w) := by
  unfold Token.number
  split
  · rename_i hvalue
    rw [hvalue]
    simp
  · rename_i hvalue
    simp only [reduceCtorEq, false_iff]
    exact hvalue w

theorem weightOf_eq (t : Token) (w : Float) (h : t.value = some (.weight w)) :
    weightOf t = w := by
  rw [weightOf, h]

/-- A rule that was read has its colon, and content that shows. -/
theorem readRule_sound (weight : Token) (tokens rest : List Token) (r : Located Rule)
    (hweight : weight.kind = .number) (hsound : Sound (weight :: tokens))
    (h : readRule weight tokens = .ok (r, rest)) :
    ∃ taken, tokens = taken ++ rest ∧ IsRule (weight :: taken) r := by
  simp only [readRule, bind_eq_ok_iff, readKind_eq_ok_iff, Prod.exists] at h
  obtain ⟨colon, _, ⟨rfl, hcolon⟩, items, stop, after, hitems, h⟩ := h
  obtain ⟨taken, rfl, htaken, rfl⟩ := readContent_sound _ _ _ _ _ hitems
  by_cases hblank : items.all Item.isBlank = true
  · rw [if_pos hblank] at h
    cases h
  · rw [if_neg hblank] at h
    simp only [bind_eq_ok_iff, pure_eq_ok_iff, mapError_eq_ok_iff, number_eq_ok_iff,
      Prod.mk.injEq] at h
    obtain ⟨w, hw, span, hspan, rfl, rfl⟩ := h
    have horder : InOrder (weight :: colon :: taken) :=
      (sound_of_append (weight :: colon :: taken) after hsound).1.inOrder
    -- The content ends where the last token of the rule does.
    rw [← stopAfter_cons weight.span.stop colon taken, spanTo_eq_ok_iff_extent _ _ horder] at hspan
    rw [all_isBlank_iff taken items htaken] at hblank
    rw [hspan, ← weightOf_eq weight w hw]
    refine ⟨colon :: taken, rfl,
      .mk hweight hcolon ((content_iff_grown _ _).mpr htaken) ?_ hblank⟩
    intro hnil
    rw [hnil] at hblank
    exact hblank nofun

theorem readRule_complete (weight : Token) (taken rest : List Token) (r : Located Rule)
    (h : IsRule (weight :: taken) r) (hsound : Sound (weight :: taken))
    (hrest : HeadNot [.text, .leftBrace] rest) :
    readRule weight (taken ++ rest) = .ok (r, rest) := by
  cases h with
  | @mk _ colon tokens items hweight hcolon hcontent _ hblank =>
    have hgrown := (content_iff_grown _ _).mp hcontent
    obtain ⟨w, hw⟩ := hsound.weights weight List.mem_cons_self hweight
    have htail := sound_of_cons _ _ (sound_of_cons _ _ hsound)
    have hitems := readContent_complete colon.span.stop tokens rest items hgrown htail hrest
    rw [← all_isBlank_iff tokens items hgrown] at hblank
    simp only [readRule, bind_eq_ok_iff, readKind_eq_ok_iff, Prod.exists]
    refine ⟨colon, tokens ++ rest, ⟨rfl, hcolon⟩, items, _, rest, hitems, ?_⟩
    rw [if_neg hblank]
    simp only [bind_eq_ok_iff, pure_eq_ok_iff, mapError_eq_ok_iff, number_eq_ok_iff]
    refine ⟨w, hw, extent (weight :: colon :: tokens), ?_, by rw [weightOf_eq weight w hw]⟩
    rw [← stopAfter_cons weight.span.stop colon tokens]
    exact (spanTo_eq_ok_iff_extent _ _ hsound.inOrder _).mpr rfl

end RandomTables.Grammar
