import RandomTables.Proofs.Program.Rule
import RandomTables.Proofs.Token.Mode

namespace RandomTables

def contentKinds : List TokenKind :=
  .text :: .leftBrace :: .rightBrace :: expressionKinds

theorem subset_of_isContent {kinds : List TokenKind} (h : IsContent kinds) :
    kinds ⊆ contentKinds := by
  induction h with
  | nil => exact List.nil_subset _
  | text _ ih => exact List.cons_subset.mpr ⟨by decide, ih⟩
  | braced hinner _ ih =>
    have hexpression : expressionKinds ⊆ contentKinds := by decide
    apply List.cons_subset.mpr
    refine ⟨by decide, List.append_subset.mpr ⟨List.Subset.trans hinner hexpression, ?_⟩⟩
    exact List.cons_subset.mpr ⟨by decide, ih⟩

namespace Grammar
variable {tokens : List Token} {items : List Item}

theorem kinds_of_modifiers {modifiers : List String} (h : Modifiers tokens modifiers) :
    tokens.map (·.kind) ⊆ expressionKinds := by
  induction h with
  | nil => exact List.nil_subset _
  | cons hbar hword _ ih =>
    rw [List.map_cons, List.map_cons, hbar, hword]
    exact List.cons_subset.mpr ⟨by decide, List.cons_subset.mpr ⟨by decide, ih⟩⟩

/-- No token of an expression is of another mode. -/
theorem kinds_of_braced {item : Item} (h : Braced tokens item) :
    tokens.map (·.kind) ⊆ expressionKinds := by
  cases h with
  | table hhash hid hmodifiers =>
    simp only [List.map_cons, hhash, hid, List.cons_subset]
    exact ⟨by decide, by decide, kinds_of_modifiers hmodifiers⟩
  | external hmark hpublisher hslash hcollection hhash hid hmodifiers =>
    simp only [List.map_cons, hmark, hpublisher, hslash, hcollection, hhash, hid,
      List.cons_subset]
    exact ⟨by decide, by decide, by decide, by decide, by decide, by decide,
      kinds_of_modifiers hmodifiers⟩
  | dice hroll =>
    rw [List.map_singleton, hroll]
    decide

/-- The kinds of derived content are those of texts and whole expressions. -/
theorem isContent_of_content (h : Content tokens items) : IsContent (tokens.map (·.kind)) := by
  have hgrown := (content_iff_grown tokens items).mp h
  clear h
  induction hgrown with
  | nil => exact .nil
  | text ht _ ih =>
    rw [List.map_cons, ht]
    exact .text ih
  | expression hopening hinner hclosing _ ih =>
    rw [List.map_cons, List.map_append, List.map_cons, hopening, hclosing]
    exact .braced (kinds_of_braced hinner) ih

theorem kind_of_content (h : Content tokens items) : ∀ t ∈ tokens, t.kind ∈ contentKinds :=
  fun _ ht => subset_of_isContent (isContent_of_content h) (List.mem_map_of_mem ht)

/-- Content ends with a text or an expression, which its last token shows. -/
theorem last_of_content (h : Content tokens items) :
    ∀ t ∈ tokens.getLast?, t.kind = .text ∨ t.kind = .rightBrace := by
  induction h with
  | nil => exact nofun
  | texts _ hrun _ _ ih =>
    apply forall_last_append _ ih
    exact fun t ht => .inl (hrun t (List.mem_of_getLast? ht))
  | @expression opening inner closing tokens _ _ _ _ hclosing _ ih =>
    have hsplit : opening :: (inner ++ closing :: tokens) =
        opening :: inner ++ [closing] ++ tokens := by simp
    rw [hsplit]
    apply forall_last_append _ ih
    intro t ht
    rw [List.getLast?_concat] at ht
    cases ht
    exact .inr hclosing

end Grammar

end RandomTables
