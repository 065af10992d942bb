import RandomTables.Proofs.Collection.Answers
import RandomTables.Proofs.Decimal.Numeral
import RandomTables.Proofs.Text.Visible

namespace RandomTables
open Generation Text

variable {σ : Type} [WordSource σ]

abbrev GivesTrimmed (g : Generation σ String) : Prop :=
  Ensures g (fun text => IsTrimmed text.toList) fun _ => True

/-- A number is written with one digit at least, and no digit is blank. -/
theorem hasVisible_repr (n : Nat) : HasVisible n.repr.toList := by
  rw [Nat.toList_repr]
  obtain ⟨c, hc⟩ := List.exists_mem_of_ne_nil _ (@Nat.toDigits_ne_nil n 10)
  have hdigit := Decimal.isDigit_of_mem_toDigits n c hc
  obtain ⟨hlow, hhigh⟩ := (isDigit_iff c).mp hdigit
  refine ⟨c, hc, ?_⟩
  simp only [isBlank, Bool.or_eq_false_iff, Bool.and_eq_false_iff, decide_eq_false_iff_not,
    beq_eq_false_iff_ne]
  omega

theorem hasVisible_toString (n : Int) : HasVisible (toString n).toList := by
  cases n with
  | ofNat n => exact hasVisible_repr n
  | negSucc n =>
    change HasVisible ("-" ++ n.succ.repr).toList
    rw [String.toList_append, hasVisible_append]
    exact .inr (hasVisible_repr n.succ)

section Rules
variable {attempts : Nat} {single : String → Generation σ String} {owner : String}

/-- An item that is no blank text gives a visible text, if it gives one. -/
theorem ensures_visible_item (item : Item) (hsingle : ∀ id, GivesTrimmed (single id)) :
    Ensures (item.generate attempts single owner)
      (fun text => item.isBlank = false → HasVisible text.toList) fun _ => True := by
  cases item with
  | text s =>
    refine ensures_pure fun hblank => ?_
    simpa [Item.isBlank, HasVisible] using hblank
  | table id modifiers =>
    refine ensures_bind (hsingle id) fun text htext => ?_
    exact ensures_pure fun _ => Modifier.hasVisible_applyAll modifiers htext.hasVisible
  | external => exact ensures_throw trivial
  | dice d =>
    refine ensures_bind (ensures_true _) fun n _ => ?_
    split
    · exact ensures_pure fun _ => hasVisible_toString n
    · exact ensures_throw trivial

/-- One item with a visible text is enough for the whole rule. -/
theorem hasVisible_join {items : List Item} {texts : List String}
    (h : List.Forall₂ (fun item text => item.isBlank = false → HasVisible text.toList) items texts)
    (hvisible : ¬∀ item ∈ items, item.isBlank = true) : HasVisible (String.join texts).toList := by
  induction h with
  | nil => exact absurd nofun hvisible
  | @cons item text items texts hfirst _ ih =>
    rw [String.join_cons, String.toList_append, hasVisible_append]
    cases hblank : item.isBlank with
    | false => exact .inl (hfirst hblank)
    | true =>
      refine .inr (ih fun hrest => hvisible ?_)
      exact List.forall_mem_cons.mpr ⟨hblank, hrest⟩

/-- Trimming leaves something of the text of a rule, as some item of it is visible. -/
theorem givesTrimmed_rule {r : Rule} (h : WellFormed r.content)
    (hsingle : ∀ id, GivesTrimmed (single id)) :
    GivesTrimmed (r.generate attempts single owner) := by
  have hitem (item : Item) : Ensures (item.generate attempts single owner) _ _ :=
    ensures_visible_item item hsingle
  have hitems := ensures_mapM (l := r.content) fun item _ => hitem item
  refine ensures_bind hitems fun texts htexts => ?_
  refine ensures_pure ?_
  rw [strip, String.toList_ofList]
  exact isTrimmed_trim (hasVisible_join htexts h.visible)

end Rules

namespace Collection

/-- By induction on the depth: references are replaced by trimmed texts, which are visible. -/
theorem givesTrimmed_generateNested {source : String} {p : Program} {c : Collection}
    (hparse : Program.parse source = .ok p) (h : (load p).outcome = .ok c) (attempts depth : Nat)
    (id : String) : GivesTrimmed (c.generateNested attempts depth id : Generation σ String) := by
  induction depth generalizing id with
  | zero => exact ensures_throw trivial
  | succ depth ih =>
    cases hlast : p.lastDeclaration? id with
    | none =>
      rw [generateNested, table, find?_of_load h, hlast]
      exact ensures_throw trivial
    | some t =>
      refine ensures_generateNested_succ h hlast fun r hr => givesTrimmed_rule ?_ ih
      obtain ⟨table, htable, rfl⟩ := List.mem_map.mp (Program.lastDeclaration_mem hlast)
      exact wellFormed_of_parse source p hparse table htable r hr

/-- Asked for a single text, the collection gives it as it is, with no commas. -/
theorem givesTrimmed_generate_one {source : String} {p : Program} {c : Collection}
    (hparse : Program.parse source = .ok p) (h : (load p).outcome = .ok c) (attempts depth : Nat)
    (id : String) : GivesTrimmed (c.generate attempts depth id 1 : Generation σ String) := by
  have hmany : Ensures
      (c.generateMany attempts depth id (1 : Int).toNat : Generation σ (List String))
      (List.Forall₂ (fun _ text => IsTrimmed text.toList) [id]) fun _ => True :=
    ensures_mapM fun other _ => givesTrimmed_generateNested hparse h attempts depth other
  rw [generate, if_neg (by decide)]
  refine ensures_bind hmany fun texts htexts => ensures_pure ?_
  cases htexts with
  | cons htext hnone =>
    cases hnone
    exact htext

/-- No text that a collection made of a source generates is empty or padded, be it referred to or
asked for: it begins and ends with a character that is not blank, so that trimming it changes
nothing. -/
theorem trimmed_of_generate {source : String} {loading : Loading} {c : Collection}
    (h : ofSource source = .ok loading) (hc : loading.outcome = .ok c) (attempts depth : Nat)
    (id : String) (s : σ) (text : String)
    (hrun : ((c.generateNested attempts depth id).run s).1 = .ok text ∨
      ((c.generate attempts depth id 1).run s).1 = .ok text) :
    IsTrimmed text.toList ∧ strip text = text := by
  obtain ⟨p, hparse, hload⟩ := ofSource_eq_ok h hc
  have htrimmed : IsTrimmed text.toList := by
    rcases hrun with hrun | hrun
    · have hgives := givesTrimmed_generateNested hparse hload attempts depth id s
      rwa [hrun] at hgives
    · have hgives := givesTrimmed_generate_one hparse hload attempts depth id s
      rwa [hrun] at hgives
  refine ⟨htrimmed, ?_⟩
  rw [strip, htrimmed.trim_eq, String.ofList_toList]

theorem trimmed_of_generate_paddedText :
    ∃ loading c, ofSource (ruleSource [.text " x y "]) = .ok loading ∧ loading.outcome = .ok c ∧
      ((c.generateNested usualAttempts 1 "t").run (Twister.State.ofSeed 7)).1 = .ok "x y" ∧
      IsTrimmed "x y".toList ∧ strip "x y" = "x y" := by
  have hplain : IsPlain " x y ".toList :=
    (plain_of_textRun ' ' "x y ".toList [] (by decide) (by decide) rfl rfl rfl).1
  have hwell : WellFormed [.text " x y "] := by
    constructor
    · exact List.cons_ne_nil _ _
    · exact fun hall => absurd (hall _ List.mem_cons_self) (by decide)
    · exact List.isChain_singleton _
    · exact List.forall_mem_singleton.mpr (.text hplain)
  obtain ⟨ruleSpan, tableSpan, hparse⟩ := parse_ruleSource _ hwell
  generalize hp : Program.mk _ = p at hparse
  have hcomplete : p.IsComplete := by
    rw [← Program.fault?_eq_none_iff, ← hp]
    rfl
  have hload := (load_eq_ok_iff p _).mpr ⟨hcomplete, rfl⟩
  have hsource : ofSource (ruleSource [.text " x y "]) = .ok (load p) := by
    rw [ofSource, hparse]
  -- The only rule is text, so that the same text is generated whatever number is drawn.
  have hgives : Ensures
      ((ofDeclarations p).generateNested usualAttempts 1 "t" : Generation Twister.State _)
      (· = "x y") fun _ => False := by
    have hlast : p.lastDeclaration? "t" = some ⟨"t", false,
        [⟨⟨Decimal.floatOfLiteral ['1'], [.text " x y "]⟩, ruleSpan⟩]⟩ := by
      rw [← hp]
      rfl
    refine ensures_generateNested_succ hload hlast fun r hr => ?_
    obtain rfl := List.mem_singleton.mp hr
    exact ensures_pure (by decide)
  have houtcome := hgives (Twister.State.ofSeed 7)
  generalize hrun : (((ofDeclarations p).generateNested usualAttempts 1 "t").run
    (Twister.State.ofSeed 7)).1 = outcome at houtcome
  cases outcome with
  | error failure => exact houtcome.elim
  | ok text =>
    obtain rfl : text = "x y" := houtcome
    have htrimmed := trimmed_of_generate hsource hload usualAttempts 1 "t" _ _ (.inl hrun)
    exact ⟨_, _, hsource, hload, hrun, htrimmed⟩

end Collection

end RandomTables
