import Mathlib.Data.List.Basic
import RandomTables.Modifier
import RandomTables.Proofs.Text.Word
import RandomTables.Text.Blank

namespace RandomTables
namespace Text

def HasVisible (s : List Char) : Prop :=
  ∃ c ∈ s, isBlank c = false

structure IsTrimmed (s : List Char) : Prop where
  nonempty : s ≠ []
  first : ∀ c ∈ s.head?, isBlank c = false
  last : ∀ c ∈ s.getLast?, isBlank c = false

theorem hasVisible_append (s t : List Char) :
    HasVisible (s ++ t) ↔ HasVisible s ∨ HasVisible t := by
  simp only [HasVisible, List.mem_append, or_and_right, exists_or]

/-- A visible character is replaced by a text with a visible character. -/
theorem hasVisible_flatMap {f : Char → List Char} {s : List Char}
    (hf : ∀ c, isBlank c = false → HasVisible (f c)) (h : HasVisible s) :
    HasVisible (s.flatMap f) := by
  obtain ⟨c, hc, hblank⟩ := h
  obtain ⟨d, hd, hdblank⟩ := hf c hblank
  exact ⟨d, List.mem_flatMap.mpr ⟨c, hc, hd⟩, hdblank⟩

section Trim
variable {s left right : List Char}

/-- The first character of a trimmed text is not blank. -/
theorem IsTrimmed.hasVisible (h : IsTrimmed s) : HasVisible s := by
  cases s with
  | nil => exact absurd rfl h.nonempty
  | cons c s => exact ⟨c, List.mem_cons_self, h.first c rfl⟩

theorem dropWhile_append_of_head (hleft : ∀ c ∈ left, isBlank c = true)
    (hs : ∀ c ∈ s.head?, isBlank c = false) : (left ++ s).dropWhile isBlank = s := by
  rw [List.dropWhile_append_of_pos hleft]
  cases s with
  | nil => rfl
  | cons c s => exact List.dropWhile_cons_of_neg (by simp [hs c rfl])

/-- Blanks around a text that has none at its ends are what trimming takes away. -/
theorem trim_append (hleft : ∀ c ∈ left, isBlank c = true) (hs : IsTrimmed s)
    (hright : ∀ c ∈ right, isBlank c = true) : trim (left ++ (s ++ right)) = s := by
  have hfirst : ∀ c ∈ (s ++ right).head?, isBlank c = false := by
    rw [List.head?_append_of_ne_nil s hs.nonempty]
    exact hs.first
  have hlast : ∀ c ∈ s.reverse.head?, isBlank c = false := by
    rw [List.head?_reverse]
    exact hs.last
  have hback : ∀ c ∈ right.reverse, isBlank c = true :=
    fun c hc => hright c (List.mem_reverse.mp hc)
  rw [trim, dropWhile_append_of_head hleft hfirst, trimRight, List.reverse_append,
    dropWhile_append_of_head hback hlast, List.reverse_reverse]

/-- Trimming does nothing to a text that is trimmed. -/
theorem IsTrimmed.trim_eq (h : IsTrimmed s) : trim s = s := by
  simpa using @trim_append _ [] [] nofun h nofun

/-- A text with a visible character falls apart into blanks, what stands from the first visible
character to the last, and blanks. -/
theorem exists_isTrimmed (h : HasVisible s) : ∃ left middle right, s = left ++ (middle ++ right) ∧
    (∀ c ∈ left, isBlank c = true) ∧ IsTrimmed middle ∧ ∀ c ∈ right, isBlank c = true := by
  obtain ⟨left, rest, rfl, hleft, hrest⟩ := exists_run isBlank s
  obtain ⟨back, front, hreverse, hback, hfront⟩ := exists_run isBlank rest.reverse
  obtain rfl : rest = front.reverse ++ back.reverse := by
    rw [← List.reverse_append, ← hreverse, List.reverse_reverse]
  have hright : ∀ c ∈ back.reverse, isBlank c = true :=
    fun c hc => hback c (List.mem_reverse.mp hc)
  have hne : front.reverse ≠ [] := by
    obtain ⟨c, hc, hblank⟩ := h
    intro hnil
    rw [hnil, List.nil_append] at hc
    have htrue : isBlank c = true := (List.mem_append.mp hc).elim (hleft c) (hright c)
    rw [htrue] at hblank
    cases hblank
  refine ⟨left, front.reverse, back.reverse, rfl, hleft, ⟨hne, ?_, ?_⟩, hright⟩
  · rw [stops_iff_head, List.head?_append_of_ne_nil _ hne] at hrest
    intro c hc
    simpa [Option.mem_def.mp hc] using hrest
  · rw [stops_iff_head] at hfront
    intro c hc
    rw [List.getLast?_reverse] at hc
    simpa [Option.mem_def.mp hc] using hfront

/-- Trimming a text with something visible leaves a trimmed text. -/
theorem isTrimmed_trim (h : HasVisible s) : IsTrimmed (trim s) := by
  obtain ⟨left, middle, right, rfl, hleft, hmiddle, hright⟩ := exists_isTrimmed h
  rw [trim_append hleft hmiddle hright]
  exact hmiddle

theorem trim_sublist (s : List Char) : (trim s).Sublist s := by
  rw [trim, trimRight]
  have hback := (List.dropWhile_sublist isBlank (l := (s.dropWhile isBlank).reverse)).reverse
  rw [List.reverse_reverse] at hback
  exact hback.trans (List.dropWhile_sublist isBlank)

end Trim

section Case

def blankCodes : List Nat :=
  [0x09, 0x0A, 0x0B, 0x0C, 0x0D, 0x1C, 0x1D, 0x1E, 0x1F, 0x20, 0x85, 0xA0, 0x1680, 0x2000, 0x2001,
   0x2002, 0x2003, 0x2004, 0x2005, 0x2006, 0x2007, 0x2008, 0x2009, 0x200A, 0x2028, 0x2029, 0x202F,
   0x205F, 0x3000]

theorem mem_blankCodes {c : Char} (h : isBlank c = true) : c.toNat ∈ blankCodes := by
  simp only [isBlank, Bool.or_eq_true, Bool.and_eq_true, decide_eq_true_eq, beq_iff_eq] at h
  simp only [blankCodes, List.mem_cons, List.not_mem_nil, or_false]
  omega

def CaseShift.AvoidsBlanks (run : CaseShift) : Prop :=
  ∀ code ∈ blankCodes, run.first + run.distance ≤ code → run.last + run.distance < code

instance (run : CaseShift) : Decidable run.AvoidsBlanks :=
  inferInstanceAs (Decidable (∀ code ∈ blankCodes, _ → _))

/-- A code point that no character has stands for the character zero, which is not blank either. -/
theorem isBlank_ofNat {code : Nat} (h : code ∉ blankCodes) : isBlank (Char.ofNat code) = false := by
  by_cases hvalid : code.isValidChar
  · rw [Char.ofNat, dif_pos hvalid]
    exact Bool.eq_false_iff.mpr fun hblank => h (mem_blankCodes hblank)
  · rw [Char.ofNat, dif_neg hvalid]
    rfl

/-- A run that avoids the blanks moves no letter to one of them. -/
theorem CaseShift.isBlank_apply {runs : List CaseShift} (h : ∀ run ∈ runs, run.AvoidsBlanks)
    {c : Char} (hc : isBlank c = false) : isBlank (CaseShift.apply runs c) = false := by
  rw [CaseShift.apply]
  split
  · rename_i run hfind
    have hcovers := List.find?_some hfind
    simp only [CaseShift.covers, Bool.and_eq_true, decide_eq_true_eq] at hcovers
    obtain ⟨⟨hfirst, hlast⟩, -⟩ := hcovers
    refine isBlank_ofNat fun hmem => ?_
    have havoids := h run (List.mem_of_find?_eq_some hfind) _ hmem
    have hne : (0 : Nat) ∉ blankCodes := by decide
    have hpos : (c.toNat + run.distance).toNat ≠ 0 := fun hzero => hne (hzero ▸ hmem)
    omega
  · exact hc

/-- The runs are checked one by one. -/
theorem upperShifts_avoidBlanks : ∀ run ∈ upperShifts, run.AvoidsBlanks := by
  decide +kernel

theorem lowerShifts_avoidBlanks : ∀ run ∈ lowerShifts, run.AvoidsBlanks := by
  decide +kernel

/-- Each of the longer forms has a visible character. -/
theorem upperExpansions_visible : ∀ entry ∈ upperExpansions, ∃ code ∈ entry.2,
    code ∉ blankCodes := by
  decide +kernel

theorem lowerExpansions_visible : ∀ entry ∈ lowerExpansions, ∃ code ∈ entry.2,
    code ∉ blankCodes := by
  decide +kernel

/-- A character whose changed case is tabulated in two lists, of expansions and of moved runs, stays
visible where the lists lead to no blanks. -/
theorem hasVisible_changed {expansions : List (Nat × List Nat)} {runs : List CaseShift}
    (hexpansions : ∀ entry ∈ expansions, ∃ code ∈ entry.2, code ∉ blankCodes)
    (hruns : ∀ run ∈ runs, run.AvoidsBlanks) {c : Char} (hc : isBlank c = false) :
    HasVisible (match expansions.lookup c.toNat with
      | some codes => codes.map Char.ofNat
      | none => [CaseShift.apply runs c]) := by
  split
  · rename_i codes hlookup
    obtain ⟨before, after, rfl, -⟩ := List.lookup_eq_some_iff.mp hlookup
    obtain ⟨code, hcode, havoids⟩ := hexpansions (c.toNat, codes) (by simp)
    exact ⟨Char.ofNat code, List.mem_map_of_mem hcode, isBlank_ofNat havoids⟩
  · exact ⟨_, List.mem_singleton_self _, CaseShift.isBlank_apply hruns hc⟩

theorem hasVisible_upperChar {c : Char} (hc : isBlank c = false) : HasVisible (upperChar c) :=
  hasVisible_changed upperExpansions_visible upperShifts_avoidBlanks hc

theorem hasVisible_lowerChar {c : Char} (hc : isBlank c = false) : HasVisible (lowerChar c) :=
  hasVisible_changed lowerExpansions_visible lowerShifts_avoidBlanks hc

theorem hasVisible_upper {s : List Char} (h : HasVisible s) : HasVisible (upper s) :=
  hasVisible_flatMap (fun _ => hasVisible_upperChar) h

theorem hasVisible_capitalize {s : List Char} (h : HasVisible s) : HasVisible (capitalize s) := by
  cases s with
  | nil => exact h
  | cons c s =>
    rw [capitalize, hasVisible_append]
    obtain ⟨d, hd, hblank⟩ := h
    rcases List.mem_cons.mp hd with rfl | hd
    · exact .inl (hasVisible_upperChar hblank)
    · exact .inr ⟨d, hd, hblank⟩

/-- By induction on the text; the final sigma is as visible as the other one. -/
theorem hasVisible_lowerAfter (before : List Char) {s : List Char} (h : HasVisible s) :
    HasVisible (lowerAfter before s) := by
  induction s generalizing before with
  | nil => exact h
  | cons c s ih =>
    rw [lowerAfter, hasVisible_append]
    obtain ⟨d, hd, hblank⟩ := h
    rcases List.mem_cons.mp hd with rfl | hd
    · left
      split
      · split <;> exact ⟨_, List.mem_singleton_self _, by decide⟩
      · exact hasVisible_lowerChar hblank
    · exact .inr (ih (c :: before) ⟨d, hd, hblank⟩)

end Case

end Text

namespace Modifier
open Text

/-- No modifier takes all visible characters away. -/
theorem hasVisible_apply (m : Modifier) {s : List Char} (h : HasVisible s) :
    HasVisible (m.apply s) := by
  cases m with
  | indefinite => exact (hasVisible_append _ _).mpr (.inr h)
  | definite => exact (hasVisible_append _ _).mpr (.inr h)
  | capitalize => exact hasVisible_capitalize h
  | uppercase => exact hasVisible_upper h
  | lowercase => exact hasVisible_lowerAfter [] h

theorem hasVisible_applyNamed {s : String} (name : String) (h : HasVisible s.toList) :
    HasVisible (applyNamed s name).toList := by
  rw [applyNamed]
  split
  · rename_i m _
    rw [String.toList_ofList]
    exact m.hasVisible_apply h
  · exact h

/-- Modifiers keep a text visible, in whatever order they come. -/
theorem hasVisible_applyAll {s : String} (names : List String) (h : HasVisible s.toList) :
    HasVisible (applyAll s names).toList := by
  induction names generalizing s with
  | nil => exact h
  | cons name names ih => exact ih (hasVisible_applyNamed name h)

end Modifier

end RandomTables
