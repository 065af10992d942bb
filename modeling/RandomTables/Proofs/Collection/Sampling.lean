import RandomTables.Collection.Generate
import RandomTables.Proofs.Collection.Answers
import RandomTables.Proofs.Decimal.Arithmetic
import RandomTables.Proofs.Program.Weight

namespace RandomTables
open Decimal

section Fractions
variable {n : Nat} {σ : Type} [WordSource σ]

/-- Whole numbers below two to the power of 53 are doubles. -/
theorem value_ofNat (hn : n < 2 ^ 53) :
    (Float.ofNat n).isFinite = true ∧ value (Float.ofNat n) = n := by
  obtain ⟨hfinite, hvalue⟩ := value_toFloat hn
  obtain ⟨hfinite', hvalue'⟩ := value_powerOfTen (k := 0) (by decide)
  have hround : RoundsTo n (Float.ofNat n) := by
    have hproduct := roundsTo_mul hfinite hfinite' (by rw [hvalue]; positivity)
      (by rw [hvalue']; positivity)
    rw [hvalue, hvalue', pow_zero, mul_one] at hproduct
    change RoundsTo n (Float.ofScientific n false 0)
    rw [Float.ofScientific, dif_pos ⟨hn, by decide⟩]
    exact hproduct
  exact hround.value_eq hfinite hvalue

/-- A fraction is drawn exactly: a whole number of the parts that two to the power of 53 parts make
one. -/
theorem value_fraction (hn : n < 2 ^ 53) :
    (Float.ofNat n / 9007199254740992).isFinite = true ∧
      value (Float.ofNat n / 9007199254740992) = n / 2 ^ 53 := by
  obtain ⟨hfinite, hvalue⟩ := value_ofNat hn
  have hwhole : isWhole (2 ^ 53) (9007199254740992 : Float).toModel.unpack = true := by
    decide +kernel
  obtain ⟨hfinite', hvalue'⟩ := value_of_isWhole hwhole
  rw [Nat.cast_pow, Nat.cast_ofNat] at hvalue'
  have hround := roundsTo_div hfinite hfinite' (by rw [hvalue]; positivity)
    (by rw [hvalue']; positivity)
  rw [hvalue, hvalue'] at hround
  obtain ⟨b, hb, hb'⟩ := exists_double hn (e := -53) (by decide) (by decide)
  rw [zpow_neg, ← div_eq_mul_inv] at hb'
  exact hround.value_eq hb hb'

/-- Two words make a whole number of 53 bits, which is then divided. -/
theorem exists_fraction (s : σ) :
    ∃ n < 2 ^ 53, (drawFraction.run s).1 = Float.ofNat n / 9007199254740992 := by
  have hparts (high low : UInt32) : ((high >>> 5).toNat <<< 26) + (low >>> 6).toNat < 2 ^ 53 := by
    have hhigh : (high >>> 5).toNat < 2 ^ 27 := by
      rw [UInt32.toNat_shiftRight, Nat.shiftRight_eq_div_pow]
      exact Nat.div_lt_of_lt_mul high.toNat_lt
    have hlow : (low >>> 6).toNat < 2 ^ 26 := by
      rw [UInt32.toNat_shiftRight, Nat.shiftRight_eq_div_pow]
      exact Nat.div_lt_of_lt_mul low.toNat_lt
    rw [Nat.shiftLeft_eq]
    omega
  exact ⟨_, hparts (drawWord.run s).1 (drawWord.run (drawWord.run s).2).1, rfl⟩

/-- The fraction that is drawn is not negative, and less than one. -/
theorem fraction_bounds (s : σ) : (drawFraction.run s).1.isFinite = true ∧
    0 ≤ value (drawFraction.run s).1 ∧ value (drawFraction.run s).1 < 1 := by
  obtain ⟨n, hn, hdraw⟩ := exists_fraction s
  obtain ⟨hfinite, hvalue⟩ := value_fraction hn
  rw [hdraw, hvalue]
  refine ⟨hfinite, by positivity, ?_⟩
  rw [div_lt_one (by positivity)]
  exact_mod_cast hn

end Fractions

/-- No sum grows too great for a double with the weight that is added to it. -/
def StaysInRange (sums added : List Float) : Prop :=
  ∀ step ∈ sums.zip added, value step.1 + value step.2 < overflow

section Sums
variable {sum w : Float} {ws : List Float}

/-- Sums of positive doubles are positive and do not decrease. -/
theorem isChain_sumsFrom (hsum : 0 < sum) (hws : ∀ w ∈ ws, 0 < w) :
    (sum :: sumsFrom sum ws).IsChain (· ≤ ·) ∧ 0 < (sumsFrom sum ws).getLastD sum := by
  induction ws generalizing sum with
  | nil => exact ⟨List.isChain_singleton _, hsum⟩
  | cons w ws ih =>
    obtain ⟨hw, hws⟩ := List.forall_mem_cons.mp hws
    obtain ⟨hchain, hlast⟩ := ih (zero_lt_add hsum hw) hws
    rw [sumsFrom, List.getLastD_cons]
    exact ⟨List.isChain_cons_cons.mpr ⟨le_add hsum hw, hchain⟩, hlast⟩

/-- The last sum is finite if all weights are and no sum grows too great on the way. -/
theorem isFinite_sumsFrom_iff (hsum : 0 < sum) (hws : ∀ w ∈ ws, 0 < w) :
    ((sumsFrom sum ws).getLastD sum).isFinite = true ↔
      (∀ w ∈ sum :: ws, w.isFinite = true) ∧ StaysInRange (sum :: sumsFrom sum ws) ws := by
  induction ws generalizing sum with
  | nil =>
    rw [List.forall_mem_singleton]
    exact ⟨fun h => ⟨h, nofun⟩, fun h => h.1⟩
  | cons w ws ih =>
    obtain ⟨hw, hws⟩ := List.forall_mem_cons.mp hws
    rw [sumsFrom, List.getLastD_cons, ih (zero_lt_add hsum hw) hws, StaysInRange, StaysInRange,
      List.zip_cons_cons, List.forall_mem_cons, List.forall_mem_cons, List.forall_mem_cons,
      List.forall_mem_cons, isFinite_add_iff hsum hw]
    tauto

/-- Fewer than two to the power of 53 weights, each at most two to the power of 970, stay in range:
their multiples are doubles, and rounding does not get past them. -/
theorem isFinite_sumsFrom_of_small {k : Nat} (hsum : sum.isFinite = true) (hpos : 0 < sum)
    (hle : value sum ≤ k * 2 ^ (970 : Int))
    (hws : ∀ w ∈ ws, w.isFinite = true ∧ 0 < w ∧ value w ≤ 2 ^ (970 : Int))
    (hk : k + ws.length < 2 ^ 53) : ((sumsFrom sum ws).getLastD sum).isFinite = true := by
  induction ws generalizing sum k with
  | nil => exact hsum
  | cons w ws ih =>
    obtain ⟨⟨hfinite, hpos', hle'⟩, hws⟩ := List.forall_mem_cons.mp hws
    rw [List.length_cons] at hk
    have hround := roundsTo_add hsum hfinite ((zero_lt_iff hsum).mp hpos).le
      ((zero_lt_iff hfinite).mp hpos').le
    obtain ⟨b, hb, hvalue⟩ := exists_double (m := k + 1) (e := 970) (by omega) (by decide)
      (by decide)
    have hbound : value sum + value w ≤ value b := by
      rw [hvalue, Nat.cast_add_one, add_one_mul]
      exact add_le_add hle hle'
    obtain ⟨hfinite', hle''⟩ := hround.le_of_le_value hb hbound
    rw [sumsFrom, List.getLastD_cons]
    exact ih hfinite' (zero_lt_add hpos hpos') (hvalue ▸ hle'') hws (by omega)

end Sums

def drawn {σ : Type} [WordSource σ] (s : σ) (t : PreparedTable) : Float :=
  (drawFraction.run s).1 * t.total

/-- How numbers are drawn for a table, given the numbers that its weights are written as. -/
structure DrawsFrom (written : List ℚ) (t : PreparedTable) : Prop where
  weights : List.Forall₂ (fun x r => RoundsTo x r.value.weight) written t.table.rules
  positive : 0 < t.total
  increasing : t.sums.IsChain (· ≤ ·)
  /-- The total is finite as long as no weight is written too great and no sum grows too great. -/
  isFinite_iff : t.total.isFinite = true ↔ (∀ x ∈ written, x < overflow) ∧
    StaysInRange t.sums (t.table.rules.tail.map (·.value.weight))
  isFinite_of_small : (∀ x ∈ written, x ≤ 2 ^ (970 : Int)) → written.length < 2 ^ 53 →
    t.total.isFinite = true
  /-- From a finite total finite numbers are drawn, from zero to the total. -/
  drawn_bounds : t.total.isFinite = true → ∀ (σ : Type) [WordSource σ] (s : σ),
    (drawn s t).isFinite = true ∧ 0 ≤ drawn s t ∧ drawn s t ≤ t.total
  /-- From an infinite total none is. -/
  drawn_infinite : t.total.isFinite = false → ∀ (σ : Type) [WordSource σ] (s : σ),
    (drawn s t).isFinite = false

section Tables
variable {t : PreparedTable} {σ : Type} [WordSource σ]

/-- The exact product is not above the total, and rounding does not get past a double. -/
theorem drawn_bounds (hpos : 0 < t.total) (hfinite : t.total.isFinite = true) (s : σ) :
    (drawn s t).isFinite = true ∧ 0 ≤ drawn s t ∧ drawn s t ≤ t.total := by
  obtain ⟨hfraction, hlow, hhigh⟩ := fraction_bounds s
  have htotal := ((zero_lt_iff hfinite).mp hpos).le
  have hround : RoundsTo _ (drawn s t) := roundsTo_mul hfraction hfinite hlow htotal
  obtain ⟨hdrawn, hle⟩ := hround.le_of_le_value hfinite (mul_le_of_le_one_left htotal hhigh.le)
  refine ⟨hdrawn, hround.le_of_value_le isFinite_zero ?_, (le_iff_value hdrawn hfinite).mpr hle⟩
  rw [value_zero]
  positivity

/-- What is drawn is infinite or, with the fraction zero, no number. -/
theorem drawn_infinite (hpos : 0 < t.total) (hinfinite : t.total.isFinite = false) (s : σ) :
    (drawn s t).isFinite = false := by
  obtain ⟨hfraction, hlow, -⟩ := fraction_bounds s
  rcases pos_cases hpos with ⟨hfinite, -⟩ | hinfinity
  · exact absurd hfinite (Bool.eq_false_iff.mp hinfinite)
  · exact mul_of_infinity hfraction hlow hinfinity

theorem forall_of_forall₂ {α β : Type} {R : α → β → Prop} {P : α → Prop} {Q : β → Prop}
    {as : List α} {bs : List β} (h : List.Forall₂ R as bs) (hPQ : ∀ a b, R a b → P a → Q b)
    (has : ∀ a ∈ as, P a) : ∀ b ∈ bs, Q b := by
  induction h with
  | nil => exact nofun
  | cons hab _ ih =>
    obtain ⟨ha, has⟩ := List.forall_mem_cons.mp has
    exact List.forall_mem_cons.mpr ⟨hPQ _ _ hab ha, ih has⟩

/-- A weight that is written small enough is a double that is as small. -/
theorem small_of_roundsTo {x : ℚ} {w : Float} (h : RoundsTo x w) (hx : x ≤ 2 ^ (970 : Int)) :
    w.isFinite = true ∧ value w ≤ 2 ^ (970 : Int) := by
  obtain ⟨b, hb, hvalue⟩ := exists_double (m := 1) (e := 970) (by decide) (by decide) (by decide)
  rw [Nat.cast_one, one_mul] at hvalue
  rw [← hvalue] at hx ⊢
  exact h.le_of_le_value hb hx

theorem sums_ofTable {t : Table} {w : Float} {ws : List Float}
    (h : t.rules.map (·.value.weight) = w :: ws) :
    (PreparedTable.ofTable t).sums = w :: sumsFrom w ws ∧
      (PreparedTable.ofTable t).total = (sumsFrom w ws).getLastD w := by
  have hsums : runningSums (t.rules.map (·.value.weight)) = w :: sumsFrom w ws := by
    rw [h, runningSums]
  refine ⟨hsums, ?_⟩
  rw [PreparedTable.ofTable, hsums, List.getLastD_cons]

/-- A table is drawn from as its weights are added up, if they are positive and as written. -/
theorem drawsFrom_ofTable {written : List ℚ} {t : Table} (hrules : t.rules ≠ [])
    (hweights : List.Forall₂ (fun x r => RoundsTo x r.value.weight ∧ 0 < r.value.weight) written
      t.rules) : DrawsFrom written (.ofTable t) := by
  have htail : (PreparedTable.ofTable t).table.rules.tail.map (·.value.weight) =
      (t.rules.map (·.value.weight)).tail := List.map_tail
  have hlist : List.Forall₂ (fun x w => RoundsTo x w ∧ 0 < w) written
      (t.rules.map (·.value.weight)) := List.forall₂_map_right_iff.mpr hweights
  obtain ⟨sum, ws, hsplit⟩ := List.exists_cons_of_ne_nil (mt List.map_eq_nil_iff.mp hrules)
  obtain ⟨hsums, htotal⟩ := sums_ofTable hsplit
  rw [hsplit] at hlist htail
  have hpos : ∀ w ∈ sum :: ws, 0 < w :=
    forall_of_forall₂ (P := fun _ => True) hlist (fun _ _ h _ => h.2) fun _ _ => trivial
  have hfinite : (∀ x ∈ written, x < overflow) ↔ ∀ w ∈ sum :: ws, w.isFinite = true :=
    ⟨forall_of_forall₂ hlist fun _ _ h => h.1.isFinite_iff.mpr,
      forall_of_forall₂ hlist.flip fun _ _ h => h.1.isFinite_iff.mp⟩
  obtain ⟨hsum, hws⟩ := List.forall_mem_cons.mp hpos
  obtain ⟨hchain, hlast⟩ := isChain_sumsFrom hsum hws
  have hpositive : 0 < (PreparedTable.ofTable t).total := htotal ▸ hlast
  constructor
  · exact hweights.imp fun _ _ h => h.1
  · exact hpositive
  · exact hsums ▸ hchain
  · rw [htotal, hsums, htail, hfinite]
    exact isFinite_sumsFrom_iff hsum hws
  · intro hwritten hfew
    obtain ⟨⟨hsmall, hle⟩, hsmalls⟩ := List.forall_mem_cons.mp
      (forall_of_forall₂ hlist (fun _ _ h => small_of_roundsTo h.1) hwritten)
    rw [htotal]
    refine isFinite_sumsFrom_of_small (k := 1) hsmall hsum ?_ (fun w hw => ?_) ?_
    · rwa [Nat.cast_one, one_mul]
    · exact ⟨(hsmalls w hw).1, hws w hw, (hsmalls w hw).2⟩
    · rw [hlist.length_eq, List.length_cons] at hfew
      omega
  · exact fun hfinite σ _ s => drawn_bounds hpositive hfinite s
  · exact fun hinfinite σ _ s => drawn_infinite hpositive hinfinite s

end Tables

/-- A weight is the positive double next to the number that is written. -/
theorem Program.roundsTo_weight {source : String} {p : Program} (h : parse source = .ok p)
    {t : Table} (ht : t ∈ p.declarations) {r : Located Rule} (hr : r ∈ t.rules) :
    RoundsTo (literalValue (literalAt source.toList r.span.start)) r.value.weight ∧
      0 < r.value.weight := by
  obtain ⟨located, hlocated, rfl⟩ := List.mem_map.mp ht
  obtain ⟨hliteral, hpositive⟩ := weight_eq_literal h hlocated hr
  have hround := roundsTo_floatOfLiteral (literalAt source.toList r.span.start)
  rw [← hliteral] at hround
  refine ⟨hround, Classical.not_not.mp fun hnot => hpositive ?_⟩
  exact (not_lt_iff_le (not_isNaN_of_isFinite isFinite_zero) hround.isNaN_eq_false).mp hnot

def Table.writtenWeights (t : Table) (source : String) : List ℚ :=
  t.rules.map fun r => literalValue (literalAt source.toList r.span.start)

namespace Collection

/-- Every table of a collection that is made of a source is drawn from with positive sums that do
not decrease, and as long as its weights and their sums are not too great for a double, all numbers
that are drawn lie between zero and the total. -/
theorem drawsFrom_of_ofSource {source : String} {loading : Loading} {c : Collection} {id : String}
    {t : PreparedTable} (h : ofSource source = .ok loading) (hc : loading.outcome = .ok c)
    (ht : c.table id = .ok t) : DrawsFrom (t.table.writtenWeights source) t := by
  obtain ⟨p, hparse, hload⟩ := ofSource_eq_ok h hc
  have hfind := find?_of_load hload id
  rw [table] at ht
  cases hlast : p.lastDeclaration? id with
  | none =>
    rw [hfind, hlast] at ht
    cases ht
  | some declared =>
    rw [hfind, hlast] at ht
    obtain rfl := Except.ok.inj ht
    have hdeclared := Program.lastDeclaration_mem hlast
    refine drawsFrom_ofTable ((isComplete_of_load hload).rules declared hdeclared) ?_
    refine List.forall₂_map_left_iff.mpr (List.forall₂_same.mpr fun r hr => ?_)
    exact Program.roundsTo_weight hparse hdeclared hr

def weightSource (literal : List Char) : String :=
  String.ofList ("#t\n".toList ++ literal ++ ":x".toList)

def weightPiece (literal : List Char) : Piece :=
  ⟨some .number, some (.weight (floatOfLiteral literal)), literal⟩

def weightPieces (literal : List Char) : List Piece :=
  [.token .hash ['#'], .token .identifier ['t'], .token .newline ['\n'], weightPiece literal,
    .token .colon [':'], .token .text ['x']]

theorem textOf_weightPieces (literal : List Char) :
    textOf (weightPieces literal) = (weightSource literal).toList := by
  have hsource : (weightSource literal).toList = "#t\n".toList ++ literal ++ ":x".toList :=
    String.toList_ofList
  rw [hsource, List.append_assoc]
  rfl

section Weights
variable {c : Char} {digits : List Char}

theorem reads_weightPieces (hc : Text.isDigit c = true)
    (hdigits : ∀ d ∈ digits, Text.isDigit d = true)
    (hpositive : ¬floatOfLiteral (c :: digits) ≤ 0) :
    Reads [] .declaration none (weightPieces (c :: digits)) .ruleContent (some .text) := by
  have hweight : Takes .declaration (some .newline) (weightPiece (c :: digits)) .declaration
      ":x".toList := by
    have hlexes := @Lexes.number (some .newline) c digits [] ":x".toList hc hdigits (.inl rfl)
      ((Text.stops_cons _ _ _).mpr (by decide)) (by rwa [List.append_nil])
    rw [List.append_nil, List.append_nil] at hlexes
    exact takes_of_lexes hlexes
  exact .cons ⟨_, _, rfl, rfl⟩ (.cons ⟨_, _, rfl, rfl⟩ (.cons ⟨_, _, rfl, rfl⟩ (.cons hweight
    (.cons ⟨_, _, rfl, rfl⟩ (.cons ⟨_, _, rfl, rfl⟩ .nil)))))

/-- If the weight is made of digits and not rounded to zero, it is the total of the one table of the
collection. -/
theorem exists_collection_weightSource (hc : Text.isDigit c = true)
    (hdigits : ∀ d ∈ digits, Text.isDigit d = true)
    (hpositive : ¬floatOfLiteral (c :: digits) ≤ 0) :
    ∃ loading collection t, ofSource (weightSource (c :: digits)) = .ok loading ∧
      loading.outcome = .ok collection ∧ collection.table "t" = .ok t ∧
      t.total = floatOfLiteral (c :: digits) := by
  have hrule : Grammar.IsRule (tokensFrom 3
      [weightPiece (c :: digits), .token .colon [':'], .token .text ['x']]) _ :=
    .mk rfl rfl (Grammar.content_text _ [] [] rfl .nil trivial) (List.cons_ne_nil _ _)
      (fun hall => absurd (hall _ List.mem_cons_self).2
        (show ¬"x".toList.all Text.isBlank = true by decide))
  have hheader : Grammar.Header (tokensFrom 0 [.token .hash ['#'], .token .identifier ['t']])
      "t" false := .plain rfl rfl
  have htable := @Grammar.IsTable.lines _ _ _ ⟨.newline, "\n", ⟨2, 3, by decide⟩, none⟩ _ _ []
    hheader rfl (.rule hrule .nil)
  have hparse := (Program.parse_eq_ok_iff (weightSource (c :: digits)) _).mpr
    ⟨_, _, _, textOf_weightPieces _, reads_weightPieces hc hdigits hpositive,
      @Grammar.IsProgram.mk [] _ _ nofun (.cons htable .nil) (List.cons_ne_nil _ _)⟩
  refine ⟨_, _, _, by rw [ofSource, hparse], rfl, rfl, rfl⟩

end Weights

def sameTexts : String :=
  "#t\n1:a \n2:a\n1:b"

def sameTextsPieces : List Piece :=
  [.token .hash ['#'], .token .identifier ['t'], .token .newline ['\n'],
    weightPiece ['1'], .token .colon [':'], .token .text ['a', ' '],
    .token .newline ['\n'], weightPiece ['2'], .token .colon [':'],
    .token .text ['a'], .token .newline ['\n'], weightPiece ['1'],
    .token .colon [':'], .token .text ['b']]

theorem reads_sameTexts :
    Reads [] .declaration none sameTextsPieces .ruleContent (some .text) := by
  repeat
    first
    | exact Reads.nil
    | refine Reads.cons ⟨_, _, rfl, rfl⟩ ?_

/-- The source is read as a table with the three rules in order, and loaded. -/
theorem exists_program_sameTexts : ∃ p t, Program.parse sameTexts = .ok p ∧
    (load p).outcome = .ok (ofDeclarations p) ∧
    p.lastDeclaration? "t" = some t ∧
    t.rules.map (·.value.content) = [[.text "a "], [.text "a"], [.text "b"]] ∧
    t.rules.map (·.value.weight) = ["1", "2", "1"].map (floatOfLiteral ·.toList) := by
  have hfirst : Grammar.IsRule (tokensFrom 3
      [weightPiece ['1'], .token .colon [':'], .token .text ['a', ' ']]) _ :=
    .mk rfl rfl (Grammar.content_text _ [] [] rfl .nil trivial) (List.cons_ne_nil _ _) (by decide)
  have hsecond : Grammar.IsRule (tokensFrom 8
      [weightPiece ['2'], .token .colon [':'], .token .text ['a']]) _ :=
    .mk rfl rfl (Grammar.content_text _ [] [] rfl .nil trivial) (List.cons_ne_nil _ _) (by decide)
  have hthird : Grammar.IsRule (tokensFrom 12
      [weightPiece ['1'], .token .colon [':'], .token .text ['b']]) _ :=
    .mk rfl rfl (Grammar.content_text _ [] [] rfl .nil trivial) (List.cons_ne_nil _ _) (by decide)
  have hlast := Grammar.Lines.rule hthird .nil
  rw [List.append_nil] at hlast
  have hlines := Grammar.Lines.rule hfirst (@Grammar.Lines.lineEnd
    ⟨.newline, "\n", ⟨7, 8, by decide⟩, none⟩ _ _ rfl (.rule hsecond (@Grammar.Lines.lineEnd
      ⟨.newline, "\n", ⟨11, 12, by decide⟩, none⟩ _ _ rfl hlast)))
  have htable := @Grammar.IsTable.lines
    (tokensFrom 0 [.token .hash ['#'], .token .identifier ['t']]) _ _
    ⟨.newline, "\n", ⟨2, 3, by decide⟩, none⟩ _ _ [] (.plain rfl rfl) rfl hlines
  have hparse := (Program.parse_eq_ok_iff sameTexts _).mpr ⟨_, _, _, rfl, reads_sameTexts,
    @Grammar.IsProgram.mk [] _ _ nofun (.cons htable .nil) (List.cons_ne_nil _ _)⟩
  refine ⟨_, _, hparse, (load_eq_ok_iff _ _).mpr ⟨?_, rfl⟩, rfl, rfl, rfl⟩
  exact (Program.fault?_eq_none_iff _).mp rfl

/-- A table with the weights one, two and one. -/
theorem drawsFrom_of_ofSource_threeRules : ∃ loading c t, ofSource sameTexts = .ok loading ∧
    loading.outcome = .ok c ∧ c.table "t" = .ok t ∧ t.sums = [1, 3, 4] ∧
    DrawsFrom (t.table.writtenWeights sameTexts) t := by
  obtain ⟨p, declared, hparse, hload, hlast, -, hweights⟩ := exists_program_sameTexts
  have hsource : ofSource sameTexts = .ok (load p) := by rw [ofSource, hparse]
  have htable : (ofDeclarations p).table "t" = .ok (.ofTable declared) := by
    rw [table, find?_of_load hload, hlast]
    rfl
  have hsums : runningSums (["1", "2", "1"].map (floatOfLiteral ·.toList)) = [1, 3, 4] := by
    decide +kernel
  refine ⟨_, _, _, hsource, hload, htable, ?_, drawsFrom_of_ofSource hsource hload htable⟩
  rw [PreparedTable.ofTable, hweights, hsums]

def tooGreat : List Char :=
  '1' :: List.replicate 309 '0'

/-- A table whose one weight is too great for a double: from its total nothing finite is drawn. -/
theorem drawn_tooGreat : ∃ loading c t, ofSource (weightSource tooGreat) = .ok loading ∧
    loading.outcome = .ok c ∧ c.table "t" = .ok t ∧ t.total.isFinite = false ∧
    ∀ (σ : Type) [WordSource σ] (s : σ), (drawn s t).isFinite = false := by
  have hinfinite : (floatOfLiteral tooGreat).isFinite = false := by decide +kernel
  have hpositive : ¬floatOfLiteral tooGreat ≤ 0 := by decide +kernel
  have hpositive' : 0 < floatOfLiteral tooGreat := by decide +kernel
  obtain ⟨loading, c, t, h, hc, ht, htotal⟩ :=
    @exists_collection_weightSource '1' (List.replicate 309 '0') rfl
      (fun d hd => by rw [List.eq_of_mem_replicate hd]; rfl) hpositive
  change t.total = floatOfLiteral tooGreat at htotal
  rw [← htotal] at hinfinite hpositive'
  exact ⟨loading, c, t, h, hc, ht, hinfinite,
    fun σ _ s => RandomTables.drawn_infinite hpositive' hinfinite s⟩

end Collection
end RandomTables
