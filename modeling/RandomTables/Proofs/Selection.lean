import RandomTables.Collection.Prepared
import RandomTables.Proofs.Decimal.Order

/-! What is selected. The binary search comes to the first running sum that reaches the drawn
number, and with exact sums the weights share out the range of the draws: each rule has an interval
as long as its weight. -/
namespace RandomTables

section Search
variable {below : Nat → Bool} {lo hi : Nat}

/-- If all indices below come before all others, the search finds where they end. -/
theorem lt_partitionPoint_iff (hdown : ∀ i j, i ≤ j → below j = true → below i = true)
    (hle : lo ≤ hi) (hlo : ∀ i < lo, below i = true) (hhi : ∀ i, hi ≤ i → below i = false)
    (i : Nat) : i < partitionPoint below lo hi ↔ below i = true := by
  fun_induction partitionPoint below lo hi with
  | case1 lo hi hlt mid hmid ih =>
    exact ih (by omega) (fun j hj => hdown j mid (by omega) hmid) hhi
  | case2 lo hi hlt mid hmid ih =>
    refine ih (by omega) hlo fun j hj => Bool.eq_false_iff.mpr fun hbelow => ?_
    exact hmid (hdown mid j hj hbelow)
  | case3 lo hi hnot =>
    refine ⟨hlo i, fun hbelow => Nat.lt_of_not_le fun hge => ?_⟩
    rw [hhi i (by omega)] at hbelow
    cases hbelow

end Search

def IsFirstOrLast {α : Type} (P : α → Prop) (l : List α) (i : Nat) : Prop :=
  (∃ h : i < l.length, P l[i] ∧ ∀ (j : Nat) (hj : j < i), ¬P l[j]) ∨
    (∀ x ∈ l, ¬P x) ∧ i + 1 = l.length

section First
variable {α : Type} {P Q : α → Prop} {l : List α} {i : Nat}

theorem IsFirstOrLast.lt_length (h : IsFirstOrLast P l i) : i < l.length := by
  rcases h with ⟨h, -⟩ | ⟨-, h⟩ <;> omega

/-- Only the property itself counts, not how it is put. -/
theorem IsFirstOrLast.congr (h : IsFirstOrLast P l i) (hPQ : ∀ x ∈ l, P x ↔ Q x) :
    IsFirstOrLast Q l i := by
  rcases h with ⟨hi, hP, hbefore⟩ | ⟨hnone, hlast⟩
  · refine .inl ⟨hi, (hPQ _ (List.getElem_mem hi)).mp hP, fun j hj hQ => ?_⟩
    exact hbefore j hj ((hPQ _ (List.getElem_mem _)).mpr hQ)
  · exact .inr ⟨fun x hx hQ => hnone x hx ((hPQ x hx).mpr hQ), hlast⟩

/-- A list of one has no other index. -/
theorem isFirstOrLast_singleton (P : α → Prop) (x : α) : IsFirstOrLast P [x] 0 := by
  by_cases hP : P x
  · exact .inl ⟨Nat.one_pos, hP, fun j hj => absurd hj (Nat.not_lt_zero j)⟩
  · refine .inr ⟨fun y hy => ?_, rfl⟩
    rw [List.mem_singleton.mp hy]
    exact hP

end First

section Selected
variable {α : Type} [LT α] [DecidableLT α] {sums : List α}

theorem selectIndex_singleton (sum drawn : α) : selectIndex [sum] drawn = 0 := by
  have hbounds := selectIndex_bounds (List.cons_ne_nil sum []) drawn
  rw [List.length_singleton] at hbounds
  omega

/-- If the sums that are less than the drawn number come before all others, the first that is not is
selected. -/
theorem exists_selectIndex_eq (drawn : α) (hsums : sums ≠ [])
    (hdown : ∀ (i j : Nat) (hij : i ≤ j) (hj : j < sums.length), sums[j] < drawn →
      sums[i] < drawn) :
    ∃ i : Nat, selectIndex sums drawn = i ∧ IsFirstOrLast (¬· < drawn) sums i := by
  have hlength : 0 < sums.length := List.length_pos_iff.mpr hsums
  let below (i : Nat) : Bool := sums[i]?.any (· < drawn)
  have hbelow (i : Nat) (hi : i < sums.length) : below i = true ↔ sums[i] < drawn := by
    simp only [below, List.getElem?_eq_getElem hi, Option.any_some, decide_eq_true_iff]
  have hend (i : Nat) (hi : sums.length ≤ i) : below i = false := by
    simp only [below, List.getElem?_eq_none hi, Option.any_none]
  have hfound := @lt_partitionPoint_iff below 0 sums.length
    (fun i j hij hj => by
      have hjlt : j < sums.length := Nat.lt_of_not_le fun hge => by simp [hend j hge] at hj
      exact (hbelow i (by omega)).mpr (hdown i j hij hjlt ((hbelow j hjlt).mp hj)))
    (Nat.zero_le _) (fun i hi => absurd hi (Nat.not_lt_zero i)) hend
  have hselect : selectIndex sums drawn =
      min (partitionPoint below 0 sums.length : Int) (sums.length - 1) := rfl
  obtain ⟨-, hle⟩ := partitionPoint_bounds below (Nat.zero_le sums.length)
  generalize partitionPoint below 0 sums.length = found at hfound hselect hle
  rcases Nat.lt_or_eq_of_le hle with hlt | rfl
  · refine ⟨found, by omega, .inl ⟨hlt, fun hless => ?_, fun j hj hnot => ?_⟩⟩
    · exact Nat.lt_irrefl found ((hfound found).mpr ((hbelow found hlt).mpr hless))
    · exact hnot ((hbelow j (by omega)).mp ((hfound j).mp hj))
  · refine ⟨sums.length - 1, by omega, .inr ⟨fun x hx hnot => ?_, by omega⟩⟩
    obtain ⟨i, hi, rfl⟩ := List.getElem_of_mem hx
    exact hnot ((hbelow i hi).mp ((hfound i).mp hi))

end Selected

/-- Sums of doubles that do not decrease are searched like exact ones. A sum that is NaN would stand
alone. -/
theorem PreparedTable.exists_select_eq {t : PreparedTable} {drawn : Float} (hsums : t.sums ≠ [])
    (hchain : t.sums.IsChain (· ≤ ·)) (hdrawn : drawn.isNaN = false) :
    ∃ i : Nat, t.select drawn = i ∧ IsFirstOrLast (drawn ≤ ·) t.sums i := by
  rw [PreparedTable.select]
  generalize t.sums = sums at hsums hchain
  have htrans : IsTrans Float (· ≤ ·) := ⟨fun _ _ _ => Decimal.le_trans⟩
  rcases sums with - | ⟨x, - | ⟨y, rest⟩⟩
  · contradiction
  · exact ⟨0, selectIndex_singleton x drawn, isFirstOrLast_singleton _ x⟩
  · have hpairwise := List.isChain_iff_pairwise.mp hchain
    have hnumber : ∀ z ∈ x :: y :: rest, z.isNaN = false := by
      have hx : ∀ z ∈ y :: rest, x ≤ z := (List.pairwise_cons.mp hpairwise).1
      intro z hz
      rcases List.mem_cons.mp hz with rfl | hz
      · exact (Decimal.not_isNaN_of_le (hx y (List.mem_cons_self ..))).1
      · exact (Decimal.not_isNaN_of_le (hx z hz)).2
    obtain ⟨i, hselect, hfirst⟩ := exists_selectIndex_eq drawn hsums
      fun i j hij hj hless => by
        rcases Nat.lt_or_eq_of_le hij with hlt | rfl
        · have hle := List.pairwise_iff_getElem.mp hpairwise i j (by omega) hj hlt
          exact Decimal.lt_of_le_of_lt hle hless
        · exact hless
    exact ⟨i, hselect, hfirst.congr fun z hz => Decimal.not_lt_iff_le (hnumber z hz) hdrawn⟩

section Exact
variable {ws : List ℚ} {i j : Nat} {d : ℚ}

def sumOf (ws : List ℚ) (n : Nat) : ℚ :=
  (ws.take n).sum

/-- The interval of a rule: above the weights before it, up to its own weight on top of them. The
first rule has zero as well. -/
def share (ws : List ℚ) : Nat → Set ℚ
  | 0 => Set.Icc 0 (sumOf ws 1)
  | i + 1 => Set.Ioc (sumOf ws (i + 1)) (sumOf ws (i + 2))

def draws (ws : List ℚ) : Set ℚ :=
  Set.Ico 0 ws.sum

structure SharesOut (ws : List ℚ) : Prop where
  /-- The running sums increase from the first weight to the sum of all. -/
  sums : runningSums ws = (List.range ws.length).map fun i => sumOf ws (i + 1)
  increasing : (runningSums ws).IsChain (· < ·)
  total : (runningSums ws).getLastD 0 = ws.sum
  /-- A rule is selected by the draws in its interval and by no others. -/
  selected : ∀ i < ws.length, {d ∈ draws ws | selectIndex (runningSums ws) d = i} =
    draws ws ∩ share ws i
  exactlyOne : ∀ d ∈ draws ws, ∃! i : Nat, i < ws.length ∧ selectIndex (runningSums ws) d = i
  /-- The interval is as long as the weight. -/
  start : sumOf ws 0 = 0
  long : ∀ (i : Nat) (h : i < ws.length), sumOf ws (i + 1) - sumOf ws i = ws[i]

theorem sumOf_zero (ws : List ℚ) : sumOf ws 0 = 0 := by
  rw [sumOf, List.take_zero, List.sum_nil]

theorem sumOf_succ (h : i < ws.length) : sumOf ws (i + 1) = sumOf ws i + ws[i] :=
  List.sum_take_succ ws i h

theorem sumOf_length (ws : List ℚ) : sumOf ws ws.length = ws.sum := by
  rw [sumOf, List.take_length]

theorem sumOf_cons (w : ℚ) (ws : List ℚ) (n : Nat) : sumOf (w :: ws) (n + 1) = w + sumOf ws n := by
  rw [sumOf, List.take_succ_cons, List.sum_cons, sumOf]

/-- Sums of more positive weights are greater. -/
theorem sumOf_lt (hws : ∀ w ∈ ws, 0 < w) (hij : i < j) (hj : j ≤ ws.length) :
    sumOf ws i < sumOf ws j := by
  induction j, hij using Nat.le_induction with
  | base =>
    rw [sumOf_succ hj]
    exact lt_add_of_pos_right _ (hws _ (List.getElem_mem hj))
  | succ j hij ih =>
    rw [sumOf_succ hj]
    exact (ih (by omega)).trans (lt_add_of_pos_right _ (hws _ (List.getElem_mem hj)))

theorem sumsFrom_eq (sum : ℚ) (ws : List ℚ) :
    sumsFrom sum ws = (List.range ws.length).map fun i => sum + sumOf ws (i + 1) := by
  induction ws generalizing sum with
  | nil => rfl
  | cons w ws ih =>
    rw [sumsFrom, ih, List.length_cons, List.range_succ_eq_map, List.map_cons, List.map_map,
      sumOf_cons, sumOf_zero, add_zero]
    simp only [Function.comp_def, Nat.succ_eq_add_one, sumOf_cons, add_assoc]

/-- The running sums are the sums of the first weights. -/
theorem runningSums_eq (ws : List ℚ) :
    runningSums ws = (List.range ws.length).map fun i => sumOf ws (i + 1) := by
  cases ws with
  | nil => rfl
  | cons w ws =>
    rw [runningSums, sumsFrom_eq, List.length_cons, List.range_succ_eq_map, List.map_cons,
      List.map_map, sumOf_cons, sumOf_zero, add_zero]
    simp only [Function.comp_def, Nat.succ_eq_add_one, sumOf_cons]

theorem getElem_runningSums (h : i < (runningSums ws).length) :
    (runningSums ws)[i] = sumOf ws (i + 1) := by
  simp only [runningSums_eq, List.getElem_map, List.getElem_range]

/-- The last running sum is that of all weights. -/
theorem getLastD_runningSums (ws : List ℚ) : (runningSums ws).getLastD 0 = ws.sum := by
  rcases List.eq_nil_or_concat ws with rfl | ⟨front, w, rfl⟩
  · rfl
  · rw [runningSums_eq, List.concat_eq_append, List.length_append, List.length_singleton,
      List.range_succ, List.map_append, List.map_singleton, List.getLastD_concat,
      ← sumOf_length, List.length_append, List.length_singleton]

/-- Sums of positive weights increase. -/
theorem isChain_runningSums (hws : ∀ w ∈ ws, 0 < w) : (runningSums ws).IsChain (· < ·) := by
  rw [List.isChain_iff_pairwise, List.pairwise_iff_getElem]
  intro i j hi hj hij
  rw [getElem_runningSums hi, getElem_runningSums hj]
  rw [length_runningSums] at hj
  exact sumOf_lt hws (Nat.succ_lt_succ hij) hj

/-- A number is in a share if the sum up to there reaches it and none before does. -/
theorem mem_share_iff (hws : ∀ w ∈ ws, 0 < w) (hi : i < ws.length) (hd : 0 ≤ d) :
    d ∈ share ws i ↔ d ≤ sumOf ws (i + 1) ∧ ∀ j < i, sumOf ws (j + 1) < d := by
  cases i with
  | zero =>
    rw [share, Set.mem_Icc]
    exact ⟨fun h => ⟨h.2, fun j hj => absurd hj (Nat.not_lt_zero j)⟩, fun h => ⟨hd, h.1⟩⟩
  | succ i =>
    rw [share, Set.mem_Ioc]
    refine ⟨fun h => ⟨h.2, fun j hj => ?_⟩, fun h => ⟨h.2 i (Nat.lt_succ_self i), h.1⟩⟩
    rcases Nat.lt_or_eq_of_le (Nat.lt_succ_iff.mp hj) with hlt | rfl
    · exact (sumOf_lt hws (Nat.succ_lt_succ hlt) (by omega)).trans h.1
    · exact h.1

/-- A draw selects the rule that has it in its interval. -/
theorem exists_share (hws : ∀ w ∈ ws, 0 < w) (hd : d ∈ draws ws) :
    ∃ i : Nat, i < ws.length ∧ selectIndex (runningSums ws) d = i ∧ d ∈ share ws i := by
  obtain ⟨hpos, hless⟩ := Set.mem_Ico.mp hd
  have hne : ws ≠ [] := by
    rintro rfl
    exact absurd (hpos.trans_lt hless) (lt_irrefl _)
  have hlength := length_runningSums ws
  have hwlength : 0 < ws.length := List.length_pos_iff.mpr hne
  have hsums : runningSums ws ≠ [] := List.length_pos_iff.mp (hlength ▸ hwlength)
  obtain ⟨i, hselect, hfirst⟩ := exists_selectIndex_eq d hsums fun i j hij hj hless => by
      rcases Nat.lt_or_eq_of_le hij with hlt | rfl
      · have hmore := List.pairwise_iff_getElem.mp
          (List.isChain_iff_pairwise.mp (isChain_runningSums hws)) i j (by omega) hj hlt
        exact hmore.trans hless
      · exact hless
  have hi : i < ws.length := hlength ▸ hfirst.lt_length
  refine ⟨i, hi, hselect, (mem_share_iff hws hi hpos).mpr ?_⟩
  rcases hfirst with ⟨hi', hreached, hbefore⟩ | ⟨hnone, -⟩
  · rw [getElem_runningSums, not_lt] at hreached
    refine ⟨hreached, fun j hj => ?_⟩
    have hbelow := hbefore j hj
    rwa [getElem_runningSums, not_not] at hbelow
  -- the last sum is the total, which is more than any draw
  · have hlast : ws.length - 1 < (runningSums ws).length := by omega
    have hbelow := not_not.mp (hnone _ (List.getElem_mem hlast))
    rw [getElem_runningSums, Nat.sub_add_cancel hwlength, sumOf_length] at hbelow
    exact absurd hless hbelow.not_gt

/-- No number is in two shares. -/
theorem eq_of_mem_share (hws : ∀ w ∈ ws, 0 < w) (hd : 0 ≤ d) (hi : i < ws.length)
    (hj : j < ws.length) (hdi : d ∈ share ws i) (hdj : d ∈ share ws j) : i = j := by
  rw [mem_share_iff hws hi hd] at hdi
  rw [mem_share_iff hws hj hd] at hdj
  rcases Nat.lt_trichotomy i j with hlt | heq | hgt
  · exact absurd hdi.1 (hdj.2 i hlt).not_ge
  · exact heq
  · exact absurd hdj.1 (hdi.2 j hgt).not_ge

/-- A rule is selected by the numbers in its share. -/
theorem selectIndex_eq_iff_mem_share (hws : ∀ w ∈ ws, 0 < w) (hd : d ∈ draws ws)
    (hi : i < ws.length) : selectIndex (runningSums ws) d = i ↔ d ∈ share ws i := by
  obtain ⟨k, hk, hselect, hshare⟩ := exists_share hws hd
  rw [hselect, Int.natCast_inj]
  constructor
  · rintro rfl
    exact hshare
  · exact eq_of_mem_share hws hd.1 hk hi hshare

/-- A share is as long as its weight, and the shares together are all that can be drawn. -/
theorem sharesOut (hws : ∀ w ∈ ws, 0 < w) : SharesOut ws where
  sums := runningSums_eq ws
  increasing := isChain_runningSums hws
  total := getLastD_runningSums ws
  selected i hi := by
    ext d
    rw [Set.mem_inter_iff, Set.mem_ofPred_eq]
    exact and_congr_right fun hd => selectIndex_eq_iff_mem_share hws hd hi
  exactlyOne d hd := by
    obtain ⟨i, hi, hselect, -⟩ := exists_share hws hd
    refine ⟨i, ⟨hi, hselect⟩, fun j hj => ?_⟩
    exact Int.natCast_inj.mp (hj.2.symm.trans hselect)
  start := sumOf_zero ws
  long i hi := by rw [sumOf_succ hi, add_sub_cancel_left]

end Exact

/-- A drawn number selects the first rule whose running sum reaches it, or the last rule if none
does; with exact sums each rule is selected by an interval of draws as long as its weight. -/
theorem selection_proportional :
    (∀ (t : PreparedTable) (drawn : Float), t.sums ≠ [] → t.sums.IsChain (· ≤ ·) →
      drawn.isNaN = false →
        ∃ i : Nat, t.select drawn = i ∧ IsFirstOrLast (drawn ≤ ·) t.sums i) ∧
      ∀ ws : List ℚ, (∀ w ∈ ws, 0 < w) → SharesOut ws :=
  ⟨fun _ _ hsums hchain hdrawn => PreparedTable.exists_select_eq hsums hchain hdrawn,
    fun _ hws => sharesOut hws⟩

def threeColors : PreparedTable :=
  .ofTable ⟨"color", false, ([(1, "red"), (2, "green"), (3, "blue")] : List (Float × String)).map
    fun rule => ⟨⟨rule.1, [.text rule.2]⟩, { start := 0, stop := 0 }⟩⟩

/-- One and a half lies in the second share of three. -/
theorem selection_proportional_threeColors :
    (∃ i : Nat, threeColors.select (3 / 2) = i ∧
      IsFirstOrLast ((3 / 2 : Float) ≤ ·) threeColors.sums i) ∧ SharesOut [1, 2, 3] :=
  ⟨selection_proportional.1 threeColors (3 / 2) (List.cons_ne_nil _ _) (by decide +kernel)
    (by decide +kernel), selection_proportional.2 [1, 2, 3] (by norm_num)⟩

end RandomTables
