/-!
Weighted selection. The running sums of the weights cut the range up to their total into intervals,
one for each weight; a number drawn from that range selects the interval that it falls into.
-/
namespace RandomTables

def sumsFrom {α : Type} [Add α] (sum : α) : List α → List α
  | [] => []
  | w :: rest => (sum + w) :: sumsFrom (sum + w) rest

def runningSums {α : Type} [Add α] : List α → List α
  | [] => []
  | w :: rest => w :: sumsFrom w rest

/-- Binary search between `lo` and `hi` for the first index that is not below. The answer is that
index if all indices below come before all others. -/
def partitionPoint (below : Nat → Bool) (lo hi : Nat) : Nat :=
  if lo < hi then
    let mid := (lo + hi) / 2
    if below mid then partitionPoint below (mid + 1) hi else partitionPoint below lo mid
  else lo
termination_by hi - lo

/-- The first index whose running sum reaches the drawn number, or the last index if none does. An
empty list has no index; the answer is then one less than zero. -/
def selectIndex {α : Type} [LT α] [DecidableLT α] (sums : List α) (drawn : α) : Int :=
  let below (i : Nat) : Bool := sums[i]?.any (· < drawn)
  min (partitionPoint below 0 sums.length : Int) (sums.length - 1)

@[simp] theorem length_sumsFrom {α : Type} [Add α] (sum : α) (ws : List α) :
    (sumsFrom sum ws).length = ws.length := by
  induction ws generalizing sum with
  | nil => rfl
  | cons w rest ih => simp [sumsFrom, ih]

@[simp] theorem length_runningSums {α : Type} [Add α] (ws : List α) :
    (runningSums ws).length = ws.length := by
  cases ws <;> simp [runningSums]

/-- The search stays between its bounds. -/
theorem partitionPoint_bounds (below : Nat → Bool) {lo hi : Nat} (h : lo ≤ hi) :
    lo ≤ partitionPoint below lo hi ∧ partitionPoint below lo hi ≤ hi := by
  fun_induction partitionPoint below lo hi with
  | case1 lo hi hlt mid hmid ih =>
    have := ih (by omega)
    omega
  | case2 lo hi hlt mid hmid ih =>
    have := ih (by omega)
    omega
  | case3 => omega

/-- Whatever is drawn from a list that is not empty, the answer is one of its indices. -/
theorem selectIndex_bounds {α : Type} [LT α] [DecidableLT α] {sums : List α} (h : sums ≠ [])
    (drawn : α) : 0 ≤ selectIndex sums drawn ∧ selectIndex sums drawn < sums.length := by
  have hpos : 0 < sums.length := List.length_pos_iff.2 h
  have := partitionPoint_bounds (fun i => sums[i]?.any (· < drawn)) (Nat.zero_le sums.length)
  simp only [selectIndex]
  omega

end RandomTables
