import RandomTables.Text.Console

namespace RandomTables.Text

/-- What follows the escape sequence that a text begins with: the escape character and a bracket,
and what comes up to the next letter m. -/
def afterEscape? : List Char → Option (List Char)
  | '\x1b' :: '[' :: rest => (rest.dropWhile (· ≠ 'm')).tail?
  | _ => none

/-- An escape sequence has at least its first two characters. -/
theorem length_afterEscape {s after : List Char} (h : afterEscape? s = some after) :
    after.length < s.length := by
  unfold afterEscape? at h
  split at h
  · rename_i rest
    have hdrop := (List.dropWhile_sublist (· ≠ 'm') (l := rest)).length_le
    cases hcut : rest.dropWhile (· ≠ 'm') with
    | nil =>
      rw [hcut] at h
      cases h
    | cons c tail =>
      rw [hcut] at h hdrop
      cases h
      simp only [List.length_cons] at hdrop ⊢
      omega
  · cases h

def withoutEscapes : List Char → List Char
  | [] => []
  | c :: rest =>
    match h : afterEscape? (c :: rest) with
    | some after =>
      have := length_afterEscape h
      withoutEscapes after
    | none => c :: withoutEscapes rest
termination_by s => s.length
decreasing_by
  · assumption
  · exact Nat.lt_succ_self _

variable {s : List Char}

/-- Text without the escape character stays as it is. -/
theorem withoutEscapes_append (h : '\x1b' ∉ s) (rest : List Char) :
    withoutEscapes (s ++ rest) = s ++ withoutEscapes rest := by
  induction s with
  | nil => rfl
  | cons c s ih =>
    rw [List.mem_cons, not_or] at h
    have hnone : afterEscape? (c :: (s ++ rest)) = none := by
      unfold afterEscape?
      split
      · rename_i heq
        exact absurd (List.cons_eq_cons.mp heq).1.symm h.1
      · rfl
    rw [List.cons_append, withoutEscapes]
    split
    · rename_i hsome
      rw [hnone] at hsome
      cases hsome
    · rw [ih h.2, List.cons_append]

/-- An escape sequence ends at its first letter m, of which its attributes have none. -/
theorem withoutEscapes_escape {attributes : List Char} (h : 'm' ∉ attributes) (rest : List Char) :
    withoutEscapes (escape attributes ++ rest) = withoutEscapes rest := by
  have hescape : escape attributes ++ rest = '\x1b' :: '[' :: (attributes ++ 'm' :: rest) := by
    simp [escape]
  have hdrop : (attributes ++ 'm' :: rest).dropWhile (· ≠ 'm') = 'm' :: rest := by
    rw [List.dropWhile_append_of_pos, List.dropWhile_cons_of_neg (by decide)]
    intro c hc
    exact decide_eq_true fun hm => h (hm ▸ hc)
  have hsome : afterEscape? ('\x1b' :: '[' :: (attributes ++ 'm' :: rest)) = some rest := by
    rw [afterEscape?, hdrop]
    rfl
  rw [hescape, withoutEscapes]
  split
  · rename_i hafter
    rw [hsome] at hafter
    cases hafter
    rfl
  · rename_i hafter
    rw [hsome] at hafter
    cases hafter

end RandomTables.Text
