import Mathlib.Data.List.Chain
import RandomTables.Token

namespace RandomTables

def stopAfter (offset : Nat) (tokens : List Token) : Nat :=
  (tokens.getLast?.map (·.span.stop)).getD offset

def extent : List Token → Span
  | [] => .empty 0
  | first :: rest => first.span.cover (rest.getLastD first).span

def InOrder (tokens : List Token) : Prop :=
  tokens.Pairwise fun t u => t.span.stop ≤ u.span.start

@[simp] theorem stopAfter_nil (offset : Nat) : stopAfter offset [] = offset := rfl

@[simp] theorem stopAfter_cons (offset : Nat) (t : Token) (tokens : List Token) :
    stopAfter offset (t :: tokens) = stopAfter t.span.stop tokens := by
  rw [stopAfter, stopAfter, List.getLast?_cons, Option.map_some, Option.getD_some, Option.getD_map]

theorem stopAfter_append (offset : Nat) (before after : List Token) :
    stopAfter offset (before ++ after) = stopAfter (stopAfter offset before) after := by
  induction before generalizing offset with
  | nil => rfl
  | cons t before ih => rw [List.cons_append, stopAfter_cons, stopAfter_cons, ih]

/-- The last token is the one that ends last in the list. -/
theorem stopAfter_eq_last (t : Token) (tokens : List Token) :
    stopAfter t.span.stop tokens = (tokens.getLastD t).span.stop := by
  rw [stopAfter, List.getLastD_eq_getLast?, Option.getD_map]

/-- Where the tokens end, one of them does. -/
theorem exists_stopAfter (t : Token) (tokens : List Token) :
    ∃ last ∈ t :: tokens, stopAfter t.span.stop tokens = last.span.stop :=
  ⟨tokens.getLastD t, List.getLastD_mem_cons, stopAfter_eq_last t tokens⟩

/-- What is true of the last of each of two lists is true of the last of both. -/
theorem forall_last_append {P : Token → Prop} {before after : List Token}
    (hbefore : ∀ t ∈ before.getLast?, P t) (hafter : ∀ t ∈ after.getLast?, P t) :
    ∀ t ∈ (before ++ after).getLast?, P t := by
  intro t ht
  rw [List.getLast?_append, Option.mem_def, Option.or_eq_some_iff] at ht
  rcases ht with ht | ⟨-, ht⟩
  · exact hafter t ht
  · exact hbefore t ht

theorem stop_le_stopAfter (offset : Nat) (tokens : List Token) (h : InOrder tokens) :
    ∀ t ∈ tokens, t.span.stop ≤ stopAfter offset tokens := by
  intro t ht
  rcases tokens.eq_nil_or_concat with rfl | ⟨before, last, rfl⟩
  · cases ht
  · rw [List.concat_eq_append] at h ht ⊢
    rw [stopAfter_append, stopAfter_cons, stopAfter_nil]
    rcases List.mem_append.mp ht with ht | ht
    · have hlast := (List.pairwise_append.mp h).2.2 t ht last (List.mem_singleton_self last)
      have := last.span.start_le_stop
      omega
    · exact Nat.le_of_eq (congrArg (·.span.stop) (List.mem_singleton.mp ht))

/-- It is enough to compare each token with the next, since no span ends before its start. -/
theorem inOrder_of_isChain (tokens : List Token)
    (h : tokens.IsChain fun t u => t.span.stop ≤ u.span.start) : InOrder tokens := by
  have : Trans (fun t u : Token => t.span.stop ≤ u.span.start)
      (fun t u : Token => t.span.stop ≤ u.span.start)
      (fun t u : Token => t.span.stop ≤ u.span.start) := by
    constructor
    intro t u v htu huv
    have := u.span.start_le_stop
    omega
  exact List.isChain_iff_pairwise.mp h

/-- In order, no token begins behind the last or ends behind it. -/
theorem last_of_inOrder (t : Token) (tokens : List Token) (h : InOrder (t :: tokens)) :
    t.span.start ≤ (tokens.getLastD t).span.start ∧
      t.span.stop ≤ (tokens.getLastD t).span.stop := by
  have hstart := t.span.start_le_stop
  have hlast := (tokens.getLastD t).span.start_le_stop
  rcases tokens.eq_nil_or_concat with rfl | ⟨before, last, rfl⟩
  · exact ⟨Nat.le_refl _, Nat.le_refl _⟩
  · have hmem : last ∈ before.concat last := by simp
    have := List.rel_of_pairwise_cons h hmem
    simp only [List.concat_eq_append, List.getLastD_concat] at hlast ⊢
    omega

theorem extent_start (t : Token) (tokens : List Token) (h : InOrder (t :: tokens)) :
    (extent (t :: tokens)).start = t.span.start :=
  Nat.min_eq_left (last_of_inOrder t tokens h).1

theorem extent_stop (t : Token) (tokens : List Token) (h : InOrder (t :: tokens)) :
    (extent (t :: tokens)).stop = stopAfter t.span.stop tokens := by
  rw [stopAfter_eq_last]
  exact Nat.max_eq_right (last_of_inOrder t tokens h).2

end RandomTables
