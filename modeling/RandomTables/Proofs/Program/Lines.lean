import RandomTables.Program.Reader.Table
import RandomTables.Proofs.Program.Rule

namespace RandomTables.Grammar

def rulesStop (offset : Nat) (rules : List (Located Rule)) : Nat :=
  (rules.getLast?.map (·.span.stop)).getD offset

@[simp] theorem rulesStop_cons (offset : Nat) (r : Located Rule) (rules : List (Located Rule)) :
    rulesStop offset (r :: rules) = rulesStop r.span.stop rules := by
  rw [rulesStop, rulesStop, List.getLast?_cons, Option.map_some, Option.getD_some, Option.getD_map]

theorem isRule_cons (tokens : List Token) (r : Located Rule) (h : IsRule tokens r) :
    ∃ weight taken, tokens = weight :: taken ∧ weight.kind = .number := by
  cases h with
  | mk hweight => exact ⟨_, _, rfl, hweight⟩

theorem lines_head (tokens : List Token) (rules : List (Located Rule)) (h : Lines tokens rules) :
    HeadIn [.newline, .number] tokens := by
  cases h with
  | nil => simp
  | lineEnd ht => simp [ht]
  | rule hfirst =>
    obtain ⟨weight, taken, rfl, hweight⟩ := isRule_cons _ _ hfirst
    simp [hweight]

theorem lines_nil (rules : List (Located Rule)) (h : Lines [] rules) : rules = [] := by
  generalize htokens : ([] : List Token) = tokens at h
  cases h with
  | nil => rfl
  | lineEnd => cases htokens
  | rule hfirst =>
    obtain ⟨weight, taken, rfl, -⟩ := isRule_cons _ _ hfirst
    cases htokens

/-- A line end can be taken off the front. -/
theorem lines_of_lineEnd (t : Token) (tokens : List Token) (rules : List (Located Rule))
    (ht : t.kind = .newline) (h : Lines (t :: tokens) rules) : Lines tokens rules := by
  generalize hall : t :: tokens = all at h
  cases h with
  | nil => cases hall
  | lineEnd _ h =>
    cases hall
    exact h
  | rule hfirst =>
    obtain ⟨weight, taken, rfl, hweight⟩ := isRule_cons _ _ hfirst
    cases hall
    rw [ht] at hweight
    cases hweight

/-- Every rule begins at one of the tokens that it was read from. -/
theorem rules_after (tokens : List Token) (rules : List (Located Rule)) (h : Lines tokens rules)
    (horder : InOrder tokens) (offset : Nat) (hoffset : ∀ t ∈ tokens, offset ≤ t.span.start) :
    ∀ r ∈ rules, offset ≤ r.span.start := by
  induction h with
  | nil => exact nofun
  | lineEnd _ _ ih =>
    exact ih (List.pairwise_cons.mp horder).2 fun t ht => hoffset t (List.mem_cons_of_mem _ ht)
  | @rule first tokens rule rules hfirst _ ih =>
    obtain ⟨hfirst', htail, -⟩ := List.pairwise_append.mp horder
    intro r hr
    rcases List.mem_cons.mp hr with rfl | hr
    · cases hfirst with
      | mk =>
        rw [extent_start _ _ hfirst']
        exact hoffset _ (by simp)
    · exact ih htail (fun t ht => hoffset t (List.mem_append_right _ ht)) r hr

/-- By induction on the tokens: each line end or rule is a line of what was taken. -/
theorem readRules_sound (stop stop' : Nat) (tokens rest : List Token)
    (rules : List (Located Rule)) (hsound : Sound tokens)
    (h : readRules stop tokens = .ok ((rules, stop'), rest)) :
    ∃ taken, tokens = taken ++ rest ∧ Lines taken rules ∧ stop' = rulesStop stop rules ∧
      HeadIn [.hash] rest := by
  fun_induction readRules stop tokens generalizing rules stop' rest with
  | case1 =>
    cases h
    exact ⟨[], rfl, .nil, rfl, headIn_nil _⟩
  | case2 stop t tokens ht ih =>
    obtain ⟨taken, rfl, htaken, hstop, hrest⟩ := ih _ _ _ (sound_of_cons _ _ hsound) h
    exact ⟨t :: taken, rfl, .lineEnd ht htaken, hstop, hrest⟩
  | case3 => cases h
  | case4 stop t tokens ht r tokens' hr hlt ih =>
    simp only [bind_eq_ok_iff, pure_eq_ok_iff, Prod.exists, Prod.mk.injEq] at h
    obtain ⟨rules', stop', after, htail, ⟨rfl, rfl⟩, rfl⟩ := h
    obtain ⟨first, rfl, hfirst⟩ := readRule_sound _ _ _ _ ht hsound hr
    have hsound' := (sound_of_append (t :: first) tokens' hsound).2
    obtain ⟨taken, rfl, htaken, hstop, hrest⟩ := ih _ _ _ hsound' htail
    refine ⟨t :: first ++ taken, by simp, .rule hfirst htaken, ?_, hrest⟩
    rw [hstop, rulesStop_cons]
  | case5 stop t tokens ht =>
    cases h
    exact ⟨[], rfl, .nil, rfl, by simp [ht]⟩
  | case6 => cases h

/-- Rules that begin with a weight, as a chain of readers. -/
theorem readRules_number (stop : Nat) (t : Token) (tokens : List Token) (ht : t.kind = .number) :
    readRules stop (t :: tokens) = readRule t tokens >>= fun (r, rest) =>
      readRules r.span.stop rest >>= fun ((rules, stop'), after) =>
        pure ((r :: rules, stop'), after) := by
  rw [readRules.eq_def]
  simp only [ht]
  split
  all_goals
    rename_i h
    rw [h]
    rfl

/-- By the lines of the derivation: a line end is passed over and a rule is read. -/
theorem readRules_complete (stop : Nat) (taken rest : List Token) (rules : List (Located Rule))
    (h : Lines taken rules) (hsound : Sound taken) (hrest : HeadIn [.hash] rest) :
    readRules stop (taken ++ rest) = .ok ((rules, rulesStop stop rules), rest) := by
  induction h generalizing stop with
  | nil =>
    cases rest with
    | nil =>
      rw [List.nil_append, readRules]
      rfl
    | cons t rest =>
      rw [headIn_cons, List.mem_singleton] at hrest
      rw [List.nil_append, readRules.eq_def]
      simp only [hrest]
      rfl
  | lineEnd ht _ ih =>
    rw [List.cons_append, readRules.eq_def]
    simp only [ht]
    exact ih stop (sound_of_cons _ _ hsound)
  | @rule first tokens r rules hfirst htail ih =>
    obtain ⟨weight, taken, rfl, hweight⟩ := isRule_cons first r hfirst
    obtain ⟨hsound, hsound'⟩ := sound_of_append _ _ hsound
    -- The content of a rule goes on as far as it can, and no line or table begins with content.
    have hafter : HeadNot [.text, .leftBrace] (tokens ++ rest) :=
      headNot_append _ _ _ (headNot_of_headIn _ _ _ (lines_head _ _ htail) (by decide))
        (headNot_of_headIn _ _ _ hrest (by decide))
    have hr := readRule_complete weight taken (tokens ++ rest) r hfirst hsound hafter
    rw [List.cons_append, List.cons_append, List.append_assoc, readRules_number _ _ _ hweight,
      bind_eq_ok_iff]
    refine ⟨_, hr, (bind_eq_ok_iff _ _ _).mpr ⟨_, ih r.span.stop hsound', ?_⟩⟩
    rw [rulesStop_cons]
    rfl

end RandomTables.Grammar
