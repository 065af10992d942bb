import RandomTables.Proofs.Program.Table

namespace RandomTables

def Misparse.remaining : Misparse → List Token
  | unexpected _ remaining => remaining
  | unknownFlag _ flag remaining => flag :: remaining.tail
  | noTables | badPayload _ | badSpan _ => []

namespace Grammar
variable {α β δ ε : Type} {tokens : List Token}

/-- A reader that fails does so too with other tokens from the one at fault on, if the first of them
is the same. -/
def FailsByOne (read : List Token → Except Misparse α) (tokens : List Token) : Prop :=
  ∀ m, read tokens = .error m → ∃ taken, tokens = taken ++ m.remaining ∧
    ∀ others, others.head? = m.remaining.head? → ∃ m', read (taken ++ others) = .error m'

/-- A reader decides by one token: it answers the same with other tokens after those it took, and
fails with other tokens from the one at fault on, if the first of them is the same. -/
structure DecidesByOne (read : List Token → Except Misparse (α × List Token))
    (tokens : List Token) : Prop where
  ok : ∀ a rest, read tokens = .ok (a, rest) → ∃ taken, tokens = taken ++ rest ∧
    ∀ others, others.head? = rest.head? → read (taken ++ others) = .ok (a, others)
  error : FailsByOne read tokens

theorem head_append_of_head (taken : List Token) {rest others : List Token}
    (h : others.head? = rest.head?) : (taken ++ others).head? = (taken ++ rest).head? := by
  rw [List.head?_append, List.head?_append, h]

theorem forall_head_nil (p : List Token → Prop) :
    (∀ others, others.head? = ([] : List Token).head? → p others) ↔ p [] := by
  simp

theorem forall_head_cons (t : Token) (tokens : List Token) (p : List Token → Prop) :
    (∀ others, others.head? = (t :: tokens).head? → p others) ↔ ∀ rest, p (t :: rest) := by
  simp only [List.head?_cons, List.head?_eq_some_iff]
  grind

section Contract
variable {read : List Token → Except Misparse (α × List Token)}

theorem failsByOne_of_remaining_nil {run : List Token → Except Misparse α}
    (h : ∀ m, run tokens = .error m → m.remaining = []) : FailsByOne run tokens := by
  intro m hm
  refine ⟨tokens, by rw [h m hm, List.append_nil], ?_⟩
  intro others hothers
  rw [h m hm] at hothers
  rw [List.head?_eq_none_iff.mp hothers, List.append_nil]
  exact ⟨m, hm⟩

/-- A reader that takes nothing looks at the first token alone. -/
theorem decidesByOne_of_leave {a : α}
    (h : ∀ others, others.head? = tokens.head? → read others = .ok (a, others)) :
    DecidesByOne read tokens := by
  have hread := h tokens rfl
  constructor
  · intro b rest hb
    rw [hread] at hb
    cases hb
    exact ⟨[], rfl, h⟩
  · intro m hm
    rw [hread] at hm
    cases hm

/-- A reader that looks at one token and takes none fails alike on whatever follows it. -/
theorem failsByOne_of_refuse {run : List Token → Except Misparse α} {m : List Token → Misparse}
    (h : ∀ others, others.head? = tokens.head? →
      run others = .error (m others) ∧ (m others).remaining = others) :
    FailsByOne run tokens := by
  obtain ⟨hrun, hremaining⟩ := h tokens rfl
  intro m' hm
  rw [hrun] at hm
  cases hm
  rw [hremaining]
  exact ⟨[], rfl, fun others hothers => ⟨_, (h others hothers).1⟩⟩

/-- A reader that refuses the first token looks at no other. -/
theorem decidesByOne_of_refuse {m : List Token → Misparse}
    (h : ∀ others, others.head? = tokens.head? →
      read others = .error (m others) ∧ (m others).remaining = others) :
    DecidesByOne read tokens := by
  refine ⟨?_, failsByOne_of_refuse h⟩
  intro a rest ha
  rw [(h tokens rfl).1] at ha
  cases ha

theorem decidesByOne_leave_nil {a : α} (h : read [] = .ok (a, [])) : DecidesByOne read [] :=
  decidesByOne_of_leave ((forall_head_nil _).mpr h)

/-- A reader may leave the token that it looked at. -/
theorem decidesByOne_leave_cons {t : Token} {a : α}
    (h : ∀ rest, read (t :: rest) = .ok (a, t :: rest)) : DecidesByOne read (t :: tokens) :=
  decidesByOne_of_leave ((forall_head_cons t tokens _).mpr h)

theorem decidesByOne_refuse_nil {m : Misparse} (h : read [] = .error m)
    (hremaining : m.remaining = []) : DecidesByOne read [] :=
  decidesByOne_of_refuse (m := fun _ => m) ((forall_head_nil _).mpr ⟨h, hremaining⟩)

theorem decidesByOne_refuse_cons {t : Token} {m : List Token → Misparse}
    (h : ∀ rest, read (t :: rest) = .error (m rest))
    (hremaining : ∀ rest, (m rest).remaining = t :: rest) : DecidesByOne read (t :: tokens) :=
  decidesByOne_of_refuse (m := fun others => m others.tail)
    ((forall_head_cons t tokens _).mpr fun rest => ⟨h rest, hremaining rest⟩)

/-- Tokens that are taken for sure come in front of the one at fault. -/
theorem failsByOne_append (before : List Token) {run : List Token → Except Misparse α}
    (h : FailsByOne (fun rest => run (before ++ rest)) tokens) :
    FailsByOne run (before ++ tokens) := by
  intro m hm
  obtain ⟨taken, htokens, hothers⟩ := h m hm
  refine ⟨before ++ taken, by rw [List.append_assoc, ← htokens], ?_⟩
  intro others hhead
  rw [List.append_assoc]
  exact hothers others hhead

/-- Tokens that a reader takes in any case. -/
theorem decidesByOne_append (before : List Token)
    (h : DecidesByOne (fun rest => read (before ++ rest)) tokens) :
    DecidesByOne read (before ++ tokens) := by
  refine ⟨?_, failsByOne_append before h.error⟩
  intro a rest ha
  obtain ⟨taken, htokens, hothers⟩ := h.ok a rest ha
  refine ⟨before ++ taken, by rw [List.append_assoc, ← htokens], ?_⟩
  intro others hhead
  rw [List.append_assoc]
  exact hothers others hhead

/-- What fails at its first link does not come to the others. -/
theorem failsByOne_bind_of_error {run : List Token → Except Misparse α}
    {f : α → Except Misparse β} {m : Misparse} (h : FailsByOne run tokens)
    (hrun : run tokens = .error m) : FailsByOne (fun rest => run rest >>= f) tokens := by
  obtain ⟨taken, htokens, hothers⟩ := h m hrun
  intro m' hm
  dsimp only at hm
  rw [hrun] at hm
  cases hm
  refine ⟨taken, htokens, ?_⟩
  intro others hhead
  obtain ⟨m', hm'⟩ := hothers others hhead
  refine ⟨m', ?_⟩
  dsimp only
  rw [hm']
  rfl

/-- The token after the first part is the one that the second part begins with. -/
theorem failsByOne_bind {f : α × List Token → Except Misparse β} (h : DecidesByOne read tokens)
    (hf : ∀ a rest, read tokens = .ok (a, rest) → FailsByOne (fun rest => f (a, rest)) rest) :
    FailsByOne (fun rest => read rest >>= f) tokens := by
  cases hread : read tokens with
  | error m => exact failsByOne_bind_of_error h.error hread
  | ok answer =>
    obtain ⟨a, rest⟩ := answer
    obtain ⟨taken, rfl, hread'⟩ := h.ok a rest hread
    intro m hm
    dsimp only at hm
    rw [hread] at hm
    obtain ⟨inner, rfl, hothers⟩ := hf a rest hread m hm
    -- The first link answers the same, as what it leaves begins with the same token either way.
    refine ⟨taken ++ inner, (List.append_assoc _ _ _).symm, ?_⟩
    intro others hhead
    obtain ⟨m', hm'⟩ := hothers others hhead
    refine ⟨m', ?_⟩
    dsimp only
    rw [List.append_assoc, hread' _ (head_append_of_head inner hhead)]
    exact hm'

/-- A fault that shows at the end only is the same whatever the reader went through. -/
theorem failsByOne_bind_of_remaining_nil {run : List Token → Except Misparse α}
    {f : α → Except Misparse β} (h : FailsByOne run tokens)
    (hf : ∀ a m, f a = .error m → m.remaining = []) :
    FailsByOne (fun rest => run rest >>= f) tokens := by
  cases hrun : run tokens with
  | error m => exact failsByOne_bind_of_error h hrun
  | ok a =>
    apply failsByOne_of_remaining_nil
    intro m hm
    rw [hrun] at hm
    exact hf a m hm

/-- A chain of readers decides by one token if each of its links does. -/
theorem decidesByOne_bind {f : α × List Token → Except Misparse (β × List Token)}
    (h : DecidesByOne read tokens)
    (hf : ∀ a rest, read tokens = .ok (a, rest) → DecidesByOne (fun rest => f (a, rest)) rest) :
    DecidesByOne (fun rest => read rest >>= f) tokens := by
  refine ⟨?_, failsByOne_bind h fun a rest hread => (hf a rest hread).error⟩
  intro b rest' hb
  obtain ⟨⟨a, rest⟩, hread, hrest⟩ := (bind_eq_ok_iff _ _ _).mp hb
  obtain ⟨taken, rfl, hread'⟩ := h.ok a rest hread
  obtain ⟨inner, rfl, hothers⟩ := (hf a rest hread).ok b rest' hrest
  refine ⟨taken ++ inner, (List.append_assoc _ _ _).symm, ?_⟩
  intro others hhead
  rw [List.append_assoc, hread' _ (head_append_of_head inner hhead)]
  exact hothers others hhead

theorem decidesByOne_pure (a : α) : DecidesByOne (fun rest => pure (a, rest)) tokens :=
  decidesByOne_of_leave fun _ _ => rfl

/-- A value or a place that is the same whatever tokens come after it. -/
theorem decidesByOne_of_fixed {x : Except ε δ} {fault : ε → Misparse}
    {f : δ → List Token → Except Misparse (α × List Token)}
    (hfault : ∀ e, (fault e).remaining = []) (h : ∀ d, DecidesByOne (f d) tokens) :
    DecidesByOne (fun rest => x.mapError fault >>= fun d => f d rest) tokens := by
  cases x with
  | ok d => exact h d
  | error e =>
    -- No token is at fault, so that all of them were taken and no others can follow.
    refine ⟨nofun, failsByOne_of_remaining_nil ?_⟩
    intro m hm
    cases hm
    exact hfault e

end Contract

theorem readKind_decidesByOne (kind : TokenKind) (expected : Expectation) (tokens : List Token) :
    DecidesByOne (readKind kind expected) tokens := by
  cases tokens with
  | nil => exact decidesByOne_refuse_nil rfl rfl
  | cons t tokens =>
    by_cases hkind : t.kind = kind
    · apply decidesByOne_append [t]
      apply decidesByOne_of_leave (a := t)
      intro others _
      exact if_pos hkind
    · have hread (rest : List Token) : readKind kind expected (t :: rest) =
          .error (.unexpected expected (t :: rest)) := if_neg hkind
      exact decidesByOne_refuse_cons hread fun _ => rfl

theorem readModifiers_decidesByOne (tokens : List Token) : DecidesByOne readModifiers tokens := by
  fun_induction readModifiers tokens with
  | case1 => exact decidesByOne_leave_nil (by rw [readModifiers])
  | case2 bar hbar =>
    apply decidesByOne_append [bar]
    apply decidesByOne_refuse_nil (m := .unexpected .modifier []) _ rfl
    exact if_pos hbar
  | case3 bar hbar word tokens hword ih =>
    apply decidesByOne_append [bar, word]
    simp only [List.cons_append, List.nil_append, readModifiers, if_pos hbar, if_pos hword]
    apply decidesByOne_bind ih
    intro modifiers _ _
    exact decidesByOne_pure (word.lexeme :: modifiers)
  | case4 bar hbar word tokens hword hid =>
    apply decidesByOne_append [bar]
    have hread (rest : List Token) : readModifiers (bar :: word :: rest) =
        .error (.unexpected .knownModifier (word :: rest)) := by
      simp only [readModifiers, if_pos hbar, if_neg hword, if_pos hid]
    exact decidesByOne_refuse_cons hread fun _ => rfl
  | case5 bar hbar word tokens hword hid =>
    apply decidesByOne_append [bar]
    have hread (rest : List Token) : readModifiers (bar :: word :: rest) =
        .error (.unexpected .modifier (word :: rest)) := by
      simp only [readModifiers, if_pos hbar, if_neg hword, if_neg hid]
    exact decidesByOne_refuse_cons hread fun _ => rfl
  | case6 bar tokens hbar =>
    apply decidesByOne_leave_cons
    intro rest
    rw [readModifiers.eq_def]
    exact if_neg hbar

theorem readTableReference_decidesByOne (tokens : List Token) :
    DecidesByOne readTableReference tokens := by
  apply decidesByOne_bind (readKind_decidesByOne _ _ _)
  intro id rest _
  exact decidesByOne_bind (readModifiers_decidesByOne _) fun _ _ _ => decidesByOne_pure _

theorem readExternalReference_decidesByOne (tokens : List Token) :
    DecidesByOne readExternalReference tokens := by
  iterate 5
    apply decidesByOne_bind (readKind_decidesByOne _ _ _)
    intro _ _ _
  exact decidesByOne_bind (readModifiers_decidesByOne _) fun _ _ _ => decidesByOne_pure _

/-- By the kind of the first token, with one case for each form of an expression. -/
theorem readBraced_decidesByOne (tokens : List Token) : DecidesByOne readBraced tokens := by
  fun_cases readBraced tokens with
  | case1 => exact decidesByOne_refuse_nil rfl rfl
  | case2 t rest hkind =>
    apply decidesByOne_append [t]
    simp only [List.cons_append, List.nil_append, readBraced, hkind]
    exact readTableReference_decidesByOne rest
  | case3 t rest hkind =>
    apply decidesByOne_append [t]
    simp only [List.cons_append, List.nil_append, readBraced, hkind]
    exact readExternalReference_decidesByOne rest
  | case4 t rest hkind =>
    apply decidesByOne_append [t]
    simp only [List.cons_append, List.nil_append, readBraced, hkind]
    exact decidesByOne_of_fixed (fun _ => rfl) fun _ => decidesByOne_pure _
  | case5 t rest =>
    have hread (rest : List Token) : readBraced (t :: rest) =
        .error (.unexpected .expression (t :: rest)) := by simp only [readBraced]
    exact decidesByOne_refuse_cons hread fun _ => rfl

theorem readExpression_decidesByOne (opening : Token) (tokens : List Token) :
    DecidesByOne (readExpression opening) tokens := by
  apply decidesByOne_bind (readBraced_decidesByOne _)
  intro item rest _
  apply decidesByOne_bind (readKind_decidesByOne _ _ _)
  intro closing rest _
  exact decidesByOne_of_fixed (fun _ => rfl) fun _ => decidesByOne_pure _

/-- By induction on the tokens: the token after a text or expression says whether there are more. -/
theorem readContent_decidesByOne (stop : Nat) (tokens : List Token) :
    DecidesByOne (readContent stop) tokens := by
  fun_induction readContent stop tokens with
  | case1 stop =>
    exact decidesByOne_leave_nil (by rw [readContent])
  | case2 stop t tokens hkind ih =>
    apply decidesByOne_append [t]
    simp only [List.cons_append, List.nil_append, readContent, hkind]
    apply decidesByOne_bind ih
    intro content _ _
    exact decidesByOne_pure (consText t.lexeme content.1, content.2)
  | case3 stop t tokens hkind m hm =>
    apply decidesByOne_append [t]
    simp only [List.cons_append, List.nil_append, readContent_leftBrace stop t _ hkind]
    apply decidesByOne_bind (readExpression_decidesByOne t tokens)
    intro e rest he
    rw [hm] at he
    cases he
  | case4 stop t tokens hkind e rest he _ ih =>
    apply decidesByOne_append [t]
    simp only [List.cons_append, List.nil_append, readContent_leftBrace stop t _ hkind]
    apply decidesByOne_bind (readExpression_decidesByOne t tokens)
    intro e' rest' he'
    rw [he] at he'
    cases he'
    dsimp only
    apply decidesByOne_bind ih
    intro content _ _
    exact decidesByOne_pure (e.value :: content.1, content.2)
  | case5 stop t tokens =>
    apply decidesByOne_leave_cons (a := ([], stop))
    intro rest
    simp only [readContent]

theorem readRule_decidesByOne (weight : Token) (tokens : List Token) :
    DecidesByOne (readRule weight) tokens := by
  apply decidesByOne_bind (readKind_decidesByOne _ _ _)
  intro colon rest _
  apply decidesByOne_bind (readContent_decidesByOne _ _)
  rintro ⟨items, stop⟩ rest _
  dsimp only
  -- Blank content is refused where it ends, before any token of what follows is taken.
  split
  · exact decidesByOne_of_refuse (m := .unexpected .ruleContent) fun _ _ => ⟨rfl, rfl⟩
  · exact decidesByOne_of_fixed (fun _ => rfl) fun _ =>
      decidesByOne_of_fixed (fun _ => rfl) fun _ => decidesByOne_pure _

theorem readFlags_decidesByOne (bracket : Token) (tokens : List Token) :
    DecidesByOne (readFlags bracket) tokens := by
  fun_induction readFlags bracket tokens with
  | case1 => exact decidesByOne_refuse_nil rfl rfl
  | case2 flag hflag =>
    apply decidesByOne_append [flag]
    apply decidesByOne_refuse_nil (m := .unexpected .flagEnd []) _ rfl
    simp only [List.append_nil, readFlags, hflag]
  | case3 flag hflag mark rest hmark ih =>
    apply decidesByOne_append [flag, mark]
    simp only [List.cons_append, List.nil_append, readFlags, hflag, if_pos hmark]
    exact ih
  | case4 flag hflag mark rest hcomma hmark =>
    apply decidesByOne_append [flag, mark]
    simp only [List.cons_append, List.nil_append, readFlags, hflag, if_neg hcomma, if_pos hmark]
    exact decidesByOne_pure _
  | case5 flag hflag mark rest hcomma hmark =>
    apply decidesByOne_append [flag]
    have hread (rest : List Token) : readFlags bracket (flag :: mark :: rest) =
        .error (.unexpected .flagEnd (mark :: rest)) := by
      simp only [readFlags, hflag, if_neg hcomma, if_neg hmark]
    exact decidesByOne_refuse_cons hread fun _ => rfl
  | case6 flag rest hflag =>
    have hread (rest : List Token) : readFlags bracket (flag :: rest) =
        .error (.unknownFlag bracket flag (flag :: rest)) := by
      rw [readFlags.eq_def]
      simp only [hflag]
    exact decidesByOne_refuse_cons hread fun _ => rfl
  | case7 flag rest =>
    have hread (rest : List Token) : readFlags bracket (flag :: rest) =
        .error (.unexpected .flag (flag :: rest)) := by
      rw [readFlags.eq_def]
      simp only
    exact decidesByOne_refuse_cons hread fun _ => rfl

theorem readHeaderEnd_decidesByOne (name : Token) (tokens : List Token) :
    DecidesByOne (readHeaderEnd name) tokens := by
  cases tokens with
  | nil => exact decidesByOne_leave_nil (by rw [readHeaderEnd])
  | cons t tokens =>
    by_cases hkind : t.kind = .leftBracket
    · apply decidesByOne_append [t]
      simp only [List.cons_append, List.nil_append, readHeaderEnd, if_pos hkind]
      apply decidesByOne_bind (readFlags_decidesByOne _ _)
      intro stop _ _
      exact decidesByOne_pure (true, stop)
    · apply decidesByOne_leave_cons
      intro rest
      exact if_neg hkind

/-- By induction on the tokens: line ends, rules and the hash of the next table are told by their
first token. -/
theorem readRules_decidesByOne (stop : Nat) (tokens : List Token) :
    DecidesByOne (readRules stop) tokens := by
  fun_induction readRules stop tokens with
  | case1 stop =>
    exact decidesByOne_leave_nil (by rw [readRules])
  | case2 stop t tokens hkind ih =>
    apply decidesByOne_append [t]
    simp only [List.cons_append, List.nil_append, readRules, hkind]
    exact ih
  | case3 stop t tokens hkind m hm =>
    apply decidesByOne_append [t]
    simp only [List.cons_append, List.nil_append, readRules_number stop t _ hkind]
    apply decidesByOne_bind (readRule_decidesByOne t tokens)
    intro r rest hr
    rw [hm] at hr
    cases hr
  | case4 stop t tokens hkind r rest hr _ ih =>
    apply decidesByOne_append [t]
    simp only [List.cons_append, List.nil_append, readRules_number stop t _ hkind]
    apply decidesByOne_bind (readRule_decidesByOne t tokens)
    intro r' rest' hr'
    rw [hr] at hr'
    cases hr'
    dsimp only
    apply decidesByOne_bind ih
    intro rules _ _
    exact decidesByOne_pure (r :: rules.1, rules.2)
  | case5 stop t tokens hkind =>
    apply decidesByOne_leave_cons (a := ([], stop))
    intro rest
    simp only [readRules, hkind]
  | case6 stop t tokens =>
    have hread (rest : List Token) : readRules stop (t :: rest) =
        .error (.unexpected .rule (t :: rest)) := by simp only [readRules]
    exact decidesByOne_refuse_cons hread fun _ => rfl

/-- The look for a line end takes nothing, so that what comes after it begins at the same token. -/
theorem decidesByOne_checkLineEnd {read : List Token → Except Misparse (α × List Token)}
    (h : DecidesByOne read tokens) :
    DecidesByOne (fun rest => checkLineEnd rest >>= fun _ => read rest) tokens := by
  have hchain : (fun rest => checkLineEnd rest >>= fun _ => read rest) = fun rest =>
      (checkLineEnd rest >>= fun u => pure (u, rest)) >>= fun (_, rest) => read rest := by
    funext rest
    cases checkLineEnd rest <;> rfl
  have hline : DecidesByOne (fun rest => checkLineEnd rest >>= fun u => pure (u, rest)) tokens := by
    cases tokens with
    | nil => exact decidesByOne_leave_nil rfl
    | cons t tokens =>
      by_cases hkind : t.kind = .newline
      · apply decidesByOne_leave_cons
        intro rest
        rw [checkLineEnd, if_pos hkind]
        rfl
      · have hread (rest : List Token) : (checkLineEnd (t :: rest) >>= fun u =>
            pure (u, t :: rest)) = .error (.unexpected .lineEnd (t :: rest)) := by
          rw [checkLineEnd, if_neg hkind]
          rfl
        exact decidesByOne_refuse_cons hread fun _ => rfl
  rw [hchain]
  apply decidesByOne_bind hline
  intro u rest hrest
  obtain ⟨_, _, hret⟩ := (bind_eq_ok_iff _ _ _).mp hrest
  cases rest_eq_of_pure hret
  exact h

theorem readTable_decidesByOne (hash : Token) (tokens : List Token) :
    DecidesByOne (readTable hash) tokens := by
  apply decidesByOne_bind (readKind_decidesByOne _ _ _)
  intro name rest _
  apply decidesByOne_bind (readHeaderEnd_decidesByOne _ _)
  rintro ⟨exported, stop⟩ rest _
  apply decidesByOne_checkLineEnd
  apply decidesByOne_bind (readRules_decidesByOne _ _)
  intro rules rest _
  exact decidesByOne_of_fixed (fun _ => rfl) fun _ => decidesByOne_pure _

/-- Reading tables comes to its end with the tokens, or fails. -/
theorem readTables_failsByOne (tokens : List Token) : FailsByOne readTables tokens := by
  fun_induction readTables tokens with
  | case1 =>
    intro m hm
    rw [readTables] at hm
    cases hm
  | case2 t tokens hkind ih =>
    apply failsByOne_append [t]
    simp only [List.cons_append, List.nil_append, readTables, hkind]
    exact ih
  | case3 t tokens hkind m hm =>
    apply failsByOne_append [t]
    simp only [List.cons_append, List.nil_append, readTables_hash t _ hkind]
    apply failsByOne_bind (readTable_decidesByOne t tokens)
    intro table rest htable
    rw [hm] at htable
    cases htable
  | case4 t tokens hkind table rest htable _ ih =>
    apply failsByOne_append [t]
    simp only [List.cons_append, List.nil_append, readTables_hash t _ hkind]
    apply failsByOne_bind (readTable_decidesByOne t tokens)
    intro table' rest' htable'
    rw [htable] at htable'
    cases htable'
    dsimp only
    apply failsByOne_bind_of_remaining_nil ih
    intro tables m hm
    cases hm
  | case5 t tokens =>
    apply failsByOne_of_refuse (m := .unexpected .tableDeclaration)
    rw [forall_head_cons]
    intro rest
    simp only [readTables]
    exact ⟨trivial, rfl⟩

/-- Tokens that make no program make none either with others from the one at fault on, if the first
of them is the same. -/
theorem readProgram_failsByOne (tokens : List Token) : FailsByOne readProgram tokens := by
  apply failsByOne_bind_of_remaining_nil (readTables_failsByOne tokens)
  intro tables m hm
  split at hm
  · cases hm
    rfl
  · cases hm

end Grammar

end RandomTables
