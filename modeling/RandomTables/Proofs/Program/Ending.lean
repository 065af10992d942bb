import RandomTables.Proofs.Program.Cursor
import RandomTables.Proofs.Program.Table

namespace RandomTables

structure EndedTokens where
  source : List Char
  before : List Token
  ending : Token
  after : List Token
  kind_before : ∀ t ∈ before, t.kind ≠ .endOfInput
  kind_ending : ending.kind = .endOfInput

namespace EndedTokens

def tokens (s : EndedTokens) : List Token :=
  s.before ++ s.ending :: s.after

def table (s : EndedTokens) : LineTable :=
  .ofSource s.source

def ahead (s : EndedTokens) (position : Nat) : List Token :=
  s.before.drop position

/-- What is read from a position on is what is read from the list of the tokens ahead, and the
position afterwards is that of the tokens that are left. -/
inductive Agrees (s : EndedTokens) {α : Type} :
    ExceptT Stop Option (α × Nat) → Except Misparse (α × List Token) → Prop
  | read {a : α} {position : Nat} (h : position ≤ s.before.length) :
    Agrees s (pure (a, position)) (.ok (a, s.ahead position))
  | failed (m : Misparse) :
    Agrees s (throw (.failed (m.failure s.table s.ending))) (.error m)

section Links
variable {s : EndedTokens} {α β : Type} {position : Nat}

/-- Readings agree one after the other. -/
theorem agrees_bind {c : Cursor α} {f : α → Cursor β} {r : Except Misparse (α × List Token)}
    {g : α × List Token → Except Misparse (β × List Token)} (hc : s.Agrees (c.run position) r)
    (hf : ∀ a position', position' ≤ s.before.length →
      s.Agrees ((f a).run position') (g (a, s.ahead position'))) :
    s.Agrees ((c >>= f).run position) (r >>= g) := by
  rw [StateT.run_bind]
  generalize c.run position = outcome at hc
  cases hc with
  | read h =>
    rw [pure_bind]
    exact hf _ _ h
  | failed m => exact .failed m

theorem exists_of_agrees_ok {x : ExceptT Stop Option (α × Nat)} {a : α} {rest : List Token}
    (h : s.Agrees x (.ok (a, rest))) : ∃ position, position ≤ s.before.length ∧
      s.ahead position = rest ∧ x = pure (a, position) := by
  cases h with
  | read hposition => exact ⟨_, hposition, rfl, rfl⟩

theorem eq_of_agrees_error {x : ExceptT Stop Option (α × Nat)} {m : Misparse}
    (h : s.Agrees x (.error m)) : x = throw (.failed (m.failure s.table s.ending)) := by
  cases h with
  | failed => rfl

theorem agrees_ofPayload {f : α → Cursor β} {g : α → Except Misparse (β × List Token)}
    (x : Except PayloadFault α) (hf : ∀ a, s.Agrees ((f a).run position) (g a)) :
    s.Agrees ((Cursor.ofPayload x >>= f).run position) (x.mapError .badPayload >>= g) := by
  cases x with
  | ok a => exact hf a
  | error fault => exact .failed (.badPayload fault)

theorem agrees_spanTo {f : Span → Cursor β} {g : Span → Except Misparse (β × List Token)}
    (first : Token) (stop : Nat) (hf : ∀ span, s.Agrees ((f span).run position) (g span)) :
    s.Agrees ((Cursor.spanTo first stop >>= f).run position)
      (RandomTables.spanTo first stop >>= g) := by
  rw [Cursor.spanTo, RandomTables.spanTo]
  cases Span.ofOffsets first.span.start stop with
  | ok span => exact hf span
  | error fault => exact .failed (.badSpan fault)

end Links

section Steps
variable {tokens : List Token} {t : Token} {position : Nat} {kind : TokenKind} {α : Type}

theorem run_current (h : tokens[position]? = some t) :
    (Cursor.current tokens).run position = pure (t, position) := by
  rw [Cursor.current, StateT.run_bind, StateT.run_get, pure_bind]
  dsimp only
  rw [h]
  rfl

theorem run_current_bind (h : tokens[position]? = some t) (f : Token → Cursor α) :
    (Cursor.current tokens >>= f).run position = (f t).run position := by
  rw [StateT.run_bind, run_current h, pure_bind]

theorem run_advance (h : tokens[position]? = some t) (hkind : t.kind ≠ .endOfInput) :
    (Cursor.advance tokens).run position = pure (t, position + 1) := by
  rw [Cursor.advance, run_current_bind h, if_neg hkind]
  rfl

theorem run_advance_bind (h : tokens[position]? = some t) (hkind : t.kind ≠ .endOfInput)
    (f : Token → Cursor α) :
    (Cursor.advance tokens >>= f).run position = (f t).run (position + 1) := by
  rw [StateT.run_bind, run_advance h hkind, pure_bind]

theorem run_eat_bind (h : tokens[position]? = some t) (hkind : t.kind = kind)
    (hend : t.kind ≠ .endOfInput) (f : Bool → Cursor α) :
    (Cursor.eat tokens kind >>= f).run position = (f true).run (position + 1) := by
  rw [Cursor.eat, bind_assoc, run_current_bind h, if_pos hkind, bind_assoc, run_advance_bind h hend]
  rfl

theorem run_eat_of_ne_bind (h : tokens[position]? = some t) (hkind : t.kind ≠ kind)
    (f : Bool → Cursor α) :
    (Cursor.eat tokens kind >>= f).run position = (f false).run position := by
  rw [Cursor.eat, bind_assoc, run_current_bind h, if_neg hkind]
  rfl

end Steps

section Parts
variable {s : EndedTokens} {α : Type} {position : Nat} {t : Token} {rest : List Token}

/-- The position of a token ahead. -/
theorem at_token (h : s.ahead position = t :: rest) : position + 1 ≤ s.before.length ∧
    s.ahead (position + 1) = rest ∧ t.kind ≠ .endOfInput ∧ s.tokens[position]? = some t := by
  have hlt : position < s.before.length := Nat.lt_of_not_le fun hle => by
    rw [ahead, List.drop_eq_nil_of_le hle] at h
    cases h
  rw [ahead, List.drop_eq_getElem_cons hlt] at h
  obtain ⟨rfl, rfl⟩ := List.cons_eq_cons.mp h
  refine ⟨hlt, rfl, s.kind_before _ (List.getElem_mem hlt), ?_⟩
  rw [tokens, List.getElem?_append_left hlt, List.getElem?_eq_getElem hlt]

/-- The position of the first end of input. -/
theorem at_end (hposition : position ≤ s.before.length) (h : s.ahead position = []) :
    s.tokens[position]? = some s.ending := by
  have hlast : position = s.before.length :=
    Nat.le_antisymm hposition (List.drop_eq_nil_iff.mp h)
  rw [tokens, hlast, List.getElem?_append_right (Nat.le_refl _), Nat.sub_self]
  rfl

/-- There is a round for every token ahead and one for the end of input, in a loop that has more
rounds than there are tokens before that. -/
theorem length_ahead_lt {limit : Nat} (hlimit : s.before.length < limit) (position : Nat) :
    (s.ahead position).length < limit := by
  rw [ahead, List.length_drop]
  omega

/-- A loop with more rounds than it needs to go on can begin one of them. -/
theorem exists_round {needed rounds : Nat} (h : needed < rounds) :
    ∃ fewer, rounds = fewer + 1 ∧ needed ≤ fewer :=
  ⟨rounds - 1, by omega, by omega⟩

/-- Both reports point at the same token. -/
theorem agrees_unexpected (hposition : position ≤ s.before.length) (expected : Expectation) :
    s.Agrees ((Cursor.unexpected s.tokens s.table expected : Cursor α).run position)
      (.error (.unexpected expected (s.ahead position))) := by
  rw [Cursor.unexpected]
  cases h : s.ahead position with
  | nil =>
    rw [run_current_bind (at_end hposition h), if_pos s.kind_ending]
    exact .failed (.unexpected expected [])
  | cons t rest =>
    obtain ⟨-, -, hkind, hcurrent⟩ := at_token h
    rw [run_current_bind hcurrent, if_neg hkind]
    exact .failed (.unexpected expected (t :: rest))

/-- A token of the kind is ahead, or the end of input is no such token. -/
theorem agrees_expect (hposition : position ≤ s.before.length) {kind : TokenKind}
    (hkind : kind ≠ .endOfInput) (expected : Expectation) :
    s.Agrees ((Cursor.expect s.tokens s.table kind expected).run position)
      (readKind kind expected (s.ahead position)) := by
  have hunexpected := agrees_unexpected (α := Token) hposition expected
  rw [Cursor.expect]
  cases h : s.ahead position with
  | nil =>
    rw [run_current_bind (at_end hposition h),
      if_neg fun heq => hkind (heq.symm.trans s.kind_ending)]
    rwa [h] at hunexpected
  | cons t rest =>
    obtain ⟨hnext, rfl, hend, hcurrent⟩ := at_token h
    rw [run_current_bind hcurrent, readKind]
    split
    · rw [run_advance hcurrent hend]
      exact .read hnext
    · rwa [h] at hunexpected

/-- A bar that is read moves the position on, so the list of modifiers comes to an end. -/
theorem agrees_modifiers (hposition : position ≤ s.before.length) {rounds : Nat}
    (hbound : (s.ahead position).length < rounds) :
    s.Agrees ((Cursor.modifiers s.tokens s.table rounds).run position)
      (readModifiers (s.ahead position)) := by
  -- The induction is along the tokens ahead: with each of them a round is spent.
  obtain ⟨rounds, rfl, hrounds⟩ := exists_round hbound
  clear hbound
  generalize h : s.ahead position = ahead at hrounds ⊢
  fun_induction readModifiers ahead generalizing position rounds with
  | case1 =>
    have hcurrent := at_end hposition h
    rw [Cursor.modifiers, run_eat_of_ne_bind hcurrent (by rw [s.kind_ending]; decide), ← h]
    exact .read hposition
  | case2 bar hbar =>
    obtain ⟨hnext, hahead, hend, hcurrent⟩ := at_token h
    have hlast := at_end hnext hahead
    have hunexpected := agrees_unexpected (α := List String) hnext .modifier
    rw [hahead] at hunexpected
    rw [Cursor.modifiers, run_eat_bind hcurrent hbar hend, if_pos rfl, run_current_bind hlast,
      if_neg (by rw [s.kind_ending]; decide), if_neg (by rw [s.kind_ending]; decide)]
    exact hunexpected
  | case3 bar hbar word rest hword ih =>
    obtain ⟨hnext, hahead, hend, hcurrent⟩ := at_token h
    obtain ⟨hnext', hahead', hend', hcurrent'⟩ := at_token hahead
    obtain ⟨rounds, rfl, hfewer⟩ := exists_round hrounds
    rw [Cursor.modifiers, run_eat_bind hcurrent hbar hend, if_pos rfl, run_current_bind hcurrent',
      if_neg (by rw [hword]; decide), if_pos hword, run_advance_bind hcurrent' hend']
    exact agrees_bind (ih hnext' _ hahead' (Nat.le_of_succ_le hfewer)) fun _ _ hleft => .read hleft
  | case4 bar hbar word rest hword hkind =>
    obtain ⟨hnext, hahead, hend, hcurrent⟩ := at_token h
    obtain ⟨-, -, -, hcurrent'⟩ := at_token hahead
    rw [Cursor.modifiers, run_eat_bind hcurrent hbar hend, if_pos rfl, run_current_bind hcurrent',
      if_pos hkind, ← hahead]
    exact agrees_unexpected hnext .knownModifier
  | case5 bar hbar word rest hword hkind =>
    obtain ⟨hnext, hahead, hend, hcurrent⟩ := at_token h
    obtain ⟨-, -, -, hcurrent'⟩ := at_token hahead
    rw [Cursor.modifiers, run_eat_bind hcurrent hbar hend, if_pos rfl, run_current_bind hcurrent',
      if_neg hkind, if_neg hword, ← hahead]
    exact agrees_unexpected hnext .modifier
  | case6 bar rest hbar =>
    obtain ⟨-, -, -, hcurrent⟩ := at_token h
    rw [Cursor.modifiers, run_eat_of_ne_bind hcurrent hbar, ← h]
    exact .read hposition

/-- The report of an unknown flag looks no further than the first end of input. -/
theorem agrees_unknownFlag (hposition : position ≤ s.before.length) (bracket flag : Token) :
    s.Agrees ((Cursor.unknownFlag s.tokens s.table bracket flag : Cursor α).run position)
      (.error (.unknownFlag bracket flag (s.ahead position))) := by
  have hahead : (s.tokens.drop position).takeWhile (·.kind ≠ .endOfInput) = s.ahead position := by
    rw [tokens, List.drop_append_of_le_length hposition, List.takeWhile_append_of_pos,
      List.takeWhile_cons_of_neg (by simp [s.kind_ending]), List.append_nil, ahead]
    exact fun t ht => decide_eq_true (s.kind_before t (List.mem_of_mem_drop ht))
  have hrun : (Cursor.unknownFlag s.tokens s.table bracket flag : Cursor α).run position =
      throw (.failed ((Misparse.unknownFlag bracket flag
        ((s.tokens.drop position).takeWhile (·.kind ≠ .endOfInput))).failure s.table flag)) := rfl
  rw [hrun, hahead]
  exact .failed (.unknownFlag bracket flag (s.ahead position))

/-- Where no comma follows a flag, the closing bracket does. -/
theorem agrees_flagEnd (bracket : Token) {next : Token} (h : s.ahead position = t :: rest)
    (hkind : t.kind = .exportWord) (hnext : s.tokens[position + 1]? = some next)
    (hcomma : next.kind ≠ .comma) (rounds : Nat) :
    s.Agrees ((Cursor.flags s.tokens s.table bracket (rounds + 1)).run position)
      (readKind .rightBracket .flagEnd rest >>= fun (closing, rest) =>
        .ok (closing.span.stop, rest)) := by
  obtain ⟨hposition, rfl, hend, hcurrent⟩ := at_token h
  rw [Cursor.flags, run_current_bind hcurrent, hkind]
  dsimp only
  rw [run_advance_bind hcurrent hend, run_eat_of_ne_bind hnext hcomma, if_neg Bool.false_ne_true]
  exact agrees_bind (agrees_expect hposition (by decide) .flagEnd) fun _ _ hclosing =>
    .read hclosing

/-- A flag that is read moves the position on, so the flags come to an end. -/
theorem agrees_flags (bracket : Token) (hposition : position ≤ s.before.length) {rounds : Nat}
    (hbound : (s.ahead position).length < rounds) :
    s.Agrees ((Cursor.flags s.tokens s.table bracket rounds).run position)
      (readFlags bracket (s.ahead position)) := by
  obtain ⟨rounds, rfl, hrounds⟩ := exists_round hbound
  clear hbound
  generalize h : s.ahead position = ahead at hrounds ⊢
  fun_induction readFlags bracket ahead generalizing position rounds with
  | case1 =>
    rw [Cursor.flags, run_current_bind (at_end hposition h), s.kind_ending, ← h]
    exact agrees_unexpected hposition .flag
  | case2 flag hkind =>
    obtain ⟨hnext, hahead, -, -⟩ := at_token h
    exact agrees_flagEnd bracket h hkind (at_end hnext hahead) (by rw [s.kind_ending]; decide) _
  | case3 flag hkind mark rest hmark ih =>
    obtain ⟨-, hahead, hend, hcurrent⟩ := at_token h
    obtain ⟨hnext', hahead', hend', hcurrent'⟩ := at_token hahead
    rw [Cursor.flags, run_current_bind hcurrent, hkind]
    dsimp only
    rw [run_advance_bind hcurrent hend, run_eat_bind hcurrent' hmark hend', if_pos rfl]
    obtain ⟨rounds, rfl, hfewer⟩ := exists_round hrounds
    exact ih hnext' _ hahead' (Nat.le_of_succ_le hfewer)
  | case4 flag hkind mark rest hcomma hmark =>
    obtain ⟨-, hahead, -, -⟩ := at_token h
    obtain ⟨-, -, -, hcurrent⟩ := at_token hahead
    have hclosing := agrees_flagEnd bracket h hkind hcurrent hcomma rounds
    rwa [readKind, if_pos hmark] at hclosing
  | case5 flag hkind mark rest hcomma hmark =>
    obtain ⟨-, hahead, -, -⟩ := at_token h
    obtain ⟨-, -, -, hcurrent⟩ := at_token hahead
    have hclosing := agrees_flagEnd bracket h hkind hcurrent hcomma rounds
    rwa [readKind, if_neg hmark] at hclosing
  | case6 flag rest hkind =>
    obtain ⟨-, -, -, hcurrent⟩ := at_token h
    rw [Cursor.flags, run_current_bind hcurrent, hkind, ← h]
    exact agrees_unknownFlag hposition bracket flag
  | case7 flag rest hexport hidentifier =>
    obtain ⟨-, -, -, hcurrent⟩ := at_token h
    rw [Cursor.flags, run_current_bind hcurrent, ← h]
    cases hkind : flag.kind with
    | exportWord => exact absurd hkind hexport
    | identifier => exact absurd hkind hidentifier
    | _ => exact agrees_unexpected hposition .flag

theorem agrees_checkLineEnd {f : Cursor α} {r : Except Misparse (α × List Token)}
    (hposition : position ≤ s.before.length) (hf : s.Agrees (f.run position) r) :
    s.Agrees ((Cursor.checkLineEnd s.tokens s.table >>= fun _ => f).run position)
      (checkLineEnd (s.ahead position) >>= fun _ => r) := by
  rw [Cursor.checkLineEnd, bind_assoc]
  cases h : s.ahead position with
  | nil =>
    rw [run_current_bind (at_end hposition h), if_pos (.inr s.kind_ending)]
    exact hf
  | cons t rest =>
    obtain ⟨-, -, hend, hcurrent⟩ := at_token h
    rw [run_current_bind hcurrent, checkLineEnd]
    by_cases hline : t.kind = .newline
    · rw [if_pos (.inl hline), if_pos hline]
      exact hf
    · have hunexpected := agrees_unexpected (α := Unit) hposition .lineEnd
      rw [if_neg (not_or.mpr ⟨hline, hend⟩), if_neg hline, StateT.run_bind,
        eq_of_agrees_error hunexpected, h]
      exact .failed (.unexpected .lineEnd (t :: rest))

variable {limit : Nat} (hlimit : s.before.length < limit)
include hlimit

/-- A reference is read from behind its first token. -/
theorem agrees_tableReference (h : s.ahead position = t :: rest) :
    s.Agrees ((Cursor.tableReference s.tokens s.table limit).run position)
      (readTableReference rest) := by
  obtain ⟨hnext, rfl, hend, hcurrent⟩ := at_token h
  rw [Cursor.tableReference, run_advance_bind hcurrent hend]
  refine agrees_bind (agrees_expect hnext (by decide) .tableName) fun id _ hid => ?_
  exact agrees_bind (agrees_modifiers hid (length_ahead_lt hlimit _)) fun modifiers _ hleft =>
    .read hleft

/-- By the parts of the reference, one token each. -/
theorem agrees_externalReference (h : s.ahead position = t :: rest) :
    s.Agrees ((Cursor.externalReference s.tokens s.table limit).run position)
      (readExternalReference rest) := by
  obtain ⟨hnext, rfl, hend, hcurrent⟩ := at_token h
  rw [Cursor.externalReference, run_advance_bind hcurrent hend]
  refine agrees_bind (agrees_expect hnext (by decide) .publisher) fun publisher _ h₁ => ?_
  refine agrees_bind (agrees_expect h₁ (by decide) .slash) fun _ _ h₂ => ?_
  refine agrees_bind (agrees_expect h₂ (by decide) .collection) fun collection _ h₃ => ?_
  refine agrees_bind (agrees_expect h₃ (by decide) .hash) fun _ _ h₄ => ?_
  refine agrees_bind (agrees_expect h₄ (by decide) .tableName) fun id _ h₅ => ?_
  exact agrees_bind (agrees_modifiers h₅ (length_ahead_lt hlimit _)) fun modifiers _ hleft =>
    .read hleft

/-- By the kind of the token ahead. -/
theorem agrees_braced (hposition : position ≤ s.before.length) :
    s.Agrees ((Cursor.braced s.tokens s.table limit).run position)
      (readBraced (s.ahead position)) := by
  have hunexpected := agrees_unexpected (α := Item) hposition .expression
  rw [Cursor.braced]
  cases h : s.ahead position with
  | nil =>
    rw [run_current_bind (at_end hposition h), s.kind_ending]
    rwa [h] at hunexpected
  | cons t rest =>
    obtain ⟨hnext, hahead, hend, hcurrent⟩ := at_token h
    rw [run_current_bind hcurrent, readBraced]
    rw [h] at hunexpected
    cases hkind : t.kind with
    | hash => exact agrees_tableReference hlimit h
    | atSign => exact agrees_externalReference hlimit h
    | diceRoll =>
      change s.Agrees ((Cursor.advance s.tokens >>= _).run position) _
      rw [run_advance_bind hcurrent hend]
      refine agrees_ofPayload t.dice fun d => ?_
      rw [← hahead]
      exact .read hnext
    | _ => exact hunexpected

theorem agrees_expression (h : s.ahead position = t :: rest) :
    s.Agrees ((Cursor.expression s.tokens s.table limit).run position) (readExpression t rest) := by
  obtain ⟨hnext, rfl, hend, hcurrent⟩ := at_token h
  rw [Cursor.expression, run_advance_bind hcurrent hend]
  refine agrees_bind (agrees_braced hlimit hnext) fun item _ hitem => ?_
  refine agrees_bind (agrees_expect hitem (by decide) .closingBrace) fun closing _ hclosing => ?_
  exact agrees_spanTo t closing.span.stop fun span => .read hclosing

/-- Both a text and an expression move the position on, so the content comes to an end. -/
theorem agrees_content (stop : Nat) (hposition : position ≤ s.before.length) {rounds : Nat}
    (hbound : (s.ahead position).length < rounds) :
    s.Agrees ((Cursor.content s.tokens s.table limit rounds stop).run position)
      (readContent stop (s.ahead position)) := by
  obtain ⟨rounds, rfl, hrounds⟩ := exists_round hbound
  clear hbound
  generalize h : s.ahead position = ahead at hrounds ⊢
  fun_induction readContent stop ahead generalizing position rounds with
  | case1 stop =>
    rw [Cursor.content, run_current_bind (at_end hposition h), s.kind_ending, ← h]
    exact .read hposition
  | case2 stop t ts hkind ih =>
    obtain ⟨hnext, hahead, hend, hcurrent⟩ := at_token h
    rw [Cursor.content, run_current_bind hcurrent, hkind]
    dsimp only
    obtain ⟨rounds, rfl, hfewer⟩ := exists_round hrounds
    rw [run_advance_bind hcurrent hend]
    exact agrees_bind (ih hnext _ hahead hfewer) fun _ _ hleft => .read hleft
  | case3 stop t ts hkind m hm =>
    obtain ⟨-, -, -, hcurrent⟩ := at_token h
    have hexpression := agrees_expression hlimit h
    rw [hm] at hexpression
    rw [Cursor.content, run_current_bind hcurrent, hkind]
    dsimp only
    rw [StateT.run_bind, eq_of_agrees_error hexpression]
    exact .failed m
  | case4 stop t ts hkind e left he hlt ih =>
    -- However long the expression is, there is less ahead behind it.
    obtain ⟨-, -, -, hcurrent⟩ := at_token h
    have hexpression := agrees_expression hlimit h
    rw [he] at hexpression
    obtain ⟨position', hposition', hleft, hrun⟩ := exists_of_agrees_ok hexpression
    obtain ⟨rounds, rfl, hfewer⟩ := exists_round hrounds
    rw [Cursor.content, run_current_bind hcurrent, hkind]
    dsimp only
    rw [StateT.run_bind, hrun, pure_bind]
    exact agrees_bind (ih hposition' _ hleft (hlt.le.trans hfewer)) fun _ _ hleft => .read hleft
  | case5 stop t ts htext hbrace =>
    obtain ⟨-, -, -, hcurrent⟩ := at_token h
    rw [Cursor.content, run_current_bind hcurrent, ← h]
    cases hkind : t.kind with
    | text => exact absurd hkind htext
    | leftBrace => exact absurd hkind hbrace
    | _ => exact .read hposition

/-- A rule is a colon and content, and must show something. -/
theorem agrees_rule (h : s.ahead position = t :: rest) :
    s.Agrees ((Cursor.rule s.tokens s.table limit).run position) (readRule t rest) := by
  obtain ⟨hnext, rfl, hend, hcurrent⟩ := at_token h
  rw [Cursor.rule, run_advance_bind hcurrent hend]
  refine agrees_bind (agrees_expect hnext (by decide) .colon) fun colon _ hcolon => ?_
  refine agrees_bind (agrees_content hlimit colon.span.stop hcolon (length_ahead_lt hlimit _))
    fun (items, stop) _ hitems => ?_
  dsimp only
  split
  · exact agrees_unexpected hitems .ruleContent
  · refine agrees_ofPayload t.number fun w => ?_
    exact agrees_spanTo t stop fun span => .read hitems

/-- Both a line end and a rule move the position on, so the rules of a table come to an end. -/
theorem agrees_rules (stop : Nat) (hposition : position ≤ s.before.length) {rounds : Nat}
    (hbound : (s.ahead position).length < rounds) :
    s.Agrees ((Cursor.rules s.tokens s.table limit rounds stop).run position)
      (readRules stop (s.ahead position)) := by
  obtain ⟨rounds, rfl, hrounds⟩ := exists_round hbound
  clear hbound
  generalize h : s.ahead position = ahead at hrounds ⊢
  fun_induction readRules stop ahead generalizing position rounds with
  | case1 stop =>
    have hcurrent := at_end hposition h
    rw [Cursor.rules, run_eat_of_ne_bind hcurrent (by rw [s.kind_ending]; decide),
      if_neg Bool.false_ne_true, run_current_bind hcurrent, s.kind_ending, ← h]
    exact .read hposition
  | case2 stop t ts hkind ih =>
    obtain ⟨hnext, hahead, hend, hcurrent⟩ := at_token h
    rw [Cursor.rules, run_eat_bind hcurrent hkind hend, if_pos rfl]
    obtain ⟨rounds, rfl, hfewer⟩ := exists_round hrounds
    exact ih hnext _ hahead hfewer
  | case3 stop t ts hkind m hm =>
    obtain ⟨-, -, -, hcurrent⟩ := at_token h
    have hrule := agrees_rule hlimit h
    rw [hm] at hrule
    rw [Cursor.rules, run_eat_of_ne_bind hcurrent (by rw [hkind]; decide),
      if_neg Bool.false_ne_true, run_current_bind hcurrent, hkind]
    dsimp only
    rw [StateT.run_bind, eq_of_agrees_error hrule]
    exact .failed m
  | case4 stop t ts hkind r left hr hlt ih =>
    obtain ⟨-, -, -, hcurrent⟩ := at_token h
    have hrule := agrees_rule hlimit h
    rw [hr] at hrule
    obtain ⟨position', hposition', hleft, hrun⟩ := exists_of_agrees_ok hrule
    obtain ⟨rounds, rfl, hfewer⟩ := exists_round hrounds
    rw [Cursor.rules, run_eat_of_ne_bind hcurrent (by rw [hkind]; decide),
      if_neg Bool.false_ne_true, run_current_bind hcurrent, hkind]
    dsimp only
    rw [StateT.run_bind, hrun, pure_bind]
    exact agrees_bind (ih hposition' _ hleft (hlt.le.trans hfewer)) fun _ _ hleft => .read hleft
  | case5 stop t ts hkind =>
    obtain ⟨-, -, -, hcurrent⟩ := at_token h
    rw [Cursor.rules, run_eat_of_ne_bind hcurrent (by rw [hkind]; decide),
      if_neg Bool.false_ne_true, run_current_bind hcurrent, hkind, ← h]
    exact .read hposition
  | case6 stop t ts hline hnumber hhash =>
    obtain ⟨-, -, hend, hcurrent⟩ := at_token h
    rw [Cursor.rules, run_eat_of_ne_bind hcurrent hline, if_neg Bool.false_ne_true,
      run_current_bind hcurrent, ← h]
    cases hkind : t.kind with
    | number => exact absurd hkind hnumber
    | hash => exact absurd hkind hhash
    | endOfInput => exact absurd hkind hend
    | _ => exact agrees_unexpected hposition .rule

theorem agrees_headerEnd (name : Token) (hposition : position ≤ s.before.length) :
    s.Agrees ((Cursor.headerEnd s.tokens s.table limit name).run position)
      (readHeaderEnd name (s.ahead position)) := by
  rw [Cursor.headerEnd]
  cases h : s.ahead position with
  | nil =>
    rw [run_current_bind (at_end hposition h), if_neg (by rw [s.kind_ending]; decide),
      readHeaderEnd, ← h]
    exact .read hposition
  | cons t rest =>
    obtain ⟨hnext, hahead, hend, hcurrent⟩ := at_token h
    rw [run_current_bind hcurrent, readHeaderEnd]
    split
    · rw [run_advance_bind hcurrent hend, ← hahead]
      exact agrees_bind (agrees_flags t hnext (length_ahead_lt hlimit _)) fun _ _ hflags =>
        .read hflags
    · rw [← h]
      exact .read hposition

/-- A table is read from its hash on. -/
theorem agrees_tableDeclaration (h : s.ahead position = t :: rest) :
    s.Agrees ((Cursor.tableDeclaration s.tokens s.table limit).run position)
      (readTable t rest) := by
  obtain ⟨hnext, rfl, hend, hcurrent⟩ := at_token h
  rw [Cursor.tableDeclaration, run_advance_bind hcurrent hend]
  refine agrees_bind (agrees_expect hnext (by decide) .tableName) fun name _ hname => ?_
  refine agrees_bind (agrees_headerEnd hlimit name hname) fun (exported, stop) _ hheader => ?_
  refine agrees_checkLineEnd hheader ?_
  refine agrees_bind (agrees_rules hlimit stop hheader (length_ahead_lt hlimit _))
    fun (rules, stop) _ hrules => ?_
  exact agrees_spanTo t stop fun span => .read hrules

/-- Both a line end and a table move the position on, so the tables come to an end, where all tokens
ahead are read. -/
theorem agrees_declarations (hposition : position ≤ s.before.length) {rounds : Nat}
    (hbound : (s.ahead position).length < rounds) :
    s.Agrees ((Cursor.declarations s.tokens s.table limit rounds).run position)
      ((readTables (s.ahead position)).map fun tables => (tables, [])) := by
  obtain ⟨rounds, rfl, hrounds⟩ := exists_round hbound
  clear hbound
  generalize h : s.ahead position = ahead at hrounds ⊢
  fun_induction readTables ahead generalizing position rounds with
  | case1 =>
    have hcurrent := at_end hposition h
    rw [Cursor.declarations, run_current_bind hcurrent, if_pos s.kind_ending]
    change s.Agrees _ (.ok ([], []))
    rw [← h]
    exact .read hposition
  | case2 t ts hkind ih =>
    obtain ⟨hnext, hahead, hend, hcurrent⟩ := at_token h
    rw [Cursor.declarations, run_current_bind hcurrent, if_neg hend,
      run_eat_bind hcurrent hkind hend, if_pos rfl]
    obtain ⟨rounds, rfl, hfewer⟩ := exists_round hrounds
    exact ih hnext _ hahead hfewer
  | case3 t ts hkind m hm =>
    obtain ⟨-, -, hend, hcurrent⟩ := at_token h
    have htable := agrees_tableDeclaration hlimit h
    rw [hm] at htable
    rw [Cursor.declarations, run_current_bind hcurrent, if_neg hend,
      run_eat_of_ne_bind hcurrent (by rw [hkind]; decide), if_neg Bool.false_ne_true,
      run_current_bind hcurrent, if_pos hkind, StateT.run_bind, eq_of_agrees_error htable]
    exact .failed m
  | case4 t ts hkind declared left hdeclared hlt ih =>
    obtain ⟨-, -, hend, hcurrent⟩ := at_token h
    have htable := agrees_tableDeclaration hlimit h
    rw [hdeclared] at htable
    obtain ⟨position', hposition', hleft, hrun⟩ := exists_of_agrees_ok htable
    obtain ⟨rounds, rfl, hfewer⟩ := exists_round hrounds
    rw [Cursor.declarations, run_current_bind hcurrent, if_neg hend,
      run_eat_of_ne_bind hcurrent (by rw [hkind]; decide), if_neg Bool.false_ne_true,
      run_current_bind hcurrent, if_pos hkind, StateT.run_bind, hrun, pure_bind]
    have hmore := agrees_bind (g := fun r => .ok (declared :: r.1, r.2))
      (ih hposition' _ hleft (hlt.le.trans hfewer)) fun _ _ hafter => .read hafter
    cases hreads : readTables left with
    | ok more => rwa [hreads] at hmore
    | error m => rwa [hreads] at hmore
  | case5 t ts hline hhash =>
    obtain ⟨-, -, hend, hcurrent⟩ := at_token h
    rw [Cursor.declarations, run_current_bind hcurrent, if_neg hend,
      run_eat_of_ne_bind hcurrent hline, if_neg Bool.false_ne_true, run_current_bind hcurrent,
      if_neg hhash, ← h]
    exact agrees_unexpected hposition .tableDeclaration

/-- A program is read up to the first end of input. -/
theorem agrees_program : s.Agrees ((Cursor.program s.tokens s.table limit).run 0)
    ((readProgram s.before).map fun p => (p, [])) := by
  have hdeclarations := agrees_declarations hlimit (Nat.zero_le _) (length_ahead_lt hlimit 0)
  change s.Agrees _ ((readTables s.before).map _) at hdeclarations
  rw [Cursor.program, StateT.run_bind, readProgram]
  cases hreads : readTables s.before with
  | error m =>
    rw [hreads] at hdeclarations
    rw [eq_of_agrees_error hdeclarations]
    exact .failed m
  | ok tables =>
    rw [hreads] at hdeclarations
    -- The tables are over where nothing is ahead, which is at the first end of input.
    obtain ⟨position, hposition, hahead, hrun⟩ := exists_of_agrees_ok hdeclarations
    rw [hrun, pure_bind]
    change s.Agrees _ (Except.map (fun p => (p, []))
      (if tables.isEmpty = true then .error .noTables else .ok (Program.mk tables)))
    by_cases htables : tables.isEmpty = true
    · rw [if_pos htables, if_pos htables, run_current_bind (at_end hposition hahead)]
      exact .failed .noTables
    · rw [if_neg htables, if_neg htables, ← hahead]
      exact .read hposition

end Parts

section Outcomes
variable {s : EndedTokens} {last : Token}

/-- The tokens before the first end of input are those that are read. -/
theorem takeWhile_tokens (s : EndedTokens) :
    s.tokens.takeWhile (·.kind ≠ .endOfInput) = s.before := by
  rw [tokens, List.takeWhile_append_of_pos fun t ht => decide_eq_true (s.kind_before t ht),
    List.takeWhile_cons_of_neg (by simp [s.kind_ending]), List.append_nil]

theorem find?_tokens (s : EndedTokens) :
    s.tokens.find? (·.kind = .endOfInput) = some s.ending := by
  have hbefore : s.before.find? (·.kind = .endOfInput) = none :=
    List.find?_eq_none.mpr fun t ht => by simpa using s.kind_before t ht
  rw [tokens, List.find?_append, hbefore, Option.none_or,
    List.find?_cons_of_pos (by simp [s.kind_ending])]

/-- The program of tokens is the program of those before the first end of input. -/
theorem ofTokens_tokens (hlast : s.tokens.getLast? = some last)
    (hkind : last.kind = .endOfInput) : Program.ofTokens s.source s.tokens =
      (readProgram s.before).mapError (·.failure s.table s.ending) := by
  rw [Program.ofTokens, hlast]
  dsimp only
  rw [if_pos hkind, takeWhile_tokens, find?_tokens]
  rfl

/-- More rounds than tokens are enough for every loop. -/
theorem read_tokens (hlast : s.tokens.getLast? = some last) (hkind : last.kind = .endOfInput)
    {limit : Nat} (hlimit : s.before.length < limit) : Cursor.read limit s.source s.tokens =
      some ((Program.ofTokens s.source s.tokens).mapError .failed) := by
  have hprogram := agrees_program hlimit
  rw [ofTokens_tokens hlast hkind, Cursor.read, hlast]
  dsimp only
  rw [if_pos hkind]
  change (Prod.fst <$> (Cursor.program s.tokens s.table limit).run 0).run = _
  cases hreads : readProgram s.before with
  | ok p =>
    rw [hreads] at hprogram
    obtain ⟨_, -, -, hrun⟩ := exists_of_agrees_ok hprogram
    rw [hrun]
    rfl
  | error m =>
    rw [hreads] at hprogram
    rw [eq_of_agrees_error hprogram]
    rfl

def cut (s : EndedTokens) : EndedTokens :=
  { s with after := [] }

theorem getLast?_cut (s : EndedTokens) : s.cut.tokens.getLast? = some s.ending :=
  List.getLast?_concat

/-- Every list of tokens that ends with an end of input has a first one. -/
theorem exists_tokens (source : List Char) {all : List Token}
    (hlast : all.getLast? = some last) (hkind : last.kind = .endOfInput) :
    ∃ s : EndedTokens, s.source = source ∧ s.tokens = all := by
  have hsome : (all.find? (·.kind = .endOfInput)).isSome = true :=
    List.find?_isSome.mpr ⟨last, List.mem_of_getLast? hlast, decide_eq_true hkind⟩
  obtain ⟨ending, hending⟩ := Option.isSome_iff_exists.mp hsome
  obtain ⟨hend, before, after, rfl, hbefore⟩ := List.find?_eq_some_iff_append.mp hending
  have hkinds : ∀ t ∈ before, t.kind ≠ .endOfInput := fun t ht => by simpa using hbefore t ht
  exact ⟨⟨source, before, ending, after, hkinds, by simpa using hend⟩, rfl, rfl⟩

end Outcomes

end EndedTokens

def upToEnd (tokens : List Token) : List Token :=
  tokens.take (tokens.findIdx (·.kind = .endOfInput) + 1)

/-- Where every loop has a round for each of the tokens up to the end of input, it has one more than
there are tokens before that. -/
theorem EndedTokens.length_before_lt {s : EndedTokens} {limit : Nat}
    (hlimit : s.cut.tokens.length ≤ limit) : s.before.length < limit := by
  rw [tokens, cut, List.length_append] at hlimit
  exact hlimit

theorem EndedTokens.upToEnd_tokens (s : EndedTokens) : upToEnd s.tokens = s.cut.tokens := by
  have hbefore : s.before.findIdx (·.kind = .endOfInput) = s.before.length :=
    List.findIdx_eq_length.mpr fun t ht => decide_eq_false (s.kind_before t ht)
  have hindex : s.tokens.findIdx (·.kind = .endOfInput) = s.before.length := by
    rw [tokens, List.findIdx_append, hbefore, if_neg (Nat.lt_irrefl _), List.findIdx_cons]
    simp [s.kind_ending]
  rw [upToEnd, hindex, tokens, List.take_length_add_append]
  rfl

namespace Program

/-- How tokens are read that end with an end of input. -/
structure ReadsToEnd (source : List Char) (tokens : List Token) : Prop where
  /-- Reading by position has an outcome, and it is not that a position has no token. No loop makes
  more rounds than there are tokens up to the first end of input. -/
  byPosition : ∀ limit, (upToEnd tokens).length ≤ limit →
    Cursor.read limit source tokens = some ((ofTokens source tokens).mapError .failed)
  /-- There is a program, or a report, or a token that does not fit with others of its own. -/
  outcome : (∃ p, ofTokens source tokens = .ok p) ∨
    (∃ e, ofTokens source tokens = .error (.reported e)) ∨
    (∃ fault, ofTokens source tokens = .error (.badPayload fault)) ∨
    ∃ fault, ofTokens source tokens = .error (.badSpan fault)
  cut : ofTokens source (upToEnd tokens) = ofTokens source tokens
  cutByPosition : ∀ limit, (upToEnd tokens).length ≤ limit →
    Cursor.read limit source (upToEnd tokens) = Cursor.read limit source tokens

/-- Tokens of any kinds make a program or have a failure, as long as the last of them is an end of
input, and what follows the first end of input is not looked at. -/
theorem readsToEnd (source : List Char) (tokens : List Token) {last : Token}
    (hlast : tokens.getLast? = some last) (hkind : last.kind = .endOfInput) :
    ReadsToEnd source tokens := by
  obtain ⟨s, rfl, rfl⟩ := EndedTokens.exists_tokens source hlast hkind
  have hprogram := EndedTokens.ofTokens_tokens hlast hkind
  have hcut : ofTokens s.source s.cut.tokens = ofTokens s.source s.tokens :=
    (EndedTokens.ofTokens_tokens s.getLast?_cut s.kind_ending).trans hprogram.symm
  have hread {limit : Nat} (hlimit : s.cut.tokens.length ≤ limit) :=
    EndedTokens.read_tokens hlast hkind (EndedTokens.length_before_lt hlimit)
  have hcutRead {limit : Nat} (hlimit : s.cut.tokens.length ≤ limit) :
      Cursor.read limit s.source s.cut.tokens =
        some ((ofTokens s.source s.cut.tokens).mapError .failed) :=
    EndedTokens.read_tokens s.getLast?_cut s.kind_ending (EndedTokens.length_before_lt hlimit)
  constructor
  case byPosition =>
    rw [s.upToEnd_tokens]
    exact fun limit hlimit => hread hlimit
  case outcome =>
    rw [hprogram]
    cases readProgram s.before with
    | ok p => exact .inl ⟨p, rfl⟩
    | error m =>
      cases m with
      | unexpected | unknownFlag | noTables => exact .inr (.inl ⟨_, rfl⟩)
      | badPayload fault => exact .inr (.inr (.inl ⟨fault, rfl⟩))
      | badSpan fault => exact .inr (.inr (.inr ⟨fault, rfl⟩))
  case cut => rw [s.upToEnd_tokens, hcut]
  case cutByPosition =>
    rw [s.upToEnd_tokens]
    intro limit hlimit
    rw [hcutRead hlimit, hcut, hread hlimit]

def endedTwice : List Token :=
  [⟨.hash, "#", .empty 0, none⟩, ⟨.identifier, "t", .empty 1, none⟩,
    ⟨.endOfInput, "", .empty 2, none⟩, ⟨.pipe, "|", .empty 0, none⟩,
    ⟨.endOfInput, "", .empty 1, none⟩]

/-- Behind the first end of input there is a token that no table can have. -/
theorem readsToEnd_endedTwice :
    endedTwice.getLast? = some ⟨.endOfInput, "", .empty 1, none⟩ ∧ ReadsToEnd [] endedTwice :=
  ⟨rfl, readsToEnd [] endedTwice rfl rfl⟩

end Program

end RandomTables
