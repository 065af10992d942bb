import RandomTables.Program.OfSource
import RandomTables.Proofs.Program.Failure

namespace RandomTables

def flagListStops : List TokenKind :=
  [.newline, .hash, .endOfInput]

/-- A flag list with an unknown flag ends where its closing bracket does, if that comes before a
line end, a hash and the end of input, and else where the last token before the first of these does.
-/
def FlagListEndsAt (flag : Token) (rest : List Token) (stop : Nat) : Prop :=
  ∃ inner t after, rest = inner ++ t :: after ∧
    (∀ u ∈ inner, u.kind ≠ .rightBracket ∧ u.kind ∉ flagListStops) ∧
    (t.kind = .rightBracket ∧ stop = t.span.stop ∨
      t.kind ∈ flagListStops ∧ stop = (inner.getLastD flag).span.stop)

/-- By induction on the tokens behind the flag, up to the first that ends the list. -/
theorem flagListEnd_endsAt (flag ending : Token) (rest after : List Token)
    (hrest : ∀ t ∈ rest, t.kind ≠ .endOfInput) (hending : ending.kind = .endOfInput) :
    FlagListEndsAt flag (rest ++ ending :: after) (flagListEnd flag.span.stop rest) := by
  induction rest generalizing flag with
  | nil => exact ⟨[], ending, after, rfl, nofun, .inr ⟨by simp [flagListStops, hending], rfl⟩⟩
  | cons t rest ih =>
    obtain ⟨ht, hrest⟩ := List.forall_mem_cons.mp hrest
    rw [flagListEnd]
    split
    · next hkind =>
      exact ⟨[], t, _, rfl, nofun, .inr ⟨by simp [flagListStops, hkind], rfl⟩⟩
    · next hkind =>
      exact ⟨[], t, _, rfl, nofun, .inr ⟨by simp [flagListStops, hkind], rfl⟩⟩
    · next hkind => exact ⟨[], t, _, rfl, nofun, .inl ⟨hkind, rfl⟩⟩
    · next hnewline hhash hclosing =>
      -- The token belongs to the list, and is the last one so far.
      obtain ⟨inner, u, more, hsplit, hinner, hend⟩ := ih t hrest
      have hinside : t.kind ≠ .rightBracket ∧ t.kind ∉ flagListStops := by
        simp only [flagListStops, List.mem_cons, List.not_mem_nil, or_false, not_or]
        exact ⟨hclosing, hnewline, hhash, ht⟩
      refine ⟨t :: inner, u, more, by rw [List.cons_append, hsplit, List.cons_append],
        List.forall_mem_cons.mpr ⟨hinside, hinner⟩, ?_⟩
      rwa [List.getLastD_cons]

theorem flagListEnd_cons {flag : Token} (hflag : flag.kind = .identifier) (stop : Nat)
    (rest : List Token) : flagListEnd stop (flag :: rest) = flagListEnd flag.span.stop rest := by
  rw [flagListEnd, hflag]

/-- The end of a flag list comes behind its unknown flag. -/
theorem stop_le_of_endsAt {flag : Token} {rest : List Token} {stop : Nat}
    (h : FlagListEndsAt flag rest stop) (horder : InOrder (flag :: rest)) :
    flag.span.stop ≤ stop := by
  obtain ⟨inner, t, after, rfl, -, hend⟩ := h
  have hmem : ∀ u ∈ flag :: (inner ++ t :: after), flag.span.stop ≤ u.span.stop := by
    intro u hu
    rcases List.mem_cons.mp hu with rfl | hu
    · exact Nat.le_refl _
    · have hstart := (List.pairwise_cons.mp horder).1 u hu
      have hspan := u.span.start_le_stop
      omega
  rcases hend with ⟨-, rfl⟩ | ⟨-, rfl⟩
  · exact hmem t (by simp)
  · have hlast : inner.getLastD flag ∈ flag :: inner := List.getLastD_mem_cons
    rw [← List.cons_append] at hmem
    exact hmem _ (List.mem_append_left _ hlast)

namespace Grammar

inductive FlagsSoFar : List Token → Prop
  | nil : FlagsSoFar []
  | more {word comma tokens} : word.kind = .exportWord → comma.kind = .comma →
      FlagsSoFar tokens → FlagsSoFar (word :: comma :: tokens)

/-- Line ends, whole tables, and of one more table the header up to a name in its flag list, which
stands where a flag has to. -/
inductive StopsAtFlag : List Token → Token → Token → List Token → Prop
  | mk {lineEnds whole tables hash name bracket flags flag rest} :
      (∀ t ∈ lineEnds, t.kind = .newline) → Tables whole tables → hash.kind = .hash →
      name.kind = .identifier → bracket.kind = .leftBracket → FlagsSoFar flags →
      flag.kind = .identifier →
      StopsAtFlag (lineEnds ++ (whole ++ hash :: name :: bracket :: (flags ++ flag :: rest)))
        bracket flag rest

def KnowsFlags {α : Type} (r : Except Misparse α) : Prop :=
  ∀ bracket flag remaining, r ≠ .error (.unknownFlag bracket flag remaining)

section Contract
variable {α β : Type}

theorem knowsFlags_ok (a : α) : KnowsFlags (.ok a) := by
  intro bracket flag remaining hm
  cases hm

theorem knowsFlags_unexpected (expected : Expectation) (remaining : List Token) :
    KnowsFlags (.error (.unexpected expected remaining) : Except Misparse α) := by
  intro bracket flag remaining' hm
  cases hm

/-- No part fails for a flag if neither of the two does. -/
theorem knowsFlags_bind {r : Except Misparse α} {f : α → Except Misparse β} (h : KnowsFlags r)
    (hf : ∀ a, KnowsFlags (f a)) : KnowsFlags (r >>= f) := by
  cases r with
  | error m =>
    intro bracket flag remaining hm
    cases hm
    exact h bracket flag remaining rfl
  | ok a => exact hf a

/-- A chain fails in its first link or behind it. -/
theorem bind_eq_error {r : Except Misparse α} {f : α → Except Misparse β} {m : Misparse}
    (h : r >>= f = .error m) : r = .error m ∨ ∃ a, r = .ok a ∧ f a = .error m := by
  cases r with
  | error m' =>
    cases h
    exact .inl rfl
  | ok a => exact .inr ⟨a, rfl, h⟩

theorem knowsFlags_of_error {r : Except Misparse α} {m : Misparse} (h : KnowsFlags r)
    (hr : r = .error m) : KnowsFlags (.error m : Except Misparse β) := by
  intro bracket flag remaining hm
  cases hm
  exact h bracket flag remaining hr

theorem knowsFlags_badPayload (x : Except PayloadFault α) :
    KnowsFlags (x.mapError .badPayload) := by
  intro bracket flag remaining hm
  cases x <;> cases hm

end Contract

theorem readKind_knowsFlags (kind : TokenKind) (expected : Expectation) (tokens : List Token) :
    KnowsFlags (readKind kind expected tokens) := by
  cases tokens with
  | nil => exact knowsFlags_unexpected _ _
  | cons t tokens =>
    rw [readKind]
    split
    · exact knowsFlags_ok _
    · exact knowsFlags_unexpected _ _

theorem spanTo_knowsFlags (first : Token) (stop : Nat) : KnowsFlags (spanTo first stop) := by
  intro bracket flag remaining hm
  rw [spanTo] at hm
  cases hspan : Span.ofOffsets first.span.start stop <;> rw [hspan] at hm <;> cases hm

theorem readModifiers_knowsFlags (tokens : List Token) : KnowsFlags (readModifiers tokens) := by
  fun_induction readModifiers tokens with
  | case1 | case6 => exact knowsFlags_ok _
  | case2 | case4 | case5 => exact knowsFlags_unexpected _ _
  | case3 _ _ _ _ _ ih => exact knowsFlags_bind ih fun _ => knowsFlags_ok _

theorem readTableReference_knowsFlags (tokens : List Token) :
    KnowsFlags (readTableReference tokens) := by
  apply knowsFlags_bind (readKind_knowsFlags _ _ _)
  intro (id, rest)
  exact knowsFlags_bind (readModifiers_knowsFlags rest) fun _ => knowsFlags_ok _

theorem readExternalReference_knowsFlags (tokens : List Token) :
    KnowsFlags (readExternalReference tokens) := by
  iterate 5
    apply knowsFlags_bind (readKind_knowsFlags _ _ _)
    intro (_, rest)
  exact knowsFlags_bind (readModifiers_knowsFlags rest) fun _ => knowsFlags_ok _

theorem readBraced_knowsFlags (tokens : List Token) : KnowsFlags (readBraced tokens) := by
  cases tokens with
  | nil => exact knowsFlags_unexpected _ _
  | cons t rest =>
    rw [readBraced]
    split
    · exact readTableReference_knowsFlags rest
    · exact readExternalReference_knowsFlags rest
    · exact knowsFlags_bind (knowsFlags_badPayload _) fun _ => knowsFlags_ok _
    · exact knowsFlags_unexpected _ _

theorem readExpression_knowsFlags (opening : Token) (tokens : List Token) :
    KnowsFlags (readExpression opening tokens) := by
  apply knowsFlags_bind (readBraced_knowsFlags tokens)
  intro (item, rest)
  apply knowsFlags_bind (readKind_knowsFlags _ _ _)
  intro (closing, after)
  exact knowsFlags_bind (spanTo_knowsFlags _ _) fun _ => knowsFlags_ok _

theorem readContent_knowsFlags (stop : Nat) (tokens : List Token) :
    KnowsFlags (readContent stop tokens) := by
  fun_induction readContent stop tokens with
  | case1 | case5 => exact knowsFlags_ok _
  | case2 _ _ _ _ ih => exact knowsFlags_bind ih fun _ => knowsFlags_ok _
  | case3 _ t rest _ _ hm => exact knowsFlags_of_error (readExpression_knowsFlags t rest) hm
  | case4 _ _ _ _ _ _ _ _ ih => exact knowsFlags_bind ih fun _ => knowsFlags_ok _

theorem readRule_knowsFlags (weight : Token) (tokens : List Token) :
    KnowsFlags (readRule weight tokens) := by
  apply knowsFlags_bind (readKind_knowsFlags _ _ _)
  intro (colon, rest)
  apply knowsFlags_bind (readContent_knowsFlags _ _)
  rintro ⟨⟨items, stop⟩, after⟩
  dsimp only
  split
  · exact knowsFlags_unexpected _ _
  · apply knowsFlags_bind (knowsFlags_badPayload _)
    intro w
    exact knowsFlags_bind (spanTo_knowsFlags _ _) fun _ => knowsFlags_ok _

/-- Rules have no flags. -/
theorem readRules_knowsFlags (stop : Nat) (tokens : List Token) :
    KnowsFlags (readRules stop tokens) := by
  fun_induction readRules stop tokens with
  | case1 | case5 => exact knowsFlags_ok _
  | case2 _ _ _ _ ih => exact ih
  | case3 _ t rest _ _ hm => exact knowsFlags_of_error (readRule_knowsFlags t rest) hm
  | case4 _ _ _ _ _ _ _ _ ih => exact knowsFlags_bind ih fun _ => knowsFlags_ok _
  | case6 => exact knowsFlags_unexpected _ _

theorem checkLineEnd_knowsFlags (tokens : List Token) : KnowsFlags (checkLineEnd tokens) := by
  cases tokens with
  | nil => exact knowsFlags_ok _
  | cons t tokens =>
    rw [checkLineEnd]
    split
    · exact knowsFlags_ok _
    · exact knowsFlags_unexpected _ _

section Flags
variable {bracket flag : Token} {tokens remaining : List Token}

/-- The names of flags come one by one, so that the first unknown one is behind known ones. -/
theorem readFlags_unknown (opening : Token)
    (h : readFlags opening tokens = .error (.unknownFlag bracket flag remaining)) :
    ∃ flags rest, bracket = opening ∧ remaining = flag :: rest ∧
      tokens = flags ++ flag :: rest ∧ FlagsSoFar flags ∧ flag.kind = .identifier := by
  fun_induction readFlags opening tokens with
  | case3 word hword comma rest hcomma ih =>
    obtain ⟨flags, rest', hbracket, hremaining, rfl, hflags, hflag⟩ := ih h
    exact ⟨word :: comma :: flags, rest', hbracket, hremaining, rfl, .more hword hcomma hflags,
      hflag⟩
  | case6 name rest hname =>
    cases h
    exact ⟨[], rest, rfl, rfl, rfl, .nil, hname⟩
  | _ => cases h

/-- Before an unknown flag, the list has flags with a comma behind each. -/
theorem readHeaderEnd_unknown (name : Token)
    (h : readHeaderEnd name tokens = .error (.unknownFlag bracket flag remaining)) :
    ∃ flags rest, remaining = flag :: rest ∧ tokens = bracket :: (flags ++ flag :: rest) ∧
      bracket.kind = .leftBracket ∧ FlagsSoFar flags ∧ flag.kind = .identifier := by
  cases tokens with
  | nil => cases h
  | cons t tokens =>
    rw [readHeaderEnd] at h
    split at h
    · next hopening =>
      rcases bind_eq_error h with hfails | ⟨_, _, hnever⟩
      · obtain ⟨flags, rest, rfl, hremaining, rfl, hflags, hflag⟩ := readFlags_unknown t hfails
        exact ⟨flags, rest, hremaining, rfl, hopening, hflags, hflag⟩
      · cases hnever
    · cases h

/-- In a table, only its header fails for a flag. -/
theorem readTable_unknown (hash : Token)
    (h : readTable hash tokens = .error (.unknownFlag bracket flag remaining)) :
    ∃ name flags rest, remaining = flag :: rest ∧
      tokens = name :: bracket :: (flags ++ flag :: rest) ∧ name.kind = .identifier ∧
      bracket.kind = .leftBracket ∧ FlagsSoFar flags ∧ flag.kind = .identifier := by
  rcases bind_eq_error h with hno | ⟨⟨name, after⟩, hname, hheader⟩
  · exact absurd hno (readKind_knowsFlags _ _ _ _ _ _)
  obtain ⟨rfl, hkind⟩ := (readKind_eq_ok_iff _ _ _ _ _).mp hname
  rcases bind_eq_error hheader with hfails | ⟨⟨⟨exported, stop⟩, after'⟩, -, hline⟩
  · obtain ⟨flags, rest, hremaining, rfl, hbracket, hflags, hflag⟩ :=
      readHeaderEnd_unknown name hfails
    exact ⟨name, flags, rest, hremaining, rfl, hkind, hbracket, hflags, hflag⟩
  -- Behind the header nothing fails for a flag.
  rcases bind_eq_error hline with hno | ⟨_, -, hrules⟩
  · exact absurd hno (checkLineEnd_knowsFlags _ _ _ _)
  rcases bind_eq_error hrules with hno | ⟨⟨⟨rules, stop⟩, rest⟩, -, hspan⟩
  · exact absurd hno (readRules_knowsFlags _ _ _ _ _)
  rcases bind_eq_error hspan with hno | ⟨_, -, hnever⟩
  · exact absurd hno (spanTo_knowsFlags _ _ _ _ _)
  · cases hnever

/-- By induction on the tokens: all tables before that one are whole. -/
theorem readTables_unknown (hsound : Sound tokens)
    (h : readTables tokens = .error (.unknownFlag bracket flag remaining)) :
    ∃ rest, remaining = flag :: rest ∧ StopsAtFlag tokens bracket flag rest := by
  fun_induction readTables tokens with
  | case1 | case5 => cases h
  | case2 t rest ht ih =>
    obtain ⟨rest', hremaining, hstops⟩ := ih (sound_of_cons t rest hsound) h
    cases hstops with
    | @mk lineEnds _ _ _ _ _ _ _ _ hlineEnds hwhole hhash hname hbracket hflags hflag =>
      exact ⟨rest', hremaining, @StopsAtFlag.mk (t :: lineEnds) _ _ _ _ _ _ _ _
        (List.forall_mem_cons.mpr ⟨ht, hlineEnds⟩) hwhole hhash hname hbracket hflags hflag⟩
  | case3 hash rest hhash m hm =>
    cases h
    obtain ⟨name, flags, rest', hremaining, rfl, hname, hbracket, hflags, hflag⟩ :=
      readTable_unknown hash hm
    have hstops := @StopsAtFlag.mk [] [] [] hash name _ flags _ rest' (List.forall_mem_nil _) .nil
      hhash hname hbracket hflags hflag
    exact ⟨rest', hremaining, hstops⟩
  | case4 hash rest hhash table after htable _ ih =>
    rcases bind_eq_error h with hfails | ⟨_, _, hnever⟩
    · obtain ⟨taken, rfl, htaken, hafter⟩ := readTable_sound _ _ _ _ hhash hsound htable
      have hafterSound := (sound_of_append (hash :: taken) after hsound).2
      obtain ⟨rest', hremaining, hstops⟩ := ih hafterSound hfails
      cases hstops with
      | @mk lineEnds whole tables _ _ _ _ _ _ hlineEnds hwhole hhash' hname hbracket hflags hflag =>
        -- The table took the line ends behind it.
        obtain rfl := lineEnds_eq_nil lineEnds _ hlineEnds hafter
        have hfirst : IsTable (hash :: taken) whole table :=
          isTable_of_after _ _ _ _ htaken (by simp)
        refine ⟨rest', hremaining, ?_⟩
        have hmore := @StopsAtFlag.mk [] (hash :: taken ++ whole) (table :: tables) _ _ _ _ _ rest'
          (List.forall_mem_nil _) (.cons hfirst hwhole) hhash' hname hbracket hflags hflag
        simpa using hmore
    · cases hnever

theorem readProgram_unknown (hsound : Sound tokens)
    (h : readProgram tokens = .error (.unknownFlag bracket flag remaining)) :
    ∃ rest, remaining = flag :: rest ∧ StopsAtFlag tokens bracket flag rest := by
  rcases bind_eq_error h with hfails | ⟨tables, _, hnever⟩
  · exact readTables_unknown hsound hfails
  · -- With all tables read there can be none, and no other fault.
    split at hnever <;> cases hnever

theorem stopsAtFlag_append {rest : List Token} (more : List Token)
    (h : StopsAtFlag tokens bracket flag rest) :
    StopsAtFlag (tokens ++ more) bracket flag (rest ++ more) := by
  cases h with
  | @mk lineEnds whole tables hash name _ flags _ _ hlineEnds hwhole hhash hname hbracket hflags
      hflag =>
    have hmore := @StopsAtFlag.mk lineEnds whole tables hash name bracket flags flag (rest ++ more)
      hlineEnds hwhole hhash hname hbracket hflags hflag
    simpa using hmore

theorem split_of_stopsAtFlag {rest : List Token} (h : StopsAtFlag tokens bracket flag rest) :
    ∃ before flags, tokens = before ++ bracket :: (flags ++ flag :: rest) ∧
      bracket.kind = .leftBracket ∧ flag.kind = .identifier := by
  cases h with
  | @mk lineEnds whole tables hash name _ flags _ _ _ _ _ _ hbracket _ hflag =>
    exact ⟨lineEnds ++ (whole ++ [hash, name]), flags, by simp, hbracket, hflag⟩

/-- The flag list, from its bracket on, ends behind the bracket. -/
theorem stop_le_of_stopsAtFlag {rest : List Token} {stop : Nat}
    (h : StopsAtFlag tokens bracket flag rest) (hends : FlagListEndsAt flag rest stop)
    (horder : InOrder tokens) : bracket.span.stop ≤ stop := by
  obtain ⟨before, flags, rfl, -, -⟩ := split_of_stopsAtFlag h
  obtain ⟨-, hlist, -⟩ := List.pairwise_append.mp horder
  obtain ⟨hfirst, hlist⟩ := List.pairwise_cons.mp hlist
  have hnext : bracket.span.stop ≤ flag.span.start := hfirst flag (by simp)
  have hspan := flag.span.start_le_stop
  have hflag := stop_le_of_endsAt hends (List.pairwise_append.mp hlist).2.1
  omega

end Flags

end Grammar

end RandomTables
