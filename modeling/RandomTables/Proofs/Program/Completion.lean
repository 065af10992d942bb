import RandomTables.Proofs.Program.Lookahead

/-! Completions of tokens on which a reader fails. What a reader took before the fault can always be
carried on with tokens of some kinds to what the grammar calls for, so that no fault is found late.
Values and places at fault are left aside, as sound tokens have none. -/
namespace RandomTables

def Token.standIn (offset : Nat) (kind : TokenKind) : Token where
  kind := kind
  lexeme := "x"
  span := .empty offset
  value :=
    match kind with
    | .number => some (.weight 1)
    | .diceRoll => some (.dice ⟨none, 1⟩)
    | _ => none

def Misparse.IsOfGrammar : Misparse → Prop
  | badPayload _ | badSpan _ => False
  | _ => True

namespace Grammar
variable {α β δ ε : Type} {offset : Nat} {goal goal' : List Token → Prop}
variable {tokens taken : List Token}

/-- The tokens can be carried on, before the end of input, to what is called for. -/
def CanReach (offset : Nat) (goal : List Token → Prop) (taken : List Token) : Prop :=
  ∃ kinds : List TokenKind, .endOfInput ∉ kinds ∧ goal (taken ++ kinds.map (Token.standIn offset))

/-- What is read, if it is not read to the end, fails after tokens that can be carried on to what is
called for. -/
def FailsOpen (offset : Nat) (goal : List Token → Prop) (tokens : List Token)
    (r : Except Misparse α) : Prop :=
  ∀ m, r = .error m → m.IsOfGrammar →
    ∃ taken, tokens = taken ++ m.remaining ∧ CanReach offset goal taken

section Contract
variable {r : Except Misparse α}

theorem failsOpen_of_eq_ok {a : α} (h : r = .ok a) : FailsOpen offset goal tokens r := by
  intro m hm
  rw [h] at hm
  cases hm

theorem failsOpen_of_eq_error {m : Misparse} (taken : List Token) (h : r = .error m)
    (htokens : tokens = taken ++ m.remaining) (hreach : CanReach offset goal taken) :
    FailsOpen offset goal tokens r := by
  intro m' hm _
  rw [h] at hm
  cases hm
  exact ⟨taken, htokens, hreach⟩

/-- A fault that is passed on. -/
theorem failsOpen_of_error {m : Misparse} (h : FailsOpen offset goal tokens r)
    (hr : r = .error m) : FailsOpen offset goal tokens (.error m : Except Misparse β) := by
  intro m' hm
  cases hm
  exact h m hr

/-- What reaches a part of a whole reaches the whole, with the tokens that the part lacks. -/
theorem failsOpen_extend (kinds : List TokenKind) (hkinds : .endOfInput ∉ kinds)
    (h : FailsOpen offset goal tokens r)
    (hgoal : ∀ taken, goal taken → goal' (taken ++ kinds.map (Token.standIn offset))) :
    FailsOpen offset goal' tokens r := by
  intro m hm hgrammar
  obtain ⟨taken, htokens, more, hnoEnd, hmore⟩ := h m hm hgrammar
  refine ⟨taken, htokens, more ++ kinds, by simp [hnoEnd, hkinds], ?_⟩
  rw [List.map_append, ← List.append_assoc]
  exact hgoal _ hmore

theorem failsOpen_mono (h : FailsOpen offset goal tokens r)
    (hgoal : ∀ taken, goal taken → goal' taken) : FailsOpen offset goal' tokens r := by
  apply failsOpen_extend [] List.not_mem_nil h
  intro taken htaken
  rw [List.map_nil, List.append_nil]
  exact hgoal taken htaken

/-- What was taken before is a part of what can be carried on. -/
theorem failsOpen_append (before : List Token)
    (h : FailsOpen offset (fun rest => goal (before ++ rest)) tokens r) :
    FailsOpen offset goal (before ++ tokens) r := by
  intro m hm hgrammar
  obtain ⟨taken, htokens, kinds, hnoEnd, hkinds⟩ := h m hm hgrammar
  refine ⟨before ++ taken, by rw [List.append_assoc, ← htokens], kinds, hnoEnd, ?_⟩
  rw [List.append_assoc]
  exact hkinds

/-- A chain of readers fails open if each of its links does. -/
theorem failsOpen_bind {f : α → Except Misparse β} (h : FailsOpen offset goal tokens r)
    (hf : ∀ a, r = .ok a → FailsOpen offset goal tokens (f a)) :
    FailsOpen offset goal tokens (r >>= f) := by
  cases r with
  | error m =>
    intro m' hm
    cases hm
    exact h m rfl
  | ok a => exact hf a rfl

/-- Values and places at fault are no faults of the grammar. -/
theorem failsOpen_of_fixed {x : Except ε δ} {fault : ε → Misparse} {f : δ → Except Misparse α}
    (hfault : ∀ e, ¬(fault e).IsOfGrammar) (hf : ∀ d, FailsOpen offset goal tokens (f d)) :
    FailsOpen offset goal tokens (x.mapError fault >>= f) := by
  cases x with
  | ok d => exact hf d
  | error e =>
    intro m hm hgrammar
    cases hm
    exact absurd hgrammar (hfault e)

end Contract

/-- Where a word is missing, the grammar calls for words that begin with it. -/
theorem failsOpen_readKind {kind : TokenKind} {expected : Expectation}
    {f : Token × List Token → Except Misparse α} (kinds : List TokenKind)
    (hkinds : .endOfInput ∉ kind :: kinds)
    (hgoal : goal ((kind :: kinds).map (Token.standIn offset)))
    (h : ∀ t rest, tokens = t :: rest → t.kind = kind →
      FailsOpen offset (fun rest => goal (t :: rest)) rest (f (t, rest))) :
    FailsOpen offset goal tokens (readKind kind expected tokens >>= f) := by
  apply failsOpen_bind
  · cases tokens with
    | nil => exact failsOpen_of_eq_error [] rfl rfl ⟨kind :: kinds, hkinds, hgoal⟩
    | cons t rest =>
      rw [readKind]
      split
      · exact failsOpen_of_eq_ok rfl
      · exact failsOpen_of_eq_error [] rfl rfl ⟨kind :: kinds, hkinds, hgoal⟩
  · rintro ⟨t, rest⟩ ht
    obtain ⟨rfl, hkind⟩ := (readKind_eq_ok_iff _ _ _ _ _).mp ht
    exact failsOpen_append [t] (h t rest rfl hkind)

theorem readModifiers_failsOpen (tokens : List Token) :
    FailsOpen offset (fun taken => ∃ modifiers, Modifiers taken modifiers) tokens
      (readModifiers tokens) := by
  fun_induction readModifiers tokens with
  | case1 | case6 => exact failsOpen_of_eq_ok rfl
  | case2 bar hbar | case4 bar hbar | case5 bar hbar =>
    exact failsOpen_of_eq_error [bar] rfl rfl ⟨[.modifier], by decide, _, .cons hbar rfl .nil⟩
  | case3 bar hbar word tokens hword ih =>
    apply failsOpen_bind _ fun _ _ => failsOpen_of_eq_ok rfl
    apply failsOpen_append [bar, word]
    apply failsOpen_mono ih
    rintro taken ⟨modifiers, h⟩
    exact ⟨_, .cons hbar hword h⟩

theorem readTableReference_failsOpen (hash : Token) (tokens : List Token)
    (hhash : hash.kind = .hash) :
    FailsOpen offset (fun taken => ∃ item, Braced (hash :: taken) item) tokens
      (readTableReference tokens) := by
  apply failsOpen_readKind [] (by decide) ⟨_, .table hhash rfl .nil⟩
  rintro id rest rfl hid
  apply failsOpen_bind _ fun _ _ => failsOpen_of_eq_ok rfl
  apply failsOpen_mono (readModifiers_failsOpen rest)
  rintro taken ⟨modifiers, h⟩
  exact ⟨_, .table hhash hid h⟩

theorem readExternalReference_failsOpen (mark : Token) (tokens : List Token)
    (hmark : mark.kind = .atSign) :
    FailsOpen offset (fun taken => ∃ item, Braced (mark :: taken) item) tokens
      (readExternalReference tokens) := by
  apply failsOpen_readKind [.slash, .identifier, .hash, .identifier] (by decide)
    ⟨_, .external hmark rfl rfl rfl rfl rfl .nil⟩
  rintro publisher rest rfl hpublisher
  apply failsOpen_readKind [.identifier, .hash, .identifier] (by decide)
    ⟨_, .external hmark hpublisher rfl rfl rfl rfl .nil⟩
  rintro slash rest rfl hslash
  apply failsOpen_readKind [.hash, .identifier] (by decide)
    ⟨_, .external hmark hpublisher hslash rfl rfl rfl .nil⟩
  rintro collection rest rfl hcollection
  apply failsOpen_readKind [.identifier] (by decide)
    ⟨_, .external hmark hpublisher hslash hcollection rfl rfl .nil⟩
  rintro hash rest rfl hhash
  apply failsOpen_readKind [] (by decide)
    ⟨_, .external hmark hpublisher hslash hcollection hhash rfl .nil⟩
  rintro id rest rfl hid
  apply failsOpen_bind _ fun _ _ => failsOpen_of_eq_ok rfl
  apply failsOpen_mono (readModifiers_failsOpen rest)
  rintro taken ⟨modifiers, h⟩
  exact ⟨_, .external hmark hpublisher hslash hcollection hhash hid h⟩

/-- An expression can be carried on to one with a name, whatever it began with. -/
theorem readBraced_failsOpen (tokens : List Token) :
    FailsOpen offset (fun taken => ∃ item, Braced taken item) tokens (readBraced tokens) := by
  fun_cases readBraced tokens with
  | case1 | case5 => exact failsOpen_of_eq_error [] rfl rfl ⟨[.diceRoll], by decide, _, .dice rfl⟩
  | case2 t rest hkind => exact failsOpen_append [t] (readTableReference_failsOpen t rest hkind)
  | case3 t rest hkind => exact failsOpen_append [t] (readExternalReference_failsOpen t rest hkind)
  | case4 => exact failsOpen_of_fixed (fun _ => id) fun _ => failsOpen_of_eq_ok rfl

def ShowsContent (tokens : List Token) : Prop :=
  ∃ items, Grown tokens items ∧ ∃ t ∈ tokens, ¬IsBlankText t

theorem showsContent_text (t : Token) (tokens : List Token) (ht : t.kind = .text)
    (h : ShowsContent tokens) : ShowsContent (t :: tokens) := by
  obtain ⟨items, hitems, u, hu, hvisible⟩ := h
  exact ⟨_, .text ht hitems, u, List.mem_cons_of_mem t hu, hvisible⟩

theorem showsContent_expression {opening closing : Token} {inner : List Token} {item : Item}
    {items : List Item} (hopening : opening.kind = .leftBrace) (hinner : Braced inner item)
    (hclosing : closing.kind = .rightBrace) (h : Grown tokens items) :
    ShowsContent (opening :: (inner ++ closing :: tokens)) := by
  refine ⟨_, .expression hopening hinner hclosing h, opening, List.mem_cons_self, ?_⟩
  rintro ⟨htext, -⟩
  rw [hopening] at htext
  cases htext

/-- A text in place of what is missing shows. -/
theorem showsContent_standIn (taken : List Token) (h : ∀ t ∈ taken, t.kind = .text) :
    ShowsContent (taken ++ [.standIn offset .text]) := by
  induction taken with
  | nil =>
    have hvisible : ¬"x".toList.all Text.isBlank = true := by decide
    exact ⟨_, .text rfl .nil, _, List.mem_singleton_self _, fun hblank => hvisible hblank.2⟩
  | cons t taken ih =>
    obtain ⟨ht, htaken⟩ := List.forall_mem_cons.mp h
    exact showsContent_text t _ ht (ih htaken)

theorem readExpression_failsOpen (opening : Token) (tokens : List Token)
    (hopening : opening.kind = .leftBrace) :
    FailsOpen offset (fun taken => ShowsContent (opening :: taken)) tokens
      (readExpression opening tokens) := by
  apply failsOpen_bind
  · apply failsOpen_extend [.rightBrace] (by decide) (readBraced_failsOpen tokens)
    rintro inner ⟨item, h⟩
    exact showsContent_expression hopening h rfl .nil
  · rintro ⟨item, rest⟩ hitem
    obtain ⟨inner, rfl, hinner⟩ := readBraced_sound _ _ _ hitem
    apply failsOpen_append inner
    apply failsOpen_readKind [] (by decide) (showsContent_expression hopening hinner rfl .nil)
    intro closing rest _ _
    exact failsOpen_of_fixed (fun _ => id) fun _ => failsOpen_of_eq_ok rfl

/-- By induction on the tokens: content can always be carried on with a text. -/
theorem readContent_failsOpen (stop : Nat) (tokens : List Token) :
    FailsOpen offset ShowsContent tokens (readContent stop tokens) := by
  fun_induction readContent stop tokens with
  | case1 | case5 => exact failsOpen_of_eq_ok rfl
  | case2 stop t rest hkind ih =>
    apply failsOpen_bind _ fun _ _ => failsOpen_of_eq_ok rfl
    apply failsOpen_append [t]
    apply failsOpen_mono ih
    exact fun taken => showsContent_text t taken hkind
  | case3 stop t rest hkind m hm =>
    apply failsOpen_append [t]
    exact failsOpen_of_error (readExpression_failsOpen t rest hkind) hm
  | case4 stop t rest hkind e rest' he _ ih =>
    apply failsOpen_bind _ fun _ _ => failsOpen_of_eq_ok rfl
    obtain ⟨inner, closing, rfl, hinner, hclosing, -⟩ := readExpression_sound t rest rest' e he
    have hsplit : t :: (inner ++ closing :: rest') = t :: (inner ++ [closing]) ++ rest' := by simp
    rw [hsplit]
    apply failsOpen_append
    apply failsOpen_mono ih
    rintro taken ⟨items, hitems, -⟩
    -- With an expression in it, content shows whatever the rest of it is.
    simpa using showsContent_expression hkind hinner hclosing hitems

/-- A rule without content is found where the content should begin. -/
theorem readRule_failsOpen (weight : Token) (tokens : List Token)
    (hweight : weight.kind = .number) :
    FailsOpen offset (fun taken => ∃ r, IsRule (weight :: taken) r) tokens
      (readRule weight tokens) := by
  have hrule (colon : Token) (taken : List Token) (hcolon : colon.kind = .colon)
      (h : ShowsContent taken) : ∃ r, IsRule (weight :: colon :: taken) r := by
    obtain ⟨items, hitems, t, ht, hvisible⟩ := h
    exact ⟨_, .mk hweight hcolon ((content_iff_grown _ _).mpr hitems) (List.ne_nil_of_mem ht)
      fun hblank => hvisible (hblank t ht)⟩
  have hx : ShowsContent [.standIn offset .text] :=
    showsContent_standIn [] (List.forall_mem_nil _)
  apply failsOpen_readKind [.text] (by decide) (hrule _ _ rfl hx)
  rintro colon rest rfl hcolon
  apply failsOpen_bind (failsOpen_mono (readContent_failsOpen _ rest) fun _ => hrule colon _ hcolon)
  rintro ⟨⟨items, stop⟩, after⟩ hitems
  obtain ⟨taken, rfl, htaken, -⟩ := readContent_sound _ _ _ _ _ hitems
  dsimp only
  split
  · -- Content that is all blank is text alone, and more text can make it show.
    rename_i hblank
    rw [all_isBlank_iff taken items htaken] at hblank
    have htexts : ∀ t ∈ taken, t.kind = .text := fun t ht => (hblank t ht).1
    exact failsOpen_of_eq_error taken rfl rfl
      ⟨[.text], by decide, hrule colon _ hcolon (showsContent_standIn taken htexts)⟩
  · exact failsOpen_of_fixed (fun _ => id) fun _ =>
      failsOpen_of_fixed (fun _ => id) fun _ => failsOpen_of_eq_ok rfl

/-- A list can be carried on with the flag and its closing bracket. -/
theorem readFlags_failsOpen (bracket : Token) (tokens : List Token) :
    FailsOpen offset Flags tokens (readFlags bracket tokens) := by
  fun_induction readFlags bracket tokens with
  | case1 | case6 | case7 =>
    exact failsOpen_of_eq_error [] rfl rfl ⟨[.exportWord, .rightBracket], by decide, .last rfl rfl⟩
  | case2 flag hflag | case5 flag hflag =>
    exact failsOpen_of_eq_error [flag] rfl rfl ⟨[.rightBracket], by decide, .last hflag rfl⟩
  | case3 flag hflag comma rest hcomma ih =>
    apply failsOpen_append [flag, comma]
    apply failsOpen_mono ih
    exact fun _ => .more hflag hcomma
  | case4 => exact failsOpen_of_eq_ok rfl

theorem readHeaderEnd_failsOpen (hash name : Token) (tokens : List Token)
    (hhash : hash.kind = .hash) (hname : name.kind = .identifier) :
    FailsOpen offset (fun taken => ∃ id exported, Header (hash :: name :: taken) id exported)
      tokens (readHeaderEnd name tokens) := by
  cases tokens with
  | nil => exact failsOpen_of_eq_ok rfl
  | cons t tokens =>
    rw [readHeaderEnd]
    split
    · rename_i hopening
      apply failsOpen_bind _ fun _ _ => failsOpen_of_eq_ok rfl
      apply failsOpen_append [t]
      apply failsOpen_mono (readFlags_failsOpen t tokens)
      exact fun _ hflags => ⟨_, _, .flagged hhash hname hopening hflags⟩
    · exact failsOpen_of_eq_ok rfl

theorem readRules_failsOpen (stop : Nat) (tokens : List Token) (hsound : Sound tokens) :
    FailsOpen offset (fun taken => ∃ rules, Lines taken rules) tokens (readRules stop tokens) := by
  fun_induction readRules stop tokens with
  | case1 | case5 => exact failsOpen_of_eq_ok rfl
  | case2 stop t rest hkind ih =>
    apply failsOpen_append [t]
    apply failsOpen_mono (ih (sound_of_cons t rest hsound))
    rintro taken ⟨rules, h⟩
    exact ⟨rules, .lineEnd hkind h⟩
  | case3 stop t rest hkind m hm =>
    apply failsOpen_append [t]
    apply failsOpen_mono (failsOpen_of_error (readRule_failsOpen t rest hkind) hm)
    rintro taken ⟨r, h⟩
    exact ⟨[r], by simpa using Lines.rule h .nil⟩
  | case4 stop t rest hkind r rest' hr _ ih =>
    apply failsOpen_bind _ fun _ _ => failsOpen_of_eq_ok rfl
    obtain ⟨first, rfl, hfirst⟩ := readRule_sound t rest rest' r hkind hsound hr
    have hrest : Sound rest' := (sound_of_append (t :: first) rest' hsound).2
    rw [← List.cons_append]
    apply failsOpen_append
    apply failsOpen_mono (ih hrest)
    rintro taken ⟨rules, h⟩
    exact ⟨_, .rule hfirst h⟩
  | case6 => exact failsOpen_of_eq_error [] rfl rfl ⟨[], by decide, [], .nil⟩

/-- A table fails in its header or in one of its rules, each of which can be carried on. -/
theorem readTable_failsOpen (hash : Token) (tokens : List Token) (hhash : hash.kind = .hash)
    (hsound : Sound (hash :: tokens)) :
    FailsOpen offset (fun taken => ∃ table, IsTable (hash :: taken) [] table) tokens
      (readTable hash tokens) := by
  apply failsOpen_readKind [] (by decide) ⟨_, .bare (.plain hhash rfl)⟩
  rintro name rest rfl hname
  apply failsOpen_bind
  · apply failsOpen_mono (readHeaderEnd_failsOpen hash name rest hhash hname)
    rintro taken ⟨id, exported, h⟩
    exact ⟨_, .bare h⟩
  rintro ⟨⟨exported, stop⟩, after⟩ hend
  obtain ⟨flags, rfl, hheader, -⟩ := readHeaderEnd_sound hash _ _ _ _ _ hhash hname hend
  apply failsOpen_append flags
  -- The header alone is a table, where nothing more comes.
  have hbare : CanReach offset
      (fun rest => ∃ table, IsTable (hash :: name :: (flags ++ rest)) [] table) [] :=
    ⟨[], List.not_mem_nil, _, .bare (by simpa using hheader)⟩
  apply failsOpen_bind
  · intro m hm _
    cases after with
    | nil => cases hm
    | cons t after =>
      rw [checkLineEnd] at hm
      split at hm
      · cases hm
      · cases hm
        exact ⟨[], rfl, hbare⟩
  rintro u hu
  have hline := (checkLineEnd_eq_ok_iff after).mp hu
  have hafter : Sound after := (sound_of_append (hash :: name :: flags) after hsound).2
  apply failsOpen_bind
  · intro m hm hgrammar
    obtain ⟨taken, rfl, hreach⟩ := @readRules_failsOpen offset _ after hafter m hm hgrammar
    refine ⟨taken, rfl, ?_⟩
    -- The lines that were read begin with the line end, unless the fault is there.
    cases taken with
    | nil => exact hbare
    | cons t taken =>
      obtain ⟨kinds, hnoEnd, rules, hlines⟩ := hreach
      rw [List.cons_append, headIn_cons, List.mem_singleton] at hline
      exact ⟨kinds, hnoEnd, _, .lines hheader hline (lines_of_lineEnd _ _ _ hline hlines)⟩
  · intro _ _
    exact failsOpen_of_fixed (fun _ => id) fun _ => failsOpen_of_eq_ok rfl

/-- One table after line ends is a program. -/
theorem isProgram_of_single (lineEnds first : List Token) (table : Located Table)
    (hlineEnds : ∀ t ∈ lineEnds, t.kind = .newline) (h : IsTable first [] table) :
    IsProgram (lineEnds ++ first) ⟨[table]⟩ := by
  have htables := Tables.cons h .nil
  rw [List.append_nil] at htables
  exact .mk hlineEnds htables (List.cons_ne_nil table [])

theorem isProgram_of_lineEnd (t : Token) (tokens : List Token) (p : Program)
    (ht : t.kind = .newline) (h : IsProgram tokens p) : IsProgram (t :: tokens) p := by
  cases h with
  | @mk lineEnds tokens tables hlineEnds htables hne =>
    exact @IsProgram.mk (t :: lineEnds) tokens tables (List.forall_mem_cons.mpr ⟨ht, hlineEnds⟩)
      htables hne

/-- A table in front of a program makes a program. -/
theorem isProgram_of_table (first tokens : List Token) (table : Located Table) (p : Program)
    (hfirst : IsTable first tokens table) (hhead : HeadIn [.hash] tokens)
    (h : IsProgram tokens p) : IsProgram (first ++ tokens) ⟨table :: p.tables⟩ := by
  cases h with
  | @mk lineEnds tokens tables hlineEnds htables hne =>
    rw [lineEnds_eq_nil lineEnds tokens hlineEnds hhead, List.nil_append] at hfirst ⊢
    exact @IsProgram.mk [] (first ++ tokens) _ nofun (.cons hfirst htables) (List.cons_ne_nil _ _)

/-- By induction on the tokens: the tables before the one at fault are whole. -/
theorem readTables_failsOpen (tokens : List Token) (hsound : Sound tokens) :
    FailsOpen offset (fun taken => ∃ p, IsProgram taken p) tokens (readTables tokens) := by
  fun_induction readTables tokens with
  | case1 => exact failsOpen_of_eq_ok rfl
  | case2 t rest hkind ih =>
    apply failsOpen_append [t]
    apply failsOpen_mono (ih (sound_of_cons t rest hsound))
    rintro taken ⟨p, h⟩
    exact ⟨p, isProgram_of_lineEnd t _ p hkind h⟩
  | case3 t rest hkind m hm =>
    apply failsOpen_append [t]
    apply failsOpen_mono (failsOpen_of_error (readTable_failsOpen t rest hkind hsound) hm)
    rintro taken ⟨table, h⟩
    exact ⟨_, isProgram_of_single [] _ table (List.forall_mem_nil _) h⟩
  | case4 t rest hkind table rest' htable _ ih =>
    apply failsOpen_bind _ fun _ _ => failsOpen_of_eq_ok rfl
    obtain ⟨first, rfl, hfirst, hhead⟩ := readTable_sound t rest rest' table hkind hsound htable
    have hrest : Sound rest' := (sound_of_append (t :: first) rest' hsound).2
    have hafter (others : List Token) := isTable_of_after (t :: first) rest' others table hfirst
    rw [← List.cons_append]
    apply failsOpen_append
    intro m hm hgrammar
    obtain ⟨taken, htaken, kinds, hnoEnd, p, hp⟩ := ih hrest m hm hgrammar
    refine ⟨taken, htaken, ?_⟩
    have hne : rest' ≠ [] := by
      rintro rfl
      rw [readTables] at hm
      cases hm
    -- The next table fails at its hash or later, and the first is a program by itself.
    cases taken with
    | nil =>
      have htable : IsTable (t :: first ++ []) [] table := by simpa using hafter [] hne
      exact ⟨[], List.not_mem_nil, _,
        isProgram_of_single [] _ table (List.forall_mem_nil _) htable⟩
    | cons u taken =>
      rw [htaken, List.cons_append, headIn_cons] at hhead
      refine ⟨kinds, hnoEnd, _, isProgram_of_table _ _ table p (hafter _ hne) ?_ hp⟩
      rw [List.cons_append, headIn_cons]
      exact hhead
  | case5 =>
    exact failsOpen_of_eq_error [] rfl rfl ⟨[.hash, .identifier], by decide, _,
      isProgram_of_single [] _ _ (List.forall_mem_nil _) (.bare (.plain rfl rfl))⟩

/-- Sound tokens that make no program can be carried on to one from the token at fault. -/
theorem readProgram_failsOpen (tokens : List Token) (hsound : Sound tokens) :
    FailsOpen offset (fun taken => ∃ p, IsProgram taken p) tokens (readProgram tokens) := by
  apply failsOpen_bind (readTables_failsOpen tokens hsound)
  intro tables htables
  split
  · -- Without tables there are line ends alone.
    rename_i hempty
    obtain ⟨lineEnds, rest, rfl, hlineEnds, hrest⟩ := readTables_sound tokens tables hsound htables
    rw [List.isEmpty_iff.mp hempty] at hrest
    cases hrest
    exact failsOpen_of_eq_error lineEnds rfl rfl ⟨[.hash, .identifier], by decide, _,
      isProgram_of_single lineEnds _ _ hlineEnds (.bare (.plain rfl rfl))⟩
  · exact failsOpen_of_eq_ok rfl

end Grammar

end RandomTables
