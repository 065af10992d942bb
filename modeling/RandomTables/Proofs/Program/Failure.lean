import RandomTables.Proofs.Program.Table

namespace RandomTables

def Misparse.FitsIn (tokens : List Token) : Misparse → Prop
  | unexpected _ remaining => remaining <:+ tokens
  | unknownFlag bracket flag _ => bracket ∈ tokens ∧ flag ∈ tokens ∧ flag.kind = .identifier
  | noTables => True
  | badPayload _ | badSpan _ => False

namespace Grammar

def FailsIn {α : Type} (tokens : List Token) (r : Except Misparse α) : Prop :=
  ∀ m, r = .error m → m.FitsIn tokens

section Contract
variable {α β : Type} {tokens tokens' : List Token} {r : Except Misparse α}

/-- A fault at the end of a list is one in the list. -/
theorem fitsIn_of_suffix {m : Misparse} (h : m.FitsIn tokens) (hsuffix : tokens <:+ tokens') :
    m.FitsIn tokens' := by
  cases m with
  | unexpected => exact h.trans hsuffix
  | unknownFlag => exact ⟨hsuffix.subset h.1, hsuffix.subset h.2.1, h.2.2⟩
  | noTables => trivial
  | badPayload | badSpan => exact h

theorem failsIn_of_suffix (h : FailsIn tokens r) (hsuffix : tokens <:+ tokens') :
    FailsIn tokens' r :=
  fun m hm => fitsIn_of_suffix (h m hm) hsuffix

theorem failsIn_of_eq_ok {a : α} (h : r = .ok a) : FailsIn tokens r := by
  intro m hm
  rw [h] at hm
  cases hm

theorem failsIn_of_eq_error {m : Misparse} (h : r = .error m) (hfits : m.FitsIn tokens) :
    FailsIn tokens r := by
  intro m' hm'
  rw [h] at hm'
  cases hm'
  exact hfits

/-- A chain of readers fails for one of the tokens if each of its links does. -/
theorem failsIn_bind {f : α → Except Misparse β} (h : FailsIn tokens r)
    (hf : ∀ a, r = .ok a → FailsIn tokens (f a)) : FailsIn tokens (r >>= f) := by
  cases r with
  | error m => exact failsIn_of_eq_error rfl (h m rfl)
  | ok a => exact hf a rfl

end Contract

/-- The first token is the one at fault. -/
theorem readKind_failsIn (kind : TokenKind) (expected : Expectation) (tokens : List Token) :
    FailsIn tokens (readKind kind expected tokens) := by
  cases tokens with
  | nil => exact failsIn_of_eq_error rfl List.suffix_rfl
  | cons t tokens =>
    rw [readKind]
    split
    · exact failsIn_of_eq_ok rfl
    · exact failsIn_of_eq_error rfl List.suffix_rfl

theorem readModifiers_failsIn (tokens : List Token) : FailsIn tokens (readModifiers tokens) := by
  fun_induction readModifiers tokens with
  | case1 | case6 => exact failsIn_of_eq_ok rfl
  | case2 bar => exact failsIn_of_eq_error rfl (List.nil_suffix)
  | case3 bar _ word tokens _ ih =>
    have hsuffix : tokens <:+ bar :: word :: tokens :=
      (List.suffix_cons word tokens).trans (List.suffix_cons bar _)
    exact failsIn_bind (failsIn_of_suffix ih hsuffix) fun _ _ => failsIn_of_eq_ok rfl
  | case4 bar | case5 bar => exact failsIn_of_eq_error rfl (List.suffix_cons bar _)

/-- A word of the expected kind comes first, and the tokens after it are for what follows. -/
theorem failsIn_readKind {α : Type} (kind : TokenKind) (expected : Expectation)
    (tokens : List Token) (f : Token × List Token → Except Misparse α)
    (h : ∀ t rest, tokens = t :: rest → t.kind = kind → FailsIn rest (f (t, rest))) :
    FailsIn tokens (readKind kind expected tokens >>= f) := by
  apply failsIn_bind (readKind_failsIn kind expected tokens)
  rintro ⟨t, rest⟩ ht
  obtain ⟨rfl, hkind⟩ := (readKind_eq_ok_iff _ _ _ _ _).mp ht
  exact failsIn_of_suffix (h t rest rfl hkind) (List.suffix_cons t rest)

theorem readTableReference_failsIn (tokens : List Token) :
    FailsIn tokens (readTableReference tokens) := by
  apply failsIn_readKind
  intro id rest _ _
  exact failsIn_bind (readModifiers_failsIn rest) fun _ _ => failsIn_of_eq_ok rfl

theorem readExternalReference_failsIn (tokens : List Token) :
    FailsIn tokens (readExternalReference tokens) := by
  iterate 5
    apply failsIn_readKind
    intro _ rest _ _
  exact failsIn_bind (readModifiers_failsIn rest) fun _ _ => failsIn_of_eq_ok rfl

/-- A roll in sound tokens has its dice, so that only the form can be at fault. -/
theorem readBraced_failsIn (tokens : List Token) (hsound : Sound tokens) :
    FailsIn tokens (readBraced tokens) := by
  cases tokens with
  | nil => exact failsIn_of_eq_error rfl List.suffix_rfl
  | cons t rest =>
    have hsuffix := List.suffix_cons t rest
    rw [readBraced]
    split
    · exact failsIn_of_suffix (readTableReference_failsIn rest) hsuffix
    · exact failsIn_of_suffix (readExternalReference_failsIn rest) hsuffix
    · -- A roll that the scanner read carries its dice.
      rename_i hkind
      obtain ⟨d, hd⟩ := hsound.dice t List.mem_cons_self hkind
      rw [(dice_eq_ok_iff t d).mpr hd]
      exact failsIn_of_eq_ok rfl
    · exact failsIn_of_eq_error rfl List.suffix_rfl

theorem readExpression_failsIn (opening : Token) (tokens : List Token)
    (hsound : Sound (opening :: tokens)) : FailsIn tokens (readExpression opening tokens) := by
  apply failsIn_bind (readBraced_failsIn tokens (sound_of_cons _ _ hsound))
  rintro ⟨item, rest⟩ hitem
  obtain ⟨inner, rfl, -⟩ := readBraced_sound _ _ _ hitem
  apply failsIn_of_suffix _ (List.suffix_append inner rest)
  apply failsIn_readKind
  rintro closing rest rfl -
  -- The closing brace comes after the opening one.
  have hmem : closing ∈ inner ++ closing :: rest := by simp
  obtain ⟨span, hspan⟩ := exists_spanTo hsound.inOrder hmem
  exact failsIn_bind (failsIn_of_eq_ok hspan) fun _ _ => failsIn_of_eq_ok rfl

/-- By induction on the tokens: each item leaves the end of the list. -/
theorem readContent_failsIn (stop : Nat) (tokens : List Token) (hsound : Sound tokens) :
    FailsIn tokens (readContent stop tokens) := by
  fun_induction readContent stop tokens with
  | case1 | case5 => exact failsIn_of_eq_ok rfl
  | case2 stop t rest _ ih =>
    have hrest := failsIn_of_suffix (ih (sound_of_cons t rest hsound)) (List.suffix_cons t rest)
    exact failsIn_bind hrest fun _ _ => failsIn_of_eq_ok rfl
  | case3 stop t rest _ m hm =>
    exact failsIn_of_eq_error rfl
      (fitsIn_of_suffix (readExpression_failsIn t rest hsound m hm) (List.suffix_cons t rest))
  | case4 stop t rest _ e rest' he _ ih =>
    obtain ⟨inner, closing, rfl, -⟩ := readExpression_sound t rest rest' e he
    have hsuffix : rest' <:+ t :: (inner ++ closing :: rest') :=
      ⟨t :: (inner ++ [closing]), by simp⟩
    have hrest : Sound rest' := by
      obtain ⟨before, hbefore⟩ := hsuffix
      rw [← hbefore] at hsound
      exact (sound_of_append before rest' hsound).2
    exact failsIn_bind (failsIn_of_suffix (ih hrest) hsuffix) fun _ _ => failsIn_of_eq_ok rfl

theorem readRule_failsIn (weight : Token) (tokens : List Token) (hweight : weight.kind = .number)
    (hsound : Sound (weight :: tokens)) : FailsIn tokens (readRule weight tokens) := by
  apply failsIn_readKind
  rintro colon rest rfl -
  have hrest : Sound rest := sound_of_cons _ _ (sound_of_cons _ _ hsound)
  apply failsIn_bind (readContent_failsIn _ rest hrest)
  rintro ⟨⟨items, stop⟩, after⟩ hitems
  obtain ⟨taken, rfl, -, rfl⟩ := readContent_sound _ _ _ _ _ hitems
  dsimp only
  split
  · exact failsIn_of_eq_error rfl (List.suffix_append taken after)
  · -- With content the rule has its weight and its span, as the tokens carry both.
    obtain ⟨w, hw⟩ := hsound.weights weight List.mem_cons_self hweight
    have hrule : Sound (weight :: colon :: taken) :=
      (sound_of_append (weight :: colon :: taken) after hsound).1
    have hspan := (spanTo_eq_ok_iff_extent weight (colon :: taken) hrule.inOrder _).mpr rfl
    rw [stopAfter_cons] at hspan
    rw [(number_eq_ok_iff weight w).mpr hw, hspan]
    exact failsIn_of_eq_ok rfl

/-- The opening bracket is in front of the flags, so that the tokens from there on are looked at. -/
theorem readFlags_failsIn (bracket : Token) (tokens all : List Token) (hbracket : bracket ∈ all)
    (hsuffix : tokens <:+ all) : FailsIn all (readFlags bracket tokens) := by
  fun_induction readFlags bracket tokens with
  | case1 => exact failsIn_of_eq_error rfl hsuffix
  | case2 => exact failsIn_of_eq_error rfl List.nil_suffix
  | case3 flag _ comma rest _ ih =>
    exact ih (((List.suffix_cons comma rest).trans (List.suffix_cons flag _)).trans hsuffix)
  | case4 => exact failsIn_of_eq_ok rfl
  | case5 flag => exact failsIn_of_eq_error rfl ((List.suffix_cons flag _).trans hsuffix)
  | case6 flag rest hkind =>
    exact failsIn_of_eq_error rfl ⟨hbracket, hsuffix.subset List.mem_cons_self, hkind⟩
  | case7 => exact failsIn_of_eq_error rfl hsuffix

theorem readHeaderEnd_failsIn (name : Token) (tokens : List Token) :
    FailsIn tokens (readHeaderEnd name tokens) := by
  cases tokens with
  | nil => exact failsIn_of_eq_ok rfl
  | cons t tokens =>
    rw [readHeaderEnd]
    split
    · have hflags := readFlags_failsIn t tokens (t :: tokens) List.mem_cons_self
        (List.suffix_cons t tokens)
      exact failsIn_bind hflags fun _ _ => failsIn_of_eq_ok rfl
    · exact failsIn_of_eq_ok rfl

theorem checkLineEnd_failsIn (tokens : List Token) : FailsIn tokens (checkLineEnd tokens) := by
  cases tokens with
  | nil => exact failsIn_of_eq_ok rfl
  | cons t tokens =>
    rw [checkLineEnd]
    split
    · exact failsIn_of_eq_ok rfl
    · exact failsIn_of_eq_error rfl List.suffix_rfl

theorem readRules_failsIn (stop : Nat) (tokens : List Token) (hsound : Sound tokens) :
    FailsIn tokens (readRules stop tokens) := by
  fun_induction readRules stop tokens with
  | case1 | case5 => exact failsIn_of_eq_ok rfl
  | case2 stop t rest _ ih =>
    exact failsIn_of_suffix (ih (sound_of_cons t rest hsound)) (List.suffix_cons t rest)
  | case3 stop t rest hkind m hm =>
    exact failsIn_of_eq_error rfl
      (fitsIn_of_suffix (readRule_failsIn t rest hkind hsound m hm) (List.suffix_cons t rest))
  | case4 stop t rest hkind r rest' hr _ ih =>
    obtain ⟨taken, rfl, -⟩ := readRule_sound t rest rest' r hkind hsound hr
    have hrest : Sound rest' := (sound_of_append (t :: taken) rest' hsound).2
    have hrules := failsIn_of_suffix (ih hrest) (List.suffix_append (t :: taken) rest')
    exact failsIn_bind hrules fun _ _ => failsIn_of_eq_ok rfl
  | case6 => exact failsIn_of_eq_error rfl List.suffix_rfl

/-- By the parts of a table: name, header and rules. -/
theorem readTable_failsIn (hash : Token) (tokens : List Token) (hhash : hash.kind = .hash)
    (hsound : Sound (hash :: tokens)) : FailsIn tokens (readTable hash tokens) := by
  apply failsIn_readKind
  rintro name rest rfl hname
  apply failsIn_bind (readHeaderEnd_failsIn name rest)
  rintro ⟨⟨exported, stop⟩, after⟩ hend
  obtain ⟨flags, rfl, hheader, rfl⟩ := readHeaderEnd_sound hash _ _ _ _ _ hhash hname hend
  apply failsIn_of_suffix _ (List.suffix_append flags after)
  apply failsIn_bind (checkLineEnd_failsIn after)
  intro _ _
  have hafter : Sound after := (sound_of_append (hash :: name :: flags) after hsound).2
  apply failsIn_bind (readRules_failsIn _ after hafter)
  rintro ⟨⟨rules, stop⟩, rest'⟩ hrules
  obtain ⟨lines, rfl, hlines, rfl, -⟩ := readRules_sound _ _ _ _ _ hafter hrules
  -- The lines come after the header, so that the table has a span too.
  have horder : InOrder (hash :: (name :: flags) ++ lines) :=
    (sound_of_append (hash :: name :: flags ++ lines) rest' (by simpa using hsound)).1.inOrder
  have hspan :=
    (spanTo_eq_ok_iff_tableSpan hash (name :: flags) lines rules hlines horder _).mpr rfl
  rw [stopAfter_cons] at hspan
  exact failsIn_bind (failsIn_of_eq_ok hspan) fun _ _ => failsIn_of_eq_ok rfl

/-- By induction on the tokens, which each table leaves fewer of. -/
theorem readTables_failsIn (tokens : List Token) (hsound : Sound tokens) :
    FailsIn tokens (readTables tokens) := by
  fun_induction readTables tokens with
  | case1 => exact failsIn_of_eq_ok rfl
  | case2 t rest _ ih =>
    exact failsIn_of_suffix (ih (sound_of_cons t rest hsound)) (List.suffix_cons t rest)
  | case3 t rest hkind m hm =>
    exact failsIn_of_eq_error rfl
      (fitsIn_of_suffix (readTable_failsIn t rest hkind hsound m hm) (List.suffix_cons t rest))
  | case4 t rest hkind table rest' htable _ ih =>
    obtain ⟨taken, rfl, -⟩ := readTable_sound t rest rest' table hkind hsound htable
    have hrest : Sound rest' := (sound_of_append (t :: taken) rest' hsound).2
    have htables := failsIn_of_suffix (ih hrest) (List.suffix_append (t :: taken) rest')
    exact failsIn_bind htables fun _ _ => failsIn_of_eq_ok rfl
  | case5 => exact failsIn_of_eq_error rfl List.suffix_rfl

/-- Sound tokens that make no program are at fault themselves. -/
theorem readProgram_failsIn (tokens : List Token) (hsound : Sound tokens) :
    FailsIn tokens (readProgram tokens) := by
  apply failsIn_bind (readTables_failsIn tokens hsound)
  intro tables _
  split
  · exact failsIn_of_eq_error rfl trivial
  · exact failsIn_of_eq_ok rfl

end Grammar

end RandomTables
