import RandomTables.Proofs.Program.Grammar
import RandomTables.Program.Reader.Expression

namespace RandomTables.Grammar

def HeadNot (kinds : List TokenKind) (tokens : List Token) : Prop :=
  ∀ t ∈ tokens.head?, t.kind ∉ kinds

@[simp] theorem headNot_nil (kinds : List TokenKind) : HeadNot kinds [] := nofun

@[simp] theorem headNot_cons (kinds : List TokenKind) (t : Token) (tokens : List Token) :
    HeadNot kinds (t :: tokens) ↔ t.kind ∉ kinds := by
  simp [HeadNot]

def HeadIn (kinds : List TokenKind) (tokens : List Token) : Prop :=
  ∀ t ∈ tokens.head?, t.kind ∈ kinds

@[simp] theorem headIn_nil (kinds : List TokenKind) : HeadIn kinds [] := nofun

@[simp] theorem headIn_cons (kinds : List TokenKind) (t : Token) (tokens : List Token) :
    HeadIn kinds (t :: tokens) ↔ t.kind ∈ kinds := by
  simp [HeadIn]

/-- A token of one of some kinds is of none of the others. -/
theorem headNot_of_headIn (kinds others : List TokenKind) (tokens : List Token)
    (h : HeadIn kinds tokens) (hdisjoint : ∀ kind ∈ kinds, kind ∉ others) :
    HeadNot others tokens :=
  fun t ht => hdisjoint _ (h t ht)

theorem headNot_append (kinds : List TokenKind) (before after : List Token)
    (hbefore : HeadNot kinds before) (hafter : HeadNot kinds after) :
    HeadNot kinds (before ++ after) := by
  cases before with
  | nil => exact hafter
  | cons t before => exact hbefore

structure Sound (tokens : List Token) : Prop where
  weights : ∀ t ∈ tokens, t.kind = .number → ∃ w, t.value = some (.weight w)
  dice : ∀ t ∈ tokens, t.kind = .diceRoll → ∃ d, t.value = some (.dice d)
  inOrder : InOrder tokens

theorem sound_of_append (before after : List Token) (h : Sound (before ++ after)) :
    Sound before ∧ Sound after := by
  obtain ⟨hweights, hdice, horder⟩ := h
  have horder := List.pairwise_append.mp horder
  simp only [List.mem_append] at hweights hdice
  exact ⟨⟨fun t ht => hweights t (.inl ht), fun t ht => hdice t (.inl ht), horder.1⟩,
    ⟨fun t ht => hweights t (.inr ht), fun t ht => hdice t (.inr ht), horder.2.1⟩⟩

theorem sound_of_cons (t : Token) (tokens : List Token) (h : Sound (t :: tokens)) :
    Sound tokens :=
  (sound_of_append [t] tokens h).2

section Links
variable {ε α β : Type}

/-- Two parts succeed if the first does and the second does with its result. -/
theorem bind_eq_ok_iff (x : Except ε α) (f : α → Except ε β) (b : β) :
    x >>= f = .ok b ↔ ∃ a, x = .ok a ∧ f a = .ok b := by
  constructor
  · exact bind_eq_ok
  · intro h
    obtain ⟨a, rfl, hf⟩ := h
    exact hf

theorem pure_eq_ok_iff (a b : α) : (pure a : Except ε α) = .ok b ↔ a = b := by
  rw [show (pure a : Except ε α) = .ok a from rfl, Except.ok.injEq]

theorem mapError_eq_ok_iff {δ : Type} (x : Except ε α) (f : ε → δ) (a : α) :
    x.mapError f = .ok a ↔ x = .ok a := by
  cases x <;> simp [Except.mapError]

end Links

/-- Reading one token takes it off the list. -/
theorem readKind_eq_ok_iff (kind : TokenKind) (expected : Expectation) (tokens rest : List Token)
    (t : Token) :
    readKind kind expected tokens = .ok (t, rest) ↔ tokens = t :: rest ∧ t.kind = kind := by
  cases tokens with
  | nil => simp [readKind]
  | cons u tokens =>
    rw [readKind]
    split
    · rename_i hkind
      constructor
      · intro h
        cases h
        exact ⟨rfl, hkind⟩
      · intro h
        obtain ⟨h, -⟩ := h
        cases h
        rfl
    · rename_i hkind
      constructor
      · intro h
        cases h
      · intro h
        obtain ⟨h, ht⟩ := h
        cases h
        exact absurd ht hkind

/-- A span goes from the start of the token to the offset, or there is none. -/
theorem spanTo_eq_ok_iff (first : Token) (stop : Nat) (s : Span) :
    spanTo first stop = .ok s ↔ s.start = first.span.start ∧ s.stop = stop := by
  obtain ⟨start', stop', hle⟩ := s
  simp only [spanTo, Span.ofOffsets]
  rw [if_neg (by omega)]
  simp only [Int.toNat_natCast]
  split
  · simp only [Except.mapError, Except.ok.injEq, Span.mk.injEq]
    omega
  · simp only [Except.mapError, reduceCtorEq, false_iff]
    omega

/-- Of tokens in order, the first has a span to the end of each that comes after it. -/
theorem exists_spanTo {first t : Token} {tokens : List Token} (h : InOrder (first :: tokens))
    (ht : t ∈ tokens) : ∃ s, spanTo first t.span.stop = .ok s := by
  have horder := List.rel_of_pairwise_cons h ht
  have hfirst := first.span.start_le_stop
  have hstop := t.span.start_le_stop
  exact ⟨⟨first.span.start, t.span.stop, by omega⟩, (spanTo_eq_ok_iff _ _ _).mpr ⟨rfl, rfl⟩⟩

/-- Tokens in order have a span, which is the extent of the list. -/
theorem spanTo_eq_ok_iff_extent (t : Token) (tokens : List Token) (h : InOrder (t :: tokens))
    (s : Span) :
    spanTo t (stopAfter t.span.stop tokens) = .ok s ↔ s = extent (t :: tokens) := by
  rw [spanTo_eq_ok_iff, ← extent_start t tokens h, ← extent_stop t tokens h]
  cases s
  cases extent (t :: tokens)
  simp

/-- What was taken is a run of bars and names. -/
theorem readModifiers_sound (tokens rest : List Token) (modifiers : List String)
    (h : readModifiers tokens = .ok (modifiers, rest)) :
    ∃ taken, tokens = taken ++ rest ∧ Modifiers taken modifiers := by
  fun_induction readModifiers tokens generalizing modifiers rest with
  | case1 =>
    cases h
    exact ⟨[], rfl, .nil⟩
  | case3 bar hbar word tokens hword ih =>
    obtain ⟨⟨words, after⟩, hwords, hret⟩ := bind_eq_ok h
    cases hret
    obtain ⟨taken, rfl, htaken⟩ := ih _ _ hwords
    exact ⟨bar :: word :: taken, rfl, .cons hbar hword htaken⟩
  | case6 =>
    cases h
    exact ⟨[], rfl, .nil⟩
  | _ => cases h

/-- As many modifiers are taken as there are, if no bar comes behind them. -/
theorem readModifiers_complete (taken rest : List Token) (modifiers : List String)
    (h : Modifiers taken modifiers) (hrest : HeadNot [.pipe] rest) :
    readModifiers (taken ++ rest) = .ok (modifiers, rest) := by
  induction h with
  | nil =>
    cases rest with
    | nil => rfl
    | cons t rest =>
      rw [List.nil_append, readModifiers.eq_def]
      exact if_neg (by simpa using hrest)
  | cons hbar hword _ ih =>
    rw [List.cons_append, List.cons_append, readModifiers.eq_def]
    simp only [hbar, hword, if_true]
    rw [ih]
    rfl

theorem readTableReference_eq_ok_iff (tokens rest : List Token) (item : Item) :
    readTableReference tokens = .ok (item, rest) ↔
      ∃ id after modifiers, tokens = id :: after ∧ id.kind = .identifier ∧
        readModifiers after = .ok (modifiers, rest) ∧ item = .table id.lexeme modifiers := by
  simp only [readTableReference, bind_eq_ok_iff, pure_eq_ok_iff, readKind_eq_ok_iff, Prod.exists,
    Prod.mk.injEq]
  constructor
  · intro h
    obtain ⟨id, after, ⟨rfl, hid⟩, modifiers, _, hmodifiers, rfl, rfl⟩ := h
    exact ⟨id, after, modifiers, rfl, hid, hmodifiers, rfl⟩
  · intro h
    obtain ⟨id, after, modifiers, rfl, hid, hmodifiers, rfl⟩ := h
    exact ⟨id, after, ⟨rfl, hid⟩, modifiers, rest, hmodifiers, rfl, rfl⟩

theorem readExternalReference_eq_ok_iff (tokens rest : List Token) (item : Item) :
    readExternalReference tokens = .ok (item, rest) ↔
      ∃ publisher slash collection hash id after modifiers,
        tokens = publisher :: slash :: collection :: hash :: id :: after ∧
        publisher.kind = .identifier ∧ slash.kind = .slash ∧ collection.kind = .identifier ∧
        hash.kind = .hash ∧ id.kind = .identifier ∧
        readModifiers after = .ok (modifiers, rest) ∧
        item = .external publisher.lexeme collection.lexeme id.lexeme modifiers := by
  simp only [readExternalReference, bind_eq_ok_iff, pure_eq_ok_iff, readKind_eq_ok_iff,
    Prod.exists, Prod.mk.injEq]
  constructor
  · intro h
    obtain ⟨publisher, _, ⟨rfl, hpublisher⟩, slash, _, ⟨rfl, hslash⟩, collection, _,
      ⟨rfl, hcollection⟩, hash, _, ⟨rfl, hhash⟩, id, after, ⟨rfl, hid⟩, modifiers, _,
      hmodifiers, rfl, rfl⟩ := h
    exact ⟨publisher, slash, collection, hash, id, after, modifiers, rfl, hpublisher, hslash,
      hcollection, hhash, hid, hmodifiers, rfl⟩
  · intro h
    obtain ⟨publisher, slash, collection, hash, id, after, modifiers, rfl, hpublisher, hslash,
      hcollection, hhash, hid, hmodifiers, rfl⟩ := h
    exact ⟨publisher, _, ⟨rfl, hpublisher⟩, slash, _, ⟨rfl, hslash⟩, collection, _,
      ⟨rfl, hcollection⟩, hash, _, ⟨rfl, hhash⟩, id, after, ⟨rfl, hid⟩, modifiers, _,
      hmodifiers, rfl, rfl⟩

theorem dice_eq_ok_iff (t : Token) (d : Dice) : t.dice = .ok d ↔ t.value = some (.dice d) := by
  unfold Token.dice
  split
  · rename_i hvalue
    rw [hvalue]
    simp
  · rename_i hvalue
    simp only [reduceCtorEq, false_iff]
    exact hvalue d

theorem diceOf_eq (t : Token) (d : Dice) (h : t.value = some (.dice d)) : diceOf t = d := by
  rw [diceOf, h]

/-- By the kind of the first token, which tells the form of the expression. -/
theorem readBraced_sound (tokens rest : List Token) (item : Item)
    (h : readBraced tokens = .ok (item, rest)) :
    ∃ taken, tokens = taken ++ rest ∧ Braced taken item := by
  cases tokens with
  | nil => cases h
  | cons t tokens =>
    simp only [readBraced] at h
    split at h
    · rename_i hhash
      obtain ⟨id, after, modifiers, rfl, hid, hmodifiers, rfl⟩ :=
        (readTableReference_eq_ok_iff _ _ _).mp h
      obtain ⟨taken, rfl, htaken⟩ := readModifiers_sound _ _ _ hmodifiers
      exact ⟨t :: id :: taken, rfl, .table hhash hid htaken⟩
    · rename_i hmark
      obtain ⟨publisher, slash, collection, hash, id, after, modifiers, rfl, hpublisher, hslash,
        hcollection, hhash, hid, hmodifiers, rfl⟩ := (readExternalReference_eq_ok_iff _ _ _).mp h
      obtain ⟨taken, rfl, htaken⟩ := readModifiers_sound _ _ _ hmodifiers
      exact ⟨t :: publisher :: slash :: collection :: hash :: id :: taken, rfl,
        .external hmark hpublisher hslash hcollection hhash hid htaken⟩
    · rename_i hroll
      simp only [bind_eq_ok_iff, pure_eq_ok_iff, mapError_eq_ok_iff, dice_eq_ok_iff,
        Prod.mk.injEq] at h
      obtain ⟨d, hd, rfl, rfl⟩ := h
      rw [← diceOf_eq t d hd]
      exact ⟨[t], rfl, .dice hroll⟩
    · cases h

/-- By the form of the expression, which tells its first token. -/
theorem readBraced_complete (taken rest : List Token) (item : Item) (h : Braced taken item)
    (hsound : Sound taken) (hrest : HeadNot [.pipe] rest) :
    readBraced (taken ++ rest) = .ok (item, rest) := by
  -- A roll is read whatever comes after it, a reference only up to what is no further modifier.
  cases h with
  | @table hash id tokens modifiers hhash hid hmodifiers =>
    simp only [List.cons_append, readBraced, hhash]
    rw [readTableReference_eq_ok_iff]
    exact ⟨id, _, modifiers, rfl, hid, readModifiers_complete _ _ _ hmodifiers hrest, rfl⟩
  | @external mark publisher slash collection hash id tokens modifiers hmark hpublisher hslash
      hcollection hhash hid hmodifiers =>
    simp only [List.cons_append, readBraced, hmark]
    rw [readExternalReference_eq_ok_iff]
    exact ⟨publisher, slash, collection, hash, id, _, modifiers, rfl, hpublisher, hslash,
      hcollection, hhash, hid, readModifiers_complete _ _ _ hmodifiers hrest, rfl⟩
  | @dice roll hroll =>
    obtain ⟨d, hd⟩ := hsound.dice roll (List.mem_singleton_self roll) hroll
    simp only [List.cons_append, List.nil_append, readBraced, hroll, bind_eq_ok_iff,
      pure_eq_ok_iff, mapError_eq_ok_iff, dice_eq_ok_iff, Prod.mk.injEq]
    exact ⟨d, hd, by rw [diceOf_eq roll d hd], trivial⟩

theorem readExpression_sound (opening : Token) (tokens rest : List Token) (e : Located Item)
    (h : readExpression opening tokens = .ok (e, rest)) :
    ∃ inner closing, tokens = inner ++ closing :: rest ∧ Braced inner e.value ∧
      closing.kind = .rightBrace ∧ e.span.stop = closing.span.stop := by
  simp only [readExpression, bind_eq_ok_iff, pure_eq_ok_iff, readKind_eq_ok_iff,
    spanTo_eq_ok_iff, Prod.exists, Prod.mk.injEq] at h
  obtain ⟨item, after, hitem, closing, _, ⟨rfl, hclosing⟩, span, hspan, rfl, rfl⟩ := h
  obtain ⟨inner, rfl, hinner⟩ := readBraced_sound _ _ _ hitem
  exact ⟨inner, closing, rfl, hinner, hclosing, hspan.2⟩

theorem readExpression_complete (opening closing : Token) (inner rest : List Token) (item : Item)
    (h : Braced inner item) (hclosing : closing.kind = .rightBrace)
    (hsound : Sound (opening :: (inner ++ [closing]))) :
    ∃ e, readExpression opening (inner ++ closing :: rest) = .ok (e, rest) ∧ e.value = item ∧
      e.span.stop = closing.span.stop := by
  have hinner := (sound_of_append _ _ (sound_of_cons _ _ hsound)).1
  -- The braces are in order, so there is a span from one to the other.
  have hmem : closing ∈ inner ++ [closing] := by simp
  obtain ⟨span, hspan⟩ := exists_spanTo hsound.inOrder hmem
  refine ⟨⟨item, span⟩, ?_, rfl, ((spanTo_eq_ok_iff _ _ _).mp hspan).2⟩
  simp only [readExpression, bind_eq_ok_iff, pure_eq_ok_iff, readKind_eq_ok_iff, Prod.exists,
    Prod.mk.injEq]
  have hitem : readBraced (inner ++ closing :: rest) = .ok (item, closing :: rest) :=
    readBraced_complete inner _ item h hinner (by simp [hclosing])
  exact ⟨item, _, hitem, closing, rest, ⟨rfl, hclosing⟩, span, hspan, rfl, rfl⟩

end RandomTables.Grammar
