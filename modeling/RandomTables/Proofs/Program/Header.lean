import RandomTables.Program.Reader.Table
import RandomTables.Proofs.Program.Expression

namespace RandomTables.Grammar

/-- What was taken is a list of flags up to its bracket. -/
theorem readFlags_sound (bracket : Token) (tokens rest : List Token) (stop : Nat)
    (h : readFlags bracket tokens = .ok (stop, rest)) :
    ∃ taken, tokens = taken ++ rest ∧ Flags taken ∧ ∀ offset, stopAfter offset taken = stop := by
  fun_induction readFlags bracket tokens generalizing stop rest with
  | case3 word hword comma tokens hcomma ih =>
    obtain ⟨taken, rfl, htaken, hstop⟩ := ih _ _ h
    refine ⟨word :: comma :: taken, rfl, .more hword hcomma htaken, ?_⟩
    intro offset
    rw [stopAfter_cons, stopAfter_cons, hstop]
  | case4 word hword closing tokens _ hclosing =>
    cases h
    exact ⟨[word, closing], rfl, .last hword hclosing, fun _ => rfl⟩
  | _ => cases h

/-- A list of flags is taken whole, whatever comes behind it. -/
theorem readFlags_complete (bracket : Token) (taken rest : List Token) (h : Flags taken)
    (offset : Nat) :
    readFlags bracket (taken ++ rest) = .ok (stopAfter offset taken, rest) := by
  induction h generalizing offset with
  | last hword hclosing =>
    rw [List.cons_append, List.cons_append, readFlags.eq_def]
    simp [hword, hclosing]
  | more hword hcomma _ ih =>
    rw [List.cons_append, List.cons_append, readFlags.eq_def]
    simp only [hword, hcomma, if_true]
    rw [ih, stopAfter_cons, stopAfter_cons]

theorem readHeaderEnd_sound (hash name : Token) (tokens rest : List Token) (exported : Bool)
    (stop : Nat) (hhash : hash.kind = .hash) (hname : name.kind = .identifier)
    (h : readHeaderEnd name tokens = .ok ((exported, stop), rest)) :
    ∃ taken, tokens = taken ++ rest ∧ Header (hash :: name :: taken) name.lexeme exported ∧
      stop = stopAfter name.span.stop taken := by
  cases tokens with
  | nil =>
    cases h
    exact ⟨[], rfl, .plain hhash hname, rfl⟩
  | cons t tokens =>
    rw [readHeaderEnd] at h
    split at h
    · rename_i hopening
      simp only [bind_eq_ok_iff, pure_eq_ok_iff, Prod.exists, Prod.mk.injEq] at h
      obtain ⟨stop', after, hflags, ⟨rfl, rfl⟩, rfl⟩ := h
      obtain ⟨taken, rfl, htaken, hstop⟩ := readFlags_sound _ _ _ _ hflags
      refine ⟨t :: taken, rfl, .flagged hhash hname hopening htaken, ?_⟩
      rw [stopAfter_cons, hstop]
    · cases h
      exact ⟨[], rfl, .plain hhash hname, rfl⟩

/-- A header begins with a hash and a name. -/
theorem header_cons (tokens : List Token) (id : String) (exported : Bool)
    (h : Header tokens id exported) :
    ∃ hash name flags, tokens = hash :: name :: flags ∧ hash.kind = .hash ∧
      name.kind = .identifier ∧ id = name.lexeme := by
  cases h with
  | plain hhash hname => exact ⟨_, _, [], rfl, hhash, hname, rfl⟩
  | flagged hhash hname => exact ⟨_, _, _, rfl, hhash, hname, rfl⟩

/-- A header without flags ends at its name, if no bracket comes behind it. -/
theorem readHeaderEnd_complete (hash name : Token) (taken rest : List Token) (id : String)
    (exported : Bool) (h : Header (hash :: name :: taken) id exported)
    (hrest : HeadNot [.leftBracket] rest) :
    readHeaderEnd name (taken ++ rest) =
      .ok ((exported, stopAfter name.span.stop taken), rest) := by
  cases h with
  | plain =>
    -- Without flags, what follows the name must not look like their beginning.
    cases rest with
    | nil => rfl
    | cons t rest =>
      rw [List.nil_append, readHeaderEnd, if_neg]
      · rfl
      · simpa using hrest
  | @flagged _ _ opening tokens _ _ hopening hflags =>
    rw [List.cons_append, readHeaderEnd, if_pos hopening,
      readFlags_complete opening tokens rest hflags opening.span.stop, stopAfter_cons]
    rfl

/-- A header is followed by a line end or by nothing. -/
theorem checkLineEnd_eq_ok_iff (tokens : List Token) :
    checkLineEnd tokens = .ok () ↔ HeadIn [.newline] tokens := by
  cases tokens with
  | nil => simp [checkLineEnd]
  | cons t tokens => simp [checkLineEnd]

end RandomTables.Grammar
