import RandomTables.Program.Reader.Basic

namespace RandomTables

def readModifiers : List Token → Except Misparse (List String × List Token)
  | [] => .ok ([], [])
  | bar :: rest =>
    if bar.kind = .pipe then
      match rest with
      | [] => .error (.unexpected .modifier [])
      | word :: rest' =>
        if word.kind = .modifier then do
          let (modifiers, after) ← readModifiers rest'
          return (word.lexeme :: modifiers, after)
        else if word.kind = .identifier then .error (.unexpected .knownModifier (word :: rest'))
        else .error (.unexpected .modifier (word :: rest'))
    else .ok ([], bar :: rest)

def readTableReference (tokens : List Token) : Except Misparse (Item × List Token) := do
  let (id, rest) ← readKind .identifier .tableName tokens
  let (modifiers, rest) ← readModifiers rest
  return (.table id.lexeme modifiers, rest)

def readExternalReference (tokens : List Token) : Except Misparse (Item × List Token) := do
  let (publisher, rest) ← readKind .identifier .publisher tokens
  let (_, rest) ← readKind .slash .slash rest
  let (collection, rest) ← readKind .identifier .collection rest
  let (_, rest) ← readKind .hash .hash rest
  let (id, rest) ← readKind .identifier .tableName rest
  let (modifiers, rest) ← readModifiers rest
  return (.external publisher.lexeme collection.lexeme id.lexeme modifiers, rest)

def readBraced : List Token → Except Misparse (Item × List Token)
  | [] => .error (.unexpected .expression [])
  | t :: rest =>
    match t.kind with
    | .hash => readTableReference rest
    | .atSign => readExternalReference rest
    | .diceRoll => do
      let d ← t.dice.mapError .badPayload
      return (.dice d, rest)
    | _ => .error (.unexpected .expression (t :: rest))

def readExpression (brace : Token) (tokens : List Token) :
    Except Misparse (Located Item × List Token) := do
  let (item, rest) ← readBraced tokens
  let (closing, rest) ← readKind .rightBrace .closingBrace rest
  let span ← spanTo brace closing.span.stop
  return (⟨item, span⟩, rest)

/-- Readers never put a token back. -/
theorem readModifiers_length_le {tokens rest : List Token} {modifiers : List String}
    (h : readModifiers tokens = .ok (modifiers, rest)) : rest.length ≤ tokens.length := by
  fun_induction readModifiers tokens generalizing modifiers rest with
  | case1 => simp_all
  | case2 => simp at h
  | case3 bar hbar word rest' hword ih =>
    obtain ⟨⟨ms, after⟩, hms, hret⟩ := bind_eq_ok h
    have := ih hms
    cases rest_eq_of_pure hret
    simp only [List.length_cons]
    omega
  | case4 => simp at h
  | case5 => simp at h
  | case6 => simp_all

theorem readTableReference_length_lt {tokens rest : List Token} {item : Item}
    (h : readTableReference tokens = .ok (item, rest)) : rest.length < tokens.length := by
  obtain ⟨⟨id, r₁⟩, h₁, h⟩ := bind_eq_ok h
  obtain ⟨⟨ms, r₂⟩, h₂, h⟩ := bind_eq_ok h
  have := readKind_length h₁
  have := readModifiers_length_le h₂
  cases rest_eq_of_pure h
  omega

theorem readExternalReference_length_lt {tokens rest : List Token} {item : Item}
    (h : readExternalReference tokens = .ok (item, rest)) : rest.length < tokens.length := by
  obtain ⟨⟨_, r₁⟩, h₁, h⟩ := bind_eq_ok h
  obtain ⟨⟨_, r₂⟩, h₂, h⟩ := bind_eq_ok h
  obtain ⟨⟨_, r₃⟩, h₃, h⟩ := bind_eq_ok h
  obtain ⟨⟨_, r₄⟩, h₄, h⟩ := bind_eq_ok h
  obtain ⟨⟨_, r₅⟩, h₅, h⟩ := bind_eq_ok h
  obtain ⟨⟨_, r₆⟩, h₆, h⟩ := bind_eq_ok h
  have := readKind_length h₁
  have := readKind_length h₂
  have := readKind_length h₃
  have := readKind_length h₄
  have := readKind_length h₅
  have := readModifiers_length_le h₆
  cases rest_eq_of_pure h
  omega

theorem readBraced_length_lt {tokens rest : List Token} {item : Item}
    (h : readBraced tokens = .ok (item, rest)) : rest.length < tokens.length := by
  cases tokens with
  | nil => simp [readBraced] at h
  | cons t ts =>
    simp only [readBraced] at h
    split at h
    · exact Nat.lt_succ_of_lt (readTableReference_length_lt h)
    · exact Nat.lt_succ_of_lt (readExternalReference_length_lt h)
    · obtain ⟨_, _, h⟩ := bind_eq_ok h
      cases rest_eq_of_pure h
      simp
    · simp at h

/-- An expression takes its closing brace at least, so that repeated reading comes to an end. -/
theorem readExpression_length_lt {brace : Token} {tokens rest : List Token} {e : Located Item}
    (h : readExpression brace tokens = .ok (e, rest)) : rest.length < tokens.length := by
  obtain ⟨⟨_, r₁⟩, h₁, h⟩ := bind_eq_ok h
  obtain ⟨⟨_, r₂⟩, h₂, h⟩ := bind_eq_ok h
  obtain ⟨_, _, h⟩ := bind_eq_ok h
  have := readBraced_length_lt h₁
  have := readKind_length h₂
  cases rest_eq_of_pure h
  omega

end RandomTables
