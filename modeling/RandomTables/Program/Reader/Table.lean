import RandomTables.Program.Reader.Rule

namespace RandomTables

def readRules (stop : Nat) :
    List Token → Except Misparse ((List (Located Rule) × Nat) × List Token)
  | [] => .ok (([], stop), [])
  | t :: rest =>
    match t.kind with
    | .newline => readRules stop rest
    | .number =>
      match h : readRule t rest with
      | .error e => .error e
      | .ok (r, rest') => do
        have := readRule_length_lt h
        let ((rules, stop'), after) ← readRules r.span.stop rest'
        return ((r :: rules, stop'), after)
    | .hash => .ok (([], stop), t :: rest)
    | _ => .error (.unexpected .rule (t :: rest))
termination_by tokens => tokens.length
decreasing_by all_goals simp only [List.length_cons]; omega

/-- The flags of a table, after the opening bracket: the word `export`, once or several times with
commas between. Answers where the closing bracket ends. -/
def readFlags (bracket : Token) : List Token → Except Misparse (Nat × List Token)
  | [] => .error (.unexpected .flag [])
  | flag :: rest =>
    match flag.kind with
    | .exportWord =>
      match rest with
      | [] => .error (.unexpected .flagEnd [])
      | mark :: rest' =>
        if mark.kind = .comma then readFlags bracket rest'
        else if mark.kind = .rightBracket then .ok (mark.span.stop, rest')
        else .error (.unexpected .flagEnd (mark :: rest'))
    | .identifier => .error (.unknownFlag bracket flag (flag :: rest))
    | _ => .error (.unexpected .flag (flag :: rest))

def readHeaderEnd (name : Token) : List Token → Except Misparse ((Bool × Nat) × List Token)
  | [] => .ok ((false, name.span.stop), [])
  | t :: rest =>
    if t.kind = .leftBracket then do
      let (stop, rest) ← readFlags t rest
      return ((true, stop), rest)
    else .ok ((false, name.span.stop), t :: rest)

def checkLineEnd : List Token → Except Misparse Unit
  | [] => .ok ()
  | t :: rest =>
    if t.kind = .newline then .ok () else .error (.unexpected .lineEnd (t :: rest))

def readTable (hash : Token) (tokens : List Token) :
    Except Misparse (Located Table × List Token) := do
  let (name, rest) ← readKind .identifier .tableName tokens
  let ((exported, stop), rest) ← readHeaderEnd name rest
  checkLineEnd rest
  let ((rules, stop), rest) ← readRules stop rest
  let span ← spanTo hash stop
  return (⟨⟨name.lexeme, exported, rules⟩, span⟩, rest)

theorem readRules_length_le {stop : Nat} {tokens rest : List Token}
    {rules : List (Located Rule) × Nat} (h : readRules stop tokens = .ok (rules, rest)) :
    rest.length ≤ tokens.length := by
  fun_induction readRules stop tokens generalizing rules rest with
  | case1 => simp_all
  | case2 stop t ts hkind ih =>
    have := ih h
    simp only [List.length_cons]
    omega
  | case3 => simp at h
  | case4 stop t ts hkind r rest' hr hlt ih =>
    obtain ⟨⟨_, _⟩, hc, h⟩ := bind_eq_ok h
    have := ih hc
    cases rest_eq_of_pure h
    simp only [List.length_cons]
    omega
  | case5 => simp_all
  | case6 => simp at h

theorem readFlags_length_lt {bracket : Token} {tokens rest : List Token} {stop : Nat}
    (h : readFlags bracket tokens = .ok (stop, rest)) : rest.length < tokens.length := by
  fun_induction readFlags bracket tokens generalizing stop rest with
  | case3 flag hkind mark rest' hmark ih =>
    have := ih h
    simp only [List.length_cons]
    omega
  | case4 =>
    cases h
    simp only [List.length_cons]
    omega
  | _ => simp at h

theorem readHeaderEnd_length_le {name : Token} {tokens rest : List Token} {header : Bool × Nat}
    (h : readHeaderEnd name tokens = .ok (header, rest)) : rest.length ≤ tokens.length := by
  cases tokens with
  | nil => simp_all [readHeaderEnd]
  | cons t ts =>
    simp only [readHeaderEnd] at h
    split at h
    · obtain ⟨⟨_, _⟩, hf, h⟩ := bind_eq_ok h
      have := readFlags_length_lt hf
      cases rest_eq_of_pure h
      simp only [List.length_cons]
      omega
    · simp_all

/-- A table takes its name at least. -/
theorem readTable_length_lt {hash : Token} {tokens rest : List Token} {t : Located Table}
    (h : readTable hash tokens = .ok (t, rest)) : rest.length < tokens.length := by
  obtain ⟨⟨_, r₁⟩, h₁, h⟩ := bind_eq_ok h
  obtain ⟨⟨⟨_, _⟩, r₂⟩, h₂, h⟩ := bind_eq_ok h
  obtain ⟨_, _, h⟩ := bind_eq_ok h
  obtain ⟨⟨⟨_, _⟩, r₃⟩, h₃, h⟩ := bind_eq_ok h
  obtain ⟨_, _, h⟩ := bind_eq_ok h
  have := readKind_length h₁
  have := readHeaderEnd_length_le h₂
  have := readRules_length_le h₃
  cases rest_eq_of_pure h
  omega

def readTables : List Token → Except Misparse (List (Located Table))
  | [] => .ok []
  | t :: rest =>
    match t.kind with
    | .newline => readTables rest
    | .hash =>
      match h : readTable t rest with
      | .error e => .error e
      | .ok (table, rest') => do
        have := readTable_length_lt h
        return table :: (← readTables rest')
    | _ => .error (.unexpected .tableDeclaration (t :: rest))
termination_by tokens => tokens.length
decreasing_by all_goals simp only [List.length_cons]; omega

def readProgram (tokens : List Token) : Except Misparse Program := do
  let tables ← readTables tokens
  if tables.isEmpty then .error .noTables else return ⟨tables⟩

end RandomTables
