import RandomTables.Program.Reader.Expression

namespace RandomTables

/-- Puts text in front of the items. Text that a comment cut in two is joined again. -/
def consText (s : String) : List Item → List Item
  | .text s' :: items => .text (s ++ s') :: items
  | items => .text s :: items

def readContent (stop : Nat) : List Token → Except Misparse ((List Item × Nat) × List Token)
  | [] => .ok (([], stop), [])
  | t :: rest =>
    match t.kind with
    | .text => do
      let ((items, stop'), after) ← readContent t.span.stop rest
      return ((consText t.lexeme items, stop'), after)
    | .leftBrace =>
      match h : readExpression t rest with
      | .error e => .error e
      | .ok (e, rest') => do
        have := readExpression_length_lt h
        let ((items, stop'), after) ← readContent e.span.stop rest'
        return ((e.value :: items, stop'), after)
    | _ => .ok (([], stop), t :: rest)
termination_by tokens => tokens.length
decreasing_by all_goals simp only [List.length_cons]; omega

def readRule (weight : Token) (tokens : List Token) :
    Except Misparse (Located Rule × List Token) := do
  let (colon, rest) ← readKind .colon .colon tokens
  let ((items, stop), rest) ← readContent colon.span.stop rest
  if items.all Item.isBlank then .error (.unexpected .ruleContent rest)
  else
    let w ← weight.number.mapError .badPayload
    let span ← spanTo weight stop
    return (⟨⟨w, items⟩, span⟩, rest)

/-- Content may be empty, and then takes nothing. -/
theorem readContent_length_le {stop : Nat} {tokens rest : List Token} {content : List Item × Nat}
    (h : readContent stop tokens = .ok (content, rest)) : rest.length ≤ tokens.length := by
  fun_induction readContent stop tokens generalizing content rest with
  | case1 => simp_all
  | case2 stop t ts hkind ih =>
    obtain ⟨⟨_, _⟩, hc, h⟩ := bind_eq_ok h
    have := ih hc
    cases rest_eq_of_pure h
    simp only [List.length_cons]
    omega
  | case3 => simp at h
  | case4 stop t ts hkind e rest' he hlt ih =>
    obtain ⟨⟨_, _⟩, hc, h⟩ := bind_eq_ok h
    have := ih hc
    cases rest_eq_of_pure h
    simp only [List.length_cons]
    omega
  | case5 => simp_all

/-- A rule takes its colon at least. -/
theorem readRule_length_lt {weight : Token} {tokens rest : List Token} {r : Located Rule}
    (h : readRule weight tokens = .ok (r, rest)) : rest.length < tokens.length := by
  obtain ⟨⟨_, r₁⟩, h₁, h⟩ := bind_eq_ok h
  obtain ⟨⟨⟨items, _⟩, r₂⟩, h₂, h⟩ := bind_eq_ok h
  have := readKind_length h₁
  have := readContent_length_le h₂
  by_cases hb : items.all Item.isBlank
  · simp [hb] at h
  · simp only [hb, Bool.false_eq_true, if_false] at h
    obtain ⟨_, _, h⟩ := bind_eq_ok h
    obtain ⟨_, _, h⟩ := bind_eq_ok h
    cases rest_eq_of_pure h
    omega

end RandomTables
