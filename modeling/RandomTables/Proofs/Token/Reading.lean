import RandomTables.Proofs.Token.Inversion
import RandomTables.Token.Scan

/-! Runs of the scanner as lists of pieces. A run is checked with the text that comes after it in
place, so that the pieces of one run and those of the next are the pieces of both together. The
scanner either runs through a whole text or stops at a step that fails, with a run before it. -/
namespace RandomTables

def textOf (pieces : List Piece) : List Char :=
  pieces.flatMap Piece.text

@[simp] theorem textOf_nil : textOf [] = [] := rfl

@[simp] theorem textOf_cons (piece : Piece) (pieces : List Piece) :
    textOf (piece :: pieces) = piece.text ++ textOf pieces := by
  simp [textOf]

@[simp] theorem textOf_singleton (piece : Piece) : textOf [piece] = piece.text := by
  simp [textOf]

@[simp] theorem textOf_append (pieces pieces' : List Piece) :
    textOf (pieces ++ pieces') = textOf pieces ++ textOf pieces' := by
  simp [textOf]

theorem length_textOf_cons (offset : Nat) (piece : Piece) (pieces : List Piece) :
    offset + (textOf (piece :: pieces)).length =
      offset + piece.text.length + (textOf pieces).length := by
  rw [textOf_cons, List.length_append, Nat.add_assoc]

/-- From the first mode and kind to the second, the scanner takes the pieces one by one from a text
that goes on with `after`. -/
inductive Reads (after : List Char) :
    Mode → Option TokenKind → List Piece → Mode → Option TokenKind → Prop
  | nil {mode last} : Reads after mode last [] mode last
  | cons {mode last piece pieces next mode' last'} :
      Takes mode last piece next (textOf pieces ++ after) →
      Reads after next (piece.kind.or last) pieces mode' last' →
      Reads after mode last (piece :: pieces) mode' last'

def Piece.tokenAt (offset : Nat) (piece : Piece) : Option Token :=
  piece.kind.map fun kind =>
    { kind, lexeme := String.ofList piece.text
      span := ⟨offset, offset + piece.text.length, by omega⟩, value := piece.value }

def tokensFrom (offset : Nat) : List Piece → List Token
  | [] => []
  | piece :: pieces =>
    (piece.tokenAt offset).toList ++ tokensFrom (offset + piece.text.length) pieces

/-- The second pieces begin where the first ones end. -/
theorem tokensFrom_append (offset : Nat) (pieces pieces' : List Piece) :
    tokensFrom offset (pieces ++ pieces') =
      tokensFrom offset pieces ++ tokensFrom (offset + (textOf pieces).length) pieces' := by
  induction pieces generalizing offset with
  | nil => rfl
  | cons piece pieces ih =>
    rw [List.cons_append, tokensFrom, tokensFrom, ih, textOf_cons, List.length_append,
      List.append_assoc, Nat.add_assoc]

/-- Each step takes its first character. -/
theorem text_ne_nil_of_takes {mode : Mode} {last : Option TokenKind} {piece : Piece} {next : Mode}
    {rest : List Char} (h : Takes mode last piece next rest) : piece.text ≠ [] := by
  obtain ⟨c, tail, htext, -⟩ := h
  rw [htext]
  exact List.cons_ne_nil c tail

/-- The scanner takes one piece only from a text, and goes on with what is left in one way only. -/
theorem takes_unique {mode : Mode} {last : Option TokenKind} {piece piece' : Piece}
    {next next' : Mode} {rest rest' : List Char} (h : Takes mode last piece next rest)
    (h' : Takes mode last piece' next' rest') (htext : piece.text ++ rest = piece'.text ++ rest') :
    piece = piece' ∧ next = next' ∧ rest = rest' := by
  obtain ⟨c, tail, hp, hstep⟩ := h
  obtain ⟨c', tail', hp', hstep'⟩ := h'
  rw [hp, hp', List.cons_append, List.cons_append] at htext
  -- Both are bites at the same text, and the length of a bite says where what is left begins.
  obtain ⟨rfl, htail⟩ := List.cons_eq_cons.mp htext
  rw [htail, hstep'] at hstep
  injection hstep with hbite
  injection hbite with hkind hvalue hmore hmode
  obtain ⟨rfl, rfl⟩ := List.append_inj htail hmore.symm
  refine ⟨?_, hmode.symm, rfl⟩
  cases piece
  cases piece'
  simp_all

section Runs
variable {after : List Char} {mode mode₁ mode₂ : Mode} {last last₁ last₂ : Option TokenKind}
variable {pieces pieces₁ pieces₂ : List Piece}

theorem reads_append (h₁ : Reads (textOf pieces₂ ++ after) mode last pieces₁ mode₁ last₁)
    (h₂ : Reads after mode₁ last₁ pieces₂ mode₂ last₂) :
    Reads after mode last (pieces₁ ++ pieces₂) mode₂ last₂ := by
  induction h₁ with
  | nil => exact h₂
  | cons htakes _ ih =>
    apply Reads.cons _ (ih h₂)
    rw [textOf_append, List.append_assoc]
    exact htakes

/-- A run can be cut between any two of its pieces. -/
theorem reads_append_iff : Reads after mode last (pieces₁ ++ pieces₂) mode₂ last₂ ↔
    ∃ mode₁ last₁, Reads (textOf pieces₂ ++ after) mode last pieces₁ mode₁ last₁ ∧
      Reads after mode₁ last₁ pieces₂ mode₂ last₂ := by
  constructor
  · intro h
    induction pieces₁ generalizing mode last with
    | nil => exact ⟨mode, last, Reads.nil, h⟩
    | cons piece pieces₁ ih =>
      cases h with
      | cons htakes hreads =>
        obtain ⟨mode₁, last₁, h₁, h₂⟩ := ih hreads
        change Takes _ _ _ _ (textOf (pieces₁ ++ pieces₂) ++ after) at htakes
        rw [textOf_append, List.append_assoc] at htakes
        exact ⟨mode₁, last₁, Reads.cons htakes h₁, h₂⟩
  · rintro ⟨mode₁, last₁, h₁, h₂⟩
    exact reads_append h₁ h₂

/-- The last piece is taken in the mode to which the others lead. -/
theorem reads_concat {piece : Piece} (h : Reads after mode last (pieces ++ [piece]) mode₂ last₂) :
    ∃ mode₁ last₁, Reads (piece.text ++ after) mode last pieces mode₁ last₁ ∧
      Takes mode₁ last₁ piece mode₂ after ∧ last₂ = piece.kind.or last₁ := by
  obtain ⟨mode₁, last₁, hpieces, hpiece⟩ := reads_append_iff.mp h
  cases hpiece with
  | cons htakes hnil =>
    cases hnil
    rw [textOf_singleton] at hpieces
    exact ⟨mode₁, last₁, hpieces, htakes, rfl⟩

/-- A run over a text begins with every run over the front of it. -/
theorem reads_split (h₁ : Reads after mode last pieces₁ mode₁ last₁)
    (h : Reads [] mode last pieces mode₂ last₂) (htext : textOf pieces = textOf pieces₁ ++ after) :
    ∃ pieces₂, pieces = pieces₁ ++ pieces₂ ∧ textOf pieces₂ = after ∧
      Reads [] mode₁ last₁ pieces₂ mode₂ last₂ := by
  -- The shorter run leads, and the longer takes the same pieces as far as it goes.
  induction h₁ generalizing pieces with
  | nil => exact ⟨pieces, rfl, htext, h⟩
  | @cons mode last piece pieces₁ next mode₁ last₁ htakes _ ih =>
    cases h with
    | nil =>
      rw [textOf_cons, List.append_assoc] at htext
      exact absurd (List.append_eq_nil_iff.mp htext.symm).1 (text_ne_nil_of_takes htakes)
    | cons htakes' hreads =>
      rw [textOf_cons, textOf_cons, List.append_assoc, ← List.append_nil (textOf _)] at htext
      obtain ⟨rfl, rfl, hrest⟩ := takes_unique htakes' htakes htext
      rw [List.append_nil] at hrest
      obtain ⟨pieces₂, rfl, hafter, h₂⟩ := ih hreads hrest
      exact ⟨pieces₂, rfl, hafter, h₂⟩

/-- The scanner takes the pieces first, and then reads what comes after them. -/
theorem scanFrom_append (offset : Nat) (h : Reads after mode last pieces mode₁ last₁) :
    scanFrom mode last offset (textOf pieces ++ after) =
      (scanFrom mode₁ last₁ (offset + (textOf pieces).length) after).map fun s =>
        ⟨tokensFrom offset pieces ++ s.tokens, s.mode⟩ := by
  induction h generalizing offset with
  | @nil mode last =>
    show scanFrom mode last offset after = (scanFrom mode last offset after).map _
    cases scanFrom mode last offset after <;> rfl
  | @cons mode last piece pieces next mode₁ last₁ htakes _ ih =>
    obtain ⟨kind, value, text⟩ := piece
    obtain ⟨c, tail, rfl, hstep⟩ := htakes
    have hnext := ih (offset + (tail.length + 1))
    have hlength := length_textOf_cons offset ⟨kind, value, c :: tail⟩ pieces
    rw [hlength, textOf_cons, List.append_assoc, List.cons_append, scanFrom, hstep]
    dsimp only [List.length_cons]
    rw [List.drop_left]
    -- A piece without a kind adds no token and leaves the last kind as it was.
    cases kind with
    | none => exact hnext
    | some kind =>
      rw [Option.some_or] at hnext
      dsimp only
      rw [hnext, Token.ofBite, List.take_left]
      cases scanFrom mode₁ last₁ (offset + (tail.length + 1) + (textOf pieces).length) after <;> rfl

/-- A run over a whole text is what the scanner reads there. -/
theorem scanFrom_of_reads (offset : Nat) (h : Reads [] mode last pieces mode₁ last₁) :
    scanFrom mode last offset (textOf pieces) =
      .ok ⟨tokensFrom offset pieces ++ [.endAt (offset + (textOf pieces).length)], mode₁⟩ := by
  have happend := scanFrom_append offset h
  rw [List.append_nil, scanFrom] at happend
  exact happend

end Runs

def HaltsAfter (mode : Mode) (last : Option TokenKind) (input : List Char) (pieces : List Piece)
    (halt : Halt) : Prop :=
  ∃ mode' last' c rest, input = textOf pieces ++ c :: rest ∧
    Reads (c :: rest) mode last pieces mode' last' ∧ step mode' last' c rest = .error halt

def Halt.faultAt (halt : Halt) (offset : Nat) : ScanFault :=
  ⟨halt.fault, offset, offset + halt.seen, halt.mode⟩

section Ends
variable {mode : Mode} {last : Option TokenKind} {input : List Char}

theorem scanFrom_of_haltsAfter {pieces : List Piece} {halt : Halt} (offset : Nat)
    (h : HaltsAfter mode last input pieces halt) :
    scanFrom mode last offset input = .error (halt.faultAt (offset + (textOf pieces).length)) := by
  obtain ⟨mode', last', c, rest, rfl, hreads, hstep⟩ := h
  rw [scanFrom_append offset hreads, scanFrom, hstep]
  rfl

/-- From any text the scanner takes pieces up to its end, or up to a step that fails. -/
theorem reads_or_halts (mode : Mode) (last : Option TokenKind) (input : List Char) :
    (∃ pieces mode' last', textOf pieces = input ∧ Reads [] mode last pieces mode' last') ∨
      ∃ pieces halt, HaltsAfter mode last input pieces halt := by
  -- The induction is on how much text is left, which every step makes less.
  induction hlength : input.length using Nat.strongRecOn generalizing mode last input with
  | ind n ih =>
    cases input with
    | nil => exact .inl ⟨[], mode, last, rfl, .nil⟩
    | cons c rest =>
      cases hstep : step mode last c rest with
      | error halt => exact .inr ⟨[], halt, mode, last, c, rest, rfl, .nil, hstep⟩
      | ok bite =>
        obtain ⟨tail, after, rfl, -, hlexes⟩ := lexes_of_step hstep
        have htakes := takes_of_lexes hlexes
        have hless : after.length < n := by
          rw [← hlength, List.length_cons, List.length_append]
          omega
        rcases ih after.length hless bite.mode (bite.kind.or last) after rfl with
          ⟨pieces, mode', last', rfl, hreads⟩ |
          ⟨pieces, halt, mode', last', d, ds, rfl, hreads, hhalt⟩
        · left
          rw [← List.append_nil (textOf pieces)] at htakes
          exact ⟨_ :: pieces, mode', last', textOf_cons _ _, .cons htakes hreads⟩
        · right
          refine ⟨_ :: pieces, halt, mode', last', d, ds, ?_, .cons htakes hreads, hhalt⟩
          rw [textOf_cons, List.append_assoc]
          rfl

/-- The scanner accepts a source if it runs through it. -/
theorem scan_eq_ok_iff (source : List Char) (s : Scan) :
    scan source = .ok s ↔ ∃ pieces last, textOf pieces = source ∧
      Reads [] .declaration none pieces s.mode last ∧
      s.tokens = tokensFrom 0 pieces ++ [.endAt source.length] := by
  constructor
  · intro h
    rcases reads_or_halts .declaration none source with
      ⟨pieces, mode, last, rfl, hreads⟩ | ⟨pieces, halt, hhalts⟩
    · rw [scan, scanFrom_of_reads 0 hreads, Nat.zero_add] at h
      cases h
      exact ⟨pieces, last, rfl, hreads, rfl⟩
    · rw [scan, scanFrom_of_haltsAfter 0 hhalts] at h
      cases h
  · rintro ⟨pieces, last, rfl, hreads, htokens⟩
    rw [scan, scanFrom_of_reads 0 hreads, Nat.zero_add, ← htokens]

structure Scan.HasPieces (s : Scan) (source : List Char) (pieces : List Piece) : Prop where
  whole : textOf pieces = source
  reads : ∃ last, Reads [] .declaration none pieces s.mode last
  tokens : s.tokens = tokensFrom 0 pieces ++ [.endAt source.length]

theorem exists_pieces_of_scan {source : List Char} {s : Scan} (h : scan source = .ok s) :
    ∃ pieces, s.HasPieces source pieces := by
  obtain ⟨pieces, last, hwhole, hreads, htokens⟩ := (scan_eq_ok_iff source s).mp h
  exact ⟨pieces, hwhole, ⟨last, hreads⟩, htokens⟩

/-- The scanner reports where it stops, and stops where it reports. -/
theorem scan_eq_error_iff (source : List Char) (f : ScanFault) :
    scan source = .error f ↔ ∃ pieces halt, HaltsAfter .declaration none source pieces halt ∧
      f = halt.faultAt (textOf pieces).length := by
  constructor
  · intro h
    rcases reads_or_halts .declaration none source with
      ⟨pieces, mode, last, rfl, hreads⟩ | ⟨pieces, halt, hhalts⟩
    · rw [scan, scanFrom_of_reads 0 hreads] at h
      cases h
    · rw [scan, scanFrom_of_haltsAfter 0 hhalts, Nat.zero_add] at h
      cases h
      exact ⟨pieces, halt, hhalts, rfl⟩
  · rintro ⟨pieces, halt, hhalts, rfl⟩
    rw [scan, scanFrom_of_haltsAfter 0 hhalts, Nat.zero_add]

end Ends

end RandomTables
