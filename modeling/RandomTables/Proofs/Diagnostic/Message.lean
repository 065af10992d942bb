import Mathlib.Data.List.TakeWhile
import RandomTables.Proofs.Program.Outcome
import RandomTables.Proofs.Token.LineEnd

namespace RandomTables

def OneLine (s : String) : Prop :=
  '\n' ∉ s.toList

instance (s : String) : Decidable (OneLine s) :=
  inferInstanceAs (Decidable ('\n' ∉ s.toList))

theorem not_mem_toList_append {c : Char} {s t : String} (hs : c ∉ s.toList) (ht : c ∉ t.toList) :
    c ∉ (s ++ t).toList := by
  rw [String.toList_append, List.mem_append, not_or]
  exact ⟨hs, ht⟩

theorem oneLine_append {s t : String} (hs : OneLine s) (ht : OneLine t) : OneLine (s ++ t) :=
  not_mem_toList_append hs ht

theorem oneLine_ofList {s : List Char} (h : '\n' ∉ s) : OneLine (String.ofList s) := by
  rwa [OneLine, String.toList_ofList]

/-- A character without a property is not among characters that have it. -/
theorem not_mem_of_property {p : Char → Bool} {c : Char} {s : List Char} (hc : p c = false)
    (h : ∀ d ∈ s, p d = true) : c ∉ s := by
  intro hmem
  rw [h c hmem] at hc
  cases hc

theorem not_mem_takeWhile {p : Char → Bool} {c : Char} (s : List Char) (hc : p c = false) :
    c ∉ s.takeWhile p :=
  not_mem_of_property hc fun _ => List.mem_takeWhile_imp

/-- A name holds letters and what may continue a name, and nothing else. -/
theorem not_mem_of_isName {c : Char} {s : List Char} (hletter : Text.isLetter c = false)
    (hrest : Text.continuesName c = false) (h : IsName s) : c ∉ s := by
  obtain ⟨d, tail, rfl, hd, htail⟩ := h
  rw [List.mem_cons, not_or]
  refine ⟨fun heq => ?_, not_mem_of_property hrest htail⟩
  rw [heq, hd] at hletter
  cases hletter

section Faults
variable {mode : Mode} {last : Option TokenKind} {c : Char} {s : List Char}

/-- The message quotes the character, which is no line feed. -/
theorem oneLine_message_character (hc : c ≠ '\n') :
    OneLine (LexFault.invalidCharacter mode c).message := by
  have hcharacter : OneLine c.toString := by
    rw [OneLine, Char.toString, String.toList_singleton, List.mem_singleton]
    exact hc.symm
  exact oneLine_append (oneLine_append (by decide) hcharacter) (by decide)

theorem oneLine_message_number {lexeme : List Char} (h : '\n' ∉ lexeme) :
    OneLine (LexFault.invalidNumber (String.ofList lexeme)).message :=
  oneLine_append (oneLine_append (by decide) (oneLine_ofList h)) (by decide)

theorem oneLine_message_dice {lexeme : List Char} (h : '\n' ∉ lexeme) (fault : DiceFault) :
    OneLine (LexFault.invalidDice (String.ofList lexeme) fault).message := by
  have hfault : OneLine fault.message := by cases fault <;> decide
  have hroll := oneLine_append (by decide : OneLine "Invalid dice roll '") (oneLine_ofList h)
  exact oneLine_append (oneLine_append hroll (by decide)) hfault

theorem not_mem_of_isFraction {fraction : List Char} (h : IsFraction fraction) :
    '\n' ∉ fraction := by
  rcases h with rfl | ⟨digits, rfl, -, hall⟩
  · exact List.not_mem_nil
  · rw [List.mem_cons, not_or]
    exact ⟨by decide, not_mem_of_property (by decide) hall⟩

/-- What a report quotes is no line feed, and a word of digits and letters. -/
theorem oneLine_of_misreads {fault : LexFault} (h : Misreads mode last (.reported fault) s)
    (hfeed : s.head? ≠ some '\n') : OneLine fault.message := by
  cases h with
  | invalidCharacter => exact oneLine_message_character fun hc => hfeed (congrArg some hc)
  | unterminatedComment | zeroWeight => decide
  | @invalidNumber _ c digits fraction d more rest hc hdigits hfraction hclings hmore _ =>
    have hliteral : '\n' ∉ c :: digits :=
      not_mem_of_property (by decide) (List.forall_mem_cons.mpr ⟨hc, hdigits⟩)
    have hd : '\n' ≠ d := (Text.ne_of_property clingsToNumber d _ hclings (by decide)).symm
    have hrun : '\n' ∉ d :: more :=
      List.not_mem_cons_of_ne_of_not_mem hd (not_mem_of_property (by decide) hmore)
    refine oneLine_message_number ?_
    rw [List.mem_append, List.mem_append, not_or, not_or]
    exact ⟨⟨hliteral, not_mem_of_isFraction hfraction⟩, hrun⟩
  | invalidDice _ hrun =>
    exact oneLine_message_dice (not_mem_of_property (by decide) hrun.word) _

end Faults

section Tokens
variable {mode : Mode} {last : Option TokenKind} {pieces : List Piece}

/-- A token that the scanner read, other than a line end or rule text, is on one line. -/
theorem oneLine_lexeme (h : Reads [] .declaration none pieces mode last) {t : Token}
    (ht : t ∈ tokensFrom 0 pieces) (htext : t.kind ≠ .text) (hline : t.kind ≠ .newline) :
    OneLine t.lexeme := by
  obtain ⟨before, after, hsplit⟩ := List.append_of_mem ht
  obtain ⟨front, piece, back, rfl, -, hpiece, -⟩ := exists_piece_of_token 0 pieces hsplit
  obtain ⟨mode', last', -, hback⟩ := reads_append_iff.mp h
  cases hback with
  | cons htakes =>
    have hplain := oneLine_of_token (takes_iff_lexes.mp htakes)
    rw [tokenAt_kind hpiece] at hplain
    obtain ⟨kind, -, rfl⟩ := Option.map_eq_some_iff.mp hpiece
    refine oneLine_ofList fun hmem => ?_
    exact absurd (hplain nofun (htext ∘ Option.some.inj) (hline ∘ Option.some.inj) _ hmem)
      (by decide)

/-- Messages quote words, and speak of all other tokens by their kind. -/
theorem oneLine_describe {t : Token}
    (h : t.kind ≠ .text → t.kind ≠ .newline → OneLine t.lexeme) : OneLine t.describe := by
  have hquoted (htext : t.kind ≠ .text) (hline : t.kind ≠ .newline) :
      OneLine ("'" ++ t.lexeme ++ "'") :=
    oneLine_append (oneLine_append (by decide) (h htext hline)) (by decide)
  rw [Token.describe]
  split
  case h_1 hkind | h_2 hkind | h_3 hkind | h_4 hkind =>
    exact hquoted (by rw [hkind]; decide) (by rw [hkind]; decide)
  case h_5 => cases t.kind <;> decide

end Tokens

/-- Expectations name kinds of tokens, and quote what was found. -/
theorem oneLine_message (e : Expectation) {found : String} (h : OneLine found) :
    OneLine (e.message found) := by
  cases e
  case ruleContent => exact (by decide : OneLine "Rule has no content")
  all_goals exact oneLine_append (by decide +kernel) h

structure Diagnostic.IsOneLine (d : Diagnostic) : Prop where
  heading : OneLine d.heading
  message : OneLine d.message

section Reports
variable {e : ParseError}

theorem Diagnostic.isOneLine_of_code {d : Diagnostic} {code : String} (hcode : d.code = some code)
    (h : OneLine code) (hmessage : OneLine d.message) :
    d.IsOneLine := by
  refine ⟨?_, hmessage⟩
  have hseverity : OneLine (d.severity ++ "[") := by
    rw [Diagnostic.severity]
    cases d.stage <;> decide
  rw [Diagnostic.heading, hcode]
  exact oneLine_append (oneLine_append hseverity h) (by decide)

/-- What is reported of a fault in the words of a source is its own diagnostic. -/
theorem diagnostic_of_scanFault {f : ScanFault} {source : List Char}
    (h : f.failure source = .reported e) : ∃ fault, f.fault = .reported fault ∧
      e.diagnostic = fault.diagnose (.ofSource source) f.start := by
  obtain ⟨fault, start, cursor, mode⟩ := f
  cases fault with
  | overlongDice => cases h
  | reported fault =>
    refine ⟨fault, rfl, ?_⟩
    cases fault <;> exact congrArg ParseError.diagnostic (ParseFailure.reported.inj h).symm

/-- The report of a fault quotes what the scanner looked at. -/
theorem isOneLine_of_halt {halt : Halt} {source : List Char} {offset : Nat}
    (hhalt : ∀ fault, halt.fault = .reported fault → OneLine fault.message)
    (h : (halt.faultAt offset).failure source = .reported e) : e.diagnostic.IsOneLine := by
  obtain ⟨fault, hfault, hdiagnostic⟩ := diagnostic_of_scanFault h
  have hcode : OneLine fault.code := by
    cases fault <;> rw [LexFault.code] <;> decide
  rw [hdiagnostic]
  exact Diagnostic.isOneLine_of_code rfl hcode (hhalt fault hfault)

/-- A report about tokens quotes at most one of them, which is no text and no line end. -/
theorem isOneLine_of_fitsIn {table : LineTable} {last : Token} {tokens : List Token} {m : Misparse}
    (hfits : m.FitsIn tokens) (hlast : OneLine last.describe)
    (htokens : ∀ t ∈ tokens, t.kind ≠ .text → t.kind ≠ .newline → OneLine t.lexeme)
    (h : m.failure table last = .reported e) : e.diagnostic.IsOneLine := by
  cases m with
  | unexpected expected remaining =>
    have hfound : OneLine (remaining.headD last).describe := by
      cases remaining with
      | nil => exact hlast
      | cons t remaining => exact oneLine_describe (htokens t (hfits.subset List.mem_cons_self))
    have hcode : OneLine expected.code := by cases expected <;> decide
    cases h
    exact Diagnostic.isOneLine_of_code rfl hcode (oneLine_message expected hfound)
  | unknownFlag bracket flag remaining =>
    obtain ⟨-, hmem, hkind⟩ := hfits
    have hflag : OneLine flag.lexeme :=
      htokens flag hmem (by rw [hkind]; decide) (by rw [hkind]; decide)
    cases h
    have hmessage : OneLine ("Unknown table flag '" ++ flag.lexeme ++ "'") :=
      oneLine_append (oneLine_append (by decide) hflag) (by decide)
    exact Diagnostic.isOneLine_of_code rfl (by decide : OneLine "PARSER_UNKNOWN_FLAG") hmessage
  | noTables =>
    cases h
    exact Diagnostic.isOneLine_of_code rfl (by decide : OneLine "PARSER_MISSING_TABLE")
      (by decide : OneLine "Expected at least one table declaration")
  | badPayload | badSpan => exact absurd hfits id

/-- Whatever is wrong with a source, the report says so on one line. -/
theorem Program.isOneLine_of_parse {source : String} (h : parse source = .error (.reported e)) :
    e.diagnostic.IsOneLine := by
  rw [parse] at h
  split at h
  · rename_i f hscan
    obtain ⟨pieces, halt, ⟨_, _, _, _, -, -, hstep⟩, rfl⟩ := (scan_eq_error_iff _ f).mp hscan
    obtain ⟨hfeed, hrule⟩ := misreads_of_step hstep
    refine isOneLine_of_halt (fun fault hfault => ?_) (Except.error.inj h)
    rw [hfault] at hrule
    exact oneLine_of_misreads hrule fun hhead => hfeed (Option.some.inj hhead)
  · rename_i s hscan
    obtain ⟨pieces, last, -, hreads, htokens⟩ := (scan_eq_ok_iff _ s).mp hscan
    rw [htokens] at h
    obtain ⟨m, hfits, hfailure⟩ := ofTokens_error hreads _ _ _ h
    have hending : OneLine (Token.endAt source.toList.length).describe :=
      (by decide : OneLine TokenKind.endOfInput.displayName)
    exact isOneLine_of_fitsIn hfits hending (fun t ht => oneLine_lexeme hreads ht) hfailure.symm

end Reports

end RandomTables
