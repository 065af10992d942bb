import RandomTables.Proofs.Token.Misread

namespace RandomTables

section Overlong
variable {mode : Mode} {last : Option TokenKind} {c : Char} {rest : List Char}

/-- The one step that fails without a report is at a roll with too many digits. -/
theorem step_overlong_iff :
    (∃ halt, step mode last c rest = .error halt ∧ halt.fault = .overlongDice) ↔
      mode = .expression ∧ ∃ count sides after, c :: rest = count ++ 'd' :: sides ++ after ∧
        IsOverlongRoll last count sides after := by
  constructor
  · rintro ⟨halt, h, hfault⟩
    obtain ⟨-, hrule⟩ := misreads_of_step h
    rw [hfault] at hrule
    generalize c :: rest = s at hrule
    cases hrule with
    | overlongDice hroll => exact ⟨rfl, _, _, _, rfl, hroll⟩
  · rintro ⟨rfl, count, sides, after, hsplit, hroll⟩
    refine ⟨⟨.overlongDice, (count ++ 'd' :: sides).length, .expression⟩, ?_, rfl⟩
    rw [step_of_roll count sides hroll.toIsRoll hroll.unannounced c rest hsplit.symm, hsplit,
      stepDice_append count sides hroll.toIsRoll, if_pos hroll.overlong]

end Overlong

def MeetsOverlongRoll (source : List Char) : Prop :=
  ∃ pieces last count sides after, source = textOf pieces ++ (count ++ 'd' :: sides ++ after) ∧
    Reads (count ++ 'd' :: sides ++ after) .declaration none pieces .expression last ∧
    IsOverlongRoll last count sides after

/-- The rolls that are met are those at which the scanner stops without a report. -/
theorem scan_overlong_iff (source : List Char) :
    (∃ f, scan source = .error f ∧ f.fault = .overlongDice) ↔ MeetsOverlongRoll source := by
  constructor
  · rintro ⟨f, hscan, hfault⟩
    obtain ⟨pieces, halt, ⟨mode, last, c, rest, hsource, hreads, hstep⟩, rfl⟩ :=
      (scan_eq_error_iff source f).mp hscan
    obtain ⟨rfl, count, sides, after, hsplit, hroll⟩ :=
      step_overlong_iff.mp ⟨halt, hstep, hfault⟩
    rw [hsplit] at hsource hreads
    exact ⟨pieces, last, count, sides, after, hsource, hreads, hroll⟩
  · rintro ⟨pieces, last, count, sides, after, hsource, hreads, hroll⟩
    obtain ⟨c, rest, hsplit⟩ : ∃ c rest, count ++ 'd' :: sides ++ after = c :: rest :=
      List.exists_cons_of_ne_nil (by simp)
    obtain ⟨halt, hstep, hfault⟩ :=
      step_overlong_iff.mpr ⟨rfl, count, sides, after, hsplit.symm, hroll⟩
    rw [hsplit] at hsource hreads
    refine ⟨halt.faultAt (textOf pieces).length, ?_, hfault⟩
    exact (scan_eq_error_iff _ _).mpr
      ⟨pieces, halt, ⟨.expression, last, c, rest, hsource, hreads, hstep⟩, rfl⟩

end RandomTables
