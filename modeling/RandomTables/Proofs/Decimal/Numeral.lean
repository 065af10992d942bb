import RandomTables.Decimal.Reading
import RandomTables.Proofs.Text.Word

namespace RandomTables.Decimal

/-- What is written out in decimal digits is read back. -/
theorem natOfDigits_toDigits (n : Nat) : natOfDigits (Nat.toDigits 10 n) = n :=
  Nat.ofDigitChars_ten_toDigits

theorem isDigit_of_mem_toDigits (n : Nat) (c : Char) (hc : c ∈ Nat.toDigits 10 n) :
    Text.isDigit c = true := by
  have hdigit := Nat.isDigit_of_mem_toDigits (by decide) (by decide) hc
  simp only [Char.isDigit, Bool.and_eq_true, decide_eq_true_eq] at hdigit
  exact (Text.isDigit_iff c).mpr hdigit

theorem toList_repr_of_nonneg (z : Int) (h : 0 ≤ z) :
    z.repr.toList = Nat.toDigits 10 z.toNat := by
  rw [Int.repr_eq_if, if_pos h, Nat.toList_repr]

/-- A whole number is written with digits, and with a sign if it is negative. -/
theorem digit_or_minus_of_mem_toString (z : Int) (c : Char) (hc : c ∈ (toString z).toList) :
    Text.isDigit c = true ∨ c = '-' := by
  have hnat (n : Nat) (hc : c ∈ n.repr.toList) : Text.isDigit c = true := by
    rw [Nat.toList_repr] at hc
    exact isDigit_of_mem_toDigits n c hc
  cases z with
  | ofNat n => exact .inl (hnat n hc)
  | negSucc n =>
    change c ∈ ("-" ++ n.succ.repr).toList at hc
    rw [String.toList_append, List.mem_append] at hc
    rcases hc with hminus | hdigit
    · exact .inr (List.mem_singleton.mp hminus)
    · exact .inl (hnat n.succ hdigit)

end RandomTables.Decimal
