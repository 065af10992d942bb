import Mathlib.Algebra.Group.Nat.Defs
import RandomTables.Proofs.Decimal.Numeral
import RandomTables.Text.Quoted

namespace RandomTables.Text

section Hexadecimal

def hexDigitValue (c : Char) : Nat :=
  if isDigit c then c.toNat - '0'.toNat else c.toNat - 'a'.toNat + 10

def natOfHexDigits (digits : List Char) : Nat :=
  digits.foldl (fun n c => 16 * n + hexDigitValue c) 0

theorem hexDigitValue_digitChar : ∀ n < 16, hexDigitValue (Nat.digitChar n) = n := by
  decide

theorem natOfHexDigits_concat (digits : List Char) (c : Char) :
    natOfHexDigits (digits ++ [c]) = 16 * natOfHexDigits digits + hexDigitValue c := by
  simp [natOfHexDigits]

/-- By induction on the number: its last digit is its remainder by sixteen. -/
theorem natOfHexDigits_toDigits (n : Nat) : natOfHexDigits (Nat.toDigits 16 n) = n := by
  induction n using Nat.strongRecOn with
  | ind n ih =>
    rw [Nat.toDigits_eq_if (by decide)]
    split
    · rename_i hn
      rw [← List.nil_append [_], natOfHexDigits_concat, hexDigitValue_digitChar n hn]
      exact Nat.zero_add n
    · rename_i hn
      have hsmaller : n / 16 < n := Nat.div_lt_self (by omega) (by decide)
      rw [natOfHexDigits_concat, ih _ hsmaller,
        hexDigitValue_digitChar _ (Nat.mod_lt n (by decide))]
      exact Nat.div_add_mod n 16

/-- Zeros in front count for nothing. -/
theorem natOfHexDigits_hexDigits (width n : Nat) : natOfHexDigits (hexDigits width n) = n := by
  have hzeros (k : Nat) :
      (List.replicate k '0').foldl (fun n c => 16 * n + hexDigitValue c) 0 = 0 := by
    induction k with
    | zero => rfl
    | succ k ih => exact ih
  rw [hexDigits, List.leftpad, natOfHexDigits, List.foldl_append, hzeros]
  exact natOfHexDigits_toDigits n

/-- A number below the power of sixteen needs no more digits than the width. -/
theorem length_hexDigits {width n : Nat} (hwidth : 0 < width) (h : n < 16 ^ width) :
    (hexDigits width n).length = width := by
  rw [hexDigits, List.length_leftpad]
  exact Nat.max_eq_left ((Nat.length_toDigits_le_iff (by decide) hwidth).mpr h)

end Hexadecimal

section Reading

def readHex (width : Nat) (s : List Char) : Char × List Char :=
  (Char.ofNat (natOfHexDigits (s.take width)), s.drop width)

def unescape : List Char → Option (Char × List Char)
  | [] => none
  | '\\' :: 't' :: rest => some ('\t', rest)
  | '\\' :: 'n' :: rest => some ('\n', rest)
  | '\\' :: 'r' :: rest => some ('\r', rest)
  | '\\' :: 'x' :: rest => some (readHex 2 rest)
  | '\\' :: 'u' :: rest => some (readHex 4 rest)
  | '\\' :: 'U' :: rest => some (readHex 8 rest)
  | '\\' :: c :: rest => some (c, rest)
  | c :: rest => some (c, rest)

/-- A character is read back from as many digits as it was written with. -/
theorem readHex_hexDigits {width : Nat} {c : Char} (hwidth : 0 < width) (h : c.toNat < 16 ^ width)
    (rest : List Char) : readHex width (hexDigits width c.toNat ++ rest) = (c, rest) := by
  have hlength := length_hexDigits hwidth h
  rw [readHex, List.take_left' hlength, List.drop_left' hlength, natOfHexDigits_hexDigits,
    Char.ofNat_toNat]

def IsQuote (quote : Char) : Prop :=
  quote = '\'' ∨ quote = '"'

theorem isQuote_quoteFor (s : List Char) : IsQuote (quoteFor s) := by
  rw [quoteFor]
  split
  · exact .inr rfl
  · exact .inl rfl

variable {quote : Char}

/-- A character is read back from its escaped form, whatever follows it. -/
theorem unescape_escapeChar (hquote : IsQuote quote) (c : Char) (rest : List Char) :
    unescape (escapeChar quote c ++ rest) = some (c, rest) := by
  have hcode : c.toNat < 0x110000 := by
    have hvalid := c.valid
    simp only [UInt32.isValidChar, Nat.isValidChar] at hvalid
    simp only [Char.toNat]
    omega
  unfold escapeChar
  split
  · -- The quote or the backslash stands for itself behind a backslash.
    rename_i hc
    rw [Bool.or_eq_true, decide_eq_true_eq, decide_eq_true_eq] at hc
    rcases hc with rfl | rfl
    · rcases hquote with rfl | rfl <;> rfl
    · rfl
  rename_i hc
  rw [Bool.or_eq_true, decide_eq_true_eq, decide_eq_true_eq, not_or] at hc
  split
  · rename_i htab
    rw [htab]
    rfl
  split
  · rename_i hfeed
    rw [hfeed]
    rfl
  split
  · rename_i hreturn
    rw [hreturn]
    rfl
  split
  · rw [List.singleton_append, unescape.eq_def]
    simp [hc.2]
  split
  · rename_i hsmall
    exact congrArg some (readHex_hexDigits (by decide) hsmall rest)
  split
  · rename_i hsmall
    exact congrArg some (readHex_hexDigits (by decide) hsmall rest)
  · exact congrArg some (readHex_hexDigits (by decide) (by omega) rest)

/-- No escaped character begins with the quote. -/
theorem head?_escapeChar (hquote : IsQuote quote) (c : Char) :
    ∃ first more, escapeChar quote c = first :: more ∧ first ≠ quote := by
  have hbackslash : '\\' ≠ quote := by rcases hquote with rfl | rfl <;> decide
  unfold escapeChar
  split
  · exact ⟨_, _, rfl, hbackslash⟩
  rename_i hc
  rw [Bool.or_eq_true, decide_eq_true_eq, decide_eq_true_eq, not_or] at hc
  split
  · exact ⟨_, _, rfl, hbackslash⟩
  split
  · exact ⟨_, _, rfl, hbackslash⟩
  split
  · exact ⟨_, _, rfl, hbackslash⟩
  split
  · exact ⟨_, _, rfl, hc.1⟩
  split
  · exact ⟨_, _, rfl, hbackslash⟩
  split
  · exact ⟨_, _, rfl, hbackslash⟩
  · exact ⟨_, _, rfl, hbackslash⟩

/-- What stands between quotes ends at the first quote that is not escaped. -/
theorem escaped_append_inj (hquote : IsQuote quote) {s t rest rest' : List Char}
    (h : s.flatMap (escapeChar quote) ++ quote :: rest =
      t.flatMap (escapeChar quote) ++ quote :: rest') : s = t ∧ rest = rest' := by
  have hends (c : Char) (more rest rest' : List Char) :
      quote :: rest ≠ escapeChar quote c ++ more ++ rest' := by
    intro hsame
    obtain ⟨first, others, hescape, hne⟩ := head?_escapeChar hquote c
    rw [hescape] at hsame
    exact hne (List.cons_eq_cons.mp hsame).1.symm
  induction s generalizing t with
  | nil =>
    cases t with
    | nil => exact ⟨rfl, (List.cons_eq_cons.mp h).2⟩
    | cons d t => exact absurd h (hends d _ _ _)
  | cons c s ih =>
    cases t with
    | nil => exact absurd h.symm (hends c _ _ _)
    | cons d t =>
      rw [List.flatMap_cons, List.flatMap_cons, List.append_assoc, List.append_assoc] at h
      have hread := congrArg unescape h
      rw [unescape_escapeChar hquote, unescape_escapeChar hquote, Option.some.injEq,
        Prod.mk.injEq] at hread
      obtain ⟨hfirst, hrest⟩ := hread
      obtain ⟨rfl, hafter⟩ := ih hrest
      exact ⟨by rw [hfirst], hafter⟩

/-- A quoted text is told from what follows it. -/
theorem quoted_append_inj {s t rest rest' : List Char}
    (h : quoted s ++ rest = quoted t ++ rest') : s = t ∧ rest = rest' := by
  simp only [quoted, List.cons_append, List.append_assoc, List.nil_append, List.cons.injEq] at h
  obtain ⟨hquote, hrest⟩ := h
  rw [hquote] at hrest
  exact escaped_append_inj (isQuote_quoteFor t) hrest

end Reading

section Printable

/-- From the space to the tilde all characters are printable. -/
theorem isPrintable_of_ascii {c : Char} (hlow : 0x20 ≤ c.toNat) (hhigh : c.toNat ≤ 0x7E) :
    isPrintable c = true := by
  have hfirst : ¬c.toNat ≤ 0x1F := by omega
  have hnot : unprintableRanges.contains c.toNat = false := by
    rw [unprintableRanges, CodeRanges.contains, if_neg (Nat.not_lt_zero _), if_neg hfirst,
      CodeRanges.contains, if_pos (by omega)]
  rw [isPrintable, hnot]
  rfl

theorem isPrintable_of_isDigit {c : Char} (h : isDigit c = true) : isPrintable c = true := by
  obtain ⟨hlow, hhigh⟩ := (isDigit_iff c).mp h
  exact isPrintable_of_ascii (by omega) (by omega)

theorem isPrintable_digitChar : ∀ n < 16, isPrintable (Nat.digitChar n) = true := by
  decide +kernel

theorem isPrintable_of_mem_toDigits (n : Nat) :
    ∀ c ∈ Nat.toDigits 16 n, isPrintable c = true := by
  induction n using Nat.strongRecOn with
  | ind n ih =>
    rw [Nat.toDigits_eq_if (by decide)]
    split
    · rename_i hn
      exact List.forall_mem_singleton.mpr (isPrintable_digitChar n hn)
    · rename_i hn
      have hsmaller : n / 16 < n := Nat.div_lt_self (by omega) (by decide)
      rw [List.forall_mem_append]
      exact ⟨ih _ hsmaller,
        List.forall_mem_singleton.mpr (isPrintable_digitChar _ (Nat.mod_lt n (by decide)))⟩

theorem isPrintable_of_mem_hexDigits (width n : Nat) :
    ∀ c ∈ hexDigits width n, isPrintable c = true := by
  rw [hexDigits, List.leftpad, List.forall_mem_append]
  refine ⟨fun c hc => ?_, isPrintable_of_mem_toDigits n⟩
  rw [List.eq_of_mem_replicate hc]
  exact isPrintable_of_isDigit (by decide)

/-- What cannot be shown is written in letters and digits. -/
theorem isPrintable_escapeChar {quote : Char} (hquote : IsQuote quote) (c : Char) :
    ∀ d ∈ escapeChar quote c, isPrintable d = true := by
  have hbackslash : isPrintable '\\' = true := isPrintable_of_ascii (by decide) (by decide)
  have hmark : isPrintable quote = true := by
    rcases hquote with rfl | rfl <;> exact isPrintable_of_ascii (by decide) (by decide)
  unfold escapeChar
  split
  · rename_i hc
    rw [Bool.or_eq_true, decide_eq_true_eq, decide_eq_true_eq] at hc
    refine List.forall_mem_cons.mpr ⟨hbackslash, List.forall_mem_singleton.mpr ?_⟩
    rcases hc with rfl | rfl
    · exact hmark
    · exact hbackslash
  have hletter (letter : Char) (hlow : 0x20 ≤ letter.toNat) (hhigh : letter.toNat ≤ 0x7E) :
      ∀ d ∈ ['\\', letter], isPrintable d = true :=
    List.forall_mem_cons.mpr
      ⟨hbackslash, List.forall_mem_singleton.mpr (isPrintable_of_ascii hlow hhigh)⟩
  have hcode (letter : Char) (width : Nat) (hlow : 0x20 ≤ letter.toNat)
      (hhigh : letter.toNat ≤ 0x7E) :
      ∀ d ∈ '\\' :: letter :: hexDigits width c.toNat, isPrintable d = true :=
    List.forall_mem_cons.mpr ⟨hbackslash, List.forall_mem_cons.mpr
      ⟨isPrintable_of_ascii hlow hhigh, isPrintable_of_mem_hexDigits width c.toNat⟩⟩
  split
  · exact hletter 't' (by decide) (by decide)
  split
  · exact hletter 'n' (by decide) (by decide)
  split
  · exact hletter 'r' (by decide) (by decide)
  split
  · rename_i hc
    exact List.forall_mem_singleton.mpr hc
  split
  · exact hcode 'x' 2 (by decide) (by decide)
  split
  · exact hcode 'u' 4 (by decide) (by decide)
  · exact hcode 'U' 8 (by decide) (by decide)

/-- Quotes and escapes are printable, and all else is left only if it is. -/
theorem isPrintable_quoted (s : List Char) : ∀ c ∈ quoted s, isPrintable c = true := by
  have hquote := isQuote_quoteFor s
  have hmark : isPrintable (quoteFor s) = true := by
    rcases hquote with hquote | hquote <;> rw [hquote] <;>
      exact isPrintable_of_ascii (by decide) (by decide)
  rw [quoted, List.cons_append, List.forall_mem_cons, List.forall_mem_append]
  refine ⟨hmark, fun c hc => ?_, List.forall_mem_singleton.mpr hmark⟩
  obtain ⟨d, -, hd⟩ := List.mem_flatMap.mp hc
  exact isPrintable_escapeChar hquote d c hd

end Printable

end RandomTables.Text
