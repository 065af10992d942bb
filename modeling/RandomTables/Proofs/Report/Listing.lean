import RandomTables.Proofs.Diagnostic.Line
import RandomTables.Proofs.Text.Quoted
import RandomTables.Proofs.Token.Part

namespace RandomTables
open Text (isPrintable)

namespace Text

/-- The characters that end a line in some reading of a text: line feed and return, vertical tab and
form feed, three of the information separators, the next-line control, and the separators of lines
and paragraphs. -/
def lineBreaks : List Char :=
  ['\n', '\r', '\x0b', '\x0c', '\x1c', '\x1d', '\x1e', '\x85', '\u2028', '\u2029']

/-- None of the characters that end a line is printable. -/
theorem not_isPrintable_of_lineBreak : ∀ c ∈ lineBreaks, isPrintable c = false := by
  have hall : lineBreaks.all (fun c => !isPrintable c) = true := by decide +kernel
  intro c hc
  exact (Bool.not_eq_true' _).mp (List.all_eq_true.mp hall c hc)

def AllPrintable (s : String) : Prop :=
  ∀ c ∈ s.toList, isPrintable c = true

def isPlain (c : Char) : Bool :=
  0x20 ≤ c.toNat && c.toNat ≤ 0x7E

theorem isPrintable_of_plain {s : List Char} (h : s.all isPlain = true) :
    ∀ c ∈ s, isPrintable c = true := by
  intro c hc
  have hplain := List.all_eq_true.mp h c hc
  rw [isPlain, Bool.and_eq_true, decide_eq_true_eq, decide_eq_true_eq] at hplain
  exact isPrintable_of_ascii hplain.1 hplain.2

theorem allPrintable_of_plain {s : String} (h : s.toList.all isPlain = true) :
    AllPrintable s :=
  isPrintable_of_plain h

theorem allPrintable_append {s t : String} (hs : AllPrintable s) (ht : AllPrintable t) :
    AllPrintable (s ++ t) := by
  rw [AllPrintable, String.toList_append, List.forall_mem_append]
  exact ⟨hs, ht⟩

theorem AllPrintable.append_plain {s : String} (hs : AllPrintable s) (t : String)
    (ht : t.toList.all isPlain = true) : AllPrintable (s ++ t) :=
  allPrintable_append hs (allPrintable_of_plain ht)

theorem allPrintable_ofList {s : List Char} (h : ∀ c ∈ s, isPrintable c = true) :
    AllPrintable (String.ofList s) := by
  rwa [AllPrintable, String.toList_ofList]

/-- Numbers are written in digits and the sign. -/
theorem allPrintable_toString (n : Int) : AllPrintable (toString n) := by
  intro c hc
  rcases Decimal.digit_or_minus_of_mem_toString n c hc with hdigit | rfl
  · exact isPrintable_of_isDigit hdigit
  · exact isPrintable_of_ascii (by decide) (by decide)

/-- Filling up adds nothing but the character to fill with. -/
theorem allPrintable_padLeft {fill : Char} {s : String} (hfill : isPrintable fill = true)
    (width : Nat) (h : AllPrintable s) : AllPrintable (padLeft fill width s) := by
  refine allPrintable_ofList ?_
  rw [List.leftpad, List.forall_mem_append]
  exact ⟨fun c hc => List.eq_of_mem_replicate hc ▸ hfill, h⟩

theorem allPrintable_padRight {fill : Char} {s : String} (hfill : isPrintable fill = true)
    (width : Nat) (h : AllPrintable s) : AllPrintable (padRight fill width s) := by
  refine allPrintable_ofList ?_
  rw [List.rightpad, List.forall_mem_append]
  exact ⟨h, fun c hc => List.eq_of_mem_replicate hc ▸ hfill⟩

end Text

open Text (AllPrintable allPrintable_append)

namespace Decimal

theorem isPrintable_of_mem_digits (n : Nat) : ∀ c ∈ Nat.toDigits 10 n, isPrintable c = true :=
  fun c hc => Text.isPrintable_of_isDigit (isDigit_of_mem_toDigits n c hc)

theorem isPrintable_of_mem_zeros (n : Nat) : ∀ c ∈ List.replicate n '0', isPrintable c = true := by
  intro c hc
  rw [List.eq_of_mem_replicate hc]
  exact Text.isPrintable_of_isDigit (by decide)

section Layouts
variable {digits : List Char}

/-- Digits stay printable with zeros and a point among them. -/
theorem isPrintable_positional (h : ∀ c ∈ digits, isPrintable c = true) (place : Int) :
    ∀ c ∈ positional digits place, isPrintable c = true := by
  have hpoint : ∀ c ∈ ['.', '0'], isPrintable c = true :=
    Text.isPrintable_of_plain (by decide)
  obtain ⟨hdot, -⟩ := List.forall_mem_cons.mp hpoint
  unfold positional
  split
  · have hfront : ∀ c ∈ ['0', '.'], isPrintable c = true :=
    Text.isPrintable_of_plain (by decide)
    have hzeros := isPrintable_of_mem_zeros (-place - 1).toNat
    exact List.forall_mem_append.mpr ⟨List.forall_mem_append.mpr ⟨hfront, hzeros⟩, h⟩
  · dsimp only
    split
    · have hzeros := isPrintable_of_mem_zeros (place.toNat + 1 - digits.length)
      exact List.forall_mem_append.mpr ⟨List.forall_mem_append.mpr ⟨h, hzeros⟩, hpoint⟩
    · rw [List.forall_mem_append, List.forall_mem_cons]
      exact ⟨fun c hc => h c (List.mem_of_mem_take hc), hdot,
        fun c hc => h c (List.mem_of_mem_drop hc)⟩

theorem isPrintable_scientific (h : ∀ c ∈ digits, isPrintable c = true) (place : Int) :
    ∀ c ∈ scientific digits place, isPrintable c = true := by
  have hmarks : ∀ c ∈ ['.', 'e', '-', '+', '0'], isPrintable c = true :=
    Text.isPrintable_of_plain (by decide)
  simp only [List.forall_mem_cons] at hmarks
  obtain ⟨hpoint, he, hminus, hplus, hzero, -⟩ := hmarks
  have hexponent := isPrintable_of_mem_digits place.natAbs
  unfold scientific
  dsimp only
  rw [List.forall_mem_append, List.forall_mem_cons, List.forall_mem_cons]
  refine ⟨?_, he, ?_, ?_⟩
  · match digits with
    | [] => exact nofun
    | [d] => exact h
    | d :: d' :: rest =>
      obtain ⟨hd, hrest⟩ := List.forall_mem_cons.mp h
      exact List.forall_mem_cons.mpr ⟨hd, List.forall_mem_cons.mpr ⟨hpoint, hrest⟩⟩
  · split
    · exact hminus
    · exact hplus
  · split
    · exact List.forall_mem_cons.mpr ⟨hzero, hexponent⟩
    · exact hexponent

end Layouts

theorem allPrintable_signText (negative : Bool) : AllPrintable (signText negative) := by
  cases negative <;> exact Text.allPrintable_of_plain (by decide)

/-- By the kind of the double, which is a number, an infinity or NaN. -/
theorem allPrintable_weightText (x : Float) : AllPrintable (weightText x) := by
  unfold weightText Format.render
  split
  · exact Text.allPrintable_of_plain (by decide)
  · exact (allPrintable_signText _).append_plain "inf" (by decide)
  · split
    · exact (allPrintable_signText _).append_plain "0.0" (by decide)
    · refine allPrintable_append (allPrintable_signText _) (Text.allPrintable_ofList ?_)
      split
      · exact isPrintable_positional (isPrintable_of_mem_digits _) _
      · exact isPrintable_scientific (isPrintable_of_mem_digits _) _

end Decimal

section Lines

theorem TokenKind.allPrintable_name (kind : TokenKind) : AllPrintable kind.name := by
  cases kind <;> exact Text.allPrintable_of_plain (by decide)

/-- Values are shown by their numbers. -/
theorem TokenValue.allPrintable_describe (v : TokenValue) : AllPrintable v.describe := by
  cases v with
  | weight w => exact Decimal.allPrintable_weightText w
  | dice d =>
    have hopen : AllPrintable "DiceSpec(count=" := Text.allPrintable_of_plain (by decide)
    have hdescribe (count : String) (hcount : AllPrintable count) :
        AllPrintable ("DiceSpec(count=" ++ count ++ ", sides=" ++ toString d.sides ++ ")") := by
      have hsides := (allPrintable_append hopen hcount).append_plain ", sides=" (by decide)
      exact (allPrintable_append hsides (Text.allPrintable_toString d.sides)).append_plain ")"
        (by decide)
    obtain ⟨count, sides⟩ := d
    cases count with
    | none => exact hdescribe "None" (Text.allPrintable_of_plain (by decide))
    | some n => exact hdescribe (toString n) (Text.allPrintable_toString n)

theorem Span.allPrintable_pairText (s : Span) : AllPrintable s.pairText := by
  have hopen : AllPrintable "(" := Text.allPrintable_of_plain (by decide)
  have hcomma := (allPrintable_append hopen (Text.allPrintable_toString s.start)).append_plain ", "
    (by decide)
  exact (allPrintable_append hcomma (Text.allPrintable_toString s.stop)).append_plain ")"
    (by decide)

namespace Token

def valueColumn (t : Token) : String :=
  match t.value with
  | some v => " value=" ++ v.describe
  | none => ""

/-- The text of a token is quoted, and so printable whatever it is. -/
theorem allPrintable_listing (index : Nat) (t : Token) : AllPrintable (t.listing index) := by
  have hblank : isPrintable ' ' = true := Text.isPrintable_of_ascii (by decide) (by decide)
  have hzero : isPrintable '0' = true := Text.isPrintable_of_isDigit (by decide)
  have hvalue : AllPrintable t.valueColumn := by
    rw [valueColumn]
    split
    · rename_i v _
      have hlabel : AllPrintable " value=" := Text.allPrintable_of_plain (by decide)
      exact allPrintable_append hlabel v.allPrintable_describe
    · exact Text.allPrintable_of_plain rfl
  have hindex := Text.allPrintable_padLeft hzero 3 (Text.allPrintable_toString index)
  have hname := Text.allPrintable_padRight hblank 11 t.kind.allPrintable_name
  have htext := Text.allPrintable_ofList (Text.isPrintable_quoted t.lexeme.toList)
  have hplace := (allPrintable_append (hindex.append_plain " " (by decide)) hname).append_plain
    " span=" (by decide)
  have hlexeme := (allPrintable_append hplace t.span.allPrintable_pairText).append_plain
    " lexeme=" (by decide)
  exact allPrintable_append (allPrintable_append hlexeme htext) hvalue

/-- The columns of a line. -/
theorem toList_listing (index : Nat) (t : Token) : (t.listing index).toList =
    (Text.padLeft '0' 3 (toString index) ++ " ").toList ++
      ((Text.padRight ' ' 11 t.kind.name).toList ++ (" span=".toList ++ (t.span.pairText.toList ++
        (" lexeme=".toList ++ (Text.quoted t.lexeme.toList ++ t.valueColumn.toList))))) := by
  have hline : t.listing index =
      Text.padLeft '0' 3 (toString index) ++ " " ++ Text.padRight ' ' 11 t.kind.name ++ " span=" ++
        t.span.pairText ++ " lexeme=" ++ String.ofList (Text.quoted t.lexeme.toList) ++
          t.valueColumn := rfl
  simp only [hline, String.toList_append, String.toList_ofList, List.append_assoc]

end Token

/-- The names of the kinds, filled up to the same width, are different. -/
theorem TokenKind.padded_inj {kind kind' : TokenKind} {rest rest' : List Char}
    (h : (Text.padRight ' ' 11 kind.name).toList ++ rest =
      (Text.padRight ' ' 11 kind'.name).toList ++ rest') : kind = kind' ∧ rest = rest' := by
  have hlength (kind : TokenKind) : (Text.padRight ' ' 11 kind.name).toList.length = 11 := by
    cases kind <;> decide
  obtain ⟨hname, hrest⟩ := List.append_inj h ((hlength kind).trans (hlength kind').symm)
  have hnames : ∀ kind ∈ TokenKind.all, ∀ kind' ∈ TokenKind.all,
      (Text.padRight ' ' 11 kind.name).toList = (Text.padRight ' ' 11 kind'.name).toList →
        kind = kind' := by
    decide +kernel
  exact ⟨hnames kind kind.mem_all kind' kind'.mem_all hname, hrest⟩

/-- A number is told from what follows it, if that is no digit. -/
theorem Decimal.digits_append_inj {n m : Nat} {rest rest' : List Char}
    (hrest : Text.Stops Text.isDigit rest) (hrest' : Text.Stops Text.isDigit rest')
    (h : Nat.toDigits 10 n ++ rest = Nat.toDigits 10 m ++ rest') : n = m ∧ rest = rest' := by
  obtain ⟨hdigits, hafter⟩ := Text.run_append_inj (isDigit_of_mem_toDigits n)
    (isDigit_of_mem_toDigits m) hrest hrest' h
  have hvalue := congrArg natOfDigits hdigits
  rw [natOfDigits_toDigits, natOfDigits_toDigits] at hvalue
  exact ⟨hvalue, hafter⟩

theorem Span.toList_pairText (s : Span) : s.pairText.toList =
    '(' :: (Nat.toDigits 10 s.start ++ ',' :: ' ' :: (Nat.toDigits 10 s.stop ++ [')'])) := by
  have htext : s.pairText =
      "(" ++ Nat.repr s.start ++ ", " ++ Nat.repr s.stop ++ ")" := rfl
  simp only [htext, String.toList_append, Nat.toList_repr, List.append_assoc]
  rfl

/-- The two numbers of a pair are found again by what stands around them. -/
theorem Span.pairText_append_inj {s s' : Span} {rest rest' : List Char}
    (h : s.pairText.toList ++ rest = s'.pairText.toList ++ rest') : s = s' ∧ rest = rest' := by
  simp only [toList_pairText, List.cons_append, List.append_assoc, List.nil_append,
    List.cons.injEq, true_and] at h
  have hstops (c : Char) (more : List Char) (hc : Text.isDigit c = false) :
      Text.Stops Text.isDigit (c :: more) := (Text.stops_cons _ _ _).mpr hc
  obtain ⟨hstart, h⟩ := Decimal.digits_append_inj (hstops _ _ rfl) (hstops _ _ rfl) h
  simp only [List.cons.injEq, true_and] at h
  obtain ⟨hstop, h⟩ := Decimal.digits_append_inj (hstops _ _ rfl) (hstops _ _ rfl) h
  refine ⟨?_, (List.cons_eq_cons.mp h).2⟩
  cases s
  cases s'
  simp_all

/-- A line tells the kind, the place and the text of its token. -/
theorem Token.listing_inj {index : Nat} {t u : Token} (h : t.listing index = u.listing index) :
    t.kind = u.kind ∧ t.span = u.span ∧ t.lexeme = u.lexeme := by
  have hline := congrArg String.toList h
  -- The marks between the columns are the same, and each column is told from whatever follows it.
  rw [toList_listing, toList_listing] at hline
  obtain ⟨hkind, hline⟩ := TokenKind.padded_inj (List.append_cancel_left hline)
  obtain ⟨hspan, hline⟩ := Span.pairText_append_inj (List.append_cancel_left hline)
  obtain ⟨htext, -⟩ := Text.quoted_append_inj (List.append_cancel_left hline)
  exact ⟨hkind, hspan, String.toList_inj.mp htext⟩

end Lines

section Values

def TokenKind.valueOf (text : List Char) : TokenKind → Option TokenValue
  | number => some (.weight (Decimal.floatOfLiteral text))
  | diceRoll =>
    let count := text.takeWhile Text.isDigit
    (readDice count (text.drop (count.length + 1))).toOption.map .dice
  | _ => none

/-- Only numbers and rolls carry a value. -/
theorem TokenKind.valueOf_eq_none {kind : TokenKind} (text : List Char)
    (h : kind ∉ [number, diceRoll]) : kind.valueOf text = none := by
  cases kind
  case number | diceRoll => exact absurd (by decide) h
  all_goals rfl

/-- The scanner reads the value of a token from its text. -/
theorem value_of_lexes {mode next : Mode} {last : Option TokenKind} {piece : Piece}
    {rest : List Char} {kind : TokenKind} (h : Lexes mode last piece next rest)
    (hkind : piece.kind = some kind) : piece.value = kind.valueOf piece.text := by
  cases h with
  | lineComment | blockComment | blanks | spaces => cases hkind
  | lineFeed | returnFeed | colon | openBrace | closeBrace | text =>
    cases hkind
    rfl
  | mark hmark =>
    cases hkind
    rcases mark_cases _ _ hmark with rfl | rfl | rfl | rfl <;> cases hmark <;> rfl
  | sign hmark =>
    cases hkind
    rcases sign_cases _ _ hmark with rfl | rfl | rfl | rfl <;> cases hmark <;> rfl
  | number =>
    cases hkind
    rfl
  | @dice _ count sides d _ hcount _ _ _ _ _ _ hread =>
    cases hkind
    -- The count ends at the letter, since that is no digit.
    have htake : (count ++ 'd' :: sides).takeWhile Text.isDigit = count :=
      Text.takeWhile_append_of_stops _ count _ hcount ((Text.stops_cons _ _ _).mpr rfl)
    have hdrop : (count ++ 'd' :: sides).drop (count.length + 1) = sides := by
      rw [List.drop_length_add_append]
      rfl
    simp only [TokenKind.valueOf, htake, hdrop, hread]
    rfl
  | @word _ c tail =>
    cases hkind
    have hkind : declaredKind (c :: tail) ∉ [TokenKind.number, .diceRoll] := by
      rw [declaredKind]
      split <;> decide
    exact (TokenKind.valueOf_eq_none _ hkind).symm
  | @name last c tail =>
    cases hkind
    have hkind : namedKind last (c :: tail) ∉ [TokenKind.number, .diceRoll] := by
      rw [namedKind]
      split <;> decide
    exact (TokenKind.valueOf_eq_none _ hkind).symm

/-- Tokens of one kind and text carry one value, wherever the scanner found them. -/
theorem value_of_scan {source : List Char} {s : Scan} (h : scan source = .ok s) {t : Token}
    (ht : t ∈ s.tokens) : t.value = t.kind.valueOf t.lexeme.toList := by
  obtain ⟨pieces, rfl, ⟨last, hreads⟩, htokens⟩ := exists_pieces_of_scan h
  rw [htokens, List.mem_append, List.mem_singleton] at ht
  rcases ht with ht | rfl
  · obtain ⟨_, piece, _, _, _, _, -, hpiece, -, hlexes⟩ := exists_lexes_of_token hreads ht
    obtain ⟨kind, hkind, hkept⟩ := Option.map_eq_some_iff.mp hpiece
    have hvalue := value_of_lexes hlexes hkind
    rw [← hkept, String.toList_ofList]
    exact hvalue
  · rfl

end Values

namespace Token

/-- A listing is the lines of its tokens, numbered from zero. -/
theorem toList_listAll (tokens : List Token) : (listAll tokens).toList =
    Text.endedText (tokens.zipIdx.map fun (t, index) => (t.listing index).toList) := by
  rw [listAll, Text.endedText]
  generalize tokens.zipIdx = indexed
  induction indexed with
  | nil => rfl
  | cons entry indexed ih =>
    rw [List.map_cons, String.join_cons, String.toList_append, ih, List.map_cons, List.flatMap_cons,
      String.toList_append]
    rfl

/-- What is printable is no line feed. -/
theorem listing_oneLine (index : Nat) (t : Token) : '\n' ∉ (t.listing index).toList := by
  intro hmem
  have hprintable := allPrintable_listing index t '\n' hmem
  rw [Text.not_isPrintable_of_lineBreak '\n' List.mem_cons_self] at hprintable
  cases hprintable

/-- Cut at its line feeds, a listing has one line for each token, and then none. -/
theorem rawLines_listAll (tokens : List Token) : Text.rawLines (listAll tokens).toList =
    (tokens.zipIdx.map fun (t, index) => (t.listing index).toList) ++ [[]] := by
  rw [toList_listAll, ← List.append_nil (Text.endedText _), Text.rawLines_endedText]
  · rfl
  · rw [List.forall_mem_map]
    exact fun entry _ => listing_oneLine entry.2 entry.1

theorem printable_or_lineFeed (tokens : List Token) :
    ∀ c ∈ (listAll tokens).toList, isPrintable c = true ∨ c = '\n' := by
  intro c hc
  rw [toList_listAll, Text.endedText, List.mem_flatMap] at hc
  obtain ⟨line, hline, hc⟩ := hc
  obtain ⟨entry, -, rfl⟩ := List.mem_map.mp hline
  rw [List.mem_append, List.mem_singleton] at hc
  exact hc.imp_left (allPrintable_listing entry.2 entry.1 c)

/-- There are as many line feeds as tokens. -/
theorem count_listAll (tokens : List Token) :
    (listAll tokens).toList.count '\n' = tokens.length := by
  rw [toList_listAll, Text.count_endedText, List.length_map, List.length_zipIdx]
  rw [List.forall_mem_map]
  exact fun entry _ => listing_oneLine entry.2 entry.1

/-- Lines of the same tokens are the same only where kinds, places and texts are. -/
theorem eq_of_listings {tokens tokens' : List Token} {index : Nat}
    (hvalues : ∀ t ∈ tokens, ∀ u ∈ tokens', t.kind = u.kind → t.lexeme = u.lexeme →
      t.value = u.value)
    (h : (tokens.zipIdx index).map (fun (t, index) => (t.listing index).toList) =
      (tokens'.zipIdx index).map fun (t, index) => (t.listing index).toList) :
    tokens = tokens' := by
  induction tokens generalizing tokens' index with
  | nil =>
    cases tokens' with
    | nil => rfl
    | cons u tokens' => cases h
  | cons t tokens ih =>
    cases tokens' with
    | nil => cases h
    | cons u tokens' =>
      rw [List.zipIdx_cons, List.zipIdx_cons, List.map_cons, List.map_cons, List.cons.injEq] at h
      obtain ⟨hkind, hspan, hlexeme⟩ := listing_inj (String.toList_inj.mp h.1)
      have hvalue := hvalues t List.mem_cons_self u List.mem_cons_self hkind hlexeme
      have hfirst : t = u := by
        cases t
        cases u
        simp_all
      have hrest := ih (fun t ht u hu => hvalues t (List.mem_cons_of_mem _ ht) u
        (List.mem_cons_of_mem _ hu)) h.2
      rw [hfirst, hrest]

end Token

/-- In the listing of the tokens of a source each token has its own line. There are as many line
feeds as tokens and no other character that ends a line, and tokens of any source that have the same
listing are the same. -/
theorem listAll_lossless (source : List Char) (s : Scan) (h : scan source = .ok s) :
    Text.rawLines (Token.listAll s.tokens).toList =
        (s.tokens.zipIdx.map fun (t, index) => (t.listing index).toList) ++ [[]] ∧
      (Token.listAll s.tokens).toList.count '\n' = s.tokens.length ∧
      (∀ c ∈ (Token.listAll s.tokens).toList, c ∈ Text.lineBreaks → c = '\n') ∧
      ∀ source' s', scan source' = .ok s' → Token.listAll s'.tokens = Token.listAll s.tokens →
        s'.tokens = s.tokens := by
  refine ⟨Token.rawLines_listAll s.tokens, Token.count_listAll s.tokens, ?_, ?_⟩
  · intro c hc hbreak
    rcases Token.printable_or_lineFeed s.tokens c hc with hprintable | hfeed
    · rw [Text.not_isPrintable_of_lineBreak c hbreak] at hprintable
      cases hprintable
    · exact hfeed
  · intro source' s' h' hsame
    have hlines : Text.rawLines (Token.listAll s'.tokens).toList =
        Text.rawLines (Token.listAll s.tokens).toList := by rw [hsame]
    rw [Token.rawLines_listAll, Token.rawLines_listAll] at hlines
    refine Token.eq_of_listings (fun t ht u hu hkind hlexeme => ?_)
      (List.append_cancel_right hlines)
    rw [value_of_scan h' ht, value_of_scan h hu, hkind, hlexeme]

def looksListed (blank : Char) : List Piece :=
  [.trivia [blank], ⟨some .number, some (.weight (Decimal.floatOfLiteral ['1'])), ['1']⟩,
    .token .colon [':'], .token .text "'\" value=1.0".toList]

/-- The blank is a part of the gap before the rule, and leaves no token. -/
theorem scan_looksListed (blank : Char) (h : blank = ' ' ∨ blank = '\t') :
    scan (textOf (looksListed blank)) =
      .ok ⟨tokensFrom 0 (looksListed blank) ++ [.endAt 15], .ruleContent⟩ := by
  have hreads : Reads [] .declaration none (looksListed blank) .ruleContent (some .text) := by
    rcases h with rfl | rfl <;>
      exact .cons ⟨_, _, rfl, rfl⟩ (.cons ⟨_, _, rfl, rfl⟩ (.cons ⟨_, _, rfl, rfl⟩
        (.cons ⟨_, _, rfl, rfl⟩ .nil)))
  exact (scan_eq_ok_iff _ _).mpr ⟨_, _, rfl, hreads, rfl⟩

/-- Two sources that differ in a gap have the same listing, quotes and all. -/
theorem listAll_lossless_quotes :
    ∃ s s', scan " 1:'\" value=1.0".toList = .ok s ∧ scan "\t1:'\" value=1.0".toList = .ok s' ∧
      Token.listAll s'.tokens = Token.listAll s.tokens ∧ s.tokens.length = 4 ∧
      (Token.listAll s.tokens).toList.count '\n' = s.tokens.length ∧
      (∀ c ∈ (Token.listAll s.tokens).toList, c ∈ Text.lineBreaks → c = '\n') ∧
      s'.tokens = s.tokens := by
  have h := scan_looksListed ' ' (.inl rfl)
  have h' := scan_looksListed '\t' (.inr rfl)
  have htokens : tokensFrom 0 (looksListed '\t') = tokensFrom 0 (looksListed ' ') := rfl
  rw [htokens] at h'
  obtain ⟨-, hcount, hbreaks, hsame⟩ := listAll_lossless _ _ h
  exact ⟨_, _, h, h', rfl, rfl, hcount, hbreaks, hsame _ _ h' rfl⟩

end RandomTables
