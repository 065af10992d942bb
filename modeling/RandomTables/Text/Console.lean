import RandomTables.Text.Lines
import RandomTables.Text.Styled
import RandomTables.Text.Width

/-!
Consoles for styled pieces, and a terminal as one of them. A terminal styles each piece with escape
sequences, on every line by itself, and puts blanks in place of tabs.
-/
namespace RandomTables.Text

structure Console where
  cells : List Char → Nat
  print : List Piece → List Char

def Style.attributes : Style → List Char
  | bold => ['1']
  | blue => ['3', '4']
  | boldRed => ['1', ';', '3', '1']
  | boldGreen => ['1', ';', '3', '2']

def escape (attributes : List Char) : List Char :=
  '\x1b' :: '[' :: (attributes ++ ['m'])

def Piece.escaped (piece : Piece) : List Char :=
  match piece.style, piece.text with
  | _, [] => []
  | none, text => text
  | some style, text => escape style.attributes ++ text ++ escape ['0']

/-- Puts the lines of a piece in front of those behind it. Its last line goes on with their first.
-/
def prependLines (style : Option Style) (first : List Char) :
    List (List Char) → List Piece × List (List Piece) → List Piece × List (List Piece)
  | [], (line, others) => (⟨style, first⟩ :: line, others)
  | next :: more, lines =>
    let (line, others) := prependLines style next more lines
    ([⟨style, first⟩], line :: others)

def pieceLines : List Piece → List Piece × List (List Piece)
  | [] => ([], [])
  | ⟨style, text⟩ :: rest => prependLines style (linesOf text).1 (linesOf text).2 (pieceLines rest)

def tabStop : Nat := 8

def tabParts : List Char → List (List Char) × List Char
  | [] => ([], [])
  | c :: rest =>
    match tabParts rest with
    | ([], last) => if c = '\t' then ([[]], last) else ([], c :: last)
    | (part :: parts, last) =>
      if c = '\t' then ([] :: part :: parts, last) else ((c :: part) :: parts, last)

section Tabs
variable (cells : List Char → Nat)

/-- The column after a tab, given the column where the text before it began. The tab counts as a
space, and more spaces fill the line up to the next stop. -/
def tabColumns (column : Nat) (before : List Char) : Nat × Nat :=
  let reached := column + cells (before ++ [' '])
  let fill := (tabStop - reached % tabStop) % tabStop
  (fill, reached + fill)

def expandParts (style : Option Style) (column : Nat) (before : List Char) :
    List (List Char) → List Char → List Piece × Nat × List Char
  | [], last => ([⟨style, last⟩], column, before ++ last)
  | part :: parts, last =>
    let (fill, reached) := tabColumns cells column (before ++ part)
    let (pieces, state) := expandParts style reached [] parts last
    (⟨style, part ++ List.replicate (fill + 1) ' '⟩ :: pieces, state)

def expandTabs (column : Nat) (before : List Char) : List Piece → List Piece
  | [] => []
  | piece :: rest =>
    let (parts, last) := tabParts piece.text
    let (pieces, column', before') := expandParts cells piece.style column before parts last
    pieces ++ expandTabs column' before' rest

def escapedLine (line : List Piece) : List Char :=
  (expandTabs cells 0 [] line).flatMap Piece.escaped

end Tabs

namespace Console

def terminal (cells : List Char → Nat) : Console where
  cells := cells
  print pieces :=
    let (first, others) := pieceLines pieces
    escapedLine cells first ++ others.flatMap fun line => '\n' :: escapedLine cells line

def standard : Console :=
  terminal width

end Console

end RandomTables.Text
