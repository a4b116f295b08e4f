import ProxyConsole.Text.Lines
import ProxyConsole.Text.Width

/-!
# Tables

A table has a row of titles and rows of cells, drawn in a frame with rounded corners.  A cell may
have several lines; its row is as tall as its tallest cell.  A table can be fitted to a width: its
columns are then narrowed in turn and the cells that no longer fit are cut.
-/

set_option autoImplicit false

namespace ProxyConsole.Display

structure Table where
  titles : List String
  rows : List (List String)

abbrev Cell := List (List Char)

namespace Cell

def ofText (s : String) : Cell :=
  Text.lines s.toList

def width (c : Cell) : Nat :=
  (c.map Text.width).foldl max 0

/-- The character put where a wide one does not fit. -/
def replacement : Char := '\ufffd'

/-- Cut a text into pieces of the given width, the last of which may be narrower.  A wide character
that does not fit into the rest of a piece is lost, and the rest is filled up in its place.  The
piece begun so far and the columns it takes are given. -/
def chunks (width : Nat) (piece : List Char) (used : Nat) : List Char → List (List Char)
  | [] => if piece.isEmpty then [] else [piece]
  | c :: cs =>
    let fits := used + Text.charWidth c ≤ width
    let piece := piece ++ (if fits then [c] else List.replicate (width - used) replacement)
    let used := if fits then used + Text.charWidth c else width
    if used = width then piece :: chunks width [] 0 cs else chunks width piece used cs

def cut (width : Nat) (s : String) : Cell :=
  if width < (ofText s).width then
    if width = 0 then [[]] else (chunks width [] 0 s.toList).flatMap Text.lines
  else ofText s

end Cell

namespace Table

def widths (t : Table) : List Nat :=
  (t.titles :: t.rows).foldl
    (fun ws row => List.zipWith max ws (row.map fun s => (Cell.ofText s).width))
    (t.titles.map fun _ => 0)

def totalWidth (widths : List Nat) : Nat :=
  widths.foldr (fun w total => w + 2 + total) (widths.length + 1)

/-- Narrow each column by one, from left to right, until the excess is used up; columns that hold
nothing stay. -/
def narrowOnce : Nat → List Nat → Nat × List Nat
  | excess, [] => (excess, [])
  | 0, ws => (0, ws)
  | excess + 1, 0 :: ws =>
    let (excess, ws) := narrowOnce (excess + 1) ws
    (excess, 0 :: ws)
  | excess + 1, (w + 1) :: ws =>
    let (excess, ws) := narrowOnce excess ws
    (excess, w :: ws)

def narrow : Nat → Nat → List Nat → List Nat
  | 0, _, ws => ws
  | fuel + 1, excess, ws =>
    let (excess, ws) := narrowOnce excess ws
    narrow fuel excess ws

def fittedWidths (limit : Nat) (ws : List Nat) : List Nat :=
  let excess := totalWidth ws - limit
  narrow excess excess ws

def rule (left between right : Char) (ws : List Nat) : List Char :=
  left :: (List.intercalate [between] (ws.map fun w => List.replicate (w + 2) '─') ++ [right])

def pad (width : Nat) (line : List Char) : List Char :=
  line ++ List.replicate (width - Text.width line) ' '

def rowLine (ws : List Nat) (cells : List Cell) (index : Nat) : List Char :=
  let parts := List.zipWith
    (fun w (cell : Cell) => ' ' :: (pad w (cell[index]?.getD []) ++ [' '])) ws cells
  '│' :: (List.intercalate ['│'] parts ++ ['│'])

def rowLines (ws : List Nat) (cells : List Cell) : List (List Char) :=
  let height := (cells.map List.length).foldl max 1
  (List.range height).map (rowLine ws cells)

def linesWith (t : Table) (ws : List Nat) : List (List Char) :=
  let row (cells : List String) := rowLines ws (List.zipWith Cell.cut ws cells)
  [rule '╭' '┬' '╮' ws] ++ row t.titles ++ [rule '├' '┼' '┤' ws] ++ t.rows.flatMap row ++
    [rule '╰' '┴' '╯' ws]

def joined (lines : List (List Char)) : String :=
  String.ofList (List.intercalate ['\n'] lines)

def text (t : Table) : String :=
  joined (t.linesWith t.widths)

def textWithin (limit : Nat) (t : Table) : String :=
  joined (t.linesWith (fittedWidths limit t.widths))

end Table

end ProxyConsole.Display
