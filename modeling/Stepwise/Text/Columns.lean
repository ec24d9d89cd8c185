/-!
# Aligned columns

A table is written as lines whose cells end with a tab. Each column is as wide as its widest cell and two spaces more,
where a column is a run of consecutive lines that have a cell there; what follows the last tab of a line belongs to no
column. A vertical tab ends a cell like a tab, and a form feed ends a line and the table with it.
-/

namespace Stepwise.Text

/-- How many spaces divide two columns. -/
def columnGap : Nat := 2

/-- The line has a cell in the first column: there is something after it. -/
def hasColumn (row : List (List Char)) : Bool :=
  decide (2 ≤ row.length)

/-- A cell filled up with spaces to the given width. -/
def padRight (width : Nat) (cell : List Char) : List Char :=
  cell ++ List.replicate (width - cell.length) ' '

/-- The width of the column that the lines begin with. -/
def columnWidth (rows : List (List (List Char))) : Nat :=
  (rows.map fun row => (row.headD []).length).foldl max 0 + columnGap

/-- How many cells the lines have. -/
def cellCount (rows : List (List (List Char))) : Nat :=
  rows.foldr (fun row n => row.length + 1 + n) 0

theorem cellCount_cons (row : List (List Char)) (rows : List (List (List Char))) :
    cellCount (row :: rows) = row.length + 1 + cellCount rows := rfl

theorem cellCount_append (a b : List (List (List Char))) : cellCount (a ++ b) = cellCount a + cellCount b := by
  induction a with
  | nil => simp [cellCount]
  | cons row a ih => simp [cellCount_cons, ih, Nat.add_assoc]

theorem cellCount_tails_le (rows : List (List (List Char))) : cellCount (rows.map List.tail) ≤ cellCount rows := by
  induction rows with
  | nil => simp
  | cons row rows ih =>
    simp only [List.map_cons, cellCount_cons, List.length_tail]
    omega

/-- The lines of a table with their columns aligned. -/
def alignRows : List (List (List Char)) → List (List Char)
  | [] => []
  | row :: rows =>
    if hasColumn row then
      let run := row :: rows.takeWhile hasColumn
      let width := columnWidth run
      List.zipWith (fun r rest => padRight width (r.headD []) ++ rest) run (alignRows (run.map List.tail)) ++
        alignRows (rows.dropWhile hasColumn)
    else row.headD [] :: alignRows rows
termination_by rows => cellCount rows
decreasing_by
  · rename_i h
    have h1 := cellCount_append (rows.takeWhile hasColumn) (rows.dropWhile hasColumn)
    have h2 := cellCount_tails_le (rows.takeWhile hasColumn)
    rw [List.takeWhile_append_dropWhile] at h1
    simp only [hasColumn, decide_eq_true_eq] at h
    simp only [List.map_cons, cellCount_cons, List.length_tail] at *
    omega
  · have h1 := cellCount_append (rows.takeWhile hasColumn) (rows.dropWhile hasColumn)
    rw [List.takeWhile_append_dropWhile] at h1
    simp only [cellCount_cons] at *
    omega
  · simp only [cellCount_cons]
    omega

/-- Aligns one table. -/
def alignTable (cs : List Char) : List Char :=
  let rows := (cs.splitOn '\n').map fun line => line.splitOnP fun c => c == '\t' || c == '\x0b'
  ['\n'].intercalate (alignRows rows)

/-- Aligns the tables of a text. -/
def alignColumns (s : String) : String :=
  String.ofList (['\n'].intercalate ((s.toList.splitOn '\x0c').map alignTable))

end Stepwise.Text
