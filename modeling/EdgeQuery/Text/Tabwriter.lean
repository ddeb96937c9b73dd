/-! # Aligned columns

Text with tab-separated cells is laid out in aligned columns. A cell ends at a tab; the
text after a line's last tab is not part of any column and is written as it is.

Columns are aligned block by block: a column block is a run of consecutive lines that all
have a cell in that column, and each of its cells is padded with blanks to the width of
the block's widest cell plus the padding. A line with a single cell ends the layout
before it, so lines after it are laid out on their own. -/

namespace EdgeQuery.Tabwriter

/-- The blanks added after the widest cell of a column. -/
def padding : Nat := 2

/-- Writes the cells of a line, padding those with a known column width. -/
def writeLine (widths : List Nat) (cells : List String) : String :=
  String.join (cells.zipIdx.map fun (c, j) =>
    match widths[j]? with
    | some w => c ++ String.ofList (List.replicate (w - c.length) ' ')
    | none => c)

/-- Lays out lines whose first columns have the given widths. -/
def format : Nat → List Nat → List (List String) → List String
  | 0, widths, lines => lines.map (writeLine widths)
  | fuel + 1, widths, lines =>
    let column := widths.length
    let has (l : List String) : Bool := column + 1 < l.length
    let before := lines.takeWhile (!has ·)
    let rest := lines.dropWhile (!has ·)
    let block := rest.takeWhile has
    let after := rest.dropWhile has
    if block.isEmpty then before.map (writeLine widths)
    else
      let width := block.foldl (fun w l => max w ((l.getD column "").length + padding)) 0
      before.map (writeLine widths) ++ format fuel (widths ++ [width]) block ++ format fuel widths after

/-- Cuts lines into groups, each ending after a line with a single cell. -/
def groups : List (List String) → List (List String) → List (List (List String))
  | [], acc => if acc.isEmpty then [] else [acc]
  | l :: ls, acc => if l.length ≤ 1 then (acc ++ [l]) :: groups ls [] else groups ls (acc ++ [l])

/-- Lays out a text of tab-separated cells in aligned columns. -/
def render (text : String) : String :=
  let lines := (text.splitOn "\n").map (·.splitOn "\t")
  let depth := lines.length + (lines.foldl (fun m l => max m l.length) 0) + 1
  "\n".intercalate ((groups lines []).flatMap (format depth []))

/-- Lays out rows of cells, each row a line. -/
def table (rows : List (List String)) : String :=
  render (String.join (rows.map fun r => "\t".intercalate r ++ "\n"))

end EdgeQuery.Tabwriter
