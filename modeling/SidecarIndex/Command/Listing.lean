import SidecarIndex.Editing
import SidecarIndex.Registry
import SidecarIndex.Text.Columns

/-! # Listings

The texts in which paths, attributes and problems are listed, one to a line. Names are padded so
that what stands behind them starts in one column. -/

namespace SidecarIndex.Listing

def lines (ls : List String) : String := String.join (ls.map fun l => l ++ "\n")

def widest (names : List String) : Nat :=
  (names.map fun name => Text.columns name.toList).foldl max 0

def twoColumns (rows : List (String × String)) : List String :=
  let width := widest (rows.map Prod.fst)
  rows.map fun row => String.ofList (Text.padded width row.1.toList) ++ "  " ++ row.2

def indented (l : String) : String := "  " ++ l

def paths (ps : List Path) : String := lines (ps.map Path.text)

def document (path : Path) (d : Document) : String :=
  let attributes := d.entries.map fun entry => (entry.1, Editing.format entry.2)
  let below := if attributes.isEmpty then ["(no attributes)"] else twoColumns attributes
  lines (path.text :: below.map indented)

def attributes (r : Registry) : String :=
  if r.types.isEmpty then lines ["No attributes found."]
  else lines (twoColumns (r.types.entries.map fun entry =>
    (entry.1, (entry.2.map Variant.name).getD "unknown")))

/-- The lines of a problem. A side-car that is no document has a line for each of its errors. -/
def problem : Error → List String
  | .invalidDocument path source =>
    path.text :: source.errors.map fun e => indented e.message
  | e => [e.message]

def problems (es : List Error) : String := lines (es.flatMap problem)

end SidecarIndex.Listing
