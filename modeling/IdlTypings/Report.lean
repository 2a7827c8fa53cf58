import IdlTypings.Diagnostic
import IdlTypings.Report.Colour

/-!
# Reports

What a conversion finds is reported on a terminal: every diagnostic on a line with its place, on
demand followed by its node, then errors that stop everything, and a summary.
-/

namespace IdlTypings

structure Reporter where
  /-- What places are given relative to. -/
  name : Text
  quiet : Bool
  verbose : Bool
  colours : Bool
  deriving Inhabited, Repr

namespace Reporter

/-! ## Colours -/

/-- The codes of the colours: first for texts, then for labels. -/
def yellow : String := "33"
def red : String := "31"
def green : String := "92"
def grey : String := "90"
def onYellow : String := "43;30"
def onRed : String := "41;37"
def onGreen : String := "102;30"

def label (r : Reporter) (code : String) (t : Text) : Text :=
  Report.styled r.colours code t ++ [Cell.char ' ']

def ink (r : Reporter) (code : String) (t : Text) : Text := Report.coloured r.colours code t

/-! ## Reports -/

def place (r : Reporter) (line column : Int) : Text :=
  let name : Text := if r.name.isEmpty then "<input>" else r.name
  if line = 0 then name ++ [Cell.char ':']
  else Text.concat [name, ":", Text.ofInt line, ":", Text.ofInt column, ":"]

/-- A node that is written out, to the right of the report it belongs to. -/
def nodeLines (r : Reporter) (node : Text) : Text :=
  let body : Text := (node.reverse.dropWhile (Cell.is '\n')).reverse
  (body.split '\n').flatMap fun line => Text.concat ["    ", r.ink grey line, "\n"]

def diagnostic (r : Reporter) (d : Diagnostic) : Text :=
  let isError := d.severity = .error
  Text.concat
    [if isError then r.label onRed " ERROR " else r.label onYellow " WARNING ",
      r.place d.line d.column, " ", r.ink (if isError then red else yellow) d.message, " ",
      r.ink grey (Text.concat ["[", d.rule, "]"]), "\n",
      if r.verbose && !d.node.isEmpty then r.nodeLines d.node else []]

def shows (r : Reporter) (d : Diagnostic) : Bool := d.severity = .error || !r.quiet

def diagnostics (r : Reporter) (ds : List Diagnostic) : Text := (ds.filter r.shows).flatMap r.diagnostic

def errorCount (ds : List Diagnostic) : Nat := ds.countP fun d => d.severity = .error

def warningCount (ds : List Diagnostic) : Nat := ds.countP fun d => d.severity ≠ .error

/-- The report of an error, with its line and column if it is one of the document. -/
def error (r : Reporter) (at? : Option (Int × Int)) (message : Text) : Text :=
  Text.concat
    [r.label onRed " ERROR ",
      match at? with
      | some (line, column) => r.place line column ++ [Cell.char ' ']
      | none => [],
      r.ink red message, "\n"]

def counted (r : Reporter) (code : String) (n : Int) (noun : Text) : Text :=
  Text.concat
    [r.ink (if n = 0 then green else code) (Text.ofInt n), " ", noun, if n = 1 then "" else "s"]

def summary (r : Reporter) (out : Text) (errors warnings : Int) : Text :=
  if r.quiet && errors = 0 then []
  else
    Text.concat
      [r.label onGreen " DONE ", out, " (", r.counted red errors "error", ", ",
        r.counted yellow warnings "warning", ")\n"]

end Reporter

end IdlTypings
