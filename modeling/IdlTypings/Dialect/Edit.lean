import IdlTypings.Text

/-!
# Edits

An edit replaces the bytes of a range by a text. Of edits that overlap the first one is made.
-/

namespace IdlTypings

/-- The cells of the first `n` bytes, put in reverse onto `acc`, and the cells behind them. -/
def Text.splitSizeOnto (acc : Text) (n : Nat) : Text → Text × Text
  | [] => (acc.reverse, [])
  | c :: t => if n = 0 then (acc.reverse, c :: t) else splitSizeOnto (c :: acc) (n - c.width) t

def Text.splitSize (n : Nat) (t : Text) : Text × Text := Text.splitSizeOnto [] n t

def Text.slice (start stop : Nat) (t : Text) : Text :=
  ((t.splitSize start).2.splitSize (stop - start)).1

/-- The replacement of the bytes from `start` to `stop`. -/
structure Edit where
  start : Nat
  stop : Nat
  text : Text
  deriving DecidableEq, Repr

namespace Edit

/-- Makes edits, in ascending order of their starts, in a text that begins at byte `offset`. -/
def applySorted (offset : Nat) (t : Text) : List Edit → Text
  | [] => t
  | e :: es =>
    if e.start < offset then applySorted offset t es
    else
      let (kept, rest) := t.splitSize (e.start - offset)
      kept ++ e.text ++ applySorted e.stop (rest.splitSize (e.stop - e.start)).2 es

/-- Makes edits, the one that starts first before the others; of two that start together the one
that was listed first. -/
def applyAll (edits : List Edit) (t : Text) : Text :=
  applySorted 0 t (edits.mergeSort fun a b => a.start ≤ b.start)

end Edit

end IdlTypings
