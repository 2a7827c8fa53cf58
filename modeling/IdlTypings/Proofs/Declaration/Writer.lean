import IdlTypings.Proofs.Declaration.Lines

/-!
# Writing into a buffer

A `Writer` writes a line with the spaces of its level before it and a newline behind it. But for the
newline behind the last line this is what is printed (`Writer.print_eq_printAll`).
-/

namespace IdlTypings

structure Writer where
  buffer : Text
  width : Nat

namespace Writer

def line (level : Nat) (l : Text) (w : Writer) : Writer :=
  { w with buffer := w.buffer ++ (List.replicate (level * w.width) (.char ' ') ++ l ++ [.char '\n']) }

def body (level : Nat) (header : Text) (elements : List Element) (w : Writer) : Writer :=
  line level "\x7d" (elements.foldl (fun w e => w.line (level + 1) e.print)
    (w.line level (header ++ " \x7b")))

mutual

def statement (level : Nat) : Statement → Writer → Writer
  | .absent => id
  | .interfaceDecl name bases elements =>
    body level (Text.concat ["interface ", name, printBases bases]) elements
  | .classDecl name bases elements =>
    body level (Text.concat ["class ", name, printBases bases]) elements
  | .typeAlias name type => line level (Text.concat ["type ", name, " = ", type.print, ";"])
  | .functionDecl isDeclared name typeParams params result =>
    line level (Text.concat [modifier isDeclared "declare", "function ", name,
      TypeParam.printAll typeParams, Param.printAll params, result.annotated, ";"])
  | .varDecl isDeclared isConst name type =>
    line level (Text.concat [modifier isDeclared "declare", if isConst then "const " else "var ", name,
      type.annotated, ";"])
  | .moduleDecl isDeclared name body =>
    line level "\x7d" ∘ statements (level + 1) body ∘
      line level (Text.concat [modifier isDeclared "declare", "module ", name, " \x7b"])
  | .exportDefault name => line level (Text.concat ["export default ", name, ";"])

def statements (level : Nat) : List Statement → Writer → Writer
  | [], w => w
  | s :: ss, w => statements level ss (statement level s w)

end

/-- A text without a newline behind it. -/
def trimNewline (t : Text) : Text := if t.getLast? = some (.char '\n') then t.dropLast else t

def print (width : Int) (ss : List Statement) : Text :=
  trimNewline (statements 0 ss ⟨[], Statement.indentWidth width⟩).buffer

/-! ## The lines that are written -/

/-- The writer after some lines of a level. -/
def append (level : Nat) (ls : List Text) (w : Writer) : Writer :=
  { w with buffer := w.buffer ++ ls.flatMap fun l => indented (level * w.width) l ++ [.char '\n'] }

theorem append_nil (level : Nat) (w : Writer) : w.append level [] = w := by
  rw [append, List.flatMap_nil, List.append_nil]

theorem append_append (level : Nat) (ls ms : List Text) (w : Writer) :
    (w.append level ls).append level ms = w.append level (ls ++ ms) := by
  simp only [append, List.flatMap_append, List.append_assoc]

theorem line_eq_append (level : Nat) (l : Text) (w : Writer) : w.line level l = w.append level [l] := by
  simp only [line, append, indented, List.flatMap_cons, List.flatMap_nil, List.append_nil]

/-- The lines of the next level are lines that stand further to the right. -/
theorem append_succ (level : Nat) (ls : List Text) (w : Writer) :
    w.append (level + 1) ls = w.append level (ls.map (indented w.width)) := by
  have hindented (l : Text) :
      indented ((level + 1) * w.width) l = indented (level * w.width) (indented w.width l) := by
    rw [indented, indented, indented, ← List.append_assoc, List.replicate_append_replicate,
      Nat.add_one_mul]
  simp only [append, hindented, List.flatMap_map]

theorem foldl_line (level : Nat) (es : List Element) (w : Writer) :
    es.foldl (fun w e => w.line level e.print) w = w.append level (es.map Element.print) := by
  induction es generalizing w with
  | nil => exact (append_nil level w).symm
  | cons e es ih =>
    rw [List.foldl_cons, ih, line_eq_append, append_append]
    rfl

theorem append_block (level : Nat) (header : Text) (inside : List Text) (w : Writer) :
    line level "\x7d" ((w.line level (header ++ " \x7b")).append (level + 1) inside) =
      w.append level (block w.width header inside) := by
  rw [line_eq_append, line_eq_append, append_succ, append_append, append_append]
  rfl

mutual

theorem statement_eq_append (level : Nat) :
    ∀ (s : Statement) (w : Writer), w.statement level s = w.append level (s.lines w.width)
  | .absent, w => (append_nil level w).symm
  | .interfaceDecl .., w | .classDecl .., w => by
    rw [statement, body, foldl_line, append_block, Statement.lines]
  | .typeAlias .., w | .functionDecl .., w | .varDecl .., w | .exportDefault _, w => by
    rw [statement, line_eq_append, Statement.lines]
  | .moduleDecl isDeclared name body, w => by
    rw [Statement.lines, ← append_block, Statement.moduleHeader_eq, statement, Function.comp_apply,
      Function.comp_apply, statements_eq_append]
    rfl

theorem statements_eq_append (level : Nat) :
    ∀ (ss : List Statement) (w : Writer),
      w.statements level ss = w.append level (Statement.linesAll w.width ss)
  | [], w => (append_nil level w).symm
  | s :: ss, w => by
    rw [statements, statement_eq_append, statements_eq_append, append_append]
    rfl

end

theorem flatMap_newline (ls : List Text) (hne : ls ≠ []) :
    ls.flatMap (fun l => indented 0 l ++ [.char '\n']) = Text.join "\n" ls ++ [.char '\n'] := by
  induction ls with
  | nil => contradiction
  | cons l ls ih =>
    cases ls with
    | nil => simp [indented, Text.join_singleton]
    | cons m ls =>
      rw [List.flatMap_cons, ih (List.cons_ne_nil _ _), Text.join_cons_cons]
      simp [indented, Text.ofString]

/-- What a writer has written without the newline at its end is what is printed. -/
theorem print_eq_printAll (width : Int) (ss : List Statement) :
    Writer.print width ss = Statement.printAll width ss := by
  rw [Writer.print, statements_eq_append, append, Statement.printAll]
  simp only [Nat.zero_mul, List.nil_append]
  rcases hls : Statement.linesAll (Statement.indentWidth width) ss with _ | ⟨l, ls⟩
  · rfl
  · rw [flatMap_newline _ (List.cons_ne_nil _ _), trimNewline, if_pos (by simp), List.dropLast_concat]

end Writer

end IdlTypings
