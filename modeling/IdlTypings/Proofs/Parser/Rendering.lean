import IdlTypings.Definition.Parser

/-!
# Rendering documents

`Document.render` writes the tree of a document as a text for the parser to read: the tokens of
every node, in the order in which the reader of that node reads them, with single spaces between
them.
-/

namespace IdlTypings

/-- How a mark is written. -/
def Token.Kind.symbol : Token.Kind → Text
  | .braceOpen => "\x7b"
  | .braceClose => "\x7d"
  | .parenOpen => "("
  | .parenClose => ")"
  | .bracketOpen => "["
  | .bracketClose => "]"
  | .angleOpen => "<"
  | .angleClose => ">"
  | .equals => "="
  | .semicolon => ";"
  | .comma => ","
  | .question => "?"
  | .colon => ":"
  | .ellipsis => "..."
  | .minus => "-"
  | .star => "*"
  | _ => []

/-- What a rendered document has single spaces between. -/
inductive Piece where
  | mark (k : Token.Kind)
  | word (w : String)
  /-- A name, which an underscore keeps from being a keyword. -/
  | escaped (name : Text)
  /-- A text that is written as the tree holds it. -/
  | verbatim (t : Text)

namespace Piece

def text : Piece → Text
  | mark k => k.symbol
  | word w => w
  | escaped name => .char '_' :: name
  | verbatim t => t

/-- A keyword, if it applies. -/
def flag (applies : Bool) (w : String) : List Piece := if applies then [word w] else []

def suffix (applies : Bool) (k : Token.Kind) : List Piece := if applies then [mark k] else []

/-- The name of a type; one of several words stays as it is. -/
def typeName (name : Text) : Piece := if name.any (Cell.is ' ') then verbatim name else escaped name

/-- Texts as they are, with commas between them. -/
def verbatims : List Text → List Piece
  | [] => []
  | [t] => [verbatim t]
  | t :: ts => verbatim t :: mark .comma :: verbatims ts

def bracketed (ps : List Piece) : List Piece :=
  if ps.isEmpty then [] else mark .bracketOpen :: ps ++ [mark .bracketClose]

def parenthesized (ps : List Piece) : List Piece := mark .parenOpen :: ps ++ [mark .parenClose]

/-- A name behind a mark, if there is one. -/
def nameAfter (k : Token.Kind) (name : Text) : List Piece :=
  if name.isEmpty then [] else [mark k, escaped name]

end Piece

/-! ## Types, annotations and parameters -/

/-- The pieces of a default value behind its equals sign, if there is one. -/
def Literal.pieces : Option Literal → List Piece
  | some l => [.mark .equals, .verbatim l.value]
  | none => []

/-- The pieces of what an annotation is assigned: several values, one or none. -/
def AnnotationValue.pieces (value : Text) (values : List Text) : List Piece :=
  if !values.isEmpty then .mark .equals :: Piece.parenthesized (Piece.verbatims values)
  else if !value.isEmpty then [.mark .equals, .verbatim value]
  else []

mutual

def IdlType.pieces : IdlType → List Piece
  | .absent => []
  | .named _ name nullable as =>
    Piece.bracketed (Annotations.pieces as) ++
      Piece.typeName name :: Piece.suffix nullable .question
  | .generic _ name args nullable as =>
    Piece.bracketed (Annotations.pieces as) ++
      Piece.typeName name :: .mark .angleOpen :: IdlType.piecesAll (.mark .comma) args ++
      .mark .angleClose :: Piece.suffix nullable .question
  | .union _ types nullable as =>
    Piece.bracketed (Annotations.pieces as) ++
      .mark .parenOpen :: IdlType.piecesAll (.word "or") types ++
      .mark .parenClose :: Piece.suffix nullable .question

def IdlType.piecesAll (between : Piece) : List IdlType → List Piece
  | [] => []
  | [t] => t.pieces
  | t :: ts => t.pieces ++ between :: IdlType.piecesAll between ts

def Annotation.pieces : Annotation → List Piece
  | ⟨_, name, value, values, parameters, hasParameters⟩ =>
    .escaped name :: AnnotationValue.pieces value values ++
      if hasParameters then Piece.parenthesized (Parameter.piecesAll parameters) else []

/-- The pieces of annotations, with commas between them. -/
def Annotations.pieces : List Annotation → List Piece
  | [] => []
  | [a] => a.pieces
  | a :: as => a.pieces ++ .mark .comma :: Annotations.pieces as

def Parameter.pieces : Parameter → List Piece
  | ⟨_, name, type, isOptional, isVariadic, value, annotations⟩ =>
    Piece.bracketed (Annotations.pieces annotations) ++ Piece.flag isOptional "optional" ++
      type.pieces ++ Piece.suffix isVariadic .ellipsis ++ .escaped name :: Literal.pieces value

/-- The pieces of parameters, with commas between them. -/
def Parameter.piecesAll : List Parameter → List Piece
  | [] => []
  | [p] => p.pieces
  | p :: ps => p.pieces ++ .mark .comma :: Parameter.piecesAll ps

end

def Annotations.listPieces (as : List Annotation) : List Piece :=
  Piece.bracketed (Annotations.pieces as)

def Parameter.listPieces (ps : List Parameter) : List Piece :=
  Piece.parenthesized (Parameter.piecesAll ps)

def IdlType.annotations : IdlType → List Annotation
  | .absent => []
  | .named _ _ _ as | .generic _ _ _ _ as | .union _ _ _ as => as

/-! ## Members -/

/-- The pieces of the keyword that makes an operation special. Behind one that could be a type itself
an empty list of annotations stands, unless the type has annotations of its own. -/
def Operation.specialPieces (special : Text) (result : IdlType) : List Piece :=
  if special.isEmpty then []
  else if (Parser.specialWords.any fun w => special = Text.ofString w) && result.annotations.isEmpty
  then [.verbatim special, .verbatim "[]"]
  else [.verbatim special]

def Member.pieces : Member → List Piece
  | .attr m =>
    Annotations.listPieces m.annotations ++ Piece.flag m.isStatic "static" ++
      Piece.flag m.isStringifier "stringifier" ++ Piece.flag m.isInherited "inherit" ++
      Piece.flag m.isReadonly "readonly" ++ .word "attribute" :: m.type.pieces ++ [.escaped m.name]
  | .operation m =>
    Annotations.listPieces m.annotations ++ Piece.flag m.isStatic "static" ++
      Operation.specialPieces m.special m.result ++ m.result.pieces ++
      (if m.name.isEmpty then [] else [.escaped m.name]) ++ Parameter.listPieces m.parameters
  | .constructor m =>
    Annotations.listPieces m.annotations ++ .word "constructor" :: Parameter.listPieces m.parameters
  | .field m =>
    Annotations.listPieces m.annotations ++ Piece.flag m.isRequired "required" ++ m.type.pieces ++
      .escaped m.name :: Literal.pieces m.value
  | .constant m =>
    Annotations.listPieces m.annotations ++ .word "const" :: m.type.pieces ++
      .escaped m.name :: Literal.pieces m.value
  | .iteration m =>
    Annotations.listPieces m.annotations ++ Piece.flag m.isAsync "async" ++
      .word "iterable" :: .mark .angleOpen :: IdlType.piecesAll (.mark .comma) m.types ++
      .mark .angleClose :: (if m.parameters.isEmpty then [] else Parameter.listPieces m.parameters)
  | .maplike m =>
    Annotations.listPieces m.annotations ++ Piece.flag m.isReadonly "readonly" ++
      .word "maplike" :: .mark .angleOpen :: m.key.pieces ++ .mark .comma :: m.value.pieces ++
      [.mark .angleClose]
  | .setlike m =>
    Annotations.listPieces m.annotations ++ Piece.flag m.isReadonly "readonly" ++
      .word "setlike" :: .mark .angleOpen :: m.element.pieces ++ [.mark .angleClose]
  | .bare m => [.verbatim m.name]

/-- The pieces of members in braces, each with its semicolon, and of the semicolon behind them. -/
def Member.bodyPieces (ms : List Member) : List Piece :=
  .mark .braceOpen :: (ms.flatMap fun m => m.pieces ++ [.mark .semicolon]) ++
    [.mark .braceClose, .mark .semicolon]

/-! ## Definitions -/

def Definition.pieces : Definition → List Piece
  | .interface d =>
    Annotations.listPieces d.annotations ++ Piece.flag d.isPartial "partial" ++
      Piece.flag d.isCallback "callback" ++ .word "interface" :: .escaped d.name ::
      Piece.nameAfter .colon d.inherits ++ Member.bodyPieces d.members
  | .mixin d =>
    Annotations.listPieces d.annotations ++ Piece.flag d.isPartial "partial" ++
      .word "interface" :: .word "mixin" :: .escaped d.name :: Member.bodyPieces d.members
  | .dictionary d =>
    Annotations.listPieces d.annotations ++ Piece.flag d.isPartial "partial" ++
      .word "dictionary" :: .escaped d.name :: Piece.nameAfter .colon d.inherits ++
      Member.bodyPieces d.members
  | .namespaced d =>
    Annotations.listPieces d.annotations ++ Piece.flag d.isPartial "partial" ++
      .word "namespace" :: .escaped d.name :: Member.bodyPieces d.members
  | .enumeration d =>
    Annotations.listPieces d.annotations ++ .word "enum" :: .escaped d.name :: .mark .braceOpen ::
      Piece.verbatims (d.values.map fun v => .char '"' :: v ++ [.char '"']) ++
      [.mark .braceClose, .mark .semicolon]
  | .callback d =>
    Annotations.listPieces d.annotations ++ .word "callback" :: .escaped d.name :: .mark .equals ::
      d.result.pieces ++ Parameter.listPieces d.parameters ++ [.mark .semicolon]
  | .typedef d =>
    Annotations.listPieces d.annotations ++ .word "typedef" :: d.type.pieces ++
      [.escaped d.name, .mark .semicolon]
  | .includes d => [.escaped d.name, .word "includes", .escaped d.source, .mark .semicolon]
  | .implements d => [.escaped d.name, .word "implements", .escaped d.source, .mark .semicolon]

namespace Document

def pieces (d : Document) : List Piece := d.definitions.flatMap Definition.pieces

def render (d : Document) : Text := Text.join " " (d.pieces.map Piece.text)

end Document

end IdlTypings
