import IdlTypings.Declaration
import IdlTypings.Text.Quoted

/-!
# Writing declarations

`TypeExpr.print` writes a type. An operand of a union, an intersection or an array is put in
parentheses where its own operator would bind too loosely.
-/

namespace IdlTypings

namespace TypeExpr

/-- Whether a type needs parentheses as an operand; a `tight` operand stands in an intersection or
before the brackets of an array. -/
def isLoose (tight : Bool) : TypeExpr → Bool
  | .function .. | .constructor .. => true
  | .union types | .intersection types => tight && 1 < types.length
  | _ => false

def parenthesized (needed : Bool) (t : Text) : Text :=
  if needed then Text.concat ["(", t, ")"] else t

def isAbsent : TypeExpr → Bool
  | .absent => true
  | _ => false

/-- The text of a type behind a name, unless it is left out. -/
def suffix (isLeftOut : Bool) (t : Text) : Text := if isLeftOut then [] else ": " ++ t

mutual

def print : TypeExpr → Text
  | .absent => "unknown"
  | .keyword name => name
  | .ref name [] => name
  | .ref name args => Text.concat [name, "<", Text.join ", " (printList args), ">"]
  | .union types => Text.join " | " (printOperands false types)
  | .intersection types => Text.join " & " (printOperands true types)
  | .literal value => value.quoted
  | .function params result =>
    Text.concat ["(", Text.join ", " (printParams params), ") => ", print result]
  | .constructor params result =>
    Text.concat ["new (", Text.join ", " (printParams params), ") => ", print result]
  | .tuple elements => Text.concat ["[", Text.join ", " (printList elements), "]"]
  | .array element => parenthesized (element.isLoose true) (print element) ++ "[]"
  | .query name => "typeof " ++ name

def printList : List TypeExpr → List Text
  | [] => []
  | t :: ts => print t :: printList ts

def printOperands (tight : Bool) : List TypeExpr → List Text
  | [] => []
  | t :: ts => parenthesized (t.isLoose tight) (print t) :: printOperands tight ts

def printParams : List Param → List Text
  | [] => []
  | ⟨name, isOptional, isRest, type⟩ :: ps =>
    Text.concat
      [if isRest then "..." else "", name, if isOptional then "?" else "",
        suffix type.isAbsent (print type)] ::
      printParams ps

end

def annotated (t : TypeExpr) : Text := suffix t.isAbsent t.print

end TypeExpr

def Param.print (p : Param) : Text := Text.concat (TypeExpr.printParams [p])

def Param.printAll (ps : List Param) : Text :=
  Text.concat ["(", Text.join ", " (TypeExpr.printParams ps), ")"]

def TypeParam.print (p : TypeParam) : Text :=
  match p.constraint with
  | .absent => p.name
  | t => Text.concat [p.name, " extends ", t.print]

def TypeParam.printAll : List TypeParam → Text
  | [] => []
  | ps => Text.concat ["<", Text.join ", " (ps.map TypeParam.print), ">"]

def modifier (applies : Bool) (word : String) : Text :=
  if applies then Text.ofString word ++ [Cell.char ' '] else []

def Element.print : Element → Text
  | .absent => []
  | .property name isReadonly isOptional type _ =>
    Text.concat
      [modifier isReadonly "readonly", name, if isOptional then "?" else "", type.annotated, ";"]
  | .method name isStatic isOptional typeParams params result _ =>
    Text.concat
      [modifier isStatic "static", name, if isOptional then "?" else "",
        TypeParam.printAll typeParams, Param.printAll params, result.annotated, ";"]
  | .construct params result =>
    Text.concat ["new ", Param.printAll params, result.annotated, ";"]
  | .index isReadonly key type =>
    Text.concat [modifier isReadonly "readonly", "[", key.print, "]", type.annotated, ";"]

def printBases : List TypeExpr → Text
  | [] => []
  | bases => " extends " ++ Text.join ", " (TypeExpr.printList bases)

def indented (width : Nat) (line : Text) : Text := List.replicate width (.char ' ') ++ line

/-- A header, the lines of what stands inside it, and a closing brace. -/
def block (width : Nat) (header : Text) (inside : List Text) : List Text :=
  (header ++ Text.ofString " \x7b") :: inside.map (indented width) ++ [Text.ofString "\x7d"]

namespace Statement

mutual

def lines (width : Nat) : Statement → List Text
  | .absent => []
  | .interfaceDecl name bases elements =>
    block width (Text.concat ["interface ", name, printBases bases]) (elements.map Element.print)
  | .classDecl name bases elements =>
    block width (Text.concat ["class ", name, printBases bases]) (elements.map Element.print)
  | .typeAlias name type => [Text.concat ["type ", name, " = ", type.print, ";"]]
  | .functionDecl isDeclared name typeParams params result =>
    [Text.concat
      [modifier isDeclared "declare", "function ", name, TypeParam.printAll typeParams,
        Param.printAll params, result.annotated, ";"]]
  | .varDecl isDeclared isConst name type =>
    [Text.concat
      [modifier isDeclared "declare", if isConst then "const " else "var ", name, type.annotated,
        ";"]]
  | .moduleDecl isDeclared name body =>
    block width (Text.concat [modifier isDeclared "declare", "module ", name]) (linesAll width body)
  | .exportDefault name => [Text.concat ["export default ", name, ";"]]

def linesAll (width : Nat) : List Statement → List Text
  | [] => []
  | s :: ss => lines width s ++ linesAll width ss

end

def indentWidth (n : Int) : Nat := if n ≤ 0 then 4 else n.toNat

def printAll (width : Int) (ss : List Statement) : Text :=
  Text.join "\n" (linesAll (indentWidth width) ss)

end Statement

end IdlTypings
