import IdlTypings.Declaration.Printer
import IdlTypings.Definition.Parser
import IdlTypings.Dialect
import IdlTypings.Lowering

/-!
# Conversion

`convert` reads a document, lowers its definitions and writes the declarations. The document is
refused if it is malformed; what has no counterpart is left out and reported.
-/

namespace IdlTypings

structure Conversion where
  output : Text
  diagnostics : List Diagnostic
  deriving Inhabited, Repr

def parseFor (o : Options) (t : Text) : Except ParseError Document :=
  Document.parse (if o.emscripten then Dialect.normalize t else t)

def convert (o : Options) (t : Text) : Except ParseError Conversion := do
  let o := o.withModule
  let document ← parseFor o t
  let (statements, diagnostics) := Lowering.lower o document.definitions
  let statements :=
    if o.emscripten then Lowering.moduleShell o.module statements o.defaultExport else statements
  return ⟨Statement.printAll 0 statements, diagnostics⟩

end IdlTypings
