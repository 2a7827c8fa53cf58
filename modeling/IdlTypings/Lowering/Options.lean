import IdlTypings.Definition.Outline
import IdlTypings.Diagnostic

/-!
# Options and reports of the lowering

The options choose the shape of the output and how severe a diagnostic is. What is left out is
reported with the node it stands for.
-/

namespace IdlTypings

/-- What a conversion is asked for. The module and its export matter to Emscripten only. -/
structure Options where
  emscripten : Bool
  module : Text
  defaultExport : Bool
  strict : Bool
  deriving DecidableEq, Inhabited, Repr

namespace Options

def defaultModule : Text := "Module"

def withModule (o : Options) : Options := if o.module.isEmpty then { o with module := defaultModule } else o

def severity (o : Options) : Severity := if o.strict then .error else .warning

end Options

namespace Lowering

def report (o : Options) (rule : Rule) (message : Text) (span : Span) (node : Outline) : Diagnostic :=
  ⟨rule.name, message, node.dump, span.line, span.column, o.severity⟩

def unsupported (what : Text) : Text :=
  what ++ Text.ofString
    (" is not supported and was skipped; please file an issue at " ++
      "https://github.com/emlang-project/webidl-dts-gen/issues with the IDL that produced it")

/-- The diagnostics of empty type positions, which stand nowhere. -/
def gapReports (o : Options) (n : Nat) : List Diagnostic :=
  List.replicate n
    ⟨Rule.unsupportedType.name, unsupported "IDL type", [], 0, 0, o.severity⟩

def memberReport (o : Options) (what : Text) (m : Member) : Diagnostic :=
  report o .unsupportedMember (unsupported what) m.span (Outline.ofMember m)

end Lowering

end IdlTypings
