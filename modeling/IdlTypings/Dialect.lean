import IdlTypings.Dialect.ArraySugar
import IdlTypings.Dialect.Inheritance

/-!
# The Emscripten dialect

Documents written for Emscripten state inheritance apart and have sugar for arrays. `normalize`
brings them into the form that the parser reads.
-/

namespace IdlTypings.Dialect

/-- The text in standard form: first inheritance, then arrays. -/
def normalize (t : Text) : Text := arraySugar (inheritance t)

end IdlTypings.Dialect
