import IdlTypings.Declaration

/-!
# The parts of declarations

`TypeExpr.parts` lists a type and all types in it. What an element or a statement says about types is
said about its parts: those of the types that it names (`Element.types`, `Statement.types`).
-/

namespace IdlTypings

namespace TypeExpr

mutual

/-- A type and all types in it. -/
def parts : TypeExpr → List TypeExpr
  | .absent => []
  | .keyword name => [.keyword name]
  | .ref name args => .ref name args :: partsAll args
  | .union types => .union types :: partsAll types
  | .intersection types => .intersection types :: partsAll types
  | .literal value => [.literal value]
  | .function params result => .function params result :: (partsOfParams params ++ parts result)
  | .constructor params result => .constructor params result :: (partsOfParams params ++ parts result)
  | .tuple elements => .tuple elements :: partsAll elements
  | .array element => .array element :: parts element
  | .query name => [.query name]

def partsAll : List TypeExpr → List TypeExpr
  | [] => []
  | t :: ts => parts t ++ partsAll ts

def partsOfParams : List Param → List TypeExpr
  | [] => []
  | ⟨_, _, _, type⟩ :: ps => parts type ++ partsOfParams ps

end

theorem partsAll_eq_flatMap (ts : List TypeExpr) : partsAll ts = ts.flatMap parts := by
  induction ts with
  | nil => rfl
  | cons t ts ih => rw [partsAll, ih, List.flatMap_cons]

theorem partsOfParams_eq_flatMap (ps : List Param) :
    partsOfParams ps = ps.flatMap fun p => parts p.type := by
  induction ps with
  | nil => rfl
  | cons p ps ih =>
    obtain ⟨_, _, _, type⟩ := p
    rw [partsOfParams, ih, List.flatMap_cons]

end TypeExpr

def Element.types : Element → List TypeExpr
  | .absent => []
  | .property _ _ _ type _ => [type]
  | .method _ _ _ typeParams params result _ =>
    typeParams.map (·.constraint) ++ params.map (·.type) ++ [result]
  | .construct params result => params.map (·.type) ++ [result]
  | .index _ key type => [key.type, type]

namespace Statement

mutual

def types : Statement → List TypeExpr
  | .absent => []
  | .interfaceDecl _ bases elements => bases ++ elements.flatMap Element.types
  | .classDecl _ bases elements => bases ++ elements.flatMap Element.types
  | .typeAlias _ type => [type]
  | .functionDecl _ _ typeParams params result =>
    typeParams.map (·.constraint) ++ params.map (·.type) ++ [result]
  | .varDecl _ _ _ type => [type]
  | .moduleDecl _ _ body => typesAll body
  | .exportDefault _ => []

def typesAll : List Statement → List TypeExpr
  | [] => []
  | s :: ss => types s ++ typesAll ss

end

/-- The types that a statement names, and all types in them. -/
def parts (s : Statement) : List TypeExpr := s.types.flatMap TypeExpr.parts

end Statement

end IdlTypings
