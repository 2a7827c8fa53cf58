import IdlTypings.Proofs.Parser.Reading

/-!
# The parser as programs

Every reader of the parser as a program over readings: its definition without the proofs that its
cursor moves.
-/

namespace IdlTypings

open Reading

namespace Cursor

theorem of_readName :
    of readName = (do
      let t ← of (readIf (fun t => t.kind = .identifier) .identifier)
      pure t.name) := by
  ext s
  exact of_bind rfl fun _ => rfl

theorem of_skip (k : Token.Kind) :
    of (skip k) = choose (isAt k) (do let _ ← of (read k); pure true) (pure false) := by
  ext s
  exact of_choose (of_bind rfl fun _ => rfl) rfl

theorem of_skipWord (word : String) :
    of (skipWord word) =
      choose (isAtWord word) (do let _ ← of (readWord word); pure true) (pure false) := by
  ext s
  exact of_choose (of_bind rfl fun _ => rfl) rfl

theorem of_skipName : of skipName = choose (isAt .identifier) (of readName) (pure []) := by
  ext s
  exact of_choose (of_last rfl fun _ => rfl) rfl

end Cursor

namespace Parser

open Cursor

/-! ## Values and names -/

theorem of_literalText :
    of literalText =
      choose (fun s => s.isAt .string || s.isAt .number)
        (do
          let t ← of (readOneOf [.string, .number])
          pure t.text)
        (choose (isAt .minus)
          (do
            let _ ← of (read .minus)
            let _ ← of (readIf (Token.isWord "Infinity") .infinity)
            pure "-Infinity")
          (choose (isAt .bracketOpen)
            (do
              let _ ← of (read .bracketOpen)
              let _ ← of (read .bracketClose)
              pure "[]")
            (choose (isAt .braceOpen)
              (do
                let _ ← of (read .braceOpen)
                let _ ← of (read .braceClose)
                pure "\x7b\x7d")
              (do
                let t ← of (readIf (fun t => valueWords.any fun w => t.isWord w) .constant)
                pure t.text)))) := by
  ext s
  refine of_choose (p := fun s => s.isAt .string || s.isAt .number) (of_bind rfl fun _ => rfl) ?_
  refine of_choose (of_bind rfl fun _ => of_bind rfl fun _ => rfl) ?_
  refine of_choose (of_bind rfl fun _ => of_bind rfl fun _ => rfl) ?_
  exact of_choose (of_bind rfl fun _ => of_bind rfl fun _ => rfl) (of_bind rfl fun _ => rfl)

theorem of_literal :
    of literal = (do
      let first ← here
      let value ← of literalText
      let sp ← span first
      pure ⟨sp, value⟩) := by
  ext s
  exact of_here <| of_bind rfl fun _ => rfl

theorem of_defaultValue :
    of defaultValue =
      choose (isAt .equals)
        (do
          let _ ← of (read .equals)
          let value ← of literal
          pure (some value))
        (pure none) := by
  ext s
  exact of_choose (of_bind rfl fun _ => of_bind rfl fun _ => rfl) rfl

theorem of_annotationValues :
    of annotationValues =
      choose (isAt .parenClose) (pure []) (do
        let t ← of (readOneOf [.identifier, .string, .number])
        let more ← of (skip .comma)
        if more then do
          let ts ← of annotationValues
          pure (t.text :: ts)
        else pure [t.text]) := by
  ext s
  show (annotationValues s).map _ = _
  rw [annotationValues]
  exact of_choose rfl (of_bind rfl fun _ => of_bind rfl fun _ => of_if (of_bind rfl fun _ => rfl) rfl)

theorem of_annotationValue (assigned : Bool) :
    of (annotationValue assigned) =
      if assigned then do
        let t ← of (readOneOf [.identifier, .string, .number, .star])
        pure t.text
      else pure [] := by
  ext s
  exact of_if (of_bind rfl fun _ => rfl) rfl

theorem of_typeNameTail (word : Text) :
    of (typeNameTail word) =
      choose (fun s => (continuations word).any fun w => s.isAtWord w)
        (do
          let t ← of (readIf (fun t => t.kind = .identifier) .identifier)
          let tail ← of (typeNameTail t.text)
          pure (.char ' ' :: t.text ++ tail))
        (pure []) := by
  ext s
  show (typeNameTail word s).map _ = _
  rw [typeNameTail]
  exact of_choose (p := fun s => (continuations word).any fun w => s.isAtWord w)
    (of_bind rfl fun _ => of_bind rfl fun _ => rfl) rfl

theorem of_typeName :
    of typeName =
      choose (fun s => Text.startsWith "_" s.current.text)
        (of readName)
        (do
          let name ← of readName
          let tail ← of (typeNameTail name)
          pure (name ++ tail)) := by
  ext s
  show (typeName s).map _ = _
  rw [typeName, run_choose]
  cases Text.startsWith "_" s.current.text
  · exact of_bind rfl fun _ => of_bind rfl fun _ => rfl
  · exact of_last rfl fun _ => rfl

/-! ## Types, annotations and parameters -/

theorem of_annotations :
    of annotations =
      choose (isAt .bracketOpen)
        (do
          let _ ← of (read .bracketOpen)
          let first ← of annotationParts
          let _ ← of (read .bracketClose)
          let more ← of annotations
          pure (first ++ more))
        (pure []) := by
  ext s
  show (annotations s).map _ = _
  rw [annotations]
  exact of_choose (of_bind rfl fun _ => of_bind rfl fun _ => of_bind rfl fun _ =>
    of_bind rfl fun _ => rfl) rfl

theorem of_annotationParts :
    of annotationParts =
      choose (isAt .bracketClose) (pure []) (do
        let a ← of annotation
        let more ← of (skip .comma)
        if more then do
          let as ← of annotationParts
          pure (a :: as)
        else pure [a]) := by
  ext s
  show (annotationParts s).map _ = _
  rw [annotationParts]
  exact of_choose rfl (of_bind rfl fun _ => of_bind rfl fun _ => of_if (of_bind rfl fun _ => rfl) rfl)

/-- Reads the parameters of an annotation, if it has any. -/
def annotationTail (first : Place) (name value : Text) : Reading Annotation :=
  choose (isAt .parenOpen)
    (do
      let ps ← of parameters
      let sp ← span first
      pure ⟨sp, name, value, [], ps, true⟩)
    (do
      let sp ← span first
      pure ⟨sp, name, value, [], [], false⟩)

theorem of_annotation_eq :
    of annotation = (do
      let first ← here
      let name ← of readName
      let assigned ← of (skip .equals)
      choose (fun s => assigned && s.isAt .parenOpen)
        (do
          let _ ← of (read .parenOpen)
          let values ← of annotationValues
          let _ ← of (read .parenClose)
          let sp ← span first
          pure ⟨sp, name, [], values, [], false⟩)
        (do
          let value ← of (annotationValue assigned)
          annotationTail first name value)) := by
  ext s
  show Except.map _ _ = _
  unfold annotation
  refine of_here <| of_bind rfl fun _ => of_bind rfl fun ⟨assigned, _, _⟩ => ?_
  refine of_choose (p := fun s => assigned && s.isAt .parenOpen) ?_ ?_
  · exact of_bind rfl fun _ => of_bind rfl fun _ => of_bind rfl fun _ => rfl
  · exact of_bind rfl fun _ => of_choose (of_bind rfl fun _ => rfl) rfl

def typeTail (first : Place) (as : List Annotation) : Reading IdlType :=
  choose (isAt .parenOpen)
    (do
      let _ ← of (read .parenOpen)
      let types ← of alternatives
      let _ ← of (read .parenClose)
      let nullable ← of (skip .question)
      let sp ← span first
      pure (.union sp types nullable as))
    (do
      let name ← of typeName
      choose (isAt .angleOpen)
        (do
          let _ ← of (read .angleOpen)
          let args ← of typeArguments
          let _ ← of (read .angleClose)
          let nullable ← of (skip .question)
          let sp ← span first
          pure (.generic sp name args nullable as))
        (do
          let nullable ← of (skip .question)
          let sp ← span first
          pure (.named sp name nullable as)))

theorem of_type :
    of type = (do
      let first ← here
      let as ← of annotations
      typeTail first as) := by
  ext s
  show (type s).map _ = _
  rw [type]
  refine of_here <| of_bind rfl fun _ => of_choose ?_ ?_
  · exact of_bind rfl fun _ => of_bind rfl fun _ => of_bind rfl fun _ => of_bind rfl fun _ => rfl
  · refine of_bind rfl fun _ => of_choose ?_ (of_bind rfl fun _ => rfl)
    exact of_bind rfl fun _ => of_bind rfl fun _ => of_bind rfl fun _ => of_bind rfl fun _ => rfl

theorem of_alternatives :
    of alternatives = (do
      let t ← of type
      let more ← of (skipWord "or")
      if more then do
        let ts ← of alternatives
        pure (t :: ts)
      else pure [t]) := by
  ext s
  show (alternatives s).map _ = _
  rw [alternatives]
  exact of_bind rfl fun _ => of_bind rfl fun _ => of_if (of_bind rfl fun _ => rfl) rfl

theorem of_typeArguments :
    of typeArguments = (do
      let t ← of type
      let more ← of (skip .comma)
      if more then do
        let ts ← of typeArguments
        pure (t :: ts)
      else pure [t]) := by
  ext s
  show (typeArguments s).map _ = _
  rw [typeArguments]
  exact of_bind rfl fun _ => of_bind rfl fun _ => of_if (of_bind rfl fun _ => rfl) rfl

theorem of_parameters :
    of parameters = (do
      let _ ← of (read .parenOpen)
      let empty ← of (skip .parenClose)
      if empty then pure [] else of parameterList) := by
  ext s
  show (parameters s).map _ = _
  rw [parameters]
  exact of_bind rfl fun _ => of_bind rfl fun _ => of_if rfl (of_last rfl fun _ => rfl)

theorem of_parameterList :
    of parameterList = (do
      let p ← of parameter
      let closed ← of (skip .parenClose)
      if closed then pure [p]
      else do
        let _ ← of (read .comma)
        let ps ← of parameterList
        pure (p :: ps)) := by
  ext s
  show (parameterList s).map _ = _
  rw [parameterList]
  exact of_bind rfl fun _ => of_bind rfl fun _ =>
    of_if rfl (of_bind rfl fun _ => of_bind rfl fun _ => rfl)

theorem of_parameter :
    of parameter = (do
      let first ← here
      let as ← of annotations
      let isOptional ← of (skipWord "optional")
      let t ← of type
      let isVariadic ← of (skip .ellipsis)
      let name ← of readName
      let value ← of defaultValue
      let sp ← span first
      pure ⟨sp, name, t, isOptional, isVariadic, value, as⟩) := by
  ext s
  show (parameter s).map _ = _
  rw [parameter]
  exact of_here <| of_bind rfl fun _ => of_bind rfl fun _ => of_bind rfl fun _ =>
    of_bind rfl fun _ => of_bind rfl fun _ => of_bind rfl fun _ => rfl

/-! ## Members -/

theorem of_constant (first : Place) (as : List Annotation) :
    of (constant first as) = (do
      let _ ← of (readWord "const")
      let t ← of type
      let name ← of readName
      let _ ← of (read .equals)
      let value ← of literal
      let sp ← span first
      pure (.constant ⟨sp, name, t, some value, as⟩)) := by
  ext s
  exact of_bind rfl fun _ => of_bind rfl fun _ => of_bind rfl fun _ => of_bind rfl fun _ =>
    of_bind rfl fun _ => rfl

theorem of_constructor (first : Place) (as : List Annotation) :
    of (constructor first as) = (do
      let _ ← of (readWord "constructor")
      let ps ← of parameters
      let sp ← span first
      pure (.constructor ⟨sp, ps, as⟩)) := by
  ext s
  exact of_bind rfl fun _ => of_bind rfl fun _ => rfl

theorem of_bareOperation (first : Place) :
    of (bareOperation first) = (do
      let name ← of readName
      let sp ← span first
      pure (.bare ⟨sp, name⟩)) := by
  ext s
  exact of_bind rfl fun _ => rfl

theorem of_iteratedTypes :
    of iteratedTypes = (do
      let t ← of type
      let more ← of (skip .comma)
      if more then do
        let u ← of type
        pure [t, u]
      else pure [t]) := by
  ext s
  exact of_bind rfl fun _ => of_bind rfl fun _ => of_if (of_bind rfl fun _ => rfl) rfl

theorem of_iterationParameters (isAsync : Bool) :
    of (iterationParameters isAsync) =
      choose (fun s => isAsync && s.isAt .parenOpen) (of parameters) (pure []) := by
  ext s
  exact of_choose (p := fun s => isAsync && s.isAt .parenOpen) (of_last rfl fun _ => rfl) rfl

theorem of_iteration (first : Place) (as : List Annotation) :
    of (iteration first as) = (do
      let isAsync ← of (skipWord "async")
      let _ ← of (readWord "iterable")
      let _ ← of (read .angleOpen)
      let types ← of iteratedTypes
      let _ ← of (read .angleClose)
      let ps ← of (iterationParameters isAsync)
      let sp ← span first
      pure (.iteration ⟨sp, isAsync, types, ps, as⟩)) := by
  ext s
  exact of_bind rfl fun _ => of_bind rfl fun _ => of_bind rfl fun _ => of_bind rfl fun _ =>
    of_bind rfl fun _ => of_bind rfl fun _ => rfl

theorem of_collection (first : Place) (as : List Annotation) :
    of (collection first as) = (do
      let isReadonly ← of (skipWord "readonly")
      let isSet ← of (skipWord "setlike")
      if isSet then do
        let _ ← of (read .angleOpen)
        let element ← of type
        let _ ← of (read .angleClose)
        let sp ← span first
        pure (.setlike ⟨sp, isReadonly, element, as⟩)
      else do
        let _ ← of (readWord "maplike")
        let _ ← of (read .angleOpen)
        let key ← of type
        let _ ← of (read .comma)
        let value ← of type
        let _ ← of (read .angleClose)
        let sp ← span first
        pure (.maplike ⟨sp, isReadonly, key, value, as⟩)) := by
  ext s
  refine of_bind rfl fun _ => of_bind rfl fun _ => of_if ?_ ?_
  · exact of_bind rfl fun _ => of_bind rfl fun _ => of_bind rfl fun _ => rfl
  · exact of_bind rfl fun _ => of_bind rfl fun _ => of_bind rfl fun _ => of_bind rfl fun _ =>
      of_bind rfl fun _ => of_bind rfl fun _ => rfl

/-- Whether a word that makes an operation special stands here, and not as the type. -/
def isAtSpecial (s : Cursor) : Bool :=
  (specialWords.any fun w => s.isAtWord w) && !s.isBefore .parenOpen

theorem of_specialWord :
    of specialWord =
      choose isAtSpecial
        (do
          let name ← of readName
          pure (some name))
        (pure none) := by
  ext s
  exact of_choose (p := isAtSpecial) (of_bind rfl fun _ => rfl) rfl

theorem of_attributeOrOperation (first : Place) (as : List Annotation) :
    of (attributeOrOperation first as) = (do
      let isStatic ← of (skipWord "static")
      let isStringifier ← of (skipWord "stringifier")
      let isInherited ← of (skipWord "inherit")
      let isReadonly ← of (skipWord "readonly")
      choose (fun s => s.isAtWord "attribute" || isInherited || isReadonly)
        (do
          let _ ← of (readWord "attribute")
          let t ← of type
          let name ← of readName
          let sp ← span first
          pure (.attr ⟨sp, name, t, isReadonly, isStatic, isInherited, isStringifier, as⟩))
        (do
          let word ← of specialWord
          let t ← of type
          let name ← of skipName
          let ps ← of parameters
          let sp ← span first
          pure (.operation ⟨sp, name, t, ps, isStatic,
            word.getD (if isStringifier then "stringifier" else []), as⟩))) := by
  ext s
  refine of_bind rfl fun _ => of_bind rfl fun _ => of_bind rfl fun ⟨isInherited, _, _⟩ =>
    of_bind rfl fun ⟨isReadonly, _, _⟩ => ?_
  refine of_choose (p := fun s => s.isAtWord "attribute" || isInherited || isReadonly) ?_ ?_
  · exact of_bind rfl fun _ => of_bind rfl fun _ => of_bind rfl fun _ => rfl
  · exact of_bind rfl fun _ => of_bind rfl fun _ => of_bind rfl fun _ => of_bind rfl fun _ => rfl

theorem of_memberBody (first : Place) (as : List Annotation) :
    of (memberBody first as) =
      choose (isAtWord "const") (of (constant first as))
        (choose (fun s => s.isAtWord "constructor" && s.isBefore .parenOpen)
          (of (constructor first as))
          (choose (fun s => (bareWords.any fun w => s.isAtWord w) && s.isBefore .semicolon)
            (of (bareOperation first))
            (choose (fun s => s.isAtWord "iterable" || (s.isAtWord "async" && s.isBeforeWord "iterable"))
              (of (iteration first as))
              (choose isAtCollection (of (collection first as))
                (of (attributeOrOperation first as)))))) := by
  ext s
  refine of_choose rfl ?_
  refine of_choose (p := fun s => s.isAtWord "constructor" && s.isBefore .parenOpen) rfl ?_
  refine of_choose
    (p := fun s => (bareWords.any fun w => s.isAtWord w) && s.isBefore .semicolon) rfl ?_
  refine of_choose
    (p := fun s => s.isAtWord "iterable" || (s.isAtWord "async" && s.isBeforeWord "iterable")) rfl ?_
  exact of_choose rfl rfl

theorem of_interfaceMember :
    of interfaceMember = (do
      let first ← here
      let as ← of annotations
      of (memberBody first as)) := by
  ext s
  exact of_here <| of_bind rfl fun _ => of_last rfl fun _ => rfl

theorem of_dictionaryMember :
    of dictionaryMember = (do
      let first ← here
      let as ← of annotations
      let isRequired ← of (skipWord "required")
      let t ← of type
      let name ← of readName
      let value ← of defaultValue
      let sp ← span first
      pure (.field ⟨sp, name, t, isRequired, value, as⟩)) := by
  ext s
  exact of_here <| of_bind rfl fun _ => of_bind rfl fun _ => of_bind rfl fun _ =>
    of_bind rfl fun _ => of_bind rfl fun _ => rfl

section

variable (member : (s : Cursor) → Except ParseError (Step s Member))

theorem of_memberList :
    of (memberList member) =
      choose (isAt .braceClose) (pure [])
        (choose (isAt .endOfInput) (fail fun s => s.refuse .unclosedBody) (do
          let m ← of member
          let _ ← of (read .semicolon)
          let ms ← of (memberList member)
          pure (m :: ms))) := by
  ext s
  show (memberList member s).map _ = _
  rw [memberList]
  exact of_choose rfl <| of_choose rfl <| of_bind rfl fun _ => of_bind rfl fun _ =>
    of_bind rfl fun _ => rfl

theorem of_body :
    of (body member) = (do
      let _ ← of (read .braceOpen)
      let ms ← of (memberList member)
      let _ ← of (read .braceClose)
      let _ ← of (read .semicolon)
      pure ms) := by
  ext s
  exact of_bind rfl fun _ => of_bind rfl fun _ => of_bind rfl fun _ => of_bind rfl fun _ => rfl

end

/-! ## Definitions -/

theorem of_inheritance :
    of inheritance =
      choose (isAt .colon)
        (do
          let _ ← of (read .colon)
          of readName)
        (pure []) := by
  ext s
  exact of_choose (of_bind rfl fun _ => of_last rfl fun _ => rfl) rfl

theorem of_interfaceTail (isPartial isCallback : Bool) (first : Place) (as : List Annotation) :
    of (interfaceTail isPartial isCallback first as) = (do
      let name ← of readName
      let inherits ← of inheritance
      let ms ← of (body interfaceMember)
      let sp ← span first
      pure (.interface ⟨sp, name, inherits, isPartial, isCallback, as, ms⟩)) := by
  ext s
  exact of_bind rfl fun _ => of_bind rfl fun _ => of_bind rfl fun _ => rfl

theorem of_interfaceOrMixin (isPartial : Bool) (first : Place) (as : List Annotation) :
    of (interfaceOrMixin isPartial first as) = (do
      let _ ← of (readWord "interface")
      let isMixin ← of (skipWord "mixin")
      if isMixin then do
        let name ← of readName
        let ms ← of (body interfaceMember)
        let sp ← span first
        pure (.mixin ⟨sp, name, isPartial, as, ms⟩)
      else of (interfaceTail isPartial false first as)) := by
  ext s
  refine of_bind rfl fun _ => of_bind rfl fun _ => of_if ?_ (of_last rfl fun _ => rfl)
  exact of_bind rfl fun _ => of_bind rfl fun _ => rfl

theorem of_dictionary (isPartial : Bool) (first : Place) (as : List Annotation) :
    of (dictionary isPartial first as) = (do
      let _ ← of (readWord "dictionary")
      let name ← of readName
      let inherits ← of inheritance
      let ms ← of (body dictionaryMember)
      let sp ← span first
      pure (.dictionary ⟨sp, name, inherits, isPartial, as, ms⟩)) := by
  ext s
  exact of_bind rfl fun _ => of_bind rfl fun _ => of_bind rfl fun _ => of_bind rfl fun _ => rfl

theorem of_namespaceBody (isPartial : Bool) (first : Place) (as : List Annotation) :
    of (namespaceBody isPartial first as) = (do
      let _ ← of (readWord "namespace")
      let name ← of readName
      let ms ← of (body interfaceMember)
      let sp ← span first
      pure (.namespaced ⟨sp, name, isPartial, as, ms⟩)) := by
  ext s
  exact of_bind rfl fun _ => of_bind rfl fun _ => of_bind rfl fun _ => rfl

theorem of_partialDefinition (first : Place) (as : List Annotation) :
    of (partialDefinition first as) = (do
      let _ ← of (readWord "partial")
      choose (isAtWord "interface") (of (interfaceOrMixin true first as))
        (choose (isAtWord "dictionary") (of (dictionary true first as))
          (choose (isAtWord "namespace") (of (namespaceBody true first as))
            (fail fun s => s.unexpected .partialBody)))) := by
  ext s
  refine of_bind rfl fun _ => of_choose (of_last rfl fun _ => rfl) ?_
  exact of_choose (of_last rfl fun _ => rfl) (of_choose (of_last rfl fun _ => rfl) rfl)

theorem of_callback (first : Place) (as : List Annotation) :
    of (callback first as) = (do
      let _ ← of (readWord "callback")
      let isInterface ← of (skipWord "interface")
      if isInterface then of (interfaceTail false true first as)
      else do
        let name ← of readName
        let _ ← of (read .equals)
        let t ← of type
        let ps ← of parameters
        let _ ← of (read .semicolon)
        let sp ← span first
        pure (.callback ⟨sp, name, as, t, ps⟩)) := by
  ext s
  refine of_bind rfl fun _ => of_bind rfl fun _ => of_if (of_last rfl fun _ => rfl) ?_
  exact of_bind rfl fun _ => of_bind rfl fun _ => of_bind rfl fun _ => of_bind rfl fun _ =>
    of_bind rfl fun _ => rfl

theorem of_enumerationValues :
    of enumerationValues =
      choose (isAt .braceClose) (pure []) (do
        let t ← of (read .string)
        let more ← of (skip .comma)
        if more then do
          let vs ← of enumerationValues
          pure (Text.unquoted t.text :: vs)
        else pure [Text.unquoted t.text]) := by
  ext s
  show (enumerationValues s).map _ = _
  rw [enumerationValues]
  exact of_choose rfl (of_bind rfl fun _ => of_bind rfl fun _ => of_if (of_bind rfl fun _ => rfl) rfl)

theorem of_enumeration (first : Place) (as : List Annotation) :
    of (enumeration first as) = (do
      let _ ← of (readWord "enum")
      let name ← of readName
      let _ ← of (read .braceOpen)
      let values ← of enumerationValues
      let _ ← of (read .braceClose)
      let _ ← of (read .semicolon)
      let sp ← span first
      pure (.enumeration ⟨sp, name, as, values⟩)) := by
  ext s
  exact of_bind rfl fun _ => of_bind rfl fun _ => of_bind rfl fun _ => of_bind rfl fun _ =>
    of_bind rfl fun _ => of_bind rfl fun _ => rfl

theorem of_typedef (first : Place) (as : List Annotation) :
    of (typedef first as) = (do
      let _ ← of (readWord "typedef")
      let t ← of type
      let name ← of readName
      let _ ← of (read .semicolon)
      let sp ← span first
      pure (.typedef ⟨sp, name, as, t⟩)) := by
  ext s
  exact of_bind rfl fun _ => of_bind rfl fun _ => of_bind rfl fun _ => of_bind rfl fun _ => rfl

/-- Reads what follows the name of an interface that is related to another one. -/
def relationTail (relate : Relation → Definition) (first : Place) (name : Text) : Reading Definition := do
  let _ ← of readName
  let source ← of readName
  let _ ← of (read .semicolon)
  let sp ← span first
  pure (relate ⟨sp, name, source⟩)

theorem of_relation (first : Place) :
    of (relation first) = (do
      let name ← of readName
      choose (isAtWord "implements")
        (relationTail .implements first name)
        (relationTail .includes first name)) := by
  ext s
  refine of_bind rfl fun ⟨name, s₁, h₁⟩ => ?_
  rw [run_choose]
  simp only [Outcome.result]
  cases s₁.isAtWord "implements"
  · exact of_bind rfl fun _ => of_bind rfl fun _ => of_bind rfl fun _ => rfl
  · exact of_bind rfl fun _ => of_bind rfl fun _ => of_bind rfl fun _ => rfl

theorem of_definitionBody (first : Place) (as : List Annotation) :
    of (definitionBody first as) =
      choose (isAtWord "interface") (of (interfaceOrMixin false first as))
        (choose (isAtWord "partial") (of (partialDefinition first as))
          (choose (isAtWord "callback") (of (callback first as))
            (choose (isAtWord "dictionary") (of (dictionary false first as))
              (choose (isAtWord "namespace") (of (namespaceBody false first as))
                (choose (isAtWord "enum") (of (enumeration first as))
                  (choose (isAtWord "typedef") (of (typedef first as))
                    (choose (fun s => isAtRelation s && as.isEmpty) (of (relation first))
                      (fail fun s =>
                        s.refuse (.notADefinition (s.current.kind, s.current.text)))))))))) := by
  ext s
  refine of_choose rfl <| of_choose rfl <| of_choose rfl <| of_choose rfl <| of_choose rfl <|
    of_choose rfl <| of_choose rfl ?_
  exact of_choose (p := fun s => isAtRelation s && as.isEmpty) rfl rfl

theorem of_definition :
    of definition = (do
      let first ← here
      let as ← of annotations
      of (definitionBody first as)) := by
  ext s
  exact of_here <| of_bind rfl fun _ => of_last rfl fun _ => rfl

theorem of_definitions :
    of definitions =
      choose (isAt .endOfInput) (pure []) (do
        let d ← of definition
        let ds ← of definitions
        pure (d :: ds)) := by
  ext s
  show (definitions s).map _ = _
  rw [definitions]
  exact of_choose rfl (of_bind rfl fun _ => of_bind rfl fun _ => rfl)

theorem document_eq (s : Cursor) :
    document s =
      if s.isAt .error then .error (s.refuse (.unreadable s.current.text))
      else ((of definitions).run s).map fun x => ⟨x.2.span Place.origin, x.1⟩ := by
  rw [document, settle]
  split
  · rfl
  · simp only [of]
    rcases definitions s with e | x <;> rfl

end Parser

end IdlTypings
