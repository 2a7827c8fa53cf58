import IdlTypings.Proofs.Parser.Grammar

/-!
# The parser as procedures

How the parser goes about reading: it is a set of procedures that call each other. Each has a
`Program`, and what the program reads is what its reader reads (`Procedure.reading_program`).
-/

namespace IdlTypings.Parser

/-- The marks that may be left out where they stand. -/
inductive Mark
  | comma
  | question
  | equals
  | parenClose
  | ellipsis

def Mark.kind : Mark → Token.Kind
  | comma => .comma
  | question => .question
  | equals => .equals
  | parenClose => .parenClose
  | ellipsis => .ellipsis

/-- A procedure of the parser with its arguments, which gives a value of the type. -/
inductive Procedure : Type → Type
  | name : Procedure Text
  | skip (m : Mark) : Procedure Bool
  | skipWord (word : String) : Procedure Bool
  | skipName : Procedure Text
  | literalText : Procedure Text
  | literal : Procedure Literal
  | defaultValue : Procedure (Option Literal)
  | annotationValues : Procedure (List Text)
  | annotationValue (assigned : Bool) : Procedure Text
  | typeNameTail (word : Text) : Procedure Text
  | typeName : Procedure Text
  | annotations : Procedure (List Annotation)
  | annotationParts : Procedure (List Annotation)
  | annotationPart : Procedure Annotation
  | type : Procedure IdlType
  | alternatives : Procedure (List IdlType)
  | typeArguments : Procedure (List IdlType)
  | parameters : Procedure (List Parameter)
  | parameterList : Procedure (List Parameter)
  | parameter : Procedure Parameter
  | constant (first : Place) (as : List Annotation) : Procedure Member
  | constructor (first : Place) (as : List Annotation) : Procedure Member
  | bareOperation (first : Place) : Procedure Member
  | iteratedTypes : Procedure (List IdlType)
  | iterationParameters (isAsync : Bool) : Procedure (List Parameter)
  | iteration (first : Place) (as : List Annotation) : Procedure Member
  | collection (first : Place) (as : List Annotation) : Procedure Member
  | specialWord : Procedure (Option Text)
  | attributeOrOperation (first : Place) (as : List Annotation) : Procedure Member
  | memberBody (first : Place) (as : List Annotation) : Procedure Member
  | interfaceMember : Procedure Member
  | dictionaryMember : Procedure Member
  | memberList (ofDictionary : Bool) : Procedure (List Member)
  | body (ofDictionary : Bool) : Procedure (List Member)
  | inheritance : Procedure Text
  | interfaceTail (isPartial isCallback : Bool) (first : Place) (as : List Annotation) :
    Procedure Definition
  | interfaceOrMixin (isPartial : Bool) (first : Place) (as : List Annotation) : Procedure Definition
  | dictionary (isPartial : Bool) (first : Place) (as : List Annotation) : Procedure Definition
  | namespaceBody (isPartial : Bool) (first : Place) (as : List Annotation) : Procedure Definition
  | partialDefinition (first : Place) (as : List Annotation) : Procedure Definition
  | callback (first : Place) (as : List Annotation) : Procedure Definition
  | enumerationValues : Procedure (List Text)
  | enumeration (first : Place) (as : List Annotation) : Procedure Definition
  | typedef (first : Place) (as : List Annotation) : Procedure Definition
  | relation (first : Place) : Procedure Definition
  | definitionBody (first : Place) (as : List Annotation) : Procedure Definition
  | definition : Procedure Definition
  | definitions : Procedure (List Definition)

open Reading Cursor

def member (ofDictionary : Bool) : (s : Cursor) → Except ParseError (Step s Member) :=
  if ofDictionary then dictionaryMember else interfaceMember

def Procedure.reader : {α : Type} → Procedure α → Reading α
  | _, name => of readName
  | _, skip m => of (Cursor.skip m.kind)
  | _, skipWord word => of (Cursor.skipWord word)
  | _, skipName => of Cursor.skipName
  | _, literalText => of Parser.literalText
  | _, literal => of Parser.literal
  | _, defaultValue => of Parser.defaultValue
  | _, annotationValues => of Parser.annotationValues
  | _, annotationValue assigned => of (Parser.annotationValue assigned)
  | _, typeNameTail word => of (Parser.typeNameTail word)
  | _, typeName => of Parser.typeName
  | _, annotations => of Parser.annotations
  | _, annotationParts => of Parser.annotationParts
  | _, annotationPart => of Parser.annotation
  | _, type => of Parser.type
  | _, alternatives => of Parser.alternatives
  | _, typeArguments => of Parser.typeArguments
  | _, parameters => of Parser.parameters
  | _, parameterList => of Parser.parameterList
  | _, parameter => of Parser.parameter
  | _, constant first as => of (Parser.constant first as)
  | _, constructor first as => of (Parser.constructor first as)
  | _, bareOperation first => of (Parser.bareOperation first)
  | _, iteratedTypes => of Parser.iteratedTypes
  | _, iterationParameters isAsync => of (Parser.iterationParameters isAsync)
  | _, iteration first as => of (Parser.iteration first as)
  | _, collection first as => of (Parser.collection first as)
  | _, specialWord => of Parser.specialWord
  | _, attributeOrOperation first as => of (Parser.attributeOrOperation first as)
  | _, memberBody first as => of (Parser.memberBody first as)
  | _, interfaceMember => of Parser.interfaceMember
  | _, dictionaryMember => of Parser.dictionaryMember
  | _, memberList ofDictionary => of (Parser.memberList (member ofDictionary))
  | _, body ofDictionary => of (Parser.body (member ofDictionary))
  | _, inheritance => of Parser.inheritance
  | _, interfaceTail isPartial isCallback first as =>
    of (Parser.interfaceTail isPartial isCallback first as)
  | _, interfaceOrMixin isPartial first as => of (Parser.interfaceOrMixin isPartial first as)
  | _, dictionary isPartial first as => of (Parser.dictionary isPartial first as)
  | _, namespaceBody isPartial first as => of (Parser.namespaceBody isPartial first as)
  | _, partialDefinition first as => of (Parser.partialDefinition first as)
  | _, callback first as => of (Parser.callback first as)
  | _, enumerationValues => of Parser.enumerationValues
  | _, enumeration first as => of (Parser.enumeration first as)
  | _, typedef first as => of (Parser.typedef first as)
  | _, relation first => of (Parser.relation first)
  | _, definitionBody first as => of (Parser.definitionBody first as)
  | _, definition => of Parser.definition
  | _, definitions => of Parser.definitions

/-- What a procedure does: it is done, or takes a step and goes on. -/
inductive Program (α : Type) : Type 1
  | done (value : α)
  /-- Notes the place of the current token. -/
  | place (next : Place → Program α)
  /-- Notes the span from a place to the last token that was passed. -/
  | span (first : Place) (next : Span → Program α)
  | test (p : Token → Bool) (yes no : Program α)
  /-- Looks at the current token and at the next one. -/
  | peek (p : Token → Token → Bool) (yes no : Program α)
  /-- Passes the current token if it is asked for, and refuses it otherwise. -/
  | read (p : Token → Bool) (what : ParseError.Expectation) (next : Token → Program α)
  | fail (cause : Token → ParseError.Cause)
  | call {β : Type} (q : Procedure β) (next : β → Program α)
  /-- Ends with a call. -/
  | goto (q : Procedure α)

namespace Program

variable {α β : Type}

protected def bind : Program α → (α → Program β) → Program β
  | done v, f => f v
  | place next, f => place fun p => (next p).bind f
  | span first next, f => span first fun sp => (next sp).bind f
  | test p yes no, f => test p (yes.bind f) (no.bind f)
  | peek p yes no, f => peek p (yes.bind f) (no.bind f)
  | read p what next, f => read p what fun t => (next t).bind f
  | fail cause, _ => fail cause
  | call q next, f => call q fun v => (next v).bind f
  | goto q, f => call q f

instance : Monad Program where
  pure := done
  bind := Program.bind

def here : Program Place := place done

def spanFrom (first : Place) : Program Span := span first done

def pass (p : Token → Bool) (what : ParseError.Expectation) : Program Token := read p what done

def passKind (k : Token.Kind) : Program Token := pass (fun t => t.kind = k) (.kind k)

def passOneOf (ks : List Token.Kind) : Program Token := pass (fun t => ks.contains t.kind) (.oneOf ks)

def passWord (word : String) : Program Token := pass (Token.isWord word) (.keyword word)

def run (q : Procedure α) : Program α := goto q

def ifAt (k : Token.Kind) (yes no : Program α) : Program α := test (fun t => t.kind = k) yes no

def ifWord (word : String) (yes no : Program α) : Program α := test (Token.isWord word) yes no

/-- What a program reads, given that the procedures that it calls return what they read. -/
def reading : Program α → Reading α
  | done v => pure v
  | place next => Reading.here >>= fun p => (next p).reading
  | span first next => Reading.span first >>= fun sp => (next sp).reading
  | test p yes no => choose (fun s => p s.current) yes.reading no.reading
  | peek p yes no => choose (fun s => p s.current s.following) yes.reading no.reading
  | read p what next => of (readIf p what) >>= fun t => (next t).reading
  | fail cause => Reading.fail fun s => s.refuse (cause s.current)
  | call q next => q.reader >>= fun v => (next v).reading
  | goto q => q.reader

/-- What follows the name and the value of an annotation: its parameters, if it has any. -/
def annotationTail (first : Place) (name value : Text) : Program Annotation :=
  ifAt .parenOpen
    (do
      let ps ← run .parameters
      let sp ← spanFrom first
      pure ⟨sp, name, value, [], ps, true⟩)
    (do
      let sp ← spanFrom first
      pure ⟨sp, name, value, [], [], false⟩)

def typeTail (first : Place) (as : List Annotation) : Program IdlType :=
  ifAt .parenOpen
    (do
      let _ ← passKind .parenOpen
      let types ← run .alternatives
      let _ ← passKind .parenClose
      let nullable ← run (.skip .question)
      let sp ← spanFrom first
      pure (.union sp types nullable as))
    (do
      let name ← run .typeName
      ifAt .angleOpen
        (do
          let _ ← passKind .angleOpen
          let args ← run .typeArguments
          let _ ← passKind .angleClose
          let nullable ← run (.skip .question)
          let sp ← spanFrom first
          pure (.generic sp name args nullable as))
        (do
          let nullable ← run (.skip .question)
          let sp ← spanFrom first
          pure (.named sp name nullable as)))

/-- What follows the name of an interface that is related to another one. -/
def relationTail (relate : Relation → Definition) (first : Place) (name : Text) : Program Definition := do
  let _ ← run .name
  let source ← run .name
  let _ ← passKind .semicolon
  let sp ← spanFrom first
  pure (relate ⟨sp, name, source⟩)

end Program

namespace Procedure

open Program

def program : {α : Type} → Procedure α → Program α
  | _, name => do
    let t ← pass (fun t => t.kind = .identifier) .identifier
    pure t.name
  | _, skip m => ifAt m.kind (do let _ ← passKind m.kind; pure true) (pure false)
  | _, skipWord word => ifWord word (do let _ ← passWord word; pure true) (pure false)
  | _, skipName => ifAt .identifier (run name) (pure [])
  | _, literalText =>
    test (fun t => t.kind = .string || t.kind = .number)
      (do
        let t ← passOneOf [.string, .number]
        pure t.text)
      (ifAt .minus
        (do
          let _ ← passKind .minus
          let _ ← pass (Token.isWord "Infinity") .infinity
          pure "-Infinity")
        (ifAt .bracketOpen
          (do
            let _ ← passKind .bracketOpen
            let _ ← passKind .bracketClose
            pure "[]")
          (ifAt .braceOpen
            (do
              let _ ← passKind .braceOpen
              let _ ← passKind .braceClose
              pure "\x7b\x7d")
            (do
              let t ← pass (fun t => valueWords.any fun w => t.isWord w) .constant
              pure t.text))))
  | _, literal => do
    let first ← here
    let value ← run literalText
    let sp ← spanFrom first
    pure ⟨sp, value⟩
  | _, defaultValue =>
    ifAt .equals
      (do
        let _ ← passKind .equals
        let value ← run literal
        pure (some value))
      (pure none)
  | _, annotationValues =>
    ifAt .parenClose (pure []) (do
      let t ← passOneOf [.identifier, .string, .number]
      let more ← run (skip .comma)
      if more then do
        let ts ← run annotationValues
        pure (t.text :: ts)
      else pure [t.text])
  | _, annotationValue assigned =>
    if assigned then do
      let t ← passOneOf [.identifier, .string, .number, .star]
      pure t.text
    else pure []
  | _, typeNameTail word =>
    test (fun t => (continuations word).any fun w => t.isWord w)
      (do
        let t ← pass (fun t => t.kind = .identifier) .identifier
        let tail ← run (typeNameTail t.text)
        pure (.char ' ' :: t.text ++ tail))
      (pure [])
  | _, typeName =>
    test (fun t => Text.startsWith "_" t.text)
      (run name)
      (do
        let name ← run name
        let tail ← run (typeNameTail name)
        pure (name ++ tail))
  | _, annotations =>
    ifAt .bracketOpen
      (do
        let _ ← passKind .bracketOpen
        let first ← run annotationParts
        let _ ← passKind .bracketClose
        let more ← run annotations
        pure (first ++ more))
      (pure [])
  | _, annotationParts =>
    ifAt .bracketClose (pure []) (do
      let a ← run annotationPart
      let more ← run (skip .comma)
      if more then do
        let as ← run annotationParts
        pure (a :: as)
      else pure [a])
  | _, annotationPart => do
    let first ← here
    let name ← run name
    let assigned ← run (skip .equals)
    test (fun t => assigned && t.kind = .parenOpen)
      (do
        let _ ← passKind .parenOpen
        let values ← run annotationValues
        let _ ← passKind .parenClose
        let sp ← spanFrom first
        pure ⟨sp, name, [], values, [], false⟩)
      (do
        let value ← run (annotationValue assigned)
        Program.annotationTail first name value)
  | _, type => do
    let first ← here
    let as ← run annotations
    Program.typeTail first as
  | _, alternatives => do
    let t ← run type
    let more ← run (skipWord "or")
    if more then do
      let ts ← run alternatives
      pure (t :: ts)
    else pure [t]
  | _, typeArguments => do
    let t ← run type
    let more ← run (skip .comma)
    if more then do
      let ts ← run typeArguments
      pure (t :: ts)
    else pure [t]
  | _, parameters => do
    let _ ← passKind .parenOpen
    let empty ← run (skip .parenClose)
    if empty then pure [] else run parameterList
  | _, parameterList => do
    let p ← run parameter
    let closed ← run (skip .parenClose)
    if closed then pure [p]
    else do
      let _ ← passKind .comma
      let ps ← run parameterList
      pure (p :: ps)
  | _, parameter => do
    let first ← here
    let as ← run annotations
    let isOptional ← run (skipWord "optional")
    let t ← run type
    let isVariadic ← run (skip .ellipsis)
    let name ← run name
    let value ← run defaultValue
    let sp ← spanFrom first
    pure ⟨sp, name, t, isOptional, isVariadic, value, as⟩
  | _, constant first as => do
    let _ ← passWord "const"
    let t ← run type
    let name ← run name
    let _ ← passKind .equals
    let value ← run literal
    let sp ← spanFrom first
    pure (.constant ⟨sp, name, t, some value, as⟩)
  | _, constructor first as => do
    let _ ← passWord "constructor"
    let ps ← run parameters
    let sp ← spanFrom first
    pure (.constructor ⟨sp, ps, as⟩)
  | _, bareOperation first => do
    let name ← run name
    let sp ← spanFrom first
    pure (.bare ⟨sp, name⟩)
  | _, iteratedTypes => do
    let t ← run type
    let more ← run (skip .comma)
    if more then do
      let u ← run type
      pure [t, u]
    else pure [t]
  | _, iterationParameters isAsync =>
    test (fun t => isAsync && t.kind = .parenOpen) (run parameters) (pure [])
  | _, iteration first as => do
    let isAsync ← run (skipWord "async")
    let _ ← passWord "iterable"
    let _ ← passKind .angleOpen
    let types ← run iteratedTypes
    let _ ← passKind .angleClose
    let ps ← run (iterationParameters isAsync)
    let sp ← spanFrom first
    pure (.iteration ⟨sp, isAsync, types, ps, as⟩)
  | _, collection first as => do
    let isReadonly ← run (skipWord "readonly")
    let isSet ← run (skipWord "setlike")
    if isSet then do
      let _ ← passKind .angleOpen
      let element ← run type
      let _ ← passKind .angleClose
      let sp ← spanFrom first
      pure (.setlike ⟨sp, isReadonly, element, as⟩)
    else do
      let _ ← passWord "maplike"
      let _ ← passKind .angleOpen
      let key ← run type
      let _ ← passKind .comma
      let value ← run type
      let _ ← passKind .angleClose
      let sp ← spanFrom first
      pure (.maplike ⟨sp, isReadonly, key, value, as⟩)
  | _, specialWord =>
    peek (fun t u => (specialWords.any fun w => t.isWord w) && !decide (u.kind = .parenOpen))
      (do
        let name ← run name
        pure (some name))
      (pure none)
  | _, attributeOrOperation first as => do
    let isStatic ← run (skipWord "static")
    let isStringifier ← run (skipWord "stringifier")
    let isInherited ← run (skipWord "inherit")
    let isReadonly ← run (skipWord "readonly")
    test (fun t => t.isWord "attribute" || isInherited || isReadonly)
      (do
        let _ ← passWord "attribute"
        let t ← run type
        let name ← run name
        let sp ← spanFrom first
        pure (.attr ⟨sp, name, t, isReadonly, isStatic, isInherited, isStringifier, as⟩))
      (do
        let word ← run specialWord
        let t ← run type
        let name ← run skipName
        let ps ← run parameters
        let sp ← spanFrom first
        pure (.operation ⟨sp, name, t, ps, isStatic,
          word.getD (if isStringifier then "stringifier" else []), as⟩))
  | _, memberBody first as =>
    ifWord "const" (run (constant first as)) <|
    peek (fun t u => t.isWord "constructor" && u.kind = .parenOpen) (run (constructor first as)) <|
    peek (fun t u => (bareWords.any fun w => t.isWord w) && u.kind = .semicolon)
      (run (bareOperation first)) <|
    peek (fun t u => t.isWord "iterable" || (t.isWord "async" && u.isWord "iterable"))
      (run (iteration first as)) <|
    peek (fun t u => t.isWord "maplike" || t.isWord "setlike" ||
        (t.isWord "readonly" && (u.isWord "maplike" || u.isWord "setlike")))
      (run (collection first as)) <|
    run (attributeOrOperation first as)
  | _, interfaceMember => do
    let first ← here
    let as ← run annotations
    run (memberBody first as)
  | _, dictionaryMember => do
    let first ← here
    let as ← run annotations
    let isRequired ← run (skipWord "required")
    let t ← run type
    let name ← run name
    let value ← run defaultValue
    let sp ← spanFrom first
    pure (.field ⟨sp, name, t, isRequired, value, as⟩)
  | _, memberList ofDictionary =>
    ifAt .braceClose (pure []) <| ifAt .endOfInput (.fail fun _ => .unclosedBody) do
      let m ← if ofDictionary then run dictionaryMember else run interfaceMember
      let _ ← passKind .semicolon
      let ms ← run (memberList ofDictionary)
      pure (m :: ms)
  | _, body ofDictionary => do
    let _ ← passKind .braceOpen
    let ms ← run (memberList ofDictionary)
    let _ ← passKind .braceClose
    let _ ← passKind .semicolon
    pure ms
  | _, inheritance =>
    ifAt .colon
      (do
        let _ ← passKind .colon
        run name)
      (pure [])
  | _, interfaceTail isPartial isCallback first as => do
    let name ← run name
    let inherits ← run inheritance
    let ms ← run (body false)
    let sp ← spanFrom first
    pure (.interface ⟨sp, name, inherits, isPartial, isCallback, as, ms⟩)
  | _, interfaceOrMixin isPartial first as => do
    let _ ← passWord "interface"
    let isMixin ← run (skipWord "mixin")
    if isMixin then do
      let name ← run name
      let ms ← run (body false)
      let sp ← spanFrom first
      pure (.mixin ⟨sp, name, isPartial, as, ms⟩)
    else run (interfaceTail isPartial false first as)
  | _, dictionary isPartial first as => do
    let _ ← passWord "dictionary"
    let name ← run name
    let inherits ← run inheritance
    let ms ← run (body true)
    let sp ← spanFrom first
    pure (.dictionary ⟨sp, name, inherits, isPartial, as, ms⟩)
  | _, namespaceBody isPartial first as => do
    let _ ← passWord "namespace"
    let name ← run name
    let ms ← run (body false)
    let sp ← spanFrom first
    pure (.namespaced ⟨sp, name, isPartial, as, ms⟩)
  | _, partialDefinition first as => do
    let _ ← passWord "partial"
    ifWord "interface" (run (interfaceOrMixin true first as)) <|
      ifWord "dictionary" (run (dictionary true first as)) <|
      ifWord "namespace" (run (namespaceBody true first as)) <|
      .fail fun t => .expected .partialBody (t.kind, t.text)
  | _, callback first as => do
    let _ ← passWord "callback"
    let isInterface ← run (skipWord "interface")
    if isInterface then run (interfaceTail false true first as)
    else do
      let name ← run name
      let _ ← passKind .equals
      let t ← run type
      let ps ← run parameters
      let _ ← passKind .semicolon
      let sp ← spanFrom first
      pure (.callback ⟨sp, name, as, t, ps⟩)
  | _, enumerationValues =>
    ifAt .braceClose (pure []) (do
      let t ← passKind .string
      let more ← run (skip .comma)
      if more then do
        let vs ← run enumerationValues
        pure (Text.unquoted t.text :: vs)
      else pure [Text.unquoted t.text])
  | _, enumeration first as => do
    let _ ← passWord "enum"
    let name ← run name
    let _ ← passKind .braceOpen
    let values ← run enumerationValues
    let _ ← passKind .braceClose
    let _ ← passKind .semicolon
    let sp ← spanFrom first
    pure (.enumeration ⟨sp, name, as, values⟩)
  | _, typedef first as => do
    let _ ← passWord "typedef"
    let t ← run type
    let name ← run name
    let _ ← passKind .semicolon
    let sp ← spanFrom first
    pure (.typedef ⟨sp, name, as, t⟩)
  | _, relation first => do
    let name ← run name
    ifWord "implements" (Program.relationTail .implements first name)
      (Program.relationTail .includes first name)
  | _, definitionBody first as =>
    ifWord "interface" (run (interfaceOrMixin false first as)) <|
    ifWord "partial" (run (partialDefinition first as)) <|
    ifWord "callback" (run (callback first as)) <|
    ifWord "dictionary" (run (dictionary false first as)) <|
    ifWord "namespace" (run (namespaceBody false first as)) <|
    ifWord "enum" (run (enumeration first as)) <|
    ifWord "typedef" (run (typedef first as)) <|
    peek (fun t u => t.kind = .identifier && (u.isWord "includes" || u.isWord "implements") && as.isEmpty)
      (run (relation first)) <|
    .fail fun t => .notADefinition (t.kind, t.text)
  | _, definition => do
    let first ← here
    let as ← run annotations
    run (definitionBody first as)
  | _, definitions =>
    ifAt .endOfInput (pure []) do
      let d ← run definition
      let ds ← run definitions
      pure (d :: ds)

/-- Every procedure reads what its program reads. -/
theorem reading_program {α : Type} (q : Procedure α) : q.program.reading = q.reader := by
  cases q with
  | name => exact of_readName.symm
  | skip m => exact (of_skip m.kind).symm
  | skipWord word => exact (of_skipWord word).symm
  | skipName => exact of_skipName.symm
  | literalText => exact of_literalText.symm
  | literal => exact of_literal.symm
  | defaultValue => exact of_defaultValue.symm
  | annotationValues =>
    refine Eq.trans ?_ of_annotationValues.symm
    exact congrArg (choose _ _) (bind_congr fun _ => bind_congr fun more => by cases more <;> rfl)
  | annotationValue assigned =>
    refine Eq.trans ?_ (of_annotationValue assigned).symm
    cases assigned <;> rfl
  | typeNameTail word => exact (of_typeNameTail word).symm
  | typeName => exact of_typeName.symm
  | annotations => exact of_annotations.symm
  | annotationParts =>
    refine Eq.trans ?_ of_annotationParts.symm
    exact congrArg (choose _ _) (bind_congr fun _ => bind_congr fun more => by cases more <;> rfl)
  | annotationPart => exact of_annotation_eq.symm
  | type => exact of_type.symm
  | alternatives =>
    refine Eq.trans ?_ of_alternatives.symm
    exact bind_congr fun _ => bind_congr fun more => by cases more <;> rfl
  | typeArguments =>
    refine Eq.trans ?_ of_typeArguments.symm
    exact bind_congr fun _ => bind_congr fun more => by cases more <;> rfl
  | parameters =>
    refine Eq.trans ?_ of_parameters.symm
    exact bind_congr fun _ => bind_congr fun empty => by cases empty <;> rfl
  | parameterList =>
    refine Eq.trans ?_ of_parameterList.symm
    exact bind_congr fun _ => bind_congr fun closed => by cases closed <;> rfl
  | parameter => exact of_parameter.symm
  | constant first as => exact (of_constant first as).symm
  | constructor first as => exact (of_constructor first as).symm
  | bareOperation first => exact (of_bareOperation first).symm
  | iteratedTypes =>
    refine Eq.trans ?_ of_iteratedTypes.symm
    exact bind_congr fun _ => bind_congr fun more => by cases more <;> rfl
  | iterationParameters isAsync => exact (of_iterationParameters isAsync).symm
  | iteration first as => exact (of_iteration first as).symm
  | collection first as =>
    refine Eq.trans ?_ (of_collection first as).symm
    exact bind_congr fun _ => bind_congr fun isSet => by cases isSet <;> rfl
  | specialWord => exact of_specialWord.symm
  | attributeOrOperation first as => exact (of_attributeOrOperation first as).symm
  | memberBody first as => exact (of_memberBody first as).symm
  | interfaceMember => exact of_interfaceMember.symm
  | dictionaryMember => exact of_dictionaryMember.symm
  | memberList ofDictionary =>
    refine Eq.trans ?_ (of_memberList (member ofDictionary)).symm
    cases ofDictionary <;> rfl
  | body ofDictionary => exact (of_body (member ofDictionary)).symm
  | inheritance => exact of_inheritance.symm
  | interfaceTail isPartial isCallback first as =>
    exact (of_interfaceTail isPartial isCallback first as).symm
  | interfaceOrMixin isPartial first as =>
    refine Eq.trans ?_ (of_interfaceOrMixin isPartial first as).symm
    exact bind_congr fun _ => bind_congr fun isMixin => by cases isMixin <;> rfl
  | dictionary isPartial first as => exact (of_dictionary isPartial first as).symm
  | namespaceBody isPartial first as => exact (of_namespaceBody isPartial first as).symm
  | partialDefinition first as => exact (of_partialDefinition first as).symm
  | callback first as =>
    refine Eq.trans ?_ (of_callback first as).symm
    exact bind_congr fun _ => bind_congr fun isInterface => by cases isInterface <;> rfl
  | enumerationValues =>
    refine Eq.trans ?_ of_enumerationValues.symm
    exact congrArg (choose _ _) (bind_congr fun _ => bind_congr fun more => by cases more <;> rfl)
  | enumeration first as => exact (of_enumeration first as).symm
  | typedef first as => exact (of_typedef first as).symm
  | relation first => exact (of_relation first).symm
  | definitionBody first as => exact (of_definitionBody first as).symm
  | definition => exact of_definition.symm
  | definitions => exact of_definitions.symm

end Procedure

end IdlTypings.Parser
