import IdlTypings.Proofs.Conversion.Layout
import IdlTypings.Proofs.Dialect.Brackets
import IdlTypings.Proofs.Lowering.Accounting
import IdlTypings.Proofs.Parser.Single
import IdlTypings.Proofs.Parser.TypeNames

/-!
# Attributes of array types

In Emscripten the whole of `T` in `T[]` becomes the element type of an attribute if it is an
identifier, or `unsigned` and one word. Of other names only the last word is taken, and what comes
out is refused (`convert_arrayAttribute`).
-/

namespace IdlTypings

/-! ## Identifiers of ASCII -/

namespace Text

def isAsciiIdentifier : Text → Bool
  | [] => false
  | c :: t => !Token.isDigit c && (c :: t).all Dialect.isAsciiWord

/-- The name that an identifier stands for: without an underscore at its start. -/
def unescaped : Text → Text
  | .char '_' :: t => t
  | t => t

theorem unescaped_of_startsWith {w : Text} (h : startsWith "_" w = false) : w.unescaped = w := by
  unfold unescaped
  split
  · contradiction
  · rfl

theorem toNat_lt_of_isAsciiWord {c : Char} (h : Dialect.isAsciiWord (.char c) = true) :
    c.toNat < 128 := by
  unfold Dialect.isAsciiWord Cell.holds Char.isAlphanum Char.isAlpha Char.isUpper Char.isLower
    Char.isDigit at h
  simp only [Bool.or_eq_true, Bool.and_eq_true, decide_eq_true_eq, beq_iff_eq,
    UInt32.le_iff_toNat_le] at h
  rcases h with ((h | h) | h) | rfl
  · exact Nat.lt_of_le_of_lt h.2 (by decide)
  · exact Nat.lt_of_le_of_lt h.2 (by decide)
  · exact Nat.lt_of_le_of_lt h.2 (by decide)
  · decide

/-- A cell of a word of ASCII is one for the lexer and for the dialect. -/
theorem isWordCell_of_isAsciiWord {c : Cell} (h : Dialect.isAsciiWord c = true) :
    Token.isWordCell c = true ∧ Dialect.isWord c = true := by
  have hascii : ∀ n < 128, Dialect.isAsciiWord (.char (Char.ofNat n)) = true →
      Token.isWordCell (.char (Char.ofNat n)) = true ∧ Dialect.isWord (.char (Char.ofNat n)) = true := by
    decide
  cases c with
  | stray b => contradiction
  | char c =>
    have hc := hascii c.toNat (toNat_lt_of_isAsciiWord h)
    rw [Char.ofNat_toNat] at hc
    exact hc h

variable {w : Text} (h : w.isAsciiIdentifier = true)

include h

theorem isIdentifier_of_isAsciiIdentifier : Token.isIdentifier w = true := by
  cases w with
  | nil => contradiction
  | cons c w =>
    rw [isAsciiIdentifier, Bool.and_eq_true, Bool.not_eq_true', List.all_eq_true] at h
    exact Token.isIdentifier_cons.2 ⟨h.1, fun d hd => (isWordCell_of_isAsciiWord (h.2 d hd)).1⟩

theorem isRun_of_isAsciiIdentifier : Dialect.IsRun Dialect.isWord w := by
  cases w with
  | nil => contradiction
  | cons c w =>
    rw [isAsciiIdentifier, Bool.and_eq_true, List.all_eq_true] at h
    exact ⟨List.cons_ne_nil c w, fun d hd => (isWordCell_of_isAsciiWord (h.2 d hd)).2⟩

end Text

theorem Token.name_ofWord (w : Text) : (Token.ofWord (.identifier, w)).name = w.unescaped := by
  unfold Token.name Text.unescaped Token.ofWord
  rfl

/-! ## The words of an interface with one attribute -/

def attributeText (I type n : Text) : Text :=
  Text.concat ["interface ", I, " \x7b attribute ", type, " ", n, "; \x7d;"]

def frozenArray (T : Text) : Text := Text.concat ["FrozenArray<", T, ">"]

theorem frozenArray_eq (T : Text) :
    frozenArray T = "FrozenArray" ++ Cell.char '<' :: (T ++ [Cell.char '>']) := by
  have hname : "FrozenArray<" = "FrozenArray" ++ [Cell.char '<'] := by decide
  have hclose : ">" = [Cell.char '>'] := by decide
  simp only [frozenArray, Text.concat, List.flatten_cons, List.flatten_nil, hname, hclose,
    List.append_assoc, List.cons_append, List.nil_append, List.append_nil]

theorem attributeText_eq (I type n : Text) :
    attributeText I type n = "interface" ++ Cell.char ' ' :: (I ++ Cell.char ' ' ::
      .char '{' :: .char ' ' :: ("attribute" ++ Cell.char ' ' :: (type ++ Cell.char ' ' ::
        (n ++ Cell.char ';' :: .char ' ' :: .char '}' :: [.char ';'])))) := by
  have hfirst : "interface " = "interface" ++ [Cell.char ' '] := by decide
  have hsecond : " \x7b attribute " =
      Cell.char ' ' :: .char '{' :: .char ' ' :: ("attribute" ++ [Cell.char ' ']) := by
    decide +kernel
  have hspace : " " = [Cell.char ' '] := by decide
  have hend : "; \x7d;" = [Cell.char ';', .char ' ', .char '}', .char ';'] := by decide
  simp only [attributeText, Text.concat, List.flatten_cons, List.flatten_nil, hfirst, hsecond, hspace,
    hend, List.append_assoc, List.cons_append, List.nil_append, List.append_nil]

/-- An attribute and the end of its interface behind the type. -/
theorem spells_attributeText {I n : Text} (hI : Token.isIdentifier I = true)
    (hn : Token.isIdentifier n = true) {type : Text} {ws : List (Token.Kind × Text)}
    (htype : Spells type ws) :
    Spells (attributeText I type n)
      (Parser.interfaceLexemes I (Parser.attributeLexemes ws n)) := by
  have hword {w : Text} (hw : Token.isIdentifier w = true) : Spells w [(.identifier, w)] :=
    (Token.reads_identifier_iff.2 hw).spells rfl
  have hopen : Spells [.char '{'] [(.braceOpen, "\x7b")] := .mark rfl rfl spells_nil
  have hsemicolon : Spells [.char ';'] [(.semicolon, ";")] := .mark rfl rfl spells_nil
  have hclose : Spells [.char '}', .char ';'] [(.braceClose, "\x7d"), (.semicolon, ";")] :=
    .mark rfl rfl hsemicolon
  have hname : Spells (n ++ [Cell.char ';']) [(.identifier, n), (.semicolon, ";")] :=
    hsemicolon.identifier hn (by decide)
  have hinterface := hword (w := "interface") (by decide)
  have hattribute := hword (w := "attribute") (by decide)
  have hall := hinterface.append <| (hword hI).append <| hopen.append <| hattribute.append <|
    htype.append <| hname.append hclose
  simp only [List.append_assoc, List.cons_append, List.nil_append] at hall
  simp only [attributeText_eq, Parser.interfaceLexemes, Parser.bodyLexemes, Parser.attributeLexemes,
    List.append_assoc, List.cons_append, List.nil_append]
  exact hall

/-! ## Names of element types -/

namespace Parser

open Cursor Reading

/-- The words of the name of a type, from which the name is read. -/
structure SpellsName (T name : Text) (ws : List (Token.Kind × Text)) : Prop where
  before : ∀ {v : Text} {vs : List (Token.Kind × Text)}, (∀ c ∈ v.head?, Token.isWordCell c = false) →
    Spells v vs → Spells (T ++ v) (ws ++ vs)
  starts : Starts (·.kind = .identifier) (ws.map Token.ofWord)
  rereads : Rereads (of typeName) (· = name) (ws.map Token.ofWord)
    fun t => ∀ w ∈ continuationWords, t.isWord w = false

theorem SpellsName.spells {T name : Text} {ws : List (Token.Kind × Text)} (h : SpellsName T name ws) :
    Spells T ws := by
  have hend := h.before (v := []) nofun spells_nil
  rwa [List.append_nil, List.append_nil] at hend

theorem spellsName_word {w : Text} (hw : Token.isIdentifier w = true) :
    SpellsName w w.unescaped [(.identifier, w)] where
  before hv h := h.identifier hw hv
  starts := .cons rfl
  rereads := by
    rw [← Token.name_ofWord]
    exact rereads_typeName_word rfl

theorem spellsName_phrase (word next : String) (hnext : next ∈ continuations word)
    (hword : Token.isIdentifier word = true) (hidentifier : Token.isIdentifier next = true) :
    SpellsName (Text.ofString word ++ .char ' ' :: Text.ofString next)
      (Text.ofString word ++ .char ' ' :: Text.ofString next)
      [(.identifier, word), (.identifier, next)] := by
  have hfirst : Spells word [(.identifier, word)] := (Token.reads_identifier_iff.2 hword).spells rfl
  have hsecond : Spells next [(.identifier, next)] :=
    (Token.reads_identifier_iff.2 hidentifier).spells rfl
  obtain ⟨hname, hspace⟩ := Text.isTypeName_more hnext (.done _)
  rw [List.append_nil] at hname hspace
  refine ⟨fun {v vs} hv h => ?_, .cons rfl, ?_⟩
  · rw [List.append_assoc]
    exact hfirst.append (h.identifier hidentifier hv)
  · have hpiece : Piece.typeName (Text.ofString word ++ .char ' ' :: Text.ofString next) =
        .verbatim (Text.ofString word ++ .char ' ' :: Text.ofString next) :=
      if_pos (List.any_eq_true.2 ⟨_, hspace, rfl⟩)
    have hread := (rereads_typeName hname).2
    rw [hpiece, Piece.tokens_verbatim (hfirst.append hsecond), Piece.tokens_nil, List.append_nil] at hread
    exact hread

theorem exists_spellsName {P : String} (hP : P ∈ ["long", "unsigned long", "unrestricted"]) :
    ∃ name ws, SpellsName P name ws := by
  simp only [List.mem_cons, List.not_mem_nil, or_false] at hP
  rcases hP with rfl | rfl | rfl
  · exact ⟨_, _, spellsName_word (by decide)⟩
  · exact ⟨_, _, spellsName_phrase "unsigned" "long" (by decide) rfl rfl⟩
  · exact ⟨_, _, spellsName_word (by decide)⟩

/-! ## Reading what the dialect gives -/

theorem SpellsName.spells_frozenArray {T name : Text} {ws : List (Token.Kind × Text)}
    (h : SpellsName T name ws) : Spells (frozenArray T) (genericLexemes "FrozenArray" ws) := by
  have hclose : Spells [.char '>'] [(.angleClose, ">")] := .mark rfl rfl spells_nil
  have harguments : Spells (.char '<' :: (T ++ [Cell.char '>']))
      ((.angleOpen, "<") :: (ws ++ [(Token.Kind.angleClose, Text.ofString ">")])) :=
    .mark rfl rfl (h.before (by decide) hclose)
  rw [frozenArray_eq]
  exact harguments.identifier (by decide) (by rintro _ ⟨⟩; rfl)

def arrayInterface (I n element : Text) : Definition :=
  .interface ⟨⟨0, 0, 0, 0⟩, I, [], false, false, [],
    [.attr ⟨⟨0, 0, 0, 0⟩, n,
      .generic ⟨0, 0, 0, 0⟩ "FrozenArray" [.named ⟨0, 0, 0, 0⟩ element false []] false [],
      false, false, false, false, []⟩]⟩

section

variable {I n : Text} (hI : Token.isIdentifier I = true) (hn : Token.isIdentifier n = true)
  (hmixin : I ≠ "mixin") {T name : Text} {ws : List (Token.Kind × Text)} (hT : SpellsName T name ws)

include hI hn hmixin hT

theorem parse_frozenArray :
    ∃ d, Document.parse (attributeText I (frozenArray T) n) = .ok d ∧
      d.definitions.map (Definition.respan Span.erase) =
        [arrayInterface I.unescaped n.unescaped name] := by
  have htype := rereads_generic_lexemes "FrozenArray" (rereads_type_of_name hT.starts hT.rereads)
  have hends : (Token.ofWord (.identifier, n)).kind ≠ .question := nofun
  have hmember := rereads_attribute_lexemes htype hends
  refine (spells_attributeText hI hn hT.spells_frozenArray).parse_of_rereads ?_
  rw [← Token.name_ofWord I, ← Token.name_ofWord n]
  exact rereads_singleDocument ⟨_, _, rfl, rfl⟩ (hmember.mono (fun _ h => h) fun _ _ => trivial) hmixin

theorem parse_frozenArray_behind {L : Text} (hL : Token.isIdentifier L = true) :
    ∃ e, Document.parse (attributeText I (T ++ .char ' ' :: frozenArray L) n) = .error e ∧
      e.cause = .expected (.kind .semicolon) (.angleOpen, "<") := by
  have hspells := hT.spells.append (spellsName_word hL).spells_frozenArray
  refine (spells_attributeText hI hn hspells).parse_of_rejects ?_
  -- The words before `FrozenArray` are the type of an attribute of this name.
  have hends : EndsType (.ofWord (.identifier, "FrozenArray")) := ⟨nofun, nofun, by decide⟩
  have hmember := rereads_attribute_lexemes (rereads_type_of_name hT.starts hT.rereads) hends
  have hlexemes : attributeLexemes (ws ++ genericLexemes "FrozenArray" [(.identifier, L)]) n =
      attributeLexemes ws "FrozenArray" ++ (Token.Kind.angleOpen, Text.ofString "<") ::
        [(.identifier, L), (.angleClose, Text.ofString ">"), (.identifier, n)] := by
    simp [attributeLexemes, genericLexemes]
  rw [hlexemes]
  exact rejects_singleDocument ⟨_, _, rfl, rfl⟩ hmember trivial (by decide) hmixin _

end

end Parser

/-! ## Spelling out the brackets -/

namespace Dialect

/-- What stands before the last word of the type of an attribute ends with no word, has none of the cells
that the dialect looks for, and ends with the lead of none of the rules. -/
def Unled (rs : List ArrayRule) (z : Text) : Prop :=
  (∀ r ∈ rs, ¬ r.lead <:+ (.char '{' :: .char ' ' :: z).map Cell.folded ∧
    ¬ (.char '{' :: .char ' ' :: z).map Cell.folded <:+ r.lead) ∧
  (∀ c ∈ (.char '{' :: .char ' ' :: z).getLast?, isWord c = false) ∧ ∀ c ∈ z, c ∉ cuts

instance (rs : List ArrayRule) (z : Text) : Decidable (Unled rs z) :=
  inferInstanceAs (Decidable (_ ∧ _ ∧ _))

section

variable {I n : Text} (hI : IsRun isWord I) (hn : IsRun isWord n)

include hI hn

/-- The brackets of an attribute become angles by the first rule whose lead stands before the last word
of its type. -/
theorem normalize_attribute {rs : List ArrayRule} {r : ArrayRule} {rs' : List ArrayRule}
    (hrules : arrayRules = rs ++ r :: rs') {T T' y l w : Text}
    (hT : "attribute" ++ Cell.char ' ' :: T = y ++ (l ++ w))
    (hT' : "attribute" ++ Cell.char ' ' :: T' = y ++ (r.before ++ (w ++ [Cell.char '>'])))
    (hl : l.map Cell.folded = r.lead) (h : Unled rs (y ++ l)) (hw : IsRun isWord w) :
    normalize (attributeText I (T ++ "[]") n) = attributeText I T' n := by
  obtain ⟨hrs, hlast, hcells⟩ := h
  let a : Text := "interface" ++ Cell.char ' ' :: (I ++ [Cell.char ' '])
  let z : Text := Cell.char '{' :: .char ' ' :: y
  let b : Text := Cell.char ' ' :: (n ++ Cell.char ';' :: .char ' ' :: .char '}' :: [Cell.char ';'])
  have hattribute (t : Text) : attributeText I t n =
      a ++ Cell.char '{' :: .char ' ' :: ("attribute" ++ Cell.char ' ' :: t ++ b) := by
    simp only [attributeText_eq, a, b, List.append_assoc, List.cons_append, List.nil_append]
  have hsource : attributeText I (T ++ "[]") n =
      a ++ z ++ l ++ w ++ Cell.char '[' :: .char ']' :: b := by
    have hbrackets : "[]" = [Cell.char '[', .char ']'] := by decide
    have hcells :=
      congrArg (fun t => a ++ Cell.char '{' :: .char ' ' :: (t ++ Cell.char '[' :: .char ']' :: b)) hT
    rw [hattribute, hbrackets]
    simpa only [z, List.append_assoc, List.cons_append, List.nil_append] using hcells
  have hresult : attributeText I T' n = a ++ z ++ (r.before ++ w ++ Cell.char '>' :: b) := by
    rw [hattribute, hT']
    simp only [z, List.append_assoc, List.cons_append, List.nil_append]
  have hbefore : ∀ c ∈ a ++ z ++ l, c ∉ cuts := by
    rw [List.forall_mem_append] at hcells
    simp only [a, z, List.forall_mem_append, List.forall_mem_cons]
    exact ⟨⟨⟨by decide, by decide, not_mem_cuts_of_isWord hI.2, by decide⟩, by decide, by decide,
      hcells.1⟩, hcells.2⟩
  have hkept : inheritance (a ++ z ++ l ++ w ++ Cell.char '[' :: .char ']' :: b) =
      a ++ z ++ l ++ w ++ Cell.char '[' :: .char ']' :: b :=
    inheritance_brackets (List.forall_mem_append.2 ⟨hbefore, not_mem_cuts_of_isWord hw.2⟩) hn.2
  have hleads : ∀ r ∈ rs, ¬ r.lead <:+ (a ++ z ++ l).map Cell.folded := by
    intro r hr hsuffix
    rw [List.append_assoc, List.map_append] at hsuffix
    rcases List.suffix_or_suffix_of_suffix hsuffix (List.suffix_append _ _) with h | h
    · exact (hrs r hr).1 h
    · exact (hrs r hr).2 h
  have hlast' : ∀ c ∈ (a ++ z ++ l).getLast?, isWord c = false := by
    have hne : z ++ l ≠ [] := List.cons_ne_nil _ _
    rw [List.append_assoc, List.getLast?_append_of_ne_nil _ hne]
    exact hlast
  have hb : Cell.char '[' ∉ b := by
    simp only [b, List.mem_cons, List.mem_append, not_or]
    exact ⟨by decide, fun hmem => not_mem_cuts_of_isWord hn.2 _ hmem (by decide), by decide⟩
  rw [hsource, hresult, normalize, hkept]
  exact arraySugar_brackets hrules hl hleads hw hlast' (fun hmem => hbefore _ hmem (by decide)) hb

theorem normalize_word {w : Text} (hw : IsRun isWord w) :
    normalize (attributeText I (w ++ "[]") n) = attributeText I (frozenArray w) n := by
  have hrules : arrayRules = arrayRules.take 1 ++
      ⟨"attribute ", "attribute FrozenArray<"⟩ :: arrayRules.drop 2 := rfl
  have hbefore : "attribute FrozenArray<" = "attribute" ++ Cell.char ' ' ::
      ("FrozenArray" ++ [Cell.char '<']) := by decide +kernel
  refine normalize_attribute hI hn hrules (y := []) (l := "attribute" ++ [Cell.char ' '])
    ?_ ?_ (by decide +kernel) (by decide +kernel) hw
  · simp only [List.append_assoc, List.cons_append, List.nil_append]
  · simp only [frozenArray_eq, hbefore, List.append_assoc, List.cons_append, List.nil_append]

theorem normalize_unsigned {w : Text} (hw : IsRun isWord w) :
    normalize (attributeText I ("unsigned" ++ Cell.char ' ' :: w ++ "[]") n) =
      attributeText I (frozenArray ("unsigned" ++ Cell.char ' ' :: w)) n := by
  have hrules : arrayRules = [] ++
      ⟨"attribute unsigned ", "attribute FrozenArray<unsigned "⟩ :: arrayRules.drop 1 := rfl
  have hbefore : "attribute FrozenArray<unsigned " = "attribute" ++
      Cell.char ' ' :: ("FrozenArray" ++ Cell.char '<' ::
        ("unsigned" ++ [Cell.char ' '])) := by decide +kernel
  refine normalize_attribute hI hn hrules (y := [])
    (l := "attribute" ++ Cell.char ' ' :: ("unsigned" ++ [Cell.char ' ']))
    ?_ ?_ (by decide +kernel) (by decide +kernel) hw
  · simp only [List.append_assoc, List.cons_append, List.nil_append]
  · simp only [frozenArray_eq, hbefore, List.append_assoc, List.cons_append, List.nil_append]

theorem normalize_split {P : String} (hP : P ∈ ["long", "unsigned long", "unrestricted"]) {w : Text}
    (hw : IsRun isWord w) :
    normalize (attributeText I (Text.ofString P ++ Cell.char ' ' :: w ++ "[]") n) =
      attributeText I (Text.ofString P ++ Cell.char ' ' :: frozenArray w) n := by
  have hrules : arrayRules = arrayRules.take 3 ++ ⟨"", "FrozenArray<"⟩ :: [] := rfl
  have hbefore : "FrozenArray<" = "FrozenArray" ++ [Cell.char '<'] := by decide
  have hunled : ∀ P ∈ ["long", "unsigned long", "unrestricted"], Unled (arrayRules.take 3)
      (Text.ofString "attribute" ++ Cell.char ' ' :: (Text.ofString P ++ [Cell.char ' ']) ++ []) := by
    decide +kernel
  refine normalize_attribute hI hn hrules ?_ ?_ rfl (hunled P hP) hw
  · simp only [List.append_assoc, List.cons_append, List.nil_append]
  · simp only [frozenArray_eq, hbefore, List.append_assoc, List.cons_append, List.nil_append]

end

end Dialect

/-! ## Lowering -/

namespace Lowering

/-- The class that has an attribute of an array type, with the methods that read and write an
element. -/
def arrayClass (I n : Text) (element : TypeExpr) : List Statement :=
  [.classDecl I []
    [.method ("get_" ++ n) false false [] [.required "index" .number] element true,
      .method ("set_" ++ n) false false [] [.required "index" .number, .required n element] .void true,
      .property n false false element true]]

theorem lower_arrayInterface {o : Options} (ho : o.emscripten = true) (I n element : Text) :
    lower o [Parser.arrayInterface I n element] = (arrayClass I n (lowerName element false), []) := by
  cases o
  cases ho
  rfl

theorem lower_of_arrayInterface {o : Options} (ho : o.emscripten = true) {t I n element : Text}
    {d : Document} (hparse : Document.parse t = .ok d)
    (hd : d.definitions.map (Definition.respan Span.erase) = [Parser.arrayInterface I n element]) :
    lower o d.definitions = (arrayClass I n (lowerName element false), []) := by
  let χ : Int × Int → Unit := fun _ => ()
  have hχ (span : Span) : χ (span.erase.line, span.erase.column) = χ (span.line, span.column) := rfl
  have hseen := lower_respan o hχ (gapless_of_parse hparse)
  rw [hd, lower_arrayInterface ho] at hseen
  obtain ⟨hstatements, hdiagnostics⟩ := Prod.mk.inj hseen
  exact Prod.ext hstatements.symm (List.map_eq_nil_iff.1 hdiagnostics.symm)

end Lowering

/-! ## Conversion -/

open Lowering

section

variable {o : Options} (ho : o.emscripten = true) {I n : Text} (hI : I.isAsciiIdentifier = true)
  (hn : n.isAsciiIdentifier = true) (hmixin : I ≠ "mixin")

include ho hI hn hmixin

/-- An attribute whose type is taken into the angles as a whole. -/
theorem convert_of_normalize {t T name : Text} {ws : List (Token.Kind × Text)}
    (hT : Parser.SpellsName T name ws)
    (ht : Dialect.normalize t = attributeText I (frozenArray T) n) :
    ∃ d, parseFor o t = .ok d ∧
      lower o d.definitions = (arrayClass I.unescaped n.unescaped (lowerName name false), []) ∧
      convert o t = .ok ⟨Statement.printAll 0 (moduleShell o.withModule.module
        (arrayClass I.unescaped n.unescaped (lowerName name false)) o.defaultExport), []⟩ := by
  obtain ⟨d, hparse, hd⟩ := Parser.parse_frozenArray (Text.isIdentifier_of_isAsciiIdentifier hI)
    (Text.isIdentifier_of_isAsciiIdentifier hn) hmixin hT
  have hread : parseFor o t = .ok d := by rw [parseFor, if_pos ho, ht, hparse]
  refine ⟨d, hread, lower_of_arrayInterface ho hparse hd, ?_⟩
  rw [convert_of_parseFor hread, if_pos ho,
    lower_of_arrayInterface ((emscripten_withModule o).trans ho) hparse hd]

/-- An attribute of whose type the last word only is taken into the angles. -/
theorem convert_of_normalize_split {t T name L : Text} {ws : List (Token.Kind × Text)}
    (hT : Parser.SpellsName T name ws) (hL : Token.isIdentifier L = true)
    (ht : Dialect.normalize t = attributeText I (T ++ .char ' ' :: frozenArray L) n) :
    ∃ e, convert o t = .error e ∧ e.cause = .expected (.kind .semicolon) (.angleOpen, "<") := by
  obtain ⟨e, hparse, hcause⟩ := Parser.parse_frozenArray_behind
    (Text.isIdentifier_of_isAsciiIdentifier hI) (Text.isIdentifier_of_isAsciiIdentifier hn) hmixin hT hL
  refine ⟨e, ?_, hcause⟩
  simp only [convert, parseFor, emscripten_withModule, ho, if_true, ht, hparse]
  rfl

end

/-- An attribute of the type `T[]` is read and written element by element if `T` is an identifier or
`unsigned` and one word. For the other names of numbers the text that the dialect gives is refused. -/
theorem convert_arrayAttribute (o : Options) (ho : o.emscripten = true) (I n : Text)
    (hI : I.isAsciiIdentifier = true ∧ Text.startsWith "_" I = false)
    (hn : n.isAsciiIdentifier = true ∧ Text.startsWith "_" n = false) (hmixin : I ≠ "mixin") :
    (∀ T : Text, T.isAsciiIdentifier = true ∨ T = "unsigned short" ∨ T = "unsigned long" →
      let source := attributeText I (T ++ Text.ofString "[]") n
      let declared := arrayClass I n (lowerName T.unescaped false)
      Dialect.normalize source = attributeText I (frozenArray T) n ∧
      ∃ d, parseFor o source = .ok d ∧ lower o d.definitions = (declared, []) ∧
        convert o source = .ok ⟨Statement.printAll 0
          (moduleShell o.withModule.module declared o.defaultExport), []⟩) ∧
    ∀ P L : String, (P, L) ∈ [("long", "long"), ("unsigned long", "long"), ("unrestricted", "float"),
        ("unrestricted", "double")] →
      let source := attributeText I (Text.ofString P ++ .char ' ' :: Text.ofString L ++ Text.ofString "[]") n
      Dialect.normalize source = attributeText I (Text.ofString P ++ .char ' ' :: frozenArray L) n ∧
      ∃ e, convert o source = .error e ∧ e.cause = .expected (.kind .semicolon) (.angleOpen, "<") := by
  have hI' := Text.isRun_of_isAsciiIdentifier hI.1
  have hn' := Text.isRun_of_isAsciiIdentifier hn.1
  have hword (w : String) (hw : Text.isAsciiIdentifier w = true) : Dialect.IsRun Dialect.isWord w :=
    Text.isRun_of_isAsciiIdentifier hw
  constructor
  · intro T hT source declared
    have hname : ∃ ws, Parser.SpellsName T T.unescaped ws := by
      rcases hT with hT | rfl | rfl
      · exact ⟨_, Parser.spellsName_word (Text.isIdentifier_of_isAsciiIdentifier hT)⟩
      · exact ⟨_, Parser.spellsName_phrase "unsigned" "short" (by decide) rfl rfl⟩
      · exact ⟨_, Parser.spellsName_phrase "unsigned" "long" (by decide) rfl rfl⟩
    have hnormal : Dialect.normalize source =
        attributeText I (frozenArray T) n := by
      rcases hT with hT | rfl | rfl
      · exact Dialect.normalize_word hI' hn' (Text.isRun_of_isAsciiIdentifier hT)
      · exact Dialect.normalize_unsigned hI' hn' (hword "short" (by decide))
      · exact Dialect.normalize_unsigned hI' hn' (hword "long" (by decide))
    obtain ⟨ws, hname⟩ := hname
    have hconverted := convert_of_normalize ho hI.1 hn.1 hmixin hname hnormal
    rw [Text.unescaped_of_startsWith hI.2, Text.unescaped_of_startsWith hn.2] at hconverted
    exact ⟨hnormal, hconverted⟩
  · intro P L hPL source
    have hpairs : ∀ x ∈ [("long", "long"), ("unsigned long", "long"), ("unrestricted", "float"),
        ("unrestricted", "double")], x.1 ∈ ["long", "unsigned long", "unrestricted"] ∧
          Text.isAsciiIdentifier x.2 = true := by decide
    obtain ⟨hP, hL⟩ := hpairs (P, L) hPL
    have hnormal := Dialect.normalize_split hI' hn' hP (hword L hL)
    obtain ⟨name, ws, hname⟩ := Parser.exists_spellsName hP
    exact ⟨hnormal, convert_of_normalize_split ho hI.1 hn.1 hmixin hname
      (Text.isIdentifier_of_isAsciiIdentifier hL) hnormal⟩

/-- Elements of a type with an escaped name, of one with two words, and of one with three. -/
theorem convert_arrayAttribute_unsigned :
    let o : Options := { (default : Options) with emscripten := true }
    (∃ d, parseFor o "interface Foo \x7b attribute _unsigned[] values; \x7d;" = .ok d ∧
      lower o d.definitions = (arrayClass "Foo" "values" (lowerName "unsigned" false), [])) ∧
    (∃ d, parseFor o "interface Foo \x7b attribute unsigned long[] values; \x7d;" = .ok d ∧
      lower o d.definitions = (arrayClass "Foo" "values" (lowerName "unsigned long" false), [])) ∧
    ∃ e, convert o "interface Foo \x7b attribute unsigned long long[] values; \x7d;" = .error e ∧
      e.cause = .expected (.kind .semicolon) (.angleOpen, "<") := by
  intro o
  obtain ⟨harray, hsplit⟩ := convert_arrayAttribute o rfl "Foo" "values" (by decide) (by decide) (by decide)
  refine ⟨?_, ?_, ?_⟩
  · obtain ⟨-, d, hparse, hlower, -⟩ := harray "_unsigned" (.inl (by decide))
    have hsource : attributeText "Foo" (Text.ofString "_unsigned" ++ Text.ofString "[]") "values" =
        Text.ofString "interface Foo \x7b attribute _unsigned[] values; \x7d;" := by decide +kernel
    have helement : Text.unescaped "_unsigned" = "unsigned" := by decide
    rw [hsource] at hparse
    rw [helement] at hlower
    exact ⟨d, hparse, hlower⟩
  · obtain ⟨-, d, hparse, hlower, -⟩ := harray "unsigned long" (.inr (.inr rfl))
    have hsource : attributeText "Foo" (Text.ofString "unsigned long" ++ Text.ofString "[]") "values" =
        Text.ofString "interface Foo \x7b attribute unsigned long[] values; \x7d;" := by decide +kernel
    have helement : Text.unescaped "unsigned long" = "unsigned long" := by decide
    rw [hsource] at hparse
    rw [helement] at hlower
    exact ⟨d, hparse, hlower⟩
  · have hsource : attributeText "Foo"
        (Text.ofString "unsigned long" ++ .char ' ' :: Text.ofString "long" ++ Text.ofString "[]") "values" =
        Text.ofString "interface Foo \x7b attribute unsigned long long[] values; \x7d;" := by
      decide +kernel
    exact hsource ▸ (hsplit "unsigned long" "long" (by decide)).2

/-- Of `long long` only the last word becomes the element type, and the attribute is refused. -/
theorem convert_array_of_longLong :
    let o : Options := { (default : Options) with emscripten := true }
    let source : Text := "interface I \x7b attribute long long[] n; \x7d;"
    Dialect.normalize source = "interface I \x7b attribute long FrozenArray<long> n; \x7d;" ∧
      Dialect.normalize source ≠ "interface I \x7b attribute FrozenArray<long long> n; \x7d;" ∧
      ∃ e, convert o source = .error e := by
  intro o source
  have hname {w : Text} (hw : w.isAsciiIdentifier = true) := Text.isRun_of_isAsciiIdentifier hw
  have hsource : attributeText "I"
      (Text.ofString "long" ++ .char ' ' :: Text.ofString "long" ++ Text.ofString "[]") "n" = source := by
    decide +kernel
  have hresult : attributeText "I" (Text.ofString "long" ++ .char ' ' :: frozenArray "long") "n" =
      Text.ofString "interface I \x7b attribute long FrozenArray<long> n; \x7d;" := by decide +kernel
  have hnormal := Dialect.normalize_split (I := "I") (n := "n") (hname (by decide)) (hname (by decide))
    (P := "long") (by decide) (w := "long") (hname (by decide))
  obtain ⟨e, hconvert, -⟩ := convert_of_normalize_split (o := o) rfl (by decide) (by decide) (by decide)
    (Parser.spellsName_word (by decide)) (by decide) hnormal
  rw [hsource] at hnormal hconvert
  rw [hresult] at hnormal
  refine ⟨hnormal, ?_, e, hconvert⟩
  rw [hnormal]
  exact fun h => absurd (congrArg (fun t : Text => t[24]?) h) (by decide +kernel)

end IdlTypings
