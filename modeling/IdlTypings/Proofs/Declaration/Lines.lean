import IdlTypings.Declaration.Printer
import IdlTypings.Proofs.Text.Pieces

/-!
# Lines of declarations

Where no name of a declaration has a newline, no line has one (`Statement.unbroken_lines`), and what
stands in a module is the same text further to the right (`Statement.printAll_moduleDecl`).
-/

namespace IdlTypings

namespace Text

def Unbroken (t : Text) : Prop := .char '\n' ∉ t

instance (t : Text) : Decidable t.Unbroken := inferInstanceAs (Decidable (_ ∉ _))

theorem unbroken_append {t u : Text} : Unbroken (t ++ u) ↔ t.Unbroken ∧ u.Unbroken := by
  rw [Unbroken, List.mem_append, not_or]
  rfl

theorem unbroken_nil : Unbroken [] := List.not_mem_nil

theorem unbroken_concat_cons {t : Text} {ts : List Text} :
    (concat (t :: ts)).Unbroken ↔ t.Unbroken ∧ (concat ts).Unbroken := unbroken_append

theorem unbroken_concat {ts : List Text} (h : ∀ t ∈ ts, t.Unbroken) : (concat ts).Unbroken := by
  induction ts with
  | nil => exact unbroken_nil
  | cons t ts ih =>
    rw [List.forall_mem_cons] at h
    exact unbroken_concat_cons.2 ⟨h.1, ih h.2⟩

theorem unbroken_join {sep : Text} (hsep : sep.Unbroken) {ts : List Text}
    (h : ∀ t ∈ ts, t.Unbroken) : (join sep ts).Unbroken := by
  induction ts with
  | nil => exact List.not_mem_nil
  | cons t ts ih =>
    rw [List.forall_mem_cons] at h
    cases ts with
    | nil => rw [join_singleton]; exact h.1
    | cons u ts =>
      rw [join_cons_cons, unbroken_append, unbroken_append]
      exact ⟨h.1, hsep, ih h.2⟩

theorem digitChar_ne_newline {d : Nat} (h : d < 16) : d.digitChar ≠ '\n' := by
  revert d
  decide

theorem newline_not_mem_toDigits (n : Nat) : '\n' ∉ Nat.toDigits 16 n := by
  induction n using Nat.strongRecOn with
  | ind n ih =>
    by_cases hn : n < 16
    · rw [Nat.toDigits_of_lt_base hn, List.mem_singleton]
      exact (digitChar_ne_newline hn).symm
    · rw [Nat.toDigits_of_base_le (by decide) (by omega), List.mem_append, not_or, List.mem_singleton]
      exact ⟨ih (n / 16) (by omega), (digitChar_ne_newline (Nat.mod_lt n (by decide))).symm⟩

theorem unbroken_hex (w n : Nat) : (hex false w n).Unbroken := by
  intro h
  obtain ⟨c, hc, hcell⟩ := List.mem_map.1 h
  obtain rfl := Cell.char.inj hcell
  rcases List.mem_append.1 hc with hc | hc
  · exact absurd (List.eq_of_mem_replicate hc) (by decide)
  · exact newline_not_mem_toDigits n hc

theorem unbroken_escaped (c : Cell) : c.escaped.Unbroken := by
  unfold Cell.escaped
  split
  · exact unbroken_append.2 ⟨by decide, unbroken_hex 2 _⟩
  · next c =>
    split
    iterate 9 decide
    next hnewline _ _ _ =>
    split
    · intro h
      exact hnewline (Cell.char.inj (List.mem_singleton.1 h)).symm
    split
    · exact unbroken_append.2 ⟨by decide, unbroken_hex 2 _⟩
    split
    · exact unbroken_append.2 ⟨by decide, unbroken_hex 4 _⟩
    · exact unbroken_append.2 ⟨by decide, unbroken_hex 8 _⟩

theorem unbroken_quoted (t : Text) : t.quoted.Unbroken := by
  intro h
  rcases List.mem_append.1 h with h | h
  · rcases List.mem_cons.1 h with h | h
    · exact absurd h (by decide)
    · obtain ⟨c, -, hc⟩ := List.mem_flatMap.1 h
      exact unbroken_escaped c hc
  · exact absurd (List.mem_singleton.1 h) (by decide)

/-- The lines of a text; an empty text has none. -/
def lines (t : Text) : List Text := if t = [] then [] else t.split '\n'

theorem lines_join {ls : List Text} (hne : ∀ l ∈ ls, l ≠ []) (h : ∀ l ∈ ls, l.Unbroken) :
    (join "\n" ls).lines = ls := by
  rw [lines]
  split
  · next hnil => exact ((join_eq_nil_iff hne).1 hnil).symm
  · next hnil => exact split_join (fun hls => hnil (hls ▸ rfl)) h

end Text

/-! ## Types -/

namespace TypeExpr

mutual

def names : TypeExpr → List Text
  | .absent => []
  | .keyword name => [name]
  | .ref name args => name :: namesAll args
  | .union types => namesAll types
  | .intersection types => namesAll types
  | .literal _ => []
  | .function params result => namesOfParams params ++ names result
  | .constructor params result => namesOfParams params ++ names result
  | .tuple elements => namesAll elements
  | .array element => names element
  | .query name => [name]

def namesAll : List TypeExpr → List Text
  | [] => []
  | t :: ts => names t ++ namesAll ts

def namesOfParams : List Param → List Text
  | [] => []
  | ⟨name, _, _, type⟩ :: ps => name :: (names type ++ namesOfParams ps)

end

theorem unbroken_parenthesized {t : Text} (h : t.Unbroken) (needed : Bool) :
    (parenthesized needed t).Unbroken := by
  unfold parenthesized
  split
  · simp only [Text.unbroken_concat_cons]
    exact ⟨by decide, h, by decide, Text.unbroken_nil⟩
  · exact h

theorem unbroken_annotation {t : Text} (h : t.Unbroken) (isLeftOut : Bool) :
    (suffix isLeftOut t).Unbroken := by
  unfold suffix
  split
  · exact Text.unbroken_nil
  · exact Text.unbroken_append.2 ⟨by decide, h⟩

theorem unbroken_commas {ts : List Text} (h : ∀ t ∈ ts, t.Unbroken) :
    (Text.join ", " ts).Unbroken :=
  Text.unbroken_join (by decide) h

mutual

theorem unbroken_print : ∀ {t : TypeExpr}, (∀ n ∈ t.names, n.Unbroken) → t.print.Unbroken
  | .absent, _ => by decide
  | .keyword name, h => h name List.mem_cons_self
  | .ref name [], h => h name List.mem_cons_self
  | .ref name (a :: args), h => by
    rw [names, List.forall_mem_cons] at h
    simp only [print, Text.unbroken_concat_cons]
    exact ⟨h.1, by decide, unbroken_commas (unbroken_printList h.2), by decide, Text.unbroken_nil⟩
  | .union types, h => Text.unbroken_join (by decide) (unbroken_printOperands false h)
  | .intersection types, h => Text.unbroken_join (by decide) (unbroken_printOperands true h)
  | .literal value, _ => Text.unbroken_quoted value
  | .function params result, h => by
    rw [names, List.forall_mem_append] at h
    simp only [print, Text.unbroken_concat_cons]
    exact ⟨by decide, unbroken_commas (unbroken_printParams h.1), by decide, unbroken_print h.2,
      Text.unbroken_nil⟩
  | .constructor params result, h => by
    rw [names, List.forall_mem_append] at h
    simp only [print, Text.unbroken_concat_cons]
    exact ⟨by decide, unbroken_commas (unbroken_printParams h.1), by decide, unbroken_print h.2,
      Text.unbroken_nil⟩
  | .tuple elements, h => by
    simp only [print, Text.unbroken_concat_cons]
    exact ⟨by decide, unbroken_commas (unbroken_printList h), by decide, Text.unbroken_nil⟩
  | .array element, h => by
    rw [names] at h
    exact Text.unbroken_append.2 ⟨unbroken_parenthesized (unbroken_print h) _, by decide⟩
  | .query name, h => Text.unbroken_append.2 ⟨by decide, h name List.mem_cons_self⟩

theorem unbroken_printList : ∀ {ts : List TypeExpr}, (∀ n ∈ namesAll ts, n.Unbroken) →
    ∀ l ∈ printList ts, l.Unbroken
  | [], _ => nofun
  | t :: ts, h => by
    rw [namesAll, List.forall_mem_append] at h
    exact List.forall_mem_cons.2 ⟨unbroken_print h.1, unbroken_printList h.2⟩

theorem unbroken_printOperands (tight : Bool) : ∀ {ts : List TypeExpr},
    (∀ n ∈ namesAll ts, n.Unbroken) → ∀ l ∈ printOperands tight ts, l.Unbroken
  | [], _ => nofun
  | t :: ts, h => by
    rw [namesAll, List.forall_mem_append] at h
    exact List.forall_mem_cons.2
      ⟨unbroken_parenthesized (unbroken_print h.1) _, unbroken_printOperands tight h.2⟩

theorem unbroken_printParams : ∀ {ps : List Param}, (∀ n ∈ namesOfParams ps, n.Unbroken) →
    ∀ l ∈ printParams ps, l.Unbroken
  | [], _ => nofun
  | ⟨name, isOptional, isRest, type⟩ :: ps, h => by
    rw [namesOfParams, List.forall_mem_cons, List.forall_mem_append] at h
    refine List.forall_mem_cons.2 ⟨?_, unbroken_printParams h.2.2⟩
    simp only [Text.unbroken_concat_cons]
    exact ⟨by cases isRest <;> decide, h.1, by cases isOptional <;> decide,
      unbroken_annotation (unbroken_print h.2.1) _, Text.unbroken_nil⟩

end

theorem unbroken_annotated {t : TypeExpr} (h : ∀ n ∈ t.names, n.Unbroken) :
    t.annotated.Unbroken :=
  unbroken_annotation (unbroken_print h) _

end TypeExpr

/-! ## Members -/

def TypeParam.names (p : TypeParam) : List Text := p.name :: p.constraint.names

def Element.names : Element → List Text
  | .absent => []
  | .property name _ _ type _ => name :: type.names
  | .method name _ _ typeParams params result _ =>
    name :: (typeParams.flatMap TypeParam.names ++ (TypeExpr.namesOfParams params ++ result.names))
  | .construct params result => TypeExpr.namesOfParams params ++ result.names
  | .index _ key type => TypeExpr.namesOfParams [key] ++ type.names

theorem unbroken_modifier (applies : Bool) {word : String} (h : (Text.ofString word).Unbroken) :
    (modifier applies word).Unbroken := by
  unfold modifier
  split
  · exact Text.unbroken_append.2 ⟨h, by decide⟩
  · exact Text.unbroken_nil

theorem Param.unbroken_printAll {ps : List Param}
    (h : ∀ n ∈ TypeExpr.namesOfParams ps, n.Unbroken) : (Param.printAll ps).Unbroken := by
  simp only [Param.printAll, Text.unbroken_concat_cons]
  exact ⟨by decide, TypeExpr.unbroken_commas (TypeExpr.unbroken_printParams h), by decide,
    Text.unbroken_nil⟩

theorem TypeParam.unbroken_print {p : TypeParam} (h : ∀ n ∈ p.names, n.Unbroken) :
    p.print.Unbroken := by
  rw [names, List.forall_mem_cons] at h
  unfold print
  split
  · exact h.1
  · simp only [Text.unbroken_concat_cons]
    exact ⟨h.1, by decide, TypeExpr.unbroken_print h.2, Text.unbroken_nil⟩

theorem TypeParam.unbroken_printAll {ps : List TypeParam}
    (h : ∀ n ∈ ps.flatMap TypeParam.names, n.Unbroken) : (TypeParam.printAll ps).Unbroken := by
  unfold printAll
  split
  · exact Text.unbroken_nil
  · have hps : ∀ t ∈ ps.map TypeParam.print, t.Unbroken :=
      List.forall_mem_map.2 fun p hp =>
        unbroken_print fun n hn => h n (List.mem_flatMap.2 ⟨p, hp, hn⟩)
    simp only [Text.unbroken_concat_cons]
    exact ⟨by decide, TypeExpr.unbroken_commas hps, by decide, Text.unbroken_nil⟩

theorem Element.unbroken_print {e : Element} (h : ∀ n ∈ e.names, n.Unbroken) :
    e.print.Unbroken := by
  cases e with
  | absent => exact Text.unbroken_nil
  | property name isReadonly isOptional type _ =>
    rw [names, List.forall_mem_cons] at h
    simp only [print, Text.unbroken_concat_cons]
    exact ⟨unbroken_modifier _ (by decide), h.1, by cases isOptional <;> decide,
      TypeExpr.unbroken_annotated h.2, by decide, Text.unbroken_nil⟩
  | method name isStatic isOptional typeParams params result _ =>
    rw [names, List.forall_mem_cons, List.forall_mem_append, List.forall_mem_append] at h
    simp only [print, Text.unbroken_concat_cons]
    exact ⟨unbroken_modifier _ (by decide), h.1, by cases isOptional <;> decide,
      TypeParam.unbroken_printAll h.2.1, Param.unbroken_printAll h.2.2.1,
      TypeExpr.unbroken_annotated h.2.2.2, by decide, Text.unbroken_nil⟩
  | construct params result =>
    rw [names, List.forall_mem_append] at h
    simp only [print, Text.unbroken_concat_cons]
    exact ⟨by decide, Param.unbroken_printAll h.1, TypeExpr.unbroken_annotated h.2, by decide,
      Text.unbroken_nil⟩
  | index isReadonly key type =>
    rw [names, List.forall_mem_append] at h
    simp only [print, Text.unbroken_concat_cons]
    have hkey : key.print.Unbroken := Text.unbroken_concat (TypeExpr.unbroken_printParams h.1)
    exact ⟨unbroken_modifier _ (by decide), by decide, hkey, by decide,
      TypeExpr.unbroken_annotated h.2, by decide, Text.unbroken_nil⟩

/-! ## Statements -/

theorem unbroken_printBases {bases : List TypeExpr}
    (h : ∀ n ∈ TypeExpr.namesAll bases, n.Unbroken) : (printBases bases).Unbroken := by
  unfold printBases
  split
  · exact Text.unbroken_nil
  · exact Text.unbroken_append.2
      ⟨by decide, TypeExpr.unbroken_commas (TypeExpr.unbroken_printList h)⟩

theorem unbroken_block {width : Nat} {header : Text} (hheader : header.Unbroken)
    {inside : List Text} (h : ∀ l ∈ inside, l.Unbroken) :
    ∀ l ∈ block width header inside, l.Unbroken := by
  refine List.forall_mem_cons.2 ⟨Text.unbroken_append.2 ⟨hheader, by decide⟩,
    List.forall_mem_append.2 ⟨List.forall_mem_map.2 fun l hl => ?_, by decide⟩⟩
  refine Text.unbroken_append.2 ⟨fun hmem => ?_, h l hl⟩
  exact absurd (List.eq_of_mem_replicate hmem) (by decide)

namespace Statement

mutual

def names : Statement → List Text
  | .absent => []
  | .interfaceDecl name bases elements =>
    name :: (TypeExpr.namesAll bases ++ elements.flatMap Element.names)
  | .classDecl name bases elements =>
    name :: (TypeExpr.namesAll bases ++ elements.flatMap Element.names)
  | .typeAlias name type => name :: type.names
  | .functionDecl _ name typeParams params result =>
    name :: (typeParams.flatMap TypeParam.names ++ (TypeExpr.namesOfParams params ++ result.names))
  | .varDecl _ _ name type => name :: type.names
  | .moduleDecl _ name body => name :: namesAll body
  | .exportDefault name => [name]

def namesAll : List Statement → List Text
  | [] => []
  | s :: ss => names s ++ namesAll ss

end

theorem namesAll_eq_flatMap (ss : List Statement) : namesAll ss = ss.flatMap names := by
  induction ss with
  | nil => rfl
  | cons s ss ih => rw [namesAll, ih, List.flatMap_cons]

theorem unbroken_elements {elements : List Element}
    (h : ∀ n ∈ elements.flatMap Element.names, n.Unbroken) :
    ∀ l ∈ elements.map Element.print, l.Unbroken :=
  List.forall_mem_map.2 fun e he =>
    Element.unbroken_print fun n hn => h n (List.mem_flatMap.2 ⟨e, he, hn⟩)

mutual

theorem unbroken_lines (width : Nat) :
    ∀ {s : Statement}, (∀ n ∈ s.names, n.Unbroken) → ∀ l ∈ lines width s, l.Unbroken
  | .absent, _ => nofun
  | .interfaceDecl name bases elements, h => by
    rw [names, List.forall_mem_cons, List.forall_mem_append] at h
    refine unbroken_block ?_ (unbroken_elements h.2.2)
    simp only [Text.unbroken_concat_cons]
    exact ⟨by decide, h.1, unbroken_printBases h.2.1, Text.unbroken_nil⟩
  | .classDecl name bases elements, h => by
    rw [names, List.forall_mem_cons, List.forall_mem_append] at h
    refine unbroken_block ?_ (unbroken_elements h.2.2)
    simp only [Text.unbroken_concat_cons]
    exact ⟨by decide, h.1, unbroken_printBases h.2.1, Text.unbroken_nil⟩
  | .typeAlias name type, h => by
    rw [names, List.forall_mem_cons] at h
    refine List.forall_mem_singleton.2 ?_
    simp only [Text.unbroken_concat_cons]
    exact ⟨by decide, h.1, by decide, TypeExpr.unbroken_print h.2, by decide, Text.unbroken_nil⟩
  | .functionDecl isDeclared name typeParams params result, h => by
    rw [names, List.forall_mem_cons, List.forall_mem_append, List.forall_mem_append] at h
    refine List.forall_mem_singleton.2 ?_
    simp only [Text.unbroken_concat_cons]
    exact ⟨unbroken_modifier _ (by decide), by decide, h.1, TypeParam.unbroken_printAll h.2.1,
      Param.unbroken_printAll h.2.2.1, TypeExpr.unbroken_annotated h.2.2.2, by decide,
      Text.unbroken_nil⟩
  | .varDecl isDeclared isConst name type, h => by
    rw [names, List.forall_mem_cons] at h
    refine List.forall_mem_singleton.2 ?_
    simp only [Text.unbroken_concat_cons]
    exact ⟨unbroken_modifier _ (by decide), by cases isConst <;> decide, h.1,
      TypeExpr.unbroken_annotated h.2, by decide, Text.unbroken_nil⟩
  | .moduleDecl isDeclared name body, h => by
    rw [names, List.forall_mem_cons] at h
    refine unbroken_block ?_ (unbroken_linesAll width h.2)
    simp only [Text.unbroken_concat_cons]
    exact ⟨unbroken_modifier _ (by decide), by decide, h.1, Text.unbroken_nil⟩
  | .exportDefault name, h => by
    refine List.forall_mem_singleton.2 ?_
    simp only [Text.unbroken_concat_cons]
    exact ⟨by decide, h name List.mem_cons_self, by decide, Text.unbroken_nil⟩

theorem unbroken_linesAll (width : Nat) :
    ∀ {ss : List Statement}, (∀ n ∈ namesAll ss, n.Unbroken) → ∀ l ∈ linesAll width ss, l.Unbroken
  | [], _ => nofun
  | s :: ss, h => by
    rw [namesAll, List.forall_mem_append] at h
    exact List.forall_mem_append.2 ⟨unbroken_lines width h.1, unbroken_linesAll width h.2⟩

end

/-! ## Texts -/

theorem linesAll_append (width : Nat) (ss ss' : List Statement) :
    linesAll width (ss ++ ss') = linesAll width ss ++ linesAll width ss' := by
  induction ss with
  | nil => rfl
  | cons s ss ih => rw [List.cons_append, linesAll, linesAll, ih, List.append_assoc]

theorem ne_nil_of_mem_block {width : Nat} (hwidth : 0 < width) {header : Text} {inside : List Text} :
    ∀ l ∈ block width header inside, l ≠ [] := by
  simp only [block, List.cons_append, List.forall_mem_cons, List.forall_mem_append, List.forall_mem_map]
  refine ⟨by simp [Text.ofString], fun l _ => ?_, ?_⟩
  · exact List.append_ne_nil_of_left_ne_nil (by simpa using Nat.ne_zero_of_lt hwidth) l
  · exact ⟨nofun, nofun⟩

theorem ne_nil_of_mem_lines {width : Nat} (hwidth : 0 < width) (s : Statement) :
    ∀ l ∈ lines width s, l ≠ [] := by
  cases s with
  | absent => exact nofun
  | interfaceDecl | classDecl | moduleDecl => exact ne_nil_of_mem_block hwidth
  | typeAlias | exportDefault => simp [lines, Text.concat, Text.ofString]
  | functionDecl | varDecl => simp [lines, Text.concat, Text.ofString]

theorem ne_nil_of_mem_linesAll {width : Nat} (hwidth : 0 < width) (ss : List Statement) :
    ∀ l ∈ linesAll width ss, l ≠ [] := by
  induction ss with
  | nil => exact nofun
  | cons s ss ih => exact List.forall_mem_append.2 ⟨ne_nil_of_mem_lines hwidth s, ih⟩

theorem indentWidth_pos (n : Int) : 0 < indentWidth n := by
  unfold indentWidth
  split <;> omega

/-- The lines of what is printed are those that were written. -/
theorem lines_printAll (width : Int) {ss : List Statement} (h : ∀ n ∈ namesAll ss, n.Unbroken) :
    (printAll width ss).lines = linesAll (indentWidth width) ss :=
  Text.lines_join (ne_nil_of_mem_linesAll (indentWidth_pos width) ss) (unbroken_linesAll _ h)

def moduleHeader (isDeclared : Bool) (name : Text) : Text :=
  Text.concat [modifier isDeclared "declare", "module ", name, " \x7b"]

theorem moduleHeader_eq (isDeclared : Bool) (name : Text) :
    Text.concat [modifier isDeclared "declare", "module ", name] ++ " \x7b" =
      moduleHeader isDeclared name := by
  simp only [moduleHeader, Text.concat, List.flatten_cons, List.flatten_nil, List.append_assoc,
    List.append_nil]

theorem linesAll_moduleDecl (width : Nat) (isDeclared : Bool) (name : Text) (body : List Statement) :
    linesAll width [.moduleDecl isDeclared name body] =
      moduleHeader isDeclared name ::
        (linesAll width body).map (indented width) ++ [Text.ofString "\x7d"] := by
  rw [linesAll, linesAll, List.append_nil, lines, block, moduleHeader_eq]

/-- What stands in a module is printed as it is, further to the right. -/
theorem printAll_moduleDecl {width : Int} (hwidth : 0 < width) (isDeclared : Bool) (name : Text)
    {body : List Statement} (h : ∀ n ∈ namesAll body, n.Unbroken) :
    printAll width [.moduleDecl isDeclared name body] =
      Text.join "\n" (moduleHeader isDeclared name ::
        (printAll width body).lines.map (indented width.toNat) ++ [Text.ofString "\x7d"]) := by
  have hindent : indentWidth width = width.toNat := if_neg (Int.not_le.2 hwidth)
  rw [lines_printAll width h, printAll, hindent, linesAll_moduleDecl]

theorem linesAll_ne_nil (width : Nat) {ss : List Statement} (h : ∃ s ∈ ss, s ≠ .absent) :
    linesAll width ss ≠ [] := by
  induction ss with
  | nil => simp at h
  | cons s ss ih =>
    rw [linesAll, Ne, List.append_eq_nil_iff]
    rintro ⟨hs, hss⟩
    obtain ⟨x, hx, hne⟩ := h
    rcases List.mem_cons.1 hx with rfl | hx
    · cases x with
      | absent => contradiction
      | _ => exact absurd hs (List.cons_ne_nil _ _)
    · exact ih ⟨x, hx, hne⟩ hss

/-- Statements that print something are printed one after the other. -/
theorem printAll_append_of_ne_absent (width : Int) {xs ys : List Statement}
    (hxs : ∃ s ∈ xs, s ≠ .absent) (hys : ∃ s ∈ ys, s ≠ .absent) :
    printAll width (xs ++ ys) = printAll width xs ++ ("\n" ++ printAll width ys) := by
  rw [printAll, linesAll_append]
  exact Text.join_append (linesAll_ne_nil _ hxs) (linesAll_ne_nil _ hys)

end Statement

end IdlTypings
