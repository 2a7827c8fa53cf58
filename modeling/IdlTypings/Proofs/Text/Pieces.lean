import IdlTypings.Text

/-!
# Texts taken apart and put together

What `Text.after?`, `Text.join`, `Text.split` and `Text.replace` do.
-/

namespace IdlTypings

theorem Cell.is_iff {c : Char} {d : Cell} : d.is c = true ↔ d = .char c := by
  cases d with
  | char d =>
    simp only [Cell.is, beq_iff_eq, Cell.char.injEq]
    exact eq_comm
  | stray b => simp [Cell.is]

namespace Text

/-- The cells of a literal. The kernel takes a literal for the list of its characters at once, whereas
to evaluate `String.toList` of it takes a time quadratic in its length. -/
theorem ofString_ofList (cs : List Char) : ofString (String.ofList cs) = cs.map .char :=
  congrArg (List.map Cell.char) String.toList_ofList

@[simp] theorem after?_append (p t : Text) : after? p (p ++ t) = some t := by
  induction p with
  | nil => rfl
  | cons c p ih => rw [List.cons_append, after?, if_pos rfl, ih]

theorem after?_eq_some_iff {p t r : Text} : after? p t = some r ↔ t = p ++ r := by
  refine ⟨fun h => ?_, fun h => h ▸ after?_append p r⟩
  fun_induction after? p t with
  | case1 t => exact Option.some.inj h
  | case2 p c t ih => rw [ih h, List.cons_append]
  | case3 => contradiction
  | case4 => contradiction

/-- What begins with another cell does not begin with the text. -/
theorem after?_cons_of_ne {c d : Cell} (h : c ≠ d) (p t : Text) : after? (c :: p) (d :: t) = none :=
  if_neg h

theorem join_nil (sep : Text) : join sep [] = [] := rfl

theorem join_cons_cons (sep l m : Text) (ls : List Text) :
    join sep (l :: m :: ls) = l ++ (sep ++ join sep (m :: ls)) := rfl

theorem join_singleton (sep l : Text) : join sep [l] = l := List.append_nil l

theorem join_append_cons (sep a l : Text) (ls : List Text) :
    join sep ((a ++ l) :: ls) = a ++ join sep (l :: ls) := by
  cases ls with
  | nil => rw [join_singleton, join_singleton]
  | cons m ls => rw [join_cons_cons, join_cons_cons, List.append_assoc]

theorem join_eq_nil_iff {sep : Text} {ls : List Text} (h : ∀ l ∈ ls, l ≠ []) :
    join sep ls = [] ↔ ls = [] := by
  cases ls with
  | nil => exact iff_of_true rfl rfl
  | cons l ls =>
    refine iff_of_false (fun hl => h l List.mem_cons_self ?_) nofun
    cases ls with
    | nil => rwa [join_singleton] at hl
    | cons m ls => exact (List.append_eq_nil_iff.1 hl).1

theorem join_append {sep : Text} {ls ms : List Text} (hl : ls ≠ []) (hm : ms ≠ []) :
    join sep (ls ++ ms) = join sep ls ++ (sep ++ join sep ms) := by
  induction ls with
  | nil => contradiction
  | cons l ls ih =>
    rcases ls with _ | ⟨l', ls⟩
    · obtain ⟨m, ms, rfl⟩ := List.exists_cons_of_ne_nil hm
      rw [join_singleton]
      rfl
    · rw [List.cons_append, List.cons_append, join_cons_cons, ← List.cons_append, ih nofun,
        join_cons_cons]
      simp only [List.append_assoc]

/-- What is joined in groups, and then the groups, is joined at once. -/
theorem join_flatMap {α : Type} {sep : Text} {f : α → List Text} {xs : List α}
    (h : ∀ x ∈ xs, f x ≠ []) : join sep (xs.flatMap f) = join sep (xs.map fun x => join sep (f x)) := by
  induction xs with
  | nil => rfl
  | cons x xs ih =>
    rw [List.forall_mem_cons] at h
    rcases xs with _ | ⟨y, xs⟩
    · rw [List.flatMap_cons, List.flatMap_nil, List.append_nil, List.map_singleton, join_singleton]
    · have hrest : (y :: xs).flatMap f ≠ [] := by
        rw [List.flatMap_cons]
        exact fun hnil => h.2 y List.mem_cons_self (List.append_eq_nil_iff.1 hnil).1
      rw [List.flatMap_cons, join_append h.1 hrest, ih h.2]
      rfl

/-! ## Pieces between separators -/

theorem exists_split_eq_cons (sep : Cell) (t : Text) :
    ∃ l ls, split sep t = l :: ls ∧
      ∀ piece acc, piecesOnto sep piece acc t = acc.reverse ++ (piece.reverse ++ l) :: ls := by
  -- the pieces found so far and the cells of the next one are put before what is still found
  suffices h : ∃ l ls,
      ∀ piece acc, piecesOnto sep piece acc t = acc.reverse ++ (piece.reverse ++ l) :: ls by
    obtain ⟨l, ls, h⟩ := h
    exact ⟨l, ls, h [] [], h⟩
  induction t with
  | nil =>
    refine ⟨[], [], fun piece acc => ?_⟩
    rw [piecesOnto, List.reverse_cons, List.append_nil]
  | cons c t ih =>
    obtain ⟨l, ls, h⟩ := ih
    by_cases hc : c = sep
    · refine ⟨[], l :: ls, fun piece acc => ?_⟩
      rw [piecesOnto, if_pos hc, h, List.reverse_cons, List.append_assoc, List.append_nil]
      rfl
    · refine ⟨c :: l, ls, fun piece acc => ?_⟩
      rw [piecesOnto, if_neg hc, h, List.reverse_cons, List.append_assoc]
      rfl

theorem split_nil (sep : Cell) : split sep [] = [[]] := rfl

theorem split_ne_nil (sep : Cell) (t : Text) : split sep t ≠ [] := by
  obtain ⟨l, ls, h, -⟩ := exists_split_eq_cons sep t
  rw [h]
  exact List.cons_ne_nil l ls

theorem split_cons_self (sep : Cell) (t : Text) : split sep (sep :: t) = [] :: split sep t := by
  obtain ⟨l, ls, h, hpieces⟩ := exists_split_eq_cons sep t
  rw [h, split, piecesOnto, if_pos rfl, hpieces]
  rfl

theorem split_cons_of_ne {sep c : Cell} (hc : c ≠ sep) {t l : Text} {ls : List Text}
    (h : split sep t = l :: ls) : split sep (c :: t) = (c :: l) :: ls := by
  obtain ⟨l', ls', h', hpieces⟩ := exists_split_eq_cons sep t
  obtain ⟨rfl, rfl⟩ := List.cons.inj (h'.symm.trans h)
  rw [split, piecesOnto, if_neg hc, hpieces]
  rfl

theorem length_split (sep : Cell) (t : Text) : (split sep t).length = t.count sep + 1 := by
  induction t with
  | nil => rfl
  | cons c t ih =>
    by_cases hc : c = sep
    · rw [hc, split_cons_self, List.length_cons, ih, List.count_cons_self]
    · cases hsplit : split sep t with
      | nil => exact absurd hsplit (split_ne_nil sep t)
      | cons l ls =>
        rw [split_cons_of_ne hc hsplit, List.length_cons, List.count_cons_of_ne hc, ← ih, hsplit,
          List.length_cons]

theorem split_append_of_not_mem {sep : Cell} {a : Text} (ha : sep ∉ a) {t l : Text} {ls : List Text}
    (h : split sep t = l :: ls) : split sep (a ++ t) = (a ++ l) :: ls := by
  induction a with
  | nil => exact h
  | cons c a ih =>
    rw [List.mem_cons, not_or] at ha
    exact split_cons_of_ne (Ne.symm ha.1) (ih ha.2)

theorem split_append_cons {sep : Cell} {a : Text} (ha : sep ∉ a) (t : Text) :
    split sep (a ++ sep :: t) = a :: split sep t := by
  rw [split_append_of_not_mem ha (split_cons_self sep t), List.append_nil]

theorem not_mem_of_mem_split {sep : Cell} {t l : Text} (hl : l ∈ split sep t) : sep ∉ l := by
  induction t generalizing l with
  | nil =>
    obtain rfl := List.mem_singleton.1 hl
    exact List.not_mem_nil
  | cons c t ih =>
    by_cases hc : c = sep
    · rw [hc, split_cons_self, List.mem_cons] at hl
      rcases hl with rfl | hl
      · exact List.not_mem_nil
      · exact ih hl
    · obtain ⟨m, ms, h⟩ := List.exists_cons_of_ne_nil (split_ne_nil sep t)
      rw [split_cons_of_ne hc h, List.mem_cons] at hl
      rw [h] at ih
      rcases hl with rfl | hl
      · rw [List.mem_cons, not_or]
        exact ⟨Ne.symm hc, ih List.mem_cons_self⟩
      · exact ih (List.mem_cons_of_mem m hl)

theorem join_split (sep : Cell) (t : Text) : join [sep] (split sep t) = t := by
  induction t with
  | nil => rfl
  | cons c t ih =>
    obtain ⟨l, ls, h⟩ := List.exists_cons_of_ne_nil (split_ne_nil sep t)
    by_cases hc : c = sep
    · rw [hc, split_cons_self, h, join_cons_cons, ← h, ih]
      rfl
    · have hcons := join_append_cons [sep] [c] l ls
      rw [← h, ih] at hcons
      rw [split_cons_of_ne hc h]
      exact hcons

theorem split_join {sep : Cell} {ls : List Text} (hne : ls ≠ []) (h : ∀ l ∈ ls, sep ∉ l) :
    split sep (join [sep] ls) = ls := by
  induction ls with
  | nil => contradiction
  | cons l ls ih =>
    rw [List.forall_mem_cons] at h
    rcases ls with _ | ⟨m, ls⟩
    · rw [join_singleton]
      simpa using split_append_of_not_mem h.1 (split_nil sep)
    · rw [join_cons_cons]
      exact (split_append_cons h.1 _).trans (congrArg _ (ih (List.cons_ne_nil m ls) h.2))

theorem split_map {sep : Cell} {f : Text → Text} (hpiece : ∀ a, sep ∉ a → sep ∉ f a)
    (happend : ∀ a b, sep ∉ a → f (a ++ sep :: b) = f a ++ sep :: f b) (t : Text) :
    split sep (f t) = (split sep t).map f := by
  suffices h : ∀ ls : List Text, ls ≠ [] → (∀ l ∈ ls, sep ∉ l) →
      f (join [sep] ls) = join [sep] (ls.map f) by
    have hls : ∀ l ∈ split sep t, sep ∉ l := fun l hl => not_mem_of_mem_split hl
    have hmap := h (split sep t) (split_ne_nil sep t) hls
    rw [join_split] at hmap
    rw [hmap]
    apply split_join
    · rw [Ne, List.map_eq_nil_iff]
      exact split_ne_nil sep t
    · exact List.forall_mem_map.2 fun l hl => hpiece l (hls l hl)
  intro ls
  induction ls with
  | nil => intro hne; contradiction
  | cons l ls ih =>
    intro _ h
    rw [List.forall_mem_cons] at h
    rcases ls with _ | ⟨m, ls⟩
    · rw [List.map_singleton, join_singleton, join_singleton]
    · rw [List.map_cons, List.map_cons, join_cons_cons, join_cons_cons]
      rw [List.map_cons] at ih
      exact (happend l _ h.1).trans
        (congrArg (fun u => f l ++ sep :: u) (ih (List.cons_ne_nil m ls) h.2))

/-! ## Replacing -/

theorem replaceOnto_eq (old new acc t : Text) :
    replaceOnto old new acc t = replaceOnto old new [] t ++ acc := by
  rcases t with _ | ⟨c, t⟩
  · rw [replaceOnto, replaceOnto, List.nil_append]
  rw [replaceOnto, replaceOnto]
  split
  · rw [replaceOnto_eq old new (List.reverseAux new acc), replaceOnto_eq old new (List.reverseAux new []),
      List.append_assoc, List.reverseAux_eq, List.reverseAux_eq, List.append_nil]
  · rw [replaceOnto_eq old new (c :: acc), replaceOnto_eq old new [c], List.append_assoc,
      List.singleton_append]
termination_by t.length
decreasing_by all_goals simp only [List.length_drop, List.length_cons]; omega

theorem replace_nil (old new : Text) : replace old new [] = [] := by
  rw [replace, replaceOnto, List.reverse_nil]

theorem replace_cons (old new : Text) (c : Cell) (t : Text) :
    replace old new (c :: t) =
      if old.isPrefixOf (c :: t) then new ++ replace old new (t.drop (old.length - 1))
      else c :: replace old new t := by
  rw [replace, replaceOnto]
  split
  · rw [replaceOnto_eq, List.reverse_append, List.reverseAux_eq, List.append_nil, List.reverse_reverse]
    rfl
  · rw [replaceOnto_eq, List.reverse_append]
    rfl

/-- A text that is replaced by one with as many cells `c` leaves their number as it is. -/
theorem count_replace {old new : Text} (hne : old ≠ []) {c : Cell} (h : new.count c = old.count c)
    (t : Text) : (replace old new t).count c = t.count c := by
  rcases t with _ | ⟨d, t⟩
  · rw [replace_nil]
  rw [replace_cons]
  split
  · next hahead =>
    have ih := count_replace hne h (t.drop (old.length - 1))
    obtain ⟨w, hw⟩ := List.isPrefixOf_iff_prefix.1 hahead
    obtain ⟨e, old, rfl⟩ := List.exists_cons_of_ne_nil hne
    rw [List.cons_append] at hw
    obtain ⟨rfl, rfl⟩ := List.cons.inj hw
    have hrest : List.drop ((e :: old).length - 1) (old ++ w) = w := List.drop_left
    rw [hrest] at ih ⊢
    rw [List.count_append, ih, h, ← List.count_append]
    rfl
  · rw [List.count_cons, List.count_cons, count_replace hne h t]
termination_by t.length
decreasing_by all_goals simp only [List.length_drop, List.length_cons]; omega

end Text

end IdlTypings
