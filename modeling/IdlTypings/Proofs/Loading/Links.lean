import IdlTypings.Loading
import IdlTypings.Proofs.Text.Pieces
import Mathlib.Data.List.TakeDrop
import Mathlib.Data.List.TakeWhile

/-!
# Links between documents

A document in markup may link to a file of definitions. The file behind a link is a document in
markup only if the link has a query or a fragment (`Loading.not_isMarkupPath_join`).
-/

namespace IdlTypings

/-! ## Ends of paths -/

namespace Path

theorem eq_of_cutLast? {c : Cell} {t before after : Text} (h : cutLast? c t = some (before, after)) :
    t = before ++ c :: after := by
  unfold cutLast? at h
  rw [List.span_eq_takeWhile_dropWhile] at h
  have hsplit := List.takeWhile_append_dropWhile (p := (· != c)) (l := t.reverse)
  have hhead := List.head?_dropWhile_not (· != c) t.reverse
  split at h
  · contradiction
  · next after' d before' heq =>
    obtain ⟨htake, hdrop⟩ := Prod.mk.inj heq
    obtain ⟨rfl, rfl⟩ := Prod.mk.inj (Option.some.inj h)
    rw [hdrop] at hhead
    obtain rfl : d = c := by simpa using hhead
    rw [htake, hdrop] at hsplit
    rw [← List.reverse_reverse t, ← hsplit]
    simp

theorem extension_suffix (t : Text) : extension t <:+ t := by
  unfold extension
  have hlast : ((cutLast? (Cell.char '/') t).map Prod.snd).getD t <:+ t := by
    rcases h : cutLast? (Cell.char '/') t with _ | ⟨before, after⟩
    · exact List.suffix_rfl
    · exact ⟨before ++ [Cell.char '/'], by rw [eq_of_cutLast? h]; simp⟩
  dsimp only
  split
  · next before after h =>
    refine List.IsSuffix.trans ⟨before, ?_⟩ hlast
    exact (eq_of_cutLast? h).symm
  · exact List.nil_suffix

/-- An element that is neither empty nor made of dots stays where it is. -/
theorem elementsOnto_concat (rooted : Bool) {e : Text} (he : 2 < e.length) (es acc : List Text) :
    elementsOnto rooted acc (es ++ [e]) = e :: elementsOnto rooted acc es := by
  have hshort (w : String) (hw : w.length ≤ 2) : e ≠ Text.ofString w := by
    rintro rfl
    rw [Text.ofString, List.length_map, String.length_toList] at he
    omega
  induction es generalizing acc with
  | nil =>
    simp only [List.nil_append, elementsOnto]
    rw [if_neg (not_or.2 ⟨hshort _ (by decide), hshort _ (by decide)⟩), if_neg (hshort _ (by decide))]
  | cons d es ih =>
    rw [List.cons_append, elementsOnto.eq_def, elementsOnto.eq_def rooted acc (d :: es)]
    dsimp only
    split
    · exact ih acc
    split
    · cases acc <;> exact ih _
    · exact ih _

theorem suffix_join_concat (sep l : Text) (ls : List Text) : l <:+ Text.join sep (ls ++ [l]) := by
  by_cases hls : ls = []
  · rw [hls, List.nil_append]
    exact ⟨[], (Text.join_singleton sep l).symm⟩
  · rw [Text.join_append hls (List.cons_ne_nil l []), Text.join_singleton, ← List.append_assoc]
    exact List.suffix_append _ _

/-- What a path ends in is the end of its last element, unless there is a slash in it. -/
theorem exists_split_eq_concat {t e : Text} (hslash : .char '/' ∉ e) (h : e <:+ t) :
    ∃ es l, Text.split (.char '/') t = es ++ [l] ∧ e <:+ l := by
  obtain ⟨es, l, hsplit⟩ : ∃ es l, Text.split (.char '/') t = es ++ [l] :=
    ⟨_, _, (List.dropLast_concat_getLast (Text.split_ne_nil _ t)).symm⟩
  refine ⟨es, l, hsplit, ?_⟩
  have ht : Text.join [.char '/'] (es ++ [l]) = t := by rw [← hsplit, Text.join_split]
  by_cases hes : es = []
  · rw [hes, List.nil_append, Text.join_singleton] at ht
    rwa [ht]
  · rw [Text.join_append hes (List.cons_ne_nil l []), Text.join_singleton] at ht
    -- a longer end would reach to the slash before the last element
    have hl : .char '/' :: l <:+ t := ⟨_, ht⟩
    rcases Nat.lt_or_ge l.length e.length with hlt | hle
    · have hmem := List.suffix_of_suffix_length_le hl h hlt
      exact absurd (hmem.subset List.mem_cons_self) hslash
    · exact List.suffix_of_suffix_length_le h ((List.suffix_cons _ l).trans hl) hle

theorem suffix_clean {t e : Text} (hslash : .char '/' ∉ e) (he : 2 < e.length) (h : e <:+ t) :
    e <:+ clean t := by
  obtain ⟨es, l, hsplit, hl⟩ := exists_split_eq_concat hslash h
  have hlength : 2 < l.length := Nat.lt_of_lt_of_le he hl.length_le
  have helements : e <:+ Text.join "/"
      (elementsOnto (isRooted t) [] (Text.split (.char '/') t)).reverse := by
    rw [hsplit, elementsOnto_concat _ hlength, List.reverse_cons]
    exact hl.trans (suffix_join_concat _ _ _)
  unfold clean
  dsimp only
  split
  · exact helements.trans (List.suffix_cons _ _)
  split
  · next hempty =>
    rw [List.isEmpty_iff.1 hempty, List.suffix_nil] at helements
    rw [helements] at he
    contradiction
  · exact helements

end Path

/-! ## Links -/

namespace Extraction

open Markup

theorem isLink_of_link? {name : String} {attributes : List (Text × Text)} {link : Text}
    (h : link? name attributes = some link) : isLink link = true := by
  unfold link? at h
  rw [Option.ite_none_right_eq_some, Bool.and_eq_true] at h
  obtain ⟨⟨-, hlink⟩, heq⟩ := h
  rwa [← Option.some.inj heq]

mutual

theorem isLink_of_find : ∀ {node : Node} {link : Text}, (find node).link = some link → isLink link = true
  | .text _, _, h | .comment, _, h => by contradiction
  | .element name attributes children, link, h => by
    rw [find] at h
    split at h
    · contradiction
    · rcases Option.or_eq_some_iff.1 h with h | ⟨-, h⟩
      · exact isLink_of_link? h
      · exact isLink_of_findAll h

theorem isLink_of_findAll :
    ∀ {nodes : List Node} {link : Text}, (findAll nodes).link = some link → isLink link = true
  | [], _, h => by contradiction
  | node :: nodes, link, h => by
    rw [findAll] at h
    rcases Option.or_eq_some_iff.1 h with h | ⟨-, h⟩
    · exact isLink_of_find h
    · exact isLink_of_findAll h

end

end Extraction

theorem isLink_of_ofNodes {nodes : List Markup.Node} {link : Text}
    (h : Extract.ofNodes nodes = .link link) : Extraction.isLink link = true := by
  rw [Extract.ofNodes] at h
  split at h
  · contradiction
  split at h
  · next address hlink =>
    rw [← Extract.link.inj h]
    exact Extraction.isLink_of_findAll hlink
  · contradiction

namespace Loading

/-- A link has neither a query nor a fragment. -/
def IsBare (link : Text) : Prop := .char '?' ∉ link ∧ .char '#' ∉ link

/-- A path that ends like a file of definitions, in whatever case, names no document in markup. -/
theorem not_isMarkupPath_of_suffix {path : Text} {w : String} (hw : w = ".idl" ∨ w = ".webidl")
    (h : Text.ofString w <:+ path.lower) : isMarkupPath path = false := by
  have hends {v : String} (hv : (Path.extension path).lower = Text.ofString v) :
      Text.ofString v <:+ path.lower :=
    hv ▸ (Path.extension_suffix path).map Cell.lower
  have hdiffer {v : String} (hv : v = ".html" ∨ v = ".htm") : ¬ Text.ofString v <:+ path.lower := by
    intro hv'
    rcases List.suffix_or_suffix_of_suffix h hv' with hsuffix | hsuffix <;>
      revert hsuffix <;> rcases hw with rfl | rfl <;> rcases hv with rfl | rfl <;> decide
  unfold isMarkupPath
  rw [Bool.or_eq_false_iff, beq_eq_false_iff_ne, beq_eq_false_iff_ne]
  exact ⟨fun hv => hdiffer (.inl rfl) (hends hv), fun hv => hdiffer (.inr rfl) (hends hv)⟩

/-- The file behind a link without query and fragment is no document in markup. -/
theorem not_isMarkupPath_join {link : Text} (hlink : Extraction.isLink link = true)
    (hbare : IsBare link) (directory : Text) : isMarkupPath (Path.join directory link) = false := by
  have hwhole : link.takeWhile (fun c => !(c.is '?' || c.is '#')) = link := by
    refine List.takeWhile_eq_self_iff.2 fun c hc => ?_
    have hquery : c.is '?' = false := Bool.eq_false_iff.2 fun h => hbare.1 (Cell.is_iff.1 h ▸ hc)
    have hfragment : c.is '#' = false := Bool.eq_false_iff.2 fun h => hbare.2 (Cell.is_iff.1 h ▸ hc)
    rw [hquery, hfragment]
    rfl
  obtain ⟨w, hw, hsuffix⟩ : ∃ w, (w = ".idl" ∨ w = ".webidl") ∧ Text.ofString w <:+ link.lower := by
    unfold Extraction.isLink at hlink
    rw [hwhole, Bool.or_eq_true] at hlink
    rcases hlink with h | h
    · exact ⟨_, .inl rfl, List.isSuffixOf_iff_suffix.1 h⟩
    · exact ⟨_, .inr rfl, List.isSuffixOf_iff_suffix.1 h⟩
  -- the end of the link, as it is written
  obtain ⟨before, hbefore⟩ := hsuffix
  obtain ⟨a, e, rfl, -, he⟩ := List.map_eq_append_iff.1 hbefore.symm
  have hslash : .char '/' ∉ e := by
    intro hmem
    have : Cell.lower (.char '/') ∈ Text.ofString w := he ▸ List.mem_map_of_mem hmem
    rcases hw with rfl | rfl <;> revert this <;> decide
  have hlength : 2 < e.length := by
    have := congrArg List.length he
    rw [List.length_map] at this
    rcases hw with rfl | rfl <;> rw [this] <;> decide
  have hend : e <:+ a ++ e := List.suffix_append _ _
  have hne : (a ++ e).isEmpty = false := by
    rw [List.isEmpty_eq_false_iff]
    exact List.append_ne_nil_of_right_ne_nil _ (List.ne_nil_of_length_pos (by omega))
  refine not_isMarkupPath_of_suffix hw (he ▸ List.IsSuffix.map Cell.lower ?_)
  unfold Path.join
  rw [hne]
  split
  · exact Path.suffix_clean hslash hlength hend
  · refine Path.suffix_clean hslash hlength (hend.trans ⟨directory ++ "/", ?_⟩)
    simp [Text.concat]

end Loading

end IdlTypings
