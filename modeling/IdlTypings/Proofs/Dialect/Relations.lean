import IdlTypings.Proofs.Dialect.Detection

/-!
# Relations that are moved

A statement becomes a comment, and its relation is put into the header of the interface if there is
one (`exists_header_of_mem_detected`).
-/

namespace IdlTypings.Dialect

/-! ## Headers that are there are found -/

theorem run?_append_of_pos {p : Cell → Bool} {head tail : Text} {c : Cell} (hne : head ≠ [])
    (hhead : ∀ d ∈ head, p d = true) (hc : p c = false) :
    run? p (head ++ c :: tail) = some (head, c :: tail) := by
  have hc : ¬ p c = true := by rw [hc]; decide
  unfold run?
  rw [List.span_eq_takeWhile_dropWhile, List.takeWhile_append_of_pos hhead,
    List.dropWhile_append_of_pos hhead, List.takeWhile_cons_of_neg hc, List.dropWhile_cons_of_neg hc,
    List.append_nil]
  exact if_neg (by rwa [List.isEmpty_iff])

theorem headerHere?_append {name m : Text} (h : IsHeader name m) (hne : name ≠ [])
    (hname : ∀ c ∈ name, isWord c = true) (rest : Text) :
    headerHere? name (m ++ rest) = some rest := by
  obtain ⟨sp, sp', rfl, hspne, hsp, hsp'⟩ := h
  obtain ⟨c, w, hw⟩ := List.exists_cons_of_ne_nil hne
  have hc : isSpace c = false := by
    rw [Bool.eq_false_iff]
    intro hspace
    have hword := hname c (hw ▸ List.mem_cons_self)
    rw [isWord_of_isSpace hspace] at hword
    contradiction
  have hrun (tail : Text) : run? isSpace (sp ++ (name ++ tail)) = some (sp, name ++ tail) := by
    rw [hw, List.cons_append]
    exact run?_append_of_pos hspne hsp hc
  have hbrace : ¬ isSpace (.char '{') = true := by decide
  simp only [headerHere?, List.append_assoc, Text.after?_append, hrun, Option.bind_eq_bind,
    Option.bind_some]
  rw [List.dropWhile_append_of_pos hsp', List.cons_append, List.dropWhile_cons_of_neg hbrace]
  rfl

theorem exists_header?_le {name m : Text} (h : IsHeader name m) (hne : name ≠ [])
    (hname : ∀ c ∈ name, isWord c = true) (u v : Text) (offset : Nat) :
    ∃ start stop, header? name offset (u ++ (m ++ v)) = some (start, stop) ∧
      start ≤ offset + u.size := by
  induction u generalizing offset with
  | nil =>
    have hhere := headerHere?_append h hne hname v
    obtain ⟨⟨c, w, rfl, -⟩, -⟩ := h.solid
    rw [List.cons_append] at hhere
    rw [List.nil_append, List.cons_append, header?, hhere]
    exact ⟨_, _, rfl, Nat.le_add_right _ _⟩
  | cons c u ih =>
    rw [List.cons_append, header?]
    split
    · exact ⟨_, _, rfl, Nat.le_add_right _ _⟩
    · obtain ⟨start, stop, hheader, hle⟩ := ih (offset + c.width)
      refine ⟨start, stop, hheader, ?_⟩
      rw [Text.size_cons]
      omega

/-! ## Edits that comments are read past -/

theorem scan_of_not_mem {m : Text} (h : .char '/' ∉ m) (rest : Text) : Scan (m ++ rest) rest m := by
  induction m with
  | nil => exact .here rest
  | cons c m ih =>
    rw [List.mem_cons, not_or] at h
    refine .cell ?_ (ih h.2)
    rw [opening?, if_neg fun hc => h.1 (Cell.is_iff.1 hc).symm]

theorem blankComments_of_not_mem {t : Text} (h : .char '/' ∉ t) : blankComments t = t := by
  have hblank := (scan_of_not_mem h []).blankComments_eq
  rwa [List.append_nil, blankComments_nil, List.append_nil] at hblank

/-- An edit of something that can be seen in the blanked text. What is written is read to its end,
and it opens no comment with a slash before it. -/
structure Seamless (scratch : Text) (e : Edit) : Prop where
  solid : ∃ m, scratch.Stands 0 e.start e.stop m ∧ Solid m
  text : ∃ w, ∀ rest, Scan (e.text ++ rest) rest w
  slash : ∀ u v : Text, scratch = u ++ .char '/' :: v → u.size + 1 = e.start → ∀ rest : Text,
    (e.text ++ rest).head? ≠ some (.char '*') ∧ (e.text ++ rest).head? ≠ some (.char '/')

namespace Seamless

/-- From outside comments one comes to the edit, and in the edited text to what it writes; behind
the edit one is outside comments again. -/
theorem exists_scan {whole : Text} {e : Edit} (h : Seamless (blankComments whole) e)
    (hopen : ¬ [.char '/', .char '*'] <:+: blankComments whole) {t c : Text}
    (hscan : Scan whole t c) (hstart : c.size ≤ e.start) :
    ∃ k o r u m, t = k ++ (o ++ r) ∧ e.start = c.size + k.size ∧ e.stop = e.start + o.size ∧
      u.size = k.size ∧ m.size = o.size ∧ Scan t r (u ++ m) ∧
      ∀ rest, Scan (k ++ (e.text ++ rest)) (e.text ++ rest) u := by
  obtain ⟨m, hstands, hm⟩ := h.solid
  have hblank := hscan.blankComments_eq
  rw [hblank] at hstands
  obtain ⟨u, v, heq, hu, hv⟩ := hstands.of_append (by omega)
  obtain ⟨k, o, r, rfl, hk, ho, -, hhead, hedit, hbehind⟩ := exists_scan_of_solid heq hm
  rw [heq] at hblank
  refine ⟨k, o, r, u, m, rfl, by omega, by omega, hk.symm, ho.symm, hbehind, fun rest => ?_⟩
  obtain ⟨d, w, rfl, -, hd⟩ := hm.1
  obtain ⟨o, rfl⟩ := List.head?_eq_some_iff.1 hhead
  refine hedit.congr rfl hd (fun hwithin => hopen ?_) ?_
  · rw [hblank]
    exact hwithin.trans ⟨c, d :: w ++ v, List.append_assoc ..⟩
  · rintro ⟨w', rfl⟩
    have hwidth : (Cell.char '/').width = 1 := rfl
    refine h.slash (c ++ w') (d :: w ++ v) ?_ ?_ rest
    · rw [hblank]
      simp only [List.append_assoc, List.cons_append, List.nil_append]
    · rw [Text.size_append, Text.size_cons, Text.size_nil, hwidth] at hu
      rw [Text.size_append]
      omega

end Seamless

/-- In the edited text comments are read up to what an edit writes. -/
theorem exists_scan_applySorted {whole : Text} {edits es : List Edit} (hsub : es ⊆ edits)
    (hopen : ¬ [.char '/', .char '*'] <:+: blankComments whole)
    (hes : ∀ e ∈ es, Seamless (blankComments whole) e)
    (hpair : es.Pairwise fun e e' => e.stop ≤ e'.start) {a t c : Text} (hwhole : whole = a ++ t)
    (hscan : Scan whole t c) (hsize : c.size = a.size) (hstart : ∀ e ∈ es, a.size ≤ e.start)
    {e : Edit} (he : e ∈ es) :
    ∃ x old y p q w, t = x ++ (old ++ y) ∧ e.start = a.size + x.size ∧ e.stop = e.start + old.size ∧
      Edit.applySorted a.size t es = p ++ (e.text ++ q) ∧ Edit.Made whole edits a.size x p ∧
      Edit.Made whole edits e.stop y q ∧ Scan (p ++ (e.text ++ q)) (e.text ++ q) w := by
  -- On the edits that are left: `t` is what follows the last one made, and one is outside comments
  -- at its head.
  induction es generalizing a t c with
  | nil => contradiction
  | cons f es ih =>
    rw [List.cons_subset] at hsub
    rw [List.forall_mem_cons] at hes hstart
    rw [List.pairwise_cons] at hpair
    obtain ⟨k, o, r, u, m, rfl, hk, ho, hu, hm, hbehind, hedit⟩ :=
      hes.1.exists_scan hopen hscan (hsize ▸ hstart.1)
    have hr := hscan.trans hbehind
    have hwhole' : whole = a ++ (k ++ o) ++ r := by
      rw [hwhole]
      simp only [List.append_assoc]
    have hsize' : (a ++ (k ++ o)).size = f.stop := by
      rw [Text.size_append, Text.size_append]
      omega
    have hd : (c ++ (u ++ m)).size = (a ++ (k ++ o)).size := by
      simp only [Text.size_append, hsize, hu, hm]
    rw [hsize] at hk
    rw [Edit.applySorted_cons hk ho]
    rcases List.mem_cons.1 he with rfl | he
    · refine ⟨k, o, r, k, _, u, rfl, hk, ho, rfl, .refl _ _ _ k, ?_, hedit _⟩
      rw [← hsize']
      exact Edit.made_applySorted hsub.2 hwhole' fun e he => fits_of_solid (hes.2 e he).solid
    · obtain ⟨x, old, y, p, q, w, rfl, hx, hold, happly, hmade, hmade', hw⟩ :=
        ih hsub.2 hes.2 hpair.2 hwhole' hr hd (hsize' ▸ hpair.1) he
      rw [hsize'] at hx happly hmade
      obtain ⟨v, hv⟩ := hes.1.text
      have hstands : whole.Stands 0 f.start f.stop o :=
        ⟨a ++ k, x ++ (old ++ y), by rw [hwhole, List.append_assoc],
          by rw [Text.size_append]; omega, ho⟩
      refine ⟨k ++ (o ++ x), old, y, k ++ (f.text ++ p), q, u ++ (v ++ w), ?_, ?_, hold, ?_, ?_,
        hmade', ?_⟩
      · simp only [List.append_assoc]
      · rw [Text.size_append, Text.size_append]
        omega
      · rw [happly]
        simp only [List.append_assoc]
      · apply Edit.Made.keepAll
        rw [← hk]
        exact .edit hsub.1 hstands hmade
      -- Up to `f`, over what it writes, and on to `e`.
      · simp only [List.append_assoc]
        exact (hedit _).trans ((hv _).trans hw)

/-! ## Relations -/

theorem seamless_of_mem {t : Text}
    (hslash : ∀ s ∈ detected t, ∀ u v : Text, blankComments t = u ++ .char '/' :: v →
      u.size + 1 ≠ s.start) {e : Edit} (he : e ∈ inheritanceEdits t) :
    Seamless (blankComments t) e := by
  refine ⟨exists_solid_of_mem he, ?_, ?_⟩
  · obtain ⟨s, hs, rfl | h⟩ := mem_inheritanceEdits.1 he
    · exact ⟨_, scan_comment (not_infix_replace _).1⟩
    · obtain ⟨m, -, hm, -⟩ := stands_of_mem_detected hs
      rw [(inherit?_eq_some_iff.1 h).2]
      exact ⟨_, scan_of_not_mem (hm.not_mem_header (by decide) (by decide))⟩
  · intro u v heq hstart rest
    obtain ⟨s, hs, rfl | h⟩ := mem_inheritanceEdits.1 he
    · exact absurd hstart (hslash s hs u v heq)
    · have hhead : (e.text ++ rest).head? = some (.char 'i') := by
        rw [(inherit?_eq_some_iff.1 h).2]
        rfl
      rw [hhead]
      decide

/-- Edits of interfaces that are each named by one statement come one behind the other. -/
theorem pairwise_sorted_of_nodup {t : Text} (h : ((detected t).map (·.left)).Nodup) :
    ((inheritanceEdits t).mergeSort fun a b => a.start ≤ b.start).Pairwise
      fun e e' => e.stop ≤ e'.start := by
  have hpair : (inheritanceEdits t).Pairwise fun e e' =>
      Edit.Apart e.start e.stop e'.start e'.stop ∨ False :=
    pairwise_inheritanceEdits ((List.pairwise_map.1 h).imp fun hne _ _ _ _ heq _ => hne heq)
  exact (Edit.pairwise_mergeSort (fun h => h) (fun _ he => start_lt_stop_of_mem he) hpair).imp
    fun h => h.resolve_right id

/-- The edit is made in `t`, and what it writes stands behind `p`. -/
def MadeBehind (t : Text) (e : Edit) (p : Text) : Prop :=
  ∃ a old b q, t = a ++ (old ++ b) ∧ a.size = e.start ∧ (a ++ old).size = e.stop ∧
    inheritance t = p ++ (e.text ++ q) ∧ Edit.Made t (inheritanceEdits t) 0 a p ∧
    Edit.Made t (inheritanceEdits t) e.stop b q

theorem MadeBehind.stands {t p : Text} {e : Edit} (h : MadeBehind t e p) :
    ∃ old, t.Stands 0 e.start e.stop old := by
  obtain ⟨a, old, b, -, ht, hstart, hstop, -⟩ := h
  refine ⟨old, a, b, ht, by omega, ?_⟩
  rw [Text.size_append] at hstop
  omega

/-- If every statement has its own left name, no comment is left open and no statement stands behind
a slash, then every edit is made, and behind what comes before it one is outside comments. -/
theorem exists_madeBehind {t : Text} (hnames : ((detected t).map (·.left)).Nodup)
    (hopen : ¬ [.char '/', .char '*'] <:+: blankComments t)
    (hslash : ∀ s ∈ detected t, ∀ u v : Text, blankComments t = u ++ .char '/' :: v →
      u.size + 1 ≠ s.start) {e : Edit} (he : e ∈ inheritanceEdits t) :
    ∃ p, MadeBehind t e p ∧ ∃ q w, inheritance t = p ++ (e.text ++ q) ∧ w.size = p.size ∧
      Scan (inheritance t) (e.text ++ q) w := by
  obtain ⟨x, old, y, p, q, w, ht, hstart, hstop, happly, hmade, hmade', hscan⟩ :=
    @exists_scan_applySorted t (inheritanceEdits t) _ (fun _ he => List.mem_mergeSort.1 he) hopen
      (fun _ he => seamless_of_mem hslash (List.mem_mergeSort.1 he))
      (pairwise_sorted_of_nodup hnames) [] t [] rfl (.here t) rfl (fun _ _ => Nat.zero_le _) e
      (List.mem_mergeSort.2 he)
  have hinheritance : inheritance t = p ++ (e.text ++ q) := happly
  rw [Text.size_nil, Nat.zero_add] at hstart
  refine ⟨p, ⟨x, old, y, q, ht, hstart.symm, ?_, hinheritance, hmade, hmade'⟩, q, w, hinheritance,
    ?_, ?_⟩
  · rw [Text.size_append]
    omega
  · obtain ⟨a, ha, hsize, -⟩ := hscan.exists_append
    rw [List.append_cancel_right ha, hsize]
  · rw [hinheritance]
    exact hscan

/-- The relation of a statement that becomes a comment is put into the first header of its interface,
if there is one, and what is written there stands outside comments. -/
theorem exists_header_of_mem_detected {t : Text} (hnames : ((detected t).map (·.left)).Nodup)
    (hopen : ¬ [.char '/', .char '*'] <:+: blankComments t)
    (hslash : ∀ s ∈ detected t, ∀ u v : Text, blankComments t = u ++ .char '/' :: v →
      u.size + 1 ≠ s.start) {s : Implementation} (hs : s ∈ detected t) {m : Text}
    (hm : IsHeader s.left m) (hwithin : m <:+: blankComments t) :
    (∃ old p, t.Stands 0 s.start s.stop old ∧ MadeBehind t
      ⟨s.start, s.stop, Text.concat ["/* ", Text.replace "*/" "* /" old, " */"]⟩ p) ∧
    ∃ w start stop p, IsHeader s.left w ∧ (blankComments t).Stands 0 start stop w ∧
      (∀ u w' v, blankComments t = u ++ (w' ++ v) → IsHeader s.left w' → start ≤ u.size) ∧
      MadeBehind t ⟨start, stop, Text.concat ["interface ", s.left, ": ", s.right, " \x7b"]⟩ p ∧
      (blankComments (inheritance t)).Stands 0 p.size (p ++ s.header).size
        (Text.concat ["interface ", s.left, ": ", s.right, " \x7b"]) := by
  obtain ⟨_, -, hstatement, -⟩ := stands_of_mem_detected hs
  constructor
  · obtain ⟨p, hp, -⟩ := exists_madeBehind hnames hopen hslash
      (mem_inheritanceEdits.2 ⟨s, hs, .inl rfl⟩)
    obtain ⟨old, hold⟩ : ∃ old, t.Stands 0 s.start s.stop old := hp.stands
    refine ⟨old, p, hold, ?_⟩
    rwa [Implementation.commentOut, hold.slice_eq] at hp
  · obtain ⟨-, -, hne, -⟩ := hstatement.text
    have hfirst (u w v : Text) (heq : blankComments t = u ++ (w ++ v)) (hw : IsHeader s.left w) :=
      heq ▸ exists_header?_le hw hne hstatement.left u v 0
    obtain ⟨u, v, heq⟩ := hwithin
    obtain ⟨start, stop, hheader, -⟩ := hfirst u m v (by rw [← heq, List.append_assoc]) hm
    obtain ⟨w, hstands, hw⟩ := stands_of_header? hheader
    have hinherit : s.inherit? (blankComments t) = some ⟨start, stop, s.header⟩ :=
      inherit?_eq_some_iff.2 ⟨hheader, rfl⟩
    obtain ⟨p, hp, q, x, -, hsize, hscan⟩ := exists_madeBehind hnames hopen hslash
      (mem_inheritanceEdits.2 ⟨s, hs, .inr hinherit⟩)
    have hseen := hscan.trans
      (scan_of_not_mem (hstatement.not_mem_header (by decide) (by decide)) q)
    refine ⟨w, start, stop, p, hw, hstands, fun u w' v heq hw' => ?_, hp, x, blankComments q, ?_, ?_, ?_⟩
    · obtain ⟨start', stop', hheader', hle⟩ := hfirst u w' v heq hw'
      rw [hheader] at hheader'
      cases hheader'
      rwa [Nat.zero_add] at hle
    · rw [hseen.blankComments_eq, List.append_assoc]
      rfl
    · rw [Nat.zero_add, hsize]
    · rw [Text.size_append]
      rfl

/-- A comment in a statement, and a header on two lines behind one in a comment. -/
theorem exists_header_of_mem_detected_comments :
    let t : Text := "A implements /* no */ B;\n/* interface A \x7b */ interface A\n\x7b\x7d;"
    let s : Implementation := ⟨"A", "B", 0, 24⟩
    let m : Text := "interface A\n\x7b"
    s ∈ detected t ∧ IsHeader s.left m ∧ m <:+: blankComments t ∧
      inheritance t =
        "/* A implements /* no * / B; */\n/* interface A \x7b */ interface A: B \x7b\x7d;" ∧
      ∃ w start stop p, IsHeader s.left w ∧ (blankComments t).Stands 0 start stop w ∧
        MadeBehind t ⟨start, stop, "interface A: B \x7b"⟩ p ∧
        (blankComments (inheritance t)).Stands 0 p.size (p ++ s.header).size "interface A: B \x7b" := by
  repeat rw [Text.ofString_ofList]
  intro t s m
  have hslash : .char '/' ∉ blankComments t := by decide +kernel
  have hs : s ∈ detected t := by decide +kernel
  have hm : IsHeader s.left m := ⟨" ", "\n", rfl, by decide, by decide, by decide⟩
  have hwithin : m <:+: blankComments t := by decide +kernel
  obtain ⟨-, w, start, stop, p, hw, hstands, -, hp, hseen⟩ :=
    exists_header_of_mem_detected (by decide +kernel)
      (fun h => hslash (h.subset List.mem_cons_self))
      (fun _ _ _ _ heq => absurd (heq ▸ List.mem_append_right _ List.mem_cons_self) hslash) hs hm hwithin
  refine ⟨hs, hm, hwithin, ?_, w, start, stop, p, hw, hstands, hp, hseen⟩
  rw [inheritance, Edit.applyAll_of_perm (.refl _) (by decide +kernel)]
  decide +kernel

/-- A statement, the only one of its left name, becomes a comment, and the header with its relation
does not stand outside comments. -/
def LosesRelation (t : Text) : Prop :=
  ((detected t).map (·.left)).Nodup ∧ ∃ s ∈ detected t,
    Text.concat ["/* ", Text.replace "*/" "* /" (t.slice s.start s.stop), " */"] <:+: inheritance t ∧
      ¬ Text.concat ["interface ", s.left, ": ", s.right, " \x7b"] <:+: blankComments (inheritance t)

/-- Relations that are lost: of a statement without a header, of one behind a slash, and of one that
ends a comment that was left open. -/
theorem losesRelation_without_header :
    LosesRelation "A implements B;" ∧ LosesRelation "/A implements B; interface A \x7b\x7d;" ∧
      LosesRelation "/* interface A \x7b\x7d;\nA implements B;" := by
  repeat rw [Text.ofString_ofList]
  refine ⟨?_, ?_, ?_⟩
  · rw [LosesRelation, inheritance, Edit.applyAll_of_perm (.refl _) (by decide +kernel)]
    decide +kernel
  · rw [LosesRelation, inheritance, Edit.applyAll_of_perm (.refl _) (by decide +kernel)]
    decide +kernel
  · rw [LosesRelation, inheritance,
      Edit.applyAll_of_perm (List.reverse_perm _) (by decide +kernel)]
    decide +kernel

end IdlTypings.Dialect
