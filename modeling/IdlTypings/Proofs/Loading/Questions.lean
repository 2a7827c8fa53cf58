import IdlTypings.Proofs.Loading.Links
import Mathlib.Logic.Relation
import Mathlib.Order.WellFounded

/-!
# What loading asks for

Loading asks its host for one document after the other. If files link to each other without end it
does not return, and otherwise it does (`Loading.asks_of_load`).
-/

namespace IdlTypings

/-! ## Questions among surroundings -/

namespace Surroundings

/-- The questions `qs` were asked, and nothing was changed. -/
structure Asked (w : Surroundings) (qs : List Question) (w' : Surroundings) : Prop where
  input : w'.input = w.input
  files : w'.files = w.files
  replies : w'.replies = w.replies
  asked : w'.asked = w.asked ++ qs

theorem Asked.refl (w : Surroundings) : w.Asked [] w := ⟨rfl, rfl, rfl, (List.append_nil _).symm⟩

theorem Asked.trans {w w' w'' : Surroundings} {qs qs' : List Question} (h : w.Asked qs w')
    (h' : w'.Asked qs' w'') : w.Asked (qs ++ qs') w'' where
  input := h'.input.trans h.input
  files := h'.files.trans h.files
  replies := h'.replies.trans h.replies
  asked := by rw [h'.asked, h.asked, List.append_assoc]

/-- What the document holds that a question asks for. -/
def content (w : Surroundings) : Question → Option Text
  | .input => w.input.toOption
  | .file path => (w.files.read path).toOption
  | .page address =>
    match (exchange w.replies address).1 with
    | .error _ => none
    | .ok (_, reply) => if reply.status = 200 then some reply.body else none

theorem Asked.content_eq {w w' : Surroundings} {qs : List Question} (h : w.Asked qs w') (q : Question) :
    w'.content q = w.content q := by
  cases q with
  | input => rw [content, h.input, content]
  | file path => rw [content, h.files, content]
  | page address => rw [content, h.replies, content]

variable (w : Surroundings) (timeout : Int)

theorem run_readInput : ∃ w', host.readInput.run w = some (w.input, w') ∧ w.Asked [.input] w' :=
  ⟨_, rfl, rfl, rfl, rfl, rfl⟩

theorem run_readFile (path : Text) :
    ∃ w', (host.readFile path).run w = some (w.files.read path, w') ∧ w.Asked [.file path] w' :=
  ⟨_, rfl, rfl, rfl, rfl, rfl⟩

theorem run_get (address : Url) : ∃ w',
    (host.get timeout address).run w = some ((exchange w.replies address).1, w') ∧
      w.Asked [.page address] w' :=
  ⟨_, rfl, rfl, rfl, rfl, rfl⟩

/-! ## Repetition -/

section

variable {σ α : Type} {step : σ → Action (σ ⊕ α)} {s s' : σ} {a : α} {w w' : Surroundings}

theorem run_loop (step : σ → Action (σ ⊕ α)) (s : σ) (w : Surroundings) :
    StateT.run (Loops.loop step s) w = (step s).run w >>= fun
      | (.inl s, w) => StateT.run (Loops.loop step s) w
      | (.inr a, w) => some (a, w) :=
  loopFrom.eq_1 step s w

theorem run_loop_of_inl (h : (step s).run w = some (.inl s', w')) :
    StateT.run (Loops.loop step s) w = StateT.run (Loops.loop step s') w' := by
  rw [run_loop, h]
  rfl

theorem run_loop_of_inr (h : (step s).run w = some (.inr a, w')) :
    StateT.run (Loops.loop step s) w = some (a, w') := by
  rw [run_loop, h]
  rfl

/-- A repetition goes on forever if some invariant makes every step lead to another one. -/
theorem run_loop_eq_none {P : σ → Surroundings → Prop}
    (hstep : ∀ s w, P s w → ∃ s' w', (step s).run w = some (.inl s', w') ∧ P s' w') (h : P s w) :
    StateT.run (Loops.loop step s) w = none := by
  have hforever : ∀ s w r, loopFrom step s w = some r → ¬ P s w := by
    refine loopFrom.partial_correctness step (fun s w _ => ¬ P s w) ?_
    intro go hgo s w r hr hP
    obtain ⟨s', w', hrun, hP'⟩ := hstep s w hP
    rw [hrun] at hr
    exact hgo s' w' r hr hP'
  exact Option.eq_none_iff_forall_ne_some.2 fun r hr => hforever s w r hr h

end

end Surroundings

namespace Loading

open Surroundings

variable {markup : Text → List Markup.Node} (timeout : Int) {w : Surroundings}

/-! ## Pages -/

theorem run_loadReply (raw : Text) (w : Surroundings) :
    (∃ e, (loadReply host timeout raw).run w = some (.error e, w)) ∨
      ∃ u r w', (loadReply host timeout raw).run w = some (r, w') ∧ w.Asked [.page u] w' ∧
        (r.map fun r => r.2.body).toOption = w.content (.page u) := by
  unfold loadReply
  rcases requestAddress raw with fault | u
  · exact .inl ⟨_, rfl⟩
  · obtain ⟨w', hrun, hasked⟩ := run_get w timeout u
    refine .inr ⟨u, ?_⟩
    simp only [StateT.run_bind, hrun, content]
    rcases (exchange w.replies u).1 with message | ⟨u', reply⟩
    · exact ⟨_, w', rfl, hasked, rfl⟩
    · by_cases hstatus : reply.status = 200
      · exact ⟨.ok (u', reply), w', by simp [hstatus], hasked, by simp [hstatus, Except.map, Except.toOption]⟩
      · exact ⟨.error (.status raw reply.status), w', by simp [hstatus], hasked,
          by simp [hstatus, Except.map, Except.toOption]⟩

/-- What is left to do asks for one page at most, and takes it as it is. -/
def TakesPage (w : Surroundings) (x : Option (Except Error Text × Surroundings)) : Prop :=
  ∃ (us : List Url) (r : _) (w' : _), x = some (r, w') ∧ w.Asked (us.map .page) w' ∧ us.length ≤ 1 ∧
    ∀ u ∈ us, r.toOption = w.content (.page u)

theorem takesPage_some (w : Surroundings) (r : Except Error Text) : TakesPage w (some (r, w)) :=
  ⟨[], r, w, rfl, .refl w, Nat.zero_le _, nofun⟩

theorem takesPage_loadLinked (raw : Text) (w : Surroundings) :
    TakesPage w ((loadLinked host timeout raw).run w) := by
  rw [loadLinked, StateT.run_bind]
  rcases run_loadReply timeout raw w with ⟨e, hrun⟩ | ⟨u, r, w', hrun, hasked, hcontent⟩ <;> rw [hrun]
  · exact takesPage_some w _
  · exact ⟨[u], _, w', rfl, hasked, Nat.le_refl _, List.forall_mem_singleton.2 hcontent⟩

theorem TakesPage.behind {u : Url} {w₁ : Surroundings} (hasked : w.Asked [.page u] w₁)
    {x : Option (Except Error Text × Surroundings)} (h : TakesPage w₁ x) :
    ∃ (us : List Url) (r : _) (w' : _), x = some (r, w') ∧ w.Asked (us.map .page) w' ∧
      us.length ≤ 2 ∧ ∀ u v, us = [u, v] → r.toOption = w.content (.page v) := by
  obtain ⟨us, r, w', hx, hasked', hlength, htaken⟩ := h
  refine ⟨u :: us, r, w', hx, hasked.trans hasked', Nat.succ_le_succ hlength, ?_⟩
  rintro u v ⟨⟩
  rw [← hasked.content_eq]
  exact htaken v (List.mem_singleton_self v)

/-- A page links to one page at most, which is taken as it is. -/
theorem run_loadPage (markup : Text → List Markup.Node) (raw : Text) (w : Surroundings) :
    ∃ (us : List Url) (r : _) (w' : _), (loadPage markup host timeout raw).run w = some (r, w') ∧
      w.Asked (us.map .page) w' ∧ us.length ≤ 2 ∧
      ∀ u v, us = [u, v] → r.toOption = w.content (.page v) := by
  rw [loadPage, StateT.run_bind]
  rcases run_loadReply timeout raw w with ⟨e, hrun⟩ | ⟨u, r, w₁, hrun, hasked, -⟩ <;> rw [hrun]
  · exact ⟨[], _, w, rfl, .refl w, Nat.zero_le _, nofun⟩
  refine TakesPage.behind hasked ?_
  rcases r with e | ⟨u, reply⟩
  · exact takesPage_some w₁ _
  simp only [Option.bind_eq_bind, Option.bind_some]
  split
  · exact takesPage_some w₁ _
  cases Extract.ofNodes (markup reply.body) with
  | source | nothing => exact takesPage_some w₁ _
  | link link =>
    dsimp only
    rcases linkedAddress raw link with e | raw
    · exact takesPage_some w₁ _
    · exact takesPage_loadLinked timeout raw w₁

/-! ## Files -/

/-- A text is the address of a page. -/
def IsWeb (t : Text) : Prop := "http://" <+: t ∨ "https://" <+: t

instance (t : Text) : Decidable (IsWeb t) := inferInstanceAs (Decidable (_ ∨ _))

theorem isAddress_iff {t : Text} : isAddress t = true ↔ IsWeb t := by
  rw [isAddress, Bool.or_eq_true, Text.startsWith, Text.startsWith, List.isPrefixOf_iff_prefix,
    List.isPrefixOf_iff_prefix, IsWeb]

/-- A path names a document in markup. -/
def IsMarkup (path : Text) : Prop :=
  (Path.extension path).lower = ".html" ∨ (Path.extension path).lower = ".htm"

instance (path : Text) : Decidable (IsMarkup path) := inferInstanceAs (Decidable (_ ∨ _))

theorem isMarkupPath_iff {path : Text} : isMarkupPath path = true ↔ IsMarkup path := by
  rw [isMarkupPath, Bool.or_eq_true, beq_iff_eq, beq_iff_eq, IsMarkup]

/-- A file that is a document in markup links to another file. -/
def LinksTo (markup : Text → List Markup.Node) (files : Files) (path next : Text) : Prop :=
  IsMarkup path ∧ ∃ t link, files.read path = .ok t ∧ Extract.ofNodes (markup t) = .link link ∧
    ¬ IsWeb link ∧ next = Path.join (Path.directory path) link

/-- A file that links to another one is read, and leads on to that. -/
theorem run_openFile_of_linksTo {path next : Text} (h : LinksTo markup w.files path next) :
    ∃ w', (openFile markup host timeout path).run w = some (.inl next, w') ∧
      w.Asked [.file path] w' := by
  obtain ⟨hmarkup, t, link, hfile, hlink, hweb, rfl⟩ := h
  obtain ⟨w', hrun, hasked⟩ := run_readFile w path
  rw [← isMarkupPath_iff] at hmarkup
  rw [← isAddress_iff] at hweb
  refine ⟨w', ?_, hasked⟩
  rw [openFile, StateT.run_bind, hrun, hfile]
  simp [hmarkup, hlink, hweb]

/-- A file that links to no other file is the last one that is asked for. -/
theorem run_openFile_of_not_linksTo {path : Text} (h : ∀ next, ¬ LinksTo markup w.files path next) :
    ∃ (us : List Url) (r : _) (w' : _),
      (openFile markup host timeout path).run w = some (.inr r, w') ∧
      w.Asked (.file path :: us.map .page) w' ∧ us.length ≤ 1 ∧
      (∀ u ∈ us, r.toOption = w.content (.page u)) ∧
      (¬ IsMarkup path → us = [] ∧ r.toOption = w.content (.file path)) := by
  obtain ⟨w₁, hrun, hasked⟩ := run_readFile w path
  rw [openFile, StateT.run_bind, hrun]
  rcases hfile : w.files.read path with failure | t
  · exact ⟨[], _, w₁, rfl, hasked, Nat.zero_le _, nofun, fun _ => ⟨rfl, by rw [content, hfile]; rfl⟩⟩
  by_cases hmarkup : IsMarkup path
  · have hstop {r : Except Error Text} : ∃ (us : List Url) (r' : _) (w' : _),
        some (Sum.inr (α := Text) r, w₁) = some (.inr r', w') ∧
        w.Asked (.file path :: us.map .page) w' ∧ us.length ≤ 1 ∧
        (∀ u ∈ us, r'.toOption = w.content (.page u)) ∧
        (¬ IsMarkup path → us = [] ∧ r'.toOption = w.content (.file path)) :=
      ⟨[], r, w₁, rfl, hasked, Nat.zero_le _, nofun, absurd hmarkup⟩
    simp only [Option.bind_eq_bind, Option.bind_some, isMarkupPath_iff.2 hmarkup]
    cases hextract : Extract.ofNodes (markup t) with
    | source | nothing => exact hstop
    | link link =>
      by_cases hweb : IsWeb link
      · obtain ⟨us, r, w', hrun', hasked', hlength, htaken⟩ := takesPage_loadLinked timeout link w₁
        refine ⟨us, r, w', ?_, hasked.trans hasked', hlength, fun u hu => ?_, absurd hmarkup⟩
        · simp [isAddress_iff.2 hweb, hrun']
        · rw [← hasked.content_eq]
          exact htaken u hu
      · exact absurd ⟨hmarkup, t, link, hfile, hextract, hweb, rfl⟩ (h _)
  · refine ⟨[], .ok t, w₁, ?_, hasked, Nat.zero_le _, nofun, fun _ => ⟨rfl, by rw [content, hfile]; rfl⟩⟩
    rw [← isMarkupPath_iff] at hmarkup
    simp [hmarkup]

/-- The files `path` and `ps` are read, and then the pages `us`; that gives `r`. -/
structure Reads (markup : Text → List Markup.Node) (w : Surroundings) (path : Text) (ps : List Text)
    (us : List Url) (r : Except Error Text) (w' : Surroundings) : Prop where
  asked : w.Asked ((path :: ps).map .file ++ us.map .page) w'
  /-- Each file links to the next one. -/
  chain : (path :: ps).IsChain (LinksTo markup w.files)
  /-- A page is asked for only if the last file is a document in markup. -/
  isMarkup : us ≠ [] → IsMarkup ((path :: ps).getLast (List.cons_ne_nil _ _))
  length_le : us.length ≤ 1
  /-- The page is taken as it is. -/
  page : ∀ u ∈ us, r.toOption = w.content (.page u)
  /-- The last file is taken as it is, unless it is a document in markup. -/
  file : ¬ IsMarkup ((path :: ps).getLast (List.cons_ne_nil _ _)) →
    r.toOption = w.content (.file ((path :: ps).getLast (List.cons_ne_nil _ _)))

/-- Each file links to the next one, without end. -/
def Endless (markup : Text → List Markup.Node) (files : Files) (path : Text) : Prop :=
  ∃ paths : Nat → Text, paths 0 = path ∧ ∀ n, LinksTo markup files (paths n) (paths (n + 1))

/-- Files whose links do not go on without end are read one behind the other. -/
theorem exists_reads {files : Files} {path : Text}
    (h : Acc (fun q p => LinksTo markup files p q) path) (hfiles : w.files = files) :
    ∃ ps us r w', (loadFile markup host timeout path).run w = some (r, w') ∧
      Reads markup w path ps us r w' := by
  induction h generalizing w with
  | intro path _ ih =>
    subst hfiles
    by_cases hlinks : ∃ next, LinksTo markup w.files path next
    · obtain ⟨next, hnext⟩ := hlinks
      obtain ⟨w₁, hrun, hasked⟩ := run_openFile_of_linksTo timeout hnext
      obtain ⟨ps, us, r, w', hrun', hreads⟩ := ih next hnext hasked.files
      refine ⟨next :: ps, us, r, w', (run_loop_of_inl hrun).trans hrun', hasked.trans hreads.asked,
        .cons_cons hnext (hasked.files ▸ hreads.chain), hreads.isMarkup, hreads.length_le,
        fun u hu => ?_, fun hlast => ?_⟩
      · rw [← hasked.content_eq]
        exact hreads.page u hu
      · rw [← hasked.content_eq]
        exact hreads.file hlast
    · obtain ⟨us, r, w', hrun, hasked, hlength, hpage, hfile⟩ :=
        run_openFile_of_not_linksTo timeout (not_exists.1 hlinks)
      refine ⟨[], us, r, w', run_loop_of_inr hrun, hasked, .singleton _, fun hne => ?_, hlength, hpage,
        fun hlast => (hfile hlast).2⟩
      by_contra hlast
      exact hne (hfile hlast).1

theorem endless_iff_not_acc {files : Files} {path : Text} :
    Endless markup files path ↔ ¬ Acc (fun q p => LinksTo markup files p q) path :=
  (not_acc_iff_exists_descending_chain (r := fun q p => LinksTo markup files p q)).symm

/-- Files whose links go on without end are read forever. -/
theorem run_loadFile_of_endless {path : Text} (h : Endless markup w.files path) :
    (loadFile markup host timeout path).run w = none := by
  refine run_loop_eq_none (P := fun path w => Endless markup w.files path) ?_ h
  rintro _ w ⟨paths, rfl, hpaths⟩
  obtain ⟨w', hrun, hasked⟩ := run_openFile_of_linksTo timeout (hpaths 0)
  exact ⟨_, w', hrun, fun n => paths (n + 1), rfl, fun n => hasked.files ▸ hpaths (n + 1)⟩

/-- Links that lead back to where they start go on without end. -/
theorem endless_of_transGen {files : Files} {path : Text}
    (h : Relation.TransGen (LinksTo markup files) path path) : Endless markup files path := by
  rw [endless_iff_not_acc]
  intro hacc
  induction hacc with
  | intro p _ ih =>
    obtain ⟨q, hq, hback⟩ := Relation.TransGen.head'_iff.1 h
    exact ih q hq (.tail' hback hq)

section

variable {path : Text} (hbare : ∀ t link, w.files.read path = .ok t →
  Extract.ofNodes (markup t) = .link link → IsBare link)

include hbare

/-- A link without query and fragment leads to a file that is no document in markup. -/
theorem not_isMarkup_of_linksTo {next : Text} (h : LinksTo markup w.files path next) :
    ¬ IsMarkup next := by
  obtain ⟨-, t, link, hfile, hlink, -, rfl⟩ := h
  rw [← isMarkupPath_iff, not_isMarkupPath_join (isLink_of_ofNodes hlink) (hbare t link hfile hlink)]
  exact Bool.false_ne_true

theorem acc_of_isBare : Acc (fun q p => LinksTo markup w.files p q) path :=
  .intro path fun _ hnext => .intro _ fun _ h => absurd h.1 (not_isMarkup_of_linksTo hbare hnext)

/-- Only one link is followed then, and what it leads to is taken as it is. -/
theorem Reads.of_isBare {ps : List Text} {us : List Url} {r : Except Error Text} {w' : Surroundings}
    (h : Reads markup w path ps us r w') :
    ((path :: ps).map Question.file ++ us.map Question.page).length ≤ 2 ∧
      ∀ q q', (path :: ps).map .file ++ us.map .page = [q, q'] → r.toOption = w.content q' := by
  cases ps with
  | nil =>
    have hlength := h.length_le
    refine ⟨by simpa using hlength, fun q q' hqs => ?_⟩
    match us, hqs with
    | [u], hqs =>
      obtain rfl : Question.page u = q' := by simpa using (List.cons.inj hqs).2
      exact h.page u (List.mem_singleton_self u)
  | cons next ps =>
    have hchain := h.chain
    rw [List.isChain_cons_cons] at hchain
    have hnot := not_isMarkup_of_linksTo hbare hchain.1
    -- the file is no document in markup, so that it is the last one and links to no page
    obtain rfl : ps = [] := by
      cases ps with
      | nil => rfl
      | cons => exact absurd (List.isChain_cons_cons.1 hchain.2).1.1 hnot
    obtain rfl : us = [] := by
      by_contra hne
      exact hnot (h.isMarkup hne)
    refine ⟨Nat.le_refl _, fun q q' hqs => ?_⟩
    obtain rfl := (List.cons.inj (List.cons.inj hqs).2).1
    exact h.file hnot

end

/-! ## Loading -/

def IsPath (input : Text) : Prop := input ≠ "-" ∧ ¬ IsWeb input

/-- What loading `input` asks for among the surroundings `w`, and whether it returns. -/
structure Follows (markup : Text → List Markup.Node) (w : Surroundings) (input : Text)
    (x : Option (Except Error Text × Surroundings)) : Prop where
  /-- The standard input is read once. -/
  standard : input = "-" →
    ∃ r w', x = some (r, w') ∧ w.Asked [.input] w' ∧ r.toOption = w.content .input
  /-- A page is asked for, and at most one more, which is taken as it is. -/
  page : input ≠ "-" → IsWeb input →
    ∃ (us : List Url) (r : _) (w' : _), x = some (r, w') ∧ w.Asked (us.map .page) w' ∧
      us.length ≤ 2 ∧ ∀ u v, us = [u, v] → r.toOption = w.content (.page v)
  /-- Files are read one behind the other, as long as each links to the next one. -/
  file : IsPath input → ¬ Endless markup w.files input →
    ∃ ps us r w', x = some (r, w') ∧ Reads markup w input ps us r w'
  /-- If that goes on without end, loading does not return. -/
  endless : IsPath input → Endless markup w.files input → x = none
  /-- So it is if links lead back to the first file. -/
  circle : IsPath input →
    Relation.TransGen (LinksTo markup w.files) input input → x = none
  /-- If the first file has no link with a query or a fragment, loading returns, only one link is
  followed, and what it leads to is taken as it is. -/
  bare : IsPath input →
    (∀ t link, w.files.read input = .ok t → Extract.ofNodes (markup t) = .link link → IsBare link) →
    ∃ (qs : List Question) (r : _) (w' : _), x = some (r, w') ∧ w.Asked qs w' ∧ qs.length ≤ 2 ∧
      ∀ q q', qs = [q, q'] → r.toOption = w.content q'

theorem load_of_isPath {input : Text} (h : IsPath input) :
    load markup host timeout input = loadFile markup host timeout input := by
  rw [load, if_neg h.1, if_neg (mt isAddress_iff.1 h.2)]

/-- Loading changes nothing, if it returns. -/
theorem files_of_load {input : Text} {r : Except Error Text} {w' : Surroundings}
    (h : (load markup host timeout input).run w = some (r, w')) : w'.files = w.files := by
  by_cases hinput : input = "-"
  · obtain ⟨w₁, hrun, hasked⟩ := run_readInput w
    rw [load, if_pos hinput, StateT.run_bind, hrun] at h
    cases h
    exact hasked.files
  by_cases hweb : IsWeb input
  · obtain ⟨us, r₁, w₁, hrun, hasked, -⟩ := run_loadPage timeout markup input w
    rw [load, if_neg hinput, if_pos (isAddress_iff.2 hweb), hrun] at h
    cases h
    exact hasked.files
  rw [load_of_isPath timeout ⟨hinput, hweb⟩] at h
  by_cases hacc : Acc (fun q p => LinksTo markup w.files p q) input
  · obtain ⟨ps, us, r₁, w₁, hrun, hreads⟩ := exists_reads timeout hacc rfl
    rw [hrun] at h
    cases h
    exact hreads.asked.files
  · rw [run_loadFile_of_endless timeout (endless_iff_not_acc.2 hacc)] at h
    contradiction

/-- Loading follows links, whatever the reader of markup finds in documents: one from page to page, but
any number from file to file. -/
theorem asks_of_load (markup : Text → List Markup.Node) (input : Text) (w : Surroundings) :
    Follows markup w input ((load markup host timeout input).run w) := by
  have hendless (hpath : IsPath input) (h : Endless markup w.files input) :
      (load markup host timeout input).run w = none := by
    rw [load_of_isPath timeout hpath]
    exact run_loadFile_of_endless timeout h
  refine ⟨fun hinput => ?_, fun hinput hweb => ?_, fun hpath h => ?_, hendless,
    fun hpath h => hendless hpath (endless_of_transGen h), fun hpath hbare => ?_⟩
  · obtain ⟨w', hrun, hasked⟩ := run_readInput w
    rw [load, if_pos hinput, StateT.run_bind, hrun]
    refine ⟨_, w', rfl, hasked, ?_⟩
    rw [content]
    rcases w.input with message | t <;> rfl
  · rw [load, if_neg hinput, if_pos (isAddress_iff.2 hweb)]
    exact run_loadPage timeout markup input w
  · rw [load_of_isPath timeout hpath]
    exact exists_reads timeout (not_not.1 (mt endless_iff_not_acc.2 h)) rfl
  · obtain ⟨ps, us, r, w', hrun, hreads⟩ := exists_reads timeout (acc_of_isBare hbare) rfl
    rw [load_of_isPath timeout hpath]
    exact ⟨_, r, w', hrun, hreads.asked, hreads.of_isBare hbare⟩

/-- Three files, of which the first links to the second by an address with a query, and the second is a
document in markup for the end of the query. -/
def linkedFiles : Files where
  working := []
  entries :=
    [("/index.html", "<a href=\"b.idl?x.html\">b</a>"), ("/b.idl?x.html", "<a href=\"c.idl\">c</a>"),
      ("/c.idl", "interface C \x7b\x7d;")]

def circularFiles : Files := ⟨[], [("/b.idl?b.html", "<a href=\"b.idl?b.html\">b</a>")]⟩

theorem asks_of_load_circularFiles :
    let w : Surroundings := ⟨.error [], circularFiles, [], [], []⟩
    (load Markup.parse host 0 "b.idl?b.html").run w = none := by
  intro w
  refine (asks_of_load 0 Markup.parse "b.idl?b.html" w).circle ⟨by decide, by decide⟩ (.single ?_)
  exact ⟨by decide, "<a href=\"b.idl?b.html\">b</a>", "b.idl?b.html", by decide +kernel,
    by decide +kernel, by decide, by decide +kernel⟩

/-- Three files are read, and the second one that the first links to is searched. -/
theorem load_linkedFiles :
    let w : Surroundings := ⟨.error [], linkedFiles, [], [], []⟩
    ∃ r w', (load Markup.parse host 0 "index.html").run w = some (r, w') ∧
      w.Asked [.file "index.html", .file "b.idl?x.html", .file "c.idl"] w' ∧
      r.toOption = some (Text.ofString "interface C \x7b\x7d;") := by
  intro w
  have hfirst : LinksTo Markup.parse w.files "index.html" "b.idl?x.html" :=
    ⟨by decide, "<a href=\"b.idl?x.html\">b</a>", "b.idl?x.html", by decide +kernel,
      by decide +kernel, by decide, by decide +kernel⟩
  have hsecond : LinksTo Markup.parse w.files "b.idl?x.html" "c.idl" :=
    ⟨by decide, "<a href=\"c.idl\">c</a>", "c.idl", by decide +kernel,
      by decide +kernel, by decide, by decide +kernel⟩
  have hlast : ¬ IsMarkup "c.idl" := by decide
  obtain ⟨w₁, hrun₁, hasked₁⟩ := run_openFile_of_linksTo 0 hfirst
  rw [← hasked₁.files] at hsecond
  obtain ⟨w₂, hrun₂, hasked₂⟩ := run_openFile_of_linksTo 0 hsecond
  have hthird : ∀ next, ¬ LinksTo Markup.parse w₂.files "c.idl" next := fun _ h => hlast h.1
  obtain ⟨us, r, w', hrun₃, hasked₃, -, -, htaken⟩ := run_openFile_of_not_linksTo 0 hthird
  obtain ⟨rfl, hcontent⟩ := htaken hlast
  refine ⟨r, w', ?_, (hasked₁.trans hasked₂).trans hasked₃, ?_⟩
  · rw [load_of_isPath 0 ⟨by decide, by decide⟩, loadFile, run_loop_of_inl hrun₁, run_loop_of_inl hrun₂,
      run_loop_of_inr hrun₃]
  · rw [hcontent, hasked₂.content_eq, hasked₁.content_eq]
    decide +kernel

end Loading

end IdlTypings
