import IdlTypings.Command
import IdlTypings.Proofs.Command.Files
import IdlTypings.Proofs.Lowering.Noninterference

/-!
# What the conversion command does

A command line asks for a conversion if it starts with no other command, its settings can be loaded
and its flags can be read (`Command.Asks`).
-/

namespace IdlTypings.Command

/-! ## Conversions that are asked for -/

theorem eq_ok_of_toOption {ε α : Type} {x : Except ε α} {a : α} (h : x.toOption = some a) : x = .ok a := by
  cases x with
  | error e => cases h
  | ok b => exact congrArg _ (Option.some.inj h)

def otherCommands : List String := ["init", "version", "help", "-h", "--help", "parse", "repl"]

/-- The arguments ask for a conversion with the settings `s` and the flags `a`; the surroundings are `w₁`
once the settings are loaded. -/
structure Asks (readers : Readers) (w : Surroundings) (e : Environment) (arguments : List Text)
    (s : Settings) (a : Flag.Arguments) (w₁ : Surroundings) : Prop where
  first : ∃ t ts, (takeSettingsPath [] arguments).1 = t :: ts ∧ ∀ word ∈ otherCommands, t.string? ≠ some word
  settings : (Settings.load readers.settings Surroundings.host (takeSettingsPath [] arguments).2
    e.settingsPath).run w = some (.ok s, w₁)
  flags : readers.flags convertFlags (takeSettingsPath [] arguments).1 = .ok a

theorem runWith_of_first {m : Type → Type} [Monad m] [Loops m] (readers : Readers) (host : Host m)
    (e : Environment) (s : Settings) {t : Text} (ts : List Text)
    (h : ∀ word ∈ otherCommands, t.string? ≠ some word) :
    runWith readers host e s (t :: ts) = runConvert readers host e.colours s (t :: ts) := by
  unfold runWith
  split
  · next hword => exact absurd hword (h "parse" (by decide))
  · next hword => exact absurd hword (h "repl" (by decide))
  · rfl

open Surroundings (Action)

variable {readers : Readers} {w w₁ : Surroundings} {e : Environment} {arguments : List Text}
  {s : Settings} {a : Flag.Arguments}

/-- The other commands are passed by, and the settings are loaded. -/
theorem Asks.run_eq (h : Asks readers w e arguments s a w₁) :
    (run readers Surroundings.host e arguments).run w =
      (match Conversion.ofArguments s a with
      | .error message => (pure ⟨1, [], Text.concat ["Error: ", message, "\n", convertUsage]⟩ :
          Action Outcome)
      | .ok c => c.run readers Surroundings.host e.colours).run w₁ := by
  obtain ⟨⟨t, ts, hrest, hfirst⟩, hsettings, hflags⟩ := h
  unfold run
  generalize takeSettingsPath [] arguments = taken at *
  obtain ⟨rest, path⟩ := taken
  obtain rfl : rest = t :: ts := hrest
  dsimp only at hsettings hflags ⊢
  split
  · next hword => exact absurd hword (hfirst "init" (by decide))
  · next hword => exact absurd hword (hfirst "version" (by decide))
  · next hword => exact absurd hword (hfirst "help" (by decide))
  · next hword => exact absurd hword (hfirst "-h" (by decide))
  · next hword => exact absurd hword (hfirst "--help" (by decide))
  · rw [StateT.run_bind, hsettings, Option.bind_eq_bind, Option.bind_some]
    dsimp only
    rewrite [runWith_of_first _ _ e s ts hfirst, runConvert, hflags]
    rfl

/-! ## The effect of a conversion -/

/-- What a command leaves behind apart from its reports: its status, its output and what is around it. -/
def withoutReports (x : Option (Outcome × Surroundings)) : Option (Nat × Text × Surroundings) :=
  x.map fun r => (r.1.status, r.1.output, r.2)

/-- What a conversion of something that was loaded leaves behind. -/
def effectOf (w : Surroundings) (out : Text) (o : Options) :
    Except Loading.Error Text → Nat × Text × Surroundings
  | .error _ => (1, [], w)
  | .ok t =>
    match convert o t with
    | .error _ => (1, [], w)
    | .ok c =>
      let status := if o.strict = true ∧ c.diagnostics ≠ [] then 1 else 0
      if out = "-" then (status, c.output ++ [.char '\n'], w)
      else
        match w.files.write out c.output with
        | .error _ => (1, [], w)
        | .ok files => (status, [], { w with files })

def effect (markup : Text → List Markup.Node) (w : Surroundings) (timeout : Int) (input out : Text)
    (o : Options) : Option (Nat × Text × Surroundings) :=
  if input = [] ∨ out = [] then some (1, [], w)
  else ((Loading.load markup Surroundings.host timeout input).run w).map fun (loaded, w) =>
    effectOf w out o loaded

/-- There are errors if and only if there are diagnostics and these are strict. -/
theorem errorCount_pos_iff {o : Options} {t : Text} {c : IdlTypings.Conversion}
    (h : convert o t = .ok c) :
    0 < Reporter.errorCount c.diagnostics ↔ o.strict = true ∧ c.diagnostics ≠ [] := by
  have hrated : ∀ g ∈ c.diagnostics, g.severity = o.severity := by
    rw [convert_eq_map] at h
    rcases hparse : parseFor o.mode t with x | d <;> rw [hparse] at h <;> cases h
    simp
  have hstrict : o.severity = .error ↔ o.strict = true := by
    unfold Options.severity
    split <;> simp_all
  rw [Reporter.errorCount, List.countP_pos_iff, ← hstrict]
  simp only [decide_eq_true_eq]
  constructor
  · rintro ⟨g, hg, herror⟩
    exact ⟨hrated g hg ▸ herror, List.ne_nil_of_mem hg⟩
  · rintro ⟨herror, hne⟩
    obtain ⟨g, hg⟩ := List.exists_mem_of_ne_nil _ hne
    exact ⟨g, hg, (hrated g hg).trans herror⟩

theorem withoutReports_run (w : Surroundings) (colours : Bool) {c : Conversion} (hin : c.input ≠ [])
    (hout : c.out ≠ []) :
    withoutReports ((c.run readers Surroundings.host colours).run w) =
      effect readers.markup w c.timeout c.input c.out c.options := by
  rw [Conversion.run, StateT.run_bind, effect, if_neg (by simp [hin, hout])]
  rcases (Loading.load readers.markup Surroundings.host c.timeout c.input).run w with _ | ⟨loaded, w₁⟩
  · rfl
  rcases loaded with x | t
  · rfl
  simp only [Option.map_some, effectOf, Option.bind_eq_bind, Option.bind_some]
  rcases hconvert : convert c.options t with x | result
  · rfl
  dsimp only
  rw [Conversion.finish]
  simp only [← errorCount_pos_iff hconvert]
  split
  · rfl
  · have hwrite : (Surroundings.host.writeFile c.out result.output).run w₁ = _ :=
      Surroundings.run_change (fun files => files.write c.out result.output) w₁
    rw [StateT.run_bind, hwrite]
    rcases w₁.files.write c.out result.output with failure | files <;> rfl

theorem ofArguments_eq (s : Settings) (a : Flag.Arguments) :
    let input := (a.text? "in").getD []
    let out := (a.text? "out").getD []
    Conversion.ofArguments s a =
      if input = [] then .error "missing required flag -i/--in"
      else if out = [] then .error "missing required flag -o/--out"
      else .ok ⟨input, out, (a.switch? "quiet").getD false, (a.switch? "verbose").getD false,
        (a.number? "timeout").getD s.fetchTimeout, optionsOf s a⟩ := by
  intro input out
  unfold Conversion.ofArguments
  simp only [List.isEmpty_iff]
  by_cases hin : input = []
  · rw [if_pos hin, if_pos hin]
    rfl
  rw [if_neg hin, if_neg hin]
  by_cases hout : out = []
  · rw [if_pos hout, if_pos hout]
    rfl
  · rw [if_neg hout, if_neg hout]
    rfl

/-- What is left behind does not depend on the flags for reports. -/
theorem Asks.withoutReports_eq (h : Asks readers w e arguments s a w₁) :
    withoutReports ((run readers Surroundings.host e arguments).run w) =
      effect readers.markup w₁ ((a.number? "timeout").getD s.fetchTimeout) ((a.text? "in").getD [])
        ((a.text? "out").getD []) (optionsOf s a) := by
  rw [h.run_eq, ofArguments_eq]
  by_cases hin : (a.text? "in").getD [] = []
  · rw [if_pos hin, effect, if_pos (.inl hin)]
    rfl
  rw [if_neg hin]
  by_cases hout : (a.text? "out").getD [] = []
  · rw [if_pos hout, effect, if_pos (.inr hout)]
    rfl
  · rw [if_neg hout]
    exact withoutReports_run w₁ e.colours hin hout

/-! ## What is written -/

theorem load_nil (markup : Text → List Markup.Node) (timeout : Int) (w : Surroundings) :
    ∃ x w', (Loading.load markup Surroundings.host timeout []).run w = some (.error x, w') := by
  obtain ⟨w', hrun, -⟩ := Surroundings.run_readFile w []
  refine ⟨.file [] ⟨false, [], .missing⟩, w', ?_⟩
  rw [Loading.load_of_isPath timeout ⟨by decide, by decide⟩, Loading.loadFile]
  refine Surroundings.run_loop_of_inr ?_
  rw [Loading.openFile, StateT.run_bind, hrun]
  rfl

/-- A conversion has the effect that what is loaded has, also if an empty name is given. -/
theorem effect_of_load {markup : Text → List Markup.Node} {timeout : Int} {input : Text}
    {loaded : Except Loading.Error Text} {w' : Surroundings}
    (h : (Loading.load markup Surroundings.host timeout input).run w = some (loaded, w')) (out : Text)
    (o : Options) :
    ∃ w₁ : Surroundings, w₁.files = w.files ∧
      effect markup w timeout input out o = some (effectOf w₁ out o loaded) := by
  by_cases hin : input = []
  · obtain ⟨x, w₂, hload⟩ := load_nil markup timeout w
    rw [hin, hload] at h
    cases h
    exact ⟨w, rfl, if_pos (.inl hin)⟩
  by_cases hout : out = []
  · refine ⟨w, rfl, (if_pos (.inr hout)).trans ?_⟩
    subst hout
    rcases loaded with x | t
    · rfl
    rw [effectOf]
    rcases convert o t with x | c <;> rfl
  · refine ⟨w', Loading.files_of_load timeout h, ?_⟩
    rw [effect, if_neg (not_or.2 ⟨hin, hout⟩), h]
    rfl

theorem strict_optionsOf (s : Settings) (a : Flag.Arguments) :
    (optionsOf s a).strict = (a.switch? "strict").getD s.strict := by
  unfold optionsOf Options.withModule
  split <;> rfl

/-- Flags that agree apart from those for reports ask for the same conversion. -/
theorem Asks.withoutReports_congr {arguments' : List Text} {a' : Flag.Arguments}
    (h : Asks readers w e arguments s a w₁) (h' : Asks readers w e arguments' s a' w₁)
    (hflags : ∀ name, name ≠ "quiet" → name ≠ "verbose" → a'.value? name = a.value? name) :
    withoutReports ((run readers Surroundings.host e arguments').run w) =
      withoutReports ((run readers Surroundings.host e arguments).run w) := by
  have htext (name : String) (hq : name ≠ "quiet") (hv : name ≠ "verbose") :
      a'.text? name = a.text? name := by
    rw [Flag.Arguments.text?, hflags name hq hv, Flag.Arguments.text?]
  have hswitch (name : String) (hq : name ≠ "quiet") (hv : name ≠ "verbose") :
      a'.switch? name = a.switch? name := by
    rw [Flag.Arguments.switch?, hflags name hq hv, Flag.Arguments.switch?]
  have hnumber : a'.number? "timeout" = a.number? "timeout" := by
    rw [Flag.Arguments.number?, hflags "timeout" (by decide) (by decide), Flag.Arguments.number?]
  have hoptions : optionsOf s a' = optionsOf s a := by
    unfold optionsOf
    rw [hswitch "emscripten" (by decide) (by decide), htext "name" (by decide) (by decide),
      hswitch "default-export" (by decide) (by decide), hswitch "strict" (by decide) (by decide)]
  rw [h'.withoutReports_eq, h.withoutReports_eq, hnumber, htext "in" (by decide) (by decide),
    htext "out" (by decide) (by decide), hoptions]

/-- The conversion command writes all or nothing. If the input cannot be loaded or converted it fails,
and the files are as before. Otherwise the declarations go to the output if that is asked for, or else
they are the new content of the file that the path leads to, and all other files are as before; it then
fails if and only if it is strict, by its flags or else by the settings, and there are diagnostics. The
flags for reports decide about neither files nor output nor status. Only if the input is loaded forever
does the command not return. -/
theorem run_all_or_nothing {input out : Text} (h : Asks readers w e arguments s a w₁)
    (hin : a.text? "in" = some input) (hout : a.text? "out" = some out) :
    let x := (run readers Surroundings.host e arguments).run w
    let timeout := (a.number? "timeout").getD s.fetchTimeout
    let loading := (Loading.load readers.markup Surroundings.host timeout input).run w₁
    let strict := (a.switch? "strict").getD s.strict
    (out ≠ [] → loading = none → x = none) ∧
    (∀ loaded w₂, loading = some (loaded, w₂) → ∃ r w', x = some (r, w') ∧
      (∀ y, loaded = .error y → r.status = 1 ∧ w'.files = w.files) ∧
      (∀ t y, loaded = .ok t → convert (optionsOf s a) t = .error y →
        r.status = 1 ∧ w'.files = w.files) ∧
      (∀ t c, loaded = .ok t → convert (optionsOf s a) t = .ok c →
        let status := if strict = true ∧ c.diagnostics ≠ [] then 1 else 0
        (out = Text.ofString "-" →
          r.output = c.output ++ [.char '\n'] ∧ w'.files = w.files ∧ r.status = status) ∧
        (out ≠ Text.ofString "-" →
          (∀ p, w.files.LeadsTo out p → r.status = status ∧
            ∀ q, w'.files.content? q = if q = p then some c.output else w.files.content? q) ∧
          (∀ files, w.files.write out c.output = .ok files → r.status = status ∧ w'.files = files) ∧
          ∀ y, w.files.write out c.output = .error y → r.status = 1 ∧ w'.files = w.files))) ∧
    ∀ arguments' a', Asks readers w e arguments' s a' w₁ →
      (∀ name, name ≠ "quiet" → name ≠ "verbose" → a'.value? name = a.value? name) →
      ((run readers Surroundings.host e arguments').run w).map (fun r => (r.1.status, r.1.output, r.2)) =
        x.map fun r => (r.1.status, r.1.output, r.2) := by
  intro x timeout loading strict
  have heffect : withoutReports x = effect readers.markup w₁ timeout input out (optionsOf s a) := by
    have heq := h.withoutReports_eq
    rwa [hin, hout] at heq
  have hsettings : w₁.files = w.files := Surroundings.files_of_loadSettings h.settings
  refine ⟨fun hout hnone => ?_, fun loaded w₂ hload => ?_, fun arguments' a' h' hflags => ?_⟩
  · have hinput : input ≠ [] := by
      rintro rfl
      obtain ⟨y, w', hsome⟩ := load_nil readers.markup timeout w₁
      exact Option.some_ne_none _ (hsome.symm.trans hnone)
    rw [effect, if_neg (not_or.2 ⟨hinput, hout⟩)] at heffect
    exact Option.map_eq_none_iff.1 (heffect.trans (Option.map_eq_none_iff.2 hnone))
  · obtain ⟨w₃, hfiles, heq⟩ := effect_of_load hload out (optionsOf s a)
    obtain ⟨⟨r, w'⟩, hx, hr⟩ := Option.map_eq_some_iff.1 (heffect.trans heq)
    rw [hsettings] at hfiles
    -- the three parts of what is left behind
    obtain ⟨hstatus, hr⟩ := Prod.mk.inj (hr.trans Prod.mk.eta.symm)
    obtain ⟨houtput, hw'⟩ := Prod.mk.inj (hr.trans Prod.mk.eta.symm)
    dsimp only at hstatus houtput hw'
    refine ⟨r, w', hx, ?_, ?_, ?_⟩
    · rintro y rfl
      rw [hstatus, hw']
      exact ⟨rfl, hfiles⟩
    · rintro t y rfl hconvert
      rw [hstatus, hw', effectOf, hconvert]
      exact ⟨rfl, hfiles⟩
    · rintro t c rfl hconvert
      rw [hstatus, hw', houtput, effectOf, hconvert, strict_optionsOf, ← hfiles]
      dsimp only
      refine ⟨fun hdash => ?_, fun hdash => ⟨fun p hp => ?_, fun files hwrite => ?_, fun x hwrite => ?_⟩⟩
      · rw [if_pos hdash]
        exact ⟨rfl, rfl, rfl⟩
      · rw [if_neg hdash, hp.write]
        exact ⟨rfl, w₃.files.content?_set p c.output⟩
      · rw [if_neg hdash, hwrite]
        exact ⟨rfl, rfl⟩
      · rw [if_neg hdash, hwrite]
        exact ⟨rfl, rfl⟩
  · exact h.withoutReports_congr h' hflags

/-- A strict conversion with a diagnostic fails after its output is written, whether the diagnostic is
reported or not. -/
theorem run_all_or_nothing_strict :
    let w : Surroundings :=
      ⟨.error [], ⟨["work"], [("/work/a.idl", "interface A \x7b iterable<long>; \x7d;")]⟩, [], [], []⟩
    let x := (run .standard Surroundings.host ⟨[], false⟩
      ["-i", "a.idl", "-o", "../a.d.ts", "--strict"]).run w
    let y := (run .standard Surroundings.host ⟨[], false⟩
      ["-vqia.idl", "-o", "../a.d.ts", "--strict"]).run w
    (∃ r w', x = some (r, w') ∧ r.status = 1 ∧
      w'.files.content? "/a.d.ts" = some (Text.ofString "interface A \x7b\n\x7d")) ∧
      y.map (fun r => (r.1.status, r.1.output, r.2)) = x.map fun r => (r.1.status, r.1.output, r.2) := by
  intro w
  have hmissing : w.files.read Settings.fileName = .error ⟨false, Settings.fileName, .missing⟩ :=
    Files.read_of_free (p := "/work/.webidl-dts.yaml") (eq_ok_of_toOption (by decide +kernel))
  obtain ⟨w₁, hsettings⟩ := Surroundings.loadSettings_of_missing Settings.parse hmissing
  have hfiles : w₁.files = w.files := Surroundings.files_of_loadSettings hsettings
  let a : Flag.Arguments :=
    ⟨[("strict", .switch true), ("out", .text "../a.d.ts"), ("in", .text "a.idl")], []⟩
  let a' : Flag.Arguments := ⟨a.values ++ [("quiet", .switch true), ("verbose", .switch true)], []⟩
  have hask : Asks .standard w ⟨[], false⟩ ["-i", "a.idl", "-o", "../a.d.ts", "--strict"]
      Settings.empty a w₁ :=
    ⟨⟨_, _, rfl, by decide⟩, hsettings, eq_ok_of_toOption (by decide +kernel)⟩
  have hask' : Asks .standard w ⟨[], false⟩ ["-vqia.idl", "-o", "../a.d.ts", "--strict"]
      Settings.empty a' w₁ :=
    ⟨⟨_, _, rfl, by decide⟩, hsettings, eq_ok_of_toOption (by decide +kernel)⟩
  have hin : a.text? "in" = some (Text.ofString "a.idl") := by decide
  have hout : a.text? "out" = some (Text.ofString "../a.d.ts") := by decide
  obtain ⟨-, hreturns, hreports⟩ := run_all_or_nothing hask hin hout
  have hflags : ∀ name, name ≠ "quiet" → name ≠ "verbose" → a'.value? name = a.value? name := by
    intro name hquiet hverbose
    simp [Flag.Arguments.value?, a', List.find?_append, hquiet.symm, hverbose.symm]
  refine ⟨?_, hreports _ a' hask' hflags⟩
  have hread : w.files.read "a.idl" = .ok "interface A \x7b iterable<long>; \x7d;" :=
    eq_ok_of_toOption (by decide +kernel)
  have hloaded (timeout : Int) : ∃ w₂, (Loading.load Markup.parse Surroundings.host timeout "a.idl").run
      w₁ = some (.ok "interface A \x7b iterable<long>; \x7d;", w₂) := by
    obtain ⟨w₂, hrun, -⟩ := Surroundings.run_readFile w₁ "a.idl"
    refine ⟨w₂, ?_⟩
    rw [Loading.load_of_isPath timeout ⟨by decide, by decide⟩, Loading.loadFile]
    refine Surroundings.run_loop_of_inr ?_
    rw [Loading.openFile, StateT.run_bind, hrun, hfiles, hread]
    rfl
  obtain ⟨w₂, hload⟩ := hloaded ((a.number? "timeout").getD Settings.empty.fetchTimeout)
  obtain ⟨r, w', hx, -, -, hconverted⟩ := hreturns _ w₂ hload
  have hsome : ((convert (optionsOf Settings.empty a) "interface A \x7b iterable<long>; \x7d;").toOption.any
      fun c => c.output = Text.ofString "interface A \x7b\n\x7d" && !c.diagnostics.isEmpty) = true := by
    decide +kernel
  obtain ⟨c, hc, hresult⟩ := (Option.any_eq_true _ _).1 hsome
  obtain ⟨houtput, hdiagnostics⟩ : c.output = "interface A \x7b\n\x7d" ∧ c.diagnostics ≠ [] := by
    simpa using hresult
  have hleads : w.files.LeadsTo "../a.d.ts" "/a.d.ts" :=
    ⟨by decide +kernel, .inl (eq_ok_of_toOption (by decide +kernel))⟩
  have hdash : Text.ofString "../a.d.ts" ≠ Text.ofString "-" := by decide
  obtain ⟨hstatus, hcontent⟩ := ((hconverted _ c rfl (eq_ok_of_toOption hc)).2 hdash).1 _ hleads
  refine ⟨r, w', hx, hstatus.trans (if_pos ⟨by decide, hdiagnostics⟩), ?_⟩
  rw [hcontent, if_pos rfl, houtput]

end IdlTypings.Command
