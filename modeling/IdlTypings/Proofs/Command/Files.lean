import IdlTypings.Proofs.Loading.Questions
import IdlTypings.Settings.File

/-!
# What becomes of the files

Loading settings only reads files (`Surroundings.files_of_loadSettings`). Writing to a path replaces
the content of the file that it leads to, and of no other one (`Files.LeadsTo.write`).
-/

namespace IdlTypings

namespace Surroundings

theorem files_of_loadSettings {read : Text → Except Text Settings} {path fallback : Text}
    {w w' : Surroundings} {r : Except Settings.Error Settings}
    (h : (Settings.load read host path fallback).run w = some (r, w')) : w'.files = w.files := by
  rw [Settings.load, StateT.run_bind] at h
  obtain ⟨⟨x, w₁⟩, hread, hrest⟩ := Option.bind_eq_some_iff.1 h
  obtain ⟨w₂, hrun, hasked⟩ := run_readFile w _
  obtain ⟨-, rfl⟩ := Prod.mk.inj (Option.some.inj (hread.symm.trans hrun))
  have hpure {y : Except Settings.Error Settings}
      (hy : (pure y : Action _).run w₁ = some (r, w')) : w'.files = w.files := by
    cases hy
    exact hasked.files
  rcases x with failure | t
  · dsimp only at hrest
    split at hrest <;> split at hrest <;> exact hpure hrest
  · exact hpure hrest

theorem loadSettings_of_missing (read : Text → Except Text Settings) {w : Surroundings}
    (h : w.files.read Settings.fileName = .error ⟨false, Settings.fileName, .missing⟩) :
    ∃ w', (Settings.load read host [] []).run w = some (.ok Settings.empty, w') := by
  obtain ⟨w', hrun, -⟩ := run_readFile w Settings.fileName
  refine ⟨w', ?_⟩
  simp [Settings.load, hrun, h]

theorem run_change (f : Files → Except Files.Failure Files) (w : Surroundings) :
    (change f).run w = some (match f w.files with
      | .error failure => (.error failure, w)
      | .ok files => (.ok (), { w with files })) := by
  have hrun : (change f).run w = ((match f w.files with
      | .error failure => pure (.error failure)
      | .ok files => do
        modify fun s => { s with files }
        return .ok ()) : Action (Except Files.Failure Unit)).run w := rfl
  rw [hrun]
  rcases f w.files with failure | files <;> rfl

end Surroundings

/-! ## Writing -/

namespace Files

/-- A path leads to the file `p`, whether it is there or not. -/
def LeadsTo (files : Files) (path p : Text) : Prop :=
  endsInSlash path = false ∧
    (files.locate path = .ok (.free p) ∨ ∃ content, files.locate path = .ok (.file p content))

theorem read_of_free {files : Files} {path p : Text} (h : files.locate path = .ok (.free p)) :
    files.read path = .error ⟨false, path, .missing⟩ := by
  rw [read, h]

theorem LeadsTo.write {files : Files} {path p : Text} (h : files.LeadsTo path p) (content : Text) :
    files.write path content = .ok (files.set p content) := by
  obtain ⟨hslash, hfree | ⟨old, hfile⟩⟩ := h
  · simp [Files.write, hfree, hslash]
  · simp [Files.write, hfile, hslash]

/-- A file is replaced, or there is one more, and the others are as before. -/
theorem content?_set (files : Files) (p content q : Text) :
    (files.set p content).content? q = if q = p then some content else files.content? q := by
  unfold set
  split
  · next h =>
    -- the entries keep their paths, so that the same one is found
    have hpath : ((fun e : Text × Text => e.1 == q) ∘ fun e => if e.1 = p then (p, content) else e) =
        fun e => e.1 == q := by
      funext e
      by_cases he : e.1 = p <;> simp [he]
    rw [content?, List.find?_map, hpath, content?, Option.map_map]
    cases hfind : files.entries.find? fun e => e.1 == q with
    | none =>
      have hq : q ≠ p := by
        rintro rfl
        rw [content?, hfind] at h
        contradiction
      rw [if_neg hq]
      rfl
    | some e =>
      obtain rfl : e.1 = q := by simpa using List.find?_some hfind
      by_cases he : e.1 = p <;> simp [he]
  · next h =>
    have hnone : files.content? p = none := by simpa using h
    rw [content?, List.find?_append, Option.map_or, ← content?]
    by_cases hq : q = p
    · rw [if_pos hq, hq, hnone]
      simp
    · rw [if_neg hq, List.find?_singleton]
      simp [Ne.symm hq]

end Files

end IdlTypings
