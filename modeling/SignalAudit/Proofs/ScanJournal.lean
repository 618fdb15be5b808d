import SignalAudit.Proofs.ScanExactness

/-!
Keeping a journal does not change what a scan finds: seen through the usage alone, a scan with a journal is the scan
without one, line by line, file by file and over the whole walk.
-/

namespace SignalAudit

section Map

variable {σ τ : Type} (f : σ → τ) {record : Nat → Match → σ → σ} (record' : Nat → Match → τ → τ)
  (patterns : List Pattern)

theorem classifyLines_map (h : ∀ n m s, record' n m (f s) = f (record n m s)) (n : Nat) (lines : List Text) (s : σ) :
    classifyLines patterns record' n lines (f s) =
      (f (classifyLines patterns record n lines s).1, (classifyLines patterns record n lines s).2) := by
  induction lines generalizing n s with
  | nil => rfl
  | cons raw rest ih =>
    rw [classifyLines, classifyLines]
    split
    · rfl
    · cases classify patterns (Text.dropReturn raw) with
      | error cause => rfl
      | ok m =>
        dsimp only
        rw [h, ih]

theorem classifyFile_map (h : ∀ n m s, record' n m (f s) = f (record n m s)) (fs : FileSystem) (path : Text) (s : σ) :
    classifyFile fs patterns record' path (f s) =
      (f (classifyFile fs patterns record path s).1, (classifyFile fs patterns record path s).2) := by
  unfold classifyFile
  cases fs.openFile path with
  | error cause => rfl
  | ok object =>
    dsimp only
    cases FileSystem.readObject path object with
    | error cause => rfl
    | ok content => exact classifyLines_map f record' patterns h 1 (Text.rawLines content) s

end Map

namespace Logged

theorem usage_record (path : Text) (n : Nat) (m : Match) (s : Logged) :
    (record path n m s).usage = s.usage.add m := by
  unfold record
  dsimp only
  split <;> rfl

theorem usage_visitFile (fs : FileSystem) (patterns : List Pattern) (path : Text) (s : Logged) :
    s.usage.visitFile fs patterns path =
      ((s.visitFile fs patterns path).1.usage, (s.visitFile fs patterns path).2) := by
  have hrecord : ∀ n m (s : Logged), s.usage.add m = (record path n m s).usage :=
    fun n m s => (usage_record path n m s).symm
  have hfile : s.usage.addFile fs patterns path = _ :=
    classifyFile_map Logged.usage (fun _ found u => u.add found) patterns hrecord fs path
      (s.log .debug (text "Scanning " ++ path))
  unfold Usage.visitFile visitFile
  rw [hfile]
  rcases classifyFile fs patterns (record path) path (s.log .debug (text "Scanning " ++ path)) with ⟨t, _ | e⟩ <;> rfl

end Logged

/-- The walk of a scan with a journal. -/
def ScanOptions.loggedWalk (o : ScanOptions) (fs : FileSystem) : Walk Logged FileError :=
  ⟨fs, o.filter, fun path s => s.visitFile fs (Pattern.orStandard o.patterns) path⟩

theorem ScanOptions.loggedWalk_maps (o : ScanOptions) (fs : FileSystem) :
    Walk.Maps Logged.usage (o.loggedWalk fs) (o.walk fs) :=
  ⟨rfl, rfl, fun path s => Logged.usage_visitFile fs (Pattern.orStandard o.patterns) path s⟩

/-- A scan comes to the same with a journal and without. -/
theorem scanLogged_result (fs : FileSystem) (o : ScanOptions) (root : Text) :
    (scanLogged fs o root).2 = scan fs o root := by
  have hrun : (o.walk fs).run root {} = _ := (o.loggedWalk_maps fs).run root {}
  rw [o.scan_eq_run, hrun]
  unfold scanLogged ScanOptions.loggedWalk
  dsimp only
  rcases Walk.run ⟨fs, o.filter, fun path (s : Logged) => s.visitFile fs (Pattern.orStandard o.patterns) path⟩ root {}
    with ⟨p, _ | e⟩ <;> rfl

end SignalAudit
