import SignalAudit.Proofs.FileClassification
import SignalAudit.Proofs.Itinerary
import SignalAudit.Proofs.WalkDepth

/-!
What a scan finds. It succeeds on a tree without access errors whose sources can all be classified, and then its usage
holds the matches of their lines.
-/

namespace SignalAudit

/-- The walk of a scan. -/
def ScanOptions.walk (o : ScanOptions) (fs : FileSystem) : Walk Usage FileError :=
  ⟨fs, o.filter, fun path u => u.visitFile fs (Pattern.orStandard o.patterns) path⟩

/-- A line of a file that a scan visits says this about a signal. -/
def ScanOptions.Finds (o : ScanOptions) (fs : FileSystem) (root : Text) (m : Match) : Prop :=
  ∃ path ∈ (o.walk fs).calls root {}, Says fs (Pattern.orStandard o.patterns) path m

/-- A survey only ends early at something it has no access to. -/
theorem Walk.survey_eq_none_iff {σ ε : Type} (w : Walk σ ε) (root : Text) :
    (w.survey.run root []).2 = none ↔ ∀ path cause, (w.survey.run root []).2 ≠ some (.access path cause) := by
  constructor
  · intro h path cause he
    rw [h] at he
    cases he
  · intro h
    cases he : (w.survey.run root []).2 with
    | none => rfl
    | some error =>
      cases w.survey.run_ends he with
      | access path cause => exact absurd he (h path cause)
      | visit failed => cases failed

namespace ScanOptions

variable (o : ScanOptions) (fs : FileSystem)

theorem visit_eq_none_iff (path : Text) (u : Usage) :
    ((o.walk fs).visit path u).2 = none ↔ Classifies fs (Pattern.orStandard o.patterns) path :=
  Usage.visitFile_eq_none_iff

theorem visitAll_gathers {paths : List Text}
    (h : ∀ path ∈ paths, Classifies fs (Pattern.orStandard o.patterns) path) (u : Usage) :
    Usage.Gathers (fun m => ∃ path ∈ paths, Says fs (Pattern.orStandard o.patterns) path m) paths.length u
      ((o.walk fs).visitAll paths u).1 := by
  induction paths generalizing u with
  | nil => exact .refl (by simp) u
  | cons path rest ih =>
    obtain ⟨hpath, hrest⟩ := List.forall_mem_cons.mp h
    have hvisit : (o.walk fs).visit path u = (((o.walk fs).visit path u).1, none) :=
      Prod.ext rfl ((o.visit_eq_none_iff fs path u).mpr hpath)
    rw [Walk.visitAll, hvisit, List.length_cons, Nat.add_comm]
    exact (Usage.visitFile_gathers hpath u).trans (ih hrest _) fun m => by simp

theorem scan_eq_run (root : Text) : scan fs o root = match (o.walk fs).run root {} with
    | (p, none) => .ok p.state
    | (_, some error) => .error error := by
  rfl

theorem scan_eq_ok_iff {root : Text} {u : Usage} :
    scan fs o root = .ok u ↔ ((o.walk fs).run root {}).2 = none ∧ ((o.walk fs).run root {}).1.state = u := by
  rw [scan_eq_run]
  rcases (o.walk fs).run root {} with ⟨p, _ | error⟩ <;> simp

theorem scan_eq_error_iff {root : Text} {e : ScanError} :
    scan fs o root = .error e ↔ ((o.walk fs).run root {}).2 = some e := by
  rw [scan_eq_run]
  rcases (o.walk fs).run root {} with ⟨p, _ | error⟩ <;> simp

theorem scan_succeeds_iff (root : Text) : (∃ u, scan fs o root = .ok u) ↔
    (∀ path cause, ((o.walk fs).survey.run root []).2 ≠ some (.access path cause)) ∧
      ∀ path ∈ (o.walk fs).itinerary root, Classifies fs (Pattern.orStandard o.patterns) path := by
  rw [← (o.walk fs).survey_eq_none_iff root, ← Walk.run_eq_none_iff (o.visit_eq_none_iff fs) root {}]
  simp [scan_eq_ok_iff]

/-- A scan that some file would stop is stopped by a file it visits. -/
theorem calls_classify_iff (root : Text) :
    (∀ path ∈ (o.walk fs).calls root {}, Classifies fs (Pattern.orStandard o.patterns) path) ↔
      ∀ path ∈ (o.walk fs).itinerary root, Classifies fs (Pattern.orStandard o.patterns) path := by
  rw [Walk.calls_eq_called]
  exact Walk.forall_called_iff (o.visit_eq_none_iff fs) _ _

theorem scan_gathers {root : Text} {u : Usage} (h : scan fs o root = .ok u) :
    Usage.Gathers (o.Finds fs root) ((o.walk fs).calls root {}).length {} u := by
  obtain ⟨hnone, hstate⟩ := (o.scan_eq_ok_iff fs).mp h
  obtain ⟨_, fine⟩ := (Walk.run_eq_none_iff (o.visit_eq_none_iff fs) root {}).mp hnone
  rw [Walk.run_of_fine (o.visit_eq_none_iff fs) fine] at hstate
  unfold Finds
  rw [Walk.calls_eq_called, Walk.called_of_fine (o.visit_eq_none_iff fs) fine, ← hstate]
  exact o.visitAll_gathers fs fine {}

theorem mem_names_scan {root : Text} {u : Usage} (h : scan fs o root = .ok u) (k : Kind) (hk : k.Kept)
    (name : Text) : name ∈ u.names k ↔ o.Finds fs root ⟨k, name⟩ := by
  rw [(o.scan_gathers fs h).names k hk name, or_iff_right (Usage.not_mem_names_empty k name)]

end ScanOptions

/-- A scan succeeds if its walk meets no access error and each file it visits can be read and classified to its end;
this may be asked of the walk as far as it goes, or of one that no file stops. The usage then holds, for each of the
four kinds, the names that a line of a visited file gives, and the number of visits. Otherwise there is no usage, only
the error of the walk. -/
theorem scan_exact (fs : FileSystem) (o : ScanOptions) (root : Text) :
    ((∃ u, scan fs o root = .ok u) ↔
      (∀ path cause, ((o.walk fs).run root {}).2 ≠ some (.access path cause)) ∧
        ∀ path ∈ (o.walk fs).calls root {}, Classifies fs (Pattern.orStandard o.patterns) path) ∧
    ((∃ u, scan fs o root = .ok u) ↔
      (∀ path cause, ((o.walk fs).survey.run root []).2 ≠ some (.access path cause)) ∧
        ∀ path ∈ (o.walk fs).itinerary root, Classifies fs (Pattern.orStandard o.patterns) path) ∧
    (∀ u, scan fs o root = .ok u →
      (∀ name,
        (name ∈ u.declared ↔ o.Finds fs root ⟨.declaration, name⟩) ∧
        (name ∈ u.emitted ↔ o.Finds fs root ⟨.emission, name⟩) ∧
        (name ∈ u.connected ↔ o.Finds fs root ⟨.connection, name⟩) ∧
        (name ∈ u.compatConnected ↔ o.Finds fs root ⟨.compatConnection, name⟩)) ∧
      u.files = ((o.walk fs).calls root {}).length) ∧
    ∀ e, scan fs o root = .error e ↔ ((o.walk fs).run root {}).2 = some e := by
  refine ⟨?_, o.scan_succeeds_iff fs root, fun u hu => ⟨fun name => ?_, ?_⟩, fun e => o.scan_eq_error_iff fs⟩
  · rw [o.calls_classify_iff fs root]
    constructor
    · intro hok
      obtain ⟨u, hu⟩ := hok
      refine ⟨fun path cause he => ?_, ((o.scan_succeeds_iff fs root).mp ⟨u, hu⟩).2⟩
      rw [((o.scan_eq_ok_iff fs).mp hu).1] at he
      cases he
    · rintro ⟨hacc, fine⟩
      rw [Walk.run_of_fine (o.visit_eq_none_iff fs) fine] at hacc
      exact (o.scan_succeeds_iff fs root).mpr ⟨hacc, fine⟩
  · have hkind := o.mem_names_scan fs hu
    exact ⟨hkind .declaration ⟨nofun, nofun⟩ name, hkind .emission ⟨nofun, nofun⟩ name,
      hkind .connection ⟨nofun, nofun⟩ name, hkind .compatConnection ⟨nofun, nofun⟩ name⟩
  · have hfiles := (o.scan_gathers fs hu).files
    rwa [Nat.zero_add] at hfiles

/-- Two sources below a directory, one of them behind a link, and a link back that does not lead to the same spelling.
So a scan from the working directory comes by each of them twice. -/
def shared : FileSystem where
  objects := [
    ([text "r"], .directory),
    ([text "a.cpp", text "r"], .file ⟨(text "ADD_SIGNAL(MethodInfo(\"done\"));\nemit_signal(\"done\");\n").toArray⟩),
    ([text "lib", text "r"], .link (text "../e")),
    ([text "e"], .directory),
    ([text "b.h", text "e"], .file ⟨(text "// emit_signal(\"never\")\r\nx->connect(\"hit\", y)").toArray⟩),
    ([text "up", text "e"], .link (text "/r"))]

theorem scan_shared_exact :
    scan shared ⟨.standard, []⟩ (text "r") = .ok
      ⟨.ofList [text "done"], .ofList [text "done"], .ofList [text "hit"], ∅, 4⟩ ∧
    ScanOptions.Finds ⟨.standard, []⟩ shared (text "r") ⟨.connection, text "hit"⟩ ∧
    ¬ ScanOptions.Finds ⟨.standard, []⟩ shared (text "r") ⟨.emission, text "never"⟩ :=
  have hscan : scan shared ⟨.standard, []⟩ (text "r") = .ok
      ⟨.ofList [text "done"], .ofList [text "done"], .ofList [text "hit"], ∅, 4⟩ := by decide +kernel
  have hnames := ((scan_exact shared ⟨.standard, []⟩ (text "r")).2.2.1 _ hscan).1
  ⟨hscan, (hnames _).2.2.1.mp (by decide +kernel), fun h => absurd ((hnames _).2.1.mpr h) (by decide +kernel)⟩

end SignalAudit
