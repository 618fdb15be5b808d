import SignalAudit.Proofs.ExitPolicy
import SignalAudit.Proofs.RootMarker

/-!
How the root of an audit is spelled. Once the root is resolved, an audit only knows the spelling of its place, if the
working directory has a name without links; so it tells and prints the same for all roots of one directory. A root that
is a project fails to be resolved only if a spelling on the way has too many bytes.
-/

namespace SignalAudit

theorem Audit.place_of_directory {fs : FileSystem} {s : Settings} {root spelled : Text} {dir : Location}
    (free : fs.LinkFree fs.workingDirectory) (hv : validateRoot fs root s.marker = .ok ())
    (hc : fs.canonical root = .ok spelled) (hd : fs.directory? root = some dir) :
    place fs s root = .ok (FileSystem.spelling dir) := by
  rw [place_eq_ok_iff]
  exact ⟨hv, spelled, hc, (FileSystem.fromHere_eq_spelling (.inr free) hc hd).symm⟩

theorem Audit.place_unresolved {fs : FileSystem} {s : Settings} {root : Text} {cause : AccessError}
    (hv : validateRoot fs root s.marker = .ok ()) (hc : fs.canonical root = .error cause) :
    place fs s root = .error (.unresolved root cause) := by
  unfold place
  rw [hv, hc]

theorem Audit.run_congr {fs : FileSystem} {s : Settings} {root root' : Text} (colored : Bool)
    (h : place fs s root = place fs s root') : run fs s colored root = run fs s colored root' := by
  unfold run
  rw [h]

namespace Surroundings

variable (w : Surroundings) {i : Invocation} {words words' : List Text} {root root' : Text}

theorem invoke_congr (h : ∀ s, i.settings w.fs = .ok s → Audit.place w.fs s root = Audit.place w.fs s root') :
    w.invoke { i with arguments := [root] } = w.invoke { i with arguments := [root'] } := by
  have hsettings : ∀ r, Invocation.settings { i with arguments := [r] } w.fs = i.settings w.fs := fun _ => rfl
  unfold invoke
  rw [hsettings, hsettings]
  cases hs : i.settings w.fs with
  | error => rfl
  | ok s =>
    have haudit : w.audit s root = w.audit s root' := by
      unfold audit
      rw [Audit.run_congr _ (h s hs)]
    simp only [Invocation.root, List.head?_cons, Option.getD_some, List.length_singleton, haudit]

theorem run_unresolved {s : Settings} {cause : AccessError}
    (hread : Invocation.read {} words = .ok { i with arguments := [root] }) (hhelp : i.help = false)
    (hversion : i.version = false) (hs : i.settings w.fs = .ok s) (hv : validateRoot w.fs root s.marker = .ok ())
    (hc : w.fs.canonical root = .error cause) :
    (w.run words).stdout = [] ∧ (w.run words).error = some (.audit (.unresolved root cause)) := by
  have hasks : Invocation.AsksForAudit { i with arguments := [root] } := ⟨hhelp, hversion, Nat.le_refl 1⟩
  have hs' : Invocation.settings { i with arguments := [root] } w.fs = .ok s := hs
  have hresult := Audit.run_result w.fs s (w.stdout.isColored w.environment) root
  rw [Audit.place_unresolved hv hc] at hresult
  obtain ⟨told, haudit⟩ := audit_of_error hresult
  rw [run_eq_closed hread, invoke_of_asksForAudit hasks, hs']
  change (w.closed (w.audit s root)).stdout = [] ∧ (w.closed (w.audit s root)).error = _
  rw [haudit]
  exact ⟨rfl, rfl⟩

/-- Two roots that lead to the same directory and are projects, in a working directory whose name has no links: if both
can be resolved, a run comes to the same with either, to the byte. One that cannot be resolved has a spelling with too
many bytes on its way, and then the run says so and prints nothing. -/
theorem run_ignores_spelling (i : Invocation) {dir : Location} (free : w.fs.LinkFree w.fs.workingDirectory)
    (hread : Invocation.read {} words = .ok { i with arguments := [root] })
    (hread' : Invocation.read {} words' = .ok { i with arguments := [root'] })
    (hd : w.fs.directory? root = some dir) (hd' : w.fs.directory? root' = some dir)
    (hv : ∀ s, i.settings w.fs = .ok s →
      validateRoot w.fs root s.marker = .ok () ∧ validateRoot w.fs root' s.marker = .ok ()) :
    (∀ spelled spelled', w.fs.canonical root = .ok spelled → w.fs.canonical root' = .ok spelled' →
        w.run words = w.run words') ∧
      ∀ cause, w.fs.canonical root = .error cause →
        (∃ spelled, FileSystem.longestPath < spelled.length ∧ cause = .operation .lstat spelled .tooLong) ∧
        (i.help = false → i.version = false → ∀ s, i.settings w.fs = .ok s →
          (w.run words).stdout = [] ∧ (w.run words).error = some (.audit (.unresolved root cause))) := by
  refine ⟨?_, ?_⟩
  · intro spelled spelled' hc hc'
    rw [run_eq_closed hread, run_eq_closed hread', w.invoke_congr]
    intro s hs
    obtain ⟨hvalid, hvalid'⟩ := hv s hs
    rw [Audit.place_of_directory free hvalid hc hd, Audit.place_of_directory free hvalid' hc' hd']
  · intro cause hc
    refine ⟨FileSystem.canonical_eq_error (FileSystem.directory?_eq_some_iff.mp hd).1 hc, ?_⟩
    intro hhelp hversion s hs
    exact w.run_unresolved hread hhelp hversion hs (hv s hs).1 hc

/-- A project beside two links to the directory it is in. One of them goes up a few hundred times, most of them from the
top. -/
def roundabout : Surroundings where
  fs := {
    objects := [
      ([text "w"], .directory),
      ([text "r", text "w"], .directory),
      ([text "icon.svg", text "r", text "w"], .file .empty),
      ([text "a.cpp", text "r", text "w"], .file .empty),
      ([text "m", text "w"], .link (text "../w")),
      ([text "n", text "w"], .link ((List.replicate 321 (text "../")).flatten ++ text "w"))]
    cwd := [text "w"]
    pwd := text "/w" }

theorem roundabout_same :
    roundabout.fs.workingDirectory = text "/w" ∧ roundabout.fs.LinkFree (text "/w") ∧
    Invocation.read {} [text "--log-level=info", text "r"] =
      .ok { logLevel := some (text "info"), arguments := [text "r"] } ∧
    Invocation.read {} [text "./m//r", text "--log-level=info"] =
      .ok { logLevel := some (text "info"), arguments := [text "./m//r"] } ∧
    roundabout.fs.canonical (text "r") = .ok (text "r") ∧
    roundabout.fs.canonical (text "./m//r") = .ok (text "../w/r") ∧
    roundabout.run [text "--log-level=info", text "r"] = roundabout.run [text "./m//r", text "--log-level=info"] := by
  have hread : Invocation.read {} [text "--log-level=info", text "r"] =
      .ok { logLevel := some (text "info"), arguments := [text "r"] } := by decide
  have hread' : Invocation.read {} [text "./m//r", text "--log-level=info"] =
      .ok { logLevel := some (text "info"), arguments := [text "./m//r"] } := by decide
  have hc : roundabout.fs.canonical (text "r") = .ok (text "r") := by decide
  have hc' : roundabout.fs.canonical (text "./m//r") = .ok (text "../w/r") := by decide
  have hs : Invocation.settings { logLevel := some (text "info") } roundabout.fs =
      .ok { Settings.standard with logLevel := text "info" } := by decide
  have hd : roundabout.fs.directory? (text "r") = some [text "r", text "w"] := by decide
  have hd' : roundabout.fs.directory? (text "./m//r") = some [text "r", text "w"] := by decide
  have hname : roundabout.fs.workingDirectory = text "/w" := by decide
  have hfree : roundabout.fs.LinkFree (text "/w") :=
    (FileSystem.isPlain_spelling (by decide : roundabout.fs.isDirectory [text "w"] = true)).linkFree
  refine ⟨hname, hfree, hread, hread', hc, hc', (roundabout.run_ignores_spelling { logLevel := some (text "info") }
    (hname ▸ hfree) hread hread' hd hd' ?_).1 _ _ hc hc'⟩
  intro s h
  obtain rfl := Except.ok.inj (hs.symm.trans h)
  exact ⟨by decide, by decide⟩

/-- Through the other link, taken five times, the same project cannot be resolved. -/
theorem roundabout_unresolved :
    roundabout.fs.directory? (text "r") = some [text "r", text "w"] ∧
    roundabout.fs.directory? (text "n/n/n/n/n/r") = some [text "r", text "w"] ∧
    validateRoot roundabout.fs (text "r") Settings.standard.marker = .ok () ∧
    validateRoot roundabout.fs (text "n/n/n/n/n/r") Settings.standard.marker = .ok () ∧
    (roundabout.run [text "r"]).exitCode = 0 ∧ (roundabout.run [text "r"]).stderr = [] ∧
    (roundabout.run [text "n/n/n/n/n/r"]).exitCode = 1 ∧ (roundabout.run [text "n/n/n/n/n/r"]).stderr ≠ [] := by
  decide +kernel

end Surroundings

end SignalAudit
