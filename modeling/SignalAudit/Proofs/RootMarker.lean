import SignalAudit.Command.Audit
import SignalAudit.Proofs.EntryObjects

/-!
The marker of a project's root. Validation looks for the marker below the cleaned root, and the audit scans the place
that the root leads to as it stands. The two are the same directory unless the root goes up from behind a link, one of
its own or one by which the working directory was entered.
-/

namespace SignalAudit

namespace FileSystem

/-- A directory has an entry of this name. -/
def HasEntry (fs : FileSystem) (dir : Location) (name : Text) : Prop := ∃ e ∈ fs.entries dir, e.1 = name

theorem HasEntry.isName {fs : FileSystem} {dir : Location} {name : Text} (h : fs.HasEntry dir name) :
    Path.IsName name := by
  obtain ⟨e, he, rfl⟩ := h
  exact isName_of_mem_entries he

theorem hasEntry_of_at? {fs : FileSystem} {dir : Location} {name : Text} {object : Object}
    (h : fs.at? (name :: dir) = some object) : fs.HasEntry dir name :=
  ⟨(name, object), mem_entries.mpr h, rfl⟩

theorem Leads.hasEntry {fs : FileSystem} {k : Nat} {dir target : Location} {name : Text} (hn : Path.IsName name)
    (h : fs.Leads k dir [name] target) : fs.HasEntry dir name := by
  cases h with
  | stay _ same => exact absurd same hn.not_blank
  | ascend => exact absurd rfl hn.ne_dotDot
  | descend found | jump found => exact hasEntry_of_at? found

/-- What is found under a name below a path is an entry of the directory that the cleaned path leads to. -/
theorem hasEntry_of_stat_join {fs : FileSystem} {path name : Text} {object : Object} (hn : Path.IsName name)
    (h : fs.stat (Path.join path name) = .ok object) : ∃ k dir, fs.LeadsClean k path dir ∧ fs.HasEntry dir name := by
  obtain ⟨target, hl, _⟩ := stat_eq_ok_iff.mp h
  obtain ⟨_, _, _, k, _, hk⟩ := locate_eq_ok_iff.mp hl
  obtain ⟨m, n, dir, _, hm, hleads⟩ := (leadsClean_join hn).mp ((leads_join hn).mp hk)
  exact ⟨m, dir, hm, hleads.hasEntry hn⟩

theorem leadsToDirectory_iff {fs : FileSystem} {path : Text} :
    fs.leadsToDirectory path = true ↔ ∃ dir, fs.directory? path = some dir := by
  unfold leadsToDirectory lookup directory? isDirectory
  cases hl : fs.locate path with
  | error => simp
  | ok place => cases hp : fs.at? place <;> simp [hp]

theorem ne_nil_of_directory? {fs : FileSystem} {path : Text} {dir : Location} (h : fs.directory? path = some dir) :
    path ≠ [] :=
  (locate_eq_ok_iff.mp (directory?_eq_some_iff.mp h).1).2.1

/-- A path resolved and made absolute is the spelling of the directory that it leads to, if it was absolute or the
working directory has a name without links. -/
theorem fromHere_eq_spelling {fs : FileSystem} {path spelled : Text} {dir : Location}
    (sure : Path.isAbsolute path = true ∨ fs.LinkFree fs.workingDirectory) (hc : fs.canonical path = .ok spelled)
    (hd : fs.directory? path = some dir) : fs.fromHere spelled = spelling dir := by
  rw [fromHere_canonical hc sure]
  exact absolute_canonical_eq hc (directory?_eq_some_iff.mp hd).1

end FileSystem

theorem validateRoot_eq_ok_iff {fs : FileSystem} {root marker : Text} :
    validateRoot fs root marker = .ok () ↔ (∃ dir, fs.directory? root = some dir) ∧
      (marker = [] ∨ ∃ object, fs.stat (Path.join root marker) = .ok object) := by
  rw [← FileSystem.leadsToDirectory_iff]
  unfold validateRoot
  by_cases hroot : root = []
  · subst hroot
    have hnone : fs.leadsToDirectory [] = false := by
      rw [← Bool.not_eq_true, FileSystem.leadsToDirectory_iff]
      rintro ⟨dir, hd⟩
      exact FileSystem.ne_nil_of_directory? hd rfl
    simp [hnone]
  · cases hdir : fs.leadsToDirectory root with
    | false => simp [hroot]
    | true =>
      by_cases hm : marker = []
      · simp [hroot, hm]
      · cases hstat : fs.stat (Path.join root marker) <;> simp [hroot, hm]

theorem Settings.slash_not_mem_marker {s : Settings} (h : s.validate = .ok ()) : Path.slash ∉ s.marker := by
  intro hm
  have hany : (s.marker.any fun b => b == 0x2F || b == 0x5C) = true :=
    List.any_eq_true.mpr ⟨Path.slash, hm, by decide⟩
  simp only [validate, hany, ↓reduceIte] at h
  repeat' split at h
  all_goals cases h

namespace Audit

theorem place_eq_ok_iff {fs : FileSystem} {s : Settings} {root path : Text} :
    place fs s root = .ok path ↔ validateRoot fs root s.marker = .ok () ∧
      ∃ spelled, fs.canonical root = .ok spelled ∧ path = fs.fromHere spelled := by
  unfold place
  cases validateRoot fs root s.marker with
  | error => simp
  | ok => cases fs.canonical root <;> simp [eq_comm]

/-- The root leads to a directory. If the root is absolute, or the working directory has a name without links, the audit
scans that directory, under the spelling of its place. If the root leads to the same directory once it is cleaned, as it
does when it nowhere goes up, the directory has an entry with the marker's name just when the marker is neither the dot
nor the way up. Whatever the root, such a marker is an entry of the directory that the cleaned root leads to. -/
theorem place_marked (fs : FileSystem) {s : Settings} {root path : Text} (hs : s.validate = .ok ())
    (hm : s.marker ≠ []) (hp : place fs s root = .ok path) :
    ∃ named, fs.directory? root = some named ∧
      (Path.isAbsolute root = true ∨ fs.LinkFree fs.workingDirectory → path = FileSystem.spelling named) ∧
      ((∃ k, fs.LeadsClean k root named) →
        (fs.HasEntry named s.marker ↔ s.marker ≠ Path.dot ∧ s.marker ≠ Path.dotDot)) ∧
      (s.marker ≠ Path.dot → s.marker ≠ Path.dotDot →
        ∃ k checked, fs.LeadsClean k root checked ∧ fs.HasEntry checked s.marker) ∧
      (Path.dotDot ∉ Path.parts root → ∃ k, fs.LeadsClean k root named) := by
  obtain ⟨hvalid, spelled, hc, rfl⟩ := place_eq_ok_iff.mp hp
  obtain ⟨⟨named, hd⟩, hmarker⟩ := validateRoot_eq_ok_iff.mp hvalid
  have hchecked : s.marker ≠ Path.dot → s.marker ≠ Path.dotDot →
      ∃ k checked, fs.LeadsClean k root checked ∧ fs.HasEntry checked s.marker := by
    intro hdot hup
    rcases hmarker with hempty | ⟨object, hstat⟩
    · exact absurd hempty hm
    · exact FileSystem.hasEntry_of_stat_join ⟨hm, hdot, hup, Settings.slash_not_mem_marker hs⟩ hstat
  refine ⟨named, hd, fun sure => FileSystem.fromHere_eq_spelling sure hc hd, ?_, hchecked, ?_⟩
  · rintro ⟨k, hk⟩
    constructor
    · intro h
      exact ⟨h.isName.ne_dot, h.isName.ne_dotDot⟩
    · rintro ⟨hdot, hup⟩
      obtain ⟨j, checked, hj, hentry⟩ := hchecked hdot hup
      obtain ⟨_, rfl⟩ := hj.unique hk
      exact hentry
  · intro hup
    obtain ⟨_, _, _, k, _, hk⟩ := FileSystem.locate_eq_ok_iff.mp (FileSystem.directory?_eq_some_iff.mp hd).1
    exact ⟨k, hk.leadsClean hup⟩

/-- A link into a directory below another, with markers at the top and behind the link but not in between. -/
def bypassed : FileSystem where
  objects := [
    ([text "icon.svg"], .file .empty),
    ([text "a"], .directory),
    ([text "b", text "a"], .directory),
    ([text "icon.svg", text "b", text "a"], .file .empty),
    ([text "link"], .link (text "a/b"))]

theorem bypassed_marked_behind_link : Settings.standard.validate = .ok () ∧ Settings.standard.marker ≠ [] ∧
    place bypassed .standard (text "./link/") = .ok (text "/a/b") ∧
    bypassed.LinkFree bypassed.workingDirectory ∧ text "/a/b" = FileSystem.spelling [text "b", text "a"] ∧
    bypassed.HasEntry [text "b", text "a"] (text "icon.svg") := by
  have hvalid : Settings.standard.validate = .ok () := by decide
  have hmarker : Settings.standard.marker ≠ [] := by decide
  have hplace : place bypassed .standard (text "./link/") = .ok (text "/a/b") := by decide
  have hfree : bypassed.LinkFree bypassed.workingDirectory :=
    (FileSystem.isPlain_spelling (by decide : bypassed.isDirectory bypassed.cwd = true)).linkFree
  obtain ⟨named, hd, hscanned, hentry, _, hclean⟩ := place_marked bypassed hvalid hmarker hplace
  have hdir : bypassed.directory? (text "./link/") = some [text "b", text "a"] := by decide
  obtain rfl := Option.some.inj (hd.symm.trans hdir)
  exact ⟨hvalid, hmarker, hplace, hfree, hscanned (.inr hfree), (hentry (hclean (by decide))).mpr (by decide)⟩

/-- A project beside a directory with a link into the project, by which the working directory was entered. -/
def sidelong : FileSystem where
  objects := [
    ([text "a"], .directory),
    ([text "icon.svg", text "a"], .file .empty),
    ([text "b", text "a"], .directory),
    ([text "c"], .directory),
    ([text "link", text "c"], .link (text "/a/b"))]
  cwd := [text "b", text "a"]
  pwd := text "/c/link"

/-- Going up from behind the link, the audit scans a directory without the marker. So it does with a marker that names
the directory itself, and going up from a working directory that was entered by a link. -/
theorem bypassed_unmarked :
    Settings.standard.validate = .ok () ∧ Settings.standard.marker = text "icon.svg" ∧
      place bypassed .standard (text "link/..") = .ok (text "/a") ∧
      bypassed.directory? (text "/a") = some [text "a"] ∧ ¬ bypassed.HasEntry [text "a"] (text "icon.svg") ∧
    Settings.validate { Settings.standard with marker := Path.dot } = .ok () ∧
      place bypassed { Settings.standard with marker := Path.dot } (text "a") = .ok (text "/a") ∧
      ¬ bypassed.HasEntry [text "a"] Path.dot ∧
    sidelong.directory? (text "..") = some [text "a"] ∧
      place sidelong .standard (text "..") = .ok (text "/c") ∧
      sidelong.directory? (text "/c") = some [text "c"] ∧ ¬ sidelong.HasEntry [text "c"] (text "icon.svg") := by
  refine ⟨by decide, rfl, by decide, by decide, ?_, by decide, by decide, ?_, by decide, by decide, by decide, ?_⟩
  · unfold FileSystem.HasEntry
    decide
  · exact fun h => h.isName.ne_dot rfl
  · unfold FileSystem.HasEntry
    decide

end Audit

end SignalAudit
