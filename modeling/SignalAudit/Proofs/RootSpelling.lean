import SignalAudit.Proofs.OrderIndependence
import SignalAudit.Proofs.ScanExactness
import SignalAudit.Proofs.UnhinderedWalk

/-!
How the root of a scan is spelled. Where no limit of lookups gets in the way, a scan depends on its root only by the
directory that it leads to, except in one thing: from a relative root the same directory may be entered under a relative
and an absolute spelling, and then its sources are counted twice.
-/

namespace SignalAudit

namespace ScanOptions

variable (o : ScanOptions) (fs : FileSystem)

/-- What can be got to from a directory lets a scan succeed: entries that are named like sources lead somewhere, and the
sources can be classified to their end. -/
structure Clear (top : Location) : Prop where
  leads : ∀ dir, Relation.ReflTransGen (o.filter.GetsTo fs) top dir → ∀ e ∈ fs.entries dir, o.filter.Visible e.1 →
    o.filter.isSource e.1 = true → ∃ target, fs.StatsTo dir e.1 target
  classifies : ∀ dir, Relation.ReflTransGen (o.filter.GetsTo fs) top dir → ∀ name content,
    o.filter.Holds fs dir name content → ∀ raw ∈ Text.rawLines content,
      ∃ m, Yields (Pattern.orStandard o.patterns) raw m

/-- A line of a source that can be got to from a directory says this about a signal. -/
def Tells (top : Location) (m : Match) : Prop :=
  ∃ dir, Relation.ReflTransGen (o.filter.GetsTo fs) top dir ∧ ∃ name content, o.filter.Holds fs dir name content ∧
    ∃ raw ∈ Text.rawLines content, Yields (Pattern.orStandard o.patterns) raw m

theorem files_scan {root : Text} {u : Usage} (h : scan fs o root = .ok u) :
    u.files = ((o.walk fs).calls root {}).length :=
  (o.scan_gathers fs h).files.trans (Nat.zero_add _)

section Root

variable {o fs} {root spelled : Text} {top : Location} (denotes : fs.Denotes root top)
  (free : o.filter.Unhindered fs ((o.walk fs).run root {}).1.listings)

include denotes free

theorem clear_of_run {p : Progress Usage} (ok : (o.walk fs).run root {} = (p, none)) : o.Clear fs top := by
  obtain ⟨_, fine⟩ := (Walk.run_eq_none_iff (o.visit_eq_none_iff fs) root {}).mp (congrArg Prod.snd ok)
  obtain ⟨_, _, _, hcalls⟩ := Walk.survey_of_run ok
  rw [ok] at free
  refine ⟨?_, ?_⟩
  · intro dir reaches e he visible hsource
    exact Walk.exists_statsTo_of_isSource denotes ok free reaches he visible hsource
  · intro dir reaches name content holds
    obtain ⟨path, hp, _, hread⟩ := Walk.exists_call_of_holds denotes ok free reaches holds
    obtain ⟨content', hread', lines⟩ := fine path (hcalls ▸ hp)
    obtain rfl := Except.ok.inj (hread.symm.trans hread')
    exact lines

theorem finds_iff_tells {p : Progress Usage} (ok : (o.walk fs).run root {} = (p, none)) (m : Match) :
    o.Finds fs root m ↔ o.Tells fs top m := by
  rw [ok] at free
  constructor
  · rintro ⟨path, hp, content, hread, said⟩
    obtain ⟨dir, name, content', reaches, holds, _, hread'⟩ := Walk.holds_of_mem_calls denotes ok free hp
    obtain rfl := Except.ok.inj (hread.symm.trans hread')
    exact ⟨dir, reaches, name, content, holds, said⟩
  · rintro ⟨dir, reaches, name, content, holds, said⟩
    obtain ⟨path, hp, _, hread⟩ := Walk.exists_call_of_holds denotes ok free reaches holds
    exact ⟨path, hp, content, hread, said⟩

/-- Only what is not clear can stop a scan that has access to its root. -/
theorem run_of_clear (hd : fs.directory? root = some top) (hc : fs.canonical root = .ok spelled)
    (clear : o.Clear fs top) : ((o.walk fs).run root {}).2 = none := by
  rcases hrun : (o.walk fs).run root {} with ⟨p, _ | error⟩
  · rfl
  rw [hrun] at free
  obtain ⟨stopped, shallow⟩ := Walk.run_stopped hrun
  have haccess {path : Text} (scope : (o.walk fs).InScope root p path) :=
    Walk.access_of_inScope denotes hrun free hd hc scope
  cases stopped with
  | unspelled scope failed =>
    obtain ⟨_, _, hspelled⟩ := haccess scope
    cases hspelled.symm.trans failed
  | unread scope failed =>
    obtain ⟨⟨_, hread⟩, _⟩ := haccess scope
    cases hread.symm.trans failed
  | @entry l found e path cause listed read entry task =>
    obtain ⟨dir, hloc, hdir, rfl⟩ := FileSystem.readDirectory_eq_ok_iff.mp read
    have hplace := FileSystem.directory?_eq_some_iff.mpr ⟨hloc, hdir⟩
    obtain ⟨_, reaches⟩ := Walk.place_of_listed denotes hrun listed hplace
    obtain ⟨hskip, hsource, hobj, _⟩ := SourceFilter.task_eq_fail_iff.mp task
    have visible := SourceFilter.visible_iff.mpr hskip
    -- It leads somewhere, so it was found: an entry is not found only if it leads nowhere.
    obtain ⟨target, ht⟩ := clear.leads dir reaches e entry visible hsource
    obtain ⟨object, ho, _⟩ := ht.exists_object
    cases (free.entryObject listed hplace entry visible ht ho).symm.trans hobj
  | @visit l found e path s cause listed read entry task failed =>
    obtain ⟨dir, hloc, hdir, rfl⟩ := FileSystem.readDirectory_eq_ok_iff.mp read
    have hplace := FileSystem.directory?_eq_some_iff.mpr ⟨hloc, hdir⟩
    obtain ⟨⟨k, hk⟩, reaches⟩ := Walk.place_of_listed denotes hrun listed hplace
    obtain ⟨name, content, holds, rfl⟩ := (free.task_visit_iff listed hplace hk).mp ⟨e, entry, task⟩
    have fine : Classifies fs (Pattern.orStandard o.patterns) (Path.join l.path name) :=
      ⟨content, free.readFile listed hplace holds, clear.classifies dir reaches name content holds⟩
    rw [(o.visit_eq_none_iff fs _ s).mpr fine] at failed
    cases failed
  | depth dir => exact absurd rfl (shallow dir)

theorem scan_succeeds_iff_clear (hd : fs.directory? root = some top) (hc : fs.canonical root = .ok spelled) :
    (∃ u, scan fs o root = .ok u) ↔ o.Clear fs top := by
  constructor
  · rintro ⟨u, hu⟩
    obtain ⟨hnone, _⟩ := (o.scan_eq_ok_iff fs).mp hu
    exact clear_of_run denotes free (Prod.ext rfl hnone)
  · intro clear
    exact ⟨_, (o.scan_eq_ok_iff fs).mpr ⟨run_of_clear denotes free hd hc clear, rfl⟩⟩

theorem mem_names_iff_tells {u : Usage} (hu : scan fs o root = .ok u) (k : Kind) (hk : k.Kept) (name : Text) :
    name ∈ u.names k ↔ o.Tells fs top ⟨k, name⟩ := by
  obtain ⟨hnone, _⟩ := (o.scan_eq_ok_iff fs).mp hu
  rw [o.mem_names_scan fs hu k hk, finds_iff_tells denotes free (Prod.ext rfl hnone)]

end Root

end ScanOptions

/-- A root that leads to the same directory once it is cleaned, as it does when it nowhere goes up; and no limit of
lookups gets in the way of the scans from it and from the absolute spelling of its directory. Then both scans succeed or
both fail, and if they succeed the names of all four kinds are the same. The scan from the root counts no fewer files,
and more just when it has come by some entry under two paths, which it never does from an absolute root. -/
theorem scan_ignores_spelling (fs : FileSystem) (o : ScanOptions) {root spelled : Text} {top : Location}
    (hd : fs.directory? root = some top) (hclean : ∃ k, fs.LeadsClean k root top) (hc : fs.canonical root = .ok spelled)
    (hlen : (fs.absolute spelled).length ≤ FileSystem.longestPath)
    (free : o.filter.Unhindered fs ((o.walk fs).run root {}).1.listings)
    (free' : o.filter.Unhindered fs ((o.walk fs).run (fs.absolute spelled) {}).1.listings) :
    ((∃ u, scan fs o root = .ok u) ↔ ∃ v, scan fs o (fs.absolute spelled) = .ok v) ∧
      ∀ u v, scan fs o root = .ok u → scan fs o (fs.absolute spelled) = .ok v →
        u.declared = v.declared ∧ u.emitted = v.emitted ∧ u.connected = v.connected ∧
          u.compatConnected = v.compatConnected ∧ v.files ≤ u.files ∧
          (u.files = v.files ↔ fs.Once ((o.walk fs).calls root {})) ∧ (Path.isAbsolute root = true → u = v) := by
  obtain ⟨hloc, hdir⟩ := FileSystem.directory?_eq_some_iff.mp hd
  obtain ⟨_, _, _, k, _, hk⟩ := FileSystem.locate_eq_ok_iff.mp hloc
  have hspelled := FileSystem.absolute_canonical_eq hc hloc
  rw [hspelled] at hlen free' ⊢
  have denotes : fs.Denotes root top := ⟨⟨k, hk⟩, hclean, hdir⟩
  have denotes' : fs.Denotes (FileSystem.spelling top) top := (FileSystem.isPlain_spelling hdir).denotes
  have hd' := FileSystem.directory?_spelling hdir hlen
  have hc' := FileSystem.canonical_spelling hdir hlen
  refine ⟨?_, ?_⟩
  · rw [ScanOptions.scan_succeeds_iff_clear denotes free hd hc,
      ScanOptions.scan_succeeds_iff_clear denotes' free' hd' hc']
  · intro u v hu hv
    have hnames : ∀ kind, kind.Kept → ∀ name, name ∈ u.names kind ↔ name ∈ v.names kind := by
      intro kind hkept name
      rw [ScanOptions.mem_names_iff_tells denotes free hu kind hkept,
        ScanOptions.mem_names_iff_tells denotes' free' hv kind hkept]
    have ok : (o.walk fs).run root {} = (((o.walk fs).run root {}).1, none) :=
      Prod.ext rfl ((o.scan_eq_ok_iff fs).mp hu).1
    have ok' : (o.walk fs).run (FileSystem.spelling top) {} =
        (((o.walk fs).run (FileSystem.spelling top) {}).1, none) :=
      Prod.ext rfl ((o.scan_eq_ok_iff fs).mp hv).1
    have once' := Walk.once_of_absolute denotes' ok' free' (FileSystem.isPlain_spelling hdir).absolute
    have covers := Walk.calls_covers denotes ok free denotes' ok' free'
    have covers' := Walk.calls_covers denotes' ok' free' denotes ok free
    have hle : v.files ≤ u.files := by
      rw [o.files_scan fs hu, o.files_scan fs hv]
      exact covers.length_le (Walk.calls_nodup ok') once'
    have hiff : u.files = v.files ↔ fs.Once ((o.walk fs).calls root {}) := by
      rw [o.files_scan fs hu, o.files_scan fs hv]
      exact covers.length_eq_iff covers' (Walk.calls_nodup ok) (Walk.calls_nodup ok') once'
    refine ⟨NameSet.ext (hnames .declaration ⟨nofun, nofun⟩), NameSet.ext (hnames .emission ⟨nofun, nofun⟩),
      NameSet.ext (hnames .connection ⟨nofun, nofun⟩), NameSet.ext (hnames .compatConnection ⟨nofun, nofun⟩),
      hle, hiff, ?_⟩
    intro habs
    exact Usage.ext_names hnames (hiff.mpr (Walk.once_of_absolute denotes ok free habs))

theorem shared_counted_once :
    shared.directory? (text "e/up") = some [text "r"] ∧ shared.canonical (text "e/up") = .ok (text "/r") ∧
    scan shared ⟨.standard, []⟩ (text "e/up") = .ok
      ⟨.ofList [text "done"], .ofList [text "done"], .ofList [text "hit"], ∅, 2⟩ ∧
    ∃ v, scan shared ⟨.standard, []⟩ (text "/r") = .ok v ∧ v.connected = .ofList [text "hit"] ∧ v.files ≤ 2 := by
  have hd : shared.directory? (text "e/up") = some [text "r"] := by decide
  have hc : shared.canonical (text "e/up") = .ok (text "/r") := by decide
  have hscan : scan shared ⟨.standard, []⟩ (text "e/up") = .ok
      ⟨.ofList [text "done"], .ofList [text "done"], .ofList [text "hit"], ∅, 2⟩ := by decide +kernel
  have habs : shared.absolute (text "/r") = text "/r" := by decide
  have denotes : shared.Denotes (text "e/up") [text "r"] := FileSystem.denotes_of_directory? hd (by decide)
  have denotes' : shared.Denotes (shared.absolute (text "/r")) [text "r"] :=
    FileSystem.denotes_of_directory? (by decide) (by decide)
  have free : SourceFilter.standard.Unhindered shared
      ((ScanOptions.walk ⟨.standard, []⟩ shared).run (text "e/up") {}).1.listings :=
    Walk.unhindered_of_found (ScanOptions.walk ⟨.standard, []⟩ shared) denotes {} (by decide +kernel)
  have free' : SourceFilter.standard.Unhindered shared
      ((ScanOptions.walk ⟨.standard, []⟩ shared).run (shared.absolute (text "/r")) {}).1.listings :=
    Walk.unhindered_of_found (ScanOptions.walk ⟨.standard, []⟩ shared) denotes' {} (by decide +kernel)
  obtain ⟨hboth, hsame⟩ := scan_ignores_spelling shared ⟨.standard, []⟩ hd denotes.clean hc (by decide) free free'
  obtain ⟨v, hv⟩ := hboth.mp ⟨_, hscan⟩
  obtain ⟨_, _, hconnected, _, hle, _⟩ := hsame _ v hscan hv
  rw [habs] at hv
  exact ⟨hd, hc, hscan, v, hv, hconnected.symm, hle⟩

/-- A directory that is left upwards from behind a link to the one below it. -/
def detour : FileSystem where
  objects := [
    ([text "a"], .directory),
    ([text "b", text "a"], .directory),
    ([text "x.cpp", text "a"], .file ⟨(text "emit_signal(\"done\");").toArray⟩),
    ([text "link"], .link (text "a/b"))]

/-- From a relative root the files of `shared` are counted twice; and a root that goes up from behind a link fails to be
scanned, though the directory that it leads to does not. -/
theorem shared_counted_twice :
    shared.canonical (text "r") = .ok (text "r") ∧ shared.absolute (text "r") = text "/r" ∧
      (scan shared ⟨.standard, []⟩ (text "r")).map Usage.files = .ok 4 ∧
      (scan shared ⟨.standard, []⟩ (text "/r")).map Usage.files = .ok 2 ∧
    detour.canonical (text "link/..") = .ok (text "a") ∧ detour.absolute (text "a") = text "/a" ∧
      scan detour ⟨.standard, []⟩ (text "link/..") =
        .error (.access (text "b") (.operation .lstat (text "b") .notFound)) ∧
      (scan detour ⟨.standard, []⟩ (text "/a")).map Usage.files = .ok 1 := by
  decide +kernel

end SignalAudit
