import SignalAudit.Proofs.WalkFailure

/-!
A walk in whose way no limit of lookups gets. What it visits are the sources in the directories that can be got to from
where it set out. Its paths have no influence on that; they only decide how often a source is visited.
-/

namespace SignalAudit

namespace FileSystem

variable {fs : FileSystem}

theorem readFile_of_locate {path : Text} {target : Location} {content : ByteArray} (hl : fs.locate path = .ok target)
    (ho : fs.at? target = some (.file content)) : fs.readFile path = .ok content := by
  simp [readFile, openFile, lookup, hl, ho, readObject]

/-- A path ends at the entry of this name in a directory, however the directory was reached. -/
def EndsAt (fs : FileSystem) (path : Text) (dir : Location) (name : Text) : Prop :=
  ∃ above k, Path.IsName name ∧ path = Path.join above name ∧ fs.LeadsClean k above dir

theorem EndsAt.unique {path name name' : Text} {dir dir' : Location} (h : fs.EndsAt path dir name)
    (h' : fs.EndsAt path dir' name') : dir = dir' ∧ name = name' := by
  obtain ⟨above, k, hn, rfl, hk⟩ := h
  obtain ⟨above', k', hn', he, hk'⟩ := h'
  have hcons := congrArg Path.inner he
  rw [Path.inner_join above hn, Path.inner_join above' hn'] at hcons
  obtain ⟨rfl, hinner⟩ := List.cons.inj hcons
  have habs : Path.isAbsolute above = Path.isAbsolute above' := by
    rw [← Path.isAbsolute_join above hn, he, Path.isAbsolute_join above' hn']
  unfold LeadsClean origin at hk hk'
  rw [habs, hinner] at hk
  exact ⟨(hk.unique hk').2, rfl⟩

/-- No two of these paths end at the same entry. -/
def Once (fs : FileSystem) (paths : List Text) : Prop :=
  ∀ a ∈ paths, ∀ b ∈ paths, ∀ dir name, fs.EndsAt a dir name → fs.EndsAt b dir name → a = b

/-- Wherever one of the other paths ends, one of these does too. -/
def Covers (fs : FileSystem) (paths others : List Text) : Prop :=
  ∀ b ∈ others, ∃ a ∈ paths, ∃ dir name, fs.EndsAt a dir name ∧ fs.EndsAt b dir name

theorem Covers.length_le {paths others : List Text} (h : fs.Covers paths others) (nodup : others.Nodup)
    (once : fs.Once others) : others.length ≤ paths.length := by
  choose! f hf hsame using h
  have hinj : ∀ b ∈ others, ∀ b' ∈ others, f b = f b' → b = b' := by
    intro b hb b' hb' he
    obtain ⟨dir, name, hends, hb1⟩ := hsame b hb
    obtain ⟨dir', name', hends', hb2⟩ := hsame b' hb'
    rw [← he] at hends'
    obtain ⟨rfl, rfl⟩ := hends.unique hends'
    exact once b hb b' hb' dir name hb1 hb2
  have hsub : others.map f ⊆ paths := by
    intro a ha
    obtain ⟨b, hb, rfl⟩ := List.mem_map.mp ha
    exact hf b hb
  have hle := (List.subperm_of_subset (List.Nodup.map_on hinj nodup) hsub).length_le
  rwa [List.length_map] at hle

theorem Covers.length_lt {paths others : List Text} (h : fs.Covers paths others) (nodup : others.Nodup)
    (once : fs.Once others) (twice : ¬ fs.Once paths) : others.length < paths.length := by
  simp only [Once, not_forall] at twice
  obtain ⟨a, ha, a', ha', dir, name, hends, hends', hne⟩ := twice
  -- Of two paths that end at the same entry one can be spared.
  have hcovers : fs.Covers (paths.erase a) others := by
    intro b hb
    obtain ⟨c, hc, dir', name', hc1, hc2⟩ := h b hb
    by_cases hca : c = a
    · subst hca
      obtain ⟨rfl, rfl⟩ := hc1.unique hends
      exact ⟨a', (List.mem_erase_of_ne (Ne.symm hne)).mpr ha', dir', name', hends', hc2⟩
    · exact ⟨c, (List.mem_erase_of_ne hca).mpr hc, dir', name', hc1, hc2⟩
  have hle := hcovers.length_le nodup once
  have hpos := List.length_pos_of_mem ha
  rw [List.length_erase_of_mem ha] at hle
  omega

theorem Covers.length_eq_iff {paths others : List Text} (h : fs.Covers paths others) (h' : fs.Covers others paths)
    (nodup : paths.Nodup) (nodup' : others.Nodup) (once : fs.Once others) :
    paths.length = others.length ↔ fs.Once paths := by
  constructor
  · intro hsame
    apply Classical.byContradiction
    intro twice
    exact Nat.ne_of_gt (h.length_lt nodup' once twice) hsame
  · intro once'
    exact Nat.le_antisymm (h'.length_le nodup once') (h.length_le nodup' once)

theorem denotes_of_directory? {path : Text} {dir : Location} (h : fs.directory? path = some dir)
    (hup : Path.dotDot ∉ Path.parts path) : fs.Denotes path dir := by
  obtain ⟨hloc, hdir⟩ := directory?_eq_some_iff.mp h
  obtain ⟨_, _, _, k, _, hk⟩ := locate_eq_ok_iff.mp hloc
  exact ⟨⟨k, hk⟩, ⟨k, hk.leadsClean hup⟩, hdir⟩

end FileSystem

namespace SourceFilter

/-- No limit of lookups gets in the way: of the visible entries of the listed directories, the links, directories and
sources that lead anywhere are found there under their paths, and the directories can be spelled without links. -/
def Unhindered (f : SourceFilter) (fs : FileSystem) (listings : List Listing) : Prop :=
  ∀ l ∈ listings, ∀ dir, fs.directory? l.path = some dir → ∀ e ∈ fs.entries dir, f.Visible e.1 →
    ∀ target, fs.StatsTo dir e.1 target →
      (e.2.isLink = true ∨ fs.isDirectory target = true ∨ f.isSource e.1 = true →
        fs.locate (Path.join l.path e.1) = .ok target) ∧
      (fs.isDirectory target = true → ∃ spelled, fs.canonical (Path.join l.path e.1) = .ok spelled)

/-- A visible entry of a directory that is named like a source and is, links followed, a file with this content. -/
def Holds (f : SourceFilter) (fs : FileSystem) (dir : Location) (name : Text) (content : ByteArray) : Prop :=
  ∃ e ∈ fs.entries dir, e.1 = name ∧ f.Visible name ∧ f.isSource name = true ∧
    ∃ target, fs.StatsTo dir name target ∧ fs.at? target = some (.file content)

section Unhindered

variable {f : SourceFilter} {fs : FileSystem} {listings : List Listing}

theorem Holds.isName {dir : Location} {name : Text} {content : ByteArray} (h : f.Holds fs dir name content) :
    Path.IsName name := by
  obtain ⟨e, he, rfl, _⟩ := h
  exact FileSystem.isName_of_mem_entries he

theorem Unhindered.entryObject (free : f.Unhindered fs listings) {l : Listing} (hl : l ∈ listings)
    {dir target : Location} (hd : fs.directory? l.path = some dir) {e : Text × Object} (he : e ∈ fs.entries dir)
    (visible : f.Visible e.1) (ht : fs.StatsTo dir e.1 target) {object : Object} (ho : fs.at? target = some object) :
    fs.entryObject l.path e = .ok object :=
  FileSystem.entryObject_of_locate he ht ho fun hlink => (free l hl dir hd e he visible target ht).1 (.inl hlink)

theorem Unhindered.fewLinks (free : f.Unhindered fs listings) : f.FewLinks fs listings := by
  rintro l hl dir hd e he visible hlink ⟨target, ht⟩ hmany
  rw [(free l hl dir hd e he visible target ht).1 (.inl hlink)] at hmany
  cases hmany

theorem Unhindered.shortLiveLinks (free : f.Unhindered fs listings) : f.ShortLiveLinks fs listings := by
  intro l hl dir hd e he visible target ht hlink
  have hloc := (free l hl dir hd e he visible target ht).1 (.inl hlink)
  exact (FileSystem.locate_eq_ok_iff.mp hloc).2.2.1

theorem Unhindered.readFile (free : f.Unhindered fs listings) {l : Listing} (hl : l ∈ listings) {dir : Location}
    (hd : fs.directory? l.path = some dir) {name : Text} {content : ByteArray} (holds : f.Holds fs dir name content) :
    fs.readFile (Path.join l.path name) = .ok content := by
  obtain ⟨e, he, rfl, visible, hsource, target, ht, ho⟩ := holds
  have hloc := (free l hl dir hd e he visible target ht).1 (.inr (.inr hsource))
  exact FileSystem.readFile_of_locate hloc ho

/-- What is to be visited in a listed directory are the sources that it holds. -/
theorem Unhindered.task_visit_iff (free : f.Unhindered fs listings) {l : Listing} (hl : l ∈ listings) {dir : Location}
    {k : Nat} (hd : fs.directory? l.path = some dir) (hk : fs.LeadsClean k l.path dir) {path : Text} :
    (∃ e ∈ fs.entries dir, f.task fs l.path e = .visit path) ↔
      ∃ name content, f.Holds fs dir name content ∧ path = Path.join l.path name := by
  constructor
  · rintro ⟨e, he, task⟩
    obtain ⟨hskip, hsource, ⟨content, hobj⟩, rfl⟩ := task_eq_visit_iff.mp task
    obtain ⟨target, ht, ho, _⟩ := FileSystem.entryObject_sound hk he hobj
    exact ⟨e.1, content, ⟨e, he, rfl, visible_iff.mpr hskip, hsource, target, ht, ho⟩, rfl⟩
  · rintro ⟨_, content, ⟨e, he, rfl, visible, hsource, target, ht, ho⟩, rfl⟩
    have hobj := free.entryObject hl hd he visible ht ho
    exact ⟨e, he, task_eq_visit_iff.mpr ⟨visible_iff.mp visible, hsource, ⟨content, hobj⟩, rfl⟩⟩

end Unhindered

end SourceFilter

namespace Walk

variable {σ ε : Type} {w : Walk σ ε} {root : Text} {top : Location} {state : σ} {p : Progress σ}

/-- A directory that has been listed and read can be got to from the root, whether the walk succeeds or fails. -/
theorem place_of_listed (denotes : w.fs.Denotes root top) {error : Option (WalkError ε)}
    (hrun : w.run root state = (p, error)) {l : Listing} (hl : l ∈ p.listings) {dir : Location}
    (hd : w.fs.directory? l.path = some dir) :
    (∃ k, w.fs.LeadsClean k l.path dir) ∧ Relation.ReflTransGen (w.filter.GetsTo w.fs) top dir := by
  have scopes := w.run_inScope root state
  have reaches := reaches_of_listed denotes state
  rw [hrun] at scopes reaches
  exact ⟨(scopes l hl).leadsClean denotes (FileSystem.directory?_eq_some_iff.mp hd).1, reaches l hl dir hd⟩

section Reached

variable {q : Progress (List Text)} (denotes : w.fs.Denotes root top) (ok : w.survey.run root [] = (q, none))
  (few : w.filter.FewLinks w.fs q.listings) (short : w.filter.ShortLiveLinks w.fs q.listings)

include denotes ok few short

theorem exists_listing_of_getsTo {dir : Location} (h : Relation.ReflTransGen (w.filter.GetsTo w.fs) top dir) :
    ∃ l ∈ q.listings, w.fs.directory? l.path = some dir :=
  mem_listed.mp ((mem_listed_iff_reaches denotes ok few short dir).mpr h)

/-- A source in a directory that can be got to is visited under some path. -/
theorem exists_mem_itinerary {dir : Location} (h : Relation.ReflTransGen (w.filter.GetsTo w.fs) top dir)
    {name : Text} {content : ByteArray} (holds : w.filter.Holds w.fs dir name content) :
    ∃ path ∈ w.itinerary root, w.fs.EndsAt path dir name := by
  obtain ⟨l, hl, hd⟩ := exists_listing_of_getsTo denotes ok few short h
  obtain ⟨k, hk⟩ := leadsClean_of_run denotes ok hl hd
  obtain ⟨e, he, rfl, visible, source, target, ht, ho⟩ := holds
  have hobj := entryObject_of_statsTo denotes ok few hl hd he visible ht ho (short l hl dir hd e he visible _ ht)
  have task := SourceFilter.task_eq_visit_iff.mpr
    ⟨SourceFilter.visible_iff.mp visible, source, ⟨content, hobj⟩, rfl⟩
  exact ⟨_, (mem_itinerary_iff_task ok _).mpr ⟨l, hl, dir, hd, e, he, task⟩,
    l.path, k, FileSystem.isName_of_mem_entries he, rfl, hk⟩

/-- What is named like a source in a directory that can be got to leads somewhere. -/
theorem exists_statsTo_of_source {dir : Location} (h : Relation.ReflTransGen (w.filter.GetsTo w.fs) top dir)
    {e : Text × Object} (he : e ∈ w.fs.entries dir) (visible : w.filter.Visible e.1)
    (source : w.filter.isSource e.1 = true) : ∃ target, w.fs.StatsTo dir e.1 target := by
  obtain ⟨l, hl, hd⟩ := exists_listing_of_getsTo denotes ok few short h
  obtain ⟨k, hk⟩ := leadsClean_of_run denotes ok hl hd
  obtain ⟨object, hobj⟩ := entryObject_of_isSource ok hl hd he visible source
  obtain ⟨target, ht, _⟩ := FileSystem.entryObject_sound hk he hobj
  exact ⟨target, ht⟩

end Reached

/-- Every file on an itinerary is a source in a directory that can be got to, whether the walk succeeds or not. -/
theorem holds_of_mem_itinerary (denotes : w.fs.Denotes root top) {path : Text} (h : path ∈ w.itinerary root) :
    ∃ dir name content, Relation.ReflTransGen (w.filter.GetsTo w.fs) top dir ∧
      w.filter.Holds w.fs dir name content ∧ w.fs.EndsAt path dir name := by
  obtain ⟨l, hl, found, read, e, he, task⟩ := w.itinerary_sound root path h
  obtain ⟨dir, hloc, hdir, rfl⟩ := FileSystem.readDirectory_eq_ok_iff.mp read
  have hd := FileSystem.directory?_eq_some_iff.mpr ⟨hloc, hdir⟩
  have hrun : w.survey.run root [] = ((w.survey.run root []).1, (w.survey.run root []).2) := rfl
  obtain ⟨⟨k, hk⟩, reaches⟩ := place_of_listed (w := w.survey) denotes hrun hl hd
  obtain ⟨hskip, source, ⟨content, hobj⟩, rfl⟩ := SourceFilter.task_eq_visit_iff.mp task
  obtain ⟨target, ht, ho, _⟩ := FileSystem.entryObject_sound hk he hobj
  exact ⟨dir, e.1, content, reaches, ⟨e, he, rfl, SourceFilter.visible_iff.mpr hskip, source, target, ht, ho⟩,
    l.path, k, FileSystem.isName_of_mem_entries he, rfl, hk⟩

theorem unhindered_of_found (w : Walk σ ε) (denotes : w.fs.Denotes root top) (state : σ)
    (found : ∀ l ∈ (w.run root state).1.listings, ∀ dir ∈ w.fs.directory? l.path, ∀ e ∈ w.fs.entries dir,
      w.filter.skips e.1 = false →
        (w.fs.locate (Path.join l.path e.1)).isOk = true ∧ (w.fs.canonical (Path.join l.path e.1)).isOk = true) :
    w.filter.Unhindered w.fs (w.run root state).1.listings := by
  intro l hl dir hd e he visible target ht
  obtain ⟨⟨k, hk⟩, _⟩ := place_of_listed denotes (p := (w.run root state).1) rfl hl hd
  obtain ⟨hlocate, hcanonical⟩ := found l hl dir hd e he (SourceFilter.visible_iff.mp visible)
  cases hloc : w.fs.locate (Path.join l.path e.1) with
  | error =>
    rw [hloc] at hlocate
    cases hlocate
  | ok place =>
    obtain rfl := (FileSystem.statsTo_of_locate (FileSystem.isName_of_mem_entries he) hk hloc).unique ht
    -- A lookup that finds anything finds what the entry leads to, so it is enough that there is one.
    refine ⟨fun _ => rfl, fun _ => ?_⟩
    cases hc : w.fs.canonical (Path.join l.path e.1) with
    | error =>
      rw [hc] at hcanonical
      cases hcanonical
    | ok spelled => exact ⟨spelled, rfl⟩

theorem access_of_inScope (denotes : w.fs.Denotes root top) {error : Option (WalkError ε)}
    (hrun : w.run root state = (p, error)) (free : w.filter.Unhindered w.fs p.listings) {spelled : Text}
    (hd : w.fs.directory? root = some top) (hc : w.fs.canonical root = .ok spelled) {path : Text}
    (scope : w.InScope root p path) :
    (∃ found, w.fs.readDirectory path = .ok found) ∧ ∃ spelled, w.fs.canonical path = .ok spelled := by
  rcases scope with rfl | ⟨l, hl, found, read, e, he, task⟩
  · obtain ⟨hloc, hdir⟩ := FileSystem.directory?_eq_some_iff.mp hd
    exact ⟨⟨_, FileSystem.readDirectory_eq_ok_iff.mpr ⟨top, hloc, hdir, rfl⟩⟩, spelled, hc⟩
  · obtain ⟨dir, hloc, hdir, rfl⟩ := FileSystem.readDirectory_eq_ok_iff.mp read
    have hplace := FileSystem.directory?_eq_some_iff.mpr ⟨hloc, hdir⟩
    obtain ⟨⟨k, hk⟩, _⟩ := place_of_listed denotes hrun hl hplace
    obtain ⟨hskip, hobj, rfl⟩ := SourceFilter.task_eq_enter_iff.mp task
    obtain ⟨target, ht, ho, _⟩ := FileSystem.entryObject_sound hk he hobj
    have htarget := FileSystem.isDirectory_iff.mpr ho
    obtain ⟨hfound, hspelled⟩ := free l hl dir hplace e he (SourceFilter.visible_iff.mpr hskip) target ht
    exact ⟨⟨_, FileSystem.readDirectory_eq_ok_iff.mpr ⟨target, hfound (.inr (.inl htarget)), htarget, rfl⟩⟩,
      hspelled htarget⟩

section Success

variable (denotes : w.fs.Denotes root top) (ok : w.run root state = (p, none))
  (free : w.filter.Unhindered w.fs p.listings)

include denotes ok free

theorem exists_listing_of_reaches {dir : Location} (h : Relation.ReflTransGen (w.filter.GetsTo w.fs) top dir) :
    ∃ l ∈ p.listings, w.fs.directory? l.path = some dir := by
  obtain ⟨q, hq, hlistings, _⟩ := survey_of_run ok
  rw [← hlistings] at free ⊢
  exact exists_listing_of_getsTo denotes hq free.fewLinks free.shortLiveLinks h

theorem mem_calls_iff_holds {path : Text} :
    path ∈ w.calls root state ↔ ∃ l ∈ p.listings, ∃ dir, w.fs.directory? l.path = some dir ∧
      ∃ name content, w.filter.Holds w.fs dir name content ∧ path = Path.join l.path name := by
  obtain ⟨q, hq, hlistings, hcalls⟩ := survey_of_run ok
  rw [hcalls, mem_itinerary_iff_task hq, hlistings]
  constructor
  · rintro ⟨l, hl, dir, hd, visits⟩
    obtain ⟨⟨k, hk⟩, _⟩ := place_of_listed denotes ok hl hd
    exact ⟨l, hl, dir, hd, (free.task_visit_iff hl hd hk).mp visits⟩
  · rintro ⟨l, hl, dir, hd, holds⟩
    obtain ⟨⟨k, hk⟩, _⟩ := place_of_listed denotes ok hl hd
    exact ⟨l, hl, dir, hd, (free.task_visit_iff hl hd hk).mpr holds⟩

/-- Every visit is to a source in a directory that can be got to. -/
theorem holds_of_mem_calls {path : Text} (h : path ∈ w.calls root state) :
    ∃ dir name content, Relation.ReflTransGen (w.filter.GetsTo w.fs) top dir ∧
      w.filter.Holds w.fs dir name content ∧ w.fs.EndsAt path dir name ∧ w.fs.readFile path = .ok content := by
  obtain ⟨l, hl, dir, hd, name, content, holds, rfl⟩ := (mem_calls_iff_holds denotes ok free).mp h
  obtain ⟨⟨k, hk⟩, reaches⟩ := place_of_listed denotes ok hl hd
  exact ⟨dir, name, content, reaches, holds, ⟨l.path, k, holds.isName, rfl, hk⟩, free.readFile hl hd holds⟩

/-- And every source in a directory that can be got to is visited. -/
theorem exists_call_of_holds {dir : Location} (reaches : Relation.ReflTransGen (w.filter.GetsTo w.fs) top dir)
    {name : Text} {content : ByteArray} (holds : w.filter.Holds w.fs dir name content) :
    ∃ path ∈ w.calls root state, w.fs.EndsAt path dir name ∧ w.fs.readFile path = .ok content := by
  obtain ⟨l, hl, hd⟩ := exists_listing_of_reaches denotes ok free reaches
  obtain ⟨⟨k, hk⟩, _⟩ := place_of_listed denotes ok hl hd
  exact ⟨Path.join l.path name, (mem_calls_iff_holds denotes ok free).mpr ⟨l, hl, dir, hd, name, content, holds, rfl⟩,
    ⟨l.path, k, holds.isName, rfl, hk⟩, free.readFile hl hd holds⟩

theorem exists_statsTo_of_isSource {dir : Location} (reaches : Relation.ReflTransGen (w.filter.GetsTo w.fs) top dir)
    {e : Text × Object} (he : e ∈ w.fs.entries dir) (visible : w.filter.Visible e.1)
    (hsource : w.filter.isSource e.1 = true) : ∃ target, w.fs.StatsTo dir e.1 target := by
  obtain ⟨q, hq, hlistings, _⟩ := survey_of_run ok
  rw [← hlistings] at free
  exact exists_statsTo_of_source denotes hq free.fewLinks free.shortLiveLinks reaches he visible hsource

/-- From an absolute root no entry is visited under two paths. -/
theorem once_of_absolute (habs : Path.isAbsolute root = true) : w.fs.Once (w.calls root state) := by
  have distinct := w.run_distinct root state
  have absolute := w.run_absolute habs state
  rw [ok] at distinct absolute
  have hplace : ∀ path ∈ w.calls root state, ∀ dir name, w.fs.EndsAt path dir name →
      ∃ l ∈ p.listings, w.fs.directory? l.path = some dir ∧ path = Path.join l.path name := by
    intro path hp dir name hends
    obtain ⟨l, hl, dir', hd, name', content, ⟨e, he, rfl, _⟩, rfl⟩ := (mem_calls_iff_holds denotes ok free).mp hp
    obtain ⟨⟨k, hk⟩, _⟩ := place_of_listed denotes ok hl hd
    obtain ⟨rfl, rfl⟩ := hends.unique ⟨l.path, k, FileSystem.isName_of_mem_entries he, rfl, hk⟩
    exact ⟨l, hl, hd, rfl⟩
  intro a ha b hb dir name hends hends'
  obtain ⟨l, hl, hd, rfl⟩ := hplace a ha dir name hends
  obtain ⟨l', hl', hd', rfl⟩ := hplace b hb dir name hends'
  rw [distinct.eq_of_locate absolute hl hl' (FileSystem.directory?_eq_some_iff.mp hd).1
    (FileSystem.directory?_eq_some_iff.mp hd').1]

end Success

theorem calls_nodup (ok : w.run root state = (p, none)) : (w.calls root state).Nodup := by
  obtain ⟨_, _, _, hcalls⟩ := survey_of_run ok
  rw [hcalls]
  exact w.itinerary_nodup root

/-- Walks that set out from the same directory visit the same entries. -/
theorem calls_covers {root' : Text} {p' : Progress σ} (denotes : w.fs.Denotes root top)
    (ok : w.run root state = (p, none)) (free : w.filter.Unhindered w.fs p.listings)
    (denotes' : w.fs.Denotes root' top) (ok' : w.run root' state = (p', none))
    (free' : w.filter.Unhindered w.fs p'.listings) : w.fs.Covers (w.calls root state) (w.calls root' state) := by
  intro b hb
  obtain ⟨dir, name, content, reaches, holds, hends, _⟩ := holds_of_mem_calls denotes' ok' free' hb
  obtain ⟨a, ha, hends', _⟩ := exists_call_of_holds denotes ok free reaches holds
  exact ⟨a, ha, dir, name, hends', hends⟩

end Walk

end SignalAudit
