import SignalAudit.Proofs.WalkExactness

/-!
The paths that a walk calls its visit with, whatever the visits do. They are below the root by visible names, they lead
to files, and they come in ascending order. A walk visits a file without looking up its path, which may have too many
bytes for that.
-/

namespace SignalAudit

namespace FileSystem

theorem LinkFree.isPlain {fs : FileSystem} {path : Text} {found : List (Text × Object)} (h : fs.LinkFree path)
    (read : fs.readDirectory path = .ok found) : ∃ place, fs.IsPlain path place := by
  obtain ⟨place, hl, hd, _⟩ := readDirectory_eq_ok_iff.mp read
  obtain ⟨_, _, _, k, _, hleads⟩ := locate_eq_ok_iff.mp hl
  rw [show origin path fs.cwd = [] from if_pos h.absolute] at hleads
  obtain rfl := h.free k place hleads
  exact ⟨place, h.absolute, hleads, hd⟩

theorem isName_of_read {fs : FileSystem} {path : Text} {found : List (Text × Object)}
    (read : fs.readDirectory path = .ok found) {e : Text × Object} (he : e ∈ found) : Path.IsName e.1 := by
  obtain ⟨place, _, _, rfl⟩ := readDirectory_eq_ok_iff.mp read
  exact isName_of_mem_entries he

/-- A path with few enough links leads to its object, as it stands and once it is cleaned. -/
structure FindsAt (fs : FileSystem) (path : Text) (place : Location) (object : Object) : Prop where
  absolute : Path.isAbsolute path = true
  leads : ∃ k ≤ lookupLinks, fs.Leads k [] (Path.parts path) place ∧ fs.LeadsClean k path place
  object : fs.at? place = some object

namespace FindsAt

variable {fs : FileSystem} {path : Text} {place : Location} {object : Object}

theorem of_isPlain (h : fs.IsPlain path place) : fs.FindsAt path place .directory :=
  ⟨h.absolute, ⟨0, Nat.zero_le _, h.leads, h.leadsClean⟩, isDirectory_iff.mp h.directory⟩

theorem of_straight {k : Nat} {names : List Text} (h : fs.Straight k names place) (few : k ≤ lookupLinks) :
    fs.FindsAt (spelling names) place .directory := by
  have absolute : Path.isAbsolute (spelling names) = true := Path.isAbsolute_spell h.tidy
  have horigin : origin (spelling names) fs.cwd = [] := if_pos absolute
  have clean : fs.LeadsClean k (spelling names) place := by
    unfold LeadsClean spelling
    rw [Path.inner_spell h.tidy]
    exact horigin ▸ h.leads
  exact ⟨absolute, ⟨k, few, leads_spelling h.tidy h.leads, clean⟩, isDirectory_iff.mp h.isDirectory⟩

theorem origin_eq (h : fs.FindsAt path place object) : origin path fs.cwd = [] := if_pos h.absolute

/-- A lookup of the path fails only for its length. -/
theorem locate_eq (h : fs.FindsAt path place object) :
    fs.locate path = if path.length ≤ longestPath then .ok place else .error .tooLong := by
  obtain ⟨k, few, leads, _⟩ := h.leads
  have hz : (0 : UInt8) ∉ path := zero_not_mem_of_leads leads
  have hne : path ≠ [] := by
    rintro rfl
    cases h.absolute
  split
  · next short =>
    rw [locate_eq_ok_iff, h.origin_eq]
    exact ⟨hz, hne, short, k, few, leads⟩
  · next long => exact locate_of_long hz hne (Nat.lt_of_not_le long)

theorem locate_ne_tooManyLinks (h : fs.FindsAt path place object) : fs.locate path ≠ .error .tooManyLinks := by
  rw [h.locate_eq]
  split <;> nofun

theorem eq_of_directory? (h : fs.FindsAt path place object) {dir : Location} (hd : fs.directory? path = some dir) :
    dir = place := by
  have hloc := (directory?_eq_some_iff.mp hd).1
  rw [h.locate_eq] at hloc
  split at hloc
  · exact (Except.ok.inj hloc).symm
  · cases hloc

theorem stat_eq (h : fs.FindsAt path place object) : fs.stat path =
    if path.length ≤ longestPath then .ok object else .error (.operation .stat path .tooLong) := by
  have hl := h.locate_eq
  split
  · next short =>
    rw [if_pos short] at hl
    exact stat_eq_ok_iff.mpr ⟨place, hl, h.object⟩
  · next long =>
    rw [if_neg long] at hl
    exact stat_of_locate_error hl

theorem readDirectory_eq (h : fs.FindsAt path place .directory) : fs.readDirectory path =
    if path.length ≤ longestPath then .ok (fs.entries place) else .error (.operation .openFile path .tooLong) := by
  have hdir : fs.isDirectory place = true := isDirectory_iff.mpr h.object
  unfold readDirectory
  rw [h.locate_eq]
  by_cases short : path.length ≤ longestPath <;> simp [short, hdir]

theorem readDirectory_eq_error_iff (h : fs.FindsAt path place .directory) {cause : AccessError} :
    fs.readDirectory path = .error cause ↔
      longestPath < path.length ∧ cause = .operation .openFile path .tooLong := by
  rw [h.readDirectory_eq]
  split
  · next short => simp [Nat.not_lt.mpr short]
  · next long => simp [Nat.lt_of_not_le long, eq_comm]

/-- The spelling without links fails only for its length. -/
theorem canonical_eq_error (h : fs.FindsAt path place object) {cause : AccessError}
    (failed : fs.canonical path = .error cause) :
    ∃ spelled, longestPath < spelled.length ∧ cause = .operation .lstat spelled .tooLong := by
  obtain ⟨k, few, leads, _⟩ := h.leads
  rw [← h.origin_eq] at leads
  exact leads.canonical_eq_error (few_of_lookupLinks few) failed

/-- An entry of a directory is found under the path of the directory, unless the path has too many bytes. -/
theorem entry (h : fs.FindsAt path place .directory) {e : Text × Object} (he : e ∈ fs.entries place)
    (hobj : fs.entryObject path e = .ok object) : ∃ target, fs.FindsAt (Path.join path e.1) target object := by
  obtain ⟨k, few, _, clean⟩ := h.leads
  have hn := isName_of_mem_entries he
  have habs : Path.isAbsolute (Path.join path e.1) = true := (Path.isAbsolute_join path hn).trans h.absolute
  have horigin : origin (Path.join path e.1) fs.cwd = [] := if_pos habs
  cases hlink : e.2.isLink with
  | false =>
    rw [entryObject_of_plain hlink] at hobj
    obtain rfl := Except.ok.inj hobj
    have hfound := mem_entries.mp he
    have hclean := (leadsClean_join hn).mpr ⟨k, 0, place, rfl, clean, .descend hfound hlink (.arrive _)⟩
    exact ⟨e.1 :: place, habs, ⟨k, few, horigin ▸ (leads_join hn).mpr hclean, hclean⟩, hfound⟩
  | true =>
    rw [entryObject_of_link hlink] at hobj
    obtain ⟨target, hl, ho⟩ := stat_eq_ok_iff.mp hobj
    obtain ⟨_, _, _, m, hm, hleads⟩ := locate_eq_ok_iff.mp hl
    exact ⟨target, habs, ⟨m, hm, horigin ▸ hleads, (leads_join hn).mp hleads⟩, ho⟩

end FindsAt

end FileSystem

open FileSystem (longestPath spelling)

namespace Walk

variable {σ ε : Type}

/-- A path that a walk from a root comes to by visible names, and what is there. -/
structure Reaches (w : Walk σ ε) (root path : Text) (object : Object) : Prop where
  names : ∃ outer, Path.inner path = outer ++ Path.inner root ∧
    ∀ name ∈ outer, Path.IsName name ∧ w.filter.Visible name
  found : ∃ place, w.fs.FindsAt path place object

section Reaches

variable {w : Walk σ ε} {root : Text} {top : Location}

theorem Reaches.refl (plain : w.fs.IsPlain root top) : w.Reaches root root .directory :=
  ⟨⟨[], rfl, by simp⟩, ⟨top, .of_isPlain plain⟩⟩

theorem Reaches.entry {dir : Text} (h : w.Reaches root dir .directory) {found : List (Text × Object)}
    (read : w.fs.readDirectory dir = .ok found) {e : Text × Object} (he : e ∈ found) (visible : w.filter.Visible e.1)
    {object : Object} (hobj : w.fs.entryObject dir e = .ok object) : w.Reaches root (Path.join dir e.1) object := by
  obtain ⟨⟨outer, hinner, hall⟩, place, hfound⟩ := h
  obtain rfl : w.fs.entries place = found := by
    rw [hfound.readDirectory_eq] at read
    split at read
    · exact Except.ok.inj read
    · cases read
  have hn := FileSystem.isName_of_mem_entries he
  refine ⟨⟨e.1 :: outer, ?_, List.forall_mem_cons.mpr ⟨⟨hn, visible⟩, hall⟩⟩, hfound.entry he hobj⟩
  rw [Path.inner_join dir hn, hinner, List.cons_append]

theorem InScope.reaches (plain : w.fs.IsPlain root top) {p : Progress σ}
    (h : ∀ l ∈ p.listings, w.Reaches root l.path .directory) {dir : Text} (scope : w.InScope root p dir) :
    w.Reaches root dir .directory := by
  rcases scope with rfl | ⟨above, hm, found, read, e, he, ht⟩
  · exact .refl plain
  · obtain ⟨hskip, hobj, rfl⟩ := SourceFilter.task_eq_enter_iff.mp ht
    exact (h above hm).entry read he (SourceFilter.visible_iff.mpr hskip) hobj

theorem Step.reaches (plain : w.fs.IsPlain root top) {p q : Progress σ}
    (h : ∀ l ∈ p.listings, w.Reaches root l.path .directory) (step : w.Step root p q) :
    ∀ l ∈ q.listings, w.Reaches root l.path .directory := by
  cases step with
  | list scope =>
    intro l hl
    rcases List.mem_cons.mp hl with rfl | hl
    · exact scope.reaches plain h
    · exact h l hl
  | visit => exact h

/-- Every directory that a walk has listed is one that it reaches. -/
theorem run_reaches (plain : w.fs.IsPlain root top) (state : σ) :
    ∀ l ∈ (w.run root state).1.listings, w.Reaches root l.path .directory :=
  (w.run_steps root state).invariant (fun p => ∀ l ∈ p.listings, w.Reaches root l.path .directory) (by simp)
    fun _ _ => Step.reaches plain

end Reaches

theorem Step.root_read {w : Walk σ ε} {root : Text} {p q : Progress σ}
    (h : ∀ l ∈ p.listings, l.path = root ∨ ∃ found, w.fs.readDirectory root = .ok found) (step : w.Step root p q) :
    ∀ l ∈ q.listings, l.path = root ∨ ∃ found, w.fs.readDirectory root = .ok found := by
  cases step with
  | visit => exact h
  | list scope =>
    intro l hl
    rcases List.mem_cons.mp hl with rfl | hl
    · rcases scope with rfl | ⟨above, hm, found, read, _⟩
      · exact .inl rfl
      · rcases h above hm with hroot | hread
        · exact .inr ⟨found, hroot ▸ read⟩
        · exact .inr hread
    · exact h l hl

/-- A walk reads its root before anything else. -/
theorem root_read_of_run (w : Walk σ ε) (root : Text) (state : σ) {l : Listing}
    (hl : l ∈ (w.run root state).1.listings) {found : List (Text × Object)}
    (read : w.fs.readDirectory l.path = .ok found) : ∃ found, w.fs.readDirectory root = .ok found := by
  have inv := (w.run_steps root state).invariant
    (fun p => ∀ l ∈ p.listings, l.path = root ∨ ∃ found, w.fs.readDirectory root = .ok found) (by simp)
    fun _ _ => Step.root_read
  rcases inv l hl with hroot | hread
  · exact ⟨found, hroot ▸ read⟩
  · exact hread

/-- A file of an itinerary is reached as an entry of a directory that is reached. -/
theorem itinerary_reaches {w : Walk σ ε} {root : Text} (free : w.fs.LinkFree root) {path : Text}
    (h : path ∈ w.itinerary root) : ∃ dir name content, path = Path.join dir name ∧ Path.IsName name ∧
      w.filter.Visible name ∧ w.filter.isSource name = true ∧ w.Reaches root dir .directory ∧
      w.Reaches root path (.file content) := by
  obtain ⟨l, hl, found, read, e, he, task⟩ := w.itinerary_sound root path h
  obtain ⟨_, hroot⟩ := w.survey.root_read_of_run root [] hl read
  obtain ⟨top, plain⟩ := free.isPlain hroot
  have reaches : w.Reaches root l.path .directory := by
    obtain ⟨names, finds⟩ := run_reaches (w := w.survey) plain [] l hl
    exact ⟨names, finds⟩
  obtain ⟨hskip, hsource, ⟨content, hobj⟩, rfl⟩ := SourceFilter.task_eq_visit_iff.mp task
  have visible := SourceFilter.visible_iff.mpr hskip
  exact ⟨l.path, e.1, content, rfl, FileSystem.isName_of_read read he, visible, hsource, reaches,
    reaches.entry read he visible hobj⟩

theorem called_isPrefix (w : Walk σ ε) (paths : List Text) (s : σ) : w.called paths s <+: paths := by
  induction paths generalizing s with
  | nil => exact List.prefix_rfl
  | cons path rest ih =>
    rw [called]
    rcases w.visit path s with ⟨s, _ | cause⟩
    · exact (List.prefix_cons_inj path).mpr (ih s)
    · exact ⟨rest, rfl⟩

theorem calls_isPrefix (w : Walk σ ε) (root : Text) (state : σ) : w.calls root state <+: w.itinerary root := by
  rw [calls_eq_called]
  exact w.called_isPrefix _ state

/-- A walk from an absolute root without links. Whether it fails or not, each path that it visits is the cleaned root
followed by one or more visible names, the last of them that of a source. The path leads to a file, and a lookup finds
the file unless the path has too many bytes. The paths ascend strictly in the order of their parts. -/
theorem calls_below_root (w : Walk σ ε) {root : Text} (free : w.fs.LinkFree root) (state : σ) :
    (∀ path ∈ w.calls root state,
      (∃ name outer, path = Path.spell true (name :: (outer ++ Path.inner root)) ∧ w.filter.isSource name = true ∧
        ∀ part ∈ name :: outer, Path.IsName part ∧ w.filter.Visible part) ∧
      ∃ k place content, k ≤ FileSystem.lookupLinks ∧ w.fs.Leads k [] (Path.parts path) place ∧
        w.fs.at? place = some (.file content) ∧
        w.fs.stat path =
          if path.length ≤ longestPath then .ok (.file content) else .error (.operation .stat path .tooLong)) ∧
      (w.calls root state).Pairwise Path.Before ∧ (w.calls root state).Nodup := by
  have hcalls := w.calls_isPrefix root state
  refine ⟨?_, (w.itinerary_ascending root).sublist hcalls.sublist, (w.itinerary_nodup root).sublist hcalls.sublist⟩
  intro path hpath
  obtain ⟨dir, name, content, hjoin, hname, visible, hsource, above, reaches⟩ :=
    itinerary_reaches free (hcalls.subset hpath)
  refine ⟨?_, ?_⟩
  · obtain ⟨⟨outer, hinner, hall⟩, _, finds⟩ := above
    refine ⟨name, outer, ?_, hsource, List.forall_mem_cons.mpr ⟨⟨hname, visible⟩, hall⟩⟩
    rw [hjoin, Path.join_eq_spell dir hname, finds.absolute, hinner]
  · obtain ⟨place, finds⟩ := reaches.found
    obtain ⟨k, few, leads, _⟩ := finds.leads
    exact ⟨k, place, content, few, leads, finds.object, finds.stat_eq⟩

/-- A walk over `looped` whose third visit fails. -/
def tiring : Walk Nat Unit := ⟨looped, .standard, fun _ n => (n + 1, if n = 2 then some () else none)⟩

theorem tiring_below_root : looped.LinkFree (text "/r") ∧
    tiring.calls (text "/r") 0 = [text "/r/a.cpp", text "/r/c.cpp", text "/r/lib/b.h"] ∧
    (∃ k place content, k ≤ FileSystem.lookupLinks ∧ looped.Leads k [] (Path.parts (text "/r/lib/b.h")) place ∧
      looped.at? place = some (.file content) ∧ looped.stat (text "/r/lib/b.h") = .ok (.file content)) ∧
    [text "/r/a.cpp", text "/r/c.cpp", text "/r/lib/b.h"].Pairwise Path.Before := by
  have hcalls : tiring.calls (text "/r") 0 = [text "/r/a.cpp", text "/r/c.cpp", text "/r/lib/b.h"] := by decide +kernel
  obtain ⟨hall, hascend, _⟩ := calls_below_root tiring looped_plain.linkFree 0
  rw [hcalls] at hall hascend
  obtain ⟨_, k, place, content, few, leads, hfile, hstat⟩ := hall (text "/r/lib/b.h") (by simp)
  rw [if_pos (by decide)] at hstat
  exact ⟨looped_plain.linkFree, hcalls, ⟨k, place, content, few, leads, hfile, hstat⟩, hascend⟩

/-- A walk from a root with a single entry does the task of that entry. -/
theorem run_of_single (w : Walk σ ε) {root canonical : Text} {e : Text × Object} {n : Nat}
    (depth : depthBound w.fs = n + 1) (spelled : w.fs.canonical root = .ok canonical)
    (read : w.fs.readDirectory root = .ok [e]) (state : σ) :
    w.run root state = w.perform (w.enter n) ⟨[⟨canonical, root⟩], state⟩ (w.filter.task w.fs root e) := by
  unfold run
  rw [depth, enter_of_fresh spelled rfl read, entries_singleton]

/-- A name as long as names can be. -/
def storey (i : Nat) : Text := (0x61 + i.toUInt8) :: List.replicate 254 0x2D

def storeys (n : Nat) : Location := ((List.range n).map storey).reverse

/-- Fifteen directories with long names, one in the other, and an object in the last of them. -/
def tower (name : Text) (object : Object) : FileSystem where
  objects := (name :: storeys 15, object) :: (List.range 15).map fun i => (storeys (i + 1), .directory)

theorem storeys_short : (spelling (storeys 15)).length ≤ longestPath := by decide +kernel

theorem tower_entries {name : Text} {object : Object}
    (h : ((tower name object).entries (storeys 15)).map Prod.fst = [name]) :
    (tower name object).entries (storeys 15) = [(name, object)] := by
  obtain ⟨e, he, hname⟩ := List.map_eq_singleton_iff.mp h
  have hfound : (tower name object).at? (e.1 :: storeys 15) = some e.2 := FileSystem.mem_entries.mp (by simp [he])
  have hlookup := (FileSystem.at?_cons hfound).2.2
  rw [hname, tower, List.lookup_cons_self] at hlookup
  rw [he, ← hname, Option.some.inj hlookup]

/-- A source with a name as long as names can be. -/
def attic : Text := List.replicate 251 0x78 ++ text ".cpp"

def climbing : Walk (List Text) Unit :=
  ⟨tower attic (.file .empty), .standard, fun path seen => (seen ++ [path], none)⟩

theorem climbing_top : climbing.fs.isDirectory (storeys 15) = true := by decide +kernel

theorem climbing_entries : climbing.fs.entries (storeys 15) = [(attic, .file .empty)] :=
  tower_entries (by decide +kernel)

-- The paths are too long to be computed with, so the walk is followed by what is known of a directory's own spelling.
theorem climbing_run : climbing.run (spelling (storeys 15)) [] =
    (⟨[⟨spelling (storeys 15), spelling (storeys 15)⟩], [Path.join (spelling (storeys 15)) attic]⟩, none) := by
  have spelled := FileSystem.canonical_spelling climbing_top storeys_short
  have read := (FileSystem.FindsAt.of_isPlain (FileSystem.isPlain_spelling climbing_top)).readDirectory_eq
  rw [if_pos storeys_short, climbing_entries] at read
  have task : climbing.filter.task climbing.fs (spelling (storeys 15)) (attic, .file .empty) = .visit _ :=
    SourceFilter.task_eq_visit_iff.mpr ⟨by decide, by decide, ⟨_, FileSystem.entryObject_of_plain rfl⟩, rfl⟩
  obtain ⟨n, hn⟩ : ∃ n, depthBound climbing.fs = n + 1 := ⟨_, rfl⟩
  rw [climbing.run_of_single hn spelled read, task]
  rfl

/-- The source in the attic is visited under a path that no lookup finds. -/
theorem climbing_visits_unfound : climbing.fs.LinkFree (spelling (storeys 15)) ∧
    ∃ path, climbing.calls (spelling (storeys 15)) [] = [path] ∧
      climbing.fs.stat path = .error (.operation .stat path .tooLong) := by
  have plain := FileSystem.isPlain_spelling climbing_top
  refine ⟨plain.linkFree, Path.join (spelling (storeys 15)) attic, ?_, ?_⟩
  · obtain ⟨_, _, hcalls⟩ := run_of_never_fails (w := climbing) (fun _ _ => rfl) (spelling (storeys 15)) []
    have hsurvey : climbing.survey = climbing := rfl
    rw [hcalls, itinerary, hsurvey, climbing_run]
  · have hentry : (attic, .file .empty) ∈ climbing.fs.entries (storeys 15) := by simp [climbing_entries]
    obtain ⟨_, finds⟩ := (FileSystem.FindsAt.of_isPlain plain).entry hentry (FileSystem.entryObject_of_plain rfl)
    have hlong : ¬ (Path.join (spelling (storeys 15)) attic).length ≤ longestPath := by
      rw [FileSystem.join_spelling (FileSystem.mem_entries.mp hentry)]
      decide +kernel
    rw [finds.stat_eq, if_neg hlong]

end Walk

end SignalAudit
