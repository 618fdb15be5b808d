import SignalAudit.Proofs.UnhinderedWalk
import SignalAudit.Proofs.WalkObstacles

/-!
Walks that ignore more names. The path to a directory may be another one where the way of before is ignored, so the
paths visited have nothing to do with each other. But what can be got to is less, and a walk that succeeds has got to
all that it can. So what is visited where more is ignored is visited where less is, unless a path has too many bytes.
-/

namespace SignalAudit

open FileSystem (longestPath spelling)

namespace SourceFilter

/-- One filter ignores all that another ignores, and they take the same names for those of sources. -/
structure IgnoresMore (f' f : SourceFilter) : Prop where
  ignored : f.ignored ⊆ f'.ignored
  extensions : f'.extensions = f.extensions
  excluded : f'.excluded = f.excluded

section IgnoresMore

variable {f f' : SourceFilter} {fs : FileSystem}

theorem IgnoresMore.visible (more : f'.IgnoresMore f) {name : Text} (h : f'.Visible name) : f.Visible name :=
  ⟨h.1, fun hm => h.2 (more.ignored hm)⟩

theorem IgnoresMore.isSource (more : f'.IgnoresMore f) (name : Text) : f'.isSource name = f.isSource name := by
  unfold SourceFilter.isSource
  rw [more.extensions, more.excluded]

theorem IgnoresMore.getsTo (more : f'.IgnoresMore f) {dir target : Location} (h : f'.GetsTo fs dir target) :
    f.GetsTo fs dir target := by
  obtain ⟨e, he, visible, hs, hd⟩ := h
  exact ⟨e, he, more.visible visible, hs, hd⟩

theorem IgnoresMore.reaches (more : f'.IgnoresMore f) {top dir : Location}
    (h : Relation.ReflTransGen (f'.GetsTo fs) top dir) : Relation.ReflTransGen (f.GetsTo fs) top dir :=
  Relation.ReflTransGen.mono (fun _ _ => more.getsTo) _ _ h

end IgnoresMore

end SourceFilter

namespace Walk

variable {σ τ ε ε' : Type}

/-- A walk from an absolute root without links that succeeds has set out from a directory. -/
theorem isPlain_of_run {w : Walk σ ε} {root : Text} (free : w.fs.LinkFree root) {q : Progress (List Text)}
    (ok : w.survey.run root [] = (q, none)) : ∃ top, w.fs.IsPlain root top := by
  obtain ⟨_, _, known⟩ := (w.enter_completes _ root ⟨[], []⟩ q ok).1
  obtain ⟨l, hl, _⟩ := knows_iff.mp known
  obtain ⟨found, read, _⟩ := finished_of_run ok l hl
  have hroot := w.survey.root_read_of_run root [] (l := l)
  rw [ok] at hroot
  obtain ⟨_, hroot⟩ := hroot hl read
  exact free.isPlain hroot

section Hindered

variable {w' : Walk τ ε} {root : Text} {top : Location}

/-- What hinders a walk from an absolute root without links is a path with too many bytes, or a link that is named like
a source and is not found. -/
theorem Hinders.tooLong_or_dangling (plain : w'.fs.IsPlain root top) {p : Progress τ}
    (reaches : ∀ l ∈ p.listings, w'.Reaches root l.path .directory) {path : Text} {cause : AccessError}
    (h : w'.Hinders root p.listings path cause) :
    (∃ op spelled, cause = .operation op spelled .tooLong ∧ longestPath < spelled.length) ∨
      ∃ l e, w'.Offers p.listings l e ∧ e.2.isLink = true ∧ w'.filter.isSource e.1 = true ∧
        w'.fs.stat (Path.join l.path e.1) = .error cause := by
  cases h with
  | root failed =>
    obtain ⟨spelled, hlong, rfl⟩ := (FileSystem.FindsAt.of_isPlain plain).canonical_eq_error failed
    exact .inl ⟨_, spelled, rfl, hlong⟩
  | unread listed failed =>
    obtain ⟨_, place, finds⟩ := reaches _ listed
    obtain ⟨hlong, rfl⟩ := finds.readDirectory_eq_error_iff.mp failed
    exact .inl ⟨_, _, rfl, hlong⟩
  | unspelled offers directory failed =>
    obtain ⟨listed, ⟨found, read, he⟩, visible⟩ := offers
    obtain ⟨_, place, finds⟩ := (reaches _ listed).entry read he visible directory
    obtain ⟨spelled, hlong, rfl⟩ := finds.canonical_eq_error failed
    exact .inl ⟨_, spelled, rfl, hlong⟩
  | dangling offers link source failed => exact .inr ⟨_, _, offers, link, source, failed⟩

/-- A link that leads somewhere is not found for the length of its path, where no lookup gives up for the number of
links. -/
theorem Offers.stat_eq_tooLong {p : Progress τ} {l : Listing} {e : Text × Object} {dir target : Location} {k : Nat}
    (few : w'.filter.FewLinks w'.fs p.listings) (offers : w'.Offers p.listings l e) (link : e.2.isLink = true)
    (hd : w'.fs.directory? l.path = some dir) (he : e ∈ w'.fs.entries dir) (hk : w'.fs.LeadsClean k l.path dir)
    (ht : w'.fs.StatsTo dir e.1 target) {cause : AccessError}
    (failed : w'.fs.stat (Path.join l.path e.1) = .error cause) :
    longestPath < (Path.join l.path e.1).length ∧
      cause = .operation .stat (Path.join l.path e.1) .tooLong := by
  have hname := FileSystem.isName_of_mem_entries he
  have hmany := few l offers.listed dir hd e he offers.visible link ⟨target, ht⟩
  have hlong : longestPath < (Path.join l.path e.1).length := by
    by_contra hshort
    have hloc := FileSystem.locate_of_statsTo hname hk ht (Nat.le_of_not_lt hshort) hmany
    obtain ⟨object, ho, _⟩ := ht.exists_object
    rw [FileSystem.stat_eq_ok_iff.mpr ⟨target, hloc, ho⟩] at failed
    cases failed
  obtain ⟨own, hown⟩ := ht
  have hleads := (FileSystem.leads_join hname).mpr ((FileSystem.leadsClean_join hname).mpr ⟨k, own, dir, rfl, hk, hown⟩)
  have hloc : w'.fs.locate (Path.join l.path e.1) = .error .tooLong :=
    FileSystem.locate_of_long (FileSystem.zero_not_mem_of_leads hleads) (FileSystem.join_ne_nil l.path hname) hlong
  rw [FileSystem.stat_of_locate_error hloc] at failed
  exact ⟨hlong, (Except.error.inj failed).symm⟩

end Hindered

/-- Suppose a walk from an absolute root without links succeeds, and no link that leads somewhere is beyond a limit of
lookups there. Then a walk that ignores more names comes to no entry that the first has not visited, whether it fails or
not. And it does not fail, unless a path has too many bytes. -/
theorem run_ignoring_more (w : Walk σ ε) {w' : Walk τ ε'} (fs : w'.fs = w.fs) (more : w'.filter.IgnoresMore w.filter)
    (never : ∀ path s, (w'.visit path s).2 = none) {root : Text} (free : w.fs.LinkFree root) {state : σ}
    {p : Progress σ} (ok : w.run root state = (p, none)) (few : w.filter.FewLinks w.fs p.listings)
    (short : w.filter.ShortLiveLinks w.fs p.listings) {start : τ} {p' : Progress τ} {outcome : Option (WalkError ε')}
    (h : w'.run root start = (p', outcome)) (few' : w'.filter.FewLinks w.fs p'.listings) :
    w.fs.Covers (w.calls root state) (w'.calls root start) ∧
      ∀ error, outcome = some error → ∃ path op spelled, longestPath < spelled.length ∧
        error = .access path (.operation op spelled .tooLong) ∧
        ∀ describe, error.message describe = text "failed to walk directory: error accessing " ++ path ++
          text ": " ++ op.name ++ text " " ++ spelled ++ text ": file name too long" := by
  obtain ⟨q, hq, hlistings, hcalls⟩ := survey_of_run ok
  rw [← hlistings] at few short
  obtain ⟨top, plain⟩ := isPlain_of_run free hq
  have plain' : w'.fs.IsPlain root top := fs ▸ plain
  refine ⟨?_, ?_⟩
  · intro path hpath
    obtain ⟨dir, name, content, reaches, holds, hends⟩ :=
      holds_of_mem_itinerary plain'.denotes ((w'.calls_isPrefix root start).subset hpath)
    rw [fs] at reaches holds hends
    obtain ⟨e, he, rfl, visible, source, rest⟩ := holds
    rw [more.isSource] at source
    obtain ⟨path', hpath', hends'⟩ := exists_mem_itinerary plain.denotes hq few short (more.reaches reaches)
      ⟨e, he, rfl, more.visible visible, source, rest⟩
    rw [hcalls]
    exact ⟨path', hpath', dir, e.1, hends', hends⟩
  · intro error herror
    obtain ⟨hlistings', houtcome, _⟩ := run_of_never_fails never root start
    have reaches := run_reaches plain' start
    rw [h] at hlistings' houtcome reaches
    have hsurvey : w'.survey.run root [] = ((w'.survey.run root []).1, some error) :=
      Prod.ext rfl (houtcome.symm.trans herror)
    obtain ⟨path, cause, rfl, fails⟩ := exists_failsAt hsurvey
    have hinders := fails.hinders
    rw [← hlistings'] at hinders
    obtain ⟨op, spelled, rfl, hlong⟩ :
        ∃ op spelled, cause = .operation op spelled .tooLong ∧ longestPath < spelled.length := by
      rcases hinders.tooLong_or_dangling plain' reaches with htoolong | ⟨l, e, offers, link, source, failed⟩
      · exact htoolong
      · obtain ⟨found, read, he⟩ := offers.read
        obtain ⟨dir, hloc, hdir, rfl⟩ := FileSystem.readDirectory_eq_ok_iff.mp read
        have hd := FileSystem.directory?_eq_some_iff.mpr ⟨hloc, hdir⟩
        obtain ⟨⟨k, hk⟩, reached⟩ := place_of_listed plain'.denotes h offers.listed hd
        rw [more.isSource] at source
        rw [← fs] at few'
        -- The first walk has come by this link too, and it has found where the link leads.
        obtain ⟨target, ht⟩ := exists_statsTo_of_source plain.denotes hq few short (more.reaches (fs ▸ reached))
          (fs ▸ he) (more.visible offers.visible) source
        obtain ⟨hlong, rfl⟩ := offers.stat_eq_tooLong few' link hd he hk (fs ▸ ht) failed
        exact ⟨_, _, rfl, hlong⟩
    refine ⟨path, op, spelled, hlong, rfl, ?_⟩
    intro describe
    have hwords : text "failed to walk directory: error accessing " =
        text "failed to walk directory: " ++ text "error accessing " := rfl
    have hreason : text ": file name too long" = text ": " ++ Reason.tooLong.message := rfl
    simp [WalkError.message, AccessError.message, hwords, hreason]

/-- Two links to one directory. -/
def forkedWay : FileSystem where
  objects := [([text "r"], .directory), ([text "a", text "r"], .link (text "/e")),
    ([text "b", text "r"], .link (text "/e")), ([text "e"], .directory), ([text "x.cpp", text "e"], .file .empty)]

def choosing (ignored : List Text) : Walk (List Text) Unit :=
  ⟨forkedWay, ⟨ignored, [text ".cpp"], []⟩, fun path seen => (seen ++ [path], none)⟩

/-- The way of before is ignored, and the source behind it is visited by the other. -/
theorem choosing_other_way : (choosing []).calls (text "/r") [] = [text "/r/a/x.cpp"] ∧
    (choosing [text "a"]).calls (text "/r") [] = [text "/r/b/x.cpp"] ∧
    forkedWay.Covers [text "/r/a/x.cpp"] [text "/r/b/x.cpp"] := by
  have plain : forkedWay.IsPlain (text "/r") [text "r"] :=
    ⟨by decide, .stay rfl (.inl rfl) (.descend rfl rfl (.arrive _)), rfl⟩
  have hcalls : (choosing []).calls (text "/r") [] = [text "/r/a/x.cpp"] := by decide +kernel
  have hcalls' : (choosing [text "a"]).calls (text "/r") [] = [text "/r/b/x.cpp"] := by decide +kernel
  have free := unhindered_of_found (choosing []) plain.denotes [] (by decide +kernel)
  have free' := unhindered_of_found (choosing [text "a"]) plain.denotes [] (by decide +kernel)
  have ok : (choosing []).run (text "/r") [] = (((choosing []).run (text "/r") []).1, none) :=
    Prod.ext rfl (by decide +kernel)
  have ok' : (choosing [text "a"]).run (text "/r") [] = (((choosing [text "a"]).run (text "/r") []).1, none) :=
    Prod.ext rfl (by decide +kernel)
  have same : (choosing [text "a"]).fs = (choosing []).fs := rfl
  have more : (choosing [text "a"]).filter.IgnoresMore (choosing []).filter := ⟨by simp [choosing], rfl, rfl⟩
  obtain ⟨covers, _⟩ := run_ignoring_more (choosing []) same more (fun _ _ => rfl) plain.linkFree ok free.fewLinks
    free.shortLiveLinks ok' free'.fewLinks
  rw [hcalls, hcalls'] at covers
  exact ⟨hcalls, hcalls', covers⟩

/-- Links with names of different lengths. -/
def ways : List Text := [text "a", storey 1, text "c"]

/-- Fourteen directories with long names, one in the other, and in the last of them three links to a directory. From
there a link with a long name leads to a source. -/
def veered : FileSystem where
  objects := ways.map (fun way => (way :: storeys 14, .link (spelling [text "e"]))) ++
    [([text "e"], .directory), ([storey 10, text "e"], .link (spelling [text "g"])), ([text "g"], .directory),
      ([text "x.cpp", text "g"], .file .empty)] ++ (List.range 14).map fun i => (storeys (i + 1), .directory)

/-- The directories that have something in them for a walk from the last of the fourteen. -/
def halls : List Location := [storeys 14, [text "e"], [text "g"]]

-- All that has to be computed of the tree, in one step.
theorem veered_computed : ((veered.objects.map Prod.fst).Nodup ∧
      ∀ place ∈ halls, veered.isDirectory place = true ∧ (spelling place).length ≤ longestPath) ∧
    (∀ way ∈ ways, isLegalName way = true ∧ (spelling (way :: storeys 14)).length ≤ longestPath) ∧
    (isLegalName (storey 10) = true ∧ (spelling [storey 10, text "e"]).length ≤ longestPath) ∧
    halls.map (fun place => (veered.entries place).map Prod.fst) = [ways, [storey 10], [text "x.cpp"]] ∧
    (halls.map spelling).Nodup := by
  decide +kernel

theorem veered_here {place : Location} (h : place ∈ halls) : veered.Straight 0 place place := by
  obtain ⟨directory, short⟩ := veered_computed.1.2 place h
  exact .here directory short

theorem veered_at? {name : Text} {place : Location} {object : Object} (hall : place ∈ halls)
    (legal : isLegalName name = true) (listed : (name :: place, object) ∈ veered.objects) :
    veered.at? (name :: place) = some object :=
  FileSystem.at?_of_mem veered_computed.1.1 listed legal (veered_here hall).isDirectory

theorem veered_way {way : Text} (hway : way ∈ ways) :
    veered.at? (way :: storeys 14) = some (.link (spelling [text "e"])) :=
  veered_at? (by simp [halls]) (veered_computed.2.1 way hway).1 (by simp [veered, hway])

theorem veered_passage : veered.at? [storey 10, text "e"] = some (.link (spelling [text "g"])) :=
  veered_at? (by simp [halls]) veered_computed.2.2.1.1 (by simp [veered])

theorem veered_entries : veered.entries (storeys 14) = ways.map (fun way => (way, .link (spelling [text "e"]))) ∧
    veered.entries [text "e"] = [(storey 10, .link (spelling [text "g"]))] ∧
    veered.entries [text "g"] = [(text "x.cpp", .file .empty)] := by
  have hnames := veered_computed.2.2.2.1
  simp only [halls, List.map_cons, List.map_nil, List.cons.injEq, and_true] at hnames
  obtain ⟨htop, hlanding, hend⟩ := hnames
  have hways : ways = (ways.map fun way => (way, Object.link (spelling [text "e"]))).map Prod.fst := by
    rw [List.map_map]
    exact ways.map_id.symm
  refine ⟨FileSystem.entries_eq_of_names (htop.trans hways) ?_, FileSystem.entries_eq_of_names hlanding ?_,
    FileSystem.entries_eq_of_names hend ?_⟩
  · intro e he
    obtain ⟨way, hway, rfl⟩ := List.mem_map.mp he
    exact veered_way hway
  · intro e he
    obtain rfl := List.mem_singleton.mp he
    exact veered_passage
  · intro e he
    obtain rfl := List.mem_singleton.mp he
    exact veered_at? (by simp [halls]) (by decide) (by simp [veered])

theorem top_straight : veered.Straight 0 (storeys 14) (storeys 14) := veered_here (by simp [halls])

theorem top_short : (spelling (storeys 14)).length ≤ longestPath := (veered_computed.1.2 _ (by simp [halls])).2

section Way

variable {way : Text} (hway : way ∈ ways)
include hway

theorem ways_short : (spelling (way :: storeys 14)).length ≤ longestPath := (veered_computed.2.1 way hway).2

theorem veered_straight : veered.Straight 1 (way :: storeys 14) [text "e"] := by
  obtain ⟨directory, short⟩ := veered_computed.1.2 [text "e"] (by simp [halls])
  exact .link top_straight (veered_way hway) (ways_short hway) directory short

theorem veered_straight_on : veered.Straight 2 (storey 10 :: way :: storeys 14) [text "g"] := by
  obtain ⟨directory, short⟩ := veered_computed.1.2 [text "g"] (by simp [halls])
  exact .link (veered_straight hway) veered_passage veered_computed.2.2.1.2 directory short

theorem veered_join :
    Path.join (spelling (way :: storeys 14)) (storey 10) = spelling (storey 10 :: way :: storeys 14) :=
  FileSystem.join_spelling_names (veered_straight hway).tidy ((veered_straight_on hway).isName _ (by simp))

end Way

/-- Where a walk is when it has come to the directory behind the three links. -/
def landed (way : Text) : Progress (List Text) :=
  ⟨[⟨spelling [text "e"], spelling (way :: storeys 14)⟩, ⟨spelling (storeys 14), spelling (storeys 14)⟩], []⟩

theorem landed_knows (way : Text) : (landed way).knows (spelling [text "e"]) = true :=
  knows_iff.mpr ⟨_, List.mem_cons_self, rfl⟩

theorem halls_distinct : (spelling (storeys 14) ≠ spelling [text "e"] ∧ spelling (storeys 14) ≠ spelling [text "g"]) ∧
    spelling [text "e"] ≠ spelling [text "g"] := by
  simpa [halls] using veered_computed.2.2.2.2

theorem landed_fresh (way : Text) : (landed way).knows (spelling [text "g"]) = false := by
  simp [landed, Progress.knows, halls_distinct.1.2, halls_distinct.2]

/-- No lookup below the three links gives up for the number of its links. -/
theorem veered_fewLinks (f : SourceFilter) {way : Text} (hway : way ∈ ways) : f.FewLinks veered
    (⟨spelling [text "g"], spelling (storey 10 :: way :: storeys 14)⟩ :: (landed way).listings) := by
  have findsTop := FileSystem.FindsAt.of_straight top_straight (by decide)
  have finds := FileSystem.FindsAt.of_straight (veered_straight hway) (by decide)
  have findsOn := FileSystem.FindsAt.of_straight (veered_straight_on hway) (by decide)
  intro l hl dir hd e he _ hlink _
  simp only [landed, List.mem_cons, List.not_mem_nil, or_false] at hl
  rcases hl with rfl | rfl | rfl
  · rw [findsOn.eq_of_directory? hd, veered_entries.2.2] at he
    obtain rfl := List.mem_singleton.mp he
    cases hlink
  · rw [finds.eq_of_directory? hd, veered_entries.2.1] at he
    obtain rfl := List.mem_singleton.mp he
    rw [veered_join hway]
    exact findsOn.locate_ne_tooManyLinks
  · rw [findsTop.eq_of_directory? hd, veered_entries.1] at he
    obtain ⟨other, hother, rfl⟩ := List.mem_map.mp he
    rw [FileSystem.join_spelling (veered_way hother)]
    exact (FileSystem.FindsAt.of_straight (veered_straight hother) (by decide)).locate_ne_tooManyLinks

def veering (f : SourceFilter) : Walk (List Text) Unit := ⟨veered, f, fun path seen => (seen ++ [path], none)⟩

section Veering

variable {f : SourceFilter} {before after : List Text} {way : Text}

theorem veering_calls (f : SourceFilter) : (veering f).calls (spelling (storeys 14)) [] =
    ((veering f).run (spelling (storeys 14)) []).1.state := by
  obtain ⟨_, _, hcalls⟩ := run_of_never_fails (w := veering f) (fun _ _ => rfl) (spelling (storeys 14)) []
  have hsurvey : (veering f).survey = veering f := rfl
  rw [hcalls, itinerary, hsurvey]

theorem task_way (hway : way ∈ ways) (kept : f.skips way = false) :
    f.task veered (spelling (storeys 14)) (way, .link (spelling [text "e"])) =
      .enter (spelling (way :: storeys 14)) := by
  have hjoin := FileSystem.join_spelling (veered_way hway)
  have hstat := (FileSystem.FindsAt.of_straight (veered_straight hway) (by decide)).stat_eq
  rw [if_pos (ways_short hway), ← hjoin] at hstat
  exact SourceFilter.task_eq_enter_iff.mpr ⟨kept, (FileSystem.entryObject_of_link rfl).trans hstat, hjoin.symm⟩

/-- Once one of the ways is gone, the others have nothing new. -/
theorem veering_idle (hway : way ∈ ways) {p : Progress (List Text)} (known : p.knows (spelling [text "e"]) = true)
    {n : Nat} : (veering f).perform ((veering f).enter (n + 1)) p
      (f.task veered (spelling (storeys 14)) (way, .link (spelling [text "e"]))) = (p, none) := by
  cases hskip : f.skips way with
  | true => rw [SourceFilter.task, if_pos hskip, perform]
  | false =>
    have spelled : (veering f).fs.canonical (spelling (way :: storeys 14)) = _ :=
      (veered_straight hway).canonical (by decide)
    rw [task_way hway hskip, perform, enter_of_known spelled known]

/-- What a walk does is up to the first way that is not ignored. -/
theorem veering_run (hways : ways = before ++ way :: after) (passed : ∀ other ∈ before, f.skips other = true)
    (kept : f.skips way = false) {n : Nat} (depth : depthBound veered = n + 2) :
    (veering f).run (spelling (storeys 14)) [] = (veering f).perform ((veering f).enter n) (landed way)
      (f.task veered (spelling (way :: storeys 14)) (storey 10, .link (spelling [text "g"]))) := by
  have hway : way ∈ ways := by simp [hways]
  have readTop := (FileSystem.FindsAt.of_straight top_straight (by decide)).readDirectory_eq
  have read := (FileSystem.FindsAt.of_straight (veered_straight hway) (by decide)).readDirectory_eq
  rw [if_pos top_short, veered_entries.1, hways, List.map_append, List.map_cons] at readTop
  rw [if_pos (ways_short hway), veered_entries.2.1] at read
  have spelledTop := top_straight.canonical (by decide)
  have spelled := (veered_straight hway).canonical (by decide)
  have fresh : (⟨[⟨spelling (storeys 14), spelling (storeys 14)⟩], []⟩ : Progress (List Text)).knows
      (spelling [text "e"]) = false := by
    simp [Progress.knows, halls_distinct.1.1]
  have hfs : (veering f).fs = veered := rfl
  have hfilter : (veering f).filter = f := rfl
  rw [← hfs] at depth readTop read spelledTop spelled
  unfold run
  rw [depth, enter_of_fresh spelledTop rfl readTop]
  refine entries_of_one ?_ ?_ ?_
  · intro e he
    obtain ⟨other, hother, rfl⟩ := List.mem_map.mp he
    exact if_pos (passed other hother)
  · rw [hfs, hfilter, task_way hway kept, perform, enter_of_fresh spelled fresh read, entries_singleton]
    rfl
  · intro e he
    obtain ⟨other, hother, rfl⟩ := List.mem_map.mp he
    have hmem : other ∈ ways := by simp [hways, hother]
    exact veering_idle hmem (knows_of_suffix (perform_grows _ _ _ _) (landed_knows way))

/-- By a short way the source is visited. -/
theorem veering_short (hways : ways = before ++ way :: after) (passed : ∀ other ∈ before, f.skips other = true)
    (kept : ∀ name ∈ [way, storey 10, text "x.cpp"], f.skips name = false) (source : f.isSource (text "x.cpp") = true)
    (short : (spelling (storey 10 :: way :: storeys 14)).length ≤ longestPath) :
    ∃ path, (veering f).run (spelling (storeys 14)) [] =
      (⟨⟨spelling [text "g"], spelling (storey 10 :: way :: storeys 14)⟩ :: (landed way).listings, [path]⟩, none) := by
  have hway : way ∈ ways := by simp [hways]
  have hjoin := veered_join hway
  have finds := FileSystem.FindsAt.of_straight (veered_straight_on hway) (by decide)
  have hstat := finds.stat_eq
  have read := finds.readDirectory_eq
  have spelled := (veered_straight_on hway).canonical (by decide)
  rw [if_pos short, ← hjoin] at hstat
  rw [if_pos short, veered_entries.2.2] at read
  have passage : f.task veered (spelling (way :: storeys 14)) (storey 10, .link (spelling [text "g"])) =
      .enter (spelling (storey 10 :: way :: storeys 14)) :=
    SourceFilter.task_eq_enter_iff.mpr
      ⟨kept _ (by simp), (FileSystem.entryObject_of_link rfl).trans hstat, hjoin.symm⟩
  have visit : f.task veered (spelling (storey 10 :: way :: storeys 14)) (text "x.cpp", .file .empty) = .visit _ :=
    SourceFilter.task_eq_visit_iff.mpr ⟨kept _ (by simp), source, ⟨_, FileSystem.entryObject_of_plain rfl⟩, rfl⟩
  have hfs : (veering f).fs = veered := rfl
  have hfilter : (veering f).filter = f := rfl
  obtain ⟨n, hn⟩ : ∃ n, depthBound veered = n + 3 := Nat.exists_eq_add_of_le' (by decide)
  rw [← hfs] at read spelled
  rw [veering_run hways passed (kept _ (by simp)) hn, passage, perform,
    enter_of_fresh spelled (landed_fresh way) read, entries_singleton, hfs, hfilter, visit]
  exact ⟨_, rfl⟩

/-- By a long way the link to it is not found. -/
theorem veering_long (hways : ways = before ++ way :: after) (passed : ∀ other ∈ before, f.skips other = true)
    (kept : ∀ name ∈ [way, storey 10], f.skips name = false)
    (long : longestPath < (spelling (storey 10 :: way :: storeys 14)).length) :
    (veering f).run (spelling (storeys 14)) [] = (landed way, if f.isSource (storey 10) then
      some (.access (spelling (storey 10 :: way :: storeys 14))
        (.operation .stat (spelling (storey 10 :: way :: storeys 14)) .tooLong)) else none) := by
  have hway : way ∈ ways := by simp [hways]
  have hstat := (FileSystem.FindsAt.of_straight (veered_straight_on hway) (by decide)).stat_eq
  rw [if_neg (Nat.not_le.mpr long)] at hstat
  have hobject : veered.entryObject (spelling (way :: storeys 14)) (storey 10, .link (spelling [text "g"])) =
      veered.stat (Path.join (spelling (way :: storeys 14)) (storey 10)) := FileSystem.entryObject_of_link rfl
  rw [veered_join hway, hstat] at hobject
  have hkept : ¬ f.skips (storey 10) = true := ne_true_of_eq_false (kept _ (by simp))
  obtain ⟨n, hn⟩ : ∃ n, depthBound veered = n + 2 := Nat.exists_eq_add_of_le' (by decide)
  rw [veering_run hways passed (kept _ (by simp)) hn, SourceFilter.task, if_neg hkept, hobject]
  dsimp only
  rw [veered_join hway]
  split <;> rfl

end Veering

/-- The paths to the source that go by the three ways. -/
theorem ways_lengths :
    (∀ way ∈ [text "a", text "c"], (spelling (storey 10 :: way :: storeys 14)).length ≤ longestPath) ∧
      longestPath < (spelling (storey 10 :: storey 1 :: storeys 14)).length := by
  decide +kernel

theorem landed_fewLinks (f : SourceFilter) {way : Text} (hway : way ∈ ways) :
    f.FewLinks veered (landed way).listings :=
  fun l hl => veered_fewLinks f hway l (List.mem_cons_of_mem _ hl)

/-- A link that is not named like a source is passed over if it is not found. -/
theorem veering_passes_over :
    (veering ⟨[text "a"], [text ".cpp"], []⟩).run (spelling (storeys 14)) [] = (landed (storey 1), none) := by
  have ways_eq : ways = [text "a"] ++ storey 1 :: [text "c"] := rfl
  have ok : (veering ⟨[text "a"], [text ".cpp"], []⟩).run (spelling (storeys 14)) [] = _ :=
    veering_long ways_eq (by decide +kernel) (by decide +kernel) ways_lengths.2
  rwa [if_neg (by decide +kernel)] at ok

/-- One gets to where the ways come together, and from there to the directory of the source. -/
theorem veered_reaches {f : SourceFilter} {way : Text} (hway : way ∈ ways)
    (kept : ∀ name ∈ [way, storey 10], f.Visible name) :
    Relation.ReflTransGen (f.GetsTo veered) (storeys 14) [text "g"] := by
  have first := SourceFilter.getsTo_of_link (kept way (by simp)) (veered_way hway) (veered_straight hway).isDirectory
  have second := SourceFilter.getsTo_of_link (kept (storey 10) (by simp)) veered_passage
    (veered_straight_on hway).isDirectory
  exact .tail (.single first) second

/-- A walk can succeed and leave out a directory that one gets to from its root: the link to it has a path that is too
long. -/
theorem veering_leaves_out : veered.IsPlain (spelling (storeys 14)) (storeys 14) ∧
    ∃ f p, (veering f).run (spelling (storeys 14)) [] = (p, none) ∧ f.FewLinks veered p.listings ∧
      Relation.ReflTransGen (f.GetsTo veered) (storeys 14) [text "g"] ∧ [text "g"] ∉ p.listed veered := by
  have hway : storey 1 ∈ ways := by simp [ways]
  have plain := FileSystem.isPlain_spelling top_straight.isDirectory
  refine ⟨plain, _, _, veering_passes_over, landed_fewLinks _ hway, ?_, ?_⟩
  · refine veered_reaches hway fun name hname => SourceFilter.visible_iff.mpr ?_
    revert name
    decide +kernel
  · -- What is listed are the root and the directory where the ways come together.
    intro listed
    obtain ⟨l, hl, hd⟩ := mem_listed.mp listed
    simp only [landed, List.mem_cons, List.not_mem_nil, or_false] at hl
    rcases hl with rfl | rfl
    · have same := (FileSystem.FindsAt.of_straight (veered_straight hway) (by decide)).eq_of_directory? hd
      exact absurd same (by decide)
    · have same := (FileSystem.FindsAt.of_straight top_straight (by decide)).eq_of_directory? hd
      exact halls_distinct.1.2 (congrArg spelling same.symm)

/-- With a short way ignored a walk comes by a long one, and it may fail. With a long way ignored it comes by a short
one, and it may visit a source that was not visited before. -/
theorem veering_fails_or_reveals : veered.LinkFree (spelling (storeys 14)) ∧
    (∃ f f' : SourceFilter, f'.IgnoresMore f ∧ ∃ p p' path,
      (veering f).run (spelling (storeys 14)) [] = (p, none) ∧ f.FewLinks veered p.listings ∧
      (veering f').run (spelling (storeys 14)) [] = (p', some (.access path (.operation .stat path .tooLong))) ∧
      f'.FewLinks veered p'.listings) ∧
    ∃ f f' : SourceFilter, f'.IgnoresMore f ∧ ∃ p p',
      (veering f).run (spelling (storeys 14)) [] = (p, none) ∧ f.FewLinks veered p.listings ∧
      (veering f').run (spelling (storeys 14)) [] = (p', none) ∧ f'.FewLinks veered p'.listings ∧
      ¬ veered.Covers ((veering f).calls (spelling (storeys 14)) [])
        ((veering f').calls (spelling (storeys 14)) []) := by
  obtain ⟨short, long⟩ := ways_lengths
  have first : ways = [] ++ text "a" :: [storey 1, text "c"] := rfl
  have second : ways = [text "a"] ++ storey 1 :: [text "c"] := rfl
  have third : ways = [text "a", storey 1] ++ text "c" :: [] := rfl
  refine ⟨(FileSystem.isPlain_spelling top_straight.isDirectory).linkFree, ?_, ?_⟩
  · -- The link is named like a source, so it is an error that it is not found.
    let f : SourceFilter := ⟨[], [text ".cpp", text "-"], []⟩
    let f' : SourceFilter := ⟨[text "a"], [text ".cpp", text "-"], []⟩
    obtain ⟨path, ok⟩ : ∃ path, (veering f).run (spelling (storeys 14)) [] = (⟨_, [path]⟩, none) :=
      veering_short first (by decide +kernel) (by decide +kernel) (by decide) (short _ (by simp))
    have failed : (veering f').run (spelling (storeys 14)) [] = _ :=
      veering_long second (by decide +kernel) (by decide +kernel) long
    rw [if_pos (by decide +kernel)] at failed
    exact ⟨f, f', ⟨by simp [f], rfl, rfl⟩, _, _, _, ok, veered_fewLinks f (by simp [ways]), failed,
      landed_fewLinks f' (by simp [ways])⟩
  · -- It is not, so it is passed over.
    let f : SourceFilter := ⟨[text "a"], [text ".cpp"], []⟩
    let f' : SourceFilter := ⟨[text "a", storey 1], [text ".cpp"], []⟩
    have ok : (veering f).run (spelling (storeys 14)) [] = _ := veering_passes_over
    obtain ⟨path, ok'⟩ : ∃ path, (veering f').run (spelling (storeys 14)) [] = (⟨_, [path]⟩, none) :=
      veering_short third (by decide +kernel) (by decide +kernel) (by decide) (short _ (by simp))
    refine ⟨f, f', ⟨by simp [f, f'], rfl, rfl⟩, _, _, ok, landed_fewLinks f (by simp [ways]), ok',
      veered_fewLinks f' (by simp [ways]), ?_⟩
    rw [veering_calls, veering_calls, ok, ok']
    intro covers
    obtain ⟨_, hnone, _⟩ := covers path (by simp)
    cases hnone

end Walk

end SignalAudit
