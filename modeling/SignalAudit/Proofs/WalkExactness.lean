import SignalAudit.Proofs.CycleSafety
import SignalAudit.Proofs.EntryObjects
import SignalAudit.Proofs.VisitOrder

/-!
A walk that succeeds has listed the directories that can be got to from its root, and no others, each under one path;
and it has visited the source files among their entries, and nothing else, each once. A link is only followed if its path
is short enough to be looked up.
-/

namespace SignalAudit

namespace Walk

variable {σ ε : Type}

/-- A task that leaves nothing to be done. -/
def Settled (fs : FileSystem) (q : Progress (List Text)) : Task → Prop
  | .pass => True
  | .fail _ _ => False
  | .enter path => ∃ canonical, fs.canonical path = .ok canonical ∧ q.knows canonical = true
  | .visit path => path ∈ q.state

theorem Settled.mono {fs : FileSystem} {p q : Progress (List Text)} {task : Task} (h : Settled fs p task)
    (hl : p.listings <:+ q.listings) (hs : p.state ⊆ q.state) : Settled fs q task := by
  cases task with
  | pass => trivial
  | fail => exact h
  | enter path =>
    obtain ⟨canonical, hc, hk⟩ := h
    exact ⟨canonical, hc, knows_of_suffix hl hk⟩
  | visit path => exact hs h

/-- A listed directory all of whose entries are settled. -/
def Finished (w : Walk σ ε) (q : Progress (List Text)) (l : Listing) : Prop :=
  ∃ found, w.fs.readDirectory l.path = .ok found ∧ ∀ e ∈ found, Settled w.fs q (w.filter.task w.fs l.path e)

theorem Finished.mono {w : Walk σ ε} {p q : Progress (List Text)} {l : Listing} (h : Finished w p l)
    (hl : p.listings <:+ q.listings) (hs : p.state ⊆ q.state) : Finished w q l := by
  obtain ⟨found, read, all⟩ := h
  exact ⟨found, read, fun e he => (all e he).mono hl hs⟩

/-- A survey that came to its end has settled a task, and left nothing to do in the directories that are new. -/
def Completes (w : Walk σ ε) (p q : Progress (List Text)) (task : Task) : Prop :=
  Settled w.fs q task ∧ ∀ l ∈ q.listings, l ∈ p.listings ∨ Finished w q l

theorem perform_completes {w : Walk σ ε} {n : Nat} {p q : Progress (List Text)} {task : Task}
    (henter : ∀ path p q, w.survey.enter n path p = (q, none) → Completes w p q (.enter path))
    (h : w.survey.perform (w.survey.enter n) p task = (q, none)) : Completes w p q task := by
  cases task with
  | pass =>
    cases h
    exact ⟨trivial, fun l hl => .inl hl⟩
  | fail => cases h
  | enter path => exact henter path p q h
  | visit path =>
    cases h
    exact ⟨List.mem_append_right _ (List.mem_singleton.mpr rfl), fun l hl => .inl hl⟩

theorem survey_entries_subset (w : Walk σ ε) (n : Nat) (dir : Text) (todo : List (Text × Object))
    (p : Progress (List Text)) : p.state ⊆ (w.survey.entries (w.survey.enter n) dir todo p).1.state := by
  -- A survey goes along with itself.
  obtain ⟨_, new, hnew, _⟩ := w.survey.entries_goesAlong (w.survey.enter_goesAlong n) dir todo p.listings p.state
    p.state
  have hstate : (w.survey.entries (w.survey.enter n) dir todo p).1.state = p.state ++ new := hnew
  rw [hstate]
  exact List.subset_append_left ..

theorem entries_completes {w : Walk σ ε} {n : Nat} {dir : Text} {todo : List (Text × Object)}
    (henter : ∀ path p q, w.survey.enter n path p = (q, none) → Completes w p q (.enter path))
    {p q : Progress (List Text)} (h : w.survey.entries (w.survey.enter n) dir todo p = (q, none)) :
    p.listings <:+ q.listings ∧ (∀ e ∈ todo, Settled w.fs q (w.filter.task w.fs dir e)) ∧
      ∀ l ∈ q.listings, l ∈ p.listings ∨ Finished w q l := by
  induction todo generalizing p with
  | nil =>
    cases h
    exact ⟨List.suffix_rfl, by simp, fun l hl => .inl hl⟩
  | cons e rest ih =>
    rw [entries_cons] at h
    change andThen (w.survey.perform (w.survey.enter n) p (w.filter.task w.fs dir e)) _ = _ at h
    have hgrows := w.survey.perform_grows n p (w.filter.task w.fs dir e)
    rcases hm : w.survey.perform (w.survey.enter n) p (w.filter.task w.fs dir e) with ⟨mid, _ | error⟩
    · rw [hm] at h hgrows
      obtain ⟨settled, before⟩ := perform_completes henter hm
      obtain ⟨grows, all, after⟩ := ih h
      have hstate := w.survey_entries_subset n dir rest mid
      have hq : (w.survey.entries (w.survey.enter n) dir rest mid).1 = q := congrArg Prod.fst h
      rw [hq] at hstate
      refine ⟨hgrows.trans grows, ?_, ?_⟩
      · intro x hx
        rcases List.mem_cons.mp hx with rfl | hx
        · exact settled.mono grows hstate
        · exact all x hx
      · intro l hl
        rcases after l hl with hl | hl
        · rcases before l hl with hl | hl
          · exact .inl hl
          · exact .inr (hl.mono grows hstate)
        · exact .inr hl
    · rw [hm] at h
      cases h

theorem enter_completes (w : Walk σ ε) (n : Nat) (dir : Text) (p q : Progress (List Text))
    (h : w.survey.enter n dir p = (q, none)) : Completes w p q (.enter dir) := by
  induction n generalizing dir p q with
  | zero => cases h
  | succ n ih =>
    unfold Walk.enter at h
    split at h
    · cases h
    · next canonical spelled =>
      split at h
      · next known =>
        cases h
        exact ⟨⟨canonical, spelled, known⟩, fun l hl => .inl hl⟩
      · dsimp only at h
        split at h
        · cases h
        · next found read =>
          obtain ⟨grows, all, after⟩ := entries_completes ih h
          refine ⟨⟨canonical, spelled, knows_iff.mpr ⟨_, grows.subset (List.mem_cons_self ..), rfl⟩⟩, ?_⟩
          intro l hl
          rcases after l hl with hl | hl
          · rcases List.mem_cons.mp hl with rfl | hl
            · exact .inr ⟨found, read, all⟩
            · exact .inl hl
          · exact .inr hl

theorem InScope.mono {w : Walk σ ε} {root dir : Text} {p q : Progress σ} (h : w.InScope root p dir)
    (hl : p.listings <:+ q.listings) : w.InScope root q dir := by
  rcases h with rfl | ⟨l, hm, rest⟩
  · exact .inl rfl
  · exact .inr ⟨l, hl.subset hm, rest⟩

theorem Step.inScope {w : Walk σ ε} {root : Text} {p q : Progress σ}
    (h : ∀ l ∈ p.listings, w.InScope root p l.path) (step : w.Step root p q) :
    ∀ l ∈ q.listings, w.InScope root q l.path := by
  intro l hl
  have grows := step.grows
  cases step with
  | list scope =>
    rcases List.mem_cons.mp hl with rfl | hl
    · exact scope.mono grows
    · exact (h l hl).mono grows
  | visit => exact (h l hl).mono grows

theorem run_inScope (w : Walk σ ε) (root : Text) (state : σ) :
    ∀ l ∈ (w.run root state).1.listings, w.InScope root (w.run root state).1 l.path :=
  (w.run_steps root state).invariant (fun p => ∀ l ∈ p.listings, w.InScope root p l.path) (by simp)
    fun _ _ => Step.inScope

/-- The files of an itinerary are entries of the directories listed. -/
theorem itinerary_sound (w : Walk σ ε) (root : Text) :
    ∀ path ∈ w.itinerary root, ∃ l ∈ (w.survey.run root []).1.listings, ∃ found,
      w.fs.readDirectory l.path = .ok found ∧ ∃ e ∈ found, w.filter.task w.fs l.path e = .visit path := by
  refine (w.survey.run_steps root []).invariant (fun p => ∀ path ∈ p.state, ∃ l ∈ p.listings, ∃ found,
    w.fs.readDirectory l.path = .ok found ∧ ∃ e ∈ found, w.filter.task w.fs l.path e = .visit path) (by simp) ?_
  intro p q h step path hp
  have grows := step.grows
  have old : path ∈ p.state → ∃ l ∈ q.listings, ∃ found,
      w.fs.readDirectory l.path = .ok found ∧ ∃ e ∈ found, w.filter.task w.fs l.path e = .visit path := by
    intro hs
    obtain ⟨l, hl, rest⟩ := h path hs
    exact ⟨l, grows.subset hl, rest⟩
  cases step with
  | list => exact old hp
  | @visit l found e new listed read entry task =>
    rcases List.mem_append.mp hp with hs | hs
    · exact old hs
    · obtain rfl := List.mem_singleton.mp hs
      exact ⟨l, listed, found, read, e, entry, task⟩

/-- The place of a directory that a walk may enter is the one that its path leads to once it is cleaned. -/
theorem InScope.leadsClean {w : Walk σ ε} {root path : Text} {top dir : Location} (denotes : w.fs.Denotes root top)
    {p : Progress σ} (scope : w.InScope root p path) (hl : w.fs.locate path = .ok dir) :
    ∃ k, w.fs.LeadsClean k path dir := by
  obtain ⟨_, _, _, k, _, hk⟩ := FileSystem.locate_eq_ok_iff.mp hl
  rcases scope with rfl | ⟨above, _, found, read, e, he, ht⟩
  · obtain ⟨_, htop⟩ := denotes.leads
    obtain ⟨_, rfl⟩ := hk.unique htop
    exact denotes.clean
  · obtain ⟨place, _, _, rfl⟩ := FileSystem.readDirectory_eq_ok_iff.mp read
    obtain ⟨_, _, rfl⟩ := SourceFilter.task_eq_enter_iff.mp ht
    exact ⟨k, (FileSystem.leads_join (FileSystem.isName_of_mem_entries he)).mp hk⟩

theorem mem_listed {fs : FileSystem} {p : Progress σ} {dir : Location} :
    dir ∈ p.listed fs ↔ ∃ l ∈ p.listings, fs.directory? l.path = some dir := by
  simp [Progress.listed]

end Walk

namespace SourceFilter

/-- A name that is neither hidden nor ignored. -/
def Visible (f : SourceFilter) (name : Text) : Prop := ¬ Path.dot <+: name ∧ name ∉ f.ignored

theorem visible_iff {f : SourceFilter} {name : Text} : f.Visible name ↔ f.skips name = false := by
  rw [Visible, skips, Bool.or_eq_false_iff, ← List.isPrefixOf_iff_prefix, ← List.contains_iff_mem, Bool.not_eq_true,
    Bool.not_eq_true]

/-- From a directory one gets to another: by a visible entry that is, links followed, that directory. -/
def GetsTo (f : SourceFilter) (fs : FileSystem) (dir target : Location) : Prop :=
  ∃ e ∈ fs.entries dir, f.Visible e.1 ∧ fs.StatsTo dir e.1 target ∧ fs.isDirectory target = true

/-- The same for a walk, which looks up links by the paths under which it has listed their directories. -/
def GetsToUnder (f : SourceFilter) (fs : FileSystem) (listings : List Listing) (dir target : Location) : Prop :=
  ∃ l ∈ listings, fs.directory? l.path = some dir ∧ ∃ e ∈ fs.entries dir, f.Visible e.1 ∧
    fs.StatsTo dir e.1 target ∧ fs.isDirectory target = true ∧ FileSystem.Speakable l.path e

/-- A path to a visible entry of a listed directory that is named like a source and is, links followed, a file. -/
def Picks (f : SourceFilter) (fs : FileSystem) (listings : List Listing) (path : Text) : Prop :=
  ∃ l ∈ listings, ∃ dir, fs.directory? l.path = some dir ∧ ∃ e ∈ fs.entries dir, f.Visible e.1 ∧
    f.isSource e.1 = true ∧ (∃ target content, fs.StatsTo dir e.1 target ∧ fs.at? target = some (.file content)) ∧
    path = Path.join l.path e.1

/-- No lookup of a visible link of the listed directories gives up for the number of its links, unless the link leads
nowhere anyway. -/
def FewLinks (f : SourceFilter) (fs : FileSystem) (listings : List Listing) : Prop :=
  ∀ l ∈ listings, ∀ dir, fs.directory? l.path = some dir → ∀ e ∈ fs.entries dir, f.Visible e.1 →
    e.2.isLink = true → (∃ target, fs.StatsTo dir e.1 target) →
      fs.locate (Path.join l.path e.1) ≠ .error .tooManyLinks

/-- No visible link of the listed directories that leads somewhere has a path that is too long to be looked up. -/
def ShortLiveLinks (f : SourceFilter) (fs : FileSystem) (listings : List Listing) : Prop :=
  ∀ l ∈ listings, ∀ dir, fs.directory? l.path = some dir → ∀ e ∈ fs.entries dir, f.Visible e.1 →
    ∀ target, fs.StatsTo dir e.1 target → FileSystem.Speakable l.path e

theorem getsTo_of_link {f : SourceFilter} {fs : FileSystem} {dir target : Location} {name : Text}
    (visible : f.Visible name) (found : fs.at? (name :: dir) = some (.link (FileSystem.spelling target)))
    (directory : fs.isDirectory target = true) : f.GetsTo fs dir target :=
  ⟨(name, _), FileSystem.mem_entries.mpr found, visible, ⟨1, FileSystem.leads_link found directory⟩, directory⟩

end SourceFilter

namespace Walk

variable {σ ε : Type}

theorem getsToUnder_mono {f : SourceFilter} {fs : FileSystem} {before after : List Listing}
    (h : before <:+ after) {dir target : Location} (hg : f.GetsToUnder fs before dir target) :
    f.GetsToUnder fs after dir target := by
  obtain ⟨l, hl, rest⟩ := hg
  exact ⟨l, h.subset hl, rest⟩

/-- What an entry is under the path of its directory tells where the walk gets from there. -/
theorem getsToUnder_of_enter {w : Walk σ ε} {root : Text} {top dir target : Location}
    (denotes : w.fs.Denotes root top) {p : Progress σ} {l : Listing} (hl : l ∈ p.listings)
    (scope : w.InScope root p l.path) (hd : w.fs.directory? l.path = some dir) {e : Text × Object}
    (he : e ∈ w.fs.entries dir) {path : Text} (ht : w.filter.task w.fs l.path e = .enter path)
    (hp : w.fs.directory? path = some target) :
    w.filter.GetsToUnder w.fs p.listings dir target := by
  obtain ⟨hskip, hobj, rfl⟩ := SourceFilter.task_eq_enter_iff.mp ht
  obtain ⟨k, hk⟩ := scope.leadsClean denotes (FileSystem.directory?_eq_some_iff.mp hd).1
  obtain ⟨hloc, hdir⟩ := FileSystem.directory?_eq_some_iff.mp hp
  obtain ⟨_, _, _, short⟩ := FileSystem.entryObject_sound hk he hobj
  have hstats := FileSystem.statsTo_of_locate (FileSystem.isName_of_mem_entries he) hk hloc
  exact ⟨l, hl, hd, e, he, SourceFilter.visible_iff.mpr hskip, hstats, hdir, short⟩

/-- Every directory listed can be got to from the root. -/
theorem run_gets_to {w : Walk σ ε} {root : Text} {top : Location} (denotes : w.fs.Denotes root top) (state : σ) :
    ∀ l ∈ (w.run root state).1.listings, ∀ dir, w.fs.directory? l.path = some dir →
      Relation.ReflTransGen (w.filter.GetsToUnder w.fs (w.run root state).1.listings) top dir := by
  have inv := (w.run_steps root state).invariant (fun p => (∀ l ∈ p.listings, w.InScope root p l.path) ∧
    ∀ l ∈ p.listings, ∀ dir, w.fs.directory? l.path = some dir →
      Relation.ReflTransGen (w.filter.GetsToUnder w.fs p.listings) top dir) ⟨by simp, by simp⟩ ?_
  · exact inv.2
  · rintro p q ⟨scopes, reach⟩ step
    refine ⟨step.inScope scopes, ?_⟩
    have grows := step.grows
    have old : ∀ l ∈ p.listings, ∀ dir, w.fs.directory? l.path = some dir →
        Relation.ReflTransGen (w.filter.GetsToUnder w.fs q.listings) top dir := fun l hl dir hd =>
      (reach l hl dir hd).lift id fun _ _ => getsToUnder_mono grows
    cases step with
    | visit => exact old
    | list scope =>
      intro l hl dir hd
      rcases List.mem_cons.mp hl with rfl | hl
      · rcases scope with rfl | ⟨above, hm, found, read, e, he, ht⟩
        · obtain ⟨hloc, _⟩ := FileSystem.directory?_eq_some_iff.mp hd
          obtain ⟨_, _, _, k, _, hk⟩ := FileSystem.locate_eq_ok_iff.mp hloc
          obtain ⟨_, htop⟩ := denotes.leads
          obtain ⟨_, rfl⟩ := hk.unique htop
          exact .refl
        · obtain ⟨place, hloc, hdir, rfl⟩ := FileSystem.readDirectory_eq_ok_iff.mp read
          have habove := FileSystem.directory?_eq_some_iff.mpr ⟨hloc, hdir⟩
          have hstep := getsToUnder_of_enter denotes hm (scopes above hm) habove he ht hd
          exact (old above hm place habove).tail (getsToUnder_mono grows hstep)
      · exact old l hl dir hd

theorem reaches_of_listed {w : Walk σ ε} {root : Text} {top : Location} (denotes : w.fs.Denotes root top) (state : σ) :
    ∀ l ∈ (w.run root state).1.listings, ∀ dir, w.fs.directory? l.path = some dir →
      Relation.ReflTransGen (w.filter.GetsTo w.fs) top dir := by
  intro l hl dir hd
  apply (run_gets_to denotes state l hl dir hd).lift id
  rintro a b ⟨l, _, _, e, he, visible, ht, hdir, _⟩
  exact ⟨e, he, visible, ht, hdir⟩

/-- The spelling without links of an entry's path, made absolute, is that of the place where the entry leads. -/
theorem canonical_join {fs : FileSystem} {path name spelled : Text} {dir target : Location} {k : Nat}
    (hn : Path.IsName name) (hd : fs.LeadsClean k path dir) (ht : fs.StatsTo dir name target)
    (hc : fs.canonical (Path.join path name) = .ok spelled) : fs.absolute spelled = FileSystem.spelling target := by
  obtain ⟨m, place, hm, hs⟩ := FileSystem.absolute_canonical hc
  obtain ⟨j, hj⟩ := ht
  have hl := (FileSystem.leads_join hn).mpr ((FileSystem.leadsClean_join hn).mpr ⟨k, j, dir, rfl, hd, hj⟩)
  rw [hs, (hm.unique hl).2]

section Success

variable {w : Walk σ ε} {root : Text} {top : Location} {q : Progress (List Text)}

theorem finished_of_run (ok : w.survey.run root [] = (q, none)) : ∀ l ∈ q.listings, Finished w q l := by
  intro l hl
  rcases (w.enter_completes _ root ⟨[], []⟩ q ok).2 l hl with h | h
  · cases h
  · exact h

theorem leadsClean_of_run (denotes : w.fs.Denotes root top) (ok : w.survey.run root [] = (q, none)) {l : Listing}
    (hl : l ∈ q.listings) {dir : Location} (hd : w.fs.directory? l.path = some dir) :
    ∃ k, w.fs.LeadsClean k l.path dir := by
  have scopes := w.survey.run_inScope root []
  rw [ok] at scopes
  exact InScope.leadsClean (w := w.survey) denotes (scopes l hl) (FileSystem.directory?_eq_some_iff.mp hd).1

theorem absolute_of_run (plain : w.fs.IsPlain root top) (ok : w.survey.run root [] = (q, none)) :
    ∀ l ∈ q.listings, Path.isAbsolute l.path = true := by
  have h := w.survey.run_absolute plain.absolute []
  rwa [ok] at h

theorem distinct_of_run (ok : w.survey.run root [] = (q, none)) : Distinct w.fs q := by
  have h := w.survey.run_distinct root []
  rwa [ok] at h

theorem directory_of_finished {l : Listing} (h : Finished w q l) :
    ∃ dir, w.fs.directory? l.path = some dir ∧
      ∀ e ∈ w.fs.entries dir, Settled w.fs q (w.filter.task w.fs l.path e) := by
  obtain ⟨found, read, all⟩ := h
  obtain ⟨dir, hloc, hdir, rfl⟩ := FileSystem.readDirectory_eq_ok_iff.mp read
  exact ⟨dir, FileSystem.directory?_eq_some_iff.mpr ⟨hloc, hdir⟩, all⟩

theorem settled_of_run (ok : w.survey.run root [] = (q, none)) {l : Listing} (hl : l ∈ q.listings) {dir : Location}
    (hd : w.fs.directory? l.path = some dir) {e : Text × Object} (he : e ∈ w.fs.entries dir) :
    Settled w.fs q (w.filter.task w.fs l.path e) := by
  obtain ⟨dir', hd', all⟩ := directory_of_finished (finished_of_run ok l hl)
  obtain rfl := Option.some.inj (hd.symm.trans hd')
  exact all e he

/-- What is named like a source has been found, or the walk would have failed. -/
theorem entryObject_of_isSource (ok : w.survey.run root [] = (q, none)) {l : Listing} (hl : l ∈ q.listings)
    {dir : Location} (hd : w.fs.directory? l.path = some dir) {e : Text × Object} (he : e ∈ w.fs.entries dir)
    (visible : w.filter.Visible e.1) (hsource : w.filter.isSource e.1 = true) :
    ∃ object, w.fs.entryObject l.path e = .ok object := by
  cases hobj : w.fs.entryObject l.path e with
  | ok object => exact ⟨object, rfl⟩
  | error cause =>
    have settled := settled_of_run ok hl hd he
    rw [SourceFilter.task_eq_fail_iff.mpr ⟨SourceFilter.visible_iff.mp visible, hsource, hobj, rfl⟩] at settled
    cases settled

/-- An entry of a listed directory that leads to an object is found to be that object. -/
theorem entryObject_of_statsTo (denotes : w.fs.Denotes root top) (ok : w.survey.run root [] = (q, none))
    (few : w.filter.FewLinks w.fs q.listings) {l : Listing} (hl : l ∈ q.listings) {dir target : Location}
    (hd : w.fs.directory? l.path = some dir) {e : Text × Object} (he : e ∈ w.fs.entries dir)
    (visible : w.filter.Visible e.1) (ht : w.fs.StatsTo dir e.1 target) {object : Object}
    (ho : w.fs.at? target = some object) (short : FileSystem.Speakable l.path e) :
    w.fs.entryObject l.path e = .ok object := by
  obtain ⟨k, hk⟩ := leadsClean_of_run denotes ok hl hd
  exact FileSystem.entryObject_complete hk he ht ho short fun hlink => few l hl dir hd e he visible hlink ⟨target, ht⟩

/-- A directory whose spelling is known has been listed. -/
theorem listed_of_knows (ok : w.survey.run root [] = (q, none)) {target : Location} {spelled : Text}
    (hdir : w.fs.isDirectory target = true) (hs : w.fs.absolute spelled = FileSystem.spelling target)
    (known : q.knows spelled = true) : target ∈ q.listed w.fs := by
  obtain ⟨l, hl, rfl⟩ := knows_iff.mp known
  obtain ⟨place, hp, _⟩ := directory_of_finished (finished_of_run ok l hl)
  obtain ⟨hloc, hpdir⟩ := FileSystem.directory?_eq_some_iff.mp hp
  have hspelled := FileSystem.absolute_canonical_eq ((distinct_of_run ok).spelled l hl) hloc
  obtain rfl := FileSystem.spelling_injective (FileSystem.isDirectory_iff.mp hpdir)
    (FileSystem.isDirectory_iff.mp hdir) (hspelled.symm.trans hs)
  exact mem_listed.mpr ⟨l, hl, hp⟩

/-- The entries of a listed directory that are found to be directories are listed too. -/
theorem listed_of_entryObject (denotes : w.fs.Denotes root top) (ok : w.survey.run root [] = (q, none)) {l : Listing}
    (hl : l ∈ q.listings) {dir target : Location} (hd : w.fs.directory? l.path = some dir) {e : Text × Object}
    (he : e ∈ w.fs.entries dir) (visible : w.filter.Visible e.1) (ht : w.fs.StatsTo dir e.1 target)
    (hdir : w.fs.isDirectory target = true) (hobj : w.fs.entryObject l.path e = .ok .directory) :
    target ∈ q.listed w.fs := by
  have settled := settled_of_run ok hl hd he
  rw [SourceFilter.task_eq_enter_iff.mpr ⟨SourceFilter.visible_iff.mp visible, hobj, rfl⟩] at settled
  obtain ⟨spelled, hc, known⟩ := settled
  obtain ⟨k, hk⟩ := leadsClean_of_run denotes ok hl hd
  exact listed_of_knows ok hdir (canonical_join (FileSystem.isName_of_mem_entries he) hk ht hc) known

/-- The directories listed are closed: what can be got to from one of them is one of them. -/
theorem listed_of_getsTo (denotes : w.fs.Denotes root top) (ok : w.survey.run root [] = (q, none))
    (few : w.filter.FewLinks w.fs q.listings) {dir target : Location}
    (h : w.filter.GetsToUnder w.fs q.listings dir target) : target ∈ q.listed w.fs := by
  obtain ⟨l, hl, hd, e, he, visible, ht, hdir, short⟩ := h
  have hobj := entryObject_of_statsTo denotes ok few hl hd he visible ht (FileSystem.isDirectory_iff.mp hdir) short
  exact listed_of_entryObject denotes ok hl hd he visible ht hdir hobj

theorem top_listed (denotes : w.fs.Denotes root top) (ok : w.survey.run root [] = (q, none)) :
    top ∈ q.listed w.fs := by
  obtain ⟨spelled, hc, known⟩ := (w.enter_completes _ root ⟨[], []⟩ q ok).1
  obtain ⟨m, place, hm, hs⟩ := FileSystem.absolute_canonical hc
  obtain ⟨_, htop⟩ := denotes.leads
  obtain ⟨_, rfl⟩ := hm.unique htop
  exact listed_of_knows ok denotes.directory hs known

theorem mem_listed_iff_getsTo (plain : w.fs.IsPlain root top) (ok : w.survey.run root [] = (q, none))
    (few : w.filter.FewLinks w.fs q.listings) (dir : Location) :
    dir ∈ q.listed w.fs ↔ Relation.ReflTransGen (w.filter.GetsToUnder w.fs q.listings) top dir := by
  constructor
  · intro h
    obtain ⟨l, hl, hd⟩ := mem_listed.mp h
    have reach := run_gets_to (w := w.survey) plain.denotes []
    rw [ok] at reach
    exact reach l hl dir hd
  · intro h
    induction h with
    | refl => exact top_listed plain.denotes ok
    | tail _ step _ => exact listed_of_getsTo plain.denotes ok few step

/-- Where no path of a link that leads somewhere is too long, the paths play no part in it. -/
theorem mem_listed_iff_reaches (denotes : w.fs.Denotes root top) (ok : w.survey.run root [] = (q, none))
    (few : w.filter.FewLinks w.fs q.listings) (short : w.filter.ShortLiveLinks w.fs q.listings) (dir : Location) :
    dir ∈ q.listed w.fs ↔ Relation.ReflTransGen (w.filter.GetsTo w.fs) top dir := by
  constructor
  · intro h
    obtain ⟨l, hl, hd⟩ := mem_listed.mp h
    have reach := reaches_of_listed (w := w.survey) denotes []
    rw [ok] at reach
    exact reach l hl dir hd
  · intro h
    induction h with
    | refl => exact top_listed denotes ok
    | tail _ step ih =>
      obtain ⟨l, hl, hd⟩ := mem_listed.mp ih
      obtain ⟨e, he, visible, ht, hdir⟩ := step
      exact listed_of_getsTo denotes ok few
        ⟨l, hl, hd, e, he, visible, ht, hdir, short l hl _ hd e he visible _ ht⟩

/-- The files of an itinerary are what the entries of the directories listed ask to be visited. -/
theorem mem_itinerary_iff_task (ok : w.survey.run root [] = (q, none)) (path : Text) :
    path ∈ w.itinerary root ↔ ∃ l ∈ q.listings, ∃ dir, w.fs.directory? l.path = some dir ∧ ∃ e ∈ w.fs.entries dir,
      w.filter.task w.fs l.path e = .visit path := by
  constructor
  · intro h
    obtain ⟨l, hl, found, read, e, he, task⟩ := w.itinerary_sound root path h
    rw [ok] at hl
    obtain ⟨dir, hloc, hdir, rfl⟩ := FileSystem.readDirectory_eq_ok_iff.mp read
    exact ⟨l, hl, dir, FileSystem.directory?_eq_some_iff.mpr ⟨hloc, hdir⟩, e, he, task⟩
  · rintro ⟨l, hl, dir, hd, e, he, task⟩
    have settled := settled_of_run ok hl hd he
    rw [task] at settled
    unfold itinerary
    rw [ok]
    exact settled

/-- A path that is too long plays no part in what is visited, since the walk would have failed at it. -/
theorem mem_itinerary_iff_picks (plain : w.fs.IsPlain root top) (ok : w.survey.run root [] = (q, none))
    (path : Text) : path ∈ w.itinerary root ↔ w.filter.Picks w.fs q.listings path := by
  rw [mem_itinerary_iff_task ok]
  constructor
  · rintro ⟨l, hl, dir, hd, e, he, task⟩
    obtain ⟨hskip, hsource, ⟨content, hobj⟩, rfl⟩ := SourceFilter.task_eq_visit_iff.mp task
    obtain ⟨k, hk⟩ := leadsClean_of_run plain.denotes ok hl hd
    obtain ⟨target, ht, ho, _⟩ := FileSystem.entryObject_sound hk he hobj
    exact ⟨l, hl, dir, hd, e, he, SourceFilter.visible_iff.mpr hskip, hsource, ⟨target, content, ht, ho⟩, rfl⟩
  · rintro ⟨l, hl, dir, hd, e, he, visible, hsource, ⟨target, content, ht, ho⟩, rfl⟩
    obtain ⟨object, hobj⟩ := entryObject_of_isSource ok hl hd he visible hsource
    obtain ⟨k, hk⟩ := leadsClean_of_run plain.denotes ok hl hd
    obtain ⟨found, hfound, hat, _⟩ := FileSystem.entryObject_sound hk he hobj
    obtain rfl := ht.unique hfound
    obtain rfl := Option.some.inj (ho.symm.trans hat)
    exact ⟨l, hl, dir, hd, e, he, SourceFilter.task_eq_visit_iff.mpr
      ⟨SourceFilter.visible_iff.mp visible, hsource, ⟨content, hobj⟩, rfl⟩⟩

theorem exists_unique_path (plain : w.fs.IsPlain root top) (ok : w.survey.run root [] = (q, none)) {dir : Location}
    (h : dir ∈ q.listed w.fs) : ∃! path, path ∈ q.listings.map Listing.path ∧ w.fs.directory? path = some dir := by
  obtain ⟨l, hl, hd⟩ := mem_listed.mp h
  refine ⟨l.path, ⟨List.mem_map.mpr ⟨l, hl, rfl⟩, hd⟩, ?_⟩
  rintro path ⟨hm, hp⟩
  obtain ⟨l', hl', rfl⟩ := List.mem_map.mp hm
  have hsame := (distinct_of_run ok).eq_of_locate (absolute_of_run plain ok) hl' hl
    (FileSystem.directory?_eq_some_iff.mp hp).1 (FileSystem.directory?_eq_some_iff.mp hd).1
  rw [hsame]

end Success

/-- A walk that succeeds, with visits that never fail, has listed the least set of directories that holds its root and
all that its visible entries get to, except by links whose paths are too long. If none of those leads anywhere, that is
the least set that holds the root and all that visible entries get to. Each directory is listed once and under one path.
The walk has visited, once each, the paths of their entries that are sources, and nothing else. -/
theorem run_exact (w : Walk σ ε) (never : ∀ path s, (w.visit path s).2 = none) {root : Text} {top : Location}
    (plain : w.fs.IsPlain root top) {state : σ} {p : Progress σ} (ok : w.run root state = (p, none))
    (few : w.filter.FewLinks w.fs p.listings) :
    (∀ dir, dir ∈ p.listed w.fs ↔ Relation.ReflTransGen (w.filter.GetsToUnder w.fs p.listings) top dir) ∧
      (w.filter.ShortLiveLinks w.fs p.listings →
        ∀ dir, dir ∈ p.listed w.fs ↔ Relation.ReflTransGen (w.filter.GetsTo w.fs) top dir) ∧
      (p.listed w.fs).Nodup ∧
      (∀ dir ∈ p.listed w.fs, ∃! path, path ∈ p.listings.map Listing.path ∧ w.fs.directory? path = some dir) ∧
      (w.calls root state).Nodup ∧
      ∀ path, path ∈ w.calls root state ↔ w.filter.Picks w.fs p.listings path := by
  obtain ⟨hlistings, herror, hcalls⟩ := run_of_never_fails never root state
  obtain ⟨q, hq⟩ : ∃ q, w.survey.run root [] = (q, none) := by
    rw [ok] at herror
    exact ⟨_, Prod.ext rfl herror.symm⟩
  rw [ok, hq] at hlistings
  have hlisted : p.listed w.fs = q.listed w.fs := by
    unfold Progress.listed
    rw [hlistings]
  dsimp only at hlistings
  rw [hlistings] at few
  rw [hlisted, hlistings, hcalls]
  exact ⟨mem_listed_iff_getsTo plain hq few, mem_listed_iff_reaches plain.denotes hq few,
    (distinct_of_run hq).nodup_listed (absolute_of_run plain hq), fun dir h => exists_unique_path plain hq h,
    w.itinerary_nodup root, mem_itinerary_iff_picks plain hq⟩

theorem looped_plain : looped.IsPlain (text "/r") [text "r"] where
  absolute := by decide
  leads := .stay rfl (.inl rfl) (.descend rfl rfl (.arrive _))
  directory := rfl

/-- What the walk over `looped` has listed when it ends, the latest first. -/
def loopedListings : List Listing := [⟨text "/e", text "/r/lib"⟩, ⟨text "/r", text "/r"⟩]

theorem looped_fewLinks : SourceFilter.standard.FewLinks looped loopedListings := by
  have hlocate : ∀ l ∈ loopedListings, ∀ dir ∈ looped.directory? l.path, ∀ e ∈ looped.entries dir,
      dir = [text "r"] ∧ e.1 = text "self" ∨ looped.locate (Path.join l.path e.1) ≠ .error .tooManyLinks := by
    decide +kernel
  rintro l hl dir hd e he _ _ ⟨target, links, leads⟩
  obtain ⟨rfl, hself⟩ | h := hlocate l hl dir hd e he
  · -- The link to itself leads nowhere: one more jump would lead there too, with one more link.
    rw [hself] at leads
    have hmore := (leads.unique (.jump rfl leads)).1
    omega
  · exact h

theorem looped_shortLiveLinks : SourceFilter.standard.ShortLiveLinks looped loopedListings := by
  have hshort : ∀ l ∈ loopedListings, ∀ dir ∈ looped.directory? l.path, ∀ e ∈ looped.entries dir,
      (Path.join l.path e.1).length ≤ FileSystem.longestPath := by
    decide +kernel
  intro l hl dir hd e he _ _ _ _
  exact hshort l hl dir hd e he

theorem looping_exact : looped.IsPlain (text "/r") [text "r"] ∧
    SourceFilter.standard.FewLinks looped loopedListings ∧ SourceFilter.standard.ShortLiveLinks looped loopedListings ∧
    looping.run (text "/r") [] = (⟨loopedListings, [text "/r/a.cpp", text "/r/c.cpp", text "/r/lib/b.h"]⟩, none) ∧
    Relation.ReflTransGen (SourceFilter.standard.GetsTo looped) [text "r"] [text "e"] ∧
    SourceFilter.standard.Picks looped loopedListings (text "/r/lib/b.h") :=
  have hrun : looping.run (text "/r") [] =
      (⟨loopedListings, [text "/r/a.cpp", text "/r/c.cpp", text "/r/lib/b.h"]⟩, none) := by decide +kernel
  have hexact := run_exact looping (fun _ _ => rfl) looped_plain hrun looped_fewLinks
  ⟨looped_plain, looped_fewLinks, looped_shortLiveLinks, hrun,
    (hexact.2.1 looped_shortLiveLinks _).mp (by decide +kernel),
    (hexact.2.2.2.2.2 _).mp (by decide +kernel)⟩

end Walk

end SignalAudit
