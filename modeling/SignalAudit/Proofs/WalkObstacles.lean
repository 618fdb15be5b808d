import SignalAudit.Proofs.VisitedPaths
import SignalAudit.Proofs.WalkFailure

/-!
What makes a walk fail, if no visit does. There are three obstacles: a link that is named like a source and is not
found, and, only where a path has too many bytes, a directory that cannot be read or cannot be spelled without links. A
walk that comes to an obstacle fails at the first, in the order of paths.
-/

namespace SignalAudit

open FileSystem (longestPath spelling)

namespace Walk

variable {σ ε : Type}

/-- A visible entry of a directory that has been listed and read. -/
structure Offers (w : Walk σ ε) (listings : List Listing) (l : Listing) (e : Text × Object) : Prop where
  listed : l ∈ listings
  read : ∃ found, w.fs.readDirectory l.path = .ok found ∧ e ∈ found
  visible : w.filter.Visible e.1

/-- What stands in the way of a walk that has listed some directories: the path and the cause. -/
inductive Hinders (w : Walk σ ε) (root : Text) (listings : List Listing) : Text → AccessError → Prop where
  | root {cause : AccessError} (failed : w.fs.canonical root = .error cause) : Hinders w root listings root cause
  | unread {l : Listing} {cause : AccessError} (listed : l ∈ listings)
      (failed : w.fs.readDirectory l.path = .error cause) : Hinders w root listings l.path cause
  | unspelled {l : Listing} {e : Text × Object} {cause : AccessError} (offers : w.Offers listings l e)
      (directory : w.fs.entryObject l.path e = .ok .directory)
      (failed : w.fs.canonical (Path.join l.path e.1) = .error cause) :
      Hinders w root listings (Path.join l.path e.1) cause
  | dangling {l : Listing} {e : Text × Object} {cause : AccessError} (offers : w.Offers listings l e)
      (link : e.2.isLink = true) (source : w.filter.isSource e.1 = true)
      (failed : w.fs.stat (Path.join l.path e.1) = .error cause) :
      Hinders w root listings (Path.join l.path e.1) cause

section Obstacles

variable {w : Walk σ ε} {listings : List Listing} {l : Listing} {e : Text × Object}

theorem Offers.of_task {found : List (Text × Object)} (listed : l ∈ listings)
    (read : w.fs.readDirectory l.path = .ok found) (he : e ∈ found) (hskip : w.filter.skips e.1 = false) :
    w.Offers listings l e :=
  ⟨listed, ⟨found, read, he⟩, SourceFilter.visible_iff.mpr hskip⟩

/-- What hinders below a directory hinders a walk that has come to it. -/
theorem Hinders.widen {root : Text} {path : Text} {cause : AccessError}
    (h : w.Hinders (Path.join l.path e.1) listings path cause) (offers : w.Offers listings l e)
    (directory : w.fs.entryObject l.path e = .ok .directory) : w.Hinders root listings path cause := by
  cases h with
  | root failed => exact .unspelled offers directory failed
  | unread listed failed => exact .unread listed failed
  | unspelled offers directory failed => exact .unspelled offers directory failed
  | dangling offers link source failed => exact .dangling offers link source failed

/-- A task at which a walk fails. -/
def Obstructed (fs : FileSystem) : Task → Prop
  | .fail _ _ => True
  | .enter path => ∃ cause, fs.canonical path = .error cause
  | .pass | .visit _ => False

theorem Settled.not_obstructed {fs : FileSystem} {q : Progress (List Text)} {task : Task} (h : Settled fs q task) :
    ¬ Obstructed fs task := by
  cases task with
  | pass | visit => exact not_false
  | fail => cases h
  | enter path =>
    rintro ⟨cause, failed⟩
    obtain ⟨canonical, spelled, _⟩ := h
    rw [spelled] at failed
    cases failed

/-- A listed directory holds no obstacle that comes before a path. -/
structure ClearBefore (w : Walk σ ε) (path : Text) (l : Listing) : Prop where
  unread : ∀ cause, w.fs.readDirectory l.path = .error cause → l.path = path
  entries : ∀ found, w.fs.readDirectory l.path = .ok found → ∀ e ∈ found,
    Obstructed w.fs (w.filter.task w.fs l.path e) →
      Path.join l.path e.1 = path ∨ Path.Before path (Path.join l.path e.1)

theorem Finished.clearBefore {q : Progress (List Text)} (h : Finished w q l) (path : Text) : w.ClearBefore path l := by
  obtain ⟨found, read, settled⟩ := h
  refine ⟨?_, ?_⟩
  · intro cause failed
    rw [read] at failed
    cases failed
  · intro other hother e he obstructed
    obtain rfl := Except.ok.inj (read.symm.trans hother)
    exact absurd obstructed (settled e he).not_obstructed

end Obstacles

/-- A survey that was to enter a directory has failed at a path: something hinders there, it is not above the directory,
and in the directories that are new nothing hinders before. -/
structure FailsAt (w : Walk σ ε) (p q : Progress (List Text)) (dir path : Text) (cause : AccessError) : Prop where
  hinders : w.Hinders dir q.listings path cause
  below : ∃ names, Path.inner path = names ++ Path.inner dir
  unspelled : ∀ cause, w.fs.canonical dir = .error cause → path = dir
  clear : ∀ l ∈ q.listings, l ∈ p.listings ∨ w.ClearBefore path l

/-- Of the entries of a directory, a survey has failed at one. -/
structure FailsAmong (w : Walk σ ε) (p q : Progress (List Text)) (dir : Text) (todo : List (Text × Object))
    (path : Text) (cause : AccessError) : Prop where
  hinders : w.Hinders dir q.listings path cause
  entry : ∃ before e after, todo = before ++ e :: after ∧
    (∀ x ∈ before, ¬ Obstructed w.fs (w.filter.task w.fs dir x)) ∧
    (Obstructed w.fs (w.filter.task w.fs dir e) → Path.join dir e.1 = path) ∧
    ∃ names, Path.inner path = names ++ e.1 :: Path.inner dir
  clear : ∀ l ∈ q.listings, l ∈ p.listings ∨ w.ClearBefore path l

section Failure

variable {w : Walk σ ε} {n : Nat} {l : Listing} {found : List (Text × Object)} {p q : Progress (List Text)}
  {path : Text} {cause : AccessError}

theorem perform_failsAmong (read : w.fs.readDirectory l.path = .ok found) {e : Text × Object} (he : e ∈ found)
    (hl : l ∈ p.listings)
    (henter : ∀ dir p q path cause, w.survey.enter n dir p = (q, some (.access path cause)) →
      w.FailsAt p q dir path cause)
    (h : w.survey.perform (w.survey.enter n) p (w.filter.task w.fs l.path e) = (q, some (.access path cause)))
    (after : List (Text × Object)) : w.FailsAmong p q l.path (e :: after) path cause := by
  have hname := FileSystem.isName_of_read read he
  cases ht : w.filter.task w.fs l.path e with
  | pass | visit =>
    rw [ht] at h
    cases h
  | fail path' cause' =>
    rw [ht] at h
    cases h
    obtain ⟨hskip, hsource, hobj, rfl⟩ := SourceFilter.task_eq_fail_iff.mp ht
    have hlink : e.2.isLink = true := by
      by_contra hplain
      rw [FileSystem.entryObject_of_plain (Bool.not_eq_true _ ▸ hplain)] at hobj
      cases hobj
    rw [FileSystem.entryObject_of_link hlink] at hobj
    exact ⟨.dangling (.of_task hl read he hskip) hlink hsource hobj,
      ⟨[], e, after, rfl, nofun, fun _ => rfl, [], Path.inner_join l.path hname⟩, fun l hl => .inl hl⟩
  | enter dir =>
    rw [ht] at h
    obtain ⟨hskip, hobj, rfl⟩ := SourceFilter.task_eq_enter_iff.mp ht
    have fails := henter _ p q path cause h
    have grows := w.survey.enter_grows n (Path.join l.path e.1) p
    have hq : (w.survey.enter n (Path.join l.path e.1) p).1 = q := congrArg Prod.fst h
    rw [hq] at grows
    obtain ⟨names, hbelow⟩ := fails.below
    rw [Path.inner_join l.path hname] at hbelow
    refine ⟨fails.hinders.widen (.of_task (grows.subset hl) read he hskip) hobj,
      ⟨[], e, after, rfl, nofun, ?_, names, hbelow⟩, fails.clear⟩
    rw [ht]
    rintro ⟨cause', failed⟩
    exact (fails.unspelled cause' failed).symm

theorem entries_failsAmong (read : w.fs.readDirectory l.path = .ok found) {todo : List (Text × Object)}
    (hsub : todo ⊆ found) (hl : l ∈ p.listings)
    (henter : ∀ dir p q path cause, w.survey.enter n dir p = (q, some (.access path cause)) →
      w.FailsAt p q dir path cause)
    (h : w.survey.entries (w.survey.enter n) l.path todo p = (q, some (.access path cause))) :
    w.FailsAmong p q l.path todo path cause := by
  induction todo generalizing p with
  | nil => cases h
  | cons e rest ih =>
    rw [entries_cons] at h
    change andThen (w.survey.perform (w.survey.enter n) p (w.filter.task w.fs l.path e)) _ = _ at h
    have grows := w.survey.perform_grows n p (w.filter.task w.fs l.path e)
    rcases hm : w.survey.perform (w.survey.enter n) p (w.filter.task w.fs l.path e) with ⟨mid, _ | error⟩
    · rw [hm] at h grows
      obtain ⟨settled, finished⟩ := perform_completes (w.enter_completes n) hm
      obtain ⟨hinders, ⟨before, x, after, hsplit, passed, hx⟩, clear⟩ :=
        ih (fun x hx => hsub (List.mem_cons_of_mem _ hx)) (grows.subset hl) h
      refine ⟨hinders, ⟨e :: before, x, after, by rw [hsplit, List.cons_append], ?_, hx⟩, ?_⟩
      · exact List.forall_mem_cons.mpr ⟨settled.not_obstructed, passed⟩
      · intro l' hl'
        rcases clear l' hl' with hmid | hclear
        · exact (finished l' hmid).imp_right fun hf => hf.clearBefore path
        · exact .inr hclear
    · rw [hm] at h
      cases h
      exact perform_failsAmong read (hsub (List.mem_cons_self ..)) hl henter hm rest

/-- Past the entry at which a survey has failed, names are greater. -/
theorem FailsAmong.clearBefore {place : Location} (h : w.FailsAmong p q l.path (w.fs.entries place) path cause)
    (read : w.fs.readDirectory l.path = .ok (w.fs.entries place)) : w.ClearBefore path l := by
  refine ⟨?_, ?_⟩
  · intro cause' failed
    rw [read] at failed
    cases failed
  · intro other hother x hx obstructed
    obtain rfl := Except.ok.inj (read.symm.trans hother)
    have hname := FileSystem.isName_of_mem_entries hx
    have ascending := w.fs.entries_ascending place
    obtain ⟨before, e, after, hsplit, passed, hhere, names, hbelow⟩ := h.entry
    rw [hsplit] at hx ascending
    rcases List.mem_append.mp hx with hx | hx
    · exact absurd obstructed (passed x hx)
    · rcases List.mem_cons.mp hx with rfl | hx
      · exact .inl (hhere obstructed)
      · have hlt : e.1 < x.1 := (List.pairwise_cons.mp (List.pairwise_append.mp ascending).2.1).1 x hx
        have hx : Path.inner (Path.join l.path x.1) = [] ++ x.1 :: Path.inner l.path := Path.inner_join l.path hname
        exact .inr (Path.before_of_names hbelow hx hlt)

theorem enter_failsAt (n : Nat) (dir : Text) (p q : Progress (List Text)) (path : Text) (cause : AccessError)
    (h : w.survey.enter n dir p = (q, some (.access path cause))) : w.FailsAt p q dir path cause := by
  induction n generalizing dir p q path cause with
  | zero => cases h
  | succ n ih =>
    unfold Walk.enter at h
    split at h
    · next failed =>
      cases h
      exact ⟨.root failed, ⟨[], rfl⟩, fun _ _ => rfl, fun l hl => .inl hl⟩
    · next canonical spelled =>
      have hspelled : ∀ cause', w.fs.canonical dir = .error cause' → path = dir := by
        intro cause' failed
        cases spelled.symm.trans failed
      split at h
      · cases h
      · dsimp only at h
        split at h
        · next failed =>
          cases h
          refine ⟨.unread (l := ⟨canonical, dir⟩) (List.mem_cons_self ..) failed, ⟨[], rfl⟩, hspelled, ?_⟩
          intro l hl
          rcases List.mem_cons.mp hl with rfl | hl
          · refine .inr ⟨fun _ _ => rfl, ?_⟩
            intro found read
            cases failed.symm.trans read
          · exact .inl hl
        · next found read =>
          obtain ⟨place, _, _, rfl⟩ := FileSystem.readDirectory_eq_ok_iff.mp read
          have fails := entries_failsAmong (w := w) (l := ⟨canonical, dir⟩) read (List.Subset.refl _)
            (List.mem_cons_self ..) ih h
          obtain ⟨_, e, _, _, _, _, names, hbelow⟩ := fails.entry
          refine ⟨fails.hinders, ⟨names ++ [e.1], by simpa using hbelow⟩, hspelled, ?_⟩
          intro l hl
          rcases fails.clear l hl with hl | hclear
          · rcases List.mem_cons.mp hl with rfl | hl
            · exact .inr (fails.clearBefore read)
            · exact .inl hl
          · exact .inr hclear

end Failure

section Run

variable {w : Walk σ ε} {root : Text} {listings : List Listing} {q : Progress (List Text)} {path : Text}
  {cause : AccessError}

/-- What hinders is the root, a directory that cannot be read, or an entry at whose task a walk fails. -/
theorem Hinders.obstructs (h : w.Hinders root listings path cause) :
    (w.fs.canonical root = .error cause ∧ path = root) ∨
      (∃ l ∈ listings, w.fs.readDirectory l.path = .error cause ∧ path = l.path) ∨
      ∃ l ∈ listings, ∃ found, w.fs.readDirectory l.path = .ok found ∧ ∃ e ∈ found,
        Obstructed w.fs (w.filter.task w.fs l.path e) ∧ path = Path.join l.path e.1 := by
  cases h with
  | root failed => exact .inl ⟨failed, rfl⟩
  | unread listed failed => exact .inr (.inl ⟨_, listed, failed, rfl⟩)
  | unspelled offers directory failed =>
    obtain ⟨listed, ⟨found, read, he⟩, visible⟩ := offers
    refine .inr (.inr ⟨_, listed, found, read, _, he, ?_, rfl⟩)
    rw [SourceFilter.task_eq_enter_iff.mpr ⟨SourceFilter.visible_iff.mp visible, directory, rfl⟩]
    exact ⟨cause, failed⟩
  | dangling offers link source failed =>
    obtain ⟨listed, ⟨found, read, he⟩, visible⟩ := offers
    refine .inr (.inr ⟨_, listed, found, read, _, he, ?_, rfl⟩)
    rw [← FileSystem.entryObject_of_link link] at failed
    rw [SourceFilter.task_eq_fail_iff.mpr ⟨SourceFilter.visible_iff.mp visible, source, failed, rfl⟩]
    trivial

/-- Where directories can be read and spelled without links, only links are obstacles. -/
theorem Hinders.dangles {p : Progress σ} (h : w.Hinders root p.listings path cause)
    (readable : ∀ l ∈ p.listings, ∀ cause, w.fs.readDirectory l.path ≠ .error cause)
    (spellable : ∀ dir cause, w.InScope root p dir → w.fs.canonical dir ≠ .error cause) :
    ∃ l e, w.Offers p.listings l e ∧ e.2.isLink = true ∧ w.filter.isSource e.1 = true ∧
      w.fs.stat (Path.join l.path e.1) = .error cause ∧ path = Path.join l.path e.1 := by
  cases h with
  | root failed => exact absurd failed (spellable root cause (.inl rfl))
  | unread listed failed => exact absurd failed (readable _ listed cause)
  | unspelled offers directory failed =>
    obtain ⟨listed, ⟨found, read, he⟩, visible⟩ := offers
    have task := SourceFilter.task_eq_enter_iff.mpr ⟨SourceFilter.visible_iff.mp visible, directory, rfl⟩
    exact absurd failed (spellable _ cause (.inr ⟨_, listed, found, read, _, he, task⟩))
  | dangling offers link source failed => exact ⟨_, _, offers, link, source, failed, rfl⟩

/-- What hinders a walk that has failed at a path is there, or comes after it. -/
theorem FailsAt.first {why : AccessError} {stop : Text} (fails : w.FailsAt ⟨[], []⟩ q root stop why)
    (h : w.Hinders root q.listings path cause) : path = stop ∨ Path.Before stop path := by
  have clear : ∀ l ∈ q.listings, w.ClearBefore stop l := fun l hl => (fails.clear l hl).resolve_left List.not_mem_nil
  rcases h.obstructs with ⟨failed, rfl⟩ | ⟨l, hl, failed, rfl⟩ | ⟨l, hl, found, read, e, he, obstructed, rfl⟩
  · exact .inl (fails.unspelled cause failed).symm
  · exact .inl ((clear l hl).unread cause failed)
  · exact (clear l hl).entries found read e he obstructed

/-- Nothing hinders a walk that has come to its end. -/
theorem not_hinders_of_run (ok : w.survey.run root [] = (q, none)) : ¬ w.Hinders root q.listings path cause := by
  intro h
  rcases h.obstructs with ⟨failed, _⟩ | ⟨l, hl, failed, _⟩ | ⟨l, hl, found, read, e, he, obstructed, _⟩
  · obtain ⟨canonical, spelled, _⟩ := (w.enter_completes _ root ⟨[], []⟩ q ok).1
    cases spelled.symm.trans failed
  · obtain ⟨found, read, _⟩ := finished_of_run ok l hl
    cases read.symm.trans failed
  · obtain ⟨other, hother, settled⟩ := finished_of_run ok l hl
    obtain rfl := Except.ok.inj (hother.symm.trans read)
    exact (settled e he).not_obstructed obstructed

/-- A survey fails at an access and at nothing else. -/
theorem exists_failsAt {error : WalkError ε} (h : w.survey.run root [] = (q, some error)) :
    ∃ path cause, error = .access path cause ∧ w.FailsAt ⟨[], []⟩ q root path cause := by
  obtain ⟨stopped, shallow⟩ := run_stopped h
  cases stopped with
  | depth dir => exact absurd rfl (shallow dir)
  | visit _ _ _ _ failed => cases failed
  | unspelled | unread | entry => exact ⟨_, _, rfl, enter_failsAt _ root ⟨[], []⟩ q _ _ h⟩

end Run

/-- A walk whose visits never fail, from an absolute root without links. It fails just when there is an obstacle in what
it has listed, and then at the first, in the order of paths. A directory that it has listed cannot be read just when its
path has too many bytes; and one that it may enter can be spelled without links unless a spelling on the way has too
many bytes. Where that does not happen, the obstacles are links that are named like sources and are not found. -/
theorem run_fails_iff_hindered (w : Walk σ ε) (never : ∀ path s, (w.visit path s).2 = none) {root : Text}
    {top : Location} (plain : w.fs.IsPlain root top) {state : σ} {p : Progress σ} {outcome : Option (WalkError ε)}
    (h : w.run root state = (p, outcome)) :
    (outcome ≠ none ↔ ∃ path cause, w.Hinders root p.listings path cause) ∧
      (∀ error, outcome = some error → ∃ path cause, error = .access path cause ∧
        w.Hinders root p.listings path cause ∧
        (∀ other why, w.Hinders root p.listings other why → other = path ∨ Path.Before path other) ∧
        ∀ describe, error.message describe =
          text "failed to walk directory: error accessing " ++ path ++ text ": " ++ cause.message) ∧
      (∀ l ∈ p.listings, ∀ cause, w.fs.readDirectory l.path = .error cause ↔
        longestPath < l.path.length ∧ cause = .operation .openFile l.path .tooLong) ∧
      (∀ dir cause, w.InScope root p dir → w.fs.canonical dir = .error cause →
        ∃ spelled, longestPath < spelled.length ∧ cause = .operation .lstat spelled .tooLong) ∧
      ((∀ l ∈ p.listings, l.path.length ≤ longestPath) →
        (∀ dir cause, w.InScope root p dir → w.fs.canonical dir ≠ .error cause) →
        ∀ path cause, w.Hinders root p.listings path cause →
          ∃ l e, w.Offers p.listings l e ∧ e.2.isLink = true ∧ w.filter.isSource e.1 = true ∧
            w.fs.stat (Path.join l.path e.1) = .error cause ∧ path = Path.join l.path e.1) := by
  have reaches := run_reaches plain state
  obtain ⟨hlistings, houtcome, _⟩ := run_of_never_fails never root state
  rw [h] at reaches hlistings houtcome
  dsimp only at reaches hlistings houtcome
  have hfirst : ∀ error, outcome = some error → ∃ path cause, error = .access path cause ∧
      w.Hinders root p.listings path cause ∧
      ∀ other why, w.Hinders root p.listings other why → other = path ∨ Path.Before path other := by
    intro error herror
    have hsurvey : w.survey.run root [] = ((w.survey.run root []).1, some error) :=
      Prod.ext rfl (houtcome.symm.trans herror)
    obtain ⟨path, cause, rfl, fails⟩ := exists_failsAt hsurvey
    rw [hlistings]
    exact ⟨path, cause, rfl, fails.hinders, fun _ _ => fails.first⟩
  have hunread : ∀ l ∈ p.listings, ∀ cause, w.fs.readDirectory l.path = .error cause ↔
      longestPath < l.path.length ∧ cause = .operation .openFile l.path .tooLong := by
    intro l hl cause
    obtain ⟨_, place, finds⟩ := reaches l hl
    exact finds.readDirectory_eq_error_iff
  refine ⟨⟨?_, ?_⟩, ?_, hunread, ?_, ?_⟩
  · intro hsome
    obtain ⟨error, herror⟩ := Option.ne_none_iff_exists'.mp hsome
    obtain ⟨path, cause, _, hinders, _⟩ := hfirst error herror
    exact ⟨path, cause, hinders⟩
  · rintro ⟨path, cause, hinders⟩ rfl
    rw [hlistings] at hinders
    exact not_hinders_of_run (Prod.ext rfl houtcome.symm) hinders
  · intro error herror
    obtain ⟨path, cause, rfl, hinders, first⟩ := hfirst error herror
    refine ⟨path, cause, rfl, hinders, first, ?_⟩
    have hwords : text "failed to walk directory: error accessing " =
        text "failed to walk directory: " ++ text "error accessing " := rfl
    simp [WalkError.message, hwords]
  · intro dir cause scope failed
    obtain ⟨_, place, finds⟩ := scope.reaches plain reaches
    exact finds.canonical_eq_error failed
  · intro short spellable path cause hinders
    apply hinders.dangles _ spellable
    intro l hl cause failed
    exact Nat.not_lt.mpr (short l hl) ((hunread l hl cause).mp failed).1

/-- Two links lead nowhere, one of them in a directory behind a link. -/
def forked : FileSystem where
  objects := [
    ([text "r"], .directory),
    ([text "a.cpp", text "r"], .file .empty),
    ([text "b", text "r"], .link (text "../e")),
    ([text "d.cpp", text "r"], .link (text "nowhere")),
    ([text "e"], .directory),
    ([text "c.h", text "e"], .link (text "nowhere")),
    ([text "x", text "e"], .link (text "nowhere"))]

def forking : Walk (List Text) Unit := ⟨forked, .standard, fun path seen => (seen ++ [path], none)⟩

def forkedListings : List Listing := [⟨text "/e", text "/r/b"⟩, ⟨text "/r", text "/r"⟩]

theorem forked_dangling : forking.Hinders (text "/r") forkedListings (text "/r/d.cpp")
    (.operation .stat (text "/r/d.cpp") .notFound) := by
  have offers : forking.Offers forkedListings ⟨text "/r", text "/r"⟩ (text "d.cpp", .link (text "nowhere")) :=
    ⟨by decide, ⟨_, rfl, FileSystem.mem_entries.mpr rfl⟩, SourceFilter.visible_iff.mpr (by decide)⟩
  exact .dangling offers rfl (by decide) (FileSystem.stat_of_locate_error (by decide))

theorem forking_hindered : forked.IsPlain (text "/r") [text "r"] ∧
    forking.run (text "/r") [] = (⟨forkedListings, [text "/r/a.cpp"]⟩,
      some (.access (text "/r/b/c.h") (.operation .stat (text "/r/b/c.h") .notFound))) ∧
    forking.Hinders (text "/r") forkedListings (text "/r/b/c.h") (.operation .stat (text "/r/b/c.h") .notFound) ∧
    Path.Before (text "/r/b/c.h") (text "/r/d.cpp") := by
  have plain : forked.IsPlain (text "/r") [text "r"] :=
    ⟨by decide, .stay rfl (.inl rfl) (.descend rfl rfl (.arrive _)), rfl⟩
  have hrun : forking.run (text "/r") [] = (⟨forkedListings, [text "/r/a.cpp"]⟩,
      some (.access (text "/r/b/c.h") (.operation .stat (text "/r/b/c.h") .notFound))) := by decide +kernel
  obtain ⟨_, hfirst, _⟩ := run_fails_iff_hindered forking (fun _ _ => rfl) plain hrun
  obtain ⟨path, cause, herror, hinders, first, _⟩ := hfirst _ rfl
  cases herror
  exact ⟨plain, hrun, hinders, (first _ _ forked_dangling).resolve_left (by decide)⟩

/-- Up a tower with one storey more. -/
def scaling : Walk (List Text) Unit :=
  ⟨tower (storey 15) .directory, .standard, fun path seen => (seen ++ [path], none)⟩

theorem scaling_top : scaling.fs.isDirectory (storey 15 :: storeys 15) = true := by decide +kernel

theorem scaling_long : longestPath < (spelling (storey 15 :: storeys 15)).length := by decide +kernel

theorem scaling_entries : scaling.fs.entries (storeys 15) = [(storey 15, .directory)] :=
  tower_entries (by decide +kernel)

/-- A walk fails though there is not a single link in what it has listed. -/
theorem scaling_fails_without_links : scaling.fs.IsPlain (spelling (storeys 15)) (storeys 15) ∧
    ∃ p path, scaling.run (spelling (storeys 15)) [] = (p, some (.access path (.operation .lstat path .tooLong))) ∧
      ∀ l e, scaling.Offers p.listings l e → e.2.isLink = false := by
  have hfound := FileSystem.isDirectory_iff.mp scaling_top
  have hdirectory := (FileSystem.at?_cons hfound).2.1
  have plain := FileSystem.isPlain_spelling hdirectory
  have spelled := FileSystem.canonical_spelling hdirectory storeys_short
  have read := (FileSystem.FindsAt.of_isPlain plain).readDirectory_eq
  rw [if_pos storeys_short, scaling_entries] at read
  have unspelled := FileSystem.canonical_of_long scaling_top storeys_short scaling_long
  rw [← FileSystem.join_spelling hfound] at unspelled
  have task : scaling.filter.task scaling.fs (spelling (storeys 15)) (storey 15, .directory) = .enter _ :=
    SourceFilter.task_eq_enter_iff.mpr ⟨by decide, FileSystem.entryObject_of_plain rfl, rfl⟩
  obtain ⟨n, hn⟩ : ∃ n, depthBound scaling.fs = n + 2 := Nat.exists_eq_add_of_le' (by decide)
  refine ⟨plain, ⟨[⟨spelling (storeys 15), spelling (storeys 15)⟩], []⟩,
    Path.join (spelling (storeys 15)) (storey 15), ?_, ?_⟩
  · rw [scaling.run_of_single hn spelled read, task, perform, enter_of_unspelled unspelled]
  · rintro l e ⟨listed, ⟨found, hfound, he⟩, _⟩
    obtain rfl := List.mem_singleton.mp listed
    obtain rfl := Except.ok.inj (read.symm.trans hfound)
    obtain rfl := List.mem_singleton.mp he
    rfl

end Walk

end SignalAudit
