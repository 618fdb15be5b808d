import Mathlib.Data.List.Nodup
import Mathlib.Logic.Relation
import SignalAudit.Proofs.CanonicalSpelling
import SignalAudit.Walk

/-!
What a walk does, step by step. Each entry of a directory is one task for the walk, and a walk changes its progress
in two ways only: it enters a directory that it did not know, or it visits a source file of one it has entered.
-/

namespace SignalAudit

namespace FileSystem

/-- The entries of a directory are what is right below it. -/
theorem mem_entries {fs : FileSystem} {dir : Location} {e : Text × Object} :
    e ∈ fs.entries dir ↔ fs.at? (e.1 :: dir) = some e.2 := by
  obtain ⟨name, object⟩ := e
  simp only [entries, List.mem_filterMap, Option.map_eq_some_iff, Prod.mk.injEq]
  constructor
  · rintro ⟨other, _, found, hf, rfl, rfl⟩
    exact hf
  · intro h
    obtain ⟨hl, _, ho⟩ := at?_cons h
    refine ⟨name, ?_, object, h, rfl, rfl⟩
    have hm : (name :: dir, object) ∈ fs.objects := by
      obtain ⟨before, after, ho, _⟩ := List.lookup_eq_some_iff.mp ho
      simp [ho]
    have hn : name ∈ fs.names dir := by
      rw [names, NameSet.mem_ofList, List.mem_filterMap]
      exact ⟨_, hm, by simp [entryName?, hl]⟩
    exact hn

theorem isName_of_mem_entries {fs : FileSystem} {dir : Location} {e : Text × Object} (h : e ∈ fs.entries dir) :
    Path.IsName e.1 :=
  isName_of_found (mem_entries.mp h)

/-- The entries of a directory are known by their names. -/
theorem entries_eq_of_names {fs : FileSystem} {dir : Location} {found : List (Text × Object)}
    (names : (fs.entries dir).map Prod.fst = found.map Prod.fst)
    (objects : ∀ e ∈ found, fs.at? (e.1 :: dir) = some e.2) : fs.entries dir = found := by
  let named (name : Text) : Text × Object := (name, (fs.at? (name :: dir)).getD .directory)
  have hnamed : ∀ es : List (Text × Object), (∀ e ∈ es, fs.at? (e.1 :: dir) = some e.2) →
      (es.map Prod.fst).map named = es := by
    intro es hes
    rw [List.map_map]
    exact (List.map_congr_left fun e he => by simp [named, hes e he]).trans es.map_id
  rw [← hnamed (fs.entries dir) fun _ => mem_entries.mp, names, hnamed found objects]

theorem readDirectory_eq_ok_iff {fs : FileSystem} {path : Text} {found : List (Text × Object)} :
    fs.readDirectory path = .ok found ↔
      ∃ place, fs.locate path = .ok place ∧ fs.isDirectory place = true ∧ fs.entries place = found := by
  unfold readDirectory
  cases hl : fs.locate path with
  | error => simp
  | ok place => by_cases hd : fs.isDirectory place = true <;> simp [hd]

/-- The directory that a path leads to. -/
def directory? (fs : FileSystem) (path : Text) : Option Location :=
  match fs.locate path with
  | .ok place => if fs.isDirectory place then some place else none
  | .error _ => none

theorem directory?_eq_some_iff {fs : FileSystem} {path : Text} {place : Location} :
    fs.directory? path = some place ↔ fs.locate path = .ok place ∧ fs.isDirectory place = true := by
  unfold directory?
  cases hl : fs.locate path with
  | error => simp
  | ok other =>
    by_cases hd : fs.isDirectory other = true
    · simp only [hd, ↓reduceIte, Option.some.injEq, Except.ok.injEq]
      exact ⟨fun h => ⟨h, h ▸ hd⟩, And.left⟩
    · simp only [hd]
      constructor
      · intro h
        cases h
      · rintro ⟨h, hd'⟩
        cases h
        exact absurd hd' hd

/-- What an entry of a directory is, a link being what it leads to. -/
def entryObject (fs : FileSystem) (dir : Text) (e : Text × Object) : Except AccessError Object :=
  match e.2 with
  | .link _ => fs.stat (Path.join dir e.1)
  | object => .ok object

end FileSystem

/-- The directories that a walk has listed, the latest first. -/
def Progress.listed {σ : Type} (fs : FileSystem) (p : Progress σ) : List Location :=
  p.listings.filterMap fun l => fs.directory? l.path

/-- What an entry of a directory asks of a walk. -/
inductive Task where
  | pass
  | fail (path : Text) (cause : AccessError)
  | enter (path : Text)
  | visit (path : Text)

namespace SourceFilter

/-- The task of an entry. It depends on nothing that the walk has done. -/
def task (f : SourceFilter) (fs : FileSystem) (dir : Text) (e : Text × Object) : Task :=
  if f.skips e.1 then .pass
  else match fs.entryObject dir e with
    | .ok .directory => .enter (Path.join dir e.1)
    | .ok (.file _) => if f.isSource e.1 then .visit (Path.join dir e.1) else .pass
    | .ok (.link _) | .ok (.pipe _) | .ok (.device _) => .pass
    | .error cause => if f.isSource e.1 then .fail (Path.join dir e.1) cause else .pass

theorem task_eq_enter_iff {f : SourceFilter} {fs : FileSystem} {dir path : Text} {e : Text × Object} :
    f.task fs dir e = .enter path ↔
      f.skips e.1 = false ∧ fs.entryObject dir e = .ok .directory ∧ path = Path.join dir e.1 := by
  unfold task
  cases hs : f.skips e.1 with
  | true => simp
  | false =>
    cases ho : fs.entryObject dir e with
    | error cause => by_cases hf : f.isSource e.1 = true <;> simp [hf]
    | ok object =>
      cases object with
      | directory => simpa using eq_comm
      | file content => by_cases hf : f.isSource e.1 = true <;> simp [hf]
      | link | pipe | device => simp

theorem task_eq_visit_iff {f : SourceFilter} {fs : FileSystem} {dir path : Text} {e : Text × Object} :
    f.task fs dir e = .visit path ↔
      f.skips e.1 = false ∧ f.isSource e.1 = true ∧ (∃ content, fs.entryObject dir e = .ok (.file content)) ∧
        path = Path.join dir e.1 := by
  unfold task
  cases hs : f.skips e.1 with
  | true => simp
  | false =>
    cases ho : fs.entryObject dir e with
    | error cause => by_cases hf : f.isSource e.1 = true <;> simp [hf]
    | ok object =>
      cases object with
      | file content =>
        by_cases hf : f.isSource e.1 = true
        · simpa [hf] using eq_comm
        · simp [hf]
      | directory | link | pipe | device => simp

theorem task_eq_fail_iff {f : SourceFilter} {fs : FileSystem} {dir path : Text} {e : Text × Object}
    {cause : AccessError} :
    f.task fs dir e = .fail path cause ↔
      f.skips e.1 = false ∧ f.isSource e.1 = true ∧ fs.entryObject dir e = .error cause ∧ path = Path.join dir e.1 := by
  unfold task
  cases hs : f.skips e.1 with
  | true => simp
  | false =>
    cases ho : fs.entryObject dir e with
    | error other =>
      by_cases hf : f.isSource e.1 = true
      · simp [hf, eq_comm, and_comm]
      · simp [hf]
    | ok object =>
      cases object with
      | file content => by_cases hf : f.isSource e.1 = true <;> simp [hf]
      | directory | link | pipe | device => simp

end SourceFilter

namespace Walk

variable {σ ε : Type}

/-- Does a task. -/
def perform (w : Walk σ ε) (enter : Text → Progress σ → Outcome σ ε) (p : Progress σ) : Task → Outcome σ ε
  | .pass => (p, none)
  | .fail path cause => (p, some (.access path cause))
  | .enter path => enter path p
  | .visit path => ({ p with state := (w.visit path p.state).1 }, (w.visit path p.state).2.map (.visit path))

theorem entry_eq_perform (w : Walk σ ε) (enter : Text → Progress σ → Outcome σ ε) (dir : Text) (e : Text × Object)
    (p : Progress σ) : w.entry enter dir e p = w.perform enter p (w.filter.task w.fs dir e) := by
  have hreach : ∀ object, w.fs.entryObject dir e = .ok object → w.filter.skips e.1 = false →
      w.reach enter e.1 (Path.join dir e.1) object p = w.perform enter p (w.filter.task w.fs dir e) := by
    intro object ho hs
    cases object with
    | directory | link | pipe | device => simp [SourceFilter.task, hs, ho, reach, perform]
    | file content =>
      by_cases hf : w.filter.isSource e.1 = true
      · rcases hv : w.visit (Path.join dir e.1) p.state with ⟨state, _ | cause⟩ <;>
          simp [SourceFilter.task, hs, ho, reach, perform, hf, hv]
      · simp [SourceFilter.task, hs, ho, reach, perform, hf]
  unfold entry
  split
  · next hs => simp [SourceFilter.task, hs, perform]
  · next hs =>
    have hs' : w.filter.skips e.1 = false := by simpa using hs
    dsimp only
    split
    · next goal he =>
      have hstat : w.fs.entryObject dir e = w.fs.stat (Path.join dir e.1) := by simp [FileSystem.entryObject, he]
      cases ho : w.fs.stat (Path.join dir e.1) with
      | ok object => exact hreach object (hstat.trans ho) hs'
      | error cause =>
        by_cases hf : w.filter.isSource e.1 = true <;>
          simp [SourceFilter.task, hs', hstat, ho, perform, hf]
    · next hne =>
      apply hreach e.2 _ hs'
      unfold FileSystem.entryObject
      split
      · next goal he => exact absurd he (hne goal)
      · rfl

/-- Goes on from an outcome that no error has ended. -/
def andThen (out : Outcome σ ε) (more : Progress σ → Outcome σ ε) : Outcome σ ε :=
  match out with
  | (p, none) => more p
  | (p, some error) => (p, some error)

theorem entries_cons (w : Walk σ ε) (enter : Text → Progress σ → Outcome σ ε) (dir : Text) (e : Text × Object)
    (rest : List (Text × Object)) (p : Progress σ) :
    w.entries enter dir (e :: rest) p =
      andThen (w.perform enter p (w.filter.task w.fs dir e)) (w.entries enter dir rest) := by
  rw [entries, entry_eq_perform]
  rfl

theorem entries_singleton (w : Walk σ ε) (enter : Text → Progress σ → Outcome σ ε) (dir : Text) (e : Text × Object)
    (p : Progress σ) : w.entries enter dir [e] p = w.perform enter p (w.filter.task w.fs dir e) := by
  have hlast : ∀ out : Outcome σ ε, andThen out (w.entries enter dir []) = out := by
    rintro ⟨p, _ | error⟩ <;> rfl
  rw [entries_cons, hlast]

/-- Entries whose tasks change nothing. -/
theorem entries_of_idle {w : Walk σ ε} {enter : Text → Progress σ → Outcome σ ε} {dir : Text}
    {found : List (Text × Object)} {p : Progress σ}
    (h : ∀ e ∈ found, w.perform enter p (w.filter.task w.fs dir e) = (p, none)) :
    w.entries enter dir found p = (p, none) := by
  induction found with
  | nil => rfl
  | cons e rest ih =>
    obtain ⟨hfirst, hrest⟩ := List.forall_mem_cons.mp h
    rw [entries_cons, hfirst]
    exact ih hrest

/-- Entries of which one has a task, where those before it are passed over and those after it change nothing. -/
theorem entries_of_one {w : Walk σ ε} {enter : Text → Progress σ → Outcome σ ε} {dir : Text} {e : Text × Object}
    {before after : List (Text × Object)} {p q : Progress σ} {error : Option (WalkError ε)}
    (passed : ∀ e' ∈ before, w.filter.task w.fs dir e' = .pass)
    (one : w.perform enter p (w.filter.task w.fs dir e) = (q, error))
    (idle : ∀ e' ∈ after, w.perform enter q (w.filter.task w.fs dir e') = (q, none)) :
    w.entries enter dir (before ++ e :: after) p = (q, error) := by
  induction before with
  | nil =>
    rw [List.nil_append, entries_cons, one]
    cases error with
    | none => exact entries_of_idle idle
    | some => rfl
  | cons e' rest ih =>
    obtain ⟨hfirst, hrest⟩ := List.forall_mem_cons.mp passed
    rw [List.cons_append, entries_cons, hfirst]
    exact ih hrest

section Enter

variable {w : Walk σ ε} {dir canonical : Text} {p : Progress σ} {n : Nat}

theorem enter_of_unspelled {cause : AccessError} (h : w.fs.canonical dir = .error cause) :
    w.enter (n + 1) dir p = (p, some (.access dir cause)) := by
  rw [enter, h]

theorem enter_of_known (spelled : w.fs.canonical dir = .ok canonical) (known : p.knows canonical = true) :
    w.enter (n + 1) dir p = (p, none) := by
  simp only [enter, spelled, known, ↓reduceIte]

theorem enter_of_fresh {found : List (Text × Object)} (spelled : w.fs.canonical dir = .ok canonical)
    (fresh : p.knows canonical = false) (read : w.fs.readDirectory dir = .ok found) :
    w.enter (n + 1) dir p =
      w.entries (w.enter n) dir found { p with listings := ⟨canonical, dir⟩ :: p.listings } := by
  simp only [enter, spelled, fresh, read, Bool.false_eq_true, ↓reduceIte]

end Enter

/-- An outcome that has gone on from some progress. -/
theorem perform_cases {w : Walk σ ε} {enter : Text → Progress σ → Outcome σ ε} {p : Progress σ} {task : Task}
    {R : Progress σ → Progress σ → Prop} (refl : R p p) (henter : ∀ path, task = .enter path → R p (enter path p).1)
    (hvisit : ∀ path, task = .visit path → R p { p with state := (w.visit path p.state).1 }) :
    R p (w.perform enter p task).1 := by
  cases task with
  | pass | fail => exact refl
  | enter path => exact henter path rfl
  | visit path => exact hvisit path rfl

/-- A directory that a walk from a root may enter next: the root, or an entry of a directory it has entered. -/
def InScope (w : Walk σ ε) (root : Text) (p : Progress σ) (dir : Text) : Prop :=
  dir = root ∨ ∃ l ∈ p.listings, ∃ found, w.fs.readDirectory l.path = .ok found ∧
    ∃ e ∈ found, w.filter.task w.fs l.path e = .enter dir

/-- The two ways in which a walk's progress changes. -/
inductive Step (w : Walk σ ε) (root : Text) : Progress σ → Progress σ → Prop where
  | list {p : Progress σ} {dir canonical : Text} (scope : w.InScope root p dir)
      (spelled : w.fs.canonical dir = .ok canonical) (fresh : p.knows canonical = false) :
      Step w root p { p with listings := ⟨canonical, dir⟩ :: p.listings }
  | visit {p : Progress σ} {l : Listing} {found : List (Text × Object)} {e : Text × Object} {path : Text}
      (listed : l ∈ p.listings) (read : w.fs.readDirectory l.path = .ok found) (entry : e ∈ found)
      (task : w.filter.task w.fs l.path e = .visit path) :
      Step w root p { p with state := (w.visit path p.state).1 }

/-- Progress made by any number of steps. -/
def Steps (w : Walk σ ε) (root : Text) : Progress σ → Progress σ → Prop := Relation.ReflTransGen (w.Step root)

theorem Step.grows {w : Walk σ ε} {root : Text} {p q : Progress σ} (h : w.Step root p q) :
    p.listings <:+ q.listings := by
  cases h with
  | list => exact List.suffix_cons ..
  | visit => exact List.suffix_rfl

theorem Steps.grows {w : Walk σ ε} {root : Text} {p q : Progress σ} (h : w.Steps root p q) :
    p.listings <:+ q.listings := by
  induction h with
  | refl => exact List.suffix_rfl
  | tail _ step ih => exact ih.trans step.grows

/-- An invariant that steps keep holds after any number of them. -/
theorem Steps.invariant {w : Walk σ ε} {root : Text} {p q : Progress σ} (h : w.Steps root p q)
    (Inv : Progress σ → Prop) (hp : Inv p) (hstep : ∀ a b, Inv a → w.Step root a b → Inv b) : Inv q := by
  induction h with
  | refl => exact hp
  | tail _ step ih => exact hstep _ _ ih step

theorem entries_steps {w : Walk σ ε} {root : Text} {enter : Text → Progress σ → Outcome σ ε} {l : Listing}
    {found : List (Text × Object)} (read : w.fs.readDirectory l.path = .ok found)
    (henter : ∀ path p, w.InScope root p path → w.Steps root p (enter path p).1) {todo : List (Text × Object)}
    (hsub : todo ⊆ found) {p : Progress σ} (hl : l ∈ p.listings) :
    w.Steps root p (w.entries enter l.path todo p).1 := by
  induction todo generalizing p with
  | nil => exact .refl
  | cons e rest ih =>
    have he : e ∈ found := hsub (by simp)
    have first : w.Steps root p (w.perform enter p (w.filter.task w.fs l.path e)).1 := by
      apply perform_cases .refl
      · intro path ht
        exact henter path p (.inr ⟨l, hl, found, read, e, he, ht⟩)
      · intro path ht
        exact .single (.visit hl read he ht)
    rw [entries_cons]
    rcases hp : w.perform enter p (w.filter.task w.fs l.path e) with ⟨q, _ | error⟩
    · rw [hp] at first
      exact first.trans (ih (fun x hx => hsub (by simp [hx])) (first.grows.subset hl))
    · rwa [hp] at first

theorem enter_steps {w : Walk σ ε} {root : Text} (n : Nat) {dir : Text} {p : Progress σ}
    (h : w.InScope root p dir) : w.Steps root p (w.enter n dir p).1 := by
  induction n generalizing dir p with
  | zero => exact .refl
  | succ n ih =>
    unfold enter
    split
    · exact .refl
    · next canonical spelled =>
      split
      · exact .refl
      · next hk =>
        have first : w.Step root p { p with listings := ⟨canonical, dir⟩ :: p.listings } :=
          .list h spelled (by simpa using hk)
        dsimp only
        split
        · exact .single first
        · next found read =>
          have rest := entries_steps (l := ⟨canonical, dir⟩) read (fun path q hq => ih hq) (List.Subset.refl found)
            (p := { p with listings := ⟨canonical, dir⟩ :: p.listings }) (by simp)
          exact .head first rest

theorem run_steps (w : Walk σ ε) (root : Text) (state : σ) : w.Steps root ⟨[], state⟩ (w.run root state).1 :=
  enter_steps _ (.inl rfl)

theorem enter_grows (w : Walk σ ε) (n : Nat) (dir : Text) (p : Progress σ) :
    p.listings <:+ (w.enter n dir p).1.listings :=
  (enter_steps n (.inl rfl)).grows

theorem perform_grows (w : Walk σ ε) (n : Nat) (p : Progress σ) (task : Task) :
    p.listings <:+ (w.perform (w.enter n) p task).1.listings :=
  perform_cases (R := fun p q => p.listings <:+ q.listings) List.suffix_rfl
    (fun path _ => w.enter_grows n path p) (fun _ _ => List.suffix_rfl)

theorem knows_iff {p : Progress σ} {canonical : Text} :
    p.knows canonical = true ↔ ∃ l ∈ p.listings, l.canonical = canonical := by
  simp [Progress.knows]

theorem knows_of_suffix {p q : Progress σ} (h : p.listings <:+ q.listings) {canonical : Text}
    (hk : p.knows canonical = true) : q.knows canonical = true := by
  obtain ⟨l, hl, hc⟩ := knows_iff.mp hk
  exact knows_iff.mpr ⟨l, h.subset hl, hc⟩

/-- The directories that a walk has entered are spelled differently. -/
structure Distinct (fs : FileSystem) (p : Progress σ) : Prop where
  spelled : ∀ l ∈ p.listings, fs.canonical l.path = .ok l.canonical
  once : (p.listings.map Listing.canonical).Nodup

theorem Step.distinct {w : Walk σ ε} {root : Text} {p q : Progress σ} (h : Distinct w.fs p) (step : w.Step root p q) :
    Distinct w.fs q := by
  cases step with
  | list _ spelled fresh =>
    refine ⟨?_, ?_⟩
    · intro l hl
      rcases List.mem_cons.mp hl with rfl | hl
      · exact spelled
      · exact h.spelled l hl
    · rw [List.map_cons, List.nodup_cons]
      refine ⟨fun hm => ?_, h.once⟩
      obtain ⟨l, hl, hc⟩ := List.mem_map.mp hm
      rw [knows_iff.mpr ⟨l, hl, hc⟩] at fresh
      cases fresh
  | visit => exact ⟨h.spelled, h.once⟩

theorem run_distinct (w : Walk σ ε) (root : Text) (state : σ) : Distinct w.fs (w.run root state).1 :=
  (w.run_steps root state).invariant (Distinct w.fs) ⟨by simp, by simp⟩ fun _ _ => Step.distinct

theorem Step.absolute {w : Walk σ ε} {root : Text} (ha : Path.isAbsolute root = true) {p q : Progress σ}
    (h : ∀ l ∈ p.listings, Path.isAbsolute l.path = true) (step : w.Step root p q) :
    ∀ l ∈ q.listings, Path.isAbsolute l.path = true := by
  cases step with
  | list scope =>
    intro l hl
    rcases List.mem_cons.mp hl with rfl | hl
    · rcases scope with rfl | ⟨above, hm, found, read, e, he, ht⟩
      · exact ha
      · obtain ⟨place, _, _, rfl⟩ := FileSystem.readDirectory_eq_ok_iff.mp read
        obtain ⟨_, _, hd⟩ := SourceFilter.task_eq_enter_iff.mp ht
        rw [hd, Path.isAbsolute_join _ (FileSystem.isName_of_mem_entries he)]
        exact h above hm
    · exact h l hl
  | visit => exact h

theorem run_absolute (w : Walk σ ε) {root : Text} (ha : Path.isAbsolute root = true) (state : σ) :
    ∀ l ∈ (w.run root state).1.listings, Path.isAbsolute l.path = true :=
  (w.run_steps root state).invariant (fun p => ∀ l ∈ p.listings, Path.isAbsolute l.path = true)
    (by simp) fun _ _ => Step.absolute ha

/-- Entered directories that lead to the same place are the same entry of the record. -/
theorem Distinct.eq_of_locate {fs : FileSystem} {p : Progress σ} (h : Distinct fs p)
    (ha : ∀ l ∈ p.listings, Path.isAbsolute l.path = true) {l l' : Listing} (hl : l ∈ p.listings)
    (hl' : l' ∈ p.listings) {place : Location} (he : fs.locate l.path = .ok place)
    (he' : fs.locate l'.path = .ok place) : l = l' := by
  have hc : l.canonical = l'.canonical := by
    rw [FileSystem.canonical_eq_spelling (ha l hl) (h.spelled l hl) he,
      FileSystem.canonical_eq_spelling (ha l' hl') (h.spelled l' hl') he']
  exact List.inj_on_of_nodup_map h.once hl hl' hc

theorem Distinct.nodup_listed {fs : FileSystem} {p : Progress σ} (h : Distinct fs p)
    (ha : ∀ l ∈ p.listings, Path.isAbsolute l.path = true) : (p.listed fs).Nodup := by
  have hn : p.listings.Nodup := List.Nodup.of_map _ h.once
  unfold Progress.listed List.Nodup
  rw [List.pairwise_filterMap]
  apply hn.imp_of_mem
  intro l l' hl hl' hne place hp place' hp' he
  subst he
  exact hne (h.eq_of_locate ha hl hl' (FileSystem.directory?_eq_some_iff.mp hp).1
    (FileSystem.directory?_eq_some_iff.mp hp').1)

end Walk

end SignalAudit
