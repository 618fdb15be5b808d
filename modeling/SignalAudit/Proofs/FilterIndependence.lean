import SignalAudit.Proofs.FailingVisit

/-!
The file filter does not steer a walk. Which names are sources decides what is visited, and whether a link that leads
nowhere is an error, but not where the walk goes. So a walk that would take every file has listed what any other lists,
and what the other visits are those of the files that it takes for sources, in the same order.
-/

namespace SignalAudit

/-- What comes after the last slash of a path. -/
def Path.lastPart (path : Text) : Text := (parts path).getLastD []

theorem Path.lastPart_join (dir : Text) {name : Text} (h : IsName name) : lastPart (join dir name) = name := by
  rw [lastPart, parts_join dir h, ← List.append_assoc, List.getLastD_eq_getLast?, List.getLast?_concat,
    Option.getD_some]

namespace SourceFilter

/-- A name ends in one of the extensions and in nothing that is excluded. -/
def Accepts (f : SourceFilter) (name : Text) : Prop :=
  (∃ extension ∈ f.extensions, extension <:+ name) ∧ ∀ ending ∈ f.excluded, ¬ ending <:+ name

instance (f : SourceFilter) (name : Text) : Decidable (f.Accepts name) := inferInstanceAs (Decidable (_ ∧ _))

theorem isSource_iff {f : SourceFilter} {name : Text} : f.isSource name = true ↔ f.Accepts name := by
  simp [isSource, Accepts, and_comm]

/-- The filter that ignores the same names and takes every other name for that of a source. -/
def unrestricted (f : SourceFilter) : SourceFilter := ⟨f.ignored, [[]], []⟩

theorem isSource_unrestricted (f : SourceFilter) (name : Text) : f.unrestricted.isSource name = true :=
  isSource_iff.mpr ⟨⟨[], List.mem_singleton.mpr rfl, List.nil_suffix⟩, nofun⟩

/-- What is left of a task at an entry of this name, if only sources count. -/
def narrow (f : SourceFilter) (name : Text) : Task → Task
  | .pass => .pass
  | .enter path => .enter path
  | .visit path => if f.isSource name then .visit path else .pass
  | .fail path cause => if f.isSource name then .fail path cause else .pass

theorem task_eq_narrow (f : SourceFilter) (fs : FileSystem) (dir : Text) (e : Text × Object) :
    f.task fs dir e = f.narrow e.1 (f.unrestricted.task fs dir e) := by
  have hskips : f.unrestricted.skips e.1 = f.skips e.1 := rfl
  unfold task
  rw [hskips, isSource_unrestricted]
  cases f.skips e.1 with
  | true => rfl
  | false =>
    cases fs.entryObject dir e with
    | error cause => rfl
    | ok object => cases object <;> rfl

end SourceFilter

namespace Walk

variable {σ τ ε : Type}

/-- The same walk, with every name that is not ignored taken for that of a source. -/
def unfiltered (w : Walk σ ε) : Walk σ ε := { w with filter := w.filter.unrestricted }

/-- The walk that takes every name for that of a source, but leaves the others alone when it comes to visit them. -/
def widened (w : Walk σ ε) : Walk σ ε where
  fs := w.fs
  filter := w.filter.unrestricted
  visit path s := if w.filter.isSource (Path.lastPart path) then w.visit path s else (s, none)

section Widened

variable {w : Walk σ ε} {n : Nat}

theorem perform_of_widened {dir : Text} {e : Text × Object} (hname : Path.IsName e.1) {p q : Progress σ}
    (henter : ∀ path p q, w.widened.enter n path p = (q, none) → w.enter n path p = (q, none))
    (h : w.widened.perform (w.widened.enter n) p (w.filter.unrestricted.task w.fs dir e) = (q, none)) :
    w.perform (w.enter n) p (w.filter.task w.fs dir e) = (q, none) := by
  rw [SourceFilter.task_eq_narrow]
  cases ht : w.filter.unrestricted.task w.fs dir e with
  | pass =>
    rw [ht] at h
    exact h
  | fail path cause =>
    rw [ht] at h
    cases h
  | enter path =>
    rw [ht] at h
    exact henter path p q h
  | visit path =>
    rw [ht] at h
    obtain ⟨_, _, _, rfl⟩ := SourceFilter.task_eq_visit_iff.mp ht
    -- The visit looks at the last part of the path, and that is the name of the entry.
    have hvisit : w.widened.visit (Path.join dir e.1) p.state =
        if w.filter.isSource e.1 then w.visit (Path.join dir e.1) p.state else (p.state, none) := by
      change (if w.filter.isSource (Path.lastPart (Path.join dir e.1)) then _ else _) = _
      rw [Path.lastPart_join dir hname]
    simp only [perform, hvisit] at h
    unfold SourceFilter.narrow
    by_cases hsource : w.filter.isSource e.1 = true
    · simp only [hsource, ↓reduceIte] at h ⊢
      exact h
    · simp only [hsource] at h ⊢
      exact h

theorem entries_of_widened {dir : Text} {todo : List (Text × Object)} (hname : ∀ e ∈ todo, Path.IsName e.1)
    {p q : Progress σ}
    (henter : ∀ path p q, w.widened.enter n path p = (q, none) → w.enter n path p = (q, none))
    (h : w.widened.entries (w.widened.enter n) dir todo p = (q, none)) :
    w.entries (w.enter n) dir todo p = (q, none) := by
  induction todo generalizing p with
  | nil => exact h
  | cons e rest ih =>
    obtain ⟨hfirst, hrest⟩ := List.forall_mem_cons.mp hname
    rw [entries_cons] at h ⊢
    change andThen (w.widened.perform (w.widened.enter n) p (w.filter.unrestricted.task w.fs dir e)) _ = _ at h
    rcases hm : w.widened.perform (w.widened.enter n) p (w.filter.unrestricted.task w.fs dir e) with ⟨mid, _ | error⟩
    · rw [hm] at h
      rw [perform_of_widened hfirst henter hm]
      exact ih hrest h
    · rw [hm] at h
      cases h

theorem enter_of_widened (n : Nat) (dir : Text) (p q : Progress σ) (h : w.widened.enter n dir p = (q, none)) :
    w.enter n dir p = (q, none) := by
  induction n generalizing dir p q with
  | zero => cases h
  | succ n ih =>
    have hfs : w.widened.fs = w.fs := rfl
    unfold Walk.enter at h ⊢
    rw [hfs] at h
    cases hc : w.fs.canonical dir with
    | error cause =>
      rw [hc] at h
      cases h
    | ok canonical =>
      rw [hc] at h
      dsimp only at h ⊢
      split at h
      · next known =>
        rw [if_pos known]
        exact h
      · next fresh =>
        rw [if_neg fresh]
        cases hread : w.fs.readDirectory dir with
        | error cause =>
          rw [hread] at h
          cases h
        | ok found =>
          rw [hread] at h
          obtain ⟨place, _, _, rfl⟩ := FileSystem.readDirectory_eq_ok_iff.mp hread
          exact entries_of_widened (fun e he => FileSystem.isName_of_mem_entries he) ih h

/-- Where the widened walk comes to its end, the walk does the same. -/
theorem run_of_widened {root : Text} {state : σ} {q : Progress σ} (ok : w.widened.run root state = (q, none)) :
    w.run root state = (q, none) :=
  enter_of_widened _ root ⟨[], state⟩ q ok

end Widened

/-- A survey of all files, seen through the filter, is the widened survey of the sources. -/
theorem survey_maps_widened (w : Walk σ ε) :
    Maps (List.filter fun path => w.filter.isSource (Path.lastPart path))
      w.unfiltered.survey w.survey.widened := by
  refine ⟨rfl, rfl, ?_⟩
  intro path seen
  change (if w.filter.isSource (Path.lastPart path) then _ else _) = (List.filter _ (seen ++ [path]), none)
  rw [List.filter_append]
  by_cases hsource : w.filter.isSource (Path.lastPart path) = true
  · simp [survey, hsource]
  · simp [hsource]

/-- Suppose a walk that takes every file succeeds. Then so does the walk with any extensions and exclusions that ignores
the same names. It lists the same directories under the same paths, and it visits, in the same order, those of the files
whose names end in one of the extensions and in nothing excluded. -/
theorem run_filters_files (w : Walk σ ε) {v : Walk τ ε} (fs : v.fs = w.fs)
    (filter : v.filter = ⟨w.filter.ignored, [text ""], []⟩) (never : ∀ path s, (w.visit path s).2 = none)
    (never' : ∀ path s, (v.visit path s).2 = none) {root : Text} {start : τ} {q : Progress τ}
    (ok : v.run root start = (q, none)) (state : σ) :
    ∃ p, w.run root state = (p, none) ∧ p.listings = q.listings ∧
      w.calls root state = (v.calls root start).filter fun path => decide (w.filter.Accepts (Path.lastPart path)) := by
  have hsurvey : v.survey = w.unfiltered.survey := survey_congr (w := w.unfiltered) fs filter
  obtain ⟨hlistings, hends, hcalls⟩ := run_of_never_fails never' root start
  obtain ⟨hlistings', hends', hcalls'⟩ := run_of_never_fails never root state
  rw [ok, hsurvey] at hlistings hends
  have hmaps := (survey_maps_widened w).run root []
  have hwidened : w.survey.widened.run root [] =
      ((w.unfiltered.survey.run root []).1.map
        (List.filter fun path => w.filter.isSource (Path.lastPart path)), none) := by
    rw [List.filter_nil] at hmaps
    rw [hmaps]
    exact Prod.ext rfl hends.symm
  have hrun := run_of_widened hwidened
  rw [hrun] at hlistings' hends'
  refine ⟨(w.run root state).1, Prod.ext rfl hends', hlistings'.trans hlistings.symm, ?_⟩
  rw [hcalls, hcalls', itinerary, itinerary, hsurvey, hrun]
  change List.filter _ _ = List.filter _ _
  congr 1
  funext path
  rw [Bool.eq_iff_iff, SourceFilter.isSource_iff, decide_eq_true_iff]

/-- Files of all sorts, some of them in a directory behind a link that leads back. -/
def motley : FileSystem where
  objects := [
    ([text "r"], .directory),
    ([text "a.cpp", text "r"], .file .empty),
    ([text "b.gen.h", text "r"], .file .empty),
    ([text "lib", text "r"], .link (text "../e")),
    ([text "misc", text "r"], .link (text "nowhere")),
    ([text "notes", text "r"], .file .empty),
    ([text "e"], .directory),
    ([text "c.h", text "e"], .link (text "../r/notes")),
    ([text "up", text "e"], .link (text "/r"))]

def sorting (filter : SourceFilter) : Walk (List Text) Unit :=
  ⟨motley, filter, fun path seen => (seen ++ [path], none)⟩

theorem sorting_filters_files :
    (sorting ⟨SourceFilter.standard.ignored, [text ""], []⟩).calls (text "/r") [] =
      [text "/r/a.cpp", text "/r/b.gen.h", text "/r/lib/c.h", text "/r/notes"] ∧
    ((sorting .standard).run (text "/r") []).2 = none ∧
    (sorting .standard).calls (text "/r") [] = [text "/r/a.cpp", text "/r/lib/c.h"] := by
  have hcalls : (sorting ⟨SourceFilter.standard.ignored, [text ""], []⟩).calls (text "/r") [] =
      [text "/r/a.cpp", text "/r/b.gen.h", text "/r/lib/c.h", text "/r/notes"] := by decide +kernel
  have hends : ((sorting ⟨SourceFilter.standard.ignored, [text ""], []⟩).run (text "/r") []).2 = none := by
    decide +kernel
  obtain ⟨p, hrun, _, hfiltered⟩ := run_filters_files (sorting .standard)
    (v := sorting ⟨SourceFilter.standard.ignored, [text ""], []⟩) rfl rfl (fun _ _ => rfl) (fun _ _ => rfl)
    (Prod.ext rfl hends) []
  rw [hcalls] at hfiltered
  refine ⟨hcalls, congrArg Prod.snd hrun, hfiltered.trans ?_⟩
  decide +kernel

end Walk

end SignalAudit
