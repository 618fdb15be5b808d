import SignalAudit.Proofs.Itinerary

/-!
The order of an itinerary. Its files are below the root, and they come in ascending order when paths are compared
part by part; so no file is come by twice.
-/

namespace SignalAudit

/-- Paths in the order of their parts, the outermost first. -/
def Path.Before (a b : Text) : Prop := (Path.inner a).reverse < (Path.inner b).reverse

theorem Path.before_irrefl (a : Text) : ¬ Path.Before a a := List.lt_irrefl _

/-- Below one directory the entries' names decide. -/
theorem Path.before_of_names {a b x y : Text} {xs ys outer : List Text} (ha : Path.inner a = xs ++ x :: outer)
    (hb : Path.inner b = ys ++ y :: outer) (h : x < y) : Path.Before a b := by
  unfold Path.Before
  rw [ha, hb]
  simp only [List.reverse_append, List.reverse_cons, List.append_assoc, List.singleton_append]
  exact List.append_left_lt (List.cons_lt_cons_iff.mpr (.inl h))

theorem FileSystem.entries_ascending (fs : FileSystem) (dir : Location) :
    (fs.entries dir).Pairwise fun a b => a.1 < b.1 := by
  unfold FileSystem.entries
  rw [List.pairwise_filterMap]
  apply (fs.names dir).ascending.imp
  intro x y hxy a ha b hb
  obtain ⟨_, _, rfl⟩ := Option.map_eq_some_iff.mp ha
  obtain ⟨_, _, rfl⟩ := Option.map_eq_some_iff.mp hb
  exact hxy

namespace Walk

variable {σ ε : Type}

/-- A survey comes by new files in order, each below one of the tops. -/
def ComesBy (tops : List (List Text)) (p : Progress (List Text)) (out : Outcome (List Text) ε) : Prop :=
  ∃ new, out.1.state = p.state ++ new ∧ new.Pairwise Path.Before ∧
    ∀ path ∈ new, ∃ stack ∈ tops, ∃ names, Path.inner path = names ++ stack

theorem ComesBy.refl (tops : List (List Text)) (p : Progress (List Text)) (listings : List Listing)
    (e : Option (WalkError ε)) : ComesBy tops p (⟨listings, p.state⟩, e) :=
  ⟨[], by simp, .nil, by simp⟩

theorem ComesBy.mono {tops more : List (List Text)} {p : Progress (List Text)} {out : Outcome (List Text) ε}
    (h : ComesBy tops p out) (hsub : tops ⊆ more) : ComesBy more p out := by
  obtain ⟨new, hnew, hord, hbelow⟩ := h
  refine ⟨new, hnew, hord, ?_⟩
  intro path hp
  obtain ⟨stack, hs, below⟩ := hbelow path hp
  exact ⟨stack, hsub hs, below⟩

theorem perform_comesBy (w : Walk σ ε) {n : Nat} (dir : Text) {e : Text × Object} (hname : Path.IsName e.1)
    (henter : ∀ path p, ComesBy [Path.inner path] p (w.survey.enter n path p)) (p : Progress (List Text)) :
    ComesBy [e.1 :: Path.inner dir] p (w.survey.perform (w.survey.enter n) p (w.filter.task w.fs dir e)) := by
  cases ht : w.filter.task w.fs dir e with
  | pass | fail => exact .refl _ p p.listings _
  | enter path =>
    obtain ⟨_, _, rfl⟩ := SourceFilter.task_eq_enter_iff.mp ht
    have h := henter (Path.join dir e.1) p
    rwa [Path.inner_join dir hname] at h
  | visit path =>
    obtain ⟨_, _, _, rfl⟩ := SourceFilter.task_eq_visit_iff.mp ht
    refine ⟨[Path.join dir e.1], rfl, by simp, ?_⟩
    intro path hp
    obtain rfl := List.mem_singleton.mp hp
    exact ⟨_, List.mem_singleton.mpr rfl, [], Path.inner_join dir hname⟩

theorem entries_comesBy (w : Walk σ ε) {n : Nat} (dir : Text) {todo : List (Text × Object)}
    (hname : ∀ e ∈ todo, Path.IsName e.1) (hasc : todo.Pairwise fun a b => a.1 < b.1)
    (henter : ∀ path p, ComesBy [Path.inner path] p (w.survey.enter n path p)) (p : Progress (List Text)) :
    ComesBy (todo.map fun e => e.1 :: Path.inner dir) p (w.survey.entries (w.survey.enter n) dir todo p) := by
  induction todo generalizing p with
  | nil => exact .refl _ p p.listings none
  | cons e rest ih =>
    obtain ⟨habove, hasc'⟩ := List.pairwise_cons.mp hasc
    have first := w.perform_comesBy dir (hname e (by simp)) henter p
    rw [entries_cons]
    change ComesBy _ p (andThen (w.survey.perform (w.survey.enter n) p (w.filter.task w.fs dir e)) _)
    rcases hp : w.survey.perform (w.survey.enter n) p (w.filter.task w.fs dir e) with ⟨q, _ | error⟩
    · rw [hp] at first
      obtain ⟨new, hnew, hord, hbelow⟩ := first
      obtain ⟨new', hnew', hord', hbelow'⟩ := ih (fun x hx => hname x (by simp [hx])) hasc' q
      have hfirst : ∀ a ∈ new, ∀ b ∈ new', Path.Before a b := by
        intro a ha b hb
        obtain ⟨_, hs, xs, hx⟩ := hbelow a ha
        obtain rfl := List.mem_singleton.mp hs
        obtain ⟨_, hs', ys, hy⟩ := hbelow' b hb
        obtain ⟨later, hl, rfl⟩ := List.mem_map.mp hs'
        exact Path.before_of_names hx hy (habove later hl)
      refine ⟨new ++ new', ?_, List.pairwise_append.mpr ⟨hord, hord', hfirst⟩, ?_⟩
      · rw [← List.append_assoc, ← hnew]
        exact hnew'
      · intro path hpath
        rcases List.mem_append.mp hpath with h | h
        · obtain ⟨stack, hs, hx⟩ := hbelow path h
          exact ⟨stack, List.mem_cons.mpr (.inl (List.mem_singleton.mp hs)), hx⟩
        · obtain ⟨stack, hs, hx⟩ := hbelow' path h
          exact ⟨stack, List.mem_cons.mpr (.inr hs), hx⟩
    · rw [hp] at first
      exact first.mono (by simp)

theorem enter_comesBy (w : Walk σ ε) (n : Nat) (dir : Text) (p : Progress (List Text)) :
    ComesBy [Path.inner dir] p (w.survey.enter n dir p) := by
  induction n generalizing dir p with
  | zero => exact .refl _ p p.listings _
  | succ n ih =>
    unfold Walk.enter
    split
    · exact .refl _ p p.listings _
    · split
      · exact .refl _ p p.listings _
      · dsimp only
        split
        · exact .refl _ p _ _
        · next found read =>
          obtain ⟨place, _, _, rfl⟩ := FileSystem.readDirectory_eq_ok_iff.mp read
          obtain ⟨new, hnew, hord, hbelow⟩ := w.entries_comesBy dir
            (fun e he => FileSystem.isName_of_mem_entries he) (w.fs.entries_ascending place) ih _
          refine ⟨new, hnew, hord, ?_⟩
          intro path hpath
          obtain ⟨_, hs, names, hx⟩ := hbelow path hpath
          obtain ⟨e, _, rfl⟩ := List.mem_map.mp hs
          exact ⟨_, List.mem_singleton.mpr rfl, names ++ [e.1], by simpa using hx⟩

theorem itinerary_ascending (w : Walk σ ε) (root : Text) : (w.itinerary root).Pairwise Path.Before := by
  obtain ⟨new, hnew, hord, _⟩ := w.enter_comesBy (depthBound w.fs) root ⟨[], []⟩
  have hi : w.itinerary root = new := hnew
  rwa [hi]

theorem itinerary_nodup (w : Walk σ ε) (root : Text) : (w.itinerary root).Nodup := by
  apply (w.itinerary_ascending root).imp
  intro a b h he
  subst he
  exact Path.before_irrefl a h

end Walk

end SignalAudit
