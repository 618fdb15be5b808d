import SignalAudit.Proofs.WalkSteps

/-!
The itinerary of a walk: the files it comes by when no visit fails. What a walk does at its files has no influence on
where it goes, except that a failing visit ends it. So any walk is its visits, made one after the other along the
itinerary, up to the first that fails.
-/

namespace SignalAudit

/-- Progress with its state seen through a function. -/
def Progress.map {σ τ : Type} (f : σ → τ) (p : Progress σ) : Progress τ := ⟨p.listings, f p.state⟩

namespace Walk

variable {σ τ ε : Type}

/-- One walk seen through a function on its states is another: same tree, same filter, and visits that correspond. -/
structure Maps (f : σ → τ) (w : Walk σ ε) (v : Walk τ ε) : Prop where
  fs : v.fs = w.fs
  filter : v.filter = w.filter
  visit : ∀ path s, v.visit path (f s) = (f (w.visit path s).1, (w.visit path s).2)

theorem Maps.entries {f : σ → τ} {w : Walk σ ε} {v : Walk τ ε} (h : Maps f w v) {n : Nat}
    (henter : ∀ path p, v.enter n path (p.map f) = ((w.enter n path p).1.map f, (w.enter n path p).2))
    (dir : Text) (todo : List (Text × Object)) (p : Progress σ) :
    v.entries (v.enter n) dir todo (p.map f) =
      ((w.entries (w.enter n) dir todo p).1.map f, (w.entries (w.enter n) dir todo p).2) := by
  induction todo generalizing p with
  | nil => rfl
  | cons e rest ih =>
    have first : v.perform (v.enter n) (p.map f) (v.filter.task v.fs dir e) =
        ((w.perform (w.enter n) p (w.filter.task w.fs dir e)).1.map f,
          (w.perform (w.enter n) p (w.filter.task w.fs dir e)).2) := by
      rw [h.fs, h.filter]
      cases w.filter.task w.fs dir e with
      | pass | fail => rfl
      | enter path => exact henter path p
      | visit path => simp [perform, Progress.map, h.visit]
    rw [entries_cons, entries_cons, first]
    rcases w.perform (w.enter n) p (w.filter.task w.fs dir e) with ⟨q, _ | error⟩
    · exact ih q
    · rfl

theorem Maps.enter {f : σ → τ} {w : Walk σ ε} {v : Walk τ ε} (h : Maps f w v) (n : Nat) (dir : Text)
    (p : Progress σ) : v.enter n dir (p.map f) = ((w.enter n dir p).1.map f, (w.enter n dir p).2) := by
  induction n generalizing dir p with
  | zero => rfl
  | succ n ih =>
    have hk : ∀ canonical, (p.map f).knows canonical = p.knows canonical := fun _ => rfl
    unfold Walk.enter
    rw [h.fs]
    cases w.fs.canonical dir with
    | error => rfl
    | ok canonical =>
      simp only [hk]
      split
      · rfl
      · cases w.fs.readDirectory dir with
        | error => rfl
        | ok found => exact h.entries ih dir found { p with listings := ⟨canonical, dir⟩ :: p.listings }

theorem Maps.run {f : σ → τ} {w : Walk σ ε} {v : Walk τ ε} (h : Maps f w v) (root : Text) (state : σ) :
    v.run root (f state) = ((w.run root state).1.map f, (w.run root state).2) := by
  unfold Walk.run
  rw [h.fs]
  exact h.enter _ root ⟨[], state⟩

/-- The same walk, keeping a note of every path it calls its visit with. -/
def noting (w : Walk σ ε) : Walk (σ × List Text) ε :=
  ⟨w.fs, w.filter, fun path s => (((w.visit path s.1).1, s.2 ++ [path]), (w.visit path s.1).2)⟩

/-- The paths that a walk calls its visit with, in order. -/
def calls (w : Walk σ ε) (root : Text) (state : σ) : List Text := (w.noting.run root (state, [])).1.state.2

/-- Keeping a note changes nothing else. -/
theorem run_noting (w : Walk σ ε) (root : Text) (state : σ) (seen : List Text) :
    w.run root state = ((w.noting.run root (state, seen)).1.map Prod.fst, (w.noting.run root (state, seen)).2) :=
  Maps.run (f := Prod.fst) (w := w.noting) (v := w) ⟨rfl, rfl, fun _ _ => rfl⟩ root (state, seen)

/-- A walk that only notes the files it comes by. -/
def survey (w : Walk σ ε) : Walk (List Text) ε := ⟨w.fs, w.filter, fun path seen => (seen ++ [path], none)⟩

/-- The files that a walk comes by when no visit fails. -/
def itinerary (w : Walk σ ε) (root : Text) : List Text := (w.survey.run root []).1.state

/-- A walk whose visits never fail makes them along its whole itinerary. -/
theorem run_of_never_fails {w : Walk σ ε} (never : ∀ path s, (w.visit path s).2 = none) (root : Text) (state : σ) :
    (w.run root state).1.listings = (w.survey.run root []).1.listings ∧
      (w.run root state).2 = (w.survey.run root []).2 ∧ w.calls root state = w.itinerary root := by
  have hs : Maps Prod.snd w.noting w.survey :=
    ⟨rfl, rfl, fun path s => by simp [survey, noting, never]⟩
  have hsurvey := hs.run root (state, [])
  have hrun := w.run_noting root state []
  refine ⟨?_, ?_, ?_⟩
  · rw [hrun, hsurvey]
    rfl
  · rw [hrun, hsurvey]
  · unfold itinerary calls
    rw [hsurvey]
    rfl

/-- Visits made one after the other, up to the first that fails. -/
def visitAll (w : Walk σ ε) : List Text → σ → σ × Option (WalkError ε)
  | [], s => (s, none)
  | path :: rest, s =>
    match w.visit path s with
    | (s, none) => w.visitAll rest s
    | (s, some cause) => (s, some (.visit path cause))

theorem visitAll_append (w : Walk σ ε) (xs ys : List Text) (s : σ) :
    w.visitAll (xs ++ ys) s = match w.visitAll xs s with
      | (s, none) => w.visitAll ys s
      | failed => failed := by
  induction xs generalizing s with
  | nil => rfl
  | cons path rest ih =>
    simp only [List.cons_append, visitAll]
    rcases w.visit path s with ⟨s', _ | cause⟩
    · exact ih s'
    · rfl

/-- A walk from a state goes along with a survey that has seen something: what the survey comes by from then on are the
walk's visits, and as long as none fails the two do the same. -/
def GoesAlong (w : Walk σ ε) (listings : List Listing) (s : σ) (seen : List Text) (surveyed : Outcome (List Text) ε)
    (out : Outcome σ ε) : Prop :=
  listings <:+ surveyed.1.listings ∧ ∃ new, surveyed.1.state = seen ++ new ∧
    match w.visitAll new s with
    | (s', none) => out = (⟨surveyed.1.listings, s'⟩, surveyed.2)
    | (s', some e) => ∃ listings', listings' <:+ surveyed.1.listings ∧ out = (⟨listings', s'⟩, some e)

theorem GoesAlong.refl (w : Walk σ ε) (listings : List Listing) (s : σ) (seen : List Text)
    (e : Option (WalkError ε)) :
    GoesAlong w listings s seen (⟨listings, seen⟩, e) (⟨listings, s⟩, e) :=
  ⟨List.suffix_rfl, [], by simp, rfl⟩

theorem GoesAlong.weaken {w : Walk σ ε} {l : Listing} {listings : List Listing} {s : σ} {seen : List Text}
    {surveyed : Outcome (List Text) ε} {out : Outcome σ ε} (h : GoesAlong w (l :: listings) s seen surveyed out) :
    GoesAlong w listings s seen surveyed out :=
  ⟨(List.suffix_cons ..).trans h.1, h.2⟩

/-- A walk that goes along with a survey for a while and then for the rest. -/
theorem GoesAlong.andThen {w : Walk σ ε} {listings : List Listing} {s : σ} {seen : List Text}
    {first : Outcome (List Text) ε} {out : Outcome σ ε} (h : GoesAlong w listings s seen first out)
    {more : Progress (List Text) → Outcome (List Text) ε} {goOn : Progress σ → Outcome σ ε}
    (hmore : ∀ listings s seen, GoesAlong w listings s seen (more ⟨listings, seen⟩) (goOn ⟨listings, s⟩)) :
    GoesAlong w listings s seen (Walk.andThen first more) (Walk.andThen out goOn) := by
  obtain ⟨⟨mid, seen'⟩, error⟩ := first
  obtain ⟨grows, new, hnew, hout⟩ := h
  dsimp only at hnew grows hout
  subst hnew
  rcases hv : w.visitAll new s with ⟨s', _ | e⟩
  · rw [hv] at hout
    dsimp only at hout
    subst hout
    cases error with
    | some error => exact ⟨grows, new, rfl, by simp [hv, Walk.andThen]⟩
    | none =>
      obtain ⟨grows', new', hnew', hout'⟩ := hmore mid s' (seen ++ new)
      refine ⟨grows.trans grows', new ++ new', hnew'.trans (List.append_assoc ..), ?_⟩
      rw [visitAll_append, hv]
      exact hout'
  · rw [hv] at hout
    obtain ⟨listings', hsuf, hout⟩ := hout
    subst hout
    cases error with
    | some error => exact ⟨grows, new, rfl, by simpa [hv, Walk.andThen] using hsuf⟩
    | none =>
      -- The walk has ended, and the survey goes on without it.
      obtain ⟨grows', new', hnew', _⟩ := hmore mid s' (seen ++ new)
      refine ⟨grows.trans grows', new ++ new', hnew'.trans (List.append_assoc ..), ?_⟩
      rw [visitAll_append, hv]
      exact ⟨listings', hsuf.trans grows', rfl⟩

theorem perform_goesAlong (w : Walk σ ε) {n : Nat}
    (henter : ∀ path listings s seen, GoesAlong w listings s seen (w.survey.enter n path ⟨listings, seen⟩)
      (w.enter n path ⟨listings, s⟩)) (task : Task) (listings : List Listing) (s : σ) (seen : List Text) :
    GoesAlong w listings s seen (w.survey.perform (w.survey.enter n) ⟨listings, seen⟩ task)
      (w.perform (w.enter n) ⟨listings, s⟩ task) := by
  cases task with
  | pass => exact .refl w listings s seen none
  | fail path cause => exact .refl w listings s seen _
  | enter path => exact henter path listings s seen
  | visit path =>
    refine ⟨List.suffix_rfl, [path], rfl, ?_⟩
    rcases hv : w.visit path s with ⟨s', _ | cause⟩
    · simp [visitAll, perform, hv, survey]
    · simp [visitAll, perform, hv, survey]

theorem entries_goesAlong (w : Walk σ ε) {n : Nat}
    (henter : ∀ path listings s seen, GoesAlong w listings s seen (w.survey.enter n path ⟨listings, seen⟩)
      (w.enter n path ⟨listings, s⟩)) (dir : Text) (todo : List (Text × Object)) (listings : List Listing) (s : σ)
    (seen : List Text) :
    GoesAlong w listings s seen (w.survey.entries (w.survey.enter n) dir todo ⟨listings, seen⟩)
      (w.entries (w.enter n) dir todo ⟨listings, s⟩) := by
  induction todo generalizing listings s seen with
  | nil => exact .refl w listings s seen none
  | cons e rest ih =>
    rw [entries_cons, entries_cons]
    exact (w.perform_goesAlong henter (w.filter.task w.fs dir e) listings s seen).andThen ih

theorem enter_goesAlong (w : Walk σ ε) (n : Nat) (dir : Text) (listings : List Listing) (s : σ) (seen : List Text) :
    GoesAlong w listings s seen (w.survey.enter n dir ⟨listings, seen⟩) (w.enter n dir ⟨listings, s⟩) := by
  induction n generalizing dir listings s seen with
  | zero => exact .refl w listings s seen _
  | succ n ih =>
    have hk : ∀ canonical, (⟨listings, seen⟩ : Progress (List Text)).knows canonical =
        (⟨listings, s⟩ : Progress σ).knows canonical := fun _ => rfl
    have hfs : w.survey.fs = w.fs := rfl
    unfold Walk.enter
    rw [hfs]
    cases w.fs.canonical dir with
    | error => exact .refl w listings s seen _
    | ok canonical =>
      simp only [hk]
      split
      · exact .refl w listings s seen none
      · apply GoesAlong.weaken (l := ⟨canonical, dir⟩)
        cases w.fs.readDirectory dir with
        | error => exact .refl w _ s seen _
        | ok found => exact w.entries_goesAlong ih dir found _ s seen

/-- A walk is its visits along its itinerary: if they all succeed it ends as the survey does, and otherwise with the
first of them that fails. -/
theorem run_eq_visitAll (w : Walk σ ε) (root : Text) (state : σ) :
    match w.visitAll (w.itinerary root) state with
    | (s, none) => w.run root state = (⟨(w.survey.run root []).1.listings, s⟩, (w.survey.run root []).2)
    | (s, some e) => ∃ listings, listings <:+ (w.survey.run root []).1.listings ∧
        w.run root state = (⟨listings, s⟩, some e) := by
  obtain ⟨_, new, hnew, h⟩ := w.enter_goesAlong (depthBound w.fs) root [] state []
  have hi : w.itinerary root = new := hnew
  rw [hi]
  exact h

/-- The visits that are made of a list: all up to the first that fails, and that one. -/
def called (w : Walk σ ε) : List Text → σ → List Text
  | [], _ => []
  | path :: rest, s =>
    match w.visit path s with
    | (s, none) => path :: w.called rest s
    | (_, some _) => [path]

theorem visitAll_noting (w : Walk σ ε) (paths : List Text) (s : σ) (seen : List Text) :
    w.noting.visitAll paths (s, seen) =
      (((w.visitAll paths s).1, seen ++ w.called paths s), (w.visitAll paths s).2) := by
  induction paths generalizing s seen with
  | nil => simp [visitAll, called]
  | cons path rest ih =>
    have hnote : w.noting.visit path (s, seen) = (((w.visit path s).1, seen ++ [path]), (w.visit path s).2) := rfl
    rw [visitAll, visitAll, called, hnote]
    rcases w.visit path s with ⟨s', _ | cause⟩
    · simpa using ih s' (seen ++ [path])
    · rfl

/-- A walk calls its visit along its itinerary, up to the first that fails. -/
theorem calls_eq_called (w : Walk σ ε) (root : Text) (state : σ) :
    w.calls root state = w.called (w.itinerary root) state := by
  have hrun := w.noting.run_eq_visitAll root (state, [])
  have hi : w.noting.itinerary root = w.itinerary root := rfl
  rw [hi, visitAll_noting] at hrun
  unfold calls
  cases hv : (w.visitAll (w.itinerary root) state).2 with
  | none =>
    rw [hv] at hrun
    dsimp only at hrun
    rw [hrun]
    rfl
  | some e =>
    rw [hv] at hrun
    obtain ⟨listings, _, hrun⟩ := hrun
    rw [hrun]
    rfl

theorem called_of_visitAll {w : Walk σ ε} {paths : List Text} {s : σ} (h : (w.visitAll paths s).2 = none) :
    w.called paths s = paths := by
  induction paths generalizing s with
  | nil => rfl
  | cons path rest ih =>
    rw [visitAll] at h
    rw [called]
    rcases hv : w.visit path s with ⟨s', _ | cause⟩
    · rw [hv] at h
      exact congrArg (path :: ·) (ih h)
    · rw [hv] at h
      cases h

/-- A walk that succeeds has listed what its survey lists, and made all the visits of its itinerary. -/
theorem survey_of_run {w : Walk σ ε} {root : Text} {state : σ} {p : Progress σ} (ok : w.run root state = (p, none)) :
    ∃ q, w.survey.run root [] = (q, none) ∧ q.listings = p.listings ∧ w.calls root state = w.itinerary root := by
  have hrun := w.run_eq_visitAll root state
  have hcalls := w.calls_eq_called root state
  rcases hv : w.visitAll (w.itinerary root) state with ⟨s, _ | e⟩
  · rw [hv] at hrun
    obtain ⟨hp, herror⟩ := Prod.mk.inj (hrun.symm.trans ok)
    refine ⟨(w.survey.run root []).1, Prod.ext rfl herror, congrArg Progress.listings hp, ?_⟩
    rw [hcalls]
    exact called_of_visitAll (congrArg Prod.snd hv)
  · rw [hv] at hrun
    obtain ⟨listings, _, hout⟩ := hrun
    cases hout.symm.trans ok

section Failed

variable {w : Walk σ ε} {before : List Text} {path : Text} {s mid s' : σ} {cause : ε}

/-- A visit that fails after others is the last that is made. -/
theorem called_of_failed (succeeded : w.visitAll before s = (mid, none)) (failed : w.visit path mid = (s', some cause))
    (after : List Text) : w.called (before ++ path :: after) s = before ++ [path] := by
  induction before generalizing s with
  | nil =>
    cases succeeded
    rw [List.nil_append, called, failed]
    rfl
  | cons first before ih =>
    rw [visitAll] at succeeded
    rw [List.cons_append, called]
    rcases hv : w.visit first s with ⟨next, _ | why⟩
    · rw [hv] at succeeded
      exact congrArg (first :: ·) (ih succeeded)
    · rw [hv] at succeeded
      cases succeeded

/-- And it ends the walk, with what it has made of the state and with its failure. -/
theorem run_of_failed {root : Text} {after : List Text} (route : w.itinerary root = before ++ path :: after)
    (succeeded : w.visitAll before s = (mid, none)) (failed : w.visit path mid = (s', some cause)) :
    (w.run root s).1.state = s' ∧ (w.run root s).2 = some (.visit path cause) := by
  have hall : w.visitAll (w.itinerary root) s = (s', some (.visit path cause)) := by
    rw [route, visitAll_append, succeeded]
    dsimp only
    rw [visitAll, failed]
  have hrun := w.run_eq_visitAll root s
  rw [hall] at hrun
  obtain ⟨listings, _, hrun⟩ := hrun
  rw [hrun]
  exact ⟨rfl, rfl⟩

end Failed

section Judged

variable {w : Walk σ ε} {Fine : Text → Prop}

/-- Where it is up to the path whether a visit fails, visits succeed on fine paths only. -/
theorem visitAll_eq_none_iff (h : ∀ path s, (w.visit path s).2 = none ↔ Fine path) (paths : List Text) (s : σ) :
    (w.visitAll paths s).2 = none ↔ ∀ path ∈ paths, Fine path := by
  induction paths generalizing s with
  | nil => simp [visitAll]
  | cons path rest ih =>
    have hpath := h path s
    rw [visitAll, List.forall_mem_cons]
    rcases hv : w.visit path s with ⟨s', _ | cause⟩
    · rw [hv] at hpath
      simp [ih, hpath.mp rfl]
    · rw [hv] at hpath
      have hbad : ¬ Fine path := fun hf => by cases hpath.mpr hf
      simp [hbad]

theorem forall_called_iff (h : ∀ path s, (w.visit path s).2 = none ↔ Fine path) (paths : List Text) (s : σ) :
    (∀ path ∈ w.called paths s, Fine path) ↔ ∀ path ∈ paths, Fine path := by
  induction paths generalizing s with
  | nil => simp [called]
  | cons path rest ih =>
    have hpath := h path s
    rw [called, List.forall_mem_cons]
    rcases hv : w.visit path s with ⟨s', _ | cause⟩
    · simp [ih]
    · rw [hv] at hpath
      have hbad : ¬ Fine path := fun hf => by cases hpath.mpr hf
      simp [hbad]

theorem called_of_fine (h : ∀ path s, (w.visit path s).2 = none ↔ Fine path) {paths : List Text}
    (fine : ∀ path ∈ paths, Fine path) (s : σ) : w.called paths s = paths :=
  called_of_visitAll ((visitAll_eq_none_iff h paths s).mpr fine)

/-- On an itinerary of fine paths a walk goes as far as its survey. -/
theorem run_of_fine (h : ∀ path s, (w.visit path s).2 = none ↔ Fine path) {root : Text}
    (fine : ∀ path ∈ w.itinerary root, Fine path) (state : σ) :
    w.run root state =
      (⟨(w.survey.run root []).1.listings, (w.visitAll (w.itinerary root) state).1⟩, (w.survey.run root []).2) := by
  have hrun := w.run_eq_visitAll root state
  have hnone := (visitAll_eq_none_iff h (w.itinerary root) state).mpr fine
  generalize w.visitAll (w.itinerary root) state = visited at hrun hnone ⊢
  obtain ⟨s, _ | e⟩ := visited
  · exact hrun
  · cases hnone

theorem run_eq_none_iff (h : ∀ path s, (w.visit path s).2 = none ↔ Fine path) (root : Text) (state : σ) :
    (w.run root state).2 = none ↔ (w.survey.run root []).2 = none ∧ ∀ path ∈ w.itinerary root, Fine path := by
  constructor
  · intro hnone
    have fine : ∀ path ∈ w.itinerary root, Fine path := by
      rw [← visitAll_eq_none_iff h (w.itinerary root) state]
      have hrun := w.run_eq_visitAll root state
      generalize w.visitAll (w.itinerary root) state = visited at hrun ⊢
      obtain ⟨s, _ | e⟩ := visited
      · rfl
      · obtain ⟨listings, _, hrun⟩ := hrun
        rw [hrun] at hnone
        cases hnone
    rw [run_of_fine h fine] at hnone
    exact ⟨hnone, fine⟩
  · rintro ⟨hnone, fine⟩
    rw [run_of_fine h fine]
    exact hnone

section Cut

variable {before after : List Text} {path : Text}

theorem called_of_cut (h : ∀ path s, (w.visit path s).2 = none ↔ Fine path) (fine : ∀ path ∈ before, Fine path)
    (bad : ¬ Fine path) (s : σ) : w.called (before ++ path :: after) s = before ++ [path] := by
  have hbefore : w.visitAll before s = ((w.visitAll before s).1, none) :=
    Prod.ext rfl ((visitAll_eq_none_iff h before s).mpr fine)
  have hpath := h path (w.visitAll before s).1
  rcases hv : w.visit path (w.visitAll before s).1 with ⟨s', _ | cause⟩
  · rw [hv] at hpath
    exact absurd (hpath.mp rfl) bad
  · exact called_of_failed hbefore hv after

/-- Where the first path that is not fine has fine ones before it, a walk ends by the visit of that path. -/
theorem run_of_cut (h : ∀ path s, (w.visit path s).2 = none ↔ Fine path) {root : Text}
    (route : w.itinerary root = before ++ path :: after) (fine : ∀ path ∈ before, Fine path) {state s : σ} {cause : ε}
    (failed : w.visit path (w.visitAll before state).1 = (s, some cause)) :
    (w.run root state).1.state = s ∧ (w.run root state).2 = some (.visit path cause) :=
  run_of_failed route (Prod.ext rfl ((visitAll_eq_none_iff h before state).mpr fine)) failed

end Cut

end Judged

end Walk

end SignalAudit
