import SignalAudit.Proofs.Itinerary

/-!
The course of a walk: what it would come by if nothing ended it, files and errors in one order. A walk goes along its
course up to the first error, so its itinerary is the files before that.
-/

namespace SignalAudit

/-- What a walk comes by. -/
inductive Sight (ε : Type) where
  | file (path : Text)
  | failure (error : WalkError ε)
  deriving DecidableEq

namespace Sight

variable {ε : Type}

/-- The files before the first failure. -/
def files : List (Sight ε) → List Text
  | [] => []
  | file path :: rest => path :: files rest
  | failure _ :: _ => []

def firstFailure : List (Sight ε) → Option (WalkError ε)
  | [] => none
  | file _ :: rest => firstFailure rest
  | failure error :: _ => some error

theorem firstFailure_append (xs ys : List (Sight ε)) :
    firstFailure (xs ++ ys) = (firstFailure xs).or (firstFailure ys) := by
  induction xs with
  | nil => rfl
  | cons sight rest ih =>
    cases sight with
    | file path => exact ih
    | failure error => rfl

theorem files_append_of_none {xs : List (Sight ε)} (h : firstFailure xs = none) (ys : List (Sight ε)) :
    files (xs ++ ys) = files xs ++ files ys := by
  induction xs with
  | nil => rfl
  | cons sight rest ih =>
    cases sight with
    | file path => exact congrArg (path :: ·) (ih h)
    | failure error => cases h

theorem files_append_of_some {xs : List (Sight ε)} {error : WalkError ε} (h : firstFailure xs = some error)
    (ys : List (Sight ε)) : files (xs ++ ys) = files xs := by
  induction xs with
  | nil => cases h
  | cons sight rest ih =>
    cases sight with
    | file path => exact congrArg (path :: ·) (ih h)
    | failure error => rfl

/-- Files come before any failure if nothing else does. -/
theorem isPrefix_files_iff {paths : List Text} {sights : List (Sight ε)} :
    paths <+: files sights ↔ paths.map file <+: sights := by
  induction sights generalizing paths with
  | nil => simp [files]
  | cons sight rest ih =>
    cases paths with
    | nil => simp
    | cons path paths =>
      cases sight with
      | file other => simp [files, List.cons_prefix_cons, ih]
      | failure error => simp [files, List.cons_prefix_cons]

end Sight

namespace Walk

variable {σ ε : Type}

/-- What a walk comes by at a task, and the directories it knows from then on. -/
def sight (enter : Text → List Listing → List Listing × List (Sight ε)) (known : List Listing) :
    Task → List Listing × List (Sight ε)
  | .pass => (known, [])
  | .fail path cause => (known, [.failure (.access path cause)])
  | .enter path => enter path known
  | .visit path => (known, [.file path])

/-- What a walk comes by at the entries of a directory. An error at one of them does not keep it from the next. -/
def sightsOf (w : Walk σ ε) (enter : Text → List Listing → List Listing × List (Sight ε)) (dir : Text) :
    List (Text × Object) → List Listing → List Listing × List (Sight ε)
  | [], known => (known, [])
  | e :: rest, known =>
    let first := sight enter known (w.filter.task w.fs dir e)
    let more := w.sightsOf enter dir rest first.1
    (more.1, first.2 ++ more.2)

def sights (w : Walk σ ε) : Nat → Text → List Listing → List Listing × List (Sight ε)
  | 0, dir, known => (known, [.failure (.tooDeep dir)])
  | depth + 1, dir, known =>
    match w.fs.canonical dir with
    | .error cause => (known, [.failure (.access dir cause)])
    | .ok canonical =>
      if known.any (·.canonical == canonical) then (known, [])
      else
        match w.fs.readDirectory dir with
        | .error cause => (⟨canonical, dir⟩ :: known, [.failure (.access dir cause)])
        | .ok found => w.sightsOf (w.sights depth) dir found (⟨canonical, dir⟩ :: known)

/-- All that a walk below a root would come by, in its order. -/
def course (w : Walk σ ε) (root : Text) : List (Sight ε) := (w.sights (depthBound w.fs) root []).2

/-- A survey that has seen some files keeps to a course up to its first failure. -/
structure KeepsTo (seen : List Text) (ahead : List Listing × List (Sight ε)) (out : Outcome (List Text) ε) :
    Prop where
  files : out.1.state = seen ++ Sight.files ahead.2
  ends : out.2 = Sight.firstFailure ahead.2
  known : out.2 = none → out.1.listings = ahead.1

theorem KeepsTo.refl (seen : List Text) (known : List Listing) :
    KeepsTo (ε := ε) seen (known, []) (⟨known, seen⟩, none) :=
  ⟨(List.append_nil seen).symm, rfl, fun _ => rfl⟩

theorem KeepsTo.failed (seen : List Text) (known : List Listing) (error : WalkError ε) :
    KeepsTo seen (known, [.failure error]) (⟨known, seen⟩, some error) :=
  ⟨(List.append_nil seen).symm, rfl, nofun⟩

/-- A survey that keeps to a course for a while and then for the rest. -/
theorem KeepsTo.andThen {seen : List Text} {ahead : List Listing × List (Sight ε)} {out : Outcome (List Text) ε}
    (h : KeepsTo seen ahead out) {more : List Listing → List Listing × List (Sight ε)}
    {goOn : Progress (List Text) → Outcome (List Text) ε}
    (hmore : ∀ known seen, KeepsTo seen (more known) (goOn ⟨known, seen⟩)) :
    KeepsTo seen ((more ahead.1).1, ahead.2 ++ (more ahead.1).2) (Walk.andThen out goOn) := by
  obtain ⟨known, sights⟩ := ahead
  obtain ⟨⟨listings, state⟩, error⟩ := out
  obtain ⟨hfiles, hends, hknown⟩ := h
  dsimp only at hfiles hends hknown
  cases error with
  | some error =>
    -- The survey has ended, and the course goes on without it.
    refine ⟨?_, ?_, nofun⟩
    · rw [Sight.files_append_of_some hends.symm]
      exact hfiles
    · rw [Sight.firstFailure_append, ← hends]
      rfl
  | none =>
    obtain rfl := hknown rfl
    have hrest := hmore listings state
    refine ⟨?_, ?_, hrest.known⟩
    · rw [Sight.files_append_of_none hends.symm, ← List.append_assoc, ← hfiles]
      exact hrest.files
    · rw [Sight.firstFailure_append, ← hends]
      exact hrest.ends

theorem sight_keepsTo (w : Walk σ ε) {n : Nat}
    (henter : ∀ path known seen, KeepsTo seen (w.sights n path known) (w.survey.enter n path ⟨known, seen⟩))
    (task : Task) (known : List Listing) (seen : List Text) :
    KeepsTo seen (sight (w.sights n) known task) (w.survey.perform (w.survey.enter n) ⟨known, seen⟩ task) := by
  cases task with
  | pass => exact .refl seen known
  | fail path cause => exact .failed seen known _
  | enter path => exact henter path known seen
  | visit path => exact ⟨rfl, rfl, fun _ => rfl⟩

theorem sightsOf_keepsTo (w : Walk σ ε) {n : Nat}
    (henter : ∀ path known seen, KeepsTo seen (w.sights n path known) (w.survey.enter n path ⟨known, seen⟩))
    (dir : Text) (todo : List (Text × Object)) (known : List Listing) (seen : List Text) :
    KeepsTo seen (w.sightsOf (w.sights n) dir todo known)
      (w.survey.entries (w.survey.enter n) dir todo ⟨known, seen⟩) := by
  induction todo generalizing known seen with
  | nil => exact .refl seen known
  | cons e rest ih =>
    rw [entries_cons]
    exact (w.sight_keepsTo henter (w.filter.task w.fs dir e) known seen).andThen ih

theorem sights_keepsTo (w : Walk σ ε) (n : Nat) (dir : Text) (known : List Listing) (seen : List Text) :
    KeepsTo seen (w.sights n dir known) (w.survey.enter n dir ⟨known, seen⟩) := by
  induction n generalizing dir known seen with
  | zero => exact .failed seen known _
  | succ n ih =>
    have hk : ∀ canonical, (⟨known, seen⟩ : Progress (List Text)).knows canonical =
        known.any (·.canonical == canonical) := fun _ => rfl
    have hfs : w.survey.fs = w.fs := rfl
    unfold sights enter
    rw [hfs]
    cases w.fs.canonical dir with
    | error cause => exact .failed seen known _
    | ok canonical =>
      simp only [hk]
      split
      · exact .refl seen known
      · cases w.fs.readDirectory dir with
        | error cause => exact .failed seen _ _
        | ok found => exact w.sightsOf_keepsTo ih dir found _ seen

/-- The itinerary of a walk is the files on its course before the first failure. -/
theorem itinerary_eq_files (w : Walk σ ε) (root : Text) : w.itinerary root = Sight.files (w.course root) :=
  (w.sights_keepsTo (depthBound w.fs) root [] []).files

theorem isPrefix_course_iff (w : Walk σ ε) {root : Text} {paths : List Text} :
    paths.map Sight.file <+: w.course root ↔ paths <+: w.itinerary root := by
  rw [itinerary_eq_files, Sight.isPrefix_files_iff]

end Walk

end SignalAudit
