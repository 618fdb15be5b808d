import SignalAudit.Proofs.WalkDepth

/-!
Cycles of links. A walk from the top down knows a directory by one spelling, so it enters no directory twice, and
each directory it enters leaves one fewer to be entered. Hence it ends, whatever the links do.
-/

namespace SignalAudit

namespace Walk

variable {σ ε : Type}

/-- The directories that a walk does not know yet. -/
def unknown (fs : FileSystem) (p : Progress σ) : Finset Location :=
  fs.directories.filter fun place => p.knows (FileSystem.spelling place) = false

theorem unknown_subset (fs : FileSystem) {p q : Progress σ} (h : p.listings <:+ q.listings) :
    unknown fs q ⊆ unknown fs p := by
  intro place hp
  obtain ⟨hd, hk⟩ := Finset.mem_filter.mp hp
  apply Finset.mem_filter.mpr
  refine ⟨hd, ?_⟩
  cases hkp : p.knows (FileSystem.spelling place) with
  | false => rfl
  | true =>
    rw [knows_of_suffix h hkp] at hk
    cases hk

theorem card_unknown_lt {fs : FileSystem} {p : Progress σ} {place : Location}
    (hd : fs.isDirectory place = true) (dir : Text) (fresh : p.knows (FileSystem.spelling place) = false) :
    (unknown fs { p with listings := ⟨FileSystem.spelling place, dir⟩ :: p.listings }).card < (unknown fs p).card := by
  apply Finset.card_lt_card
  apply Finset.ssubset_iff_subset_ne.mpr
  refine ⟨unknown_subset fs (List.suffix_cons ..), ?_⟩
  intro he
  have hm : place ∈ unknown fs p := Finset.mem_filter.mpr ⟨FileSystem.mem_directories.mpr hd, fresh⟩
  rw [← he] at hm
  have hk := (Finset.mem_filter.mp hm).2
  simp [Progress.knows] at hk

theorem entries_congr {w : Walk σ ε} {m n : Nat} {dir : Text} (ha : Path.isAbsolute dir = true) {place : Location}
    (henter : ∀ path p, Path.isAbsolute path = true → (unknown w.fs p).card < m → (unknown w.fs p).card < n →
      w.enter m path p = w.enter n path p)
    {todo : List (Text × Object)} (hsub : todo ⊆ w.fs.entries place) {p : Progress σ}
    (hm : (unknown w.fs p).card < m) (hn : (unknown w.fs p).card < n) :
    w.entries (w.enter m) dir todo p = w.entries (w.enter n) dir todo p := by
  induction todo generalizing p with
  | nil => rfl
  | cons e rest ih =>
    have first : w.perform (w.enter m) p (w.filter.task w.fs dir e) =
        w.perform (w.enter n) p (w.filter.task w.fs dir e) := by
      cases ht : w.filter.task w.fs dir e with
      | pass | fail | visit => rfl
      | enter path =>
        obtain ⟨_, _, rfl⟩ := SourceFilter.task_eq_enter_iff.mp ht
        apply henter _ p _ hm hn
        rw [Path.isAbsolute_join _ (FileSystem.isName_of_mem_entries (hsub (by simp)))]
        exact ha
    have grows := w.perform_grows m p (w.filter.task w.fs dir e)
    rw [entries_cons, entries_cons, ← first]
    rcases hp : w.perform (w.enter m) p (w.filter.task w.fs dir e) with ⟨q, _ | error⟩
    · rw [hp] at grows
      have hq : (unknown w.fs q).card ≤ (unknown w.fs p).card := Finset.card_le_card (unknown_subset w.fs grows)
      exact ih (fun x hx => hsub (by simp [hx])) (by omega) (by omega)
    · rfl

/-- All depths above the number of directories not yet known do the same. -/
theorem enter_congr (w : Walk σ ε) {m n : Nat} {dir : Text} {p : Progress σ} (ha : Path.isAbsolute dir = true)
    (hm : (unknown w.fs p).card < m) (hn : (unknown w.fs p).card < n) : w.enter m dir p = w.enter n dir p := by
  induction m generalizing n dir p with
  | zero => omega
  | succ m ih =>
    cases n with
    | zero => omega
    | succ n =>
      unfold enter
      split
      · rfl
      · next canonical spelled =>
        split
        · rfl
        · next hk =>
          dsimp only
          split
          · rfl
          · next found read =>
            obtain ⟨place, hl, hd, rfl⟩ := FileSystem.readDirectory_eq_ok_iff.mp read
            obtain rfl := FileSystem.canonical_eq_spelling ha spelled hl
            have hlt := card_unknown_lt hd dir (by simpa using hk)
            exact entries_congr ha (fun path q hq hm' hn' => ih hq hm' hn') (List.Subset.refl _)
              (by omega) (by omega)

theorem card_directories_lt_depthBound (fs : FileSystem) : fs.directories.card < depthBound fs := by
  have h := fs.card_directories_le
  unfold depthBound
  calc fs.directories.card < 1 * (fs.objects.length + 3) := by omega
    _ ≤ (FileSystem.lookupLinks + 1) * (fs.objects.length + 3) := Nat.mul_le_mul_right _ (by omega)

/-- A walk from an absolute root ends: any depth above the number of directories will do. On the way no directory is
listed twice, whether the walk succeeds or fails. -/
theorem run_absolute_ends (w : Walk σ ε) (root : Text) (ha : Path.isAbsolute root = true) (state : σ) :
    (∀ depth, w.fs.directories.card < depth → w.enter depth root ⟨[], state⟩ = w.run root state) ∧
      (∀ path, (w.run root state).2 ≠ some (.tooDeep path)) ∧ ((w.run root state).1.listed w.fs).Nodup := by
  have hall : (unknown w.fs (⟨[], state⟩ : Progress σ)).card ≤ w.fs.directories.card := Finset.card_filter_le ..
  have hbound := card_directories_lt_depthBound w.fs
  refine ⟨fun depth hd => ?_, w.run_ne_tooDeep root state, ?_⟩
  · exact w.enter_congr ha (by omega) (by omega)
  · exact (w.run_distinct root state).nodup_listed (w.run_absolute ha state)

/-- Two directories that hold links to each other, with a link to a file and one to itself beside them. -/
def looped : FileSystem where
  objects := [
    ([text "r"], .directory),
    ([text "a.cpp", text "r"], .file .empty),
    ([text "c.cpp", text "r"], .link (text "a.cpp")),
    ([text "lib", text "r"], .link (text "../e")),
    ([text "self", text "r"], .link (text "self")),
    ([text "e"], .directory),
    ([text "b.h", text "e"], .file .empty),
    ([text "up", text "e"], .link (text "/r"))]

def looping : Walk (List Text) Unit := ⟨looped, .standard, fun path seen => (seen ++ [path], none)⟩

theorem looping_ends : Path.isAbsolute (text "/r") = true ∧ looped.directories.card < 4 ∧
    looping.enter 4 (text "/r") ⟨[], []⟩ = looping.run (text "/r") [] ∧
    (∀ path, (looping.run (text "/r") []).2 ≠ some (.tooDeep path)) ∧
    ((looping.run (text "/r") []).1.listed looped).Nodup :=
  have hcard : looped.directories.card < 4 := by decide +kernel
  have hends := run_absolute_ends looping (text "/r") (by decide) []
  ⟨by decide, hcard, hends.1 4 hcard, hends.2⟩

end Walk

end SignalAudit
