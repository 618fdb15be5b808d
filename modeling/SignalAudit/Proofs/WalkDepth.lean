import Mathlib.Data.Finset.Card
import SignalAudit.Proofs.WalkSteps

/-!
How deep a walk goes. From a root that is not absolute a walk may enter a directory more than once. But on the way
down each directory has more links before it than the one above, or as many and a longer location; and a lookup only
follows so many links. So no walk is as deep as its bound.
-/

namespace SignalAudit

namespace FileSystem

/-- The directories of a file system. -/
def directories (fs : FileSystem) : Finset Location :=
  ([] :: fs.objects.map Prod.fst).toFinset.filter fun place => fs.isDirectory place = true

theorem mem_directories {fs : FileSystem} {place : Location} :
    place ∈ fs.directories ↔ fs.isDirectory place = true := by
  simp only [directories, Finset.mem_filter, List.mem_toFinset, and_iff_right_iff_imp]
  intro h
  cases place with
  | nil => simp
  | cons name dir =>
    obtain ⟨before, after, ho, _⟩ := List.lookup_eq_some_iff.mp (at?_cons (isDirectory_iff.mp h)).2.2
    simp [ho]

theorem card_directories_le (fs : FileSystem) : fs.directories.card ≤ fs.objects.length + 1 :=
  calc fs.directories.card ≤ ([] :: fs.objects.map Prod.fst).toFinset.card := Finset.card_filter_le ..
    _ ≤ ([] :: fs.objects.map Prod.fst).length := List.toFinset_card_le _
    _ = fs.objects.length + 1 := by simp

theorem isDirectory_drop {fs : FileSystem} {place : Location} (h : fs.isDirectory place = true) (i : Nat) :
    fs.isDirectory (place.drop i) = true := by
  induction i with
  | zero => exact h
  | succ i ih =>
    rw [← List.tail_drop]
    exact isDirectory_tail ih

/-- The directories above a directory are directories too, and all different. -/
theorem length_lt_card_directories {fs : FileSystem} {place : Location} (h : fs.isDirectory place = true) :
    place.length < fs.directories.card := by
  have hinj : Set.InjOn (fun i => place.drop i) (Finset.range (place.length + 1)) := by
    intro i hi j hj he
    have hlen := congrArg List.length he
    simp only [Finset.coe_range, Set.mem_Iio, List.length_drop] at hi hj hlen
    omega
  have hcard := Finset.card_le_card_of_injOn (fun i => place.drop i)
    (fun i _ => mem_directories.mpr (isDirectory_drop h i)) hinj
  rw [Finset.card_range] at hcard
  omega

/-- How much deeper a walk can go from a directory that so many links have led to. -/
def slack (fs : FileSystem) (links : Nat) (place : Location) : Nat :=
  (lookupLinks - links) * (fs.directories.card + 1) + (fs.directories.card - place.length)

theorem slack_pos {fs : FileSystem} {place : Location} (h : fs.isDirectory place = true) (links : Nat) :
    0 < fs.slack links place := by
  have := length_lt_card_directories h
  unfold slack
  omega

theorem slack_lt {fs : FileSystem} {k n : Nat} {place target : Location} {name : Text} (hn : Path.IsName name)
    (hp : fs.isDirectory place = true) (h : fs.Leads n place [name] target) (few : k + n ≤ lookupLinks) :
    fs.slack (k + n) target < fs.slack k place := by
  have hlen := length_lt_card_directories hp
  unfold slack
  cases h with
  | stay _ same => exact absurd same hn.not_blank
  | ascend => exact absurd rfl hn.ne_dotDot
  | descend _ _ onward =>
    -- Without a link the location grows by the name.
    cases onward
    simp only [Nat.add_zero, List.length_cons]
    omega
  | @jump links =>
    have hone : (lookupLinks - (k + (links + 1)) + 1) * (fs.directories.card + 1) ≤
        (lookupLinks - k) * (fs.directories.card + 1) := Nat.mul_le_mul_right _ (by omega)
    rw [Nat.add_mul, Nat.one_mul] at hone
    omega

end FileSystem

namespace Walk

variable {σ ε : Type} {w : Walk σ ε}

/-- The errors that end a walk other than by its depth: a failed access, or a failed visit. -/
inductive Ends (w : Walk σ ε) : WalkError ε → Prop where
  | access (path : Text) (cause : AccessError) : Ends w (.access path cause)
  | visit {path : Text} {s : σ} {cause : ε} (failed : (w.visit path s).2 = some cause) : Ends w (.visit path cause)

theorem entries_ends {enter : Text → Progress σ → Outcome σ ε} {dir : Text} {todo : List (Text × Object)}
    (h : ∀ e ∈ todo, ∀ path, w.filter.task w.fs dir e = .enter path → ∀ p error, (enter path p).2 = some error →
      w.Ends error) {p : Progress σ} {error : WalkError ε} (herr : (w.entries enter dir todo p).2 = some error) :
    w.Ends error := by
  induction todo generalizing p with
  | nil => cases herr
  | cons e rest ih =>
    have first : ∀ error, (w.perform enter p (w.filter.task w.fs dir e)).2 = some error → w.Ends error := by
      intro error herr
      cases ht : w.filter.task w.fs dir e with
      | pass =>
        rw [ht] at herr
        cases herr
      | fail path cause =>
        rw [ht] at herr
        cases herr
        exact .access path cause
      | visit path =>
        rw [ht] at herr
        obtain ⟨cause, hc, rfl⟩ := Option.map_eq_some_iff.mp herr
        exact .visit hc
      | enter path =>
        rw [ht] at herr
        exact h e (by simp) path ht p error herr
    rw [entries_cons] at herr
    rcases hp : w.perform enter p (w.filter.task w.fs dir e) with ⟨mid, _ | cause⟩
    · rw [hp] at herr
      exact ih (fun e' he' => h e' (by simp [he'])) herr
    · rw [hp] at herr first
      exact first error herr

theorem enter_succ_ends {n : Nat} {dir : Text}
    (h : ∀ place, w.fs.locate dir = .ok place → w.fs.isDirectory place = true → ∀ e ∈ w.fs.entries place,
      ∀ p error, (w.enter n (Path.join dir e.1) p).2 = some error → w.Ends error) {p : Progress σ}
    {error : WalkError ε} (herr : (w.enter (n + 1) dir p).2 = some error) : w.Ends error := by
  unfold enter at herr
  split at herr
  · cases herr
    exact .access ..
  · split at herr
    · cases herr
    · dsimp only at herr
      split at herr
      · cases herr
        exact .access ..
      · next found read =>
        obtain ⟨place, hl, hd, rfl⟩ := FileSystem.readDirectory_eq_ok_iff.mp read
        apply entries_ends _ herr
        intro e he path ht
        obtain ⟨_, _, rfl⟩ := SourceFilter.task_eq_enter_iff.mp ht
        exact h place hl hd e he

/-- Below a directory a walk has depth enough if it has more than the slack of wherever the path leads. -/
theorem enter_join_ends {n : Nat} {above name : Text} (hn : Path.IsName name) (hpos : 0 < n)
    (hslack : ∀ k place, w.fs.LeadsClean k (Path.join above name) place → k ≤ FileSystem.lookupLinks →
      w.fs.isDirectory place = true → w.fs.slack k place < n) {p : Progress σ} {error : WalkError ε}
    (herr : (w.enter n (Path.join above name) p).2 = some error) : w.Ends error := by
  induction n generalizing above name p error with
  | zero => omega
  | succ n ih =>
    apply enter_succ_ends _ herr
    intro place hl hd e he p error herr
    obtain ⟨_, _, _, k, hk, hleads⟩ := FileSystem.locate_eq_ok_iff.mp hl
    have hclean := (FileSystem.leads_join hn).mp hleads
    have henough := hslack k place hclean hk hd
    have hpos' := FileSystem.slack_pos hd k
    have hne := FileSystem.isName_of_mem_entries he
    apply ih hne (by omega) _ herr
    intro k' target hclean' hk' _
    obtain ⟨m, j, mid, rfl, hm, hj⟩ := (FileSystem.leadsClean_join hne).mp hclean'
    obtain ⟨rfl, rfl⟩ := hm.unique hclean
    have hless := FileSystem.slack_lt hne hd hj hk'
    omega

theorem slack_lt_depthBound (fs : FileSystem) (links : Nat) (place : Location) :
    fs.slack links place + 1 < depthBound fs := by
  have hcard := fs.card_directories_le
  have hmul : (FileSystem.lookupLinks - links) * (fs.directories.card + 1) ≤
      FileSystem.lookupLinks * (fs.objects.length + 3) := Nat.mul_le_mul (Nat.sub_le ..) (by omega)
  unfold FileSystem.slack depthBound
  rw [Nat.add_mul]
  omega

/-- A walk ends early for a failed access or a failed visit, and never for its depth, whatever its root. -/
theorem run_ends (w : Walk σ ε) {root : Text} {state : σ} {error : WalkError ε}
    (herr : (w.run root state).2 = some error) : w.Ends error := by
  have hbound := slack_lt_depthBound w.fs
  have hsome := hbound 0 []
  obtain ⟨n, hn⟩ : ∃ n, depthBound w.fs = n + 1 := Nat.exists_eq_succ_of_ne_zero (by omega)
  unfold run at herr
  rw [hn] at hbound hsome herr
  apply enter_succ_ends _ herr
  intro place _ _ e he p error herr
  apply enter_join_ends (FileSystem.isName_of_mem_entries he) (by omega) _ herr
  intro k target _ _ _
  have := hbound k target
  omega

theorem run_ne_tooDeep (w : Walk σ ε) (root : Text) (state : σ) (path : Text) :
    (w.run root state).2 ≠ some (.tooDeep path) := by
  intro herr
  cases w.run_ends herr

end Walk

end SignalAudit
