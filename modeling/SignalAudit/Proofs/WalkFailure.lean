import SignalAudit.Proofs.WalkExactness

/-!
Where a walk that failed was stopped: at a directory in its scope, or at an entry of a directory that it had listed.
-/

namespace SignalAudit

namespace Walk

variable {σ ε : Type} {w : Walk σ ε} {root : Text}

/-- What has stopped a walk from a root by an error. -/
inductive Stopped (w : Walk σ ε) (root : Text) (p : Progress σ) : WalkError ε → Prop where
  | unspelled {dir : Text} {cause : AccessError} (scope : w.InScope root p dir)
      (failed : w.fs.canonical dir = .error cause) : Stopped w root p (.access dir cause)
  | unread {dir : Text} {cause : AccessError} (scope : w.InScope root p dir)
      (failed : w.fs.readDirectory dir = .error cause) : Stopped w root p (.access dir cause)
  | entry {l : Listing} {found : List (Text × Object)} {e : Text × Object} {path : Text} {cause : AccessError}
      (listed : l ∈ p.listings) (read : w.fs.readDirectory l.path = .ok found) (entry : e ∈ found)
      (task : w.filter.task w.fs l.path e = .fail path cause) : Stopped w root p (.access path cause)
  | visit {l : Listing} {found : List (Text × Object)} {e : Text × Object} {path : Text} {s : σ} {cause : ε}
      (listed : l ∈ p.listings) (read : w.fs.readDirectory l.path = .ok found) (entry : e ∈ found)
      (task : w.filter.task w.fs l.path e = .visit path) (failed : (w.visit path s).2 = some cause) :
      Stopped w root p (.visit path cause)
  | depth (dir : Text) : Stopped w root p (.tooDeep dir)

theorem perform_stopped {n : Nat} {l : Listing} {found : List (Text × Object)} {e : Text × Object} {p q : Progress σ}
    {error : WalkError ε} (read : w.fs.readDirectory l.path = .ok found) (he : e ∈ found) (hl : l ∈ p.listings)
    (henter : ∀ path p q error, w.InScope root p path → w.enter n path p = (q, some error) → w.Stopped root q error)
    (h : w.perform (w.enter n) p (w.filter.task w.fs l.path e) = (q, some error)) : w.Stopped root q error := by
  cases ht : w.filter.task w.fs l.path e with
  | pass =>
    rw [ht] at h
    cases h
  | fail path cause =>
    rw [ht] at h
    cases h
    exact .entry hl read he ht
  | enter path =>
    rw [ht] at h
    exact henter path p q error (.inr ⟨l, hl, found, read, e, he, ht⟩) h
  | visit path =>
    rw [ht] at h
    obtain ⟨rfl, herror⟩ := Prod.mk.inj h
    obtain ⟨cause, hc, rfl⟩ := Option.map_eq_some_iff.mp herror
    exact .visit hl read he ht hc

theorem entries_stopped {n : Nat} {l : Listing} {found todo : List (Text × Object)} {p q : Progress σ}
    {error : WalkError ε} (read : w.fs.readDirectory l.path = .ok found) (hsub : todo ⊆ found) (hl : l ∈ p.listings)
    (henter : ∀ path p q error, w.InScope root p path → w.enter n path p = (q, some error) → w.Stopped root q error)
    (h : w.entries (w.enter n) l.path todo p = (q, some error)) : w.Stopped root q error := by
  induction todo generalizing p with
  | nil => cases h
  | cons e rest ih =>
    have grows := w.perform_grows n p (w.filter.task w.fs l.path e)
    rw [entries_cons] at h
    rcases hp : w.perform (w.enter n) p (w.filter.task w.fs l.path e) with ⟨mid, _ | cause⟩
    · rw [hp] at h grows
      exact ih (fun x hx => hsub (by simp [hx])) (grows.subset hl) h
    · rw [hp] at h
      cases h
      exact perform_stopped read (hsub (by simp)) hl henter hp

theorem enter_stopped {n : Nat} {dir : Text} {p q : Progress σ} {error : WalkError ε} (scope : w.InScope root p dir)
    (h : w.enter n dir p = (q, some error)) : w.Stopped root q error := by
  induction n generalizing dir p q error with
  | zero =>
    cases h
    exact .depth dir
  | succ n ih =>
    unfold enter at h
    split at h
    · next cause failed =>
      cases h
      exact .unspelled scope failed
    · next canonical _ =>
      split at h
      · cases h
      · dsimp only at h
        split at h
        · next cause failed =>
          cases h
          exact .unread (scope.mono (List.suffix_cons ..)) failed
        · next found read =>
          exact entries_stopped (l := ⟨canonical, dir⟩) read (List.Subset.refl found) (by simp)
            (fun path p q error hscope => ih hscope) h

/-- A walk that fails is stopped in its scope, and never by its depth. -/
theorem run_stopped {state : σ} {p : Progress σ} {error : WalkError ε} (h : w.run root state = (p, some error)) :
    w.Stopped root p error ∧ ∀ dir, error ≠ .tooDeep dir := by
  refine ⟨enter_stopped (.inl rfl) h, ?_⟩
  intro dir he
  have hdeep := w.run_ne_tooDeep root state dir
  rw [h, he] at hdeep
  exact hdeep rfl

end Walk

end SignalAudit
