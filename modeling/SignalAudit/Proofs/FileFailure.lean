import SignalAudit.Proofs.FileClassification

/-!
Where the classification of a file stops, if it does: at the file itself, or at its first line that cannot be read or
classified. What was recorded until then is what the lines before give.
-/

namespace SignalAudit

/-- Of some elements without a property there is a first. -/
theorem exists_first_not {α : Type} {P : α → Prop} {l : List α} (h : ¬ ∀ x ∈ l, P x) :
    ∃ before x after, l = before ++ x :: after ∧ (∀ y ∈ before, P y) ∧ ¬ P x := by
  classical
  have hsome : (l.find? fun x => !decide (P x)).isSome := by simpa using h
  obtain ⟨x, hfind⟩ := Option.isSome_iff_exists.mp hsome
  obtain ⟨hx, before, after, hsplit, hbefore⟩ := List.find?_eq_some_iff_append.mp hfind
  exact ⟨before, x, after, hsplit, by simpa using hbefore, by simpa using hx⟩

/-- A raw line with a number stops a classification by an error. -/
inductive Stops (patterns : List Pattern) (raw : Text) (number : Nat) : FileError → Prop where
  | overlong (long : Text.isOverlong raw = true) : Stops patterns raw number .overlong
  | malformed {cause : Malformed} (short : Text.isOverlong raw = false)
      (bad : classify patterns (Text.dropReturn raw) = .error cause) : Stops patterns raw number (.malformed number cause)

section Lines

variable {σ : Type} {patterns : List Pattern} {record : Nat → Match → σ → σ}

theorem exists_stops {raw : Text} (h : ¬ ∃ m, Yields patterns raw m) (n : Nat) : ∃ e, Stops patterns raw n e := by
  cases hlong : Text.isOverlong raw with
  | true => exact ⟨_, .overlong hlong⟩
  | false =>
    cases hc : classify patterns (Text.dropReturn raw) with
    | error cause => exact ⟨_, .malformed hlong hc⟩
    | ok m => exact absurd ⟨m, hlong, hc⟩ h

theorem classifyLines_of_stops {raw : Text} {n : Nat} {e : FileError} (h : Stops patterns raw n e) (rest : List Text)
    (s : σ) : classifyLines patterns record n (raw :: rest) s = (s, some e) := by
  cases h with
  | overlong long => simp [classifyLines, long]
  | malformed short bad => simp [classifyLines, short, bad]

theorem classifyLines_append {before : List Text} (h : ∀ raw ∈ before, ∃ m, Yields patterns raw m) (n : Nat)
    (rest : List Text) (s : σ) : classifyLines patterns record n (before ++ rest) s =
      classifyLines patterns record (n + before.length) rest (classifyLines patterns record n before s).1 := by
  induction before generalizing n s with
  | nil => rfl
  | cons raw before ih =>
    obtain ⟨⟨m, hm⟩, hbefore⟩ := List.forall_mem_cons.mp h
    rw [List.cons_append, classifyLines_of_yields hm, classifyLines_of_yields hm, ih hbefore, List.length_cons,
      Nat.add_assoc, Nat.add_comm 1]

end Lines

/-- The classification of the file that a path leads to fails by an error, after these of its lines. -/
inductive FailsAfter (fs : FileSystem) (patterns : List Pattern) (path : Text) : FileError → List Text → Prop where
  | unopened {cause : AccessError} (h : fs.openFile path = .error cause) :
      FailsAfter fs patterns path (.unopened cause) []
  | unread {object : Object} {cause : AccessError} (opened : fs.openFile path = .ok object)
      (h : FileSystem.readObject path object = .error cause) : FailsAfter fs patterns path (.unread cause) []
  | line {content : ByteArray} {before after : List Text} {raw : Text} {e : FileError}
      (read : fs.readFile path = .ok content) (lines : Text.rawLines content = before ++ raw :: after)
      (fine : ∀ line ∈ before, ∃ m, Yields patterns line m) (stops : Stops patterns raw (1 + before.length) e) :
      FailsAfter fs patterns path e before

theorem FailsAfter.fine {fs : FileSystem} {patterns : List Pattern} {path : Text} {e : FileError} {before : List Text}
    (h : FailsAfter fs patterns path e before) : ∀ line ∈ before, ∃ m, Yields patterns line m := by
  cases h with
  | unopened | unread => exact nofun
  | line _ _ fine _ => exact fine

section File

variable {σ : Type} {fs : FileSystem} {patterns : List Pattern} {record : Nat → Match → σ → σ} {path : Text}

theorem exists_failsAfter (h : ¬ Classifies fs patterns path) : ∃ e before, FailsAfter fs patterns path e before := by
  cases hr : fs.readFile path with
  | ok content =>
    have hlines : ¬ ∀ raw ∈ Text.rawLines content, ∃ m, Yields patterns raw m := fun all => h ⟨content, hr, all⟩
    obtain ⟨before, raw, after, hsplit, fine, hraw⟩ := exists_first_not hlines
    obtain ⟨e, hstops⟩ := exists_stops hraw (1 + before.length)
    exact ⟨e, before, .line hr hsplit fine hstops⟩
  | error cause =>
    unfold FileSystem.readFile at hr
    cases ho : fs.openFile path with
    | error cause => exact ⟨_, [], .unopened ho⟩
    | ok object =>
      rw [ho] at hr
      exact ⟨_, [], .unread ho hr⟩

theorem classifyFile_of_failsAfter {e : FileError} {before : List Text} (h : FailsAfter fs patterns path e before)
    (s : σ) :
    classifyFile fs patterns record path s = ((classifyLines patterns record 1 before s).1, some e) := by
  cases h with
  | unopened h => simp [classifyFile, h, classifyLines]
  | unread opened h => simp [classifyFile, opened, h, classifyLines]
  | line read lines fine stops =>
    rw [classifyFile_of_read read, classifyContent, lines, classifyLines_append fine, classifyLines_of_stops stops]

end File

end SignalAudit
