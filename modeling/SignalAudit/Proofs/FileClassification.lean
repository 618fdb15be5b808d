import SignalAudit.Scan

/-!
What classifying lines and files makes of a usage. Whether it succeeds is up to the lines; and if it does, each match
is gathered in the set of its kind, and nothing else is.
-/

namespace SignalAudit

/-- A raw line can be read and says this about a signal. -/
def Yields (patterns : List Pattern) (raw : Text) (m : Match) : Prop :=
  Text.isOverlong raw = false ∧ classify patterns (Text.dropReturn raw) = .ok m

theorem Yields.unique {patterns : List Pattern} {raw : Text} {m m' : Match} (h : Yields patterns raw m)
    (h' : Yields patterns raw m') : m = m' :=
  Except.ok.inj (h.2.symm.trans h'.2)

section Lines

variable {σ : Type} {patterns : List Pattern} {record : Nat → Match → σ → σ}

theorem classifyLines_of_yields {raw : Text} {m : Match} (h : Yields patterns raw m) (n : Nat) (rest : List Text)
    (s : σ) : classifyLines patterns record n (raw :: rest) s =
      classifyLines patterns record (n + 1) rest (record n m s) := by
  simp [classifyLines, h.1, h.2]

theorem classifyLines_of_not_yields {raw : Text} (h : ∀ m, ¬ Yields patterns raw m) (n : Nat) (rest : List Text)
    (s : σ) : ∃ e, classifyLines patterns record n (raw :: rest) s = (s, some e) := by
  rw [classifyLines]
  cases hlong : Text.isOverlong raw with
  | true => exact ⟨.overlong, rfl⟩
  | false =>
    cases hc : classify patterns (Text.dropReturn raw) with
    | error cause => exact ⟨.malformed n cause, rfl⟩
    | ok m => exact absurd ⟨hlong, hc⟩ (h m)

theorem classifyLines_eq_none_iff {lines : List Text} {n : Nat} {s : σ} :
    (classifyLines patterns record n lines s).2 = none ↔ ∀ raw ∈ lines, ∃ m, Yields patterns raw m := by
  induction lines generalizing n s with
  | nil => simp [classifyLines]
  | cons raw rest ih =>
    rw [List.forall_mem_cons]
    by_cases hy : ∃ m, Yields patterns raw m
    · obtain ⟨m, hm⟩ := hy
      rw [classifyLines_of_yields hm, ih]
      exact ⟨fun h => ⟨⟨m, hm⟩, h⟩, And.right⟩
    · obtain ⟨e, he⟩ : ∃ e, classifyLines patterns record n (raw :: rest) s = (s, some e) :=
        classifyLines_of_not_yields (not_exists.mp hy) n rest s
      simp [he, hy]

end Lines

/-- The kinds of match that are kept. -/
def Kind.Kept (k : Kind) : Prop := k ≠ .noMatch ∧ k ≠ .unknown

namespace Usage

/-- The names of a kind. -/
def names (u : Usage) : Kind → NameSet
  | .declaration => u.declared
  | .emission => u.emitted
  | .connection => u.connected
  | .compatConnection => u.compatConnected
  | .noMatch | .unknown => ∅

theorem not_mem_names_empty (k : Kind) (name : Text) : ¬ name ∈ names {} k := by
  cases k <;> exact NameSet.not_mem_empty name

theorem mem_names_add {u : Usage} {m : Match} {k : Kind} (hk : k.Kept) {x : Text} :
    x ∈ (u.add m).names k ↔ x ∈ u.names k ∨ (⟨k, x⟩ : Match) = m := by
  obtain ⟨kind, name⟩ := m
  cases k with
  | noMatch => exact absurd rfl hk.1
  | unknown => exact absurd rfl hk.2
  | declaration | emission | connection | compatConnection =>
    cases kind <;> simp [add, names, or_comm]

/-- One usage comes from another by some matches and a number of files. -/
structure Gathers (Said : Match → Prop) (files : Nat) (u v : Usage) : Prop where
  names : ∀ k, k.Kept → ∀ x, x ∈ v.names k ↔ x ∈ u.names k ∨ Said ⟨k, x⟩
  files : v.files = u.files + files

theorem Gathers.refl {Said : Match → Prop} (h : ∀ m, ¬ Said m) (u : Usage) : Gathers Said 0 u u :=
  ⟨fun k _ x => by simp [h], rfl⟩

theorem Gathers.trans {A B C : Match → Prop} {m n : Nat} {u v t : Usage} (h : Gathers A m u v) (k : Gathers B n v t)
    (hC : ∀ x, C x ↔ A x ∨ B x) : Gathers C (m + n) u t where
  names kind hk x := by rw [k.names kind hk, h.names kind hk, hC, or_assoc]
  files := by rw [k.files, h.files, Nat.add_assoc]

theorem gathers_add (u : Usage) (m : Match) : Gathers (· = m) 0 u (u.add m) where
  names _ hk _ := mem_names_add hk
  files := by
    unfold add
    split <;> rfl

theorem classifyLines_gathers {patterns : List Pattern} {lines : List Text}
    (h : ∀ raw ∈ lines, ∃ m, Yields patterns raw m) (n : Nat) (u : Usage) :
    Gathers (fun m => ∃ raw ∈ lines, Yields patterns raw m) 0 u
      (classifyLines patterns (fun _ found u => u.add found) n lines u).1 := by
  induction lines generalizing n u with
  | nil => exact .refl (by simp) u
  | cons raw rest ih =>
    obtain ⟨⟨m, hm⟩, hrest⟩ := List.forall_mem_cons.mp h
    rw [classifyLines_of_yields hm]
    apply (gathers_add u m).trans (ih hrest (n + 1) (u.add m))
    intro x
    have hx : Yields patterns raw x ↔ x = m := ⟨fun hy => hy.unique hm, fun he => he ▸ hm⟩
    simp [hx]

end Usage

/-- A path leads to a file with lines that can all be read and classified. -/
def Classifies (fs : FileSystem) (patterns : List Pattern) (path : Text) : Prop :=
  ∃ content, fs.readFile path = .ok content ∧ ∀ raw ∈ Text.rawLines content, ∃ m, Yields patterns raw m

/-- Some line of the file that a path leads to says this about a signal. -/
def Says (fs : FileSystem) (patterns : List Pattern) (path : Text) (m : Match) : Prop :=
  ∃ content, fs.readFile path = .ok content ∧ ∃ raw ∈ Text.rawLines content, Yields patterns raw m

section File

variable {σ : Type} {fs : FileSystem} {patterns : List Pattern} {record : Nat → Match → σ → σ} {path : Text}

theorem classifyFile_of_read {content : ByteArray} (h : fs.readFile path = .ok content) (s : σ) :
    classifyFile fs patterns record path s = classifyContent patterns record content s := by
  unfold FileSystem.readFile at h
  unfold classifyFile
  cases ho : fs.openFile path with
  | error cause => simp [ho] at h
  | ok object =>
    simp only [ho] at h
    simp only [h]

theorem classifyFile_of_unread {cause : AccessError} (h : fs.readFile path = .error cause) (s : σ) :
    ∃ e, classifyFile fs patterns record path s = (s, some e) := by
  unfold FileSystem.readFile at h
  unfold classifyFile
  cases ho : fs.openFile path with
  | error cause => exact ⟨.unopened cause, rfl⟩
  | ok object =>
    simp only [ho] at h
    simp only [h]
    exact ⟨.unread cause, rfl⟩

theorem classifyFile_eq_none_iff {s : σ} :
    (classifyFile fs patterns record path s).2 = none ↔ Classifies fs patterns path := by
  cases hr : fs.readFile path with
  | error cause =>
    obtain ⟨e, he⟩ : ∃ e, classifyFile fs patterns record path s = (s, some e) := classifyFile_of_unread hr s
    simp [he, Classifies, hr]
  | ok content =>
    rw [classifyFile_of_read hr, classifyContent, classifyLines_eq_none_iff]
    simp [Classifies, hr]

end File

namespace Usage

variable {fs : FileSystem} {patterns : List Pattern} {path : Text}

theorem visitFile_eq_none_iff {u : Usage} :
    (u.visitFile fs patterns path).2 = none ↔ Classifies fs patterns path := by
  have hadd : (u.addFile fs patterns path).2 = none ↔ Classifies fs patterns path := classifyFile_eq_none_iff
  rw [← hadd]
  unfold visitFile
  rcases u.addFile fs patterns path with ⟨v, _ | e⟩ <;> simp

theorem addFile_gathers (h : Classifies fs patterns path) (u : Usage) :
    Gathers (Says fs patterns path) 0 u (u.addFile fs patterns path).1 := by
  obtain ⟨content, hr, hlines⟩ := h
  have hadd : u.addFile fs patterns path =
      classifyLines patterns (fun _ found u => u.add found) 1 (Text.rawLines content) u := classifyFile_of_read hr u
  have hsays : Says fs patterns path = fun m => ∃ raw ∈ Text.rawLines content, Yields patterns raw m := by
    funext m
    simp [Says, hr]
  rw [hadd, hsays]
  exact classifyLines_gathers hlines 1 u

theorem visitFile_gathers (h : Classifies fs patterns path) (u : Usage) :
    Gathers (Says fs patterns path) 1 u (u.visitFile fs patterns path).1 := by
  have hall := addFile_gathers h u
  have hnone : (u.addFile fs patterns path).2 = none := classifyFile_eq_none_iff.mpr h
  unfold visitFile
  generalize u.addFile fs patterns path = out at hall hnone ⊢
  obtain ⟨v, _ | e⟩ := out
  · refine ⟨fun k hk x => ?_, congrArg (· + 1) hall.files⟩
    have hnames : Usage.names { v with files := v.files + 1 } k = v.names k := by cases k <;> rfl
    rw [hnames]
    exact hall.names k hk x
  · cases hnone

end Usage

end SignalAudit
