import SignalAudit.Text.Basic

/-!
Finite sets of names, kept as strictly ascending lists. Two sets with the same members are the same value, so
whatever is computed from a set does not depend on the order in which its names were found.
-/

namespace SignalAudit

namespace Text

theorem lt_irrefl (a : Text) : ¬ a < a := List.lt_irrefl a

theorem lt_trans {a b c : Text} (h : a < b) (k : b < c) : a < c := List.lt_trans h k

/-- Texts that are not below each other are equal. -/
theorem eq_of_not_lt {a b : Text} (h : ¬ a < b) (k : ¬ b < a) : a = b :=
  List.le_antisymm (List.not_lt.mp k) (List.not_lt.mp h)

end Text

/-- Inserts a name into an ascending list. -/
def insertName (name : Text) : List Text → List Text
  | [] => [name]
  | other :: rest =>
    if name < other then name :: other :: rest
    else if other < name then other :: insertName name rest
    else other :: rest

theorem mem_insertName {name x : Text} {names : List Text} :
    x ∈ insertName name names ↔ x = name ∨ x ∈ names := by
  induction names with
  | nil => simp [insertName]
  | cons other rest ih =>
    unfold insertName
    split
    · simp
    · split
      · simp only [List.mem_cons, ih]
        exact or_left_comm
      · next hno hon =>
        have same : name = other := Text.eq_of_not_lt hno hon
        subst same
        simp

theorem insertName_ascending {name : Text} {names : List Text} (h : names.Pairwise (· < ·)) :
    (insertName name names).Pairwise (· < ·) := by
  induction names with
  | nil => simp [insertName]
  | cons other rest ih =>
    obtain ⟨first, tail⟩ := List.pairwise_cons.mp h
    unfold insertName
    split
    · next below =>
      refine List.pairwise_cons.mpr ⟨?_, h⟩
      intro x hx
      rcases List.mem_cons.mp hx with rfl | hx
      · exact below
      · exact Text.lt_trans below (first x hx)
    · split
      · next above =>
        refine List.pairwise_cons.mpr ⟨?_, ih tail⟩
        intro x hx
        rcases mem_insertName.mp hx with rfl | hx
        · exact above
        · exact first x hx
      · exact h

/-- A finite set of names. -/
structure NameSet where
  names : List Text
  ascending : names.Pairwise (· < ·)
  deriving DecidableEq

namespace NameSet

instance : Membership Text NameSet := ⟨fun s name => name ∈ s.names⟩

instance (name : Text) (s : NameSet) : Decidable (name ∈ s) := inferInstanceAs (Decidable (name ∈ s.names))

instance : Repr NameSet := ⟨fun s n => reprPrec s.names n⟩

def empty : NameSet := ⟨[], .nil⟩

instance : EmptyCollection NameSet := ⟨empty⟩

instance : Inhabited NameSet := ⟨empty⟩

def contains (s : NameSet) (name : Text) : Bool := decide (name ∈ s)

def size (s : NameSet) : Nat := s.names.length

def insert (s : NameSet) (name : Text) : NameSet :=
  ⟨insertName name s.names, insertName_ascending s.ascending⟩

def ofList (names : List Text) : NameSet := names.foldl insert empty

def filter (s : NameSet) (p : Text → Bool) : NameSet :=
  ⟨s.names.filter p, s.ascending.filter p⟩

def union (s t : NameSet) : NameSet := t.names.foldl insert s

def inter (s t : NameSet) : NameSet := s.filter t.contains

def diff (s t : NameSet) : NameSet := s.filter fun name => !t.contains name

instance : Union NameSet := ⟨union⟩

instance : Inter NameSet := ⟨inter⟩

instance : SDiff NameSet := ⟨diff⟩

theorem mem_def {name : Text} {s : NameSet} : name ∈ s ↔ name ∈ s.names := Iff.rfl

@[simp]
theorem not_mem_empty (name : Text) : ¬ name ∈ (∅ : NameSet) := List.not_mem_nil

@[simp]
theorem contains_iff {s : NameSet} {name : Text} : s.contains name = true ↔ name ∈ s := by
  simp [contains]

@[simp]
theorem mem_insert {s : NameSet} {name x : Text} : x ∈ s.insert name ↔ x = name ∨ x ∈ s :=
  mem_insertName

@[simp]
theorem mem_filter {s : NameSet} {p : Text → Bool} {x : Text} : x ∈ s.filter p ↔ x ∈ s ∧ p x = true :=
  List.mem_filter

theorem mem_foldl_insert {names : List Text} {s : NameSet} {x : Text} :
    x ∈ names.foldl insert s ↔ x ∈ s ∨ x ∈ names := by
  induction names generalizing s with
  | nil => simp
  | cons name rest ih =>
    simp only [List.foldl_cons, ih, mem_insert, List.mem_cons]
    constructor
    · rintro ((h | h) | h)
      · exact .inr (.inl h)
      · exact .inl h
      · exact .inr (.inr h)
    · rintro (h | h | h)
      · exact .inl (.inr h)
      · exact .inl (.inl h)
      · exact .inr h

@[simp]
theorem mem_ofList {names : List Text} {x : Text} : x ∈ ofList names ↔ x ∈ names := by
  rw [ofList, mem_foldl_insert]
  exact ⟨fun h => h.resolve_left (not_mem_empty x), .inr⟩

@[simp]
theorem mem_union {s t : NameSet} {x : Text} : x ∈ s ∪ t ↔ x ∈ s ∨ x ∈ t := mem_foldl_insert

@[simp]
theorem mem_inter {s t : NameSet} {x : Text} : x ∈ s ∩ t ↔ x ∈ s ∧ x ∈ t := by
  change x ∈ s.filter t.contains ↔ _
  simp

@[simp]
theorem mem_diff {s t : NameSet} {x : Text} : x ∈ s \ t ↔ x ∈ s ∧ ¬ x ∈ t := by
  change x ∈ s.filter (fun name => !t.contains name) ↔ _
  simp [contains]

/-- Ascending lists with the same members are equal. -/
theorem names_eq_of_mem_iff {xs ys : List Text} (hx : xs.Pairwise (· < ·)) (hy : ys.Pairwise (· < ·))
    (h : ∀ name, name ∈ xs ↔ name ∈ ys) : xs = ys := by
  induction xs generalizing ys with
  | nil =>
    cases ys with
    | nil => rfl
    | cons y ys => exact absurd ((h y).mpr (List.mem_cons_self ..)) (by simp)
  | cons x xs ih =>
    cases ys with
    | nil => exact absurd ((h x).mp (List.mem_cons_self ..)) (by simp)
    | cons y ys =>
      obtain ⟨firstX, tailX⟩ := List.pairwise_cons.mp hx
      obtain ⟨firstY, tailY⟩ := List.pairwise_cons.mp hy
      have same : x = y := by
        rcases List.mem_cons.mp ((h x).mp (List.mem_cons_self ..)) with e | hxy
        · exact e
        rcases List.mem_cons.mp ((h y).mpr (List.mem_cons_self ..)) with e | hyx
        · exact e.symm
        exact absurd (Text.lt_trans (firstX y hyx) (firstY x hxy)) (Text.lt_irrefl x)
      subst same
      refine congrArg (List.cons x) (ih tailX tailY fun name => ?_)
      have split := h name
      simp only [List.mem_cons] at split
      constructor
      · intro hn
        rcases split.mp (.inr hn) with rfl | hy
        · exact absurd (firstX name hn) (Text.lt_irrefl name)
        · exact hy
      · intro hn
        rcases split.mpr (.inr hn) with rfl | hx
        · exact absurd (firstY name hn) (Text.lt_irrefl name)
        · exact hx

/-- A set is determined by its members. -/
theorem ext {s t : NameSet} (h : ∀ name, name ∈ s ↔ name ∈ t) : s = t := by
  obtain ⟨xs, hx⟩ := s
  obtain ⟨ys, hy⟩ := t
  have : xs = ys := names_eq_of_mem_iff hx hy h
  subst this
  rfl

end NameSet

end SignalAudit
