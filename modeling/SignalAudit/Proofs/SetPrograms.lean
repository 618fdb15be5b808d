import Mathlib.Data.Set.Basic
import SignalAudit.NameSet

/-!
Programs over registers that hold sets of names. After every step each register holds the set that the same operations
give in mathematics, listed in ascending order, and only the target of the step has changed.

As long as sets are values, a step can change nothing else. So the programs are also run where sets are written in place
and registers refer to them. There a step could write into a set that a register still refers to. It does not: it fills
a cell of its own and leaves all others as they are, in whatever order it goes through the names of a set.
-/

namespace SignalAudit

/-- A set to be computed, from names or from the sets in two registers. -/
inductive SetTerm where
  /-- No set, which is read as an empty one. -/
  | absent
  | listed (names : List Text)
  | union (a b : Text)
  | inter (a b : Text)
  | diff (a b : Text)

/-- Puts a computed set into a register, which may be one of those that it is computed from. -/
structure SetStep where
  target : Text
  term : SetTerm

/-- The sets in the registers. -/
abbrev SetRegisters := Text → NameSet

/-- What the registers hold, in mathematics. -/
abbrev SetContents := Text → Set Text

namespace SetTerm

def value (g : SetRegisters) : SetTerm → NameSet
  | absent => ∅
  | listed names => .ofList names
  | union a b => g a ∪ g b
  | inter a b => g a ∩ g b
  | diff a b => g a \ g b

def members (c : SetContents) : SetTerm → Set Text
  | absent => ∅
  | listed names => {name | name ∈ names}
  | union a b => c a ∪ c b
  | inter a b => c a ∩ c b
  | diff a b => c a \ c b

end SetTerm

namespace SetContents

def step (c : SetContents) (s : SetStep) : SetContents := Function.update c s.target (s.term.members c)

def run (c : SetContents) (program : List SetStep) : SetContents := program.foldl step c

end SetContents

namespace SetRegisters

def step (g : SetRegisters) (s : SetStep) : SetRegisters := Function.update g s.target (s.term.value g)

def run (g : SetRegisters) (program : List SetStep) : SetRegisters := program.foldl step g

def contents (g : SetRegisters) : SetContents := fun r => {name | name ∈ g r}

theorem contents_value (g : SetRegisters) (t : SetTerm) : {name | name ∈ t.value g} = t.members g.contents := by
  ext name
  cases t with
  | absent => exact iff_of_false (NameSet.not_mem_empty name) (Set.notMem_empty name)
  | listed names => exact NameSet.mem_ofList
  | union a b => exact NameSet.mem_union
  | inter a b => exact NameSet.mem_inter
  | diff a b => exact NameSet.mem_diff

theorem contents_step (g : SetRegisters) (s : SetStep) : (g.step s).contents = g.contents.step s := by
  rw [SetContents.step, ← contents_value]
  exact Function.comp_update (fun value : NameSet => {name | name ∈ value}) g s.target (s.term.value g)

theorem contents_run (g : SetRegisters) (program : List SetStep) :
    (g.run program).contents = g.contents.run program := by
  induction program generalizing g with
  | nil => rfl
  | cons s program ih =>
    have hrest := ih (g.step s)
    rw [contents_step] at hrest
    exact hrest

theorem mem_run_iff {g : SetRegisters} {program : List SetStep} {r name : Text} :
    name ∈ g.run program r ↔ name ∈ g.contents.run program r := by
  rw [← contents_run]
  exact Iff.rfl

/-- A register that is no target keeps its set. -/
theorem run_of_untargeted {program : List SetStep} {r : Text} (h : ∀ s ∈ program, s.target ≠ r) (g : SetRegisters) :
    g.run program r = g r := by
  induction program generalizing g with
  | nil => rfl
  | cons s program ih =>
    obtain ⟨hs, hrest⟩ := List.forall_mem_cons.mp h
    calc
      g.run (s :: program) r = (g.step s).run program r := rfl
      _ = g.step s r := ih hrest (g.step s)
      _ = g r := Function.update_of_ne hs.symm _ _

end SetRegisters

/-- The names of a set are the one ascending list of its members. -/
theorem NameSet.names_eq_iff {s : NameSet} {names : List Text} :
    s.names = names ↔ names.Pairwise (· < ·) ∧ ∀ name, name ∈ names ↔ name ∈ s := by
  constructor
  · rintro rfl
    exact ⟨s.ascending, fun _ => Iff.rfl⟩
  · rintro ⟨hascending, hmem⟩
    exact names_eq_of_mem_iff s.ascending hascending fun name => (hmem name).symm

/-- Sets that are written in place, each in a cell. -/
abbrev Cells := List NameSet

namespace Cells

/-- The set that a reference leads to. Where there is no reference, nothing is found. -/
def deref (cells : Cells) : Option Nat → NameSet
  | none => ∅
  | some k => cells[k]?.getD ∅

/-- Writes a name into the set of a cell. -/
def put (cells : Cells) (k : Nat) (name : Text) : Cells := cells.set k ((cells.deref (some k)).insert name)

/-- Goes through names and writes those that pass a test into the set of a cell. The test is made on the cells as they
are by then. -/
def fill (k : Nat) (passes : Cells → Text → Bool) (names : List Text) (cells : Cells) : Cells :=
  names.foldl (fun now name => if passes now name then now.put k name else now) cells

theorem deref_of_isPrefix {cells more : Cells} {ref : Option Nat} (h : cells <+: more)
    (within : ∀ k, ref = some k → k < cells.length) : more.deref ref = cells.deref ref := by
  obtain ⟨new, rfl⟩ := h
  cases ref with
  | none => rfl
  | some k => rw [deref, deref, List.getElem?_append_left (within k rfl)]

theorem deref_last (cells : Cells) (s : NameSet) : deref (cells ++ [s]) (some cells.length) = s := by
  rw [deref, List.getElem?_concat_length, Option.getD_some]

theorem put_last (cells : Cells) (s : NameSet) (name : Text) :
    put (cells ++ [s]) cells.length name = cells ++ [s.insert name] := by
  rw [put, deref_last, List.set_append_right _ _ (Nat.le_refl _), Nat.sub_self, List.set_cons_zero]

/-- A test that does not look at the last cell is not disturbed by what is written there. -/
theorem fill_last {cells : Cells} {passes : Cells → Text → Bool} {kept : Text → Bool}
    (h : ∀ s name, passes (cells ++ [s]) name = kept name) (names : List Text) (s : NameSet) :
    fill cells.length passes names (cells ++ [s]) = cells ++ [(names.filter kept).foldl NameSet.insert s] := by
  induction names generalizing s with
  | nil => rfl
  | cons name names ih =>
    unfold fill at ih ⊢
    rw [List.foldl_cons, h, List.filter_cons]
    split
    · rw [put_last, ih, List.foldl_cons]
    · exact ih s

end Cells

/-- Cells and the registers that refer to them. A register may refer to none, and several may refer to the same. -/
structure Memory where
  cells : Cells
  refs : Text → Option Nat
  within : ∀ r k, refs r = some k → k < cells.length

namespace Memory

variable {m : Memory} {t : SetTerm} {cells : Cells} {ref : Option Nat}

/-- The sets in the registers, as they are read. -/
def view (m : Memory) : SetRegisters := fun r => m.cells.deref (m.refs r)

/-- Fills a new cell, which holds a set to begin with. -/
def filled (m : Memory) (s : NameSet) (passes : Cells → Text → Bool) (names : List Text) : Cells :=
  Cells.fill m.cells.length passes names (m.cells ++ [s])

/-- How a set comes to be in the cells, and the reference to it. A union begins with a copy of its first operand, which
is empty if the register refers to no set. The names of an operand are gone through in any order, and where the other
operand decides on them, it is read again at each. -/
inductive Builds (m : Memory) : SetTerm → Cells → Option Nat → Prop where
  | absent : Builds m .absent m.cells none
  | listed (names : List Text) : Builds m (.listed names) (m.filled ∅ (fun _ _ => true) names) (some m.cells.length)
  | union {a b : Text} {order : List Text} (h : order.Perm (m.view b).names) :
    Builds m (.union a b) (m.filled (m.view a) (fun _ _ => true) order) (some m.cells.length)
  | inter {a b : Text} {order : List Text} (h : order.Perm (m.view a).names) :
    Builds m (.inter a b) (m.filled ∅ (fun now name => (now.deref (m.refs b)).contains name) order)
      (some m.cells.length)
  | diff {a b : Text} {order : List Text} (h : order.Perm (m.view a).names) :
    Builds m (.diff a b) (m.filled ∅ (fun now name => !(now.deref (m.refs b)).contains name) order)
      (some m.cells.length)

/-- Builds a set and lets the target refer to it. -/
def Steps (m : Memory) (s : SetStep) (next : Memory) : Prop :=
  ∃ ref, m.Builds s.term next.cells ref ∧ next.refs = Function.update m.refs s.target ref

inductive Runs : Memory → List SetStep → Memory → Prop where
  | done (m : Memory) : Runs m [] m
  | step {m next last : Memory} {s : SetStep} {program : List SetStep} (h : m.Steps s next)
    (rest : Runs next program last) : Runs m (s :: program) last

theorem deref_new (m : Memory) (s : NameSet) (r : Text) : Cells.deref (m.cells ++ [s]) (m.refs r) = m.view r :=
  Cells.deref_of_isPrefix (List.prefix_append _ _) (m.within r)

/-- What is left in the new cell does not depend on the order, only on which names were gone through. -/
theorem filled_eq {s final : NameSet} {passes : Cells → Text → Bool} {names : List Text} (kept : Text → Bool)
    (h : ∀ s name, passes (m.cells ++ [s]) name = kept name)
    (hfinal : ∀ name, name ∈ final ↔ name ∈ s ∨ name ∈ names ∧ kept name = true) :
    m.filled s passes names = m.cells ++ [final] := by
  have hset : (names.filter kept).foldl NameSet.insert s = final := by
    refine NameSet.ext fun name => ?_
    rw [NameSet.mem_foldl_insert, List.mem_filter, hfinal]
  rw [filled, Cells.fill_last h, hset]

/-- What is built is the value of the term, in a cell that no register refers to. -/
theorem Builds.result (h : m.Builds t cells ref) :
    cells = m.cells ∧ ref = none ∧ t.value m.view = ∅ ∨
      cells = m.cells ++ [t.value m.view] ∧ ref = some m.cells.length := by
  cases h with
  | absent => exact .inl ⟨rfl, rfl, rfl⟩
  | listed names =>
    refine .inr ⟨filled_eq (fun _ => true) (fun _ _ => rfl) fun name => ?_, rfl⟩
    simp [SetTerm.value]
  | union h =>
    refine .inr ⟨filled_eq (fun _ => true) (fun _ _ => rfl) fun name => ?_, rfl⟩
    simp [SetTerm.value, h.mem_iff, ← NameSet.mem_def]
  -- the test reads `b` while the new cell is written; `b` lies before that cell, even where it is the target
  | @inter a b order h =>
    have htest : ∀ s name, (Cells.deref (m.cells ++ [s]) (m.refs b)).contains name = (m.view b).contains name :=
      fun s name => by rw [deref_new]
    refine .inr ⟨filled_eq _ htest fun name => ?_, rfl⟩
    simp [SetTerm.value, h.mem_iff, ← NameSet.mem_def]
  | @diff a b order h =>
    have htest : ∀ s name, (!(Cells.deref (m.cells ++ [s]) (m.refs b)).contains name) = !(m.view b).contains name :=
      fun s name => by rw [deref_new]
    refine .inr ⟨filled_eq _ htest fun name => ?_, rfl⟩
    simp [SetTerm.value, h.mem_iff, ← NameSet.mem_def, NameSet.contains]

theorem Builds.isPrefix (h : m.Builds t cells ref) : m.cells <+: cells := by
  obtain ⟨rfl, _⟩ | ⟨rfl, _⟩ := h.result
  · exact List.prefix_rfl
  · exact List.prefix_append _ _

theorem Builds.within (h : m.Builds t cells ref) (k : Nat) (hk : ref = some k) : k < cells.length := by
  obtain ⟨_, rfl, _⟩ | ⟨rfl, rfl⟩ := h.result
  · cases hk
  · cases hk
    rw [List.length_append]
    exact Nat.lt_succ_self _

theorem Builds.deref (h : m.Builds t cells ref) : cells.deref ref = t.value m.view := by
  obtain ⟨_, rfl, hvalue⟩ | ⟨rfl, rfl⟩ := h.result
  · exact hvalue.symm
  · exact Cells.deref_last _ _

theorem exists_builds (m : Memory) (t : SetTerm) : ∃ cells ref, m.Builds t cells ref := by
  cases t with
  | absent => exact ⟨_, _, .absent⟩
  | listed names => exact ⟨_, _, .listed names⟩
  | union a b => exact ⟨_, _, .union (.refl _)⟩
  | inter a b => exact ⟨_, _, .inter (.refl _)⟩
  | diff a b => exact ⟨_, _, .diff (.refl _)⟩

theorem exists_steps (m : Memory) (s : SetStep) : ∃ next, m.Steps s next := by
  obtain ⟨cells, ref, h⟩ := m.exists_builds s.term
  refine ⟨⟨cells, Function.update m.refs s.target ref, fun r k hk => ?_⟩, ref, h, rfl⟩
  by_cases hr : r = s.target
  · subst hr
    rw [Function.update_self] at hk
    exact h.within k hk
  · rw [Function.update_of_ne hr] at hk
    exact Nat.lt_of_lt_of_le (m.within r k hk) h.isPrefix.length_le

theorem Steps.view_eq {s : SetStep} {next : Memory} (h : m.Steps s next) : next.view = m.view.step s := by
  obtain ⟨ref, hbuilt, hrefs⟩ := h
  have hold : next.cells.deref ∘ m.refs = m.view :=
    funext fun r => Cells.deref_of_isPrefix hbuilt.isPrefix (m.within r)
  calc
    next.view = next.cells.deref ∘ Function.update m.refs s.target ref := by rw [← hrefs]; rfl
    _ = Function.update (next.cells.deref ∘ m.refs) s.target (next.cells.deref ref) := Function.comp_update ..
    _ = m.view.step s := by rw [hold, hbuilt.deref]; rfl

theorem Steps.refs_of_ne {s : SetStep} {next : Memory} (h : m.Steps s next) {r : Text} (hr : s.target ≠ r) :
    next.refs r = m.refs r := by
  obtain ⟨ref, _, hrefs⟩ := h
  rw [hrefs, Function.update_of_ne hr.symm]

theorem exists_runs (m : Memory) (program : List SetStep) : ∃ last, m.Runs program last := by
  induction program generalizing m with
  | nil => exact ⟨m, .done m⟩
  | cons s program ih =>
    obtain ⟨next, hstep⟩ := m.exists_steps s
    obtain ⟨last, hrest⟩ := ih next
    exact ⟨last, .step hstep hrest⟩

theorem Runs.view_eq {program : List SetStep} {last : Memory} (h : m.Runs program last) :
    last.view = m.view.run program := by
  induction h with
  | done => rfl
  | step hstep _ ih =>
    rw [ih, hstep.view_eq]
    rfl

/-- No set that is there is written to. -/
theorem Runs.isPrefix {program : List SetStep} {last : Memory} (h : m.Runs program last) : m.cells <+: last.cells := by
  induction h with
  | done => exact List.prefix_rfl
  | step hstep _ ih =>
    obtain ⟨_, hbuilt, _⟩ := hstep
    exact hbuilt.isPrefix.trans ih

theorem Runs.refs_of_untargeted {program : List SetStep} {last : Memory} (h : m.Runs program last) {r : Text}
    (hr : ∀ s ∈ program, s.target ≠ r) : last.refs r = m.refs r := by
  induction h with
  | done => rfl
  | step hstep _ ih =>
    obtain ⟨hs, hrest⟩ := List.forall_mem_cons.mp hr
    rw [ih hrest, hstep.refs_of_ne hs]

end Memory

/-- After any program, and so after each step of one, a register has a name exactly if the name is in the set that the
same operations give in mathematics. What it lists is the one ascending list of those names, so registers with the same
members list the same. Steps with other targets leave a register as it was.

Where sets are written in place every program has a run. However its operands are gone through, the registers then read
as above, no set that was there has been written to, and a register that is no target refers to what it referred to. -/
theorem SetRegisters.run_computes_sets (start : SetRegisters) (program : List SetStep) :
    let after := start.run program
    let sets := start.contents.run program
    (∀ r name, (after r).contains name = true ↔ name ∈ sets r) ∧
    (∀ r names, (after r).names = names ↔ names.Pairwise (· < ·) ∧ ∀ name, name ∈ names ↔ name ∈ sets r) ∧
    (∀ r r', (∀ name, (after r).contains name = (after r').contains name) → (after r).names = (after r').names) ∧
    (∀ later r, (∀ s ∈ later, s.target ≠ r) → start.run (program ++ later) r = after r) ∧
    ∀ m : Memory, m.view = start →
      (∃ last, m.Runs program last) ∧
      ∀ last, m.Runs program last → last.view = after ∧ m.cells <+: last.cells ∧
        ∀ r, (∀ s ∈ program, s.target ≠ r) → last.refs r = m.refs r := by
  intro after sets
  refine ⟨?_, ?_, ?_, ?_, ?_⟩
  · intro r name
    rw [NameSet.contains_iff]
    exact mem_run_iff
  · intro r names
    rw [NameSet.names_eq_iff]
    simp only [after, sets, mem_run_iff]
  · intro r r' h
    have hsame : after r = after r' := by
      refine NameSet.ext fun name => ?_
      rw [← NameSet.contains_iff, h, NameSet.contains_iff]
    rw [hsame]
  · intro later r h
    rw [run, List.foldl_append]
    exact run_of_untargeted h after
  · rintro m rfl
    exact ⟨m.exists_runs program, fun last h => ⟨h.view_eq, h.isPrefix, fun r => h.refs_of_untargeted⟩⟩

/-- No cells, and no register refers to one. -/
def Memory.blank : Memory := ⟨[], fun _ => none, fun _ _ h => by cases h⟩

/-- Copies a set out of `x` before `x` is changed, with a name that is listed twice, registers that are their own
operands, and `n`, which holds no set when it is first read. -/
def tangled : List SetStep := [
  ⟨text "x", .listed [text "b", text "a", text "c", text "a"]⟩,
  ⟨text "z", .union (text "n") (text "x")⟩,
  ⟨text "y", .listed [text "d", text "c"]⟩,
  ⟨text "x", .diff (text "x") (text "y")⟩,
  ⟨text "y", .union (text "y") (text "z")⟩,
  ⟨text "n", .inter (text "y") (text "z")⟩]

theorem tangled_computes_sets :
    ∃ last, Memory.blank.Runs tangled last ∧
      (last.view (text "x")).names = [text "a", text "b"] ∧
      (last.view (text "y")).names = [text "a", text "b", text "c", text "d"] ∧
      (last.view (text "z")).names = [text "a", text "b", text "c"] ∧
      (last.view (text "n")).names = (last.view (text "z")).names ∧
      Memory.blank.view.run tangled (text "z") = Memory.blank.view.run (tangled.take 2) (text "z") := by
  obtain ⟨_, _, hsame, _, hmemory⟩ := SetRegisters.run_computes_sets Memory.blank.view tangled
  obtain ⟨_, _, _, hkept, _⟩ := SetRegisters.run_computes_sets Memory.blank.view (tangled.take 2)
  obtain ⟨⟨last, hrun⟩, hlast⟩ := hmemory Memory.blank rfl
  have hview := (hlast last hrun).1
  have hn : Memory.blank.view.run tangled (text "n") = Memory.blank.view.run tangled (text "z") := by decide
  refine ⟨last, hrun, ?_, ?_, ?_, ?_, ?_⟩
  · rw [hview]
    decide
  · rw [hview]
    decide
  · rw [hview]
    decide
  · rw [hview]
    exact hsame _ _ fun name => by rw [hn]
  · exact hkept (tangled.drop 2) (text "z") (by decide)

end SignalAudit
