import Mathlib.Algebra.BigOperators.Group.Finset.Basic
import Mathlib.Data.Finset.Card
import SignalAudit.Proofs.ReportPartition

/-!
The tally of a report, counted in the three sets it cross-references. Every name of their union has one standing, so
the union is as large as its parts by standing together, and the tally leaves out the part that is fine.
-/

namespace SignalAudit

namespace NameSet

theorem nodup_of_ascending {names : List Text} (h : names.Pairwise (· < ·)) : names.Nodup := by
  refine h.imp ?_
  intro a b hlt he
  exact Text.lt_irrefl b (he ▸ hlt)

/-- The members, as a finite set. -/
def toFinset (s : NameSet) : Finset Text := ⟨s.names, nodup_of_ascending s.ascending⟩

@[simp]
theorem mem_toFinset {s : NameSet} {name : Text} : name ∈ s.toFinset ↔ name ∈ s := Iff.rfl

end NameSet

namespace Standing

/-- In all three sets. -/
def fine : Standing := ⟨true, true, true⟩

/-- In all but the connections. -/
def unheard : Standing := ⟨true, true, false⟩

theorem mem_fine_cons_reported_iff {s : Standing} :
    s ∈ fine :: reported ↔ s.declared = true ∨ s.emitted = true ∨ s.connected = true := by
  rcases s with ⟨_ | _, _ | _, _ | _⟩ <;> decide

end Standing

namespace Report

variable {u : Usage} {o : ReportOptions}

/-- The names that count as connected. -/
def connectedNames (u : Usage) (o : ReportOptions) : Finset Text :=
  if o.includeCompat then u.connected.toFinset ∪ u.compatConnected.toFinset else u.connected.toFinset

theorem mem_connectedNames {name : Text} : name ∈ connectedNames u o ↔ Connects u o name := by
  unfold connectedNames Connects
  cases o.includeCompat <;> simp

/-- The names that a report is about. -/
def allNames (u : Usage) (o : ReportOptions) : Finset Text :=
  u.declared.toFinset ∪ u.emitted.toFinset ∪ connectedNames u o

theorem mem_allNames_iff {name : Text} :
    name ∈ allNames u o ↔ standing u o name ∈ Standing.fine :: Standing.reported := by
  rw [Standing.mem_fine_cons_reported_iff]
  simp [allNames, standing, mem_connectedNames]

/-- How many names have a standing. -/
def population (u : Usage) (o : ReportOptions) (s : Standing) : Nat :=
  ((allNames u o).filter fun name => standing u o name = s).card

theorem population_eq_card {s : Standing} (hs : s ∈ Standing.fine :: Standing.reported) {part : Finset Text}
    (hpart : ∀ name, name ∈ part ↔ standing u o name = s) : population u o s = part.card := by
  unfold population
  congr 1
  ext name
  rw [Finset.mem_filter, hpart]
  constructor
  · rintro ⟨_, h⟩
    exact h
  · intro h
    refine ⟨?_, h⟩
    rw [mem_allNames_iff, h]
    exact hs

theorem population_fine :
    population u o .fine = (u.declared.toFinset ∩ u.emitted.toFinset ∩ connectedNames u o).card := by
  apply population_eq_card (by decide)
  intro name
  simp [standing, Standing.fine, mem_connectedNames]

theorem population_unheard :
    population u o .unheard = ((u.declared.toFinset ∩ u.emitted.toFinset) \ connectedNames u o).card := by
  apply population_eq_card (by decide)
  intro name
  simp [standing, Standing.unheard, mem_connectedNames, and_assoc]

/-- All names are as many as there are of each standing together. -/
theorem card_allNames (u : Usage) (o : ReportOptions) :
    (allNames u o).card = ((Standing.fine :: Standing.reported).map (population u o)).foldl (· + ·) 0 := by
  have hnodup : (Standing.fine :: Standing.reported).Nodup := by decide
  have hmaps : Set.MapsTo (standing u o) (allNames u o) (Standing.fine :: Standing.reported).toFinset := by
    intro name hname
    exact List.mem_toFinset.mpr (mem_allNames_iff.mp hname)
  rw [Finset.card_eq_sum_card_fiberwise hmaps, List.sum_toFinset _ hnodup, List.sum_eq_foldl]
  rfl

theorem length_eq_population {s : Standing} (hs : s ∈ Standing.reported) {g : Group}
    (hg : g.Reports (standing u o) s) : g.signals.length = population u o s := by
  have hpart : ∀ name, name ∈ g.signals.toFinset ↔ standing u o name = s := by
    intro name
    rw [List.mem_toFinset, hg.mem name]
  rw [population_eq_card (List.mem_cons_of_mem _ hs) hpart,
    List.toFinset_card_of_nodup (NameSet.nodup_of_ascending hg.ascending)]

theorem crossReference_informational (declared emitted connected : NameSet) :
    List.Forall₂ (fun s g => g.informational = decide (s = Standing.unheard)) Standing.reported
      (crossReference declared emitted connected) := by
  simp [crossReference, Standing.reported, Standing.unheard]

/-- The findings of each group are the names of its standing, if they count. -/
theorem findings_eq_populations (u : Usage) (o : ReportOptions) :
    (build u o).groups.map (·.findings o.countInformational) = Standing.reported.map fun s =>
      if s = .unheard ∧ o.countInformational = false then 0 else population u o s := by
  have hreported := (List.forall₂_and_left _ _).mpr ⟨fun s hs => hs, build_reports u o⟩
  have hinformational := crossReference_informational u.declared u.emitted (connections u o)
  -- The groups stand in the order of their standings, so the two lists agree place by place.
  rw [eq_comm, ← List.forall₂_eq_eq_eq, List.forall₂_map_left_iff, List.forall₂_map_right_iff]
  refine List.Forall₂.mp ?_ hreported hinformational
  rintro s g ⟨hs, hg⟩ hinfo
  simp [Group.findings, hinfo, length_eq_population hs hg]

theorem total_eq_foldl (u : Usage) (o : ReportOptions) :
    (build u o).total = ((build u o).groups.map (·.findings o.countInformational)).foldl (· + ·) 0 := by
  rw [List.foldl_map]
  rfl

/-- The tally, with the names it leaves out, makes up all names. -/
theorem total_add_left_out (u : Usage) (o : ReportOptions) :
    (build u o).total + (u.declared.toFinset ∩ u.emitted.toFinset ∩ connectedNames u o).card +
      (if o.countInformational then 0 else ((u.declared.toFinset ∩ u.emitted.toFinset) \ connectedNames u o).card) =
        (allNames u o).card := by
  rw [card_allNames, total_eq_foldl, findings_eq_populations, ← population_fine, ← population_unheard]
  cases o.countInformational <;> simp [Standing.reported, Standing.unheard] <;> omega

/-- The names that are no findings. -/
def harmless (u : Usage) (o : ReportOptions) : Finset Text :=
  if o.countInformational then u.declared.toFinset ∩ u.emitted.toFinset ∩ connectedNames u o
  else u.declared.toFinset ∩ u.emitted.toFinset

theorem total_add_harmless (u : Usage) (o : ReportOptions) :
    (build u o).total + (harmless u o).card = (allNames u o).card := by
  have hall := total_add_left_out u o
  have hsplit := Finset.card_inter_add_card_sdiff (u.declared.toFinset ∩ u.emitted.toFinset) (connectedNames u o)
  unfold harmless
  cases hc : o.countInformational <;> simp only [hc, Bool.false_eq_true, ↓reduceIte] at hall ⊢ <;> omega

theorem harmless_subset_allNames (u : Usage) (o : ReportOptions) : harmless u o ⊆ allNames u o := by
  unfold harmless allNames
  split <;> grind

/-- A report passes if all names are harmless. -/
theorem passes_iff_subset : (build u o).failed = false ↔ allNames u o ⊆ harmless u o := by
  have hall := total_add_harmless u o
  have hsub := harmless_subset_allNames u o
  have hfailed : (build u o).failed = false ↔ (build u o).total = 0 := by simp [failed]
  rw [hfailed]
  constructor
  · intro hzero
    have heq : harmless u o = allNames u o := Finset.eq_of_subset_of_card_le hsub (by omega)
    exact heq.ge
  · intro h
    have heq : harmless u o = allNames u o := hsub.antisymm h
    rw [heq] at hall
    omega

theorem passes_counting_iff (h : o.countInformational = true) : (build u o).failed = false ↔
    u.declared.toFinset = u.emitted.toFinset ∧ u.emitted.toFinset = connectedNames u o := by
  rw [passes_iff_subset, allNames, harmless, if_pos h]
  simp only [Finset.subset_inter_iff, Finset.union_subset_iff]
  constructor
  · rintro ⟨⟨⟨⟨_, hed⟩, _⟩, ⟨hde, _⟩, hce⟩, ⟨_, hec⟩, _⟩
    exact ⟨hde.antisymm hed, hec.antisymm hce⟩
  · rintro ⟨hde, hec⟩
    simp [hde, hec]

theorem passes_lenient_iff (h : o.countInformational = false) : (build u o).failed = false ↔
    u.declared.toFinset = u.emitted.toFinset ∧ connectedNames u o ⊆ u.declared.toFinset := by
  have hlenient : ¬ o.countInformational = true := by simp [h]
  rw [passes_iff_subset, allNames, harmless, if_neg hlenient]
  simp only [Finset.subset_inter_iff, Finset.union_subset_iff]
  constructor
  · rintro ⟨⟨⟨_, hed⟩, hcd⟩, ⟨hde, _⟩, _⟩
    exact ⟨hde.antisymm hed, hcd⟩
  · rintro ⟨hde, hcd⟩
    rw [hde] at hcd
    simp [hde, hcd]

/-- The tally of a report, and what it takes to pass: if every group counts, the three sets must be the same; if the
signals that only lack a connection do not count, the same must be declared and emitted, and nothing else connected. -/
theorem build_tallies (u : Usage) (o : ReportOptions) :
    let declared := u.declared.toFinset
    let emitted := u.emitted.toFinset
    let connected := connectedNames u o
    ((build u o).total : Int) = (declared ∪ emitted ∪ connected).card - (declared ∩ emitted ∩ connected).card -
      (if o.countInformational then 0 else ((declared ∩ emitted) \ connected).card : Nat) ∧
    (o.countInformational = true →
      ((build u o).failed = false ↔ declared = emitted ∧ emitted = connected)) ∧
    (o.countInformational = false →
      ((build u o).failed = false ↔ declared = emitted ∧ connected ⊆ declared)) := by
  have hall := total_add_left_out u o
  rw [allNames] at hall
  refine ⟨?_, passes_counting_iff, passes_lenient_iff⟩
  omega

/-- What is declared is emitted, but one signal is not heard of. -/
def halfHeard : Usage where
  declared := .ofList [text "done", text "late"]
  emitted := .ofList [text "late", text "done"]
  connected := .ofList [text "done"]

theorem halfHeard_tallied :
    (build halfHeard ⟨false, true, false⟩).total = 1 ∧ (build halfHeard ⟨false, true, false⟩).failed = true ∧
    (build halfHeard ⟨false, false, false⟩).failed = false := by
  refine ⟨by decide, ?_, ?_⟩
  · have hne : ¬ halfHeard.emitted.toFinset = connectedNames halfHeard ⟨false, true, false⟩ := by decide
    exact Bool.of_not_eq_false fun h => hne (((build_tallies halfHeard ⟨false, true, false⟩).2.1 rfl).mp h).2
  · exact ((build_tallies halfHeard ⟨false, false, false⟩).2.2 rfl).mpr (by decide)

end Report

end SignalAudit
