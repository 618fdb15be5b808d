import SignalAudit.Proofs.FileClassification
import SignalAudit.Proofs.ReportTally

/-!
What one more match does to a report. It is about one name, and the standing of every other name stays as it was; so at
most that name moves from one group to another, or into one, or out of one. A compat connection that does not count
moves nothing.
-/

namespace SignalAudit

namespace NameSet

theorem toFinset_insert (s : NameSet) (name : Text) : (s.insert name).toFinset = Insert.insert name s.toFinset := by
  ext x
  simp

theorem size_insert (s : NameSet) (name : Text) : (s.insert name).size = s.size + if name ∈ s then 0 else 1 := by
  have hsize : ∀ t : NameSet, t.toFinset.card = t.size := fun _ => rfl
  rw [← hsize, ← hsize, toFinset_insert]
  by_cases h : name ∈ s
  · rw [if_pos h, Finset.insert_eq_of_mem (mem_toFinset.mpr h), Nat.add_zero]
  · rw [if_neg h, Finset.card_insert_of_notMem (mt mem_toFinset.mp h)]

end NameSet

namespace Standing

/-- The standing of a name after a match of some kind, where compat connections count or not. -/
def after (s : Standing) (kind : Kind) (compat : Bool) : Standing :=
  match kind with
  | .declaration => { s with declared := true }
  | .emission => { s with emitted := true }
  | .connection => { s with connected := true }
  | .compatConnection => { s with connected := s.connected || compat }
  | .noMatch | .unknown => s

/-- The names of this standing are findings. -/
def Counts (countInformational : Bool) (s : Standing) : Prop :=
  s ∈ reported ∧ (s = unheard → countInformational = true)

end Standing

namespace Report

variable {u : Usage} {o : ReportOptions}

/-- The group at a position holds a name. -/
def Lists (r : Report) (i : Nat) (name : Text) : Prop := ∃ g, r.groups[i]? = some g ∧ name ∈ g.signals

theorem build_lists_iff {i : Nat} {name : Text} :
    (build u o).Lists i name ↔ Standing.reported[i]? = some (standing u o name) := by
  rw [← standingIn_connections]
  exact mem_signals_at_iff

theorem standing_add_self (u : Usage) (m : Match) (o : ReportOptions) :
    standing (u.add m) o m.name = (standing u o m.name).after m.kind o.includeCompat := by
  obtain ⟨kind, name⟩ := m
  have hsaid : ∀ s : NameSet, name ∈ s.insert name := fun s => NameSet.mem_insert.mpr (.inl rfl)
  cases kind with
  | noMatch | unknown => rfl
  | declaration => exact congrArg (fun d => Standing.mk d _ _) (decide_eq_true (hsaid u.declared))
  | emission => exact congrArg (fun e => Standing.mk _ e _) (decide_eq_true (hsaid u.emitted))
  | connection => exact congrArg (Standing.mk _ _) (decide_eq_true (.inl (hsaid u.connected)))
  | compatConnection =>
    have hconnects : Connects (u.add ⟨.compatConnection, name⟩) o name ↔
        Connects u o name ∨ o.includeCompat = true := by
      simp only [Connects, Usage.add, hsaid]
      tauto
    refine congrArg (Standing.mk _ _) ?_
    rw [Bool.eq_iff_iff]
    simpa [standing] using hconnects

/-- A match leaves the standing of every name alone but its own. -/
theorem standing_add_of_ne (u : Usage) {m : Match} (o : ReportOptions) {name : Text} (h : name ≠ m.name) :
    standing (u.add m) o name = standing u o name := by
  have hnames : ∀ k : Kind, k.Kept → (name ∈ (u.add m).names k ↔ name ∈ u.names k) := by
    intro k hk
    rw [Usage.mem_names_add hk]
    exact or_iff_left fun hm => h (congrArg Match.name hm)
  rw [standing, standing, Standing.mk.injEq, decide_eq_decide, decide_eq_decide, decide_eq_decide, Connects, Connects]
  refine ⟨hnames .declaration ?_, hnames .emission ?_,
    or_congr (hnames .connection ?_) (and_congr_right fun _ => hnames .compatConnection ?_)⟩ <;>
    exact ⟨by decide, by decide⟩

/-- The names that are findings. -/
def findings (u : Usage) (o : ReportOptions) : Finset Text := allNames u o \ harmless u o

theorem total_eq_card_findings (u : Usage) (o : ReportOptions) : (build u o).total = (findings u o).card := by
  have hall := total_add_harmless u o
  rw [findings, Finset.card_sdiff_of_subset (harmless_subset_allNames u o)]
  omega

theorem mem_harmless_iff {name : Text} : name ∈ harmless u o ↔
    standing u o name = .fine ∨ standing u o name = .unheard ∧ o.countInformational = false := by
  unfold harmless
  cases o.countInformational with
  | true => simp [standing, Standing.fine, mem_connectedNames]
  | false => by_cases hc : Connects u o name <;> simp [standing, Standing.fine, Standing.unheard, hc]

/-- Whether a name is a finding is up to its standing. -/
theorem mem_findings_iff {name : Text} :
    name ∈ findings u o ↔ (standing u o name).Counts o.countInformational := by
  have hfine : Standing.fine ∉ Standing.reported := by decide
  rw [findings, Finset.mem_sdiff, mem_allNames_iff, mem_harmless_iff, List.mem_cons, Standing.Counts]
  constructor
  · rintro ⟨hmem, hharmless⟩
    refine ⟨hmem.resolve_left fun h => hharmless (.inl h), fun h => ?_⟩
    exact Bool.of_not_eq_false fun hc => hharmless (.inr ⟨h, hc⟩)
  · rintro ⟨hmem, hcount⟩
    refine ⟨.inr hmem, ?_⟩
    rintro (h | ⟨h, hc⟩)
    · exact hfine (h ▸ hmem)
    · rw [hcount h] at hc
      cases hc

theorem card_le_of_agree {s t : Finset Text} {name : Text} (h : ∀ x, x ≠ name → (x ∈ s ↔ x ∈ t)) :
    s.card ≤ t.card + 1 := by
  have hsub : s ⊆ Insert.insert name t := by
    intro x hx
    by_cases hne : x = name
    · exact Finset.mem_insert.mpr (.inl hne)
    · exact Finset.mem_insert_of_mem ((h x hne).mp hx)
  exact (Finset.card_le_card hsub).trans (Finset.card_insert_le ..)

/-- Where compat connections do not count, one more of them changes no connection that does. -/
theorem connections_add_compat {m : Match} (hkind : m.kind = .compatConnection) (hcompat : o.includeCompat = false) :
    connections (u.add m) o = connections u o := by
  simp [connections, Usage.add, hkind, hcompat]

/-- One more match, and what it does to the report. Any other name is in the same groups as before; the name of the
match is in the group of its new standing. The tally changes by one at most. A compat connection that does not count
changes no group and no tally, and adds one to those that are left out unless its name was among them. -/
theorem build_add_moves_one (u : Usage) (m : Match) (o : ReportOptions) :
    (∀ i name, name ≠ m.name → ((build (u.add m) o).Lists i name ↔ (build u o).Lists i name)) ∧
      (∀ i, (build (u.add m) o).Lists i m.name ↔
        Standing.reported[i]? = some ((standing u o m.name).after m.kind o.includeCompat)) ∧
      ((build (u.add m) o).total ≤ (build u o).total + 1 ∧ (build u o).total ≤ (build (u.add m) o).total + 1) ∧
      (m.kind = .compatConnection → o.includeCompat = false →
        (build (u.add m) o).groups = (build u o).groups ∧ (build (u.add m) o).total = (build u o).total ∧
        (build (u.add m) o).ignoredCompat =
          (build u o).ignoredCompat + if m.name ∈ u.compatConnected then 0 else 1) := by
  have hother : ∀ name, name ≠ m.name → standing (u.add m) o name = standing u o name := by
    intro name hne
    exact standing_add_of_ne u o hne
  have hfindings : ∀ name, name ≠ m.name → (name ∈ findings (u.add m) o ↔ name ∈ findings u o) := by
    intro name hne
    rw [mem_findings_iff, mem_findings_iff, hother name hne]
  refine ⟨?_, ?_, ?_, ?_⟩
  · intro i name hne
    rw [build_lists_iff, build_lists_iff, hother name hne]
  · intro i
    rw [build_lists_iff, standing_add_self]
  · rw [total_eq_card_findings, total_eq_card_findings]
    exact ⟨card_le_of_agree hfindings, card_le_of_agree fun name hne => (hfindings name hne).symm⟩
  · intro hkind hcompat
    have hdeclared : (u.add m).declared = u.declared := by simp [Usage.add, hkind]
    have hemitted : (u.add m).emitted = u.emitted := by simp [Usage.add, hkind]
    have hleft : (u.add m).compatConnected = u.compatConnected.insert m.name := by simp [Usage.add, hkind]
    refine ⟨?_, ?_, ?_⟩
    · simp only [build, hdeclared, hemitted, connections_add_compat hkind hcompat]
    · simp only [build, hdeclared, hemitted, connections_add_compat hkind hcompat]
    · simp only [build, hcompat, Bool.false_eq_true, ↓reduceIte, hleft]
      exact NameSet.size_insert u.compatConnected m.name

/-- An emission takes a signal from one group to another, and a compat connection is only counted as left out. -/
theorem assorted_moves_one :
    (build assorted ⟨false, true, false⟩).Lists 4 (text "idle") ∧
    ¬ (build (assorted.add ⟨.emission, text "idle"⟩) ⟨false, true, false⟩).Lists 4 (text "idle") ∧
    (build (assorted.add ⟨.emission, text "deaf"⟩) ⟨false, true, false⟩).Lists 4 (text "idle") ∧
    (build (assorted.add ⟨.compatConnection, text "idle"⟩) ⟨false, true, false⟩).groups =
      (build assorted ⟨false, true, false⟩).groups ∧
    (build (assorted.add ⟨.compatConnection, text "idle"⟩) ⟨false, true, false⟩).ignoredCompat = 3 ∧
    (build (assorted.add ⟨.compatConnection, text "deaf"⟩) ⟨false, true, false⟩).ignoredCompat = 2 := by
  have hidle : (build assorted ⟨false, true, false⟩).Lists 4 (text "idle") := build_lists_iff.mpr (by decide)
  obtain ⟨_, hmoved, _⟩ := build_add_moves_one assorted ⟨.emission, text "idle"⟩ ⟨false, true, false⟩
  obtain ⟨hkept, _⟩ := build_add_moves_one assorted ⟨.emission, text "deaf"⟩ ⟨false, true, false⟩
  obtain ⟨_, _, _, hnew⟩ := build_add_moves_one assorted ⟨.compatConnection, text "idle"⟩ ⟨false, true, false⟩
  obtain ⟨_, _, _, hold⟩ := build_add_moves_one assorted ⟨.compatConnection, text "deaf"⟩ ⟨false, true, false⟩
  refine ⟨hidle, ?_, (hkept 4 _ (by decide)).mpr hidle, (hnew rfl rfl).1, (hnew rfl rfl).2.2.trans (by decide),
    (hold rfl rfl).2.2.trans (by decide)⟩
  rw [hmoved]
  decide

end Report

end SignalAudit
