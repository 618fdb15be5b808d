import Mathlib.Data.List.Forall2
import Mathlib.Data.List.Nodup
import SignalAudit.Report

/-!
The groups of a report partition the signals that are not fine. A signal's standing says which of the three sets it
belongs to. Each group is for one standing, says so in its format, and holds the signals that have it.
-/

namespace SignalAudit

/-- Which of the three sets a signal belongs to. -/
structure Standing where
  declared : Bool
  emitted : Bool
  connected : Bool
  deriving DecidableEq

namespace Standing

/-- What the report says of a signal: the sets it belongs to, and those it is missing from. -/
def wording (s : Standing) : Text :=
  text "Signal %s is " ++
    (text " and ").intercalate (
      (if s.emitted then [text "emitted"] else []) ++ (if s.declared then [text "added"] else []) ++
      (if s.connected then [text "connected"] else [])) ++
    text " but never " ++
    (text " or ").intercalate (
      (if s.declared then [] else [text "added"]) ++ (if s.emitted then [] else [text "emitted"]) ++
      (if s.connected then [] else [text "connected"])) ++
    if s.declared && s.emitted then text ", this is just information message which you can ignore." else []

/-- The standings that are reported, in the order of the report. -/
def reported : List Standing :=
  [⟨false, true, false⟩, ⟨false, true, true⟩, ⟨true, true, false⟩, ⟨true, false, false⟩, ⟨true, false, true⟩,
    ⟨false, false, true⟩]

theorem mem_reported_iff {s : Standing} : s ∈ reported ↔
    (s.declared = true ∨ s.emitted = true ∨ s.connected = true) ∧
      ¬ (s.declared = true ∧ s.emitted = true ∧ s.connected = true) := by
  rcases s with ⟨_ | _, _ | _, _ | _⟩ <;> decide

theorem nodup_reported : reported.Nodup := by decide

/-- The report has different words for different standings. -/
theorem wording_injOn {s t : Standing} (hs : s ∈ reported) (ht : t ∈ reported) (h : s.wording = t.wording) :
    s = t := by
  have hall : ∀ s ∈ reported, ∀ t ∈ reported, s.wording = t.wording → s = t := by decide +kernel
  exact hall s hs t ht h

end Standing

/-- The standing of a name in three sets. -/
def standingIn (declared emitted connected : NameSet) (name : Text) : Standing :=
  ⟨decide (name ∈ declared), decide (name ∈ emitted), decide (name ∈ connected)⟩

/-- A group reports the names of one standing: it says so, and it holds them in ascending order. -/
structure Group.Reports (standing : Text → Standing) (s : Standing) (g : Group) : Prop where
  format : g.format = s.wording
  mem : ∀ name, name ∈ g.signals ↔ standing name = s
  ascending : g.signals.Pairwise (· < ·)

namespace Report

theorem group_reports {declared emitted connected signals : NameSet} {s : Standing} {format : Text}
    (informational : Bool) (hf : format = s.wording)
    (hm : ∀ name, name ∈ signals ↔ decide (name ∈ declared) = s.declared ∧ decide (name ∈ emitted) = s.emitted ∧
      decide (name ∈ connected) = s.connected) :
    Group.Reports (standingIn declared emitted connected) s ⟨format, informational, signals.names⟩ := by
  refine ⟨hf, fun name => ?_, signals.ascending⟩
  rw [← NameSet.mem_def, hm name, standingIn, Standing.mk.injEq]

theorem crossReference_reports (declared emitted connected : NameSet) :
    List.Forall₂ (Group.Reports (standingIn declared emitted connected)) Standing.reported
      (crossReference declared emitted connected) := by
  refine .cons (group_reports _ (by decide) fun name => ?_) <| .cons (group_reports _ (by decide) fun name => ?_) <|
    .cons (group_reports _ (by decide) fun name => ?_) <| .cons (group_reports _ (by decide) fun name => ?_) <|
    .cons (group_reports _ (by decide) fun name => ?_) <| .cons (group_reports _ (by decide) fun name => ?_) .nil
  all_goals simp only [NameSet.mem_diff, NameSet.mem_inter, decide_eq_true_eq, decide_eq_false_iff_not]
  all_goals tauto

theorem reports_of_mem {declared emitted connected : NameSet} {g : Group}
    (h : g ∈ crossReference declared emitted connected) :
    ∃ s ∈ Standing.reported, g.Reports (standingIn declared emitted connected) s := by
  obtain ⟨i, hi, rfl⟩ := List.getElem_of_mem h
  have hall := crossReference_reports declared emitted connected
  have hi' : i < Standing.reported.length := by rw [hall.length_eq]; exact hi
  exact ⟨_, List.getElem_mem hi', hall.get hi' hi⟩

/-- The group at a position holds the names whose standing is at that position. -/
theorem mem_signals_at_iff {declared emitted connected : NameSet} {name : Text} {i : Nat} :
    (∃ g, (crossReference declared emitted connected)[i]? = some g ∧ name ∈ g.signals) ↔
      Standing.reported[i]? = some (standingIn declared emitted connected name) := by
  have hall := crossReference_reports declared emitted connected
  by_cases hi : i < Standing.reported.length
  · have hi' : i < (crossReference declared emitted connected).length := by rw [← hall.length_eq]; exact hi
    have hmem := (hall.get hi hi').mem name
    rw [List.get_eq_getElem, List.get_eq_getElem] at hmem
    simp [List.getElem?_eq_getElem hi, List.getElem?_eq_getElem hi', hmem, eq_comm]
  · have hi' : ¬ i < (crossReference declared emitted connected).length := by rw [← hall.length_eq]; exact hi
    simp [List.getElem?_eq_none (Nat.not_lt.mp hi), List.getElem?_eq_none (Nat.not_lt.mp hi')]

/-- A name counts as connected: it is, or it is compat connected and that counts. -/
def Connects (u : Usage) (o : ReportOptions) (name : Text) : Prop :=
  name ∈ u.connected ∨ o.includeCompat = true ∧ name ∈ u.compatConnected

instance (u : Usage) (o : ReportOptions) (name : Text) : Decidable (Connects u o name) :=
  inferInstanceAs (Decidable (_ ∨ _))

theorem mem_connections {u : Usage} {o : ReportOptions} {name : Text} :
    name ∈ connections u o ↔ Connects u o name := by
  unfold connections Connects
  cases o.includeCompat <;> simp

/-- A name is in one of the three sets and not in all of them. -/
def Mismatched (u : Usage) (o : ReportOptions) (name : Text) : Prop :=
  (name ∈ u.declared ∨ name ∈ u.emitted ∨ Connects u o name) ∧
    ¬ (name ∈ u.declared ∧ name ∈ u.emitted ∧ Connects u o name)

/-- The standing of a name in a usage. -/
def standing (u : Usage) (o : ReportOptions) (name : Text) : Standing :=
  ⟨decide (name ∈ u.declared), decide (name ∈ u.emitted), decide (Connects u o name)⟩

theorem standingIn_connections (u : Usage) (o : ReportOptions) :
    standingIn u.declared u.emitted (connections u o) = standing u o := by
  funext name
  simp only [standingIn, standing, mem_connections]

theorem build_reports (u : Usage) (o : ReportOptions) :
    List.Forall₂ (Group.Reports (standing u o)) Standing.reported (build u o).groups := by
  rw [← standingIn_connections]
  exact crossReference_reports u.declared u.emitted (connections u o)

theorem standing_mem_reported_iff {u : Usage} {o : ReportOptions} {name : Text} :
    standing u o name ∈ Standing.reported ↔ Mismatched u o name := by
  simp [Standing.mem_reported_iff, standing, Mismatched]

/-- The six groups of a report partition the mismatched names: each is in exactly one of them, the one whose format
says which of the sets it belongs to, and no other name is in any. Each group is in strictly ascending order. -/
theorem build_partitions (u : Usage) (o : ReportOptions) :
    (build u o).groups.length = 6 ∧
      (∀ name, Mismatched u o name → ∃! i : Nat, ∃ g, (build u o).groups[i]? = some g ∧ name ∈ g.signals) ∧
      (∀ g ∈ (build u o).groups, g.signals.Pairwise (· < ·) ∧
        ∀ name, name ∈ g.signals ↔ Mismatched u o name ∧ g.format = (standing u o name).wording) := by
  have hgroups : (build u o).groups = crossReference u.declared u.emitted (connections u o) := rfl
  rw [hgroups]
  refine ⟨rfl, fun name hname => ?_, fun g hg => ?_⟩
  · simp only [mem_signals_at_iff, standingIn_connections]
    obtain ⟨i, hi⟩ := List.mem_iff_getElem?.mp (standing_mem_reported_iff.mpr hname)
    refine ⟨i, hi, fun j hj => ?_⟩
    have hlt : j < Standing.reported.length := (List.getElem?_eq_some_iff.mp hj).1
    exact (List.getElem?_inj hlt Standing.nodup_reported).mp (hj.trans hi.symm)
  · obtain ⟨s, hs, hr⟩ := reports_of_mem hg
    rw [standingIn_connections] at hr
    refine ⟨hr.ascending, fun name => ?_⟩
    rw [hr.mem name, hr.format, ← standing_mem_reported_iff]
    constructor
    · rintro rfl
      exact ⟨hs, rfl⟩
    · rintro ⟨hm, hw⟩
      exact Standing.wording_injOn hm hs hw.symm

/-- Signals of every standing but one, the compat connections counted. -/
def assorted : Usage where
  declared := .ofList [text "fine", text "idle", text "late"]
  emitted := .ofList [text "fine", text "lost", text "late"]
  connected := .ofList [text "fine", text "idle"]
  compatConnected := .ofList [text "lost", text "deaf"]

theorem assorted_partitioned :
    Mismatched assorted ⟨true, true, false⟩ (text "lost") ∧
    (∃! i : Nat, ∃ g, (build assorted ⟨true, true, false⟩).groups[i]? = some g ∧ text "lost" ∈ g.signals) ∧
    ∃ g ∈ (build assorted ⟨true, true, false⟩).groups,
      text "lost" ∈ g.signals ∧ g.format = text "Signal %s is emitted and connected but never added" :=
  have hmis : Mismatched assorted ⟨true, true, false⟩ (text "lost") := ⟨.inr (.inl (by decide)), by decide⟩
  have hall := build_partitions assorted ⟨true, true, false⟩
  have hg : ⟨text "Signal %s is emitted and connected but never added", false, [text "lost"]⟩ ∈
      (build assorted ⟨true, true, false⟩).groups := by decide +kernel
  ⟨hmis, hall.2.1 _ hmis, _, hg, ((hall.2.2 _ hg).2 _).mpr ⟨hmis, by decide +kernel⟩, rfl⟩

end Report

end SignalAudit
