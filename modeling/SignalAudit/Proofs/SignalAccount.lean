import SignalAudit.Proofs.ExitPolicy
import SignalAudit.Proofs.ReportTally

/-!
The account that closes an audit: the fine signals and the findings. Compat connections that count keep a signal out of
the groups, but they do not make it fine. So a signal that is declared, emitted and connected by them alone is in
neither of the two numbers, and there is no other signal of that sort.
-/

namespace SignalAudit

namespace Report

variable {u : Usage} {o : ReportOptions}

/-- The names that are neither fine nor reported. -/
def overlooked (u : Usage) (o : ReportOptions) : Finset Text :=
  if o.includeCompat then
    (u.declared.toFinset ∩ u.emitted.toFinset ∩ u.compatConnected.toFinset) \ u.connected.toFinset
  else ∅

theorem mem_fine_iff {name : Text} :
    name ∈ u.fine ↔ name ∈ u.declared ∧ name ∈ u.emitted ∧ name ∈ u.connected := by
  simp [Usage.fine, and_assoc]

/-- A fine signal is in the three sets also where compat connections count. -/
theorem settled_of_fine {name : Text} (h : name ∈ u.fine) :
    name ∈ u.declared ∧ name ∈ u.emitted ∧ Connects u o name := by
  obtain ⟨hdeclared, hemitted, hconnected⟩ := mem_fine_iff.mp h
  exact ⟨hdeclared, hemitted, .inl hconnected⟩

theorem mem_overlooked_iff {name : Text} : name ∈ overlooked u o ↔
    name ∈ u.declared ∧ name ∈ u.emitted ∧ Connects u o name ∧ name ∉ u.fine := by
  rw [mem_fine_iff]
  unfold overlooked Connects
  cases o.includeCompat <;> simp <;> grind

/-- The names in all three sets are the fine ones and the overlooked. -/
theorem card_fine_add_overlooked (u : Usage) (o : ReportOptions) :
    u.fine.size + (overlooked u o).card =
      (u.declared.toFinset ∩ u.emitted.toFinset ∩ connectedNames u o).card := by
  have hunion : u.declared.toFinset ∩ u.emitted.toFinset ∩ connectedNames u o =
      u.fine.toFinset ∪ overlooked u o := by
    ext name
    simp only [Finset.mem_inter, Finset.mem_union, NameSet.mem_toFinset, mem_connectedNames, mem_overlooked_iff,
      and_assoc]
    constructor
    · rintro ⟨hdeclared, hemitted, hconnects⟩
      by_cases hfine : name ∈ u.fine
      · exact .inl hfine
      · exact .inr ⟨hdeclared, hemitted, hconnects, hfine⟩
    · rintro (hfine | ⟨hdeclared, hemitted, hconnects, _⟩)
      · exact settled_of_fine hfine
      · exact ⟨hdeclared, hemitted, hconnects⟩
  have hdisjoint : Disjoint u.fine.toFinset (overlooked u o) := by
    rw [Finset.disjoint_left]
    intro name hfine hover
    exact (mem_overlooked_iff.mp hover).2.2.2 hfine
  rw [hunion, Finset.card_union_of_disjoint hdisjoint]
  rfl

theorem fine_add_total (h : o.countInformational = true) :
    u.fine.size + (build u o).total + (overlooked u o).card = (allNames u o).card := by
  have hfine := card_fine_add_overlooked u o
  have hall := total_add_left_out u o
  rw [if_pos h] at hall
  omega

theorem exists_group_iff {name : Text} :
    (∃ g ∈ (build u o).groups, name ∈ g.signals) ↔ Mismatched u o name := by
  have hgroups : (build u o).groups = crossReference u.declared u.emitted (connections u o) := rfl
  rw [← standing_mem_reported_iff, ← standingIn_connections, List.mem_iff_getElem?, hgroups]
  simp only [← mem_signals_at_iff, List.mem_iff_getElem?]
  constructor
  · rintro ⟨g, ⟨i, hi⟩, hg⟩
    exact ⟨i, g, hi, hg⟩
  · rintro ⟨i, g, hi, hg⟩
    exact ⟨g, ⟨i, hi⟩, hg⟩

/-- Being reported and being fine exclude each other, and only for the overlooked names both fail. -/
theorem reported_iff_not_fine_iff {name : Text} (h : name ∈ allNames u o) :
    ((∃ g ∈ (build u o).groups, name ∈ g.signals) ↔ name ∉ u.fine) ↔ name ∉ overlooked u o := by
  have hsome : name ∈ u.declared ∨ name ∈ u.emitted ∨ Connects u o name := by
    simpa [allNames, mem_connectedNames, or_assoc] using h
  rw [exists_group_iff, mem_overlooked_iff, Mismatched]
  constructor
  · rintro hiff ⟨hdeclared, hemitted, hconnects, hfine⟩
    exact (hiff.mpr hfine).2 ⟨hdeclared, hemitted, hconnects⟩
  · intro hover
    constructor
    · intro hmis hfine
      exact hmis.2 (settled_of_fine hfine)
    · intro hfine
      exact ⟨hsome, fun hall => hover ⟨hall.1, hall.2.1, hall.2.2, hfine⟩⟩

end Report

namespace Audit

theorem report_of_run {fs : FileSystem} {s : Settings} {colored : Bool} {root : Text} {u : Usage} {r : Report}
    (h : (run fs s colored root).result = .ok (u, r)) : r = Report.build u (s.reportOptions colored) := by
  rw [run_result] at h
  cases hp : place fs s root with
  | error e =>
    rw [hp] at h
    cases h
  | ok place =>
    rw [hp] at h
    dsimp only at h
    cases hu : scan fs ⟨s.filter, []⟩ place with
    | error e =>
      rw [hu] at h
      cases h
    | ok found =>
      rw [hu] at h
      cases h
      rfl

end Audit

namespace Surroundings

variable {w : Surroundings} {s : Settings} {root : Text} {u : Usage} {r : Report}

theorem audit_closes (h : (Audit.run w.fs s (w.stdout.isColored w.environment) root).result = .ok (u, r))
    (hout : w.stdout.writeError? = none) :
    ∃ told, (w.audit s root).stderr = told ++ w.remarked s.logLevel (Audit.closing u r) := by
  unfold audit
  dsimp only
  rw [h]
  dsimp only
  rw [hout]
  exact ⟨_, rfl⟩

/-- The last thing an audit tells are the numbers of fine signals and of findings. Where all findings count, they add up
to the number of all signals if none is overlooked: a signal is overlooked that is declared, emitted and connected, but
the latter only by compat connections that count. And such a signal, but no other, is neither fine nor reported. -/
theorem audit_accounts (h : (Audit.run w.fs s (w.stdout.isColored w.environment) root).result = .ok (u, r))
    (hout : w.stdout.writeError? = none) (hcount : s.countInformational = true) :
    let o := s.reportOptions (w.stdout.isColored w.environment)
    (∃ told, (w.audit s root).stderr = told ++ w.remarked s.logLevel (.log ⟨.info,
      text "Found " ++ Text.ofNat u.fine.size ++ text " fine signals, " ++ Text.ofNat r.total ++ text " findings"⟩)) ∧
    (u.fine.size + r.total = (Report.allNames u o).card ↔ Report.overlooked u o = ∅) ∧
    (∀ name ∈ Report.allNames u o,
      ((∃ g ∈ r.groups, name ∈ g.signals) ↔ name ∉ u.fine) ↔ name ∉ Report.overlooked u o) ∧
    (s.includeCompat = false → Report.overlooked u o = ∅) := by
  intro o
  obtain rfl := Audit.report_of_run h
  refine ⟨audit_closes h hout, ?_, fun name hname => Report.reported_iff_not_fine_iff hname, ?_⟩
  · have hsum : u.fine.size + (Report.build u o).total + (Report.overlooked u o).card = (Report.allNames u o).card :=
      Report.fine_add_total hcount
    change u.fine.size + (Report.build u o).total = _ ↔ _
    rw [← Finset.card_eq_zero]
    omega
  · intro hcompat
    exact if_neg (by simp [o, Settings.reportOptions, hcompat])

/-- The standard settings, but compat connections count and the account is told. -/
def lenient : Settings := { Settings.standard with includeCompat := true, logLevel := text "info" }

/-- A project with a signal that is connected in both ways, and one that nobody has declared. -/
def bridged : Surroundings where
  fs := {
    objects := [
      ([text "r"], .directory),
      ([text "icon.svg", text "r"], .file .empty),
      ([text "a.cpp", text "r"], .file ⟨(text "ADD_SIGNAL(MethodInfo(\"done\"));\nemit_signal(\"done\");\n").toArray⟩),
      ([text "b.cpp", text "r"], .file ⟨(text "x.connect_compat(\"done\", y);\nx->connect(\"done\", y);\n").toArray⟩),
      ([text "c.cpp", text "r"], .file ⟨(text "emit_signal(\"late\");\n").toArray⟩)] }

theorem bridged_accounted : ∃ u r, (Audit.run bridged.fs lenient false (text "r")).result = .ok (u, r) ∧
    u.compatConnected = .ofList [text "done"] ∧ u.fine.size = 1 ∧ r.total = 1 ∧
    (Report.allNames u (lenient.reportOptions false)).card = 2 := by
  have hresult : (Audit.run bridged.fs lenient false (text "r")).result =
      .ok (⟨.ofList [text "done"], .ofList [text "done", text "late"], .ofList [text "done"], .ofList [text "done"], 3⟩,
        Report.build ⟨.ofList [text "done"], .ofList [text "done", text "late"], .ofList [text "done"],
          .ofList [text "done"], 3⟩ (lenient.reportOptions false)) := by decide +kernel
  refine ⟨_, _, hresult, rfl, by decide +kernel, by decide +kernel, ?_⟩
  exact ((audit_accounts (w := bridged) hresult rfl rfl).2.1.mpr (by decide +kernel)).symm

/-- The same signal, without its plain connection. -/
def unbridged : Surroundings where
  fs := {
    objects := [
      ([text "r"], .directory),
      ([text "icon.svg", text "r"], .file .empty),
      ([text "a.cpp", text "r"], .file ⟨(text "ADD_SIGNAL(MethodInfo(\"done\"));\nemit_signal(\"done\");\n").toArray⟩),
      ([text "b.cpp", text "r"], .file ⟨(text "x.connect_compat(\"done\", y);\n").toArray⟩)] }

theorem unbridged_overlooked : ∃ u, scan unbridged.fs ⟨.standard, []⟩ (text "/r") = .ok u ∧
    (unbridged.run [text "--include-compat", text "--log-level=info", text "r"]).exitCode = 0 ∧
    text "[INFO] Found 0 fine signals, 0 findings\n" <:+
      (unbridged.run [text "--include-compat", text "--log-level=info", text "r"]).stderr ∧
    (Report.allNames u ⟨true, true, false⟩).card = 1 := by
  have hscan : scan unbridged.fs ⟨.standard, []⟩ (text "/r") =
      .ok ⟨.ofList [text "done"], .ofList [text "done"], ∅, .ofList [text "done"], 2⟩ := by decide +kernel
  exact ⟨_, hscan, by decide +kernel, by decide +kernel, by decide +kernel⟩

end Surroundings

end SignalAudit
