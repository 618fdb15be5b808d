import SignalAudit.Command.Run
import SignalAudit.Proofs.ReportReading
import SignalAudit.Proofs.ScanJournal

/-!
How an audit ends. Either something goes wrong before there is a report, and then nothing is printed and the error is
told; or the whole tree was scanned, and then the report is printed and decides on the exit code.
-/

namespace SignalAudit

/-- The command line asks for an audit. -/
def Invocation.AsksForAudit (i : Invocation) : Prop :=
  i.help = false ∧ i.version = false ∧ i.arguments.length ≤ 1

theorem Audit.run_result (fs : FileSystem) (s : Settings) (colored : Bool) (root : Text) :
    (Audit.run fs s colored root).result = match Audit.place fs s root with
      | .error e => .error e
      | .ok place =>
        match scan fs ⟨s.filter, []⟩ place with
        | .error e => .error (.scan e)
        | .ok u => .ok (u, Report.build u (s.reportOptions colored)) := by
  unfold Audit.run
  cases Audit.place fs s root with
  | error e => rfl
  | ok place =>
    dsimp only
    rw [← scanLogged_result]
    rcases scanLogged fs ⟨s.filter, []⟩ place with ⟨journal, _ | u⟩ <;> rfl

namespace Surroundings

variable (w : Surroundings) (i : Invocation)

/-- There is a report: the settings are sound, the root is a project, and the whole tree below it was scanned. -/
def Reports (r : Report) : Prop :=
  ∃ s place u, i.settings w.fs = .ok s ∧ Audit.place w.fs s i.root = .ok place ∧
    scan w.fs ⟨s.filter, []⟩ place = .ok u ∧
    r = Report.build u (s.reportOptions (w.stdout.isColored w.environment))

/-- What goes wrong before there is a report: the settings are not sound, the root is no project, the walk is stopped,
or a source cannot be read or classified. -/
inductive FailsBy : CommandError → Prop where
  | settings {e : CommandError} (h : i.settings w.fs = .error e) : FailsBy e
  | root {s : Settings} {e : AuditError} (hs : i.settings w.fs = .ok s)
      (h : Audit.place w.fs s i.root = .error e) : FailsBy (.audit e)
  | walk {s : Settings} {place path : Text} {cause : AccessError} (hs : i.settings w.fs = .ok s)
      (hp : Audit.place w.fs s i.root = .ok place)
      (h : scan w.fs ⟨s.filter, []⟩ place = .error (.access path cause)) : FailsBy (.audit (.scan (.access path cause)))
  | source {s : Settings} {place path : Text} {cause : FileError} (hs : i.settings w.fs = .ok s)
      (hp : Audit.place w.fs s i.root = .ok place)
      (h : scan w.fs ⟨s.filter, []⟩ place = .error (.visit path cause)) : FailsBy (.audit (.scan (.visit path cause)))

/-- The line that tells of an error. -/
def errorLine (message : Text) : Text :=
  let label := if w.stderr.isColored w.environment then text "\x1b[31mERROR\x1b[0m" else text "ERROR"
  text "[" ++ w.time ++ text "] [" ++ label ++ text "] " ++ message ++ text "\n"

/-- A run without findings. -/
structure Passes (o : Outcome) : Prop where
  exitCode : o.exitCode = 0
  error : o.error = none
  report : ∃ r, w.Reports i r ∧ o.stdout = r.render
  summary : ¬ (Report.summary ++ text "\n") <:+ o.stdout

/-- A run with findings. Nothing is told beyond what the audit itself tells. -/
structure FindsMismatches (o : Outcome) : Prop where
  exitCode : o.exitCode = 1
  error : o.error = some .mismatches
  report : ∃ r, w.Reports i r ∧ o.stdout = r.render
  summary : (text "\n" ++ Report.summary ++ text "\n") <:+ o.stdout
  stderr : o.stderr = (w.invoke i).stderr

/-- A run without a report. The error is told last, as far as the sink takes it. -/
structure Breaks (o : Outcome) : Prop where
  exitCode : o.exitCode = 1
  error : ∃ e, w.FailsBy i e ∧ e ≠ .mismatches ∧ o.error = some e ∧
    o.stderr = (w.invoke i).stderr ++ if w.stderr.arrives then w.errorLine (e.message w.diagnose) else []
  stdout : o.stdout = []

variable {w i}

theorem Reports.unique {r r' : Report} (h : w.Reports i r) (h' : w.Reports i r') : r = r' := by
  obtain ⟨s, place, u, hs, hp, hu, rfl⟩ := h
  obtain ⟨s', place', u', hs', hp', hu', rfl⟩ := h'
  obtain rfl := Except.ok.inj (hs.symm.trans hs')
  obtain rfl := Except.ok.inj (hp.symm.trans hp')
  obtain rfl := Except.ok.inj (hu.symm.trans hu')
  rfl

theorem Reports.exists_build {r : Report} (h : w.Reports i r) : ∃ u o, r = Report.build u o := by
  obtain ⟨s, _, u, _, _, _, hr⟩ := h
  exact ⟨u, s.reportOptions (w.stdout.isColored w.environment), hr⟩

theorem FailsBy.not_reports {e : CommandError} (h : w.FailsBy i e) (r : Report) : ¬ w.Reports i r := by
  rintro ⟨s, place, u, hs, hp, hu, _⟩
  cases h with
  | settings h => cases h.symm.trans hs
  | root hs' h =>
    obtain rfl := Except.ok.inj (hs.symm.trans hs')
    cases h.symm.trans hp
  | walk hs' hp' h | source hs' hp' h =>
    obtain rfl := Except.ok.inj (hs.symm.trans hs')
    obtain rfl := Except.ok.inj (hp.symm.trans hp')
    cases h.symm.trans hu

theorem FailsBy.ne_mismatches {e : CommandError} (h : w.FailsBy i e) : e ≠ .mismatches := by
  rintro rfl
  cases h with
  | settings h =>
    -- Every branch that fails names an error of its own, and none of them is this one.
    unfold Invocation.settings Invocation.baseSettings at h
    grind

theorem invoke_of_asksForAudit (hi : i.AsksForAudit) : w.invoke i = match i.settings w.fs with
    | .error e => { error := some e }
    | .ok s => w.audit s i.root := by
  obtain ⟨hhelp, hversion, hroots⟩ := hi
  have hfew : ¬ 1 < i.arguments.length := Nat.not_lt.mpr hroots
  cases hs : i.settings w.fs <;> simp [invoke, hhelp, hversion, hfew, hs]

theorem audit_of_error {s : Settings} {root : Text} {e : AuditError}
    (h : (Audit.run w.fs s (w.stdout.isColored w.environment) root).result = .error e) :
    ∃ told, w.audit s root = { stderr := told, error := some (.audit e) } := by
  unfold audit
  dsimp only
  rw [h]
  exact ⟨_, rfl⟩

theorem audit_of_ok (hout : w.stdout.arrives = true) {s : Settings} {root : Text} {u : Usage} {r : Report}
    (h : (Audit.run w.fs s (w.stdout.isColored w.environment) root).result = .ok (u, r)) :
    ∃ told, w.audit s root =
      { stdout := r.render, stderr := told, error := if r.failed then some .mismatches else none } := by
  have hwrite : w.stdout.writeError? = none := by
    revert hout
    cases w.stdout <;> decide
  unfold audit
  dsimp only
  rw [h]
  dsimp only
  rw [hwrite]
  dsimp only
  rw [printed, if_pos hout]
  exact ⟨_, rfl⟩

/-- An audit whose output works fails on the way to a report, or it prints one. -/
theorem invoke_cases (hi : i.AsksForAudit) (hout : w.stdout.arrives = true) :
    (∃ e told, w.FailsBy i e ∧ w.invoke i = { stderr := told, error := some e }) ∨
    ∃ r told, w.Reports i r ∧ w.invoke i =
      { stdout := r.render, stderr := told, error := if r.failed then some .mismatches else none } := by
  rw [invoke_of_asksForAudit hi]
  cases hs : i.settings w.fs with
  | error e => exact .inl ⟨e, [], .settings hs, rfl⟩
  | ok s =>
    have hresult := Audit.run_result w.fs s (w.stdout.isColored w.environment) i.root
    cases hp : Audit.place w.fs s i.root with
    | error e =>
      simp only [hp] at hresult
      obtain ⟨told, haudit⟩ := audit_of_error hresult
      exact .inl ⟨.audit e, told, .root hs hp, haudit⟩
    | ok place =>
      cases hu : scan w.fs ⟨s.filter, []⟩ place with
      | error e =>
        simp only [hp, hu] at hresult
        obtain ⟨told, haudit⟩ := audit_of_error hresult
        refine .inl ⟨.audit (.scan e), told, ?_, haudit⟩
        -- A walk never ends for its depth.
        have hstopped := (ScanOptions.scan_eq_error_iff ⟨s.filter, []⟩ w.fs).mp hu
        cases Walk.run_ends _ hstopped with
        | access path cause => exact .walk hs hp hu
        | visit _ => exact .source hs hp hu
      | ok u =>
        simp only [hp, hu] at hresult
        obtain ⟨told, haudit⟩ := audit_of_ok hout hresult
        exact .inr ⟨_, told, ⟨s, place, u, hs, hp, hu, rfl⟩, haudit⟩

theorem complain_eq_errorLine (message : Text) : complain w.environment w.stderr w.time (some message) =
    if w.stderr.arrives then w.errorLine message else [] := by
  have hthreshold : Level.threshold Level.error.name = .error := by decide
  have hpaint : paint Level.error.style Level.error.label = text "\x1b[31mERROR\x1b[0m" := by decide
  have hlabel : Level.error.label = text "ERROR" := rfl
  have hadmits : (Console.new w.environment w.stderr Level.error.name).admits .error = true := by
    rw [Console.admits, Console.new, hthreshold]
    exact decide_eq_true (Nat.le_refl _)
  rw [complain, Console.write, hadmits, Bool.and_true, Console.line, errorLine, hpaint, hlabel]
  rfl

theorem run_eq_closed {words : List Text} (h : Invocation.read {} words = .ok i) :
    w.run words = w.closed (w.invoke i) := by
  unfold run
  rw [h]

theorem closed_of_no_complaint {o : Outcome} (h : o.error.bind (CommandError.complaint? w.diagnose) = none) :
    w.closed o = o := by
  unfold closed
  rw [h]
  simp [complain]

theorem breaks_of_failsBy {e : CommandError} {told : Text} (he : w.FailsBy i e)
    (h : w.invoke i = { stderr := told, error := some e }) : w.Breaks i (w.closed (w.invoke i)) := by
  have hcomplaint : e.complaint? w.diagnose = some (e.message w.diagnose) := by
    cases e with
    | mismatches => exact absurd rfl he.ne_mismatches
    | _ => rfl
  have hclosed : w.closed (w.invoke i) =
      { stderr := told ++ if w.stderr.arrives then w.errorLine (e.message w.diagnose) else [], error := some e } := by
    rw [h, ← complain_eq_errorLine, ← hcomplaint]
    rfl
  rw [hclosed]
  exact ⟨rfl, ⟨e, he, he.ne_mismatches, rfl, by rw [h]⟩, rfl⟩

theorem passes_of_reports {r : Report} {told : Text} (hr : w.Reports i r) (hpass : r.failed = false)
    (h : w.invoke i = { stdout := r.render, stderr := told }) : w.Passes i (w.closed (w.invoke i)) := by
  have hclosed : w.closed (w.invoke i) = w.invoke i := closed_of_no_complaint (by rw [h]; rfl)
  obtain ⟨u, options, rfl⟩ := hr.exists_build
  rw [hclosed, h]
  exact ⟨rfl, rfl, ⟨_, hr, rfl⟩, Report.summary_not_suffix hpass⟩

theorem findsMismatches_of_reports {r : Report} {told : Text} (hr : w.Reports i r) (hfail : r.failed = true)
    (h : w.invoke i = { stdout := r.render, stderr := told, error := some .mismatches }) :
    w.FindsMismatches i (w.closed (w.invoke i)) := by
  have hclosed : w.closed (w.invoke i) = w.invoke i := closed_of_no_complaint (by rw [h]; rfl)
  obtain ⟨u, options, rfl⟩ := hr.exists_build
  rw [hclosed, h]
  exact ⟨rfl, rfl, ⟨_, hr, rfl⟩, Report.summary_suffix hfail, by rw [h]⟩

theorem Passes.not_findsMismatches {o : Outcome} (h : w.Passes i o) : ¬ w.FindsMismatches i o := by
  intro hm
  cases h.error.symm.trans hm.error

theorem Breaks.not_passes {o : Outcome} (h : w.Breaks i o) : ¬ w.Passes i o := by
  obtain ⟨e, _, _, he, _⟩ := h.error
  intro hp
  cases he.symm.trans hp.error

theorem Breaks.not_findsMismatches {o : Outcome} (h : w.Breaks i o) : ¬ w.FindsMismatches i o := by
  obtain ⟨e, _, hne, he, _⟩ := h.error
  intro hm
  exact hne (Option.some.inj (he.symm.trans hm.error))

/-- An audit ends in exactly one of three ways: it prints a report and passes, it prints a report and finds mismatches,
or it breaks and prints nothing. It finds mismatches if the whole tree was scanned and the tally is positive. -/
theorem run_ends_one_way {words : List Text} (hread : Invocation.read {} words = .ok i) (hi : i.AsksForAudit)
    (hout : w.stdout.arrives = true) :
    (w.Passes i (w.run words) ∧ ¬ w.FindsMismatches i (w.run words) ∧ ¬ w.Breaks i (w.run words) ∨
      ¬ w.Passes i (w.run words) ∧ w.FindsMismatches i (w.run words) ∧ ¬ w.Breaks i (w.run words) ∨
      ¬ w.Passes i (w.run words) ∧ ¬ w.FindsMismatches i (w.run words) ∧ w.Breaks i (w.run words)) ∧
    (w.FindsMismatches i (w.run words) ↔ ∃ r, w.Reports i r ∧ 0 < r.total) := by
  rw [run_eq_closed hread]
  rcases invoke_cases hi hout with ⟨e, told, he, h⟩ | ⟨r, told, hr, h⟩
  · have hbreaks := breaks_of_failsBy he h
    refine ⟨.inr (.inr ⟨hbreaks.not_passes, hbreaks.not_findsMismatches, hbreaks⟩), ?_⟩
    constructor
    · intro hm
      exact absurd hm hbreaks.not_findsMismatches
    · rintro ⟨r, hr, _⟩
      exact absurd hr (he.not_reports r)
  · have htotal : r.failed = true ↔ 0 < r.total := by simp [Report.failed]
    cases hf : r.failed with
    | false =>
      rw [hf] at h
      have hpasses := passes_of_reports hr hf h
      refine ⟨.inl ⟨hpasses, hpasses.not_findsMismatches, fun hb => hb.not_passes hpasses⟩, ?_⟩
      constructor
      · intro hm
        exact absurd hm hpasses.not_findsMismatches
      · rintro ⟨r', hr', hpos⟩
        rw [hr'.unique hr, ← htotal, hf] at hpos
        cases hpos
    | true =>
      rw [hf] at h
      have hfinds := findsMismatches_of_reports hr hf h
      refine ⟨.inr (.inl ⟨fun hp => hp.not_findsMismatches hfinds, hfinds, fun hb => hb.not_findsMismatches hfinds⟩), ?_⟩
      exact ⟨fun _ => ⟨r, hr, htotal.mp hf⟩, fun _ => hfinds⟩

/-- A project with one signal that nobody has declared. -/
def stray : Surroundings where
  fs := {
    objects := [
      ([text "r"], .directory),
      ([text "icon.svg", text "r"], .file .empty),
      ([text "a.cpp", text "r"], .file ⟨(text "emit_signal(\"bar\");\n").toArray⟩)] }

theorem stray_finds_mismatches :
    Invocation.read {} [text "--count-info=false", text "r"] =
      .ok { countInfo := some false, arguments := [text "r"] } ∧
    stray.FindsMismatches { countInfo := some false, arguments := [text "r"] }
      (stray.run [text "--count-info=false", text "r"]) := by
  have hread : Invocation.read {} [text "--count-info=false", text "r"] =
      .ok { countInfo := some false, arguments := [text "r"] } := by decide
  have herror : (stray.run [text "--count-info=false", text "r"]).error = some .mismatches := by decide +kernel
  refine ⟨hread, ?_⟩
  rcases (run_ends_one_way hread ⟨rfl, rfl, by decide⟩ (w := stray) rfl).1 with ⟨hp, _⟩ | ⟨_, hm, _⟩ | ⟨_, _, hb⟩
  · cases herror.symm.trans hp.error
  · exact hm
  · obtain ⟨e, _, hne, he, _⟩ := hb.error
    exact absurd (Option.some.inj (he.symm.trans herror)) hne

end Surroundings

end SignalAudit
