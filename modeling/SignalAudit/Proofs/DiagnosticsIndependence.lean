import Mathlib
import SignalAudit.Proofs.ExitPolicy

/-!
Diagnostics do not influence results. Two runs that differ in the log level, wherever it comes from, and in what becomes
of the standard error go through the same stages in step: they read the same invocation but for the level, arrive at
the same settings but for the level, and audit to the same result.
-/

namespace SignalAudit

/-- Two attempts go the same way: both fail, with the same error, or both succeed, with related results. -/
inductive Agree {ε α : Type} (R : α → α → Prop) : Except ε α → Except ε α → Prop where
  | error (e : ε) : Agree R (.error e) (.error e)
  | ok {a b : α} (h : R a b) : Agree R (.ok a) (.ok b)

namespace Settings

/-- Settings that differ in the log level at most. -/
def SameButLevel (s t : Settings) : Prop := { s with logLevel := t.logLevel } = t

variable {s t : Settings}

theorem SameButLevel.override (h : s.SameButLevel t) {l l' : SettingsLayer}
    (hl : { l with logLevel := l'.logLevel } = l') : (s.override l).SameButLevel (t.override l') := by
  unfold SameButLevel at *
  rw [← h, ← hl]
  rfl

theorem SameButLevel.validate (h : s.SameButLevel t) (hs : Level.isNamedBy s.logLevel = true)
    (ht : Level.isNamedBy t.logLevel = true) : s.validate = t.validate := by
  unfold SameButLevel at h
  unfold Settings.validate
  rw [hs, ht, ← h]
  rfl

end Settings

namespace Invocation

/-- The log level that a run comes to, if it gets that far, is one there is. -/
def HasLevel (fs : FileSystem) (i : Invocation) : Prop :=
  ∀ base, i.baseSettings fs = .ok base → Level.isNamedBy (base.override i.layer).logLevel = true

/-- Invocations that differ in a sound log level at most, whether it is given by a flag or in a settings file. -/
structure SameButLevel (fs : FileSystem) (i j : Invocation) : Prop where
  flags : { i with config := j.config, logLevel := j.logLevel } = j
  base : Agree Settings.SameButLevel (i.baseSettings fs) (j.baseSettings fs)
  left : i.HasLevel fs
  right : j.HasLevel fs

variable {fs : FileSystem} {i j : Invocation}

theorem SameButLevel.layer (h : SameButLevel fs i j) : { i.layer with logLevel := j.layer.logLevel } = j.layer := by
  rw [← h.flags]
  rfl

theorem SameButLevel.settings (h : SameButLevel fs i j) :
    Agree Settings.SameButLevel (i.settings fs) (j.settings fs) := by
  have hbase := h.base
  have hleft := h.left
  have hright := h.right
  unfold HasLevel at hleft hright
  unfold Invocation.settings
  generalize i.baseSettings fs = x at hbase hleft ⊢
  generalize j.baseSettings fs = y at hbase hright ⊢
  cases hbase with
  | error e => exact .error e
  | @ok s t hst =>
    have hsame := hst.override h.layer
    dsimp only
    rw [hsame.validate (hleft s rfl) (hright t rfl)]
    cases (t.override j.layer).validate with
    | error e => exact .error _
    | ok _ => exact .ok hsame

end Invocation

theorem Audit.result_congr {s t : Settings} (h : s.SameButLevel t) (fs : FileSystem) (colored : Bool) (root : Text) :
    (Audit.run fs s colored root).result = (Audit.run fs t colored root).result := by
  have hplace : Audit.place fs s root = Audit.place fs t root := by
    unfold Audit.place
    rw [← h]
  rw [Audit.run_result, Audit.run_result, hplace, ← h]
  rfl

/-- What is left of an outcome without the diagnostics. -/
def Outcome.result (o : Outcome) : Text × Option CommandError := (o.stdout, o.error)

namespace Surroundings

variable (w : Surroundings)

/-- The same surroundings, but for the standard error and the clock. -/
def redirected (sink : Sink) (clock : Text) : Surroundings := { w with stderr := sink, time := clock }

variable (sink : Sink) (clock : Text)

theorem audit_result {s t : Settings} (h : s.SameButLevel t) (root : Text) :
    (w.audit s root).result = ((w.redirected sink clock).audit t root).result := by
  have hresult := Audit.result_congr h w.fs (w.stdout.isColored w.environment) root
  unfold audit redirected
  dsimp only
  rw [hresult]
  rcases (Audit.run w.fs t (w.stdout.isColored w.environment) root).result with e | ⟨u, r⟩
  · simp only [Outcome.result]
  · cases w.stdout.writeError? with
    | none => simp only [Outcome.result, printed]
    | some e => simp only [Outcome.result]

theorem invoke_result {i j : Invocation} (h : i.SameButLevel w.fs j) :
    (w.invoke i).result = ((w.redirected sink clock).invoke j).result := by
  have hflags := h.flags
  have hhelp : j.help = i.help := by rw [← hflags]
  have hversion : j.version = i.version := by rw [← hflags]
  have harguments : j.arguments = i.arguments := by rw [← hflags]
  have hroot : j.root = i.root := by rw [Invocation.root, harguments, ← Invocation.root]
  have hsettings := h.settings
  have hfs : (w.redirected sink clock).fs = w.fs := rfl
  unfold invoke
  rw [hhelp, hversion, harguments, hroot, hfs]
  split
  · rfl
  split
  · rfl
  split
  · rfl
  generalize i.settings w.fs = x at hsettings ⊢
  generalize j.settings w.fs = y at hsettings ⊢
  cases hsettings with
  | error e => rfl
  | ok hst => exact w.audit_result sink clock hst i.root

theorem closed_result (o : Outcome) : (w.closed o).result = o.result := rfl

/-- Two runs in the same tree that differ in the log level at most, from whatever source, and in the standard error print
the same, fail with the same error and exit with the same code. -/
theorem run_ignores_diagnostics {words words' : List Text}
    (h : Agree (Invocation.SameButLevel w.fs) (Invocation.read {} words) (Invocation.read {} words')) :
    (w.run words).stdout = ((w.redirected sink clock).run words').stdout ∧
      (w.run words).error = ((w.redirected sink clock).run words').error ∧
      (w.run words).exitCode = ((w.redirected sink clock).run words').exitCode := by
  have hresult : (w.run words).result = ((w.redirected sink clock).run words').result := by
    unfold run
    rw [closed_result, closed_result]
    generalize Invocation.read {} words = x at h ⊢
    generalize Invocation.read {} words' = y at h ⊢
    cases h with
    | error e => rfl
    | ok hij => exact w.invoke_result sink clock hij
  obtain ⟨hstdout, herror⟩ := Prod.mk.inj hresult
  refine ⟨hstdout, herror, ?_⟩
  unfold Outcome.exitCode
  rw [herror]

/-- A project with findings, and a settings file that asks for all messages. -/
def chatty : Surroundings where
  fs := {
    objects := [
      ([text "c.yml"], .file ⟨(text "log_level: trace\n").toArray⟩),
      ([text "r"], .directory),
      ([text "icon.svg", text "r"], .file .empty),
      ([text "a.cpp", text "r"], .file ⟨(text "emit_signal(\"bar\");\n").toArray⟩)] }
  stderr := .terminal

theorem chatty_loads :
    Settings.load chatty.fs (text "c.yml") = .ok { Settings.standard with logLevel := text "trace" } := by
  have hstat : chatty.fs.stat (text "c.yml") = .ok (.file ⟨(text "log_level: trace\n").toArray⟩) := rfl
  have hfile : chatty.fs.readFile (text "c.yml") = .ok ⟨(text "log_level: trace\n").toArray⟩ := rfl
  have hyaml : SettingsLayer.ofYaml (text "log_level: trace\n") = .ok { logLevel := some (text "trace") } := by cbv
  rw [Settings.load, hstat]
  dsimp only
  rw [Settings.load.read, hfile]
  dsimp only
  delta Settings.ofYaml
  rw [hyaml]
  rfl

theorem chatty_same :
    Invocation.SameButLevel chatty.fs { config := text "c.yml", arguments := [text "r"] }
      { logLevel := some (text " Error"), arguments := [text "r"] } ∧
    (chatty.redirected .failing []).run [text "--log-level", text " Error", text "r"] =
      { stdout := text "Signal bar is emitted but never added or connected\n\n\n\n\n\n\n" ++
          text "Found unused signal, exiting with code 1.\n", error := some .mismatches } ∧
    (chatty.run [text "--config=c.yml", text "r"]).error = some .mismatches := by
  have hread : Invocation.read {} [text "--config=c.yml", text "r"] =
      .ok { config := text "c.yml", arguments := [text "r"] } := by decide
  have hread' : Invocation.read {} [text "--log-level", text " Error", text "r"] =
      .ok { logLevel := some (text " Error"), arguments := [text "r"] } := by decide
  have hbase : Invocation.baseSettings { config := text "c.yml", arguments := [text "r"] } chatty.fs =
      .ok { Settings.standard with logLevel := text "trace" } := by
    have hgiven : ¬ (text "c.yml").isEmpty = true := by decide
    have hstat : chatty.fs.stat (text "c.yml") = .ok (.file ⟨(text "log_level: trace\n").toArray⟩) := rfl
    rw [Invocation.baseSettings, if_neg hgiven]
    dsimp only
    rw [hstat]
    dsimp only
    rw [chatty_loads]
  have hbase' : Invocation.baseSettings { logLevel := some (text " Error"), arguments := [text "r"] } chatty.fs =
      .ok Settings.standard := by decide
  have hsame : Invocation.SameButLevel chatty.fs { config := text "c.yml", arguments := [text "r"] }
      { logLevel := some (text " Error"), arguments := [text "r"] } := by
    refine ⟨rfl, ?_, fun s hs => ?_, fun s hs => ?_⟩
    · rw [hbase, hbase']
      exact .ok rfl
    · obtain rfl := Except.ok.inj (hbase.symm.trans hs)
      decide
    · obtain rfl := Except.ok.inj (hbase'.symm.trans hs)
      decide
  have hquiet : (chatty.redirected .failing []).run [text "--log-level", text " Error", text "r"] =
      { stdout := text "Signal bar is emitted but never added or connected\n\n\n\n\n\n\n" ++
          text "Found unused signal, exiting with code 1.\n", error := some .mismatches } := by decide +kernel
  have hwords : Agree (Invocation.SameButLevel chatty.fs) (Invocation.read {} [text "--config=c.yml", text "r"])
      (Invocation.read {} [text "--log-level", text " Error", text "r"]) := by
    rw [hread, hread']
    exact .ok hsame
  have hagree := chatty.run_ignores_diagnostics .failing [] hwords
  exact ⟨hsame, hquiet, hagree.2.1.trans (by rw [hquiet])⟩

end Surroundings

end SignalAudit
