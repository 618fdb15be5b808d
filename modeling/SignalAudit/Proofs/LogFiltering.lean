import SignalAudit.Console.Log
import SignalAudit.Settings.Basic

/-!
What a run of messages leaves in the log: a line for each that reaches the threshold, in order, and nothing else. So a
stricter threshold leaves out messages and does nothing more. The threshold is the level that was named; settings that
are valid name one, so none of them falls back on the level for texts that name none.
-/

namespace SignalAudit

namespace Level

/-- The word that a text is, without the blanks around it and in lower case. -/
def word (t : Text) : Text := Text.lower (Text.trim t)

theorem mem_all (l : Level) : l ∈ all := by
  cases l <;> decide

theorem eq_of_name_eq {l l' : Level} (h : l.name = l'.name) : l = l' := by
  have hall : ∀ l ∈ all, ∀ l' ∈ all, l.name = l'.name → l = l' := by decide
  exact hall l (mem_all l) l' (mem_all l') h

theorem word_of_ofText? {t : Text} {l : Level} (h : ofText? t = some l) : word t = l.name := by
  have hfound : all.find? (fun l => l.name == word t) = some l := h
  have hname := List.find?_some hfound
  exact (beq_iff_eq.mp hname).symm

theorem ofText?_eq_some_iff {t : Text} {l : Level} : ofText? t = some l ↔ word t = l.name := by
  refine ⟨word_of_ofText?, fun h => ?_⟩
  cases hfound : ofText? t with
  | none =>
    have hother := List.find?_eq_none.mp hfound l (mem_all l)
    exact absurd (beq_iff_eq.mpr h.symm) hother
  | some found => rw [eq_of_name_eq ((word_of_ofText? hfound).symm.trans h)]

theorem ofText?_eq_none_iff {t : Text} : ofText? t = none ↔ word t ∉ all.map name := by
  rw [Option.eq_none_iff_forall_ne_some]
  constructor
  · intro h hin
    obtain ⟨l, _, hname⟩ := List.mem_map.mp hin
    exact h l (ofText?_eq_some_iff.mpr hname.symm)
  · intro h l hfound
    exact h (List.mem_map.mpr ⟨l, mem_all l, (word_of_ofText? hfound).symm⟩)

/-- The threshold that a text asks for: the level whose name it is, or `info` if it is the name of none. -/
inductive Asks (t : Text) : Level → Prop where
  | named {l : Level} (h : word t = l.name) : Asks t l
  | unnamed (h : word t ∉ all.map name) : Asks t info

theorem asks_iff {t : Text} {l : Level} : Asks t l ↔ threshold t = l := by
  unfold threshold
  constructor
  · intro h
    cases h with
    | named h => rw [ofText?_eq_some_iff.mpr h, Option.getD_some]
    | unnamed h => rw [ofText?_eq_none_iff.mpr h, Option.getD_none]
  · rintro rfl
    cases h : ofText? t with
    | none => exact .unnamed (ofText?_eq_none_iff.mp h)
    | some l => exact .named (ofText?_eq_some_iff.mp h)

end Level

/-- A message and the time at which it is written. -/
structure TimedEntry extends LogEntry where
  time : Text

namespace Level

/-- The messages that reach a level. -/
def reached (l : Level) (calls : List TimedEntry) : List TimedEntry := calls.filter fun e => l.rank ≤ e.level.rank

/-- What reaches a level is found among what reaches a lower one. -/
theorem reached_reached {l strict : Level} (h : l.rank ≤ strict.rank) (calls : List TimedEntry) :
    strict.reached (l.reached calls) = strict.reached calls := by
  unfold reached
  rw [List.filter_filter]
  congr 1
  funext e
  rw [Bool.and_eq_left_iff_imp, decide_eq_true_eq, decide_eq_true_eq]
  exact Nat.le_trans h

end Level

theorem Settings.word_of_validate {s : Settings} (h : s.validate = .ok ()) :
    ∃ l : Level, Level.word s.logLevel = l.name := by
  unfold validate Level.isNamedBy at h
  cases hnamed : Level.ofText? s.logLevel with
  | none => simp [hnamed] at h
  | some l => exact ⟨l, Level.ofText?_eq_some_iff.mp hnamed⟩

/-- A line of the log. -/
def logLine (time label message : Text) : Text :=
  text "[" ++ time ++ text "] [" ++ label ++ text "] " ++ message ++ text "\n"

namespace Console

/-- What a run of messages adds to the sink while the clock goes on. -/
def writeTimed (c : Console) (calls : List TimedEntry) : Text := calls.flatMap fun e => c.write e.time e.toLogEntry

/-- Where the clock stands still, all messages have the same time. -/
theorem writeAll_eq_writeTimed (c : Console) (time : Text) (entries : List LogEntry) :
    c.writeAll time entries = c.writeTimed (entries.map fun e => ⟨e, time⟩) := by
  unfold writeAll writeTimed
  rw [List.flatMap_map]

theorem write_of_arrives {c : Console} (working : c.sink.arrives = true) (time : Text) (e : LogEntry) :
    c.write time e = if c.threshold.rank ≤ e.level.rank then c.line time e else [] := by
  simp [write, working, admits]

/-- One message after the other adds its line or nothing, so a run adds the lines of those that reach the threshold. -/
theorem writeTimed_of_arrives {c : Console} (working : c.sink.arrives = true) (calls : List TimedEntry) :
    c.writeTimed calls = (c.threshold.reached calls).flatMap fun e => c.line e.time e.toLogEntry := by
  unfold writeTimed Level.reached
  induction calls with
  | nil => rfl
  | cons e calls ih =>
    rw [List.flatMap_cons, ih, write_of_arrives working, List.filter_cons]
    simp only [decide_eq_true_eq]
    split <;> rfl

/-- On a sink where writes arrive, a run of messages leaves a line for each that reaches the threshold, in order, and
nothing else; the label is shown in its colour on a terminal that takes colour, and plain elsewhere. The threshold is
the level that was named, or `info` if none was. Of two thresholds the stricter leaves the lines of those messages that
reach it among the ones that the other leaves. Valid settings name a level. -/
theorem writeTimed_filters (env : Environment) {sink : Sink} (working : sink.arrives = true) (calls : List TimedEntry) :
    let shown := fun e : TimedEntry =>
      logLine e.time (if sink.isColored env then paint e.level.style e.level.label else e.level.label) e.message
    let output := fun asked : Text => (new env sink asked).writeTimed calls
    (∀ asked, ∃ l, Level.Asks asked l) ∧
    (∀ asked l, Level.Asks asked l → output asked = (l.reached calls).flatMap shown) ∧
    (∀ asked asked' l strict, Level.Asks asked l → Level.Asks asked' strict → l.rank ≤ strict.rank →
      let written := l.reached calls
      output asked = written.flatMap shown ∧ output asked' = (strict.reached written).flatMap shown) ∧
    ∀ s : Settings, s.validate = .ok () → ∃ l : Level, Level.word s.logLevel = l.name := by
  intro shown output
  have hwritten : ∀ asked l, Level.Asks asked l → output asked = (l.reached calls).flatMap shown := by
    intro asked l h
    dsimp only [output]
    rw [writeTimed_of_arrives working, ← Level.asks_iff.mp h]
    rfl
  refine ⟨fun asked => ⟨_, Level.asks_iff.mpr rfl⟩, hwritten, ?_, fun s => Settings.word_of_validate⟩
  intro asked asked' l strict h h' hstricter
  refine ⟨hwritten asked l h, ?_⟩
  rw [Level.reached_reached hstricter]
  exact hwritten asked' strict h'

/-- Messages of four levels, one of them of two lines and one without text. -/
def mixedEntries : List LogEntry := [⟨.info, text "a"⟩, ⟨.error, []⟩, ⟨.trace, text "b"⟩, ⟨.warn, text "c\nd"⟩]

theorem mixedEntries_filtered :
    (new {} .file (text " WARN\t")).writeAll (text "12:00:00") mixedEntries =
      text "[12:00:00] [ERROR] \n[12:00:00] [WARN] c\nd\n" ∧
    (new {} .file (text "verbose")).writeAll (text "12:00:00") mixedEntries =
      text "[12:00:00] [INFO] a\n[12:00:00] [ERROR] \n[12:00:00] [WARN] c\nd\n" := by
  obtain ⟨_, hwritten, _⟩ := writeTimed_filters {} (rfl : Sink.file.arrives = true)
    (mixedEntries.map fun e => ⟨e, text "12:00:00"⟩)
  have hwarn := hwritten (text " WARN\t") .warn (.named (by decide))
  have hinfo := hwritten (text "verbose") .info (.unnamed (by decide))
  rw [writeAll_eq_writeTimed, writeAll_eq_writeTimed]
  exact ⟨hwarn.trans (by decide), hinfo.trans (by decide)⟩

/-- On a terminal the label is not plain. -/
theorem terminal_painted :
    Sink.terminal.arrives = true ∧
    (new {} .terminal (text "info")).writeAll (text "12:00:00") [⟨.info, text "a"⟩] =
      text "[12:00:00] [\x1b[34mINFO\x1b[0m] a\n" ∧
    (new {} .terminal (text "info")).writeAll (text "12:00:00") [⟨.info, text "a"⟩] ≠ text "[12:00:00] [INFO] a\n" := by
  decide

end Console

end SignalAudit
