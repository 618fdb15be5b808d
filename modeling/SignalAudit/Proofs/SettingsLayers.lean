import Mathlib
import SignalAudit.Command.Run

/-!
The settings of a run, layer by layer. Each setting is chosen on its own: a flag that was given decides, else the
settings file if it says something, else the standard. What was so chosen is used if it is valid, and only then.
-/

namespace SignalAudit

/-- A value is that of the flag, if it was given, else that of the file, if it has one, else the standard. -/
inductive Chosen {α : Type} (flag file : Option α) (standard : α) : α → Prop where
  | flag {value : α} (given : flag = some value) : Chosen flag file standard value
  | file {value : α} (unset : flag = none) (said : file = some value) : Chosen flag file standard value
  | standard (unset : flag = none) (absent : file = none) : Chosen flag file standard standard

theorem chosen_iff {α : Type} {flag file : Option α} {standard value : α} :
    Chosen flag file standard value ↔ value = flag.getD (file.getD standard) := by
  constructor
  · intro h
    cases h with
    | flag given => simp [given]
    | file unset said => simp [unset, said]
    | standard unset absent => simp [unset, absent]
  · rintro rfl
    cases flag with
    | some value => exact .flag rfl
    | none =>
      cases file with
      | some value => exact .file rfl rfl
      | none => exact .standard rfl rfl

/-- The record that the content of a settings file is decoded to, its log level as it stands there. -/
def SettingsLayer.record (content : Text) : Except Yaml.DecodeError SettingsLayer :=
  match Yaml.Document.ofText? content with
  | none => .error .malformed
  | some none => .ok {}
  | some (some d) => d.decode (recordType d) {}

theorem SettingsLayer.ofYaml_of_record {content : Text} {l : SettingsLayer} (h : record content = .ok l) :
    ofYaml content = .ok l.withoutEmptyLevel := by
  unfold record at h
  unfold ofYaml
  generalize Yaml.Document.ofText? content = document at h ⊢
  rcases document with _ | _ | d
  · cases h
  · cases h
    rfl
  · dsimp only at h ⊢
    rw [h]
    rfl

namespace Invocation

/-- What the settings file of an invocation says; nothing, if there is none. -/
inductive FileSays (i : Invocation) (fs : FileSystem) : SettingsLayer → Prop where
  | none (unasked : i.config = []) : FileSays i fs {}
  | file {content : ByteArray} {l : SettingsLayer} (asked : i.config ≠ []) (read : fs.readFile i.config = .ok content)
      (decoded : SettingsLayer.record content.data.toList = .ok l) : FileSays i fs l

/-- Each of the settings is chosen on its own. An empty log level in the file counts as none. -/
structure Layered (i : Invocation) (l : SettingsLayer) (s : Settings) : Prop where
  ignored : Chosen none l.ignored Settings.standard.filter.ignored s.filter.ignored
  extensions : Chosen none l.extensions Settings.standard.filter.extensions s.filter.extensions
  excluded : Chosen none l.excluded Settings.standard.filter.excluded s.filter.excluded
  marker : Chosen i.marker l.marker Settings.standard.marker s.marker
  logLevel : Chosen i.logLevel (l.logLevel.filter (! ·.isEmpty)) Settings.standard.logLevel s.logLevel
  includeCompat : Chosen i.includeCompat l.includeCompat Settings.standard.includeCompat s.includeCompat
  countInformational :
    Chosen i.countInfo l.countInformational Settings.standard.countInformational s.countInformational

/-- The settings that an invocation arrives at with a file's layer, valid or not. -/
def arrival (i : Invocation) (l : SettingsLayer) : Settings :=
  (Settings.standard.override l.withoutEmptyLevel).override i.layer

theorem layered_iff {i : Invocation} {l : SettingsLayer} {s : Settings} : i.Layered l s ↔ s = i.arrival l := by
  constructor
  · intro h
    obtain ⟨⟨ignored, extensions, excluded⟩, marker, logLevel, includeCompat, countInformational⟩ := s
    have hignored := chosen_iff.mp h.ignored
    have hextensions := chosen_iff.mp h.extensions
    have hexcluded := chosen_iff.mp h.excluded
    have hmarker := chosen_iff.mp h.marker
    have hlevel := chosen_iff.mp h.logLevel
    have hcompat := chosen_iff.mp h.includeCompat
    have hcount := chosen_iff.mp h.countInformational
    dsimp only at hignored hextensions hexcluded hmarker hlevel hcompat hcount
    subst hignored hextensions hexcluded hmarker hlevel hcompat hcount
    rfl
  · rintro rfl
    constructor <;> exact chosen_iff.mpr rfl

variable {i : Invocation} {fs : FileSystem} {l : SettingsLayer}

theorem FileSays.baseSettings_eq (h : i.FileSays fs l) :
    i.baseSettings fs = .ok (Settings.standard.override l.withoutEmptyLevel) := by
  unfold baseSettings
  cases h with
  | none unasked =>
    rw [unasked]
    rfl
  | @file content _ asked read decoded =>
    have hgiven : ¬ i.config.isEmpty = true := by simpa using asked
    -- A file that can be read is there.
    obtain ⟨object, hstat⟩ : ∃ object, fs.stat i.config = .ok object := by
      unfold FileSystem.readFile FileSystem.openFile at read
      unfold FileSystem.stat
      cases hl : fs.lookup i.config with
      | ok object => exact ⟨object, rfl⟩
      | error reason => simp [hl] at read
    have hload : Settings.load fs i.config = .ok (Settings.standard.override l.withoutEmptyLevel) := by
      rw [Settings.load, hstat]
      dsimp only
      rw [Settings.load.read, read]
      dsimp only
      delta Settings.ofYaml
      rw [SettingsLayer.ofYaml_of_record decoded]
    rw [if_neg hgiven, hstat]
    dsimp only
    rw [hload]

theorem FileSays.settings_of_valid (h : i.FileSays fs l) (valid : (i.arrival l).validate = .ok ()) :
    i.settings fs = .ok (i.arrival l) := by
  unfold arrival at valid
  rw [settings, h.baseSettings_eq]
  dsimp only
  rw [valid]
  rfl

theorem FileSays.settings_of_invalid (h : i.FileSays fs l) {e : SettingsError}
    (invalid : (i.arrival l).validate = .error e) : i.settings fs = .error (.settings e) := by
  unfold arrival at invalid
  rw [settings, h.baseSettings_eq]
  dsimp only
  rw [invalid]

theorem FileSays.settings_eq_ok_iff (h : i.FileSays fs l) {s : Settings} :
    i.settings fs = .ok s ↔ i.Layered l s ∧ s.validate = .ok () := by
  rw [layered_iff]
  constructor
  · intro hs
    cases hv : (i.arrival l).validate with
    | error e => cases hs.symm.trans (h.settings_of_invalid hv)
    | ok _ =>
      cases hs.symm.trans (h.settings_of_valid hv)
      exact ⟨rfl, hv⟩
  · rintro ⟨rfl, valid⟩
    exact h.settings_of_valid valid

/-- A flag with its value as one word. -/
def word (f : Flag) (value : Text) : Text := text "--" ++ f.name ++ text "=" ++ value

def switchWord (b : Bool) : Text := if b then text "true" else text "false"

/-- The words for a flag that may be given or not. -/
def optionWords {α : Type} (f : Flag) (spell : α → Text) (o : Option α) : List Text :=
  (o.map fun value => word f (spell value)).toList

/-- A command line with the flags of an invocation that bear on the settings. -/
def settingWords (i : Invocation) : List Text :=
  optionWords .logLevel id i.logLevel ++ (optionWords .marker id i.marker ++
    (optionWords .includeCompat switchWord i.includeCompat ++
      (optionWords .countInfo switchWord i.countInfo ++ [word .config i.config])))

theorem read_word (i : Invocation) (f : Flag) (value : Text) (rest : List Text) :
    i.read (word f value :: rest) = (i.give f value).bind (·.read rest) := by
  cases f <;> rfl

theorem read_optionWords {α : Type} {f : Flag} {spell : α → Text} {put : Invocation → α → Invocation}
    (hgive : ∀ i value, Invocation.give i f (spell value) = .ok (put i value)) (o : Option α) (i : Invocation)
    (rest : List Text) : i.read (optionWords f spell o ++ rest) = (o.elim i (put i)).read rest := by
  cases o with
  | none => rfl
  | some value =>
    have hread := i.read_word f (spell value) rest
    rw [hgive] at hread
    exact hread

theorem switch_switchWord (f : Flag) (b : Bool) : switch f (switchWord b) = .ok b := by
  cases b <;> rfl

theorem give_includeCompat (i : Invocation) (b : Bool) :
    i.give .includeCompat (switchWord b) = .ok { i with includeCompat := some b } := by
  rw [give, switch_switchWord]
  rfl

theorem give_countInfo (i : Invocation) (b : Bool) :
    i.give .countInfo (switchWord b) = .ok { i with countInfo := some b } := by
  rw [give, switch_switchWord]
  rfl

/-- Any choice of flags can be made. -/
theorem read_settingWords (i : Invocation) :
    Invocation.read {} i.settingWords = .ok { i with help := false, version := false, arguments := [] } := by
  rw [settingWords, read_optionWords (f := .logLevel) (fun _ _ => rfl),
    read_optionWords (f := .marker) (fun _ _ => rfl), read_optionWords give_includeCompat,
    read_optionWords give_countInfo, read_word]
  obtain ⟨config, logLevel, marker, includeCompat, countInfo, help, version, arguments⟩ := i
  cases logLevel <;> cases marker <;> cases includeCompat <;> cases countInfo <;> rfl

end Invocation

/-- Any choice of flags can be made on a command line. Whatever it is and whatever the settings file is decoded to, the
settings are chosen one by one; they are those of the run just if they are valid, and else it fails for what is wrong
with them. -/
theorem settings_layered (fs : FileSystem) (i : Invocation) :
    Invocation.read {} i.settingWords = .ok { i with help := false, version := false, arguments := [] } ∧
    ∀ l, i.FileSays fs l →
      (∃ s, i.Layered l s) ∧
      (∀ s, i.settings fs = .ok s ↔ i.Layered l s ∧ s.validate = .ok ()) ∧
      ∀ s e, i.Layered l s → s.validate = .error e → i.settings fs = .error (.settings e) := by
  refine ⟨i.read_settingWords, ?_⟩
  intro l h
  refine ⟨⟨i.arrival l, Invocation.layered_iff.mpr rfl⟩, fun s => h.settings_eq_ok_iff, ?_⟩
  intro s e hs invalid
  obtain rfl := Invocation.layered_iff.mp hs
  exact h.settings_of_invalid invalid

/-- A settings file that asks for no marker. -/
def unmarked : FileSystem where
  objects := [([text "c.yml"], .file ⟨(text "marker_file: ''\n").toArray⟩)]

/-- The empty marker of the file stands, and so does a switch that was given its standard value. -/
theorem unmarked_layered :
    Invocation.read {} [text "--config=c.yml", text "--include-compat", text "--count-info=true"] =
      .ok { config := text "c.yml", includeCompat := some true, countInfo := some true } ∧
    Invocation.FileSays { config := text "c.yml", includeCompat := some true, countInfo := some true } unmarked
      { marker := some [] } ∧
    Invocation.settings { config := text "c.yml", includeCompat := some true, countInfo := some true } unmarked =
      .ok { Settings.standard with marker := [], includeCompat := true } := by
  have hrecord : SettingsLayer.record (text "marker_file: ''\n") = .ok { marker := some [] } := by cbv
  have hsays : Invocation.FileSays { config := text "c.yml", includeCompat := some true, countInfo := some true }
      unmarked { marker := some [] } := .file (by decide) rfl hrecord
  refine ⟨by decide, hsays, (((settings_layered _ _).2 _ hsays).2.1 _).mpr ⟨?_, by decide⟩⟩
  exact {
    ignored := .standard rfl rfl
    extensions := .standard rfl rfl
    excluded := .standard rfl rfl
    marker := .file rfl rfl
    logLevel := .standard rfl rfl
    includeCompat := .flag rfl
    countInformational := .flag rfl }

end SignalAudit
