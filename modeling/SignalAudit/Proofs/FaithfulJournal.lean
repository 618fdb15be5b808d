import SignalAudit.Proofs.FileFailure
import SignalAudit.Proofs.ScanJournal

/-!
What the journal of a scan says. It can be told from the files that the scan visits: each is announced, and each of
its lines that is about a signal is noted, up to the end of the scan or to what stops it.
-/

namespace SignalAudit

/-- What a raw line says about a signal, if it can be read and classified. -/
def reading (patterns : List Pattern) (raw : Text) : Option Match :=
  if Text.isOverlong raw then none else (classify patterns (Text.dropReturn raw)).toOption

theorem reading_eq_some_iff {patterns : List Pattern} {raw : Text} {m : Match} :
    reading patterns raw = some m ↔ Yields patterns raw m := by
  unfold reading Yields
  cases Text.isOverlong raw <;> cases classify patterns (Text.dropReturn raw) <;> simp [Except.toOption]

/-- A line, by its number, and the signal that it is about. -/
structure Sighting where
  line : Nat
  found : Match
  deriving Repr, DecidableEq

/-- The sightings in lines of which the first has the given number. -/
def sightings (patterns : List Pattern) (n : Nat) (lines : List Text) : List Sighting :=
  (lines.zipIdx n).filterMap fun x => ((reading patterns x.1).filter (·.kind ≠ .noMatch)).map (Sighting.mk x.2)

theorem sightings_cons_of_yields {patterns : List Pattern} {raw : Text} {m : Match} (h : Yields patterns raw m)
    (n : Nat) (rest : List Text) : sightings patterns n (raw :: rest) =
      (if m.kind = .noMatch then [] else [⟨n, m⟩]) ++ sightings patterns (n + 1) rest := by
  have hreading := reading_eq_some_iff.mpr h
  by_cases hk : m.kind = .noMatch <;> simp [sightings, hreading, hk]

theorem exists_sighting_iff {patterns : List Pattern} {lines : List Text} {n : Nat} {m : Match}
    (hm : m.kind ≠ .noMatch) :
    (∃ s ∈ sightings patterns n lines, s.found = m) ↔ ∃ raw ∈ lines, Yields patterns raw m := by
  have hfound : (sightings patterns n lines).map Sighting.found =
      lines.filterMap fun raw => (reading patterns raw).filter (·.kind ≠ .noMatch) := by
    conv_rhs => rw [← List.zipIdx_map_fst n lines, List.filterMap_map]
    simp [sightings, List.map_filterMap, Function.comp_def]
  rw [← List.mem_map, hfound]
  simp [List.mem_filterMap, Option.filter_eq_some_iff, reading_eq_some_iff, hm]

/-- The journal's entry on a sighting in a file. -/
def Sighting.entry (path : Text) (s : Sighting) : LogEntry :=
  ⟨.trace, path ++ text ":" ++ Text.ofNat s.line ++ text ": " ++ s.found.kind.name ++ text " " ++ s.found.name⟩

/-- The journal's entries on a file of which these lines were classified. -/
def fileEntries (patterns : List Pattern) (path : Text) (lines : List Text) : List LogEntry :=
  ⟨.debug, text "Scanning " ++ path⟩ :: (sightings patterns 1 lines).map (Sighting.entry path)

/-- The raw lines of the file that a path leads to. -/
def FileSystem.linesOf (fs : FileSystem) (path : Text) : List Text :=
  (fs.readFile path).toOption.elim [] Text.rawLines

theorem FileSystem.linesOf_of_read {fs : FileSystem} {path : Text} {content : ByteArray}
    (h : fs.readFile path = .ok content) : fs.linesOf path = Text.rawLines content := by
  simp [linesOf, h, Except.toOption]

theorem says_iff_linesOf {fs : FileSystem} {patterns : List Pattern} {path : Text} {m : Match} :
    Says fs patterns path m ↔ ∃ raw ∈ fs.linesOf path, Yields patterns raw m := by
  cases h : fs.readFile path <;> simp [Says, FileSystem.linesOf, h, Except.toOption]

namespace Logged

variable {fs : FileSystem} {patterns : List Pattern} {path : Text}

theorem journal_record (path : Text) (n : Nat) (m : Match) (s : Logged) : (record path n m s).journal.toList =
    s.journal.toList ++ if m.kind = .noMatch then [] else [Sighting.entry path ⟨n, m⟩] := by
  unfold record
  by_cases hk : m.kind = .noMatch <;> simp [hk, log, Sighting.entry, matchMessage]

theorem journal_classifyLines {lines : List Text} (h : ∀ raw ∈ lines, ∃ m, Yields patterns raw m) (n : Nat)
    (s : Logged) : (classifyLines patterns (record path) n lines s).1.journal.toList =
      s.journal.toList ++ (sightings patterns n lines).map (Sighting.entry path) := by
  induction lines generalizing n s with
  | nil => simp [classifyLines, sightings]
  | cons raw rest ih =>
    obtain ⟨⟨m, hm⟩, hrest⟩ := List.forall_mem_cons.mp h
    rw [classifyLines_of_yields hm, ih hrest, journal_record, sightings_cons_of_yields hm, List.map_append,
      List.append_assoc]
    split <;> rfl

/-- The journal's entries on some lines of a file, with its announcement. -/
theorem journal_announced {lines : List Text} (h : ∀ raw ∈ lines, ∃ m, Yields patterns raw m) (s : Logged) :
    (classifyLines patterns (record path) 1 lines (s.log .debug (text "Scanning " ++ path))).1.journal.toList =
      s.journal.toList ++ fileEntries patterns path lines := by
  rw [journal_classifyLines h]
  simp [log, fileEntries]

theorem visitFile_of_classifies (h : Classifies fs patterns path) (s : Logged) :
    ∃ t, s.visitFile fs patterns path = (t, none) ∧
      t.journal.toList = s.journal.toList ++ fileEntries patterns path (fs.linesOf path) := by
  obtain ⟨content, hr, hlines⟩ := h
  have hjournal : (classifyLines patterns (record path) 1 (Text.rawLines content)
      (s.log .debug (text "Scanning " ++ path))).1.journal.toList = _ := journal_announced hlines s
  have hnone : (classifyLines patterns (record path) 1 (Text.rawLines content)
      (s.log .debug (text "Scanning " ++ path))).2 = none := classifyLines_eq_none_iff.mpr hlines
  unfold visitFile
  rw [classifyFile_of_read hr, classifyContent, FileSystem.linesOf_of_read hr]
  generalize classifyLines patterns (record path) 1 (Text.rawLines content)
    (s.log .debug (text "Scanning " ++ path)) = out at hjournal hnone ⊢
  obtain ⟨t, _ | e⟩ := out
  · exact ⟨_, rfl, hjournal⟩
  · cases hnone

theorem visitFile_of_failsAfter {e : FileError} {before : List Text} (h : FailsAfter fs patterns path e before)
    (s : Logged) : ∃ t, s.visitFile fs patterns path = (t, some e) ∧
      t.journal.toList = s.journal.toList ++ fileEntries patterns path before := by
  refine ⟨_, ?_, journal_announced h.fine s⟩
  unfold visitFile
  rw [classifyFile_of_failsAfter h]

end Logged

namespace ScanOptions

variable (o : ScanOptions) (fs : FileSystem)

/-- The journal's entries on a file that was classified to its end. -/
def entriesOf (path : Text) : List LogEntry := fileEntries (Pattern.orStandard o.patterns) path (fs.linesOf path)

theorem logged_visit_eq_none_iff (path : Text) (s : Logged) :
    ((o.loggedWalk fs).visit path s).2 = none ↔ Classifies fs (Pattern.orStandard o.patterns) path := by
  rw [← o.visit_eq_none_iff fs path s.usage, (o.loggedWalk_maps fs).visit path s]

theorem journal_visitAll {paths : List Text}
    (h : ∀ path ∈ paths, Classifies fs (Pattern.orStandard o.patterns) path) (s : Logged) :
    ((o.loggedWalk fs).visitAll paths s).1.journal.toList = s.journal.toList ++ paths.flatMap (o.entriesOf fs) := by
  induction paths generalizing s with
  | nil => simp [Walk.visitAll]
  | cons path rest ih =>
    obtain ⟨hpath, hrest⟩ := List.forall_mem_cons.mp h
    obtain ⟨t, ht, hjournal⟩ := Logged.visitFile_of_classifies hpath s
    have hvisit : (o.loggedWalk fs).visit path s = (t, none) := ht
    rw [Walk.visitAll, hvisit, List.flatMap_cons, ← List.append_assoc]
    exact (ih hrest t).trans (congrArg (· ++ _) hjournal)

theorem scanLogged_eq_run (root : Text) : scanLogged fs o root = match (o.loggedWalk fs).run root {} with
    | (p, none) => ((p.state.log .info (Logged.summary p.state.usage)).journal, .ok p.state.usage)
    | (p, some error) => (p.state.journal, .error error) := by
  rfl

/-- What ends a failing scan, and its journal up to there: an access error after some files that were all classified,
or a file that fails after some of its lines. -/
inductive CutOff (root : Text) : ScanError → List LogEntry → Prop where
  | access {place : Text} {cause : AccessError} (calls : (o.walk fs).calls root {} = (o.walk fs).itinerary root)
      (fine : ∀ path ∈ (o.walk fs).itinerary root, Classifies fs (Pattern.orStandard o.patterns) path) :
      CutOff root (.access place cause) (((o.walk fs).itinerary root).flatMap (o.entriesOf fs))
  | visit {before after read : List Text} {path : Text} {cause : FileError}
      (calls : (o.walk fs).calls root {} = before ++ [path])
      (route : (o.walk fs).itinerary root = before ++ path :: after)
      (fine : ∀ path ∈ before, Classifies fs (Pattern.orStandard o.patterns) path)
      (fails : FailsAfter fs (Pattern.orStandard o.patterns) path cause read) :
      CutOff root (.visit path cause)
        (before.flatMap (o.entriesOf fs) ++ fileEntries (Pattern.orStandard o.patterns) path read)

variable {root : Text}

theorem loggedWalk_itinerary (root : Text) : (o.loggedWalk fs).itinerary root = (o.walk fs).itinerary root := rfl

theorem loggedWalk_run_of_fine
    (fine : ∀ path ∈ (o.walk fs).itinerary root, Classifies fs (Pattern.orStandard o.patterns) path) :
    ∃ p, (o.loggedWalk fs).run root {} = (p, ((o.walk fs).survey.run root []).2) ∧
      p.state.journal.toList = ((o.walk fs).itinerary root).flatMap (o.entriesOf fs) := by
  refine ⟨_, Walk.run_of_fine (o.logged_visit_eq_none_iff fs) fine {}, ?_⟩
  rw [loggedWalk_itinerary, o.journal_visitAll fs fine]
  rfl

theorem journal_of_ok {u : Usage} (h : scan fs o root = .ok u) : (scanLogged fs o root).1.toList =
    ((o.walk fs).calls root {}).flatMap (o.entriesOf fs) ++ [⟨.info, Logged.summary u⟩] := by
  have hresult := (scanLogged_result fs o root).trans h
  obtain ⟨hsurvey, fine⟩ := (Walk.run_eq_none_iff (o.visit_eq_none_iff fs) root {}).mp ((o.scan_eq_ok_iff fs).mp h).1
  obtain ⟨p, hrun, hjournal⟩ := o.loggedWalk_run_of_fine fs fine
  rw [hsurvey] at hrun
  rw [scanLogged_eq_run, hrun] at hresult ⊢
  obtain rfl := Except.ok.inj hresult
  rw [Walk.calls_eq_called, Walk.called_of_fine (o.visit_eq_none_iff fs) fine, ← hjournal]
  simp [Logged.log]

theorem cutOff_of_fine {e : ScanError} (h : scan fs o root = .error e)
    (fine : ∀ path ∈ (o.walk fs).itinerary root, Classifies fs (Pattern.orStandard o.patterns) path) :
    o.CutOff fs root e (scanLogged fs o root).1.toList := by
  have hsurvey : ((o.walk fs).survey.run root []).2 = some e := by
    have herror := (o.scan_eq_error_iff fs).mp h
    rwa [Walk.run_of_fine (o.visit_eq_none_iff fs) fine] at herror
  have hcalls : (o.walk fs).calls root {} = (o.walk fs).itinerary root := by
    rw [Walk.calls_eq_called, Walk.called_of_fine (o.visit_eq_none_iff fs) fine]
  obtain ⟨p, hrun, hjournal⟩ := o.loggedWalk_run_of_fine fs fine
  rw [scanLogged_eq_run, hrun, hsurvey]
  dsimp only
  rw [hjournal]
  cases (o.walk fs).survey.run_ends hsurvey with
  | access place cause => exact .access hcalls fine
  | visit failed => cases failed

theorem cutOff_of_error {e : ScanError} (h : scan fs o root = .error e) :
    o.CutOff fs root e (scanLogged fs o root).1.toList := by
  by_cases all : ∀ path ∈ (o.walk fs).itinerary root, Classifies fs (Pattern.orStandard o.patterns) path
  · exact o.cutOff_of_fine fs h all
  · obtain ⟨before, path, after, route, fine, bad⟩ := exists_first_not all
    obtain ⟨cause, read, fails⟩ := exists_failsAfter bad
    obtain ⟨s, hvisit, hjournal⟩ := Logged.visitFile_of_failsAfter fails ((o.loggedWalk fs).visitAll before {}).1
    obtain ⟨hstate, herror⟩ := Walk.run_of_cut (o.logged_visit_eq_none_iff fs) route fine hvisit
    have hrun : (o.loggedWalk fs).run root {} = (((o.loggedWalk fs).run root {}).1, some (.visit path cause)) :=
      Prod.ext rfl herror
    have hresult := (scanLogged_result fs o root).trans h
    rw [scanLogged_eq_run, hrun] at hresult ⊢
    obtain rfl := Except.error.inj hresult
    have hcalls : (o.walk fs).calls root {} = before ++ [path] := by
      rw [Walk.calls_eq_called, route, Walk.called_of_cut (o.visit_eq_none_iff fs) fine bad]
    dsimp only
    rw [hstate, hjournal, o.journal_visitAll fs fine]
    exact .visit hcalls route fine fails

end ScanOptions

/-- A scan comes to the same with a journal and without. If it succeeds, the journal announces each visited file and
notes its sightings by line, and closes with the number of files and the sizes of the four sets, which hold the names
sighted with their kinds. If it fails, the journal has what comes before the line or entry that it fails at. -/
theorem scanLogged_faithful (fs : FileSystem) (o : ScanOptions) (root : Text) :
    (scanLogged fs o root).2 = scan fs o root ∧
    (∀ u, scan fs o root = .ok u →
      (scanLogged fs o root).1.toList = ((o.walk fs).calls root {}).flatMap (o.entriesOf fs) ++
        [⟨.info, text "Scanned " ++ Text.ofNat u.files ++ text " files: " ++
          Text.ofNat u.declared.size ++ text " declared, " ++ Text.ofNat u.emitted.size ++ text " emitted, " ++
          Text.ofNat u.connected.size ++ text " connected, " ++
          Text.ofNat u.compatConnected.size ++ text " compat-connected"⟩] ∧
      ∀ k, k.Kept → ∀ name, name ∈ u.names k ↔ ∃ path ∈ (o.walk fs).calls root {},
        ∃ s ∈ sightings (Pattern.orStandard o.patterns) 1 (fs.linesOf path), s.found = ⟨k, name⟩) ∧
    ∀ e, scan fs o root = .error e → o.CutOff fs root e (scanLogged fs o root).1.toList := by
  refine ⟨scanLogged_result fs o root, fun u hu => ⟨o.journal_of_ok fs hu, fun k hk name => ?_⟩,
    fun e he => o.cutOff_of_error fs he⟩
  rw [o.mem_names_scan fs hu k hk name, ScanOptions.Finds]
  apply exists_congr
  intro path
  apply and_congr_right
  intro _
  rw [exists_sighting_iff hk.1, says_iff_linesOf]

/-- Three sources of which the second fails at its second line. -/
def interrupted : FileSystem where
  objects := [
    ([text "r"], .directory),
    ([text "a.cpp", text "r"], .file ⟨(text "x();\nemit_signal(\"done\");\nemit_signal(\"done\");").toArray⟩),
    ([text "b.cpp", text "r"],
      .file ⟨(text "ADD_SIGNAL(MethodInfo(\"hit\"));\nemit_signal(\"hit;\nemit_signal(\"hit\");\n").toArray⟩),
    ([text "c.cpp", text "r"], .file ⟨(text "emit_signal(\"late\");\n").toArray⟩)]

theorem shared_interrupted_journals :
    (scanLogged shared ⟨.standard, []⟩ (text "r")).1.toList = [
      ⟨.debug, text "Scanning r/a.cpp"⟩,
      ⟨.trace, text "r/a.cpp:1: declaration done"⟩,
      ⟨.trace, text "r/a.cpp:2: emission done"⟩,
      ⟨.debug, text "Scanning r/lib/b.h"⟩,
      ⟨.trace, text "r/lib/b.h:2: connection hit"⟩,
      ⟨.debug, text "Scanning r/lib/up/a.cpp"⟩,
      ⟨.trace, text "r/lib/up/a.cpp:1: declaration done"⟩,
      ⟨.trace, text "r/lib/up/a.cpp:2: emission done"⟩,
      ⟨.debug, text "Scanning r/lib/up/lib/b.h"⟩,
      ⟨.trace, text "r/lib/up/lib/b.h:2: connection hit"⟩,
      ⟨.info, text "Scanned 4 files: 1 declared, 1 emitted, 1 connected, 0 compat-connected"⟩] ∧
    ScanOptions.CutOff ⟨.standard, []⟩ interrupted (text "r")
      (.visit (text "r/b.cpp") (.malformed 2 ⟨text "emit_signal(\"", text "\""⟩)) [
      ⟨.debug, text "Scanning r/a.cpp"⟩,
      ⟨.trace, text "r/a.cpp:2: emission done"⟩,
      ⟨.trace, text "r/a.cpp:3: emission done"⟩,
      ⟨.debug, text "Scanning r/b.cpp"⟩,
      ⟨.trace, text "r/b.cpp:1: declaration hit"⟩] := by
  have hshared : scan shared ⟨.standard, []⟩ (text "r") = .ok
      ⟨.ofList [text "done"], .ofList [text "done"], .ofList [text "hit"], ∅, 4⟩ := by decide +kernel
  have hinterrupted : scan interrupted ⟨.standard, []⟩ (text "r") =
      .error (.visit (text "r/b.cpp") (.malformed 2 ⟨text "emit_signal(\"", text "\""⟩)) := by decide +kernel
  refine ⟨((scanLogged_faithful shared ⟨.standard, []⟩ (text "r")).2.1 _ hshared).1.trans (by decide +kernel), ?_⟩
  have hcut := (scanLogged_faithful interrupted ⟨.standard, []⟩ (text "r")).2.2 _ hinterrupted
  exact Eq.mp (congrArg (ScanOptions.CutOff _ _ _ _) (by decide +kernel)) hcut

end SignalAudit
