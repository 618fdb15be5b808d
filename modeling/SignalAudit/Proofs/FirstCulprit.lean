import SignalAudit.Proofs.CompatFolding
import SignalAudit.Proofs.LineReading
import SignalAudit.Proofs.ScanExactness
import SignalAudit.Proofs.WalkCourse

/-!
The culprit that a failing scan names. Files come in the order of the walk and lines in the order of their file; the
error is about the first malformed line in this order, if no other error comes before it.
-/

namespace SignalAudit

namespace ScanOptions

/-- On the course of a scan, after some files that are classified to their end and before any error of access, comes
the file of a path; its line of this number is malformed, by this cause, and the lines before can all be read and
classified. -/
structure Culprit (o : ScanOptions) (fs : FileSystem) (root : Text) (before : List Text) (path : Text) (number : Nat)
    (raw : Text) (cause : Malformed) : Prop where
  route : (before ++ [path]).map Sight.file <+: (o.walk fs).course root
  fine : ∀ earlier ∈ before, Classifies fs (Pattern.orStandard o.patterns) earlier
  line : ∃ content lines later, fs.readFile path = .ok content ∧ Text.rawLines content = lines ++ raw :: later ∧
    number = lines.length + 1 ∧ ∀ line ∈ lines, ∃ m, Yields (Pattern.orStandard o.patterns) line m
  malformed : classify (Pattern.orStandard o.patterns) (Text.dropReturn raw) = .error cause

variable {o : ScanOptions} {fs : FileSystem} {root path : Text} {before : List Text} {e : FileError}

theorem visit_of_failsAfter {lines : List Text} (h : FailsAfter fs (Pattern.orStandard o.patterns) path e lines)
    (u : Usage) : ∃ v, (o.walk fs).visit path u = (v, some e) := by
  have hadd : u.addFile fs (Pattern.orStandard o.patterns) path = _ := classifyFile_of_failsAfter h u
  refine ⟨(u.addFile fs (Pattern.orStandard o.patterns) path).1, ?_⟩
  dsimp only [walk, Usage.visitFile]
  rw [hadd]

theorem not_classifies_of_failsAfter {lines : List Text}
    (h : FailsAfter fs (Pattern.orStandard o.patterns) path e lines) :
    ¬ Classifies fs (Pattern.orStandard o.patterns) path := by
  intro hc
  obtain ⟨v, hv⟩ := visit_of_failsAfter h {}
  have hnone := (o.visit_eq_none_iff fs path {}).mpr hc
  rw [hv] at hnone
  cases hnone

/-- A scan ends at the first file on its course that cannot be classified to its end. -/
theorem scan_of_failsAfter {after lines : List Text} (route : (o.walk fs).itinerary root = before ++ path :: after)
    (fine : ∀ earlier ∈ before, Classifies fs (Pattern.orStandard o.patterns) earlier)
    (fails : FailsAfter fs (Pattern.orStandard o.patterns) path e lines) :
    scan fs o root = .error (.visit path e) ∧ (o.walk fs).calls root {} = before ++ [path] := by
  obtain ⟨v, hv⟩ := visit_of_failsAfter fails ((o.walk fs).visitAll before {}).1
  constructor
  · rw [scan_eq_error_iff]
    exact (Walk.run_of_cut (o.visit_eq_none_iff fs) route fine hv).2
  · rw [Walk.calls_eq_called, route]
    exact Walk.called_of_cut (o.visit_eq_none_iff fs) fine (not_classifies_of_failsAfter fails) {}

/-- A scan that fails at a file fails at the first that cannot be classified to its end. -/
theorem exists_failsAfter_of_scan (h : scan fs o root = .error (.visit path e)) :
    ∃ before after lines, (o.walk fs).itinerary root = before ++ path :: after ∧
      (∀ earlier ∈ before, Classifies fs (Pattern.orStandard o.patterns) earlier) ∧
      FailsAfter fs (Pattern.orStandard o.patterns) path e lines := by
  by_cases fine : ∀ path ∈ (o.walk fs).itinerary root, Classifies fs (Pattern.orStandard o.patterns) path
  · -- Then the scan ended as its survey does, and a survey fails at no file.
    rw [scan_eq_error_iff, Walk.run_of_fine (o.visit_eq_none_iff fs) fine] at h
    cases (o.walk fs).survey.run_ends h with
    | visit failed => cases failed
  · obtain ⟨before, bad, after, route, hbefore, hbad⟩ := exists_first_not fine
    obtain ⟨cause, lines, hfails⟩ := exists_failsAfter hbad
    have hscan := (scan_of_failsAfter route hbefore hfails).1
    cases h.symm.trans hscan
    exact ⟨before, after, lines, route, hbefore, hfails⟩

/-- Read to its culprit, a file fails there, by the line's length if it is over-long. -/
theorem Culprit.fails {number : Nat} {raw : Text} {cause : Malformed}
    (h : o.Culprit fs root before path number raw cause) : ∃ lines, FailsAfter fs (Pattern.orStandard o.patterns) path
      (if Text.isOverlong raw then .overlong else .malformed number cause) lines := by
  obtain ⟨content, lines, later, read, hlines, rfl, yields⟩ := h.line
  refine ⟨lines, .line read hlines yields ?_⟩
  cases hlong : Text.isOverlong raw with
  | true => exact .overlong hlong
  | false =>
    rw [Nat.add_comm]
    exact .malformed hlong h.malformed

theorem Culprit.ends {number : Nat} {raw : Text} {cause : Malformed}
    (h : o.Culprit fs root before path number raw cause) :
    scan fs o root = .error (.visit path (if Text.isOverlong raw then .overlong else .malformed number cause)) ∧
      (o.walk fs).calls root {} = before ++ [path] := by
  obtain ⟨lines, hfails⟩ := h.fails
  obtain ⟨after, route⟩ := (o.walk fs).isPrefix_course_iff.mp h.route
  rw [List.append_assoc] at route
  exact scan_of_failsAfter route.symm h.fine hfails

theorem exists_culprit {number : Nat} {cause : Malformed}
    (h : scan fs o root = .error (.visit path (.malformed number cause))) :
    ∃ before raw, o.Culprit fs root before path number raw cause ∧ Text.isOverlong raw = false := by
  obtain ⟨before, after, lines, route, fine, fails⟩ := exists_failsAfter_of_scan h
  have hroute : (before ++ [path]).map Sight.file <+: (o.walk fs).course root := by
    rw [Walk.isPrefix_course_iff, route]
    exact ⟨after, List.append_assoc ..⟩
  cases fails with
  | line read split yields stops =>
    cases stops with
    | malformed short bad =>
      exact ⟨before, _, ⟨hroute, fine, ⟨_, _, _, read, split, Nat.add_comm .., yields⟩, bad⟩, short⟩

end ScanOptions

/-- A scan fails by a malformed line just if there is a culprit that is not over-long, and then names its file, its
number and what the classifier says of it. It has visited the files before and that one, and no other. A culprit that
is over-long also ends the scan, but for its length. -/
theorem scan_names_culprit (fs : FileSystem) (o : ScanOptions) (root path : Text) (number : Nat) (cause : Malformed) :
    (scan fs o root = .error (.visit path (.malformed number cause)) ↔
      ∃ before raw, o.Culprit fs root before path number raw cause ∧ Text.isOverlong raw = false) ∧
    (∀ before raw, o.Culprit fs root before path number raw cause →
      (o.walk fs).calls root {} = before ++ [path] ∧
        (Text.isOverlong raw = true → scan fs o root = .error (.visit path .overlong))) ∧
    scanMessage (.visit path (.malformed number cause)) =
      text "failed to walk directory: " ++ path ++ text ": line " ++ Text.ofNat number ++ text ": " ++
        cause.message := by
  refine ⟨⟨ScanOptions.exists_culprit, ?_⟩, ?_, ?_⟩
  · rintro ⟨before, raw, culprit, short⟩
    have hends := culprit.ends.1
    rwa [short] at hends
  · intro before raw culprit
    refine ⟨culprit.ends.2, fun long => ?_⟩
    have hends := culprit.ends.1
    rwa [long] at hends
  · have hline : text ": line " = text ": " ++ text "line " := rfl
    simp [scanMessage, WalkError.message, FileError.message, hline]

/-- A file with a malformed line below a directory, and behind it a link that leads nowhere. -/
def troubled : FileSystem where
  objects := [
    ([text "r"], .directory),
    ([text "a.cpp", text "r"], .file ⟨(text "emit_signal(\"done\");\n").toArray⟩),
    ([text "b", text "r"], .directory),
    ([text "c.h", text "b", text "r"],
      .file ⟨(text "\n// emit_signal(\"x\nemit_signal(\"y);\r\n->connect(\"z").toArray⟩),
    ([text "d.cpp", text "r"], .link (text "nowhere"))]

theorem troubled_culprit : ∃ before raw, ScanOptions.Culprit ⟨.standard, []⟩ troubled (text "/r") before
    (text "/r/b/c.h") 3 raw ⟨text "emit_signal(\"", text "\""⟩ ∧ Text.isOverlong raw = false :=
  (scan_names_culprit _ _ _ _ _ _).1.mp (by decide +kernel)

/-- The pattern of a declaration. -/
def declaring : Pattern := ⟨.declaration, text "ADD_SIGNAL(MethodInfo(\"", text "\""⟩

/-- A declaration whose name of `n` bytes has no end. -/
def unclosed (n : Nat) : Text := declaring.marker ++ List.replicate n 0x61

theorem classify_unclosed (n : Nat) :
    classify Pattern.standard (unclosed n) = .error ⟨declaring.marker, declaring.terminators⟩ := by
  have hvisible : isComment (unclosed n) = false := rfl
  have hendless : Text.beforeAny? declaring.terminators (List.replicate n 0x61) = none := by
    rw [Option.eq_none_iff_forall_ne_some]
    intro name hname
    have hquote : quoteMark ∈ List.replicate n 0x61 := (beforeAny?_quote_iff.mp hname).2.subset (by simp)
    simp [quoteMark] at hquote
  have hstandard : Pattern.standard = declaring :: Pattern.standard.tail := rfl
  rw [classify, hvisible, if_neg Bool.false_ne_true, hstandard]
  exact firstMatch_of_unended (Text.after?_append _ _) hendless

theorem not_mem_unclosed {b : UInt8} (hmarker : b ∉ declaring.marker) (hname : b ≠ 0x61) (n : Nat) :
    b ∉ unclosed n := by
  simp [unclosed, hmarker, hname]

theorem dropReturn_unclosed (n : Nat) : Text.dropReturn (unclosed n) = unclosed n := by
  apply if_neg
  intro hlast
  exact not_mem_unclosed (by decide) (by decide) n (List.mem_of_getLast? hlast)

/-- One file with one line. -/
def lone (line : Text) : FileSystem where
  objects := [([text "r"], .directory), ([text "a.cpp", text "r"], .file ⟨(Text.ofLines [line]).toArray⟩)]

theorem lone_course (line : Text) :
    (ScanOptions.walk ⟨.standard, []⟩ (lone line)).course (text "/r") = [.file (text "/r/a.cpp")] := rfl

theorem lone_read (line : Text) : (lone line).readFile (text "/r/a.cpp") = .ok ⟨(Text.ofLines [line]).toArray⟩ := rfl

theorem unclosed_culprit (n : Nat) : ScanOptions.Culprit ⟨.standard, []⟩ (lone (unclosed n)) (text "/r") []
    (text "/r/a.cpp") 1 (unclosed n) ⟨declaring.marker, declaring.terminators⟩ where
  route := by
    rw [lone_course]
    simp
  fine := nofun
  line := by
    have hnewline : Text.newline ∉ unclosed n := not_mem_unclosed (by decide) (by decide) n
    exact ⟨_, [], [], lone_read _, Text.rawLines_ofLines (by simpa using hnewline), rfl, nofun⟩
  malformed := by
    rw [dropReturn_unclosed]
    exact classify_unclosed n

/-- The only line of a tree is malformed, and too long to be read. -/
theorem overlong_culprit : ScanOptions.Culprit ⟨.standard, []⟩ (lone (unclosed Text.lineLimit)) (text "/r") []
    (text "/r/a.cpp") 1 (unclosed Text.lineLimit) ⟨declaring.marker, declaring.terminators⟩ ∧
    scan (lone (unclosed Text.lineLimit)) ⟨.standard, []⟩ (text "/r") =
      .error (.visit (text "/r/a.cpp") .overlong) := by
  have hlong : Text.isOverlong (unclosed Text.lineLimit) = true := by
    simp [Text.isOverlong, unclosed]
  have hends := (unclosed_culprit Text.lineLimit).ends.1
  rw [hlong] at hends
  exact ⟨unclosed_culprit Text.lineLimit, hends⟩

end SignalAudit
