import SignalAudit.Proofs.ReportTally
import SignalAudit.Proofs.SourceLines

/-!
A printed report can be read back. A name stands in its line as it is, between texts that only depend on the group, no
line is empty but those that end a group, and no scanned name goes over the end of its line.
-/

namespace SignalAudit

namespace Text

/-- The byte that begins a directive of a template. -/
def percent : UInt8 := 0x25

theorem takeWhile_literal {literal : Text} (h : percent ∉ literal) (rest : Text) :
    (literal ++ rest).takeWhile (· != 0x25) = literal ++ rest.takeWhile (· != 0x25) := by
  apply List.takeWhile_append_of_pos
  intro b hb
  simp only [bne_iff_ne, ne_eq]
  rintro rfl
  exact h hb

theorem fillDirective_string (operand after : Text) :
    fillDirective operand { rest := 0x73 :: after } = (operand, { rest := after, used := true }) := by
  rfl

theorem fillFrom_literal {literal : Text} (h : percent ∉ literal) (operand : Text) (steps : Nat) :
    fillFrom operand (steps + 1) { rest := literal, used := true } = literal := by
  have hall : literal.takeWhile (· != 0x25) = literal := by simpa using takeWhile_literal h []
  simp [fillFrom, hall]

/-- A template with one directive, for a string, puts its operand there, whatever the operand is. -/
theorem fill_string {before after : Text} (hb : percent ∉ before) (ha : percent ∉ after) (operand : Text) :
    fill (before ++ text "%s" ++ after) operand = before ++ operand ++ after := by
  have htemplate : before ++ text "%s" ++ after = before ++ percent :: 0x73 :: after := List.append_assoc ..
  have hliteral : (before ++ percent :: 0x73 :: after).takeWhile (· != 0x25) = before := by
    rw [takeWhile_literal hb]
    exact List.append_nil before
  have hlength : (before ++ percent :: 0x73 :: after).length = before.length + after.length + 1 + 1 := by
    simp only [List.length_append, List.length_cons]
    omega
  rw [htemplate, fill, fillFrom]
  dsimp only
  rw [hliteral, List.drop_left]
  dsimp only
  rw [fillDirective_string, hlength, fillFrom_literal ha]

end Text

theorem paint_yellow (t : Text) : paint yellow t = text "\x1b[33m" ++ t ++ text "\x1b[0m" := by
  have hon : text "\x1b[" ++ Text.ofInt yellow ++ text "m" = text "\x1b[33m" := by decide
  have hoff : text "\x1b[" ++ (Text.ofNat (resetOf yellow) ++ text "m") = text "\x1b[0m" := by decide
  rw [paint, hon, List.append_assoc _ (Text.ofNat _), List.append_assoc, hoff]

namespace Standing

/-- What stands before a name in the report. -/
def opening (colored : Bool) : Text := text "Signal " ++ if colored then text "\x1b[33m" else []

/-- What the report says of a name, behind it. -/
def verdict (s : Standing) : Text := s.wording.drop (text "Signal %s").length

/-- What stands behind a name in the report. -/
def ending (s : Standing) (colored : Bool) : Text := (if colored then text "\x1b[0m" else []) ++ s.verdict

/-- A line of the report. -/
def sentence (s : Standing) (colored : Bool) (name : Text) : Text := opening colored ++ name ++ s.ending colored

theorem wording_eq (s : Standing) : s.wording = text "Signal " ++ text "%s" ++ s.verdict := by
  rcases s with ⟨_ | _, _ | _, _ | _⟩ <;> rfl

theorem fill_wording (s : Standing) (colored : Bool) (name : Text) :
    Text.fill s.wording (if colored then paint yellow name else name) = s.sentence colored name := by
  have hb : Text.percent ∉ text "Signal " := by decide
  have ha : Text.percent ∉ s.verdict := by
    rcases s with ⟨_ | _, _ | _, _ | _⟩ <;> decide
  rw [wording_eq, Text.fill_string hb ha, paint_yellow]
  cases colored <;> simp [sentence, opening, ending]

theorem sentence_ne_nil (s : Standing) (colored : Bool) (name : Text) : s.sentence colored name ≠ [] := by
  have h : text "Signal " ≠ [] := by decide
  simp [sentence, opening, h]

theorem newline_not_mem_sentence {s : Standing} {colored : Bool} {name : Text} (h : Text.newline ∉ name) :
    Text.newline ∉ s.sentence colored name := by
  have hb : Text.newline ∉ opening colored := by cases colored <;> decide
  have ha : Text.newline ∉ s.ending colored := by
    rcases s with ⟨_ | _, _ | _, _ | _⟩ <;> cases colored <;> decide
  simp [sentence, h, hb, ha]

/-- The name in a line of the report. -/
def readName? (s : Standing) (colored : Bool) (line : Text) : Option Text :=
  (line.dropPrefix? (opening colored)).bind (·.dropSuffix? (s.ending colored))

theorem readName?_sentence (s : Standing) (colored : Bool) (name : Text) :
    s.readName? colored (s.sentence colored name) = some name := by
  have hopen : (s.sentence colored name).dropPrefix? (opening colored) = some (name ++ s.ending colored) := by
    rw [sentence, List.append_assoc]
    exact List.dropPrefix?_append_of_beq _ (beq_self_eq_true _)
  have hclose : (name ++ s.ending colored).dropSuffix? (s.ending colored) = some name :=
    List.dropSuffix?_eq_some_iff.mpr ⟨_, rfl, beq_self_eq_true _⟩
  rw [readName?, hopen]
  exact hclose

theorem mapM_readName?_sentence (s : Standing) (colored : Bool) (names : List Text) :
    (names.map (s.sentence colored)).mapM (s.readName? colored) = some names := by
  induction names with
  | nil => rfl
  | cons name rest ih => simp [readName?_sentence, ih]

end Standing

namespace Group

/-- The lines of a group, and the empty one after them. -/
def paragraph (g : Group) (colored : Bool) : List Text := g.lines colored ++ [[]]

theorem Reports.lines_eq {standing : Text → Standing} {s : Standing} {g : Group} (h : g.Reports standing s)
    (colored : Bool) : g.lines colored = g.signals.map (s.sentence colored) := by
  unfold Group.lines
  rw [h.format]
  exact List.map_congr_left fun name _ => s.fill_wording colored name

theorem Reports.lines_ne_nil {standing : Text → Standing} {s : Standing} {g : Group} (h : g.Reports standing s)
    (colored : Bool) : ∀ line ∈ g.lines colored, decide (line ≠ []) = true := by
  rw [h.lines_eq]
  simp [Standing.sentence_ne_nil]

end Group

namespace Report

/-- The lines of a printed report. -/
def lines (r : Report) : List Text :=
  (r.groups.flatMap fun g => g.paragraph r.colored) ++ if r.failed then [summary] else []

theorem render_eq_ofLines (r : Report) : r.render = Text.ofLines r.lines := by
  unfold render lines Text.ofLines Group.paragraph
  cases r.failed <;> simp [List.flatMap_assoc]

/-- The paragraphs of a report end in an empty line, which is not their first. -/
theorem exists_paragraphs_eq (u : Usage) (o : ReportOptions) (colored : Bool) : ∃ front line,
    ((build u o).groups.flatMap fun g => g.paragraph colored) = front ++ [line] ++ [[]] := by
  obtain ⟨g, rest, last, hgroups⟩ : ∃ g rest last, (build u o).groups = g :: rest ++ [last] :=
    ⟨_, [_, _, _, _], _, rfl⟩
  have hne : (g.paragraph colored ++ rest.flatMap fun g => g.paragraph colored) ++ last.lines colored ≠ [] := by
    simp [Group.paragraph]
  refine ⟨_, _, Eq.trans ?_ (congrArg (· ++ [[]]) (List.dropLast_append_getLast hne).symm)⟩
  simp [hgroups, Group.paragraph]

theorem exists_render_eq (u : Usage) (o : ReportOptions) : ∃ front, (build u o).render =
    front ++ [Text.newline, Text.newline] ++ if (build u o).failed then summary ++ text "\n" else [] := by
  obtain ⟨front, line, hlines⟩ := exists_paragraphs_eq u o (build u o).colored
  refine ⟨Text.ofLines front ++ line, ?_⟩
  rw [render_eq_ofLines, lines, hlines]
  cases (build u o).failed <;> simp [Text.ofLines, Text.text_newline]

theorem summary_not_suffix {u : Usage} {o : ReportOptions} (h : (build u o).failed = false) :
    ¬ (summary ++ text "\n") <:+ (build u o).render := by
  obtain ⟨front, hrender⟩ := exists_render_eq u o
  rw [h] at hrender
  rintro ⟨before, hbefore⟩
  have hend : summary ++ text "\n" = summary.dropLast ++ [0x2E, Text.newline] := by decide
  rw [hrender, hend, ← List.append_assoc] at hbefore
  have hlast := List.append_inj_right' (hbefore.trans (List.append_nil _)) rfl
  revert hlast
  decide

theorem summary_suffix {u : Usage} {o : ReportOptions} (h : (build u o).failed = true) :
    (text "\n" ++ summary ++ text "\n") <:+ (build u o).render := by
  obtain ⟨front, hrender⟩ := exists_render_eq u o
  rw [h] at hrender
  exact ⟨front ++ [Text.newline], by simp [hrender, Text.text_newline]⟩

/-- Reads one group for each of some standings, and leaves the lines that follow. -/
def readGroups (colored : Bool) : List Standing → List Text → Option (List (List Text) × List Text)
  | [], lines => some ([], lines)
  | s :: rest, lines => do
    let names ← (lines.takeWhile (· ≠ [])).mapM (s.readName? colored)
    let (groups, left) ← readGroups colored rest ((lines.dropWhile (· ≠ [])).drop 1)
    pure (names :: groups, left)

/-- Reads the signals of each group and whether the run failed from a printed report. -/
def read (colored : Bool) (t : Text) : Option (List (List Text) × Bool) := do
  let (groups, left) ← readGroups colored Standing.reported (Text.rawLines ⟨t.toArray⟩)
  pure (groups, left.contains summary)

theorem readGroups_paragraphs {standing : Text → Standing} {standings : List Standing} {groups : List Group}
    (h : List.Forall₂ (Group.Reports standing) standings groups) (colored : Bool) (left : List Text) :
    readGroups colored standings ((groups.flatMap fun g => g.paragraph colored) ++ left) =
      some (groups.map (·.signals), left) := by
  induction h with
  | nil => rfl
  | @cons s g standings groups hg _ ih =>
    -- No line of the group is empty, so the first empty one is the one behind the group.
    have hlines := hg.lines_ne_nil colored
    have hnames : (g.lines colored).mapM (s.readName? colored) = some g.signals := by
      rw [hg.lines_eq]
      exact s.mapM_readName?_sentence colored g.signals
    rw [List.flatMap_cons, Group.paragraph, List.append_assoc, List.append_assoc, readGroups,
      List.takeWhile_append_of_pos hlines, List.dropWhile_append_of_pos hlines]
    simp [hnames, ih]

/-- No name of a report has a newline in it. -/
def Unbroken (r : Report) : Prop := ∀ g ∈ r.groups, ∀ name ∈ g.signals, Text.newline ∉ name

theorem Unbroken.newline_not_mem_lines {u : Usage} {o : ReportOptions} (h : (build u o).Unbroken) :
    ∀ line ∈ (build u o).lines, Text.newline ∉ line := by
  intro line hline
  rcases List.mem_append.mp hline with hline | hline
  · obtain ⟨g, hg, hline⟩ := List.mem_flatMap.mp hline
    obtain ⟨s, _, hreports⟩ := reports_of_mem hg
    rcases List.mem_append.mp hline with hline | hline
    · rw [hreports.lines_eq] at hline
      obtain ⟨name, hname, rfl⟩ := List.mem_map.mp hline
      exact Standing.newline_not_mem_sentence (h g hg name hname)
    · rw [List.mem_singleton.mp hline]
      exact List.not_mem_nil
  · have hsummary : Text.newline ∉ summary := by decide
    split at hline
    · rw [List.mem_singleton.mp hline]
      exact hsummary
    · exact absurd hline List.not_mem_nil

theorem Unbroken.rawLines_render {u : Usage} {o : ReportOptions} (h : (build u o).Unbroken) :
    Text.rawLines ⟨(build u o).render.toArray⟩ = (build u o).lines := by
  rw [render_eq_ofLines, Text.rawLines_ofLines h.newline_not_mem_lines]

theorem Unbroken.read_render {u : Usage} {o : ReportOptions} (h : (build u o).Unbroken) :
    read o.colored (build u o).render = some ((build u o).groups.map (·.signals), (build u o).failed) := by
  have hcolored : (build u o).colored = o.colored := rfl
  rw [read, h.rawLines_render, lines, hcolored, readGroups_paragraphs (build_reports u o)]
  -- What is left behind the groups is the summary or nothing.
  cases (build u o).failed <;> simp

/-- Reports under the same options differ in their signals only. -/
theorem groups_eq_of_signals {u v : Usage} {o : ReportOptions}
    (h : (build u o).groups.map (·.signals) = (build v o).groups.map (·.signals)) :
    (build u o).groups = (build v o).groups := by
  simpa [build, crossReference] using h

theorem render_eq_of_groups {u v : Usage} {o : ReportOptions} (h : (build u o).groups = (build v o).groups) :
    (build u o).render = (build v o).render := by
  have htotal : (build u o).total = (build v o).total := by rw [total_eq_foldl, total_eq_foldl, h]
  have hcolored : (build u o).colored = (build v o).colored := rfl
  rw [render, render, failed, failed, h, htotal, hcolored]

theorem exists_kind_of_mem_signals {u : Usage} {o : ReportOptions} {g : Group} (hg : g ∈ (build u o).groups)
    {name : Text} (hn : name ∈ g.signals) : ∃ k : Kind, k.Kept ∧ name ∈ u.names k := by
  obtain ⟨s, hs, hreports⟩ := reports_of_mem hg
  rw [standingIn_connections] at hreports
  have hmis : Mismatched u o name := by
    rw [← standing_mem_reported_iff, (hreports.mem name).mp hn]
    exact hs
  rcases hmis.1 with hd | he | hc | ⟨_, hp⟩
  · exact ⟨.declaration, ⟨nofun, nofun⟩, hd⟩
  · exact ⟨.emission, ⟨nofun, nofun⟩, he⟩
  · exact ⟨.connection, ⟨nofun, nofun⟩, hc⟩
  · exact ⟨.compatConnection, ⟨nofun, nofun⟩, hp⟩

theorem unbroken_of_scan {fs : FileSystem} {so : ScanOptions} {root : Text} {u : Usage}
    (h : scan fs so root = .ok u) (o : ReportOptions) : (build u o).Unbroken := by
  intro g hg name hn
  obtain ⟨k, hk, hname⟩ := exists_kind_of_mem_signals hg hn
  exact newline_not_mem_of_scan h hk hname

theorem sentence_mem_lines {u : Usage} {o : ReportOptions} {g : Group} (hg : g ∈ (build u o).groups) {name : Text}
    (hn : name ∈ g.signals) : ∃ s : Standing, g.format = s.wording ∧ s.sentence o.colored name ∈ (build u o).lines := by
  obtain ⟨s, _, hreports⟩ := reports_of_mem hg
  refine ⟨s, hreports.format, List.mem_append_left _ (List.mem_flatMap.mpr ⟨g, hg, List.mem_append_left _ ?_⟩)⟩
  rw [hreports.lines_eq]
  exact List.mem_map_of_mem hn

/-- The printed report on a scan can be read back, so that two scans print the same under the same options only if
their reports have the same groups. No name of a scan has a newline in it, and each name of a group is printed as it
is, in a line of its own that is the format of the group with the name, or the painted name, in its place. -/
theorem render_lossless {fs : FileSystem} {so : ScanOptions} {root : Text} {u : Usage}
    (h : scan fs so root = .ok u) (o : ReportOptions) :
    read o.colored (build u o).render = some ((build u o).groups.map (·.signals), (build u o).failed) ∧
    (∀ fs' so' root' v, scan fs' so' root' = .ok v →
      ((build u o).render = (build v o).render ↔ (build u o).groups = (build v o).groups)) ∧
    (∀ name, name ∈ u.declared ∨ name ∈ u.emitted ∨ name ∈ u.connected ∨ name ∈ u.compatConnected →
      Text.newline ∉ name) ∧
    ∀ g ∈ (build u o).groups, ∀ name ∈ g.signals, ∃ before after, g.format = before ++ text "%s" ++ after ∧
      before ++ (if o.colored then text "\x1b[33m" ++ name ++ text "\x1b[0m" else name) ++ after ∈
        Text.rawLines ⟨(build u o).render.toArray⟩ := by
  have hunbroken := unbroken_of_scan h o
  have hread := hunbroken.read_render
  refine ⟨hread, fun fs' so' root' v hv => ⟨fun he => ?_, render_eq_of_groups⟩, fun name hname => ?_,
    fun g hg name hn => ?_⟩
  · rw [he, (unbroken_of_scan hv o).read_render] at hread
    exact groups_eq_of_signals (Prod.ext_iff.mp (Option.some.inj hread)).1.symm
  · rcases hname with hd | he | hc | hp
    · exact newline_not_mem_of_scan h (k := .declaration) ⟨nofun, nofun⟩ hd
    · exact newline_not_mem_of_scan h (k := .emission) ⟨nofun, nofun⟩ he
    · exact newline_not_mem_of_scan h (k := .connection) ⟨nofun, nofun⟩ hc
    · exact newline_not_mem_of_scan h (k := .compatConnection) ⟨nofun, nofun⟩ hp
  · obtain ⟨s, hformat, hline⟩ := sentence_mem_lines hg hn
    refine ⟨text "Signal ", s.verdict, hformat.trans s.wording_eq, ?_⟩
    have hsentence : text "Signal " ++ (if o.colored then text "\x1b[33m" ++ name ++ text "\x1b[0m" else name) ++
        s.verdict = s.sentence o.colored name := by
      cases o.colored <;> simp [Standing.sentence, Standing.opening, Standing.ending]
    rw [hsentence, hunbroken.rawLines_render]
    exact hline

/-- A source with a name like the wording of a report, and one with a byte that is no text. -/
def peculiar : FileSystem where
  objects := [
    ([text "r"], .directory),
    ([text "a.cpp", text "r"], .file ⟨(text "emit_signal(\"%s is added \");\nADD_SIGNAL(MethodInfo(\"" ++
      [0xFF, 0x25, 0x64] ++ text "\"));\n").toArray⟩)]

theorem peculiar_read :
    scan peculiar ⟨.standard, []⟩ (text "r") = .ok
      ⟨.ofList [[0xFF, 0x25, 0x64]], .ofList [text "%s is added "], ∅, ∅, 1⟩ ∧
    read true (build ⟨.ofList [[0xFF, 0x25, 0x64]], .ofList [text "%s is added "], ∅, ∅, 1⟩ ⟨false, true, true⟩).render =
      some ([[text "%s is added "], [], [], [[0xFF, 0x25, 0x64]], [], []], true) :=
  have hscan : scan peculiar ⟨.standard, []⟩ (text "r") = .ok
      ⟨.ofList [[0xFF, 0x25, 0x64]], .ofList [text "%s is added "], ∅, ∅, 1⟩ := by decide +kernel
  ⟨hscan, (render_lossless hscan ⟨false, true, true⟩).1.trans (by decide +kernel)⟩

end Report

end SignalAudit
