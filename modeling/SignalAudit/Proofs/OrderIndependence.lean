import SignalAudit.Proofs.FileClassification
import SignalAudit.Report

/-!
The order of files and lines does not matter, nor does it matter how often a line occurs or in which file. A usage is
determined by what the lines say, and a report by the usage.
-/

namespace SignalAudit

/-- The lines of a file as they are classified. -/
def Text.lines (content : ByteArray) : List Text := (rawLines content).map dropReturn

namespace Usage

/-- Adds the matches of files one after the other, up to the first that cannot be classified to its end. -/
def addContents (patterns : List Pattern) : List ByteArray → Usage → Usage × Option FileError
  | [], u => (u, none)
  | content :: rest, u =>
    match classifyContent patterns (fun _ found u => u.add found) content u with
    | (u, none) => addContents patterns rest u
    | failed => failed

variable {patterns : List Pattern}

theorem addContents_gathers {files : List ByteArray}
    (h : ∀ content ∈ files, ∀ raw ∈ Text.rawLines content, ∃ m, Yields patterns raw m) (u : Usage) :
    ∃ v, addContents patterns files u = (v, none) ∧
      Gathers (fun m => ∃ content ∈ files, ∃ raw ∈ Text.rawLines content, Yields patterns raw m) 0 u v := by
  induction files generalizing u with
  | nil => exact ⟨u, rfl, .refl (by simp) u⟩
  | cons content rest ih =>
    obtain ⟨hfirst, hrest⟩ := List.forall_mem_cons.mp h
    have hnone : (classifyContent patterns (fun _ found (u : Usage) => u.add found) content u).2 = none :=
      classifyLines_eq_none_iff.mpr hfirst
    have hgathers := classifyLines_gathers hfirst 1 u
    rw [addContents]
    rcases hc : classifyContent patterns (fun _ found (u : Usage) => u.add found) content u with ⟨v, _ | e⟩
    · rw [classifyContent] at hc
      rw [hc] at hgathers
      obtain ⟨t, ht, hmore⟩ := ih hrest v
      exact ⟨t, ht, hgathers.trans hmore fun m => by simp⟩
    · rw [hc] at hnone
      cases hnone

/-- A usage is determined by its names of each kind and its number of files. -/
theorem ext_names {u v : Usage} (hn : ∀ k, k.Kept → ∀ name, name ∈ u.names k ↔ name ∈ v.names k)
    (hf : u.files = v.files) : u = v := by
  obtain ⟨declared, emitted, connected, compat, files⟩ := u
  obtain ⟨declared', emitted', connected', compat', files'⟩ := v
  have hd : declared = declared' := NameSet.ext (hn .declaration ⟨nofun, nofun⟩)
  have he : emitted = emitted' := NameSet.ext (hn .emission ⟨nofun, nofun⟩)
  have hc : connected = connected' := NameSet.ext (hn .connection ⟨nofun, nofun⟩)
  have hp : compat = compat' := NameSet.ext (hn .compatConnection ⟨nofun, nofun⟩)
  cases hf
  rw [hd, he, hc, hp]

theorem Gathers.unique {A B : Match → Prop} {n : Nat} {u v t : Usage} (hA : Gathers A n u v) (hB : Gathers B n u t)
    (hsame : ∀ m, A m ↔ B m) : v = t := by
  apply ext_names
  · intro k hk name
    rw [hA.names k hk, hB.names k hk, hsame]
  · rw [hA.files, hB.files]

end Usage

/-- What the lines of some files say depends on the set of lines alone. -/
theorem exists_yields_iff_lines {patterns : List Pattern} {files : List ByteArray}
    (h : ∀ content ∈ files, ∀ raw ∈ Text.rawLines content, ∃ m, Yields patterns raw m) (m : Match) :
    (∃ content ∈ files, ∃ raw ∈ Text.rawLines content, Yields patterns raw m) ↔
      ∃ line, (∃ content ∈ files, line ∈ Text.lines content) ∧ classify patterns line = .ok m := by
  constructor
  · rintro ⟨content, hc, raw, hr, _, hm⟩
    exact ⟨_, ⟨content, hc, List.mem_map_of_mem hr⟩, hm⟩
  · rintro ⟨line, ⟨content, hc, hl⟩, hm⟩
    obtain ⟨raw, hr, rfl⟩ := List.mem_map.mp hl
    obtain ⟨_, hshort, _⟩ := h content hc raw hr
    exact ⟨content, hc, raw, hr, hshort, hm⟩

/-- Files with the same set of lines, none of them malformed or too long, are classified to usages with the same
names, and all of the reports on these are the same. -/
theorem addContents_order_irrelevant {patterns : List Pattern} {files others : List ByteArray}
    (same : ∀ line, (∃ content ∈ files, line ∈ Text.lines content) ↔ ∃ content ∈ others, line ∈ Text.lines content)
    (readable : ∀ content ∈ files ++ others, ∀ raw ∈ Text.rawLines content, ∃ m, Yields patterns raw m) :
    ∃ u v, Usage.addContents patterns files {} = (u, none) ∧ Usage.addContents patterns others {} = (v, none) ∧
      (∀ name, (name ∈ u.declared ↔ name ∈ v.declared) ∧ (name ∈ u.emitted ↔ name ∈ v.emitted) ∧
        (name ∈ u.connected ↔ name ∈ v.connected) ∧ (name ∈ u.compatConnected ↔ name ∈ v.compatConnected)) ∧
      ∀ o, (Report.build u o).groups = (Report.build v o).groups ∧
        (Report.build u o).total = (Report.build v o).total ∧
        (Report.build u o).ignoredCompat = (Report.build v o).ignoredCompat ∧
        (Report.build u o).render = (Report.build v o).render := by
  have hfiles := fun content hc => readable content (List.mem_append_left others hc)
  have hothers := fun content hc => readable content (List.mem_append_right files hc)
  obtain ⟨u, hu, gathersU⟩ := Usage.addContents_gathers hfiles {}
  obtain ⟨v, hv, gathersV⟩ := Usage.addContents_gathers hothers {}
  have huv : u = v := by
    apply gathersU.unique gathersV
    intro m
    rw [exists_yields_iff_lines hfiles, exists_yields_iff_lines hothers]
    simp only [same]
  subst huv
  exact ⟨u, u, hu, hv, by simp, by simp⟩

/-- Three lines in two files. -/
def scattered : List ByteArray := [
  ⟨(text "emit_signal(\"done\");\n\n").toArray⟩,
  ⟨(text "x->connect(\"done\", y);\nADD_SIGNAL(MethodInfo(\"late\"));").toArray⟩]

/-- The same lines in one file, in another order, one of them twice. -/
def collected : List ByteArray := [
  ⟨(text "ADD_SIGNAL(MethodInfo(\"late\"));\r\nx->connect(\"done\", y);\n\nemit_signal(\"done\");\n" ++
    text "x->connect(\"done\", y);\r\n").toArray⟩]

theorem scattered_collected_same : ∃ u v,
    Usage.addContents Pattern.standard scattered {} = (u, none) ∧
    Usage.addContents Pattern.standard collected {} = (v, none) ∧
    (text "late" ∈ u.declared ↔ text "late" ∈ v.declared) ∧
    (Report.build u {}).render = (Report.build v {}).render := by
  have same : ∀ line, (∃ content ∈ scattered, line ∈ Text.lines content) ↔
      ∃ content ∈ collected, line ∈ Text.lines content := by
    have hall : (∀ line ∈ scattered.flatMap Text.lines, line ∈ collected.flatMap Text.lines) ∧
        ∀ line ∈ collected.flatMap Text.lines, line ∈ scattered.flatMap Text.lines := by decide +kernel
    intro line
    rw [← List.mem_flatMap, ← List.mem_flatMap]
    exact ⟨hall.1 line, hall.2 line⟩
  have readable : ∀ content ∈ scattered ++ collected, ∀ raw ∈ Text.rawLines content,
      ∃ m, Yields Pattern.standard raw m := by
    have hall : ∀ content ∈ scattered ++ collected,
        (classifyContent Pattern.standard (fun _ found (u : Usage) => u.add found) content {}).2 = none := by
      decide +kernel
    exact fun content hc => classifyLines_eq_none_iff.mp (hall content hc)
  obtain ⟨u, v, hu, hv, hnames, hreports⟩ := addContents_order_irrelevant same readable
  exact ⟨u, v, hu, hv, (hnames _).1, (hreports {}).2.2.2⟩

end SignalAudit
