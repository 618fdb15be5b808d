import SignalAudit.Proofs.FileOutcome
import SignalAudit.Proofs.LineReading

/-!
Classification goes along with concatenation. Where one file ends with a newline, another can be put behind it: the
whole is classified as the first is, and then, if that succeeds, as the second is, but for the numbers of its lines. So
lines that say nothing can be put anywhere between the lines of a file, unless they are too long to be read.
-/

namespace SignalAudit

namespace Text

/-- Nothing, or lines that have all been ended. -/
def Complete (t : Text) : Prop := t = [] ∨ t.getLast? = some newline

/-- What is complete is one newline, or a byte before something complete. -/
theorem Complete.cases_cons {b : UInt8} {rest : Text} (h : Complete (b :: rest)) :
    (b = newline ∧ rest = []) ∨ (rest ≠ [] ∧ Complete rest) := by
  rcases h with h | h
  · cases h
  · cases rest with
    | nil => exact .inl ⟨by simpa using h, rfl⟩
    | cons c rest =>
      rw [List.getLast?_cons_cons] at h
      exact .inr ⟨by simp, .inr h⟩

theorem addByte_append (b : UInt8) {lines : List Text} (h : lines ≠ []) (more : List Text) :
    addByte b (lines ++ more) = addByte b lines ++ more := by
  obtain ⟨line, lines, rfl⟩ := List.exists_cons_of_ne_nil h
  unfold addByte
  split <;> rfl

theorem lines_ne_nil {t : Text} (h : t ≠ []) : t.foldr addByte [] ≠ [] := by
  obtain ⟨after, hlines⟩ := exists_lines h
  simp [hlines]

/-- What follows complete lines does not touch them. -/
theorem Complete.lines_append {a : Text} (h : Complete a) (b : Text) :
    (a ++ b).foldr addByte [] = a.foldr addByte [] ++ b.foldr addByte [] := by
  induction a with
  | nil => rfl
  | cons c rest ih =>
    rcases h.cases_cons with ⟨rfl, rfl⟩ | ⟨hmore, hrest⟩
    · rfl
    · rw [List.cons_append, List.foldr_cons, List.foldr_cons, ih hrest, addByte_append c (lines_ne_nil hmore)]

/-- Complete lines are as many as their newlines. -/
theorem Complete.length_lines {a : Text} (h : Complete a) : (a.foldr addByte []).length = a.count newline := by
  induction a with
  | nil => rfl
  | cons c rest ih =>
    rcases h.cases_cons with ⟨rfl, rfl⟩ | ⟨hmore, hrest⟩
    · rfl
    · obtain ⟨line, lines, hlines⟩ := List.exists_cons_of_ne_nil (lines_ne_nil hmore)
      rw [List.count_cons, ← ih hrest, List.foldr_cons, hlines]
      by_cases hc : c = newline
      · simp [hc, addByte, newline]
      · have hc' : c ≠ 0x0A := hc
        simp [hc, hc', addByte]

theorem ofLines_complete (lines : List Text) : Complete (ofLines lines) := by
  rcases List.eq_nil_or_concat' lines with rfl | ⟨front, last, rfl⟩
  · exact .inl rfl
  · refine .inr ?_
    rw [ofLines, List.flatMap_append, List.flatMap_singleton, text_newline, ← List.append_assoc, List.getLast?_concat]

end Text

open Text (newline dropReturn Complete)

/-- The same error in a file that has this many lines more before. -/
def FileError.movedDown (lines : Nat) : FileError → FileError
  | malformed number cause => malformed (number + lines) cause
  | unopened cause => unopened cause
  | unread cause => unread cause
  | overlong => overlong

section Lines

variable {σ : Type} {patterns : List Pattern}

theorem Stops.movedDown {raw : Text} {n : Nat} {e : FileError} (h : Stops patterns raw n e) (k : Nat) :
    Stops patterns raw (n + k) (e.movedDown k) := by
  cases h with
  | overlong long => exact .overlong long
  | malformed short bad => exact .malformed short bad

/-- Where matches are recorded without their numbers, the number of the first line only shows in errors. -/
theorem classifyLines_movedDown (record : Match → σ → σ) (n k : Nat) (lines : List Text) (s : σ) :
    classifyLines patterns (fun _ => record) (n + k) lines s =
      ((classifyLines patterns (fun _ => record) n lines s).1,
        (classifyLines patterns (fun _ => record) n lines s).2.map (·.movedDown k)) := by
  induction lines generalizing n s with
  | nil => rfl
  | cons raw rest ih =>
    by_cases hyields : ∃ m, Yields patterns raw m
    · obtain ⟨m, hm⟩ := hyields
      rw [classifyLines_of_yields hm, classifyLines_of_yields hm, Nat.add_right_comm, ih]
    · obtain ⟨e, stops⟩ := exists_stops hyields n
      rw [classifyLines_of_stops stops, classifyLines_of_stops (stops.movedDown k)]
      rfl

variable {record : Nat → Match → σ → σ}

/-- Lines after those at which a classification has failed are not looked at. -/
theorem classifyLines_append_of_failed {before : List Text} {n : Nat} {s v : σ} {e : FileError}
    (h : classifyLines patterns record n before s = (v, some e)) (rest : List Text) :
    classifyLines patterns record n (before ++ rest) s = (v, some e) := by
  induction before generalizing n s with
  | nil => cases h
  | cons raw before ih =>
    by_cases hyields : ∃ m, Yields patterns raw m
    · obtain ⟨m, hm⟩ := hyields
      rw [classifyLines_of_yields hm] at h
      rw [List.cons_append, classifyLines_of_yields hm]
      exact ih h
    · obtain ⟨e, stops⟩ := exists_stops hyields n
      rw [classifyLines_of_stops stops] at h
      rw [List.cons_append, classifyLines_of_stops stops, h]

end Lines

namespace Usage

variable {patterns : List Pattern} {a : Text} {u v : Usage}

theorem addText_append_of_done (complete : Complete a) (h : u.addText patterns a = (v, none)) (b : Text) :
    u.addText patterns (a ++ b) =
      ((v.addText patterns b).1, (v.addText patterns b).2.map (·.movedDown (a.count newline))) := by
  have hfine := classifyLines_eq_none_iff.mp (congrArg Prod.snd h)
  have hv : (u.addText patterns a).1 = v := congrArg Prod.fst h
  rw [addText, complete.lines_append, classifyLines_append hfine, complete.length_lines, classifyLines_movedDown]
  rw [addText] at hv
  rw [hv]
  rfl

theorem addText_append_of_failed {e : FileError} (complete : Complete a) (h : u.addText patterns a = (v, some e))
    (b : Text) : u.addText patterns (a ++ b) = (v, some e) := by
  rw [addText, complete.lines_append]
  exact classifyLines_append_of_failed h _

end Usage

/-- A line that says nothing about signals: a comment, or a line without markers. -/
structure Silent (patterns : List Pattern) (line : Text) : Prop where
  oneLine : newline ∉ line
  silent : text "//" <+: Text.trim (dropReturn line) ∨ ∀ p ∈ patterns, ¬ p.marker <:+: dropReturn line

theorem Silent.yields {patterns : List Pattern} {line : Text} (h : Silent patterns line)
    (short : Text.isOverlong line = false) : Yields patterns line .none := by
  refine ⟨short, classify_of_verdict ?_⟩
  rcases h.silent with opens | absent
  · exact .comment opens
  · exact .unmarked absent

/-- Lines that say nothing, none of them too long to be read. -/
def Paddable (patterns : List Pattern) (lines : List Text) : Prop :=
  ∀ line ∈ lines, Silent patterns line ∧ Text.isOverlong line = false

namespace Usage

variable {patterns : List Pattern}

theorem classifyLines_paddable {lines : List Text} (h : Paddable patterns lines) (n : Nat) (u : Usage) :
    classifyLines patterns (fun _ found u => u.add found) n lines u = (u, none) := by
  induction lines generalizing n with
  | nil => rfl
  | cons line rest ih =>
    obtain ⟨⟨silent, short⟩, hrest⟩ := List.forall_mem_cons.mp h
    rw [classifyLines_of_yields (silent.yields short)]
    exact ih hrest (n + 1)

theorem addText_paddable {lines : List Text} (h : Paddable patterns lines) (u : Usage) :
    u.addText patterns (Text.ofLines lines) = (u, none) := by
  have hlines := Text.rawLines_ofLines fun line hline => (h line hline).1.oneLine
  rw [Text.rawLines_ofText] at hlines
  rw [addText, hlines]
  exact classifyLines_paddable h 1 u

/-- Two texts are alike to a usage if they add the same names, and to their ends either both or neither. -/
structure AddAlike (patterns : List Pattern) (u : Usage) (t t' : Text) : Prop where
  usage : (u.addText patterns t').1 = (u.addText patterns t).1
  ends : (u.addText patterns t').2 = none ↔ (u.addText patterns t).2 = none

/-- Texts that are alike to every usage are alike behind complete lines, and silent lines may come between. -/
theorem AddAlike.behind {a t t' : Text} (complete : Complete a) {lines : List Text} (h : Paddable patterns lines)
    (alike : ∀ u, AddAlike patterns u t t') (u : Usage) :
    AddAlike patterns u (a ++ t) (a ++ (Text.ofLines lines ++ t')) := by
  rcases ha : u.addText patterns a with ⟨v, _ | e⟩
  · have hsilent := addText_append_of_done (Text.ofLines_complete lines) (addText_paddable h v) t'
    have hdone := addText_append_of_done complete ha
    obtain ⟨husage, hends⟩ := alike v
    refine ⟨?_, ?_⟩
    · rw [hdone, hdone, hsilent]
      exact husage
    · rw [hdone, hdone, hsilent]
      simpa using hends
  · have hfailed := addText_append_of_failed complete ha
    refine ⟨?_, ?_⟩
    · rw [hfailed, hfailed]
    · rw [hfailed, hfailed]

end Usage

/-- A text, and the same with silent lines put between its complete lines, at any number of places. -/
inductive Padded (patterns : List Pattern) : Text → Text → Prop where
  | last (t : Text) : Padded patterns t t
  | between {a t t' : Text} {lines : List Text} (complete : Complete a) (silent : Paddable patterns lines)
      (rest : Padded patterns t t') : Padded patterns (a ++ t) (a ++ (Text.ofLines lines ++ t'))

theorem Padded.addAlike {patterns : List Pattern} {t t' : Text} (h : Padded patterns t t') (u : Usage) :
    u.AddAlike patterns t t' := by
  induction h generalizing u with
  | last t => exact ⟨rfl, Iff.rfl⟩
  | between complete silent _ ih => exact .behind complete silent ih u

namespace FileOf

/-- Of two files, the first of which is empty or ends with a newline, one behind the other is added as the first is and
after it, if that succeeds, the second; an error at a line of the second has the lines of the first counted in. So
silent lines that are not over-long can be put between the complete lines of a file, and the usage stays the same. -/
theorem addTo_distributes (patterns : List Pattern) (u : Usage) :
    (∀ {a b : Text}, Complete a → ∀ (first : FileOf a) (second : FileOf b) (whole : FileOf (a ++ b)),
      (∀ v, first.addTo patterns u = (v, none) → whole.addTo patterns u =
        ((second.addTo patterns v).1, (second.addTo patterns v).2.map (·.movedDown (a.count newline)))) ∧
      (∀ v e, first.addTo patterns u = (v, some e) → whole.addTo patterns u = (v, some e))) ∧
    ∀ {t t' : Text}, Padded patterns t t' → ∀ (file : FileOf t) (padded : FileOf t'),
      (padded.addTo patterns u).1 = (file.addTo patterns u).1 ∧
        ((padded.addTo patterns u).2 = none ↔ (file.addTo patterns u).2 = none) := by
  refine ⟨?_, ?_⟩
  · intro a b complete first second whole
    simp only [addTo_eq]
    exact ⟨fun v h => Usage.addText_append_of_done complete h b,
      fun v e h => Usage.addText_append_of_failed complete h b⟩
  · intro t t' h file padded
    obtain ⟨husage, hends⟩ := h.addAlike u
    simp only [addTo_eq]
    exact ⟨husage, hends⟩

/-- One complete line. -/
def opening : Text := text "emit_signal(\"a\");\n"

/-- A complete line, and a malformed one that is not ended. -/
def ending : Text := text "x\n->connect(\"b);"

/-- The malformed line is the third of the whole; a comment and an empty line before it make no difference. -/
theorem opening_before_ending :
    (alone (opening ++ ending)).addTo Pattern.standard {} =
      ({ emitted := .ofList [text "a"] }, some (.malformed 3 ⟨text "->connect(\"", text "\""⟩)) ∧
    ((alone (opening ++ (Text.ofLines [text "\t// emit_signal(\"c", text "\r"] ++ ending))).addTo
      Pattern.standard {}).1 = { emitted := .ofList [text "a"] } := by
  obtain ⟨hjoin, hpad⟩ := addTo_distributes Pattern.standard {}
  have hcomplete : Complete opening := .inr rfl
  have hfirst : (alone opening).addTo Pattern.standard {} = ({ emitted := .ofList [text "a"] }, none) := by
    decide +kernel
  have hsecond : (alone ending).addTo Pattern.standard { emitted := .ofList [text "a"] } =
      ({ emitted := .ofList [text "a"] }, some (.malformed 2 ⟨text "->connect(\"", text "\""⟩)) := by decide +kernel
  have hwhole := (hjoin hcomplete (alone opening) (alone ending) (alone (opening ++ ending))).1 _ hfirst
  rw [hsecond] at hwhole
  have hsilent : Paddable Pattern.standard [text "\t// emit_signal(\"c", text "\r"] := by
    refine List.forall_mem_cons.mpr ⟨⟨⟨by decide, .inl (by decide)⟩, by decide⟩, ?_⟩
    exact List.forall_mem_singleton.mpr ⟨⟨by decide, .inr (by decide)⟩, by decide⟩
  refine ⟨hwhole, ?_⟩
  rw [(hpad (.between hcomplete hsilent (.last ending)) (alone _) (alone _)).1, hwhole]

/-- A comment of `n` letters. -/
def remark (n : Nat) : Text := text "//" ++ List.replicate n 0x61

theorem not_mem_remark {b : UInt8} (hslash : b ≠ 0x2F) (hletter : b ≠ 0x61) (n : Nat) : b ∉ remark n := by
  have hslashes : text "//" = [0x2F, 0x2F] := rfl
  simp [remark, hslashes, hslash, hletter]

theorem remark_silent (patterns : List Pattern) (n : Nat) : Silent patterns (remark n) := by
  have hreturn : dropReturn (remark n) = remark n :=
    Text.dropReturn_of_not_mem (not_mem_remark (by decide) (by decide) n)
  refine ⟨not_mem_remark (by decide) (by decide) n, .inl ?_⟩
  rw [hreturn, Text.slashes_isPrefix_trim_iff]
  exact ⟨List.replicate n 0x61, rfl⟩

/-- A comment too long to be read hides the line behind it. -/
theorem long_remark_hides :
    Silent Pattern.standard (remark Text.lineLimit) ∧
    (alone (opening ++ text "emit_signal(\"b\");\n")).addTo Pattern.standard {} =
      ({ emitted := .ofList [text "a", text "b"] }, none) ∧
    (alone (opening ++ (Text.ofLines [remark Text.lineLimit] ++ text "emit_signal(\"b\");\n"))).addTo
      Pattern.standard {} = ({ emitted := .ofList [text "a"] }, some .overlong) := by
  have hsilent := remark_silent Pattern.standard Text.lineLimit
  have hlong : Text.isOverlong (remark Text.lineLimit) = true := by simp [Text.isOverlong, remark]
  refine ⟨hsilent, by decide +kernel, ?_⟩
  have hfirst : Usage.addText Pattern.standard opening {} = ({ emitted := .ofList [text "a"] }, none) := by
    decide +kernel
  have hlines := Text.rawLines_ofLines (List.forall_mem_singleton.mpr hsilent.oneLine)
  rw [Text.rawLines_ofText] at hlines
  have hremark : ∀ u, Usage.addText Pattern.standard (Text.ofLines [remark Text.lineLimit]) u =
      (u, some .overlong) := by
    intro u
    rw [Usage.addText, hlines]
    exact classifyLines_of_stops (.overlong hlong) [] u
  rw [addTo_eq, Usage.addText_append_of_done (.inr rfl) hfirst,
    Usage.addText_append_of_failed (Text.ofLines_complete _) (hremark _)]
  rfl

end FileOf

end SignalAudit
