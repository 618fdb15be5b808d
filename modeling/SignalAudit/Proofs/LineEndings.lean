import Mathlib.Data.List.Forall2
import SignalAudit.Proofs.CompatFolding
import SignalAudit.Proofs.FileOutcome

/-!
How lines end does not matter. A carriage return before a newline is dropped with it, so a file may have carriage
returns before any of its newlines, as long as no line gets too long by one: it is classified to the same usage, and if
that fails, it fails at the same line for the same reason.
-/

namespace SignalAudit

namespace Text

/-- The byte that may stand before a newline. -/
def carriageReturn : UInt8 := 0x0D

/-- A text with a carriage return put before some of its newlines, which are chosen by their places. -/
def withReturns (chosen : Nat → Bool) (t : Text) : Text :=
  (t.mapIdx fun i b => if b = newline ∧ chosen i = true then [carriageReturn, b] else [b]).flatten

theorem withReturns_cons (chosen : Nat → Bool) (b : UInt8) (rest : Text) : withReturns chosen (b :: rest) =
    (if b = newline ∧ chosen 0 = true then [carriageReturn, b] else [b]) ++
      withReturns (fun i => chosen (i + 1)) rest := by
  rw [withReturns, List.mapIdx_cons, List.flatten_cons]
  rfl

/-- A line that is the same, or has got a carriage return at its end. -/
def MaybeReturned (line line' : Text) : Prop := line' = line ∨ line' = line ++ [carriageReturn]

theorem MaybeReturned.cons {line line' : Text} (h : MaybeReturned line line') (b : UInt8) :
    MaybeReturned (b :: line) (b :: line') := by
  rcases h with rfl | rfl
  · exact .inl rfl
  · exact .inr rfl

theorem forall₂_addByte {b : UInt8} (hb : b ≠ newline) {lines lines' : List Text}
    (h : List.Forall₂ MaybeReturned lines lines') :
    List.Forall₂ MaybeReturned (addByte b lines) (addByte b lines') := by
  have hb : b ≠ 0x0A := hb
  unfold addByte
  rw [if_neg hb, if_neg hb]
  cases h with
  | nil => exact .cons (.inl rfl) .nil
  | cons hline hrest => exact .cons (hline.cons b) hrest

/-- The lines are the same but for carriage returns at their ends. -/
theorem lines_withReturns (chosen : Nat → Bool) (t : Text) :
    List.Forall₂ MaybeReturned (t.foldr addByte []) ((withReturns chosen t).foldr addByte []) := by
  induction t generalizing chosen with
  | nil => exact .nil
  | cons b rest ih =>
    have hrest := ih fun i => chosen (i + 1)
    rw [withReturns_cons, List.foldr_append, List.foldr_cons]
    by_cases hb : b = newline
    · subst hb
      by_cases hchosen : chosen 0 = true
      · rw [if_pos ⟨rfl, hchosen⟩]
        exact .cons (.inr rfl) hrest
      · rw [if_neg fun h => hchosen h.2]
        exact .cons (.inl rfl) hrest
    · rw [if_neg fun h => hb h.1]
      exact forall₂_addByte hb hrest

theorem subset_of_mem_addByte {b : UInt8} {t : Text} {lines : List Text} (h : ∀ line ∈ lines, line ⊆ t) :
    ∀ line ∈ addByte b lines, line ⊆ b :: t := by
  have hkept : ∀ line ∈ lines, line ⊆ b :: t := fun line hline => List.subset_cons_of_subset b (h line hline)
  unfold addByte
  split
  · exact List.forall_mem_cons.mpr ⟨List.nil_subset _, hkept⟩
  · cases lines with
    | nil => simp
    | cons first others =>
      obtain ⟨hfirst, _⟩ := List.forall_mem_cons.mp h
      obtain ⟨_, hothers⟩ := List.forall_mem_cons.mp hkept
      exact List.forall_mem_cons.mpr ⟨List.cons_subset_cons b hfirst, hothers⟩

/-- The bytes of a line are bytes of the text. -/
theorem subset_of_mem_lines {t : Text} : ∀ line ∈ t.foldr addByte [], line ⊆ t := by
  induction t with
  | nil => simp
  | cons b rest ih => exact subset_of_mem_addByte ih

/-- Lines that are the same to a reader. -/
structure ReadAlike (line line' : Text) : Prop where
  long : isOverlong line' = isOverlong line
  kept : dropReturn line' = dropReturn line

/-- A line with room for a carriage return, and without one, is read alike with and without it. -/
theorem MaybeReturned.readAlike {line line' : Text} (h : MaybeReturned line line') (plain : carriageReturn ∉ line)
    (short : line.length ≤ lineLimit - 2) : ReadAlike line line' := by
  rcases h with rfl | rfl
  · exact ⟨rfl, rfl⟩
  · refine ⟨?_, ?_⟩
    · unfold lineLimit at short
      unfold isOverlong lineLimit
      rw [List.length_append, List.length_singleton, decide_eq_decide]
      omega
    · rw [dropReturn_of_not_mem plain]
      exact dropReturn_concat line

end Text

open Text (ReadAlike withReturns carriageReturn)

theorem classifyLines_of_readAlike {σ : Type} {patterns : List Pattern} {record : Nat → Match → σ → σ}
    {lines lines' : List Text} (h : List.Forall₂ ReadAlike lines lines') (n : Nat) (s : σ) :
    classifyLines patterns record n lines' s = classifyLines patterns record n lines s := by
  induction h generalizing n s with
  | nil => rfl
  | cons hline _ ih =>
    rw [classifyLines, classifyLines, hline.long, hline.kept]
    split
    · rfl
    · cases classify patterns (Text.dropReturn _) with
      | error cause => rfl
      | ok found => exact ih (n + 1) (record n found s)

/-- Two files, one of which is the other with carriage returns before some of its newlines, any of them, are added with
the same result: the same usage, and success or the same error at the same line. The other has no carriage returns, and
each of its lines has room for one. -/
theorem FileOf.addTo_withReturns {t : Text} (plain : carriageReturn ∉ t)
    (short : ∀ line ∈ Text.rawLines ⟨t.toArray⟩, line.length ≤ Text.lineLimit - 2) (chosen : Nat → Bool)
    (file : FileOf t) (returned : FileOf (withReturns chosen t)) (patterns : List Pattern) (u : Usage) :
    returned.addTo patterns u = file.addTo patterns u := by
  rw [Text.rawLines_ofText] at short
  have hplain : ∀ line ∈ t.foldr Text.addByte [], carriageReturn ∉ line ∧ line.length ≤ Text.lineLimit - 2 :=
    fun line hline => ⟨fun hin => plain (Text.subset_of_mem_lines line hline hin), short line hline⟩
  have hlines := (List.forall₂_and_left _ _).mpr ⟨hplain, Text.lines_withReturns chosen t⟩
  have halike := hlines.imp fun _ _ h => h.2.readAlike h.1.1 h.1.2
  rw [returned.addTo_eq, file.addTo_eq]
  exact classifyLines_of_readAlike halike 1 u

/-- Four lines, the third of which is malformed and the last of which is not ended. -/
def fourLines : Text := text "ADD_SIGNAL(MethodInfo(\"a\"));\n\nemit_signal(\"b);\n// end"

/-- All newlines but one get a carriage return. -/
theorem fourLines_withReturns :
    withReturns (fun i => i != 29) fourLines = text "ADD_SIGNAL(MethodInfo(\"a\"));\r\n\nemit_signal(\"b);\r\n// end" ∧
    (FileOf.alone (withReturns (fun i => i != 29) fourLines)).addTo Pattern.standard { files := 1 } =
      ({ declared := .ofList [text "a"], files := 1 }, some (.malformed 3 ⟨text "emit_signal(\"", text "\""⟩)) := by
  have hplain : carriageReturn ∉ fourLines := by decide
  have hshort : ∀ line ∈ Text.rawLines ⟨fourLines.toArray⟩, line.length ≤ Text.lineLimit - 2 := by decide
  refine ⟨by decide, ?_⟩
  rw [FileOf.addTo_withReturns hplain hshort (fun i => i != 29) (.alone fourLines)]
  decide +kernel

end SignalAudit
