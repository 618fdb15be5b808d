import SignalAudit.Proofs.ScanExactness

/-!
Lines, and the names that are cut out of them. Lines without newlines, each ended by one, are read back as they are.
The lines of a file have no newlines in them, a name is a piece of its line, and so no scan finds a name with one.
-/

namespace SignalAudit

namespace Text

/-- The byte that ends a line. -/
def newline : UInt8 := 0x0A

theorem text_newline : text "\n" = [newline] := rfl

theorem rawLines_ofText (t : Text) : rawLines ⟨t.toArray⟩ = t.foldr addByte [] := by
  simp [rawLines]

theorem foldr_addByte_line {line : Text} (h : newline ∉ line) (rest : Text) :
    (line ++ newline :: rest).foldr addByte [] = line :: rest.foldr addByte [] := by
  induction line with
  | nil => rfl
  | cons b line ih =>
    obtain ⟨hb, hline⟩ := not_or.mp (List.mem_cons.not.mp h)
    have hb : b ≠ 0x0A := Ne.symm hb
    simp only [List.cons_append, List.foldr_cons, ih hline]
    simp [addByte, hb]

theorem rawLines_ofLines {lines : List Text} (h : ∀ line ∈ lines, newline ∉ line) :
    rawLines ⟨(ofLines lines).toArray⟩ = lines := by
  rw [rawLines_ofText]
  induction lines with
  | nil => rfl
  | cons line rest ih =>
    obtain ⟨hline, hrest⟩ := List.forall_mem_cons.mp h
    have hcons : ofLines (line :: rest) = line ++ newline :: ofLines rest := by simp [ofLines, text_newline]
    rw [hcons, foldr_addByte_line hline, ih hrest]

theorem newline_not_mem_of_mem_addByte {b : UInt8} {lines : List Text} (h : ∀ line ∈ lines, newline ∉ line) :
    ∀ line ∈ addByte b lines, newline ∉ line := by
  unfold addByte
  split
  · simpa using h
  · next hb =>
    have hb : newline ≠ b := Ne.symm hb
    cases lines with
    | nil => simpa using hb
    | cons first rest =>
      obtain ⟨hfirst, hrest⟩ := List.forall_mem_cons.mp h
      refine List.forall_mem_cons.mpr ⟨?_, hrest⟩
      simp [hb, hfirst]

theorem newline_not_mem_of_mem_rawLines {content : ByteArray} :
    ∀ line ∈ rawLines content, newline ∉ line := by
  unfold rawLines
  rw [← Array.foldr_toList]
  induction content.data.toList with
  | nil => simp
  | cons b rest ih => exact newline_not_mem_of_mem_addByte ih

theorem dropReturn_isPrefix (line : Text) : dropReturn line <+: line := by
  unfold dropReturn
  split
  · exact List.dropLast_prefix line
  · exact List.prefix_rfl

theorem after?_suffix {marker t rest : Text} (h : after? marker t = some rest) : rest <:+ t := by
  induction t with
  | nil =>
    simp only [after?, Option.ite_none_right_eq_some, Option.some.injEq] at h
    rw [← h.2]
  | cons b t ih =>
    unfold after? at h
    split at h
    · rw [← Option.some.inj h]
      exact List.drop_suffix ..
    · exact (ih h).trans (List.suffix_cons ..)

theorem beforeAny?_isPrefix {stops t name : Text} (h : beforeAny? stops t = some name) : name <+: t := by
  obtain ⟨i, _, rfl⟩ := Option.map_eq_some_iff.mp h
  exact List.take_prefix i t

end Text

open Text (newline)

theorem firstMatch_name_isInfix {patterns : List Pattern} {line : Text} {m : Match}
    (h : firstMatch patterns line = .ok m) : m.name <:+: line := by
  induction patterns with
  | nil =>
    cases h
    exact List.nil_infix
  | cons p patterns ih =>
    rw [firstMatch] at h
    cases ha : Text.after? p.marker line with
    | none =>
      rw [ha] at h
      exact ih h
    | some rest =>
      rw [ha] at h
      dsimp only at h
      cases hb : Text.beforeAny? p.terminators rest with
      | none =>
        rw [hb] at h
        cases h
      | some name =>
        rw [hb] at h
        cases h
        exact (Text.beforeAny?_isPrefix hb).isInfix.trans (Text.after?_suffix ha).isInfix

theorem classify_name_isInfix {patterns : List Pattern} {line : Text} {m : Match}
    (h : classify patterns line = .ok m) : m.name <:+: line := by
  unfold classify at h
  split at h
  · cases h
    exact List.nil_infix
  · exact firstMatch_name_isInfix h

theorem newline_not_mem_of_says {fs : FileSystem} {patterns : List Pattern} {path : Text} {m : Match}
    (h : Says fs patterns path m) : newline ∉ m.name := by
  obtain ⟨content, _, raw, hraw, _, hm⟩ := h
  have hpiece : m.name <:+: raw := (classify_name_isInfix hm).trans (Text.dropReturn_isPrefix raw).isInfix
  exact fun hn => Text.newline_not_mem_of_mem_rawLines raw hraw (hpiece.subset hn)

theorem newline_not_mem_of_scan {fs : FileSystem} {o : ScanOptions} {root : Text} {u : Usage}
    (h : scan fs o root = .ok u) {k : Kind} (hk : k.Kept) {name : Text} (hn : name ∈ u.names k) : newline ∉ name := by
  obtain ⟨path, _, hsays⟩ := (o.mem_names_scan fs h k hk name).mp hn
  exact newline_not_mem_of_says hsays

end SignalAudit
