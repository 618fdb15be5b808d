import SignalAudit.Proofs.CodePoints
import SignalAudit.Proofs.FileFailure

/-!
What a line says, told from the line as a whole and not by a search. A comment says nothing, nor does a line without
markers. Else the first pattern with a marker in the line decides: the name is what follows the marker's first
occurrence, up to the first code point that ends it.
-/

namespace SignalAudit

namespace Text

theorem trimEnd_isPrefix (t : Text) : trimEnd t <+: t := by
  have h : ((pieces t).reverse.dropWhile fun p => isBlank p.point.code).reverse <+: pieces t := by
    rw [← List.reverse_suffix, List.reverse_reverse]
    exact List.dropWhile_suffix _
  obtain ⟨back, hback⟩ := h
  refine ⟨back.flatMap Piece.bytes, ?_⟩
  rw [trimEnd, ← List.flatMap_append, hback, flatMap_pieces]

/-- Trimming at the end stops at a code point that is no blank. -/
theorem isPrefix_trimEnd {u v : Text} (hpieces : pieces (u ++ v) = pieces u ++ pieces v)
    (hvisible : ∀ q ∈ pieces u, isBlank q.point.code = false) : u <+: trimEnd (u ++ v) := by
  have hkept : (pieces u).reverse.dropWhile (fun q => isBlank q.point.code) = (pieces u).reverse := by
    cases h : (pieces u).reverse with
    | nil => rfl
    | cons q rest =>
      have hq : q ∈ pieces u := by
        rw [← List.mem_reverse, h]
        simp
      simp [hvisible q hq]
  have hall : (((pieces (u ++ v)).reverse.dropWhile fun q => isBlank q.point.code).reverse) =
      pieces u ++ ((pieces v).reverse.dropWhile fun q => isBlank q.point.code).reverse := by
    rw [hpieces, List.reverse_append, List.dropWhile_append, hkept]
    split
    · next hnone => simp [List.isEmpty_iff.mp hnone]
    · simp
  rw [trimEnd, hall, List.flatMap_append, flatMap_pieces]
  exact List.prefix_append ..

theorem slashes_isPrefix_trim_iff (t : Text) : text "//" <+: trim t ↔ text "//" <+: trimStart t := by
  constructor
  · intro h
    exact h.trans (trimEnd_isPrefix _)
  · rintro ⟨more, h⟩
    have hslash : Encodes 0x2F [] ⟨0x2F, 1⟩ := encodes_of_low (by decide)
    have hpieces : ∀ rest, pieces (text "//" ++ rest) = pieces (text "//") ++ pieces rest := by
      intro rest
      have htwo : pieces (0x2F :: ([] ++ 0x2F :: ([] ++ rest))) = _ := pieces_of_encodes hslash _
      rw [pieces_of_encodes hslash] at htwo
      exact htwo
    rw [trim, ← h]
    exact isPrefix_trimEnd (hpieces more) (by decide)

/-- The first occurrence of a marker in a line, by what stands before and after it. -/
structure FirstAt (marker line before rest : Text) : Prop where
  occurs : line = before ++ marker ++ rest
  first : ∀ before' rest', line = before' ++ marker ++ rest' → before.length ≤ before'.length

theorem exists_firstAt {marker line rest : Text} (h : after? marker line = some rest) :
    ∃ before, FirstAt marker line before rest := by
  induction line with
  | nil =>
    simp only [after?, Option.ite_none_right_eq_some, Option.some.injEq, List.isEmpty_iff] at h
    obtain ⟨rfl, rfl⟩ := h
    exact ⟨[], rfl, by simp⟩
  | cons b line ih =>
    rw [after?] at h
    split at h
    · next hp =>
      obtain ⟨u, hu⟩ := List.isPrefixOf_iff_prefix.mp hp
      rw [← hu, List.drop_left, Option.some.injEq] at h
      subst h
      exact ⟨[], hu.symm, by simp⟩
    · next hp =>
      obtain ⟨before, hoccurs, hfirst⟩ := ih h
      refine ⟨b :: before, congrArg (b :: ·) hoccurs, ?_⟩
      intro before' rest' hline
      cases before' with
      | nil => exact absurd (List.isPrefixOf_iff_prefix.mpr ⟨rest', hline.symm⟩) hp
      | cons c before' =>
        obtain ⟨rfl, hrest⟩ := List.cons.inj hline
        exact Nat.succ_le_succ (hfirst before' rest' hrest)

theorem FirstAt.unique {marker line before before' rest rest' : Text} (h : FirstAt marker line before rest)
    (h' : FirstAt marker line before' rest') : rest = rest' := by
  have hlength : before.length = before'.length :=
    Nat.le_antisymm (h.first _ _ h'.occurs) (h'.first _ _ h.occurs)
  have hline := h.occurs.symm.trans h'.occurs
  rw [List.append_assoc, List.append_assoc] at hline
  exact (List.append_inj_right (List.append_inj_right hline hlength) rfl)

/-- What follows another occurrence is the end of what follows the first. -/
theorem FirstAt.suffix {marker line before before' rest rest' : Text} (h : FirstAt marker line before rest)
    (hline : line = before' ++ marker ++ rest') : rest' <:+ rest := by
  have hlength : rest'.length ≤ rest.length := by
    have hfirst := h.first before' rest' hline
    have hsame := congrArg List.length (h.occurs.symm.trans hline)
    simp only [List.length_append] at hsame
    omega
  exact List.suffix_of_suffix_length_le ⟨_, hline.symm⟩ ⟨_, h.occurs.symm⟩ hlength

theorem after?_eq_some_iff {marker line rest : Text} :
    after? marker line = some rest ↔ ∃ before, FirstAt marker line before rest := by
  refine ⟨exists_firstAt, ?_⟩
  rintro ⟨before, h⟩
  cases ha : after? marker line with
  | none =>
    have hin : marker <:+: line := ⟨before, rest, h.occurs.symm⟩
    exact absurd hin (after?_eq_none_iff.mp ha)
  | some other =>
    obtain ⟨before', h'⟩ := exists_firstAt ha
    rw [h.unique h']

end Text

open Text (FirstAt EndsName Terminates BeginsInside)

/-- The first pattern whose marker is in a line, with what stands before and after the marker's first occurrence. -/
structure Decides (patterns : List Pattern) (line : Text) (p : Pattern) (before rest : Text) : Prop where
  priority : ∃ earlier later, patterns = earlier ++ p :: later ∧ ∀ q ∈ earlier, ¬ q.marker <:+: line
  occurrence : FirstAt p.marker line before rest

/-- What a line says. -/
inductive Verdict (patterns : List Pattern) (line : Text) : Except Malformed Match → Prop where
  | comment (opens : text "//" <+: Text.trim line) : Verdict patterns line (.ok .none)
  | unmarked (absent : ∀ p ∈ patterns, ¬ p.marker <:+: line) : Verdict patterns line (.ok .none)
  | named {p : Pattern} {before rest name stop back : Text} {point : Text.CodePoint}
      (visible : ¬ text "//" <+: Text.trim line) (decides : Decides patterns line p before rest)
      (ends : EndsName p.terminators rest name point stop back) : Verdict patterns line (.ok ⟨p.kind, name⟩)
  | unended {p : Pattern} {before rest : Text} (visible : ¬ text "//" <+: Text.trim line)
      (decides : Decides patterns line p before rest) (endless : ¬ Terminates p.terminators rest) :
      Verdict patterns line (.error ⟨p.marker, p.terminators⟩)

theorem isComment_iff (line : Text) : isComment line = true ↔ text "//" <+: Text.trim line := by
  rw [Text.slashes_isPrefix_trim_iff, isComment, List.isPrefixOf_iff_prefix]

section Lines

variable {patterns : List Pattern} {line : Text}

theorem firstMatch_of_unended {later : List Pattern} {p : Pattern} {rest : Text}
    (ha : Text.after? p.marker line = some rest) (hb : Text.beforeAny? p.terminators rest = none) :
    firstMatch (p :: later) line = .error ⟨p.marker, p.terminators⟩ := by
  rw [firstMatch, ha]
  dsimp only
  rw [hb]

theorem firstMatch_of_decides {p : Pattern} {before rest : Text} (h : Decides patterns line p before rest) :
    ∃ later, firstMatch patterns line = firstMatch (p :: later) line ∧ Text.after? p.marker line = some rest := by
  obtain ⟨⟨earlier, later, rfl, habsent⟩, hfirst⟩ := h
  exact ⟨later, firstMatch_of_absent habsent, Text.after?_eq_some_iff.mpr ⟨before, hfirst⟩⟩

theorem exists_decides (h : ¬ ∀ p ∈ patterns, ¬ p.marker <:+: line) :
    ∃ p before rest, Decides patterns line p before rest := by
  obtain ⟨earlier, p, later, hsplit, habsent, hp⟩ := exists_first_not h
  cases ha : Text.after? p.marker line with
  | none => exact absurd (Text.after?_eq_none_iff.mp ha) hp
  | some rest =>
    obtain ⟨before, hfirst⟩ := Text.exists_firstAt ha
    exact ⟨p, before, rest, ⟨earlier, later, hsplit, habsent⟩, hfirst⟩

theorem exists_verdict (patterns : List Pattern) (line : Text) : ∃ r, Verdict patterns line r := by
  by_cases hc : text "//" <+: Text.trim line
  · exact ⟨_, .comment hc⟩
  by_cases habsent : ∀ p ∈ patterns, ¬ p.marker <:+: line
  · exact ⟨_, .unmarked habsent⟩
  obtain ⟨p, before, rest, hdecides⟩ := exists_decides habsent
  cases hb : Text.beforeAny? p.terminators rest with
  | none => exact ⟨_, .unended hc hdecides ((Text.beforeAny?_eq_none_iff rest).mp hb)⟩
  | some name =>
    obtain ⟨point, stop, back, hends⟩ := Text.beforeAny?_eq_some hb
    exact ⟨_, .named hc hdecides hends⟩

theorem classify_of_verdict {r : Except Malformed Match} (h : Verdict patterns line r) :
    classify patterns line = r := by
  unfold classify
  cases h with
  | comment opens => rw [if_pos ((isComment_iff line).mpr opens)]
  | unmarked absent =>
    have hnone : firstMatch (patterns ++ []) line = firstMatch [] line := firstMatch_of_absent absent
    rw [List.append_nil] at hnone
    simp [hnone, firstMatch]
  | named visible decides ends =>
    obtain ⟨later, hmatch, hafter⟩ := firstMatch_of_decides decides
    rw [if_neg (mt (isComment_iff line).mp visible), hmatch]
    exact firstMatch_of_marked hafter (Text.beforeAny?_eq_some_iff.mpr ⟨_, _, _, ends⟩)
  | unended visible decides endless =>
    obtain ⟨later, hmatch, hafter⟩ := firstMatch_of_decides decides
    rw [if_neg (mt (isComment_iff line).mp visible), hmatch]
    exact firstMatch_of_unended hafter ((Text.beforeAny?_eq_none_iff _).mpr endless)

theorem classify_eq_iff_verdict {r : Except Malformed Match} :
    classify patterns line = r ↔ Verdict patterns line r := by
  refine ⟨?_, classify_of_verdict⟩
  rintro rfl
  obtain ⟨r, h⟩ := exists_verdict patterns line
  rwa [classify_of_verdict h]

end Lines

/-- In a text that goes on after one in which no name ends, a name ends only at what is left of a broken code point. -/
theorem terminates_suffix_iff {stops u v : Text} (h : ¬ Terminates stops (u ++ v)) :
    Terminates stops v ↔ Text.replacement ∈ Text.codes stops ∧ BeginsInside v (u ++ v) := by
  have hfree : ∀ q ∈ Text.pieces (u ++ v), q.point.code ∉ Text.codes stops :=
    fun q hq hs => h ⟨_, List.mem_map_of_mem hq, hs⟩
  constructor
  · rintro ⟨_, hv, hs⟩
    obtain ⟨q, hq, rfl⟩ := List.mem_map.mp hv
    rcases Text.pieces_suffix_or_beginsInside u v with hsuffix | hinside
    · exact absurd hs (hfree q (hsuffix.subset hq))
    · refine ⟨?_, hinside⟩
      obtain ⟨left, back, _, hback, hpieces⟩ := hinside.pieces_eq
      rw [hpieces] at hq
      rcases List.mem_append.mp hq with hleft | hq
      · obtain ⟨b, _, rfl⟩ := List.mem_map.mp hleft
        exact hs
      · exact absurd hs (hfree q (hback.subset hq))
  · rintro ⟨hs, hinside⟩
    obtain ⟨left, back, hleft, _, hpieces⟩ := hinside.pieces_eq
    obtain ⟨b, left, rfl⟩ := List.exists_cons_of_ne_nil hleft
    refine ⟨Text.replacement, ?_, hs⟩
    simp [Text.codes, hpieces, Text.CodePoint.invalid]

/-- A line is classified by what it says as a whole. If it is malformed, no occurrence of the marker is followed by a
terminator, the first or a later one, but for one that ends inside a code point of what follows the first: there the
bytes left of that code point count as replacement characters, which may be terminators. -/
theorem classify_tells (patterns : List Pattern) (line : Text) :
    (∀ r, classify patterns line = r ↔ Verdict patterns line r) ∧
    ∀ e before rest, classify patterns line = .error e → FirstAt e.marker line before rest →
      ∀ before' rest', line = before' ++ e.marker ++ rest' →
        (Terminates e.terminators rest' ↔
          Text.replacement ∈ Text.codes e.terminators ∧ BeginsInside rest' rest) := by
  refine ⟨fun r => classify_eq_iff_verdict, ?_⟩
  intro e before rest he hfirst before' rest' hline
  cases classify_eq_iff_verdict.mp he with
  | unended _ decides endless =>
    obtain rfl := decides.occurrence.unique hfirst
    obtain ⟨u, rfl⟩ := hfirst.suffix hline
    exact terminates_suffix_iff endless

/-- The encoding of a code point is cut short before the quote, and the marker is there twice. -/
theorem truncated_told : Verdict Pattern.standard
    (text "emit_signal(\"" ++ [0xE2, 0x82] ++ text "\", emit_signal(\"b\")") (.ok ⟨.emission, [0xE2, 0x82]⟩) :=
  ((classify_tells _ _).1 _).mp (by decide +kernel)

/-- A marker that is the first byte of a longer encoding. -/
def halving : Pattern := ⟨.declaration, [0xC3], text "\ufffd"⟩

/-- The first marker is followed by a valid code point, the second by what is left of it. -/
theorem halved_followed_by_terminator :
    classify [halving] [0xC3, 0xC3, 0xA9] = .error ⟨halving.marker, halving.terminators⟩ ∧
      ∃ before rest, [0xC3, 0xC3, 0xA9] = before ++ halving.marker ++ rest ∧ Terminates halving.terminators rest :=
  ⟨by decide, [0xC3], [0xA9], rfl, Text.replacement, by decide, by decide⟩

end SignalAudit
