import SignalAudit.Proofs.BytewiseReading

/-!
Indentation and trailing blanks do not matter. The bytes of a blank are none of those that markers and terminators are
made of, and a blank is a code point of its own even behind an encoding that was cut short. So around a line blanks
neither make a marker nor break one, they end no name and open no comment.
-/

namespace SignalAudit

namespace Text

/-- Blanks, one after the other. -/
inductive IsBlanks : Text → Prop where
  | nil : IsBlanks []
  | cons {code : Nat} {rest : Text} (blank : isBlank code = true) (more : IsBlanks rest) :
      IsBlanks (encode code ++ rest)

theorem encodes_of_isBlank {code : Nat} (h : isBlank code = true) :
    ∃ lead tail p, encode code = lead :: tail ∧ Encodes lead tail p ∧ isBlank p.code = true :=
  encodes_of_mem_blankBytes (encode_mem_blankBytes h)

/-- The first byte of a blank continues no encoding. -/
theorem IsBlanks.not_continues {b : UInt8} {rest : Text} (h : IsBlanks (b :: rest)) : ¬ Continues b := by
  intro hcontinues
  generalize ht : b :: rest = t at h
  cases h with
  | nil => cases ht
  | cons hcode _ =>
    obtain ⟨lead, tail, p, hbytes, hp, hblank⟩ := encodes_of_isBlank hcode
    rw [hbytes] at ht
    obtain ⟨rfl, _⟩ := List.cons.inj ht
    have hinvalid : p = .invalid := (hp.recognised []).symm.trans (firstPoint_of_continues hcontinues _)
    subst hinvalid
    cases hblank

section Trimming

theorem trimStart_of_invalid {b : UInt8} {rest : Text} (h : firstPoint b rest = .invalid) :
    trimStart (b :: rest) = b :: rest := by
  rw [trimStart, trimStartAfter, h]
  rfl

theorem trimStart_of_encodes {b : UInt8} {tail : Text} {p : CodePoint} (h : Encodes b tail p) (more : Text) :
    trimStart (b :: (tail ++ more)) = if isBlank p.code then trimStart more else b :: (tail ++ more) := by
  rw [trimStart, trimStartAfter, h.recognised, h.width, trimStartAfter_eq_drop, Nat.add_sub_cancel, List.drop_left]

theorem IsBlanks.trimStart_append {before : Text} (h : IsBlanks before) (t : Text) :
    trimStart (before ++ t) = trimStart t := by
  induction h with
  | nil => rfl
  | cons hcode _ ih =>
    obtain ⟨lead, tail, p, hbytes, hp, hblank⟩ := encodes_of_isBlank hcode
    rw [hbytes, List.append_assoc, List.cons_append, trimStart_of_encodes hp, if_pos hblank, ih]

/-- An encoding that was cut short is not completed by blanks. -/
theorem IsBlanks.firstPoint_append {after : Text} (hafter : IsBlanks after) {b : UInt8} {rest : Text}
    (h : firstPoint b rest = .invalid) : firstPoint b (rest ++ after) = .invalid := by
  rcases firstPoint_cases b (rest ++ after) with hinvalid | ⟨tail, more, p, hsplit, hp⟩
  · exact hinvalid
  · rw [hsplit, hp.recognised]
    rcases List.append_eq_append_iff.mp hsplit with ⟨taken, rfl, rfl⟩ | ⟨left, rfl, _⟩
    · -- The encoding ends with the text itself, since the first byte of a blank cannot be part of it.
      cases taken with
      | nil =>
        have hsame := hp.recognised []
        rw [List.append_nil, List.append_nil, h] at hsame
        exact hsame.symm
      | cons c taken => exact absurd (hp.continues c (by simp)) hafter.not_continues
    · rw [hp.recognised] at h
      exact h

end Trimming

/-- The bytes that a standard marker or terminator can have: those below 0x80 that are shown. -/
def isShown (b : UInt8) : Bool := decide (0x20 < b.toNat) && decide (b.toNat < 0x80)

theorem low_of_isShown {b : UInt8} (h : isShown b = true) : b.toNat < 0x80 := by
  simp only [isShown, Bool.and_eq_true, decide_eq_true_eq] at h
  exact h.2

theorem IsBlanks.not_isShown {t : Text} (h : IsBlanks t) : ∀ b ∈ t, isShown b = false := by
  induction h with
  | nil => simp
  | cons hcode _ ih =>
    have hall : blankBytes.all (·.all (! isShown ·)) = true := by decide
    have hbytes := List.all_eq_true.mp hall _ (encode_mem_blankBytes hcode)
    simp only [List.all_eq_true, Bool.not_eq_true'] at hbytes
    intro b hb
    rcases List.mem_append.mp hb with hb | hb
    · exact hbytes b hb
    · exact ih b hb

section Shown

variable {shown blanks : Text} (hshown : ∀ b ∈ shown, isShown b = true) (hblanks : IsBlanks blanks)

include hshown hblanks

theorem not_mem_of_shown {b : UInt8} (hb : b ∈ blanks) : b ∉ shown := by
  intro hin
  have hboth := (hshown b hin).symm.trans (hblanks.not_isShown b hb)
  cases hboth

/-- What is shown begins a text just if it does so without the blanks at the end. -/
theorem isPrefix_append_blanks (t : Text) : shown <+: t ++ blanks ↔ shown <+: t := by
  refine ⟨fun h => ?_, fun h => h.trans (List.prefix_append ..)⟩
  rcases List.prefix_or_prefix_of_prefix h (List.prefix_append t blanks) with hshort | ⟨beyond, rfl⟩
  · exact hshort
  · -- What reaches beyond the end of the text is both shown and blank.
    have hbeyond : beyond <+: blanks := (List.prefix_append_right_inj t).mp h
    cases beyond with
    | nil => simp
    | cons c beyond => exact absurd (by simp) (not_mem_of_shown hshown hblanks (hbeyond.subset (List.mem_cons_self ..)))

/-- A marker does not begin in the blanks before a text. -/
theorem after?_blanks_append (marked : shown ≠ []) (t : Text) : after? shown (blanks ++ t) = after? shown t := by
  have hall : ∀ b ∈ blanks, b ∉ shown := fun b => not_mem_of_shown hshown hblanks
  clear hblanks
  induction blanks with
  | nil => rfl
  | cons b rest ih =>
    obtain ⟨hb, hrest⟩ := List.forall_mem_cons.mp hall
    have hno : ¬ shown.isPrefixOf (b :: (rest ++ t)) = true := by
      obtain ⟨c, shown, rfl⟩ := List.exists_cons_of_ne_nil marked
      rw [List.isPrefixOf_iff_prefix]
      intro h
      obtain ⟨rfl, _⟩ := List.cons_prefix_cons.mp h
      exact hb (List.mem_cons_self ..)
    rw [List.cons_append, after?, if_neg hno, ih hrest]

/-- A marker is where it is without the blanks behind the text. -/
theorem after?_append_blanks (marked : shown ≠ []) (t : Text) :
    after? shown (t ++ blanks) = (after? shown t).map (· ++ blanks) := by
  induction t with
  | nil =>
    have hnone : after? shown (blanks ++ []) = after? shown [] := after?_blanks_append hshown hblanks marked []
    rw [List.append_nil] at hnone
    rw [List.nil_append, hnone]
    simp [after?, marked]
  | cons b rest ih =>
    have hsame : shown.isPrefixOf (b :: rest ++ blanks) = shown.isPrefixOf (b :: rest) := by
      rw [Bool.eq_iff_iff, List.isPrefixOf_iff_prefix, List.isPrefixOf_iff_prefix]
      exact isPrefix_append_blanks hshown hblanks (b :: rest)
    rw [List.cons_append] at hsame ⊢
    rw [after?, after?, hsame, ih]
    split
    · next hbegins =>
      have hlength := (List.isPrefixOf_iff_prefix.mp hbegins).length_le
      rw [← List.cons_append, List.drop_append_of_le_length hlength]
      rfl
    · rfl

/-- No name ends in the blanks behind a text. -/
theorem beforeAny?_append_blanks (t : Text) : beforeAny? shown (t ++ blanks) = beforeAny? shown t := by
  have hlow : ∀ b ∈ shown, b.toNat < 0x80 := fun b hb => low_of_isShown (hshown b hb)
  rw [beforeAny?_eq_upTo? hlow, beforeAny?_eq_upTo? hlow]
  induction t with
  | nil =>
    cases hname : upTo? shown ([] ++ blanks) with
    | none => rfl
    | some name =>
      obtain ⟨_, stop, hstop, hends⟩ := upTo?_eq_some_iff.mp hname
      exact absurd hstop (not_mem_of_shown hshown hblanks (hends.subset (by simp)))
  | cons b rest ih => rw [List.cons_append, upTo?, upTo?, ih]

end Shown

/-- Blanks around a text make no comment of it, nor anything else of a comment. -/
theorem isComment_surrounded {before after : Text} (hbefore : IsBlanks before) (hafter : IsBlanks after) (t : Text) :
    isComment (before ++ t ++ after) = isComment t := by
  have hslashes : ∀ b ∈ text "//", isShown b = true := by simp [show text "//" = [0x2F, 0x2F] from rfl, isShown]
  have hopens : ∀ t, text "//" <+: t ++ after ↔ text "//" <+: t := isPrefix_append_blanks hslashes hafter
  unfold isComment
  rw [List.append_assoc, hbefore.trimStart_append, Bool.eq_iff_iff, List.isPrefixOf_iff_prefix,
    List.isPrefixOf_iff_prefix]
  induction t using byPieces with
  | nil =>
    have hnone : trimStart (after ++ []) = trimStart [] := hafter.trimStart_append []
    rw [List.append_nil] at hnone
    rw [List.nil_append, hnone]
  | invalid b rest h ih =>
    rw [List.cons_append, trimStart_of_invalid (hafter.firstPoint_append h), trimStart_of_invalid h]
    exact hopens (b :: rest)
  | encoded b tail p more h ih =>
    rw [List.cons_append, List.append_assoc, trimStart_of_encodes h, trimStart_of_encodes h]
    split
    · exact ih
    · have hline := hopens (b :: (tail ++ more))
      rwa [List.cons_append, List.append_assoc] at hline

end Text

open Text (IsBlanks isShown)

/-- A pattern that is all shown. -/
structure Pattern.IsShown (p : Pattern) : Prop where
  marked : p.marker ≠ []
  marker : ∀ b ∈ p.marker, isShown b = true
  terminators : ∀ b ∈ p.terminators, isShown b = true

theorem isShown_of_mem_standard : ∀ p ∈ Pattern.standard, p.IsShown := by
  have hall : ∀ p ∈ Pattern.standard,
      p.marker ≠ [] ∧ p.marker.all isShown = true ∧ p.terminators.all isShown = true := by decide
  intro p hp
  obtain ⟨marked, marker, terminators⟩ := hall p hp
  exact ⟨marked, List.all_eq_true.mp marker, List.all_eq_true.mp terminators⟩

section Surrounded

variable {patterns : List Pattern} {before after : Text}

theorem firstMatch_surrounded (h : ∀ p ∈ patterns, p.IsShown) (hbefore : IsBlanks before) (hafter : IsBlanks after)
    (line : Text) : firstMatch patterns (before ++ line ++ after) = firstMatch patterns line := by
  induction patterns with
  | nil => rfl
  | cons p patterns ih =>
    obtain ⟨⟨marked, hmarker, hterminators⟩, hpatterns⟩ := List.forall_mem_cons.mp h
    rw [firstMatch, firstMatch, ih hpatterns, Text.after?_append_blanks hmarker hafter marked,
      Text.after?_blanks_append hmarker hbefore marked]
    cases Text.after? p.marker line with
    | none => rfl
    | some rest => simp only [Option.map_some, Text.beforeAny?_append_blanks hterminators hafter]

theorem classify_surrounded (h : ∀ p ∈ patterns, p.IsShown) (hbefore : IsBlanks before) (hafter : IsBlanks after)
    (line : Text) : classify patterns (before ++ line ++ after) = classify patterns line := by
  rw [classify, classify, Text.isComment_surrounded hbefore hafter, firstMatch_surrounded h hbefore hafter]

end Surrounded

/-- Read by the standard patterns, a line says the same, or is malformed in the same way, whatever blanks are put before
and behind it. -/
theorem classify_standard_surrounded {before after : Text} (hbefore : IsBlanks before) (hafter : IsBlanks after)
    (line : Text) : classify Pattern.standard (before ++ line ++ after) = classify Pattern.standard line :=
  classify_surrounded isShown_of_mem_standard hbefore hafter line

/-- The last byte of a blank, a call, and the first two bytes of another blank. -/
def ragged : Text := [0xA0] ++ text "emit_signal(\"a\")" ++ [0xE2, 0x80]

theorem ragged_surrounded : classify Pattern.standard ([0x09, 0xC2, 0x85] ++ ragged ++ [0xE2, 0x80, 0x83, 0x0D]) =
    .ok ⟨.emission, text "a"⟩ := by
  have hbefore : IsBlanks [0x09, 0xC2, 0x85] :=
    .cons (rfl : Text.isBlank 0x09 = true) (.cons (rfl : Text.isBlank 0x85 = true) .nil)
  have hafter : IsBlanks [0xE2, 0x80, 0x83, 0x0D] :=
    .cons (rfl : Text.isBlank 0x2003 = true) (.cons (rfl : Text.isBlank 0x0D = true) .nil)
  rw [classify_standard_surrounded hbefore hafter]
  decide +kernel

end SignalAudit
