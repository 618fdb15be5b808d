import Mathlib.Data.List.Infix
import SignalAudit.Proofs.CompatFolding
import SignalAudit.Proofs.LineReading

/-!
Reading a line by its bytes alone. The standard terminators are single bytes below 0x80, which are part of no longer
encoding, and a blank is known by its bytes. So a reader that never decodes says the same of every line, valid UTF-8
or not.
-/

namespace SignalAudit

namespace Text

/-- The code points of the blanks. -/
def blankCodes : List Nat := [
  0x09, 0x0A, 0x0B, 0x0C, 0x0D, 0x20, 0x85, 0xA0, 0x1680, 0x2000, 0x2001, 0x2002, 0x2003, 0x2004, 0x2005, 0x2006,
  0x2007, 0x2008, 0x2009, 0x200A, 0x2028, 0x2029, 0x202F, 0x205F, 0x3000]

/-- The encodings of the blanks. -/
def blankBytes : List Text := [
  [0x09], [0x0A], [0x0B], [0x0C], [0x0D], [0x20], [0xC2, 0x85], [0xC2, 0xA0], [0xE1, 0x9A, 0x80],
  [0xE2, 0x80, 0x80], [0xE2, 0x80, 0x81], [0xE2, 0x80, 0x82], [0xE2, 0x80, 0x83], [0xE2, 0x80, 0x84],
  [0xE2, 0x80, 0x85], [0xE2, 0x80, 0x86], [0xE2, 0x80, 0x87], [0xE2, 0x80, 0x88], [0xE2, 0x80, 0x89],
  [0xE2, 0x80, 0x8A], [0xE2, 0x80, 0xA8], [0xE2, 0x80, 0xA9], [0xE2, 0x80, 0xAF], [0xE2, 0x81, 0x9F],
  [0xE3, 0x80, 0x80]]

/-- Drops the bytes of leading blanks, after `skip` bytes of one already met. -/
def dropBlanksAfter : Nat → Text → Text
  | _, [] => []
  | 0, b :: rest =>
    match blankBytes.find? (·.isPrefixOf (b :: rest)) with
    | some blank => dropBlanksAfter (blank.length - 1) rest
    | none => b :: rest
  | skip + 1, _ :: rest => dropBlanksAfter skip rest

/-- What follows the first place at which a marker stands. -/
def behind? (marker line : Text) : Option Text :=
  (line.tails.find? (marker.isPrefixOf ·)).map (·.drop marker.length)

end Text

/-- Cuts a name at the first byte that is a terminator. -/
def cutName : Option (Pattern × Text) → Except Malformed Match
  | none => .ok .none
  | some (p, rest) =>
    match rest.findIdx? (· ∈ p.terminators) with
    | none => .error ⟨p.marker, p.terminators⟩
    | some i => .ok ⟨p.kind, rest.take i⟩

/-- Classifies a line by its bytes. -/
def bytewise (patterns : List Pattern) (line : Text) : Except Malformed Match :=
  if (text "//").isPrefixOf (Text.dropBlanksAfter 0 line) then .ok .none
  else cutName (patterns.findSome? fun p => (Text.behind? p.marker line).map (Prod.mk p))

namespace Text

theorem encodes_of_mem_blankBytes {blank : Text} (h : blank ∈ blankBytes) :
    ∃ lead tail p, blank = lead :: tail ∧ Encodes lead tail p ∧ isBlank p.code = true := by
  have hpiece : ∀ blank ∈ blankBytes, ∃ q ∈ pieces blank,
      q.bytes = blank ∧ q.point ≠ .invalid ∧ isBlank q.point.code = true := by decide
  obtain ⟨q, hq, hbytes, hvalid, hblank⟩ := hpiece blank h
  rcases encodes_of_mem_pieces hq with ⟨b, rfl⟩ | ⟨lead, tail, hq, hp⟩
  · exact absurd rfl hvalid
  · exact ⟨lead, tail, q.point, hbytes.symm.trans hq, hp, hblank⟩

theorem encode_mem_blankBytes {code : Nat} (h : isBlank code = true) : encode code ∈ blankBytes := by
  have hcode : code ∈ blankCodes := by
    simp [isBlank] at h
    simp [blankCodes]
    omega
  have hall : ∀ code ∈ blankCodes, encode code ∈ blankBytes := by decide
  exact hall code hcode

theorem find?_blankBytes_eq_some {t blank : Text} (h : blankBytes.find? (·.isPrefixOf t) = some blank) :
    ∃ lead tail p more, blank = lead :: tail ∧ t = lead :: (tail ++ more) ∧ Encodes lead tail p ∧
      isBlank p.code = true := by
  obtain ⟨lead, tail, p, rfl, hp, hblank⟩ := encodes_of_mem_blankBytes (List.mem_of_find?_eq_some h)
  have hprefix : (lead :: tail).isPrefixOf t = true := List.find?_some (p := fun blank : Text => blank.isPrefixOf t) h
  obtain ⟨more, hmore⟩ := List.isPrefixOf_iff_prefix.mp hprefix
  exact ⟨lead, tail, p, more, rfl, hmore.symm, hp, hblank⟩

theorem find?_blankBytes_of_invalid {b : UInt8} {rest : Text} (h : firstPoint b rest = .invalid) :
    blankBytes.find? (·.isPrefixOf (b :: rest)) = none := by
  cases hf : blankBytes.find? (·.isPrefixOf (b :: rest)) with
  | none => rfl
  | some blank =>
    obtain ⟨lead, tail, p, more, rfl, ht, hp, hblank⟩ := find?_blankBytes_eq_some hf
    obtain ⟨rfl, rfl⟩ := List.cons.inj ht
    rw [hp.recognised] at h
    subst h
    cases hblank

theorem find?_blankBytes_of_encodes {b : UInt8} {tail : Text} {p : CodePoint} (h : Encodes b tail p) (more : Text) :
    blankBytes.find? (·.isPrefixOf (b :: (tail ++ more))) = if isBlank p.code then some (b :: tail) else none := by
  cases hf : blankBytes.find? (·.isPrefixOf (b :: (tail ++ more))) with
  | none =>
    have hnot : ¬ isBlank p.code = true := by
      intro hblank
      have hmem := encode_mem_blankBytes hblank
      rw [← h.bytes] at hmem
      have hprefix : (b :: tail).isPrefixOf (b :: (tail ++ more)) = true :=
        List.isPrefixOf_iff_prefix.mpr (List.prefix_append (b :: tail) more)
      exact List.find?_eq_none.mp hf _ hmem hprefix
    rw [if_neg hnot]
  | some blank =>
    obtain ⟨lead, tail', p', more', rfl, ht, hp, hblank⟩ := find?_blankBytes_eq_some hf
    obtain ⟨rfl, htail⟩ := List.cons.inj ht
    -- Both encodings begin the same text, so they are of one code point and equally long.
    have hpoint : p = p' := by
      rw [← h.recognised more, htail, hp.recognised]
    subst hpoint
    have hlength : tail.length = tail'.length := Nat.succ.inj (h.width.symm.trans hp.width)
    rw [if_pos hblank, List.append_inj_left htail hlength]

theorem dropBlanksAfter_eq_drop (skip : Nat) (t : Text) : dropBlanksAfter skip t = dropBlanksAfter 0 (t.drop skip) := by
  induction t generalizing skip with
  | nil => cases skip <;> rfl
  | cons b rest ih =>
    cases skip with
    | zero => rfl
    | succ skip => exact ih skip

theorem trimStartAfter_eq_drop (skip : Nat) (t : Text) : trimStartAfter skip t = trimStart (t.drop skip) := by
  induction t generalizing skip with
  | nil => cases skip <;> rfl
  | cons b rest ih =>
    cases skip with
    | zero => rfl
    | succ skip => exact ih skip

/-- Leading blanks are the same for both readers. -/
theorem dropBlanksAfter_eq_trimStart (t : Text) : dropBlanksAfter 0 t = trimStart t := by
  induction t using byPieces with
  | nil => rfl
  | invalid b rest h ih =>
    rw [dropBlanksAfter, find?_blankBytes_of_invalid h, trimStart, trimStartAfter, h]
    rfl
  | encoded b tail p more h ih =>
    rw [dropBlanksAfter, find?_blankBytes_of_encodes h, trimStart, trimStartAfter, h.recognised, h.width]
    by_cases hblank : isBlank p.code = true
    · simp only [hblank, if_true, List.length_cons, Nat.add_sub_cancel]
      rw [dropBlanksAfter_eq_drop, trimStartAfter_eq_drop, List.drop_left, ih]
    · simp [hblank]

theorem behind?_eq_after? (marker line : Text) : behind? marker line = after? marker line := by
  unfold behind?
  induction line with
  | nil => cases marker <;> rfl
  | cons b line ih =>
    rw [List.tails_cons, List.find?_cons, after?]
    cases marker.isPrefixOf (b :: line) with
    | true => rfl
    | false => exact ih

end Text

theorem cutName_some {p : Pattern} (h : ∀ b ∈ p.terminators, b.toNat < 0x80) (rest : Text) :
    cutName (some (p, rest)) = ((Text.beforeAny? p.terminators rest).elim (.error ⟨p.marker, p.terminators⟩)
      fun name => .ok ⟨p.kind, name⟩) := by
  rw [Text.beforeAny?_eq_upTo? h, ← Text.findIdx?_map_take, cutName]
  cases rest.findIdx? (· ∈ p.terminators) <;> rfl

theorem firstMatch_eq_cutName {patterns : List Pattern} (h : ∀ p ∈ patterns, ∀ b ∈ p.terminators, b.toNat < 0x80)
    (line : Text) : firstMatch patterns line =
      cutName (patterns.findSome? fun p => (Text.behind? p.marker line).map (Prod.mk p)) := by
  induction patterns with
  | nil => rfl
  | cons p patterns ih =>
    obtain ⟨hp, hpatterns⟩ := List.forall_mem_cons.mp h
    rw [firstMatch, List.findSome?_cons, Text.behind?_eq_after?]
    cases Text.after? p.marker line with
    | none => exact ih hpatterns
    | some rest =>
      dsimp only [Option.map_some]
      rw [cutName_some hp]
      cases Text.beforeAny? p.terminators rest <;> rfl

/-- With terminators below 0x80 nothing needs to be decoded. -/
theorem classify_eq_bytewise {patterns : List Pattern} (h : ∀ p ∈ patterns, ∀ b ∈ p.terminators, b.toNat < 0x80)
    (line : Text) : classify patterns line = bytewise patterns line := by
  rw [classify, bytewise, isComment, Text.dropBlanksAfter_eq_trimStart, firstMatch_eq_cutName h]

/-- A match comes from a pattern of its kind, and none of its terminators is a byte of the name. -/
theorem exists_pattern_of_classify {patterns : List Pattern}
    (h : ∀ p ∈ patterns, ∀ b ∈ p.terminators, b.toNat < 0x80) {line name : Text} {k : Kind}
    (hm : classify patterns line = .ok ⟨k, name⟩) (hk : k ≠ .noMatch) :
    ∃ p ∈ patterns, p.kind = k ∧ ∀ b ∈ name, b ∉ p.terminators := by
  cases classify_eq_iff_verdict.mp hm with
  | comment | unmarked => exact absurd rfl hk
  | named visible decides ends =>
    next p _ _ _ _ _ =>
    obtain ⟨earlier, later, rfl, _⟩ := decides.priority
    have hp : p ∈ earlier ++ p :: later := by simp
    have hname := Text.beforeAny?_eq_some_iff.mpr ⟨_, _, _, ends⟩
    rw [Text.beforeAny?_eq_upTo? (h p hp), Text.upTo?_eq_some_iff] at hname
    exact ⟨p, hp, rfl, hname.1⟩

theorem terminators_of_mem_standard : ∀ p ∈ Pattern.standard,
    p.terminators = [quoteMark] ∨ p.kind = .emission ∧ p.terminators = [0x2C, 0x29] := by
  decide

theorem low_of_mem_standard : ∀ p ∈ Pattern.standard, ∀ b ∈ p.terminators, b.toNat < 0x80 := by
  intro p hp
  rcases terminators_of_mem_standard p hp with hquote | ⟨_, hlist⟩
  · simp [hquote, quoteMark]
  · simp [hlist]

/-- The standard patterns read a line, valid UTF-8 or not, as a reader of bytes does. So a name in quotes has no quote
in it, and a name that ends at a comma or a parenthesis has neither. -/
theorem classify_standard_bytewise (line : Text) :
    classify Pattern.standard line = bytewise Pattern.standard line ∧
    ∀ k name, classify Pattern.standard line = .ok ⟨k, name⟩ →
      (k = .declaration ∨ k = .connection ∨ k = .compatConnection → quoteMark ∉ name) ∧
      (k = .emission → quoteMark ∉ name ∨ 0x2C ∉ name ∧ 0x29 ∉ name) := by
  refine ⟨classify_eq_bytewise low_of_mem_standard line, ?_⟩
  intro k name hm
  by_cases hk : k = .noMatch
  · subst hk
    simp
  obtain ⟨p, hp, rfl, hfree⟩ := exists_pattern_of_classify low_of_mem_standard hm hk
  rcases terminators_of_mem_standard p hp with hquote | ⟨hkind, hlist⟩
  · have hname : quoteMark ∉ name := fun hq => hfree _ hq (by simp [hquote])
    exact ⟨fun _ => hname, fun _ => .inl hname⟩
  · have hcomma : 0x2C ∉ name := fun hq => hfree _ hq (by simp [hlist])
    have hparenthesis : 0x29 ∉ name := fun hq => hfree _ hq (by simp [hlist])
    simp [hkind, hcomma, hparenthesis]

/-- The lead byte of a longer encoding right before the quote does not swallow it. -/
theorem truncated_read_bytewise : bytewise Pattern.standard
    (text "  ->connect(\"a" ++ [0xF0, 0x9F, 0x98] ++ text "\", b, \"c\")") =
      .ok ⟨.connection, text "a" ++ [0xF0, 0x9F, 0x98]⟩ ∧ quoteMark ∉ text "a" ++ [0xF0, 0x9F, 0x98] :=
  have h := classify_standard_bytewise (text "  ->connect(\"a" ++ [0xF0, 0x9F, 0x98] ++ text "\", b, \"c\")")
  have hread := h.1.symm.trans (by decide +kernel)
  ⟨hread, (h.2 .connection _ (h.1.trans hread)).1 (by decide)⟩

end SignalAudit
