import SignalAudit.Proofs.BytewiseReading

/-!
The excerpt of a line is what it says about a signal and no more: the marker, the name, and the terminator that ended
the name. Read by itself, the excerpt of a line says what the line says.
-/

namespace SignalAudit

namespace Text

/-- What follows the terminator has no part in where a name ends. -/
theorem EndsName.cut_off {stops t name stop back : Text} {p : CodePoint} (h : EndsName stops t name p stop back) :
    EndsName stops (name ++ stop) name p stop [] := by
  have hpieces : pieces t = (pieces name ++ [⟨p, stop⟩]) ++ pieces back := by
    rw [h.divides, List.append_assoc]
    rfl
  obtain ⟨u, v, _, hu, _⟩ := pieces_eq_append hpieces
  have hcut : u = name ++ stop := by
    rw [← flatMap_pieces u, hu, List.flatMap_append, flatMap_pieces]
    simp
  rw [hcut] at hu
  exact ⟨(List.append_nil _).symm, hu, h.ends, h.free⟩

/-- A terminator below 0x80 is a single byte. -/
theorem EndsName.exists_byte {stops t name stop back : Text} {p : CodePoint} (low : ∀ b ∈ stops, b.toNat < 0x80)
    (h : EndsName stops t name p stop back) : ∃ b ∈ stops, stop = [b] := by
  have hends := h.ends
  rw [codes_of_low low] at hends
  obtain ⟨b, hb, hcode⟩ := List.mem_map.mp hends
  have hlow : p.code < 0x80 := hcode ▸ low b hb
  have hpiece : (⟨p, stop⟩ : Piece) ∈ pieces t := by simp [h.divides]
  rcases encodes_of_mem_pieces hpiece with ⟨c, hc⟩ | ⟨lead, tail, hbytes, hp⟩
  · obtain ⟨rfl, _⟩ := Piece.mk.inj hc
    exact absurd hlow (by decide)
  · refine ⟨b, hb, ?_⟩
    rw [show stop = lead :: tail from hbytes, hp.bytes, encode, if_pos hlow, toUInt8_eq hcode.symm]

/-- A marker at the front of a line occurs there first. -/
theorem firstAt_front (marker rest : Text) : FirstAt marker (marker ++ rest) [] rest :=
  ⟨rfl, fun _ _ _ => Nat.zero_le _⟩

/-- A visible byte below 0x80 at its front is not trimmed. -/
theorem trimStart_of_visible {b : UInt8} (low : b.toNat < 0x80) (visible : isBlank b.toNat = false) (t : Text) :
    trimStart (b :: t) = b :: t := by
  simp [trimStart, trimStartAfter, firstPoint_of_low low, visible]

end Text

open Text (FirstAt EndsName)

/-- Read through a pattern, a line gives a name that this terminator has ended. -/
structure Extracts (patterns : List Pattern) (line : Text) (p : Pattern) (name stop : Text) : Prop where
  visible : ¬ text "//" <+: Text.trim line
  found : ∃ before rest point back,
    Decides patterns line p before rest ∧ EndsName p.terminators rest name point stop back

section Excerpt

variable {patterns : List Pattern} {line name stop : Text} {p : Pattern}

theorem Extracts.classify (h : Extracts patterns line p name stop) :
    classify patterns line = .ok ⟨p.kind, name⟩ := by
  obtain ⟨visible, before, rest, point, back, decides, ends⟩ := h
  exact classify_of_verdict (.named visible decides ends)

theorem exists_extracts {m : Match} (h : classify patterns line = .ok m) (hk : m.kind ≠ .noMatch) :
    ∃ p stop, Extracts patterns line p m.name stop := by
  cases classify_eq_iff_verdict.mp h with
  | comment | unmarked => exact absurd rfl hk
  | named visible decides ends => exact ⟨_, _, visible, _, _, _, _, decides, ends⟩

/-- A pattern that decides a line decides what is left of it from the marker on: no marker of an earlier pattern has
come in by leaving something out. -/
theorem Decides.cut_off {before kept back : Text} (h : Decides patterns line p before (kept ++ back)) :
    Decides patterns (p.marker ++ kept) p [] kept := by
  obtain ⟨⟨earlier, later, hsplit, absent⟩, hfirst⟩ := h
  have hpart : p.marker ++ kept <:+: line := ⟨before, back, by simp [hfirst.occurs]⟩
  refine ⟨⟨earlier, later, hsplit, ?_⟩, Text.firstAt_front p.marker kept⟩
  intro q hq hin
  exact absent q hq (hin.trans hpart)

/-- The excerpt of a line gives the same as the line, unless it opens a comment. -/
theorem Extracts.excerpt (h : Extracts patterns line p name stop)
    (visible : isComment (p.marker ++ (name ++ stop)) = false) :
    Extracts patterns (p.marker ++ name ++ stop) p name stop := by
  obtain ⟨_, before, rest, point, back, decides, ends⟩ := h
  rw [ends.cut] at decides
  rw [List.append_assoc]
  refine ⟨?_, [], name ++ stop, point, [], decides.cut_off, ends.cut_off⟩
  rw [← isComment_iff, visible]
  exact Bool.false_ne_true

end Excerpt

/-- No standard marker opens a comment or begins with a blank. -/
theorem isComment_of_mem_standard {p : Pattern} (hp : p ∈ Pattern.standard) (t : Text) :
    isComment (p.marker ++ t) = false := by
  have hfront : ∀ p ∈ Pattern.standard, ∃ b ∈ p.marker.head?,
      b.toNat < 0x80 ∧ Text.isBlank b.toNat = false ∧ b ≠ 0x2F := by decide
  obtain ⟨b, hb, low, visible, hslash⟩ := hfront p hp
  obtain ⟨tail, hmarker⟩ := List.head?_eq_some_iff.mp hb
  rw [isComment, hmarker, List.cons_append, Text.trimStart_of_visible low visible, Bool.eq_false_iff,
    ne_eq, List.isPrefixOf_iff_prefix]
  intro hopens
  exact hslash (List.cons_prefix_cons.mp hopens).1.symm

/-- A line of a kind has been read through a standard pattern of that kind, up to a byte that is one of its terminators;
and whatever pattern and terminator these are, the marker, the name and the terminator alone are of the same kind and
give the same name. -/
theorem classify_standard_stable {line : Text} {m : Match} (h : classify Pattern.standard line = .ok m)
    (hk : m.kind ≠ .noMatch) :
    (∃ p stop, Extracts Pattern.standard line p m.name stop) ∧
      ∀ p stop, Extracts Pattern.standard line p m.name stop →
        p.kind = m.kind ∧ (∃ b ∈ p.terminators, stop = [b]) ∧
          classify Pattern.standard (p.marker ++ m.name ++ stop) = .ok m := by
  refine ⟨exists_extracts h hk, ?_⟩
  intro p stop extracts
  have hsame : m = ⟨p.kind, m.name⟩ := Except.ok.inj (h.symm.trans extracts.classify)
  obtain ⟨before, rest, point, back, decides, ends⟩ := extracts.found
  obtain ⟨earlier, later, hsplit, _⟩ := decides.priority
  have hp : p ∈ Pattern.standard := by simp [hsplit]
  refine ⟨(congrArg Match.kind hsame).symm, ends.exists_byte (low_of_mem_standard p hp), ?_⟩
  have hexcerpt := (extracts.excerpt (isComment_of_mem_standard hp _)).classify
  rwa [← hsame] at hexcerpt

/-- Together with the end of its marker the name is another marker, a third one follows, and the encoding of a code
point is cut short by the terminator. -/
def bristling : Text :=
  text "  emit_signal(SceneStringNames::get_singleton()->connect(\"" ++ [0xE2, 0x82] ++ text ", connect_compat(\"x\"))"

theorem bristling_stable :
    classify Pattern.standard bristling = .ok ⟨.emission, text "connect(\"" ++ [0xE2, 0x82]⟩ ∧
    ∃ p stop, Extracts Pattern.standard bristling p (text "connect(\"" ++ [0xE2, 0x82]) stop ∧
      classify Pattern.standard (p.marker ++ (text "connect(\"" ++ [0xE2, 0x82]) ++ stop) =
        .ok ⟨.emission, text "connect(\"" ++ [0xE2, 0x82]⟩ := by
  have hread : classify Pattern.standard bristling = .ok ⟨.emission, text "connect(\"" ++ [0xE2, 0x82]⟩ := by
    decide +kernel
  obtain ⟨⟨p, stop, extracts⟩, hstable⟩ := classify_standard_stable hread (by decide)
  exact ⟨hread, p, stop, extracts, (hstable p stop extracts).2.2⟩

end SignalAudit
