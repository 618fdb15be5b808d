import SignalAudit.Proofs.SourceLines

/-!
Markers and names, byte by byte. A marker is found where it first occurs. A name ends at a code point, but the bytes
below 0x80 stand for themselves and are never part of another code point, so with terminators of that kind it ends at
the first byte that is one of them.
-/

namespace SignalAudit

namespace Text

theorem after?_eq_none_iff {marker t : Text} : after? marker t = none ↔ ¬ marker <:+: t := by
  induction t with
  | nil => simp [after?]
  | cons b rest ih =>
    rw [after?, List.infix_cons_iff]
    by_cases h : marker <+: b :: rest
    · simp [h]
    · simp [h, ih]

theorem after?_eq_some {marker t rest : Text} (h : after? marker t = some rest) : marker ++ rest <:+ t := by
  induction t with
  | nil =>
    simp only [after?, Option.ite_none_right_eq_some, Option.some.injEq, List.isEmpty_iff] at h
    obtain ⟨rfl, rfl⟩ := h
    exact List.suffix_rfl
  | cons b t ih =>
    unfold after? at h
    split at h
    · next hp =>
      obtain ⟨u, hu⟩ := List.isPrefixOf_iff_prefix.mp hp
      rw [← hu] at h ⊢
      simp only [List.drop_left, Option.some.injEq] at h
      rw [h]
    · exact (ih h).trans (List.suffix_cons ..)

theorem after?_append (marker rest : Text) : after? marker (marker ++ rest) = some rest := by
  cases hm : marker ++ rest with
  | nil =>
    obtain ⟨rfl, rfl⟩ := List.append_eq_nil_iff.mp hm
    rfl
  | cons b t =>
    have hp : marker.isPrefixOf (b :: t) = true := by
      rw [← hm, List.isPrefixOf_iff_prefix]
      exact List.prefix_append ..
    rw [after?, if_pos hp, ← hm, List.drop_left]

/-- What stands before the first byte that is one of `stops`. -/
def upTo? (stops : Text) : Text → Option Text
  | [] => none
  | b :: rest => if b ∈ stops then some [] else (upTo? stops rest).map (b :: ·)

theorem upTo?_eq_some_iff {stops t name : Text} : upTo? stops t = some name ↔
    (∀ b ∈ name, b ∉ stops) ∧ ∃ stop ∈ stops, name ++ [stop] <+: t := by
  induction t generalizing name with
  | nil => simp [upTo?]
  | cons b rest ih =>
    rw [upTo?]
    by_cases hb : b ∈ stops
    · rw [if_pos hb, Option.some.injEq]
      constructor
      · rintro rfl
        exact ⟨by simp, b, hb, by simp⟩
      · rintro ⟨hname, stop, _, hp⟩
        cases name with
        | nil => rfl
        | cons c name =>
          obtain ⟨rfl, _⟩ := List.cons_prefix_cons.mp hp
          exact absurd hb (hname c (by simp))
    · rw [if_neg hb, Option.map_eq_some_iff]
      constructor
      · rintro ⟨name, hname, rfl⟩
        obtain ⟨hfree, stop, hstop, hp⟩ := ih.mp hname
        exact ⟨by simpa [hb] using hfree, stop, hstop, by simpa using hp⟩
      · rintro ⟨hname, stop, hstop, hp⟩
        cases name with
        | nil =>
          obtain ⟨rfl, _⟩ := List.cons_prefix_cons.mp hp
          exact absurd hstop hb
        | cons c name =>
          obtain ⟨rfl, hrest⟩ := List.cons_prefix_cons.mp hp
          exact ⟨name, ih.mpr ⟨fun x hx => hname x (by simp [hx]), stop, hstop, hrest⟩, rfl⟩

theorem continued_eq_some {low high b : UInt8} {x : Nat} (h : continued low high b = some x) :
    low.toNat ≤ b.toNat ∧ b.toNat ≤ high.toNat ∧ x = b.toNat % 64 := by
  unfold continued at h
  split at h
  · next hb =>
    exact ⟨UInt8.le_iff_toNat_le.mp hb.1, UInt8.le_iff_toNat_le.mp hb.2, (Option.some.inj h).symm⟩
  · cases h

/-- A code point from 0x80 on, with bytes from 0x80 on after its first. -/
def CodePoint.IsHigh (p : CodePoint) (rest : Text) : Prop :=
  0x80 ≤ p.code ∧ ∀ b ∈ rest.take (p.width - 1), 0x80 ≤ b.toNat

theorem invalid_isHigh (rest : Text) : CodePoint.invalid.IsHigh rest := by
  simp [CodePoint.IsHigh, CodePoint.invalid, replacement]

theorem decodeTwo_isHigh {lead : UInt8} (hlow : 0xC2 ≤ lead.toNat) (hhigh : lead.toNat < 0xE0) (rest : Text) :
    (decodeTwo lead rest).IsHigh rest := by
  unfold decodeTwo
  split
  · split
    · next hx =>
      have hb := (continued_eq_some hx).1
      refine ⟨?_, by simpa using hb⟩
      change 0x80 ≤ lead.toNat % 32 * 64 + _
      omega
    · exact invalid_isHigh _
  · exact invalid_isHigh _

/-- The second byte after the first lead of its width has a larger lower bound, and after one lead a smaller upper
bound, but it always lies between 0x80 and 0xBF. -/
theorem second_eq_some {lead first last low high b : UInt8} {x : Nat}
    (h : continued (if lead = first then low else 0x80) (if lead = last then high else 0xBF) b = some x)
    (hlow : 0x80 ≤ low.toNat) (hhigh : high.toNat ≤ 0xBF) :
    0x80 ≤ b.toNat ∧ b.toNat ≤ 0xBF ∧ (lead.toNat = first.toNat → low.toNat ≤ b.toNat) ∧ x = b.toNat % 64 := by
  obtain ⟨hl, hu, hx⟩ := continued_eq_some h
  refine ⟨?_, ?_, ?_, hx⟩
  · split at hl
    · exact Nat.le_trans hlow hl
    · exact hl
  · split at hu
    · exact Nat.le_trans hu hhigh
    · exact hu
  · intro he
    rwa [if_pos (UInt8.toNat_inj.mp he)] at hl

theorem decodeThree_isHigh {lead : UInt8} (hlow : 0xE0 ≤ lead.toNat) (hhigh : lead.toNat < 0xF0) (rest : Text) :
    (decodeThree lead rest).IsHigh rest := by
  rcases rest with _ | ⟨b, _ | ⟨c, rest⟩⟩
  · exact invalid_isHigh _
  · exact invalid_isHigh _
  · unfold decodeThree
    dsimp only
    split
    · next x y hx hy =>
      obtain ⟨hb, hbmax, hfirst, hx⟩ := second_eq_some hx (by decide) (by decide)
      have hc := (continued_eq_some hy).1
      refine ⟨?_, by simpa using ⟨hb, hc⟩⟩
      change 0x80 ≤ lead.toNat % 16 * 4096 + x * 64 + y
      change lead.toNat = 0xE0 → 0xA0 ≤ b.toNat at hfirst
      omega
    · exact invalid_isHigh _

theorem decodeFour_isHigh {lead : UInt8} (hlow : 0xF0 ≤ lead.toNat) (hhigh : lead.toNat < 0xF5) (rest : Text) :
    (decodeFour lead rest).IsHigh rest := by
  rcases rest with _ | ⟨b, _ | ⟨c, _ | ⟨d, rest⟩⟩⟩
  · exact invalid_isHigh _
  · exact invalid_isHigh _
  · exact invalid_isHigh _
  · unfold decodeFour
    dsimp only
    split
    · next x y z hx hy hz =>
      obtain ⟨hb, hbmax, hfirst, hx⟩ := second_eq_some hx (by decide) (by decide)
      have hc := (continued_eq_some hy).1
      have hd := (continued_eq_some hz).1
      refine ⟨?_, by simpa using ⟨hb, hc, hd⟩⟩
      change 0x80 ≤ lead.toNat % 8 * 262144 + x * 4096 + y * 64 + z
      change lead.toNat = 0xF0 → 0x90 ≤ b.toNat at hfirst
      omega
    · exact invalid_isHigh _

theorem firstPoint_isHigh {b : UInt8} (hb : 0x80 ≤ b.toNat) (rest : Text) : (firstPoint b rest).IsHigh rest := by
  have hlt : ∀ c : UInt8, b < c ↔ b.toNat < c.toNat := fun c => UInt8.lt_iff_toNat_lt
  unfold firstPoint
  simp only [hlt]
  repeat' split
  · next h => exact absurd h (Nat.not_lt.mpr hb)
  · exact invalid_isHigh rest
  · next h hhigh => exact decodeTwo_isHigh (Nat.not_lt.mp h) hhigh rest
  · next h hhigh => exact decodeThree_isHigh (Nat.not_lt.mp h) hhigh rest
  · next h hhigh => exact decodeFour_isHigh (Nat.not_lt.mp h) hhigh rest
  · exact invalid_isHigh rest

theorem firstPoint_of_low {b : UInt8} (hb : b.toNat < 0x80) (rest : Text) : firstPoint b rest = ⟨b.toNat, 1⟩ := by
  have hlt : b < 0x80 := UInt8.lt_iff_toNat_lt.mpr hb
  rw [firstPoint, if_pos hlt]

/-- A search for codes below 0x80 finds the first byte that is one; the bytes it skips are none. -/
theorem indexFrom_of_low {stop : Nat → Bool} (hstop : ∀ code, stop code = true → code < 0x80) {t : Text} {skip : Nat}
    (hskip : ∀ b ∈ t.take skip, 0x80 ≤ b.toNat) (i : Nat) :
    indexFrom stop i skip t = (t.findIdx? fun b => stop b.toNat).map (· + i) := by
  have hpass : ∀ n, 0x80 ≤ n → stop n = false :=
    fun n hn => Bool.eq_false_iff.mpr fun h => absurd (hstop n h) (Nat.not_lt.mpr hn)
  induction t generalizing skip i with
  | nil => cases skip <;> rfl
  | cons b rest ih =>
    have hnext : ∀ o : Option Nat, (o.map (· + 1)).map (· + i) = o.map (· + (i + 1)) := by
      intro o
      cases o <;> simp [Nat.add_comm, Nat.add_left_comm]
    rw [List.findIdx?_cons]
    cases skip with
    | succ skip =>
      obtain ⟨hb, hrest⟩ := List.forall_mem_cons.mp hskip
      rw [indexFrom, ih hrest, hpass _ hb]
      simp [hnext]
    | zero =>
      rw [indexFrom]
      by_cases hb : b.toNat < 0x80
      · rw [firstPoint_of_low hb]
        cases stop b.toNat with
        | true => simp
        | false =>
          have hnone : ∀ c ∈ rest.take 0, 0x80 ≤ c.toNat := by simp
          simpa [hnext] using ih hnone (i + 1)
      · obtain ⟨hcode, hbytes⟩ := firstPoint_isHigh (Nat.not_lt.mp hb) rest
        rw [hpass _ (Nat.not_lt.mp hb)]
        simpa [hpass _ hcode, hnext] using ih hbytes (i + 1)

theorem codes_of_low {t : Text} (h : ∀ b ∈ t, b.toNat < 0x80) : codes t = t.map UInt8.toNat := by
  unfold codes pieces
  induction t with
  | nil => rfl
  | cons b rest ih =>
    obtain ⟨hb, hrest⟩ := List.forall_mem_cons.mp h
    rw [piecesAfter]
    simp [firstPoint_of_low hb, ih hrest]

theorem findIdx?_map_take (stops t : Text) : (t.findIdx? fun b => decide (b ∈ stops)).map t.take = upTo? stops t := by
  induction t with
  | nil => rfl
  | cons b rest ih =>
    rw [List.findIdx?_cons, upTo?, ← ih]
    by_cases hb : b ∈ stops
    · simp [hb]
    · simp [hb, Function.comp_def]

/-- With terminators below 0x80 a name ends at the first byte that is one of them. -/
theorem beforeAny?_eq_upTo? {stops : Text} (h : ∀ b ∈ stops, b.toNat < 0x80) (t : Text) :
    beforeAny? stops t = upTo? stops t := by
  have hstop : ∀ code, (codes stops).contains code = true → code < 0x80 := by
    intro code hc
    rw [codes_of_low h, List.contains_iff_mem] at hc
    obtain ⟨b, hb, rfl⟩ := List.mem_map.mp hc
    exact h b hb
  have hbyte : ∀ b : UInt8, (codes stops).contains b.toNat = decide (b ∈ stops) := by
    intro b
    rw [codes_of_low h, Bool.eq_iff_iff, List.contains_iff_mem, decide_eq_true_eq]
    exact List.mem_map_of_injective fun x y => UInt8.toNat_inj.mp
  unfold beforeAny? indexOf?
  dsimp only
  rw [indexFrom_of_low hstop (by simp) 0]
  simp only [hbyte, ← findIdx?_map_take]
  simp

end Text

section FirstMatch

variable {front later : List Pattern} {line : Text}

theorem firstMatch_of_absent (h : ∀ p ∈ front, ¬ p.marker <:+: line) :
    firstMatch (front ++ later) line = firstMatch later line := by
  induction front with
  | nil => rfl
  | cons p front ih =>
    obtain ⟨hp, hfront⟩ := List.forall_mem_cons.mp h
    rw [List.cons_append, firstMatch, Text.after?_eq_none_iff.mpr hp]
    exact ih hfront

/-- A match of another kind than those of the first patterns shows that none of their markers is in the line. -/
theorem absent_of_firstMatch {m : Match} (hk : ∀ p ∈ front, p.kind ≠ m.kind)
    (h : firstMatch (front ++ later) line = .ok m) :
    (∀ p ∈ front, ¬ p.marker <:+: line) ∧ firstMatch later line = .ok m := by
  induction front with
  | nil => exact ⟨by simp, h⟩
  | cons p front ih =>
    obtain ⟨hp, hfront⟩ := List.forall_mem_cons.mp hk
    rw [List.cons_append, firstMatch] at h
    cases ha : Text.after? p.marker line with
    | none =>
      rw [ha] at h
      obtain ⟨habsent, hlater⟩ := ih hfront h
      exact ⟨List.forall_mem_cons.mpr ⟨Text.after?_eq_none_iff.mp ha, habsent⟩, hlater⟩
    | some rest =>
      rw [ha] at h
      dsimp only at h
      cases hb : Text.beforeAny? p.terminators rest with
      | none =>
        rw [hb] at h
        cases h
      | some name =>
        rw [hb] at h
        cases h
        exact absurd rfl hp

theorem firstMatch_of_marked {p : Pattern} {rest name : Text} (ha : Text.after? p.marker line = some rest)
    (hb : Text.beforeAny? p.terminators rest = some name) :
    firstMatch (p :: later) line = .ok ⟨p.kind, name⟩ := by
  rw [firstMatch, ha]
  dsimp only
  rw [hb]

end FirstMatch

end SignalAudit
