import SignalAudit.Proofs.NameScanning

/-!
Code points and their bytes. A text falls into pieces, each of which is a valid encoding or a single byte that is part
of none. An encoding is known by its own bytes, whatever follows it, and the bytes after its first begin no encoding.
So a text can be cut anywhere: between two pieces nothing changes, and inside a piece what is left of its bytes are
invalid pieces of one byte each.
-/

namespace SignalAudit.Text

/-- A byte that an encoding can have after its first. -/
def Continues (b : UInt8) : Prop := 0x80 ≤ b.toNat ∧ b.toNat ≤ 0xBF

/-- A first byte and a tail that are a valid encoding of a code point. -/
structure Encodes (lead : UInt8) (tail : Text) (p : CodePoint) : Prop where
  width : p.width = tail.length + 1
  continues : ∀ b ∈ tail, Continues b
  bytes : lead :: tail = encode p.code
  recognised : ∀ more, firstPoint lead (tail ++ more) = p

theorem toUInt8_eq {n : Nat} {b : UInt8} (h : n = b.toNat) : n.toUInt8 = b := by
  rw [h]
  exact UInt8.ofNat_toNat

theorem continues_of_continued {b : UInt8} {x : Nat} (h : continued 0x80 0xBF b = some x) :
    Continues b ∧ x = b.toNat % 64 := by
  obtain ⟨hlow, hhigh, hx⟩ := continued_eq_some h
  exact ⟨⟨hlow, hhigh⟩, hx⟩

theorem firstPoint_eq (lead : UInt8) (rest : Text) : firstPoint lead rest =
    if lead.toNat < 0x80 then ⟨lead.toNat, 1⟩
    else if lead.toNat < 0xC2 then .invalid
    else if lead.toNat < 0xE0 then decodeTwo lead rest
    else if lead.toNat < 0xF0 then decodeThree lead rest
    else if lead.toNat < 0xF5 then decodeFour lead rest
    else .invalid := by
  simp only [firstPoint, UInt8.lt_iff_toNat_lt]
  rfl

theorem firstPoint_of_continues {b : UInt8} (h : Continues b) (rest : Text) : firstPoint b rest = .invalid := by
  obtain ⟨hlow, hhigh⟩ := h
  rw [firstPoint_eq, if_neg (by omega), if_pos (by omega)]

section Decoding

variable {lead : UInt8}

theorem encodes_of_low (h : lead.toNat < 0x80) : Encodes lead [] ⟨lead.toNat, 1⟩ where
  width := rfl
  continues := by simp
  bytes := by simp [encode, h]
  recognised more := firstPoint_of_low h more

theorem decodeTwo_cases (hlow : 0xC2 ≤ lead.toNat) (hhigh : lead.toNat < 0xE0)
    (hfirst : ∀ rest, firstPoint lead rest = decodeTwo lead rest) (rest : Text) :
    decodeTwo lead rest = .invalid ∨ ∃ tail more p, rest = tail ++ more ∧ Encodes lead tail p := by
  rcases rest with _ | ⟨b, more⟩
  · exact .inl rfl
  cases hx : continued 0x80 0xBF b with
  | none => exact .inl (by simp [decodeTwo, hx])
  | some x =>
    obtain ⟨hb, rfl⟩ := continues_of_continued hx
    refine .inr ⟨[b], more, ⟨lead.toNat % 32 * 64 + b.toNat % 64, 2⟩, rfl, rfl, by simpa using hb, ?_, ?_⟩
    · obtain ⟨hblow, hbhigh⟩ := hb
      dsimp only
      rw [encode, if_neg (by omega), if_pos (by omega), toUInt8_eq (by omega : _ = lead.toNat),
        toUInt8_eq (by omega : _ = b.toNat)]
    · intro rest
      simp [hfirst, decodeTwo, hx]

theorem decodeThree_cases (hlow : 0xE0 ≤ lead.toNat) (hhigh : lead.toNat < 0xF0)
    (hfirst : ∀ rest, firstPoint lead rest = decodeThree lead rest) (rest : Text) :
    decodeThree lead rest = .invalid ∨ ∃ tail more p, rest = tail ++ more ∧ Encodes lead tail p := by
  rcases rest with _ | ⟨b, _ | ⟨c, more⟩⟩
  · exact .inl rfl
  · exact .inl rfl
  cases hx : continued (if lead = 0xE0 then 0xA0 else 0x80) (if lead = 0xED then 0x9F else 0xBF) b with
  | none => exact .inl (by simp [decodeThree, hx])
  | some x =>
    cases hy : continued 0x80 0xBF c with
    | none => exact .inl (by simp [decodeThree, hx, hy])
    | some y =>
      obtain ⟨hblow, hbhigh, hshort, rfl⟩ := second_eq_some hx (by decide) (by decide)
      obtain ⟨hc, rfl⟩ := continues_of_continued hy
      refine .inr ⟨[b, c], more, ⟨lead.toNat % 16 * 4096 + b.toNat % 64 * 64 + c.toNat % 64, 3⟩, rfl, rfl,
        by simpa using ⟨⟨hblow, hbhigh⟩, hc⟩, ?_, ?_⟩
      · change lead.toNat = 0xE0 → 0xA0 ≤ b.toNat at hshort
        obtain ⟨hclow, hchigh⟩ := hc
        dsimp only
        rw [encode, if_neg (by omega), if_neg (by omega), if_pos (by omega), toUInt8_eq (by omega : _ = lead.toNat),
          toUInt8_eq (by omega : _ = b.toNat), toUInt8_eq (by omega : _ = c.toNat)]
      · intro rest
        simp [hfirst, decodeThree, hx, hy]

theorem decodeFour_cases (hlow : 0xF0 ≤ lead.toNat) (hhigh : lead.toNat < 0xF5)
    (hfirst : ∀ rest, firstPoint lead rest = decodeFour lead rest) (rest : Text) :
    decodeFour lead rest = .invalid ∨ ∃ tail more p, rest = tail ++ more ∧ Encodes lead tail p := by
  rcases rest with _ | ⟨b, _ | ⟨c, _ | ⟨d, more⟩⟩⟩
  · exact .inl rfl
  · exact .inl rfl
  · exact .inl rfl
  cases hx : continued (if lead = 0xF0 then 0x90 else 0x80) (if lead = 0xF4 then 0x8F else 0xBF) b with
  | none => exact .inl (by simp [decodeFour, hx])
  | some x =>
    cases hy : continued 0x80 0xBF c with
    | none => exact .inl (by simp [decodeFour, hx, hy])
    | some y =>
      cases hz : continued 0x80 0xBF d with
      | none => exact .inl (by simp [decodeFour, hx, hy, hz])
      | some z =>
        obtain ⟨hblow, hbhigh, hshort, rfl⟩ := second_eq_some hx (by decide) (by decide)
        obtain ⟨hc, rfl⟩ := continues_of_continued hy
        obtain ⟨hd, rfl⟩ := continues_of_continued hz
        refine .inr ⟨[b, c, d], more,
          ⟨lead.toNat % 8 * 262144 + b.toNat % 64 * 4096 + c.toNat % 64 * 64 + d.toNat % 64, 4⟩, rfl, rfl,
          by simpa using ⟨⟨hblow, hbhigh⟩, hc, hd⟩, ?_, ?_⟩
        · change lead.toNat = 0xF0 → 0x90 ≤ b.toNat at hshort
          obtain ⟨hclow, hchigh⟩ := hc
          obtain ⟨hdlow, hdhigh⟩ := hd
          dsimp only
          rw [encode, if_neg (by omega), if_neg (by omega), if_neg (by omega), toUInt8_eq (by omega : _ = lead.toNat),
            toUInt8_eq (by omega : _ = b.toNat), toUInt8_eq (by omega : _ = c.toNat),
            toUInt8_eq (by omega : _ = d.toNat)]
        · intro rest
          simp [hfirst, decodeFour, hx, hy, hz]

theorem firstPoint_cases (lead : UInt8) (rest : Text) :
    firstPoint lead rest = .invalid ∨ ∃ tail more p, rest = tail ++ more ∧ Encodes lead tail p := by
  by_cases hone : lead.toNat < 0x80
  · exact .inr ⟨[], rest, _, rfl, encodes_of_low hone⟩
  by_cases hnone : lead.toNat < 0xC2
  · exact .inl (by simp [firstPoint_eq, hone, hnone])
  by_cases htwo : lead.toNat < 0xE0
  · have hfirst : ∀ rest, firstPoint lead rest = decodeTwo lead rest := by simp [firstPoint_eq, hone, hnone, htwo]
    rw [hfirst]
    exact decodeTwo_cases (Nat.not_lt.mp hnone) htwo hfirst rest
  by_cases hthree : lead.toNat < 0xF0
  · have hfirst : ∀ rest, firstPoint lead rest = decodeThree lead rest := by
      simp [firstPoint_eq, hone, hnone, htwo, hthree]
    rw [hfirst]
    exact decodeThree_cases (Nat.not_lt.mp htwo) hthree hfirst rest
  by_cases hfour : lead.toNat < 0xF5
  · have hfirst : ∀ rest, firstPoint lead rest = decodeFour lead rest := by
      simp [firstPoint_eq, hone, hnone, htwo, hthree, hfour]
    rw [hfirst]
    exact decodeFour_cases (Nat.not_lt.mp hthree) hfour hfirst rest
  · exact .inl (by simp [firstPoint_eq, hone, hnone, htwo, hthree, hfour])

end Decoding

/-- A byte that begins no encoding does not begin one when less follows it. -/
theorem firstPoint_of_append {lead : UInt8} {rest more : Text} (h : firstPoint lead (rest ++ more) = .invalid) :
    firstPoint lead rest = .invalid := by
  rcases firstPoint_cases lead rest with hinvalid | ⟨tail, others, p, rfl, hp⟩
  · exact hinvalid
  · rw [List.append_assoc, hp.recognised] at h
    rw [hp.recognised, h]

theorem piecesAfter_nil (skip : Nat) : piecesAfter skip [] = [] := by
  cases skip <;> rfl

theorem piecesAfter_eq_drop (skip : Nat) (t : Text) : piecesAfter skip t = pieces (t.drop skip) := by
  induction t generalizing skip with
  | nil => simp [pieces, piecesAfter_nil]
  | cons b rest ih =>
    cases skip with
    | zero => rfl
    | succ skip => exact ih skip

theorem pieces_of_invalid {b : UInt8} {rest : Text} (h : firstPoint b rest = .invalid) :
    pieces (b :: rest) = ⟨.invalid, [b]⟩ :: pieces rest := by
  rw [pieces, piecesAfter, h]
  rfl

theorem pieces_of_encodes {b : UInt8} {tail : Text} {p : CodePoint} (h : Encodes b tail p) (more : Text) :
    pieces (b :: (tail ++ more)) = ⟨p, b :: tail⟩ :: pieces more := by
  rw [pieces, piecesAfter, h.recognised, piecesAfter_eq_drop, h.width]
  simp

/-- Induction along the pieces of a text. -/
theorem byPieces {motive : Text → Prop} (nil : motive [])
    (invalid : ∀ b rest, firstPoint b rest = .invalid → motive rest → motive (b :: rest))
    (encoded : ∀ b tail p more, Encodes b tail p → motive more → motive (b :: (tail ++ more))) (t : Text) :
    motive t := by
  induction hn : t.length using Nat.strongRecOn generalizing t with
  | _ n ih =>
    cases t with
    | nil => exact nil
    | cons b rest =>
      rcases firstPoint_cases b rest with h | ⟨tail, more, p, rfl, h⟩
      · exact invalid b rest h (ih rest.length (by simp [← hn]) rest rfl)
      · have hshorter : more.length < n := by
          rw [← hn, List.length_cons, List.length_append]
          omega
        exact encoded b tail p more h (ih more.length hshorter more rfl)

theorem flatMap_pieces (t : Text) : (pieces t).flatMap Piece.bytes = t := by
  induction t using byPieces with
  | nil => rfl
  | invalid b rest h ih => simp [pieces_of_invalid h, ih]
  | encoded b tail p more h ih => simp [pieces_of_encodes h, ih]

/-- Some first pieces of a text are the pieces of a beginning of it, and the others those of the rest. -/
theorem pieces_eq_append {t : Text} {xs ys : List Piece} (h : pieces t = xs ++ ys) :
    ∃ u v, t = u ++ v ∧ pieces u = xs ∧ pieces v = ys := by
  induction t using byPieces generalizing xs with
  | nil =>
    obtain ⟨rfl, rfl⟩ := List.append_eq_nil_iff.mp h.symm
    exact ⟨[], [], rfl, rfl, rfl⟩
  | invalid b rest hb ih =>
    cases xs with
    | nil => exact ⟨[], b :: rest, rfl, rfl, h⟩
    | cons x xs =>
      rw [pieces_of_invalid hb] at h
      obtain ⟨rfl, hrest⟩ := List.cons.inj h
      obtain ⟨u, v, rfl, hu, hv⟩ := ih hrest
      exact ⟨b :: u, v, rfl, by rw [pieces_of_invalid (firstPoint_of_append hb), hu], hv⟩
  | encoded b tail p more hp ih =>
    cases xs with
    | nil => exact ⟨[], _, rfl, rfl, h⟩
    | cons x xs =>
      rw [pieces_of_encodes hp] at h
      obtain ⟨rfl, hrest⟩ := List.cons.inj h
      obtain ⟨u, v, rfl, hu, hv⟩ := ih hrest
      exact ⟨b :: (tail ++ u), v, by simp, by rw [pieces_of_encodes hp, hu], hv⟩

theorem encodes_of_mem_pieces {t : Text} {q : Piece} (hq : q ∈ pieces t) :
    (∃ b, q = ⟨.invalid, [b]⟩) ∨ ∃ lead tail, q.bytes = lead :: tail ∧ Encodes lead tail q.point := by
  induction t using byPieces with
  | nil => simp [pieces, piecesAfter] at hq
  | invalid b rest h ih =>
    rw [pieces_of_invalid h] at hq
    rcases List.mem_cons.mp hq with rfl | hq
    · exact .inl ⟨b, rfl⟩
    · exact ih hq
  | encoded b tail p more h ih =>
    rw [pieces_of_encodes h] at hq
    rcases List.mem_cons.mp hq with rfl | hq
    · exact .inr ⟨b, tail, rfl, h⟩
    · exact ih hq

theorem pieces_of_continues {left : Text} (h : ∀ b ∈ left, Continues b) (more : Text) :
    pieces (left ++ more) = left.map (fun b => ⟨.invalid, [b]⟩) ++ pieces more := by
  induction left with
  | nil => rfl
  | cons b left ih =>
    obtain ⟨hb, hleft⟩ := List.forall_mem_cons.mp h
    rw [List.cons_append, pieces_of_invalid (firstPoint_of_continues hb _), ih hleft]
    rfl

/-- A text that ends another and begins inside one of its code points. -/
def BeginsInside (t whole : Text) : Prop :=
  ∃ front broken back taken left, pieces whole = front ++ broken :: back ∧ broken.bytes = taken ++ left ∧
    taken ≠ [] ∧ left ≠ [] ∧ t = left ++ back.flatMap Piece.bytes

/-- What is left of the broken code point are invalid bytes. -/
theorem BeginsInside.pieces_eq {t whole : Text} (h : BeginsInside t whole) :
    ∃ left back, left ≠ [] ∧ back <:+ pieces whole ∧ pieces t = left.map (fun b => ⟨.invalid, [b]⟩) ++ back := by
  obtain ⟨front, broken, back, taken, left, hwhole, hbytes, htaken, hleft, rfl⟩ := h
  have hcontinues : ∀ b ∈ left, Continues b := by
    obtain ⟨c, taken, rfl⟩ := List.exists_cons_of_ne_nil htaken
    have hbroken : broken ∈ pieces whole := by simp [hwhole]
    intro b hb
    rcases encodes_of_mem_pieces hbroken with ⟨b, rfl⟩ | ⟨lead, tail, hlead, h⟩
    · simp [hleft] at hbytes
    · obtain ⟨_, htail⟩ := List.cons.inj (hlead.symm.trans hbytes)
      apply h.continues
      simp [htail, hb]
  have hback : pieces (back.flatMap Piece.bytes) = back := by
    have hsplit : pieces whole = (front ++ [broken]) ++ back := by simp [hwhole]
    obtain ⟨u, v, _, _, hv⟩ := pieces_eq_append hsplit
    rw [← hv, flatMap_pieces]
  refine ⟨left, back, hleft, ⟨front ++ [broken], by simp [hwhole]⟩, ?_⟩
  rw [pieces_of_continues hcontinues, hback]

/-- A text from some place on has its pieces, unless it begins inside one. -/
theorem pieces_suffix_or_beginsInside (u v : Text) : pieces v <:+ pieces (u ++ v) ∨ BeginsInside v (u ++ v) := by
  generalize ht : u ++ v = t
  induction t using byPieces generalizing u with
  | nil =>
    obtain ⟨rfl, rfl⟩ := List.append_eq_nil_iff.mp ht
    exact .inl List.suffix_rfl
  | invalid b rest hb ih =>
    cases u with
    | nil =>
      subst ht
      exact .inl List.suffix_rfl
    | cons c u =>
      obtain ⟨rfl, hrest⟩ := List.cons.inj ht
      rw [BeginsInside, pieces_of_invalid hb]
      rcases ih u hrest with h | ⟨front, broken, back, taken, left, hpieces, h⟩
      · exact .inl (h.trans (List.suffix_cons ..))
      · exact .inr ⟨_ :: front, broken, back, taken, left, congrArg (_ :: ·) hpieces, h⟩
  | encoded b tail p more hp ih =>
    cases u with
    | nil =>
      subst ht
      exact .inl List.suffix_rfl
    | cons c u =>
      obtain ⟨rfl, hrest⟩ := List.cons.inj ht
      rw [BeginsInside, pieces_of_encodes hp]
      rcases List.append_eq_append_iff.mp hrest with ⟨left, rfl, rfl⟩ | ⟨between, rfl, rfl⟩
      · -- The place is in this piece, or at its end if nothing is left of it.
        cases left with
        | nil => exact .inl (List.suffix_cons ..)
        | cons d left =>
          exact .inr ⟨[], _, _, c :: u, d :: left, rfl, by simp, by simp, by simp, by simp [flatMap_pieces]⟩
      · rcases ih between rfl with h | ⟨front, broken, back, taken, left, hpieces, h⟩
        · exact .inl (h.trans (List.suffix_cons ..))
        · exact .inr ⟨_ :: front, broken, back, taken, left, congrArg (_ :: ·) hpieces, h⟩

section Search

variable {stop : Nat → Bool}

theorem indexFrom_add (i n skip : Nat) (t : Text) :
    indexFrom stop (i + n) skip t = (indexFrom stop i skip t).map (· + n) := by
  induction t generalizing i skip with
  | nil => cases skip <;> rfl
  | cons b rest ih =>
    cases skip with
    | zero =>
      rw [indexFrom, indexFrom, Nat.add_right_comm, ih]
      split <;> rfl
    | succ skip => rw [indexFrom, indexFrom, Nat.add_right_comm, ih]

theorem indexFrom_skip (i skip : Nat) (t : Text) :
    indexFrom stop i skip t = (indexOf? stop (t.drop skip)).map (· + (i + skip)) := by
  induction t generalizing i skip with
  | nil => cases skip <;> rfl
  | cons b rest ih =>
    cases skip with
    | zero =>
      have hshift : indexFrom stop (0 + i) 0 (b :: rest) = _ := indexFrom_add 0 i 0 (b :: rest)
      rwa [Nat.zero_add] at hshift
    | succ skip =>
      rw [indexFrom, ih, Nat.add_right_comm, Nat.add_assoc]
      rfl

theorem indexOf?_of_invalid {b : UInt8} {rest : Text} (h : firstPoint b rest = .invalid) :
    indexOf? stop (b :: rest) = if stop replacement then some 0 else (indexOf? stop rest).map (· + 1) := by
  rw [indexOf?, indexFrom, h, indexFrom_skip]
  rfl

theorem indexOf?_of_encodes {b : UInt8} {tail : Text} {p : CodePoint} (h : Encodes b tail p) (more : Text) :
    indexOf? stop (b :: (tail ++ more)) =
      if stop p.code then some 0 else (indexOf? stop more).map (· + (tail.length + 1)) := by
  rw [indexOf?, indexFrom, h.recognised, h.width, indexFrom_skip, Nat.add_comm (0 + 1)]
  simp

end Search

/-- A text with a code point that ends names. -/
def Terminates (stops t : Text) : Prop := ∃ code ∈ codes t, code ∈ codes stops

/-- A text is a name, the code point that ends it and what follows; nothing ends the name earlier. -/
structure EndsName (stops t name : Text) (p : CodePoint) (stop back : Text) : Prop where
  cut : t = name ++ stop ++ back
  divides : pieces t = pieces name ++ ⟨p, stop⟩ :: pieces back
  ends : p.code ∈ codes stops
  free : ¬ Terminates stops name

section Stops

variable {stops : Text}

theorem not_terminates_nil : ¬ Terminates stops [] := by
  simp [Terminates, codes, pieces, piecesAfter]

theorem terminates_of_invalid {b : UInt8} {rest : Text} (h : firstPoint b rest = .invalid) :
    Terminates stops (b :: rest) ↔ replacement ∈ codes stops ∨ Terminates stops rest := by
  simp [Terminates, codes, pieces_of_invalid h, CodePoint.invalid]

theorem terminates_of_encodes {b : UInt8} {tail : Text} {p : CodePoint} (h : Encodes b tail p) (more : Text) :
    Terminates stops (b :: (tail ++ more)) ↔ p.code ∈ codes stops ∨ Terminates stops more := by
  simp [Terminates, codes, pieces_of_encodes h]

theorem beforeAny?_of_invalid {b : UInt8} {rest : Text} (h : firstPoint b rest = .invalid) :
    beforeAny? stops (b :: rest) =
      if replacement ∈ codes stops then some [] else (beforeAny? stops rest).map (b :: ·) := by
  simp only [beforeAny?, indexOf?_of_invalid h, List.contains_iff_mem]
  split
  · rfl
  · simp [Function.comp_def]

theorem beforeAny?_of_encodes {b : UInt8} {tail : Text} {p : CodePoint} (h : Encodes b tail p) (more : Text) :
    beforeAny? stops (b :: (tail ++ more)) =
      if p.code ∈ codes stops then some [] else (beforeAny? stops more).map (b :: tail ++ ·) := by
  simp only [beforeAny?, indexOf?_of_encodes h, List.contains_iff_mem]
  split
  · rfl
  · have htake : ∀ n, (b :: (tail ++ more)).take (n + (tail.length + 1)) = b :: tail ++ more.take n := by
      intro n
      rw [← Nat.add_assoc, List.take_succ_cons, Nat.add_comm, List.take_length_add_append]
      rfl
    simp [Function.comp_def, htake]

theorem beforeAny?_eq_none_iff (t : Text) : beforeAny? stops t = none ↔ ¬ Terminates stops t := by
  induction t using byPieces with
  | nil => simp [not_terminates_nil, beforeAny?, indexOf?, indexFrom]
  | invalid b rest h ih =>
    rw [beforeAny?_of_invalid h, terminates_of_invalid h]
    by_cases hs : replacement ∈ codes stops <;> simp [hs, ih]
  | encoded b tail p more h ih =>
    rw [beforeAny?_of_encodes h, terminates_of_encodes h]
    by_cases hs : p.code ∈ codes stops <;> simp [hs, ih]

theorem beforeAny?_eq_some {t name : Text} (h : beforeAny? stops t = some name) :
    ∃ p stop back, EndsName stops t name p stop back := by
  induction t using byPieces generalizing name with
  | nil => cases h
  | invalid b rest hb ih =>
    rw [beforeAny?_of_invalid hb] at h
    split at h
    · next hs =>
      obtain rfl := Option.some.inj h
      exact ⟨.invalid, [b], rest, rfl, pieces_of_invalid hb, hs, not_terminates_nil⟩
    · next hs =>
      obtain ⟨name, hname, rfl⟩ := Option.map_eq_some_iff.mp h
      obtain ⟨p, stop, back, rfl, hpieces, hends, hfree⟩ := ih hname
      have hb' : firstPoint b name = .invalid := by
        rw [List.append_assoc] at hb
        exact firstPoint_of_append hb
      refine ⟨p, stop, back, rfl, ?_, hends, ?_⟩
      · rw [pieces_of_invalid hb, hpieces, pieces_of_invalid hb']
        rfl
      · rw [terminates_of_invalid hb']
        simp [hs, hfree]
  | encoded b tail p more hp ih =>
    rw [beforeAny?_of_encodes hp] at h
    split at h
    · next hs =>
      obtain rfl := Option.some.inj h
      exact ⟨p, b :: tail, more, rfl, pieces_of_encodes hp more, hs, not_terminates_nil⟩
    · next hs =>
      obtain ⟨name, hname, rfl⟩ := Option.map_eq_some_iff.mp h
      obtain ⟨q, stop, back, rfl, hpieces, hends, hfree⟩ := ih hname
      refine ⟨q, stop, back, by simp, ?_, hends, ?_⟩
      · rw [pieces_of_encodes hp, hpieces, List.cons_append, pieces_of_encodes hp]
        rfl
      · rw [List.cons_append, terminates_of_encodes hp]
        simp [hs, hfree]

theorem EndsName.takeWhile_eq {t name stop back : Text} {p : CodePoint} (h : EndsName stops t name p stop back) :
    ((pieces t).takeWhile fun q => q.point.code ∉ codes stops) = pieces name := by
  have hfree : ∀ q ∈ pieces name, decide (q.point.code ∉ codes stops) = true := by
    intro q hq
    simpa using fun hs => h.free ⟨_, List.mem_map_of_mem hq, hs⟩
  rw [h.divides, List.takeWhile_append_of_pos hfree]
  simp [h.ends]

theorem beforeAny?_eq_some_iff {t name : Text} :
    beforeAny? stops t = some name ↔ ∃ p stop back, EndsName stops t name p stop back := by
  refine ⟨beforeAny?_eq_some, ?_⟩
  rintro ⟨p, stop, back, h⟩
  cases hb : beforeAny? stops t with
  | none =>
    refine absurd ⟨p.code, ?_, h.ends⟩ ((beforeAny?_eq_none_iff t).mp hb)
    simp [codes, h.divides]
  | some other =>
    obtain ⟨q, stop', back', h'⟩ := beforeAny?_eq_some hb
    have hpieces := h.takeWhile_eq.symm.trans h'.takeWhile_eq
    rw [← flatMap_pieces name, hpieces, flatMap_pieces]

end Stops

end SignalAudit.Text
