import SignalAudit.FileSystem.Basic

/-!
Spellings and stacks of parts. A path has a stack, its parts once it is cleaned, and for tidy stacks spelling and
reading are inverse to each other. So a path below a directory has the directory's stack with one more name on it.
-/

namespace SignalAudit

namespace Text

theorem sep_not_mem_of_mem_splitOn {sep : UInt8} {t piece : Text} (h : piece ∈ t.splitOn sep) : sep ∉ piece := by
  induction t generalizing piece with
  | nil => simp_all
  | cons c rest ih =>
    obtain ⟨first, others, hs⟩ := List.exists_cons_of_ne_nil (List.splitOn_ne_nil sep rest)
    rw [List.splitOn_cons_eq_if_modifyHead] at h
    by_cases hc : c = sep
    · simp only [hc, beq_self_eq_true, ↓reduceIte, List.mem_cons] at h
      rcases h with rfl | h
      · simp
      · exact ih h
    · simp only [beq_iff_eq, hc, ↓reduceIte, hs, List.modifyHead_cons, List.mem_cons] at h
      rcases h with rfl | h
      · have hf : sep ∉ first := ih (by simp [hs])
        simp [Ne.symm hc, hf]
      · exact ih (by simp [hs, h])

theorem length_intercalate_le (sep : Text) (xs ys : List Text) :
    (sep.intercalate xs).length ≤ (sep.intercalate (xs ++ ys)).length := by
  induction xs with
  | nil => simp
  | cons x rest ih =>
    by_cases hr : rest = []
    · subst hr
      by_cases hy : ys = []
      · simp [hy]
      · rw [List.singleton_append, List.intercalate_cons_of_ne_nil hy]
        simp
    · rw [List.cons_append, List.intercalate_cons_of_ne_nil hr, List.intercalate_cons_of_ne_nil (by simp [hr])]
      simp only [List.length_append]
      omega

end Text

theorem isLegalName_iff {name : Text} :
    isLegalName name = true ↔ name ≠ [] ∧ name ≠ Path.dot ∧ name ≠ Path.dotDot ∧ Path.slash ∉ name ∧ 0 ∉ name ∧
      name.length ≤ longestName := by
  simp [isLegalName, and_assoc]

namespace Path

/-- A part that names an entry of a directory. -/
structure IsName (part : Text) : Prop where
  ne_nil : part ≠ []
  ne_dot : part ≠ dot
  ne_dotDot : part ≠ dotDot
  no_slash : slash ∉ part

theorem IsName.of_legal {name : Text} (h : isLegalName name = true) : IsName name := by
  obtain ⟨hn, hd, hu, hs, _⟩ := isLegalName_iff.mp h
  exact ⟨hn, hd, hu, hs⟩

theorem IsName.not_blank {part : Text} (h : IsName part) : ¬ (part = [] ∨ part = dot) := by
  rintro (he | he)
  · exact h.ne_nil he
  · exact h.ne_dot he

/-- The stack of a clean path: names, and beneath them, if the path is relative, parts that go up. -/
inductive Tidy : Bool → List Text → Prop where
  | bottom (absolute : Bool) : Tidy absolute []
  | up {outer : List Text} (ups : ∀ part ∈ outer, part = dotDot) : Tidy false (dotDot :: outer)
  | name {absolute : Bool} {part : Text} {outer : List Text} (named : IsName part) (tidy : Tidy absolute outer) :
      Tidy absolute (part :: outer)

/-- The parts of a path once it is cleaned, innermost first. -/
def inner (path : Text) : List Text := stack (isAbsolute path) [] (parts path)

theorem dotDot_no_slash : slash ∉ dotDot := by decide

theorem dotDot_ne_nil : dotDot ≠ [] := by decide

theorem dotDot_ne_dot : dotDot ≠ dot := by decide

theorem dotDot_not_blank : ¬ (dotDot = [] ∨ dotDot = dot) := by decide

theorem Tidy.no_slash {absolute : Bool} {l : List Text} (h : Tidy absolute l) : ∀ part ∈ l, slash ∉ part := by
  induction h with
  | bottom => simp
  | up ups =>
    intro part hp
    rcases List.mem_cons.mp hp with rfl | hp
    · exact dotDot_no_slash
    · exact ups part hp ▸ dotDot_no_slash
  | name named _ ih =>
    intro part hp
    rcases List.mem_cons.mp hp with rfl | hp
    · exact named.no_slash
    · exact ih part hp

theorem Tidy.ne_nil {absolute : Bool} {l : List Text} (h : Tidy absolute l) : ∀ part ∈ l, part ≠ [] := by
  induction h with
  | bottom => simp
  | up ups =>
    intro part hp
    rcases List.mem_cons.mp hp with rfl | hp
    · exact dotDot_ne_nil
    · exact ups part hp ▸ dotDot_ne_nil
  | name named _ ih =>
    intro part hp
    rcases List.mem_cons.mp hp with rfl | hp
    · exact named.ne_nil
    · exact ih part hp

/-- Below the top there are only names. -/
theorem Tidy.isName {l : List Text} (h : Tidy true l) : ∀ part ∈ l, IsName part := by
  generalize ha : true = absolute at h
  induction h with
  | bottom => simp
  | up => cases ha
  | name named _ ih =>
    intro part hp
    rcases List.mem_cons.mp hp with rfl | hp
    · exact named
    · exact ih ha part hp

theorem tidy_of_isName {absolute : Bool} {l : List Text} (h : ∀ part ∈ l, IsName part) : Tidy absolute l := by
  induction l with
  | nil => exact .bottom absolute
  | cons part outer ih => exact .name (h part (by simp)) (ih fun q hq => h q (by simp [hq]))

theorem stack_append (absolute : Bool) (l xs ys : List Text) :
    stack absolute l (xs ++ ys) = stack absolute (stack absolute l xs) ys := by
  induction xs generalizing l with
  | nil => simp [stack]
  | cons part rest ih =>
    simp only [List.cons_append, stack]
    split
    · exact ih l
    · split
      · split
        · exact ih _
        · split <;> exact ih _
      · exact ih _

theorem stack_name (absolute : Bool) (l : List Text) {part : Text} (h : IsName part) :
    stack absolute l [part] = part :: l := by
  simp [stack, h.ne_nil, h.ne_dot, h.ne_dotDot]

/-- Going up from a stack of names removes the innermost one. -/
theorem stack_up {l : List Text} (h : Tidy true l) : stack true l [dotDot] = l.tail := by
  cases l with
  | nil => simp [stack, dotDot_ne_nil, dotDot_ne_dot]
  | cons part outer => simp [stack, dotDot_ne_nil, dotDot_ne_dot, (h.isName part (by simp)).ne_dotDot]

theorem Tidy.tail {absolute : Bool} {l : List Text} (h : Tidy absolute l) : Tidy absolute l.tail := by
  cases h with
  | bottom => exact .bottom absolute
  | @up outer ups =>
    cases outer with
    | nil => exact .bottom false
    | cons part outer =>
      have hp := ups part (by simp)
      subst hp
      exact .up fun q hq => ups q (by simp [hq])
  | name _ tidy => exact tidy

theorem Tidy.up_cons {part : Text} {outer : List Text} (h : Tidy false (part :: outer)) (hp : part = dotDot) :
    Tidy false (dotDot :: part :: outer) := by
  cases h with
  | up ups => exact .up (by simpa using ups)
  | name named _ => exact absurd hp named.ne_dotDot

theorem stack_tidy {absolute : Bool} {l todo : List Text} (hl : Tidy absolute l) (ht : ∀ part ∈ todo, slash ∉ part) :
    Tidy absolute (stack absolute l todo) := by
  induction todo generalizing l with
  | nil => exact hl
  | cons part rest ih =>
    have hr : ∀ q ∈ rest, slash ∉ q := fun q hq => ht q (by simp [hq])
    unfold stack
    split
    · exact ih hl hr
    next hskip =>
      simp only [not_or] at hskip
      split
      · cases l with
        | nil =>
          cases absolute with
          | true => exact ih (.bottom true) hr
          | false => exact ih (.up (by simp)) hr
        | cons last outer =>
          simp only
          split
          next hlast =>
            cases absolute with
            | true => exact absurd hlast (hl.isName last (by simp)).ne_dotDot
            | false => exact ih (hl.up_cons hlast) hr
          · exact ih hl.tail hr
      next hup => exact ih (.name ⟨hskip.1, hskip.2, hup, ht part (by simp)⟩ hl) hr

/-- Reading a tidy stack from the outside rebuilds it. -/
theorem stack_reverse {absolute : Bool} {l : List Text} (h : Tidy absolute l) :
    stack absolute [] l.reverse = l := by
  induction h with
  | bottom => rfl
  | @up outer ups =>
    have hu : ∀ l : List Text, (∀ part ∈ l, part = dotDot) → stack false [] l.reverse = l := by
      intro l hl
      induction l with
      | nil => rfl
      | cons part outer ih =>
        have hp := hl part (by simp)
        subst hp
        rw [List.reverse_cons, stack_append, ih fun q hq => hl q (by simp [hq])]
        cases outer with
        | nil => simp [stack, dotDot_ne_nil, dotDot_ne_dot]
        | cons q outer => simp [stack, dotDot_ne_nil, dotDot_ne_dot, hl q (by simp)]
    exact hu _ (by simpa using ups)
  | name named _ ih => rw [List.reverse_cons, stack_append, ih, stack_name _ _ named]

theorem stack_of_no_dotDot (absolute : Bool) (l : List Text) {todo : List Text} (h : dotDot ∉ todo) :
    stack absolute l todo = (todo.filter fun part => ¬ (part = [] ∨ part = dot)).reverse ++ l := by
  induction todo generalizing l with
  | nil => rfl
  | cons part rest ih =>
    simp only [List.mem_cons, not_or] at h
    obtain ⟨hp, hr⟩ := h
    by_cases hb : part = [] ∨ part = dot
    · have hdrop : decide (¬ (part = [] ∨ part = dot)) = false := decide_eq_false fun hn => hn hb
      simp only [stack, if_pos hb, List.filter_cons, hdrop, ih l hr, Bool.false_eq_true, ↓reduceIte]
    · have hkeep : decide (¬ (part = [] ∨ part = dot)) = true := decide_eq_true hb
      simp only [stack, if_neg hb, if_neg (Ne.symm hp), List.filter_cons, hkeep, ih (part :: l) hr, ↓reduceIte,
        List.reverse_cons, List.append_assoc, List.singleton_append]

/-- Parts that have been cleaned on their own pile up as they would have before. -/
theorem stack_stack {base l todo : List Text} (hb : Tidy true base) (hl : Tidy false l)
    (ht : ∀ part ∈ todo, slash ∉ part) :
    stack true base (stack false l todo).reverse = stack true (stack true base l.reverse) todo := by
  induction todo generalizing l with
  | nil => rfl
  | cons part rest ih =>
    have hr : ∀ q ∈ rest, slash ∉ q := fun q hq => ht q (by simp [hq])
    have hpile : Tidy true (stack true base l.reverse) :=
      stack_tidy hb fun q hq => hl.no_slash q (List.mem_reverse.mp hq)
    by_cases hblank : part = [] ∨ part = dot
    · simpa only [stack, if_pos hblank] using ih hl hr
    rw [← List.singleton_append, stack_append, stack_append]
    by_cases hup : part = dotDot
    · subst hup
      rw [stack_up hpile]
      cases hl with
      | bottom =>
        have hone : stack false [] [dotDot] = [dotDot] := by decide
        rw [hone, ih (.up (by simp)) hr]
        simp only [List.reverse_singleton, List.reverse_nil]
        rw [stack_up hb]
        rfl
      | @up outer ups =>
        have hmore : stack false (dotDot :: outer) [dotDot] = dotDot :: dotDot :: outer := by
          simp [stack, dotDot_ne_nil, dotDot_ne_dot]
        rw [hmore, ih (.up (by simpa using ups)) hr, List.reverse_cons, stack_append, stack_up hpile]
      | @name _ last outer named tidy =>
        have hless : stack false (last :: outer) [dotDot] = outer := by
          simp [stack, dotDot_ne_nil, dotDot_ne_dot, named.ne_dotDot]
        rw [hless, ih tidy hr, List.reverse_cons, stack_append, stack_name _ _ named]
        rfl
    · simp only [not_or] at hblank
      have hn : IsName part := ⟨hblank.1, hblank.2, hup, ht part (by simp)⟩
      rw [stack_name _ _ hn, stack_name _ _ hn, ih (.name hn hl) hr, List.reverse_cons, stack_append,
        stack_name _ _ hn]

theorem slash_not_mem_of_mem_parts {path part : Text} (h : part ∈ parts path) : slash ∉ part :=
  Text.sep_not_mem_of_mem_splitOn h

theorem parts_slash_cons (t : Text) : parts (slash :: t) = [] :: parts t := by
  simp [parts, List.splitOn_cons_eq_if_modifyHead]

theorem inner_tidy (path : Text) : Tidy (isAbsolute path) (inner path) :=
  stack_tidy (.bottom _) fun _ => slash_not_mem_of_mem_parts

theorem parts_spell {absolute : Bool} {l : List Text} (hl : l ≠ []) (h : ∀ part ∈ l, slash ∉ part) :
    parts (spell absolute l) = (if absolute then [[]] else []) ++ l.reverse := by
  have hj : parts ([slash].intercalate l.reverse) = l.reverse :=
    List.splitOn_intercalate slash (by simpa using h) (by simpa using hl)
  cases absolute with
  | true => simp [spell, parts_slash_cons, hj]
  | false => simp [spell, hj]

theorem isAbsolute_spell_of_parts {absolute : Bool} {l : List Text} (hne : ∀ part ∈ l, part ≠ [])
    (hs : ∀ part ∈ l, slash ∉ part) : isAbsolute (spell absolute l) = absolute := by
  cases absolute with
  | true => simp [spell, isAbsolute]
  | false =>
    cases hr : l.reverse with
    | nil => simp [spell, hr, isAbsolute]
    | cons first rest =>
      have hm : first ∈ l := List.mem_reverse.mp (by simp [hr])
      obtain ⟨b, bs, rfl⟩ := List.exists_cons_of_ne_nil (hne first hm)
      have hb : slash ≠ b := fun he => hs _ hm (by simp [he])
      by_cases hrest : rest = []
      · simp [spell, hr, hrest, isAbsolute, Ne.symm hb]
      · simp [spell, hr, List.intercalate_cons_of_ne_nil hrest, isAbsolute, Ne.symm hb]

theorem isAbsolute_spell {absolute : Bool} {l : List Text} (h : Tidy absolute l) :
    isAbsolute (spell absolute l) = absolute :=
  isAbsolute_spell_of_parts h.ne_nil h.no_slash

theorem inner_spell {absolute : Bool} {l : List Text} (h : Tidy absolute l) : inner (spell absolute l) = l := by
  unfold inner
  rw [isAbsolute_spell h]
  by_cases hl : l = []
  · subst hl
    cases absolute <;> decide
  · rw [parts_spell hl h.no_slash, stack_append]
    have hskip : stack absolute [] (if absolute then [[]] else []) = [] := by
      cases absolute <;> simp [stack]
    rw [hskip, stack_reverse h]

/-- An outer stretch of a stack is not longer to spell. -/
theorem length_spell_le {l l' : List Text} (h : l <:+ l') : (spell true l).length ≤ (spell true l').length := by
  obtain ⟨more, rfl⟩ := h
  simpa [spell] using Text.length_intercalate_le [slash] l.reverse more.reverse

/-- Different stacks of names are spelled differently. -/
theorem spell_injective {l l' : List Text} (hl : Tidy true l) (hl' : Tidy true l')
    (h : spell true l = spell true l') : l = l' := by
  rw [← inner_spell hl, h, inner_spell hl']

theorem clean_eq_spell {path : Text} (h : inner path ≠ [] ∨ isAbsolute path = true) :
    clean path = spell (isAbsolute path) (inner path) := by
  unfold clean
  split
  · next ha hi =>
    rcases h with h | h
    · exact absurd hi h
    · rw [ha] at h
      cases h
  · rfl

theorem clean_of_inner_eq_nil {path : Text} (hi : inner path = []) (ha : isAbsolute path = false) :
    clean path = dot := by
  unfold clean
  unfold inner at hi
  rw [hi, ha]

theorem isAbsolute_clean (path : Text) : isAbsolute (clean path) = isAbsolute path := by
  by_cases h : inner path ≠ [] ∨ isAbsolute path = true
  · rw [clean_eq_spell h, isAbsolute_spell (inner_tidy path)]
  · simp only [not_or, Bool.not_eq_true, ne_eq, Decidable.not_not] at h
    rw [clean_of_inner_eq_nil h.1 h.2, h.2]
    rfl

/-- Below a stack of names a relative path piles up the same before and after it is cleaned. -/
theorem stack_parts_clean {base : List Text} (hb : Tidy true base) {path : Text} (ha : isAbsolute path = false) :
    stack true base (parts (clean path)) = stack true base (parts path) := by
  have hpile : stack true base (inner path).reverse = stack true base (parts path) := by
    unfold inner
    rw [ha]
    exact stack_stack hb (.bottom false) fun _ => slash_not_mem_of_mem_parts
  rw [← hpile]
  by_cases hi : inner path = []
  · rw [clean_of_inner_eq_nil hi ha, hi]
    exact if_pos (.inr rfl)
  · rw [clean_eq_spell (.inl hi), ha, parts_spell hi (inner_tidy path).no_slash]
    rfl

theorem inner_append (dir path : Text) (hd : dir ≠ []) :
    isAbsolute (dir ++ [slash] ++ path) = isAbsolute dir ∧
      inner (dir ++ [slash] ++ path) = stack (isAbsolute dir) (inner dir) (parts path) := by
  have ha : isAbsolute (dir ++ [slash] ++ path) = isAbsolute dir := by
    obtain ⟨b, bs, rfl⟩ := List.exists_cons_of_ne_nil hd
    simp [isAbsolute]
  refine ⟨ha, ?_⟩
  have hp : parts (dir ++ [slash] ++ path) = parts dir ++ parts path := by
    rw [List.append_assoc, List.singleton_append, parts, List.splitOn_append_cons_self]
    rfl
  rw [inner, ha, hp, stack_append]
  rfl

theorem seenFrom_of_isAbsolute {dir path : Text} (h : isAbsolute path = true) : seenFrom dir path = clean path :=
  if_pos h

/-- A relative path is seen from a directory by piling up its parts on the directory's stack. -/
theorem seenFrom_of_relative {dir path : Text} (hd : isAbsolute dir = true) (hp : isAbsolute path = false) :
    seenFrom dir path = spell true (stack true (inner dir) (parts path)) := by
  have hne : dir ≠ [] := by
    rintro rfl
    cases hd
  obtain ⟨ha, hi⟩ := inner_append dir path hne
  rw [hd] at ha hi
  unfold seenFrom join
  rw [if_neg (by simp [hp]), if_neg hne, clean_eq_spell (.inr ha), ha, hi]

theorem inner_append_name (dir : Text) {name : Text} (h : IsName name) (hd : dir ≠ []) :
    isAbsolute (dir ++ [slash] ++ name) = isAbsolute dir ∧
      inner (dir ++ [slash] ++ name) = name :: inner dir := by
  obtain ⟨ha, hi⟩ := inner_append dir name hd
  refine ⟨ha, ?_⟩
  rw [hi, parts, List.splitOn_eq_singleton h.no_slash, stack_name _ _ h]

/-- A path below a directory is spelled by the directory's stack with one more name on it. -/
theorem join_eq_spell (dir : Text) {name : Text} (h : IsName name) :
    join dir name = spell (isAbsolute dir) (name :: inner dir) := by
  unfold join
  split
  · next hd =>
    subst hd
    have hi : inner name = [name] := by
      rw [inner, parts, List.splitOn_eq_singleton h.no_slash, stack_name _ _ h]
    have ha : isAbsolute name = false := by
      obtain ⟨b, bs, rfl⟩ := List.exists_cons_of_ne_nil h.ne_nil
      have hb : b ≠ slash := fun he => h.no_slash (by simp [he])
      simp [isAbsolute, hb]
    rw [if_neg h.ne_nil, clean_eq_spell (.inl (by simp [hi])), hi, ha]
    rfl
  · next hd =>
    obtain ⟨ha, hi⟩ := inner_append_name dir h hd
    rw [clean_eq_spell (.inl (by rw [hi]; simp)), ha, hi]

theorem join_tidy (dir : Text) {name : Text} (h : IsName name) : Tidy (isAbsolute dir) (name :: inner dir) :=
  .name h (inner_tidy dir)

theorem isAbsolute_join (dir : Text) {name : Text} (h : IsName name) :
    isAbsolute (join dir name) = isAbsolute dir := by
  rw [join_eq_spell dir h, isAbsolute_spell (join_tidy dir h)]

theorem inner_join (dir : Text) {name : Text} (h : IsName name) : inner (join dir name) = name :: inner dir := by
  rw [join_eq_spell dir h, inner_spell (join_tidy dir h)]

theorem parts_join (dir : Text) {name : Text} (h : IsName name) :
    parts (join dir name) = (if isAbsolute dir then [[]] else []) ++ ((inner dir).reverse ++ [name]) := by
  rw [join_eq_spell dir h, parts_spell (by simp) (join_tidy dir h).no_slash, List.reverse_cons]

end Path

end SignalAudit
