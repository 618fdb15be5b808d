import SignalAudit.Proofs.Resolution

/-!
The spelling without links. Made absolute, it is the spelling of the place that a path leads to, whatever links, dots
and ways up the path goes through; so two paths have the same one just when they lead to the same place.
-/

namespace SignalAudit

/-- Where a route sets out: from the top, or from the directory it is relative to. -/
def Route.base (r : Route) (cwd : Location) : Location := if r.absolute then [] else cwd

namespace FileSystem

theorem tidy_of_at? {fs : FileSystem} {place : Location} {object : Object} (h : fs.at? place = some object) :
    Path.Tidy true place :=
  Path.tidy_of_isName (isName_of_at? h)

section Invariant

variable (Inv : Cursor → Prop)

/-- What a stop leaves behind is a cursor for which the invariant holds. -/
def StopKeeps : Stop → Prop
  | .arrived c | .atLink c _ _ => Inv c
  | .blocked _ => True

theorem follow_keeps (hpush : ∀ c part, Inv c → Path.IsName part → Inv ⟨part :: c.place, c.route.push part⟩)
    (hup : ∀ c, Inv c → Inv ⟨c.place.tail, c.route.up⟩) (fs : FileSystem) (limits : Limits) {cursor : Cursor}
    (h : Inv cursor) (todo : List Text) : StopKeeps Inv (fs.follow limits cursor todo) := by
  induction todo generalizing cursor with
  | nil => exact h
  | cons part rest ih =>
    unfold follow
    split
    · split
      · exact ih h
      · split
        · exact ih (hup cursor h)
        · dsimp only
          split
          · trivial
          · split
            · trivial
            · split
              · trivial
              · exact h
              · next found => exact ih (hpush cursor part h (isName_of_found found))
    · trivial

/-- What each step of a cursor keeps, and what holds at the top, holds where the cursor arrives. -/
theorem resolveParts_keeps (hpush : ∀ c part, Inv c → Path.IsName part → Inv ⟨part :: c.place, c.route.push part⟩)
    (hup : ∀ c, Inv c → Inv ⟨c.place.tail, c.route.up⟩) (htop : Inv ⟨[], ⟨true, []⟩⟩) {fs : FileSystem}
    {limits : Limits} {n : Nat} {cursor c : Cursor} {todo : List Text} (h : Inv cursor)
    (hr : fs.resolveParts limits n cursor todo = .ok c) : Inv c := by
  induction n generalizing cursor todo with
  | zero =>
    have hw := follow_keeps Inv hpush hup fs limits h todo
    unfold resolveParts at hr
    split at hr
    · next hf =>
      cases hr
      rwa [hf] at hw
    · cases hr
    · cases hr
  | succ n ih =>
    have hw := follow_keeps Inv hpush hup fs limits h todo
    unfold resolveParts at hr
    split at hr
    · next hf =>
      cases hr
      rwa [hf] at hw
    · cases hr
    · next goal rest hf =>
      rw [hf] at hw
      apply ih _ hr
      unfold outset
      split
      · exact htop
      · exact hw

end Invariant

/-- The route of a cursor spells its place, seen from the working directory and cleaned. -/
structure Tracks (cwd : Location) (cursor : Cursor) : Prop where
  parts : ∀ part ∈ cursor.route.inner, part ≠ [] ∧ part ≠ Path.dot ∧ Path.slash ∉ part
  lands : Path.stack true (cursor.route.base cwd) cursor.route.inner.reverse = cursor.place

section Tracks

variable {cwd : Location} {cursor : Cursor}

theorem tidy_base (hcwd : Path.Tidy true cwd) (r : Route) : Path.Tidy true (r.base cwd) := by
  unfold Route.base
  split
  · exact .bottom true
  · exact hcwd

theorem Tracks.start (r : Route) (hr : r.inner = []) : Tracks cwd ⟨r.base cwd, r⟩ :=
  ⟨by simp [hr], by simp [hr, Path.stack]⟩

theorem Tracks.no_slash (h : Tracks cwd cursor) : ∀ part ∈ cursor.route.inner, Path.slash ∉ part :=
  fun part hp => (h.parts part hp).2.2

theorem Tracks.tidy (hcwd : Path.Tidy true cwd) (h : Tracks cwd cursor) : Path.Tidy true cursor.place :=
  h.lands ▸ Path.stack_tidy (tidy_base hcwd _) fun part hp => h.no_slash part (List.mem_reverse.mp hp)

theorem Tracks.push (h : Tracks cwd cursor) {part : Text} (hp : Path.IsName part) :
    Tracks cwd ⟨part :: cursor.place, cursor.route.push part⟩ := by
  refine ⟨?_, ?_⟩
  · intro q hq
    rcases List.mem_cons.mp hq with rfl | hq
    · exact ⟨hp.ne_nil, hp.ne_dot, hp.no_slash⟩
    · exact h.parts q hq
  · have hl : Path.stack true ((cursor.route.push part).base cwd) cursor.route.inner.reverse = cursor.place := h.lands
    simp only [Route.push, List.reverse_cons] at hl ⊢
    rw [Path.stack_append, hl, Path.stack_name _ _ hp]

theorem Tracks.pushUp (hcwd : Path.Tidy true cwd) (h : Tracks cwd cursor) :
    Tracks cwd ⟨cursor.place.tail, cursor.route.push Path.dotDot⟩ := by
  refine ⟨?_, ?_⟩
  · intro q hq
    rcases List.mem_cons.mp hq with rfl | hq
    · exact ⟨Path.dotDot_ne_nil, Path.dotDot_ne_dot, Path.dotDot_no_slash⟩
    · exact h.parts q hq
  · have hl : Path.stack true ((cursor.route.push Path.dotDot).base cwd) cursor.route.inner.reverse =
      cursor.place := h.lands
    simp only [Route.push, List.reverse_cons] at hl ⊢
    rw [Path.stack_append, hl, Path.stack_up (h.tidy hcwd)]

theorem Tracks.up (hcwd : Path.Tidy true cwd) (h : Tracks cwd cursor) :
    Tracks cwd ⟨cursor.place.tail, cursor.route.up⟩ := by
  unfold Route.up
  split
  · next last next outer hi =>
    split
    · exact h.pushUp hcwd
    · next hlast =>
      -- The last part is a name, so it is what the place has in front.
      obtain ⟨hn, hd, hs⟩ := h.parts last (by simp [hi])
      have hl := h.lands
      rw [hi, List.reverse_cons, Path.stack_append, Path.stack_name _ _ ⟨hn, hd, hlast, hs⟩] at hl
      refine ⟨fun q hq => h.parts q (by rw [hi]; exact List.mem_cons_of_mem _ hq), ?_⟩
      rw [← hl]
      rfl
  · exact h.pushUp hcwd

theorem Tracks.isAbsolute_spelling (h : Tracks cwd cursor) :
    Path.isAbsolute cursor.route.spelling = cursor.route.absolute :=
  Path.isAbsolute_spell_of_parts (fun part hp => (h.parts part hp).1) h.no_slash

/-- Reading the spelling of a route piles up the parts of the route. -/
theorem Tracks.stack_parts (h : Tracks cwd cursor) (base : Location) :
    Path.stack true base (Path.parts cursor.route.spelling) = Path.stack true base cursor.route.inner.reverse := by
  unfold Route.spelling
  by_cases hn : cursor.route.inner = []
  · rw [hn]
    cases cursor.route.absolute <;> simp [Path.spell, Path.parts, List.splitOn_cons_eq_if_modifyHead, Path.stack]
  · rw [Path.parts_spell hn h.no_slash, Path.stack_append]
    cases cursor.route.absolute <;> simp [Path.stack]

theorem Tracks.clean_spelling (h : Tracks cwd cursor) (ha : cursor.route.absolute = true) :
    Path.clean cursor.route.spelling = spelling cursor.place := by
  have habs : Path.isAbsolute cursor.route.spelling = true := h.isAbsolute_spelling.trans ha
  have hi : Path.inner cursor.route.spelling = cursor.place := by
    have hl := h.lands
    rw [Route.base, if_pos ha] at hl
    unfold Path.inner
    rw [habs, h.stack_parts, hl]
  rw [Path.clean_eq_spell (.inr habs), habs, hi]
  rfl

end Tracks

theorem clean_spelling {place : Location} (h : Path.Tidy true place) :
    Path.clean (spelling place) = spelling place := by
  have ha : Path.isAbsolute (spelling place) = true := Path.isAbsolute_spell h
  rw [Path.clean_eq_spell (.inr ha), ha]
  unfold spelling
  rw [Path.inner_spell h]

/-- A path as it is seen from the place of the working directory, whatever that is called. -/
def absolute (fs : FileSystem) (path : Text) : Text := Path.seenFrom (spelling fs.cwd) path

theorem absolute_spelling {fs : FileSystem} {place : Location} (h : Path.Tidy true place) :
    fs.absolute (spelling place) = spelling place := by
  have ha : Path.isAbsolute (spelling place) = true := Path.isAbsolute_spell h
  rw [absolute, Path.seenFrom_of_isAbsolute ha, clean_spelling h]

/-- A relative path is made absolute by piling up its parts on the working directory. -/
theorem absolute_of_relative {fs : FileSystem} (hcwd : Path.Tidy true fs.cwd) {path : Text}
    (ha : Path.isAbsolute path = false) : fs.absolute path = spelling (Path.stack true fs.cwd (Path.parts path)) := by
  have hc : Path.isAbsolute (spelling fs.cwd) = true := Path.isAbsolute_spell hcwd
  rw [absolute, Path.seenFrom_of_relative hc ha]
  unfold spelling
  rw [Path.inner_spell hcwd]

/-- The spelling of a route, cleaned and made absolute, is that of the place. -/
theorem Tracks.absolute_clean {fs : FileSystem} (hcwd : Path.Tidy true fs.cwd) {cursor : Cursor}
    (h : Tracks fs.cwd cursor) : fs.absolute (Path.clean cursor.route.spelling) = spelling cursor.place := by
  cases ha : cursor.route.absolute with
  | true => rw [h.clean_spelling ha, absolute_spelling (h.tidy hcwd)]
  | false =>
    have hrel : Path.isAbsolute cursor.route.spelling = false := h.isAbsolute_spelling.trans ha
    have hl := h.lands
    rw [Route.base, ha, if_neg Bool.false_ne_true] at hl
    rw [absolute_of_relative hcwd (by rw [Path.isAbsolute_clean, hrel]), Path.stack_parts_clean hcwd hrel,
      h.stack_parts, hl]

theorem absolute_up (r : Route) : r.up.absolute = r.absolute := by
  unfold Route.up
  split
  · split <;> rfl
  · rfl

/-- From the top, the spelling without links is the spelling of the place that a path leads to. -/
theorem canonical_absolute {fs : FileSystem} {path spelled : Text} (ha : Path.isAbsolute path = true)
    (h : fs.canonical path = .ok spelled) :
    ∃ k place, fs.Leads k [] (Path.parts path) place ∧ spelled = spelling place := by
  unfold canonical at h
  split at h
  · next cursor hr =>
    cases h
    have ho : outset path ⟨fs.cwd, ⟨false, []⟩⟩ = ⟨[], ⟨true, []⟩⟩ := by simp [outset, ha]
    unfold resolve at hr
    rw [ho] at hr
    obtain ⟨k, _, ht⟩ := resolveParts_sound hr
    -- No step makes an absolute route relative.
    have hkeep := resolveParts_keeps (fun c => Tracks [] c ∧ c.route.absolute = true)
      (fun c part hc hp => ⟨hc.1.push hp, hc.2⟩)
      (fun c hc => ⟨hc.1.up (.bottom true), (absolute_up c.route).trans hc.2⟩)
      ⟨.start ⟨true, []⟩ rfl, rfl⟩ ⟨.start ⟨true, []⟩ rfl, rfl⟩ hr
    exact ⟨k, cursor.place, ht, hkeep.1.clean_spelling hkeep.2⟩
  · cases h

theorem Leads.isDirectory_start {fs : FileSystem} {k : Nat} {place target : Location} {todo : List Text}
    (h : fs.Leads k place todo target) (hne : todo ≠ []) : fs.isDirectory place = true := by
  cases h with
  | arrive => exact absurd rfl hne
  | stay here | ascend here => exact here
  | descend found | jump found => exact (at?_cons found).2.1

/-- The spelling without links, made absolute, is the spelling of the place that a path leads to. -/
theorem absolute_canonical {fs : FileSystem} {path spelled : Text} (h : fs.canonical path = .ok spelled) :
    ∃ k place, fs.Leads k (origin path fs.cwd) (Path.parts path) place ∧ fs.absolute spelled = spelling place := by
  cases ha : Path.isAbsolute path with
  | true =>
    obtain ⟨k, place, hk, rfl⟩ := canonical_absolute ha h
    have ho : origin path fs.cwd = [] := by simp [origin, ha]
    obtain ⟨object, hp, _⟩ := hk.exists_object (isDirectory_iff.mp fs.isDirectory_top) rfl
    exact ⟨k, place, ho ▸ hk, absolute_spelling (tidy_of_at? hp)⟩
  | false =>
    unfold canonical at h
    split at h
    · next cursor hr =>
      cases h
      have ho : outset path ⟨fs.cwd, ⟨false, []⟩⟩ = ⟨fs.cwd, ⟨false, []⟩⟩ := by simp [outset, ha]
      have hplace : origin path fs.cwd = fs.cwd := by simp [origin, ha]
      unfold resolve at hr
      rw [ho] at hr
      obtain ⟨k, _, ht⟩ := resolveParts_sound hr
      have hdir := ht.isDirectory_start (List.splitOn_ne_nil _ _)
      have hcwd : Path.Tidy true fs.cwd := tidy_of_at? (isDirectory_iff.mp hdir)
      have htracks : Tracks fs.cwd cursor := resolveParts_keeps (Tracks fs.cwd)
        (fun c part hc hp => hc.push hp) (fun c hc => hc.up hcwd) (.start ⟨true, []⟩ rfl) (.start ⟨false, []⟩ rfl) hr
      exact ⟨k, cursor.place, hplace.symm ▸ ht, htracks.absolute_clean hcwd⟩
    · cases h

/-- A lookup and a search for the spelling without links end at the same place. -/
theorem absolute_canonical_eq {fs : FileSystem} {path spelled : Text} {place : Location}
    (hc : fs.canonical path = .ok spelled) (hl : fs.locate path = .ok place) :
    fs.absolute spelled = spelling place := by
  obtain ⟨m, other, hm, hs⟩ := absolute_canonical hc
  obtain ⟨_, _, _, n, _, hn⟩ := locate_eq_ok_iff.mp hl
  rw [hs, (hm.unique hn).2]

/-- A name of the working directory without links is a spelling of its place. -/
theorem inner_workingDirectory {fs : FileSystem} (free : fs.LinkFree fs.workingDirectory)
    (hcwd : Path.Tidy true fs.cwd) : Path.inner fs.workingDirectory = fs.cwd := by
  unfold workingDirectory at free ⊢
  split at free
  · next hpwd =>
    rw [if_pos hpwd]
    have hlocate : fs.locate fs.pwd = .ok fs.cwd := by
      have hfound := hpwd.2
      cases hl : fs.locate fs.pwd <;> simp_all [Except.toOption]
    obtain ⟨_, _, _, k, _, hk⟩ := locate_eq_ok_iff.mp hlocate
    rw [show origin fs.pwd fs.cwd = [] from if_pos hpwd.1] at hk
    obtain rfl := free.free k fs.cwd hk
    exact hk.inner_eq hpwd.1
  · next hpwd =>
    rw [if_neg hpwd]
    exact Path.inner_spell hcwd

/-- A spelling without links is made absolute as it is from the place of the working directory, if the path was absolute
or the working directory has a name without links. -/
theorem fromHere_canonical {fs : FileSystem} {path spelled : Text} (h : fs.canonical path = .ok spelled)
    (sure : Path.isAbsolute path = true ∨ fs.LinkFree fs.workingDirectory) :
    fs.fromHere spelled = fs.absolute spelled := by
  unfold fromHere
  cases ha : Path.isAbsolute spelled with
  | true => rw [absolute, Path.seenFrom_of_isAbsolute ha, Path.seenFrom_of_isAbsolute ha]
  | false =>
    have hrel : Path.isAbsolute path = false := by
      rw [← Bool.not_eq_true]
      intro habs
      obtain ⟨_, place, _, rfl⟩ := canonical_absolute habs h
      simp [spelling, Path.spell, Path.isAbsolute] at ha
    have free := sure.resolve_left (by simp [hrel])
    obtain ⟨k, place, hk, _⟩ := absolute_canonical h
    rw [show origin path fs.cwd = fs.cwd from if_neg (by simp [hrel])] at hk
    have hdir := hk.isDirectory_start (List.splitOn_ne_nil _ _)
    have hcwd : Path.Tidy true fs.cwd := tidy_of_at? (isDirectory_iff.mp hdir)
    rw [absolute_of_relative hcwd ha, Path.seenFrom_of_relative free.absolute ha, inner_workingDirectory free hcwd]
    rfl

/-- Where a path leads somewhere and not through too many links, the spelling without links fails only for its
length. -/
theorem Leads.canonical_eq_error {fs : FileSystem} {path : Text} {place : Location} {cause : AccessError} {k : Nat}
    (h : fs.Leads k (origin path fs.cwd) (Path.parts path) place) (few : k ≤ routeLimits.links)
    (hc : fs.canonical path = .error cause) :
    ∃ spelled, longestPath < spelled.length ∧ cause = .operation .lstat spelled .tooLong := by
  rw [← outset_place path ⟨fs.cwd, ⟨false, []⟩⟩] at h
  unfold canonical resolve at hc
  rcases h.resolveParts_cases routeLimits routeLimits.links with ⟨spelled, ha, hr⟩ | ⟨_, route, hr⟩ | ⟨hmany, _⟩
  · rw [hr] at hc
    refine ⟨spelled, ?_, (Except.error.inj hc).symm⟩
    simpa [Limits.admits, routeLimits] using ha
  · rw [hr] at hc
    cases hc
  · omega

theorem few_of_lookupLinks {k : Nat} (h : k ≤ lookupLinks) : k ≤ routeLimits.links := Nat.le_trans h (by decide)

/-- Where a lookup arrives, the spelling without links fails only for its length. -/
theorem canonical_eq_error {fs : FileSystem} {path : Text} {place : Location} {cause : AccessError}
    (hl : fs.locate path = .ok place) (hc : fs.canonical path = .error cause) :
    ∃ spelled, longestPath < spelled.length ∧ cause = .operation .lstat spelled .tooLong := by
  obtain ⟨_, _, _, k, hk, hleads⟩ := locate_eq_ok_iff.mp hl
  exact hleads.canonical_eq_error (few_of_lookupLinks hk) hc

theorem canonical_eq_spelling {fs : FileSystem} {path spelled : Text} {place : Location}
    (ha : Path.isAbsolute path = true) (hc : fs.canonical path = .ok spelled) (hl : fs.locate path = .ok place) :
    spelled = spelling place := by
  obtain ⟨m, end', hm, rfl⟩ := canonical_absolute ha hc
  obtain ⟨_, _, _, n, _, hn⟩ := locate_eq_ok_iff.mp hl
  rw [show origin path fs.cwd = [] by simp [origin, ha]] at hn
  rw [(hm.unique hn).2]

theorem spelling_injective {fs : FileSystem} {place other : Location} {object object' : Object}
    (hp : fs.at? place = some object) (ho : fs.at? other = some object') (h : spelling place = spelling other) :
    place = other :=
  Path.spell_injective (tidy_of_at? hp) (tidy_of_at? ho) h

section Places

variable {fs : FileSystem} {place : Location}

theorem parts_spelling (h : Path.Tidy true place) :
    Path.parts (spelling place) = [] :: (if place = [] then [[]] else place.reverse) := by
  by_cases hn : place = []
  · subst hn
    rfl
  · unfold spelling
    rw [Path.parts_spell hn h.no_slash, if_neg hn]
    rfl

/-- Names are spelled one below the other. -/
theorem join_spelling_names {name : Text} (h : Path.Tidy true place) (hn : Path.IsName name) :
    Path.join (spelling place) name = spelling (name :: place) := by
  unfold spelling
  rw [Path.join_eq_spell _ hn, Path.isAbsolute_spell h, Path.inner_spell h]

/-- What is in a directory is spelled below the directory. -/
theorem join_spelling {name : Text} {object : Object} (h : fs.at? (name :: place) = some object) :
    Path.join (spelling place) name = spelling (name :: place) :=
  join_spelling_names (tidy_of_at? (isDirectory_iff.mp (at?_cons h).2.1)) (isName_of_found h)

/-- A spelling leads where its names do. -/
theorem leads_spelling {k : Nat} {target : Location} (htidy : Path.Tidy true place)
    (h : fs.Leads k [] place.reverse target) : fs.Leads k [] (Path.parts (spelling place)) target := by
  rw [parts_spelling htidy]
  apply Leads.stay fs.isDirectory_top (.inl rfl)
  split
  · next hn =>
    subst hn
    exact .stay fs.isDirectory_top (.inl rfl) h
  · exact h

/-- A directory's own spelling leads to it without a link. -/
theorem isPlain_spelling (h : fs.isDirectory place = true) : fs.IsPlain (spelling place) place := by
  have hplace := isDirectory_iff.mp h
  have htidy := tidy_of_at? hplace
  exact ⟨Path.isAbsolute_spell htidy, leads_spelling htidy (leads_reverse hplace rfl), h⟩

/-- The names of a place are followed to it, if the spellings on the way are within the limit. -/
theorem follow_names {limits : Limits} {object : Object} (h : fs.at? place = some object)
    (plain : object.isLink = false)
    (short : ∀ outer, outer <:+ place → limits.admits (spelling outer) = true) (rest : List Text) :
    fs.follow limits ⟨[], ⟨true, []⟩⟩ (place.reverse ++ rest) = fs.follow limits ⟨place, ⟨true, place⟩⟩ rest := by
  induction place generalizing object rest with
  | nil => rfl
  | cons name dir ih =>
    have hdir := isDirectory_iff.mp (at?_cons h).2.1
    have hadmits : limits.admits (Route.push ⟨true, dir⟩ name).spelling = true := short _ List.suffix_rfl
    rw [List.reverse_cons, List.append_assoc, List.singleton_append,
      ih hdir rfl (fun outer ho => short outer (ho.trans (List.suffix_cons ..))), follow_found h, if_pos hadmits]
    cases object with
    | link => cases plain
    | directory | file | pipe | device => rfl

theorem follow_blank (limits : Limits) (rest : List Text) :
    fs.follow limits ⟨[], ⟨true, []⟩⟩ ([] :: rest) = fs.follow limits ⟨[], ⟨true, []⟩⟩ rest := by
  simp [follow, isDirectory_top]

theorem admits_of_suffix (hlen : (spelling place).length ≤ longestPath) :
    ∀ outer, outer <:+ place → routeLimits.admits (spelling outer) = true := by
  intro outer ho
  have hle : (spelling outer).length ≤ longestPath := Nat.le_trans (Path.length_spell_le ho) hlen
  simpa [Limits.admits, routeLimits] using hle

/-- The parts of a spelling are followed as its names are. -/
theorem follow_spelling (limits : Limits) (htidy : Path.Tidy true place) (rest : List Text) :
    fs.follow limits ⟨[], ⟨true, []⟩⟩ (Path.parts (spelling place) ++ rest) =
      fs.follow limits ⟨[], ⟨true, []⟩⟩ (place.reverse ++ rest) := by
  rw [parts_spelling htidy, List.cons_append, follow_blank]
  split
  · next hn =>
    subst hn
    exact follow_blank limits rest
  · rfl

/-- Names that are followed to a directory through links to the spellings of directories, with no spelling on the way
that has too many bytes. -/
inductive Straight (fs : FileSystem) : Nat → List Text → Location → Prop where
  | here {place : Location} (directory : fs.isDirectory place = true)
      (short : (spelling place).length ≤ longestPath) : Straight fs 0 place place
  | link {links : Nat} {names : List Text} {place target : Location} {name : Text}
      (before : Straight fs links names place) (found : fs.at? (name :: place) = some (.link (spelling target)))
      (admitted : (spelling (name :: place)).length ≤ longestPath) (directory : fs.isDirectory target = true)
      (short : (spelling target).length ≤ longestPath) : Straight fs (links + 1) (name :: names) target

section Straight

variable {k : Nat} {names : List Text}

theorem Straight.isDirectory (h : fs.Straight k names place) : fs.isDirectory place = true := by
  cases h <;> assumption

theorem Straight.isName (h : fs.Straight k names place) : ∀ name ∈ names, Path.IsName name := by
  induction h with
  | here directory => exact isName_of_at? (isDirectory_iff.mp directory)
  | link _ found _ _ _ ih => exact List.forall_mem_cons.mpr ⟨isName_of_found found, ih⟩

theorem Straight.tidy (h : fs.Straight k names place) : Path.Tidy true names := Path.tidy_of_isName h.isName

/-- A link to the spelling of a directory leads to the directory. -/
theorem leads_link {target : Location} {name : Text} (found : fs.at? (name :: place) = some (.link (spelling target)))
    (directory : fs.isDirectory target = true) : fs.Leads 1 place [name] target := by
  have plain := isPlain_spelling directory
  have horigin : origin (spelling target) place = [] := if_pos plain.absolute
  refine .jump found ?_
  rw [horigin, List.append_nil]
  exact plain.leads

theorem Straight.leads (h : fs.Straight k names place) : fs.Leads k [] names.reverse place := by
  induction h with
  | here directory => exact leads_reverse (isDirectory_iff.mp directory) rfl
  | link _ found _ directory _ ih =>
    rw [List.reverse_cons]
    exact ih.append (leads_link found directory)

/-- Such names are followed as the directory's own would be, but for the links they take. -/
theorem Straight.resolveParts (h : fs.Straight k names place) {spare : Nat} (hspare : k + spare = routeLimits.links)
    (rest : List Text) : fs.resolveParts routeLimits routeLimits.links ⟨[], ⟨true, []⟩⟩ (names.reverse ++ rest) =
      fs.resolveParts routeLimits spare ⟨place, ⟨true, place⟩⟩ rest := by
  induction h generalizing spare rest with
  | here directory short =>
    rw [← hspare, Nat.zero_add]
    unfold FileSystem.resolveParts
    rw [follow_names (isDirectory_iff.mp directory) rfl (admits_of_suffix short)]
  | @link _ names place target name _ found admitted directory short ih =>
    have hadmits : routeLimits.admits (Route.push ⟨true, place⟩ name).spelling = true :=
      admits_of_suffix admitted _ List.suffix_rfl
    have hfollow : fs.follow routeLimits ⟨place, ⟨true, place⟩⟩ (name :: rest) =
        .atLink ⟨place, ⟨true, place⟩⟩ (spelling target) rest := by
      rw [follow_found found, if_pos hadmits]
    have htarget := isDirectory_iff.mp directory
    have houtset : outset (spelling target) ⟨place, ⟨true, place⟩⟩ = ⟨[], ⟨true, []⟩⟩ :=
      if_pos (Path.isAbsolute_spell (tidy_of_at? htarget))
    rw [List.reverse_cons, List.append_assoc, List.singleton_append, @ih (spare + 1) (by omega),
      FileSystem.resolveParts, hfollow]
    dsimp only
    rw [houtset, FileSystem.resolveParts, follow_spelling _ (tidy_of_at? htarget),
      follow_names htarget rfl (admits_of_suffix short), ← FileSystem.resolveParts]

theorem Straight.canonical (h : fs.Straight k names place) (few : k ≤ routeLimits.links) :
    fs.canonical (spelling names) = .ok (spelling place) := by
  have houtset : outset (spelling names) ⟨fs.cwd, ⟨false, []⟩⟩ = ⟨[], ⟨true, []⟩⟩ :=
    if_pos (Path.isAbsolute_spell h.tidy)
  have hfollow := fs.follow_spelling routeLimits h.tidy []
  have hparts := h.resolveParts (Nat.add_sub_cancel' few) []
  rw [List.append_nil, List.append_nil] at hfollow
  rw [List.append_nil] at hparts
  have hresolve : fs.resolve routeLimits (spelling names) = .ok ⟨place, ⟨true, place⟩⟩ := by
    unfold resolve
    rw [houtset, FileSystem.resolveParts, hfollow, ← FileSystem.resolveParts, hparts, FileSystem.resolveParts, follow]
  unfold FileSystem.canonical
  rw [hresolve]
  exact congrArg Except.ok (clean_spelling (tidy_of_at? (isDirectory_iff.mp h.isDirectory)))

end Straight

/-- A directory's own spelling has no links to replace. -/
theorem canonical_spelling (h : fs.isDirectory place = true) (hlen : (spelling place).length ≤ longestPath) :
    fs.canonical (spelling place) = .ok (spelling place) :=
  (Straight.here h hlen).canonical (Nat.zero_le _)

/-- The first directory down a way whose own spelling has too many bytes is not spelled. -/
theorem canonical_of_long {name : Text} (h : fs.isDirectory (name :: place) = true)
    (short : (spelling place).length ≤ longestPath) (long : longestPath < (spelling (name :: place)).length) :
    fs.canonical (spelling (name :: place)) = .error (.operation .lstat (spelling (name :: place)) .tooLong) := by
  have hfound := isDirectory_iff.mp h
  have hplace := isDirectory_iff.mp (at?_cons hfound).2.1
  have htidy := tidy_of_at? hfound
  have ho : outset (spelling (name :: place)) ⟨fs.cwd, ⟨false, []⟩⟩ = ⟨[], ⟨true, []⟩⟩ :=
    if_pos (Path.isAbsolute_spell htidy)
  have hlong : routeLimits.admits (Route.push ⟨true, place⟩ name).spelling = false := by
    change routeLimits.admits (spelling (name :: place)) = false
    simpa [Limits.admits, routeLimits] using long
  have hfollow : fs.follow routeLimits ⟨[], ⟨true, []⟩⟩ (Path.parts (spelling (name :: place))) =
      .blocked (.tooLong (spelling (name :: place))) := by
    rw [parts_spelling htidy, if_neg (List.cons_ne_nil _ _), follow_blank, List.reverse_cons,
      follow_names hplace rfl (admits_of_suffix short), follow_found hfound, hlong]
    rfl
  unfold canonical resolve resolveParts
  rw [ho, hfollow]
  rfl

end Places

end FileSystem

end SignalAudit
