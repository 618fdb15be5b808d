import SignalAudit.FileSystem.Access
import SignalAudit.Proofs.Spelling

/-!
Where a path leads. `Leads` follows parts from a place through any number of links and counts them; a lookup arrives
there just when they are not too many. A path below a directory leads where its last name leads from the directory's
place, however that directory was reached.
-/

namespace SignalAudit

/-- What a lookup does not end at. -/
def Object.isLink : Object → Bool
  | link _ => true
  | directory | file _ | pipe _ | device _ => false

namespace FileSystem

theorem at?_cons {fs : FileSystem} {name : Text} {dir : Location} {object : Object}
    (h : fs.at? (name :: dir) = some object) :
    isLegalName name = true ∧ fs.isDirectory dir = true ∧ fs.objects.lookup (name :: dir) = some object := by
  unfold at? at h
  split at h
  · next hc =>
    simp only [Bool.and_eq_true] at hc
    exact ⟨hc.1, hc.2, h⟩
  · cases h

/-- What is listed for a location, once and under a legal name in a directory, is there. -/
theorem at?_of_mem {fs : FileSystem} (once : (fs.objects.map Prod.fst).Nodup) {name : Text} {dir : Location}
    {object : Object} (listed : (name :: dir, object) ∈ fs.objects) (legal : isLegalName name = true)
    (directory : fs.isDirectory dir = true) : fs.at? (name :: dir) = some object := by
  have hlookup : fs.objects.lookup (name :: dir) = some object := by
    obtain ⟨before, after, hobjects⟩ := List.append_of_mem listed
    rw [hobjects, List.map_append, List.nodup_append] at once
    refine List.lookup_eq_some_iff.mpr ⟨before, after, hobjects, ?_⟩
    intro o ho
    have hne := once.2.2 o.1 (List.mem_map_of_mem ho) (name :: dir) (by simp)
    simpa using hne.symm
  unfold isDirectory at directory
  rw [at?, legal, directory]
  exact hlookup

theorem isDirectory_iff {fs : FileSystem} {place : Location} :
    fs.isDirectory place = true ↔ fs.at? place = some .directory := by
  unfold isDirectory
  cases hp : fs.at? place with
  | none => simp
  | some object => cases object <;> simp [Object.isDirectory]

theorem isDirectory_top (fs : FileSystem) : fs.isDirectory [] = true := by
  rw [isDirectory_iff]
  rfl

/-- A place that holds something is reached by names. -/
theorem isName_of_at? {fs : FileSystem} {place : Location} {object : Object} (h : fs.at? place = some object) :
    ∀ name ∈ place, Path.IsName name := by
  induction place generalizing object with
  | nil => simp
  | cons name dir ih =>
    obtain ⟨hl, hd, _⟩ := at?_cons h
    intro part hp
    rcases List.mem_cons.mp hp with rfl | hp
    · exact .of_legal hl
    · exact ih (isDirectory_iff.mp hd) part hp

/-- Where a link's target is to be followed from. -/
def origin (goal : Text) (place : Location) : Location := if Path.isAbsolute goal then [] else place

/-- Following parts from a place ends at another place after so many links. -/
inductive Leads (fs : FileSystem) : Nat → Location → List Text → Location → Prop where
  | arrive (place : Location) : Leads fs 0 place [] place
  | stay {links : Nat} {place target : Location} {part : Text} {rest : List Text}
      (here : fs.isDirectory place = true) (same : part = [] ∨ part = Path.dot)
      (onward : Leads fs links place rest target) : Leads fs links place (part :: rest) target
  | ascend {links : Nat} {place target : Location} {rest : List Text} (here : fs.isDirectory place = true)
      (onward : Leads fs links place.tail rest target) : Leads fs links place (Path.dotDot :: rest) target
  | descend {links : Nat} {place target : Location} {part : Text} {rest : List Text} {object : Object}
      (found : fs.at? (part :: place) = some object) (plain : object.isLink = false)
      (onward : Leads fs links (part :: place) rest target) : Leads fs links place (part :: rest) target
  | jump {links : Nat} {place target : Location} {part goal : Text} {rest : List Text}
      (found : fs.at? (part :: place) = some (.link goal))
      (onward : Leads fs links (origin goal place) (Path.parts goal ++ rest) target) :
      Leads fs (links + 1) place (part :: rest) target

theorem isName_of_found {fs : FileSystem} {place : Location} {part : Text} {object : Object}
    (h : fs.at? (part :: place) = some object) : Path.IsName part :=
  isName_of_at? h part (by simp)

/-- Parts lead to one place, by one number of links. -/
theorem Leads.unique {fs : FileSystem} {m n : Nat} {place s t : Location} {todo : List Text}
    (hs : fs.Leads m place todo s) (ht : fs.Leads n place todo t) : m = n ∧ s = t := by
  induction hs generalizing n t with
  | arrive => cases ht; exact ⟨rfl, rfl⟩
  | stay here same onward ih =>
    cases ht with
    | stay _ _ onward' => exact ih onward'
    | ascend => exact absurd same Path.dotDot_not_blank
    | descend found => exact absurd same (isName_of_found found).not_blank
    | jump found => exact absurd same (isName_of_found found).not_blank
  | ascend here onward ih =>
    cases ht with
    | stay _ same => exact absurd same Path.dotDot_not_blank
    | ascend _ onward' => exact ih onward'
    | descend found => exact absurd rfl (isName_of_found found).ne_dotDot
    | jump found => exact absurd rfl (isName_of_found found).ne_dotDot
  | descend found plain onward ih =>
    cases ht with
    | stay _ same => exact absurd same (isName_of_found found).not_blank
    | ascend => exact absurd rfl (isName_of_found found).ne_dotDot
    | descend _ _ onward' => exact ih onward'
    | jump found' =>
      rw [found] at found'
      cases found'
      cases plain
  | jump found onward ih =>
    cases ht with
    | stay _ same => exact absurd same (isName_of_found found).not_blank
    | ascend => exact absurd rfl (isName_of_found found).ne_dotDot
    | descend found' plain =>
      rw [found] at found'
      cases found'
      cases plain
    | jump found' onward' =>
      rw [found] at found'
      cases found'
      obtain ⟨hn, he⟩ := ih onward'
      exact ⟨congrArg (· + 1) hn, he⟩

theorem Leads.of_blank {fs : FileSystem} {k : Nat} {place target : Location} {part : Text}
    (h : fs.Leads k place [part] target) (hb : part = [] ∨ part = Path.dot) : k = 0 ∧ place = target := by
  cases h with
  | stay _ _ onward =>
    cases onward
    exact ⟨rfl, rfl⟩
  | ascend => exact absurd hb Path.dotDot_not_blank
  | descend found | jump found => exact absurd hb (isName_of_found found).not_blank

theorem Leads.append {fs : FileSystem} {m n : Nat} {place mid target : Location} {xs ys : List Text}
    (hx : fs.Leads m place xs mid) (hy : fs.Leads n mid ys target) : fs.Leads (m + n) place (xs ++ ys) target := by
  induction hx with
  | arrive => simpa using hy
  | stay here same _ ih => exact .stay here same (ih hy)
  | ascend here _ ih => exact .ascend here (ih hy)
  | descend found plain _ ih => exact .descend found plain (ih hy)
  | @jump links _ _ _ _ _ found _ ih =>
    rw [show links + 1 + n = links + n + 1 by omega]
    exact .jump found (by simpa using ih hy)

/-- A way over parts passes the end of every first stretch of them. -/
theorem Leads.split {fs : FileSystem} {k : Nat} {place target : Location} {xs ys : List Text}
    (h : fs.Leads k place (xs ++ ys) target) :
    ∃ m n mid, k = m + n ∧ fs.Leads m place xs mid ∧ fs.Leads n mid ys target := by
  generalize hz : xs ++ ys = zs at h
  induction h generalizing xs with
  | arrive place =>
    obtain ⟨rfl, rfl⟩ := List.append_eq_nil_iff.mp hz
    exact ⟨0, 0, place, rfl, .arrive place, .arrive place⟩
  | @stay links place target part rest here same onward ih =>
    rcases List.append_eq_cons_iff.mp hz with ⟨rfl, rfl⟩ | ⟨xs, rfl, rfl⟩
    · exact ⟨0, links, place, by omega, .arrive place, .stay here same onward⟩
    · obtain ⟨m, n, mid, hk, hm, hn⟩ := ih rfl
      exact ⟨m, n, mid, hk, .stay here same hm, hn⟩
  | @ascend links place target rest here onward ih =>
    rcases List.append_eq_cons_iff.mp hz with ⟨rfl, rfl⟩ | ⟨xs, rfl, rfl⟩
    · exact ⟨0, links, place, by omega, .arrive place, .ascend here onward⟩
    · obtain ⟨m, n, mid, hk, hm, hn⟩ := ih rfl
      exact ⟨m, n, mid, hk, .ascend here hm, hn⟩
  | @descend links place target part rest object found plain onward ih =>
    rcases List.append_eq_cons_iff.mp hz with ⟨rfl, rfl⟩ | ⟨xs, rfl, rfl⟩
    · exact ⟨0, links, place, by omega, .arrive place, .descend found plain onward⟩
    · obtain ⟨m, n, mid, hk, hm, hn⟩ := ih rfl
      exact ⟨m, n, mid, hk, .descend found plain hm, hn⟩
  | @jump links place target part goal rest found onward ih =>
    rcases List.append_eq_cons_iff.mp hz with ⟨rfl, rfl⟩ | ⟨xs, rfl, rfl⟩
    · exact ⟨0, links + 1, place, by omega, .arrive place, .jump found onward⟩
    · obtain ⟨m, n, mid, hk, hm, hn⟩ := ih (List.append_assoc ..)
      exact ⟨m + 1, n, mid, by omega, .jump found hm, hn⟩

theorem isDirectory_tail {fs : FileSystem} {place : Location} (h : fs.isDirectory place = true) :
    fs.isDirectory place.tail = true := by
  cases place with
  | nil => exact h
  | cons name dir => exact (at?_cons (isDirectory_iff.mp h)).2.1

theorem outset_place (goal : Text) (cursor : Cursor) : (outset goal cursor).place = origin goal cursor.place := by
  unfold outset origin
  split <;> rfl

theorem not_isLink_of_ne {object : Object} (h : ∀ goal, object ≠ .link goal) : object.isLink = false := by
  cases object <;> simp_all [Object.isLink]

/-- One step of following parts, for a part that names something. -/
theorem follow_found {fs : FileSystem} {limits : Limits} {cursor : Cursor} {part : Text} {rest : List Text}
    {object : Object} (h : fs.at? (part :: cursor.place) = some object) :
    fs.follow limits cursor (part :: rest) =
      if limits.admits (cursor.route.push part).spelling then
        match object with
        | .link goal => .atLink cursor goal rest
        | _ => fs.follow limits ⟨part :: cursor.place, cursor.route.push part⟩ rest
      else .blocked (.tooLong (cursor.route.push part).spelling) := by
  obtain ⟨hl, hd, _⟩ := at?_cons h
  obtain ⟨hn, hdot, hup, _, hz, hlen⟩ := isLegalName_iff.mp hl
  have hlen' : ¬ longestName < part.length := by omega
  cases ha : limits.admits (cursor.route.push part).spelling <;>
    cases object <;> simp [follow, hd, hn, hdot, hup, hz, hlen', h, ha]

/-- A stop is on the way from a place over parts: they lead to it, or on through its link. -/
def OnWay (fs : FileSystem) (place : Location) (todo : List Text) : Stop → Prop
  | .arrived c => fs.Leads 0 place todo c.place
  | .blocked _ => True
  | .atLink c goal rest => ∀ k target, fs.Leads k (origin goal c.place) (Path.parts goal ++ rest) target →
      fs.Leads (k + 1) place todo target

theorem OnWay.step {fs : FileSystem} {place next : Location} {part : Text} {rest : List Text} {stop : Stop}
    (h : fs.OnWay next rest stop)
    (hstep : ∀ k target, fs.Leads k next rest target → fs.Leads k place (part :: rest) target) :
    fs.OnWay place (part :: rest) stop := by
  cases stop with
  | arrived c => exact hstep 0 c.place h
  | blocked => trivial
  | atLink c goal rest => exact fun k target ht => hstep (k + 1) target (h k target ht)

theorem follow_onWay (fs : FileSystem) (limits : Limits) (cursor : Cursor) (todo : List Text) :
    fs.OnWay cursor.place todo (fs.follow limits cursor todo) := by
  induction todo generalizing cursor with
  | nil => exact .arrive _
  | cons part rest ih =>
    unfold follow
    split
    · next here =>
      split
      · next same => exact (ih cursor).step fun _ _ => .stay here same
      · split
        · next up =>
          subst up
          exact (ih ⟨cursor.place.tail, cursor.route.up⟩).step fun _ _ => .ascend here
        · dsimp only
          split
          · trivial
          · split
            · trivial
            · split
              · trivial
              · next found => exact fun _ _ => .jump found
              · next object hne found =>
                exact (ih ⟨part :: cursor.place, cursor.route.push part⟩).step fun _ _ =>
                  .descend found (not_isLink_of_ne hne)
    · trivial

/-- Where parts lead, following them arrives or stops at the first link, unless a spelling on the way is too long. -/
theorem Leads.follow {fs : FileSystem} (limits : Limits) {k : Nat} {place target : Location} {todo : List Text}
    (h : fs.Leads k place todo target) (cursor : Cursor) (hc : cursor.place = place) :
    (∃ spelled, limits.admits spelled = false ∧ fs.follow limits cursor todo = .blocked (.tooLong spelled)) ∨
      (k = 0 ∧ ∃ c, fs.follow limits cursor todo = .arrived c ∧ c.place = target) ∨
      ∃ n c goal rest, k = n + 1 ∧ fs.follow limits cursor todo = .atLink c goal rest ∧
        fs.Leads n (origin goal c.place) (Path.parts goal ++ rest) target := by
  induction h generalizing cursor with
  | arrive => exact .inr (.inl ⟨rfl, cursor, rfl, hc⟩)
  | stay here same _ ih =>
    subst hc
    simpa only [FileSystem.follow, here, ↓reduceIte, if_pos same] using ih cursor rfl
  | ascend here _ ih =>
    subst hc
    simpa only [FileSystem.follow, here, ↓reduceIte, Path.dotDot_ne_nil, Path.dotDot_ne_dot, or_self]
      using ih ⟨cursor.place.tail, cursor.route.up⟩ rfl
  | @descend _ _ _ part _ object found plain _ ih =>
    subst hc
    rw [follow_found found]
    split
    · cases object with
      | link => cases plain
      | directory | file | pipe | device =>
        exact ih ⟨part :: cursor.place, cursor.route.push part⟩ rfl
    · next ha => exact .inl ⟨_, Bool.not_eq_true _ ▸ ha, rfl⟩
  | @jump links _ _ _ goal rest found onward _ =>
    subst hc
    rw [follow_found found]
    split
    · exact .inr (.inr ⟨links, cursor, goal, rest, rfl, rfl, onward⟩)
    · next ha => exact .inl ⟨_, Bool.not_eq_true _ ▸ ha, rfl⟩

theorem resolveParts_sound {fs : FileSystem} {limits : Limits} {n : Nat} {cursor c : Cursor} {todo : List Text}
    (h : fs.resolveParts limits n cursor todo = .ok c) : ∃ k ≤ n, fs.Leads k cursor.place todo c.place := by
  induction n generalizing cursor todo with
  | zero =>
    have hw := fs.follow_onWay limits cursor todo
    unfold resolveParts at h
    split at h
    · next hf =>
      cases h
      rw [hf] at hw
      exact ⟨0, Nat.le_refl 0, hw⟩
    · cases h
    · cases h
  | succ n ih =>
    have hw := fs.follow_onWay limits cursor todo
    unfold resolveParts at h
    split at h
    · next hf =>
      cases h
      rw [hf] at hw
      exact ⟨0, Nat.zero_le _, hw⟩
    · cases h
    · next hf =>
      obtain ⟨k, hk, ht⟩ := ih h
      rw [hf] at hw
      rw [outset_place] at ht
      exact ⟨k + 1, by omega, hw k _ ht⟩

/-- Parts that lead somewhere are followed to their end, unless there are too many links or a spelling is too long. -/
theorem Leads.resolveParts_cases {fs : FileSystem} (limits : Limits) {k : Nat} (n : Nat) {cursor : Cursor}
    {todo : List Text} {target : Location} (h : fs.Leads k cursor.place todo target) :
    (∃ spelled, limits.admits spelled = false ∧
        fs.resolveParts limits n cursor todo = .error (.tooLong spelled)) ∨
      (k ≤ n ∧ ∃ route, fs.resolveParts limits n cursor todo = .ok ⟨target, route⟩) ∨
      (n < k ∧ fs.resolveParts limits n cursor todo = .error .tooManyLinks) := by
  induction n generalizing k cursor todo with
  | zero =>
    unfold FileSystem.resolveParts
    rcases h.follow limits cursor rfl with ⟨spelled, ha, hf⟩ | ⟨rfl, c, hf, rfl⟩ | ⟨m, c, goal, rest, rfl, hf, _⟩
    · exact .inl ⟨spelled, ha, by simp [hf]⟩
    · exact .inr (.inl ⟨Nat.le_refl 0, c.route, by simp [hf]⟩)
    · exact .inr (.inr ⟨by omega, by simp [hf]⟩)
  | succ n ih =>
    unfold FileSystem.resolveParts
    rcases h.follow limits cursor rfl with ⟨spelled, ha, hf⟩ | ⟨rfl, c, hf, rfl⟩ | ⟨m, c, goal, rest, rfl, hf, ht⟩
    · exact .inl ⟨spelled, ha, by simp [hf]⟩
    · exact .inr (.inl ⟨Nat.zero_le _, c.route, by simp [hf]⟩)
    · rw [← outset_place] at ht
      simp only [hf, Nat.add_le_add_iff_right, Nat.add_lt_add_iff_right]
      exact ih ht

/-- Without a limit on spellings only the number of links counts. -/
theorem Leads.resolveParts {fs : FileSystem} (limits : Limits) (hs : limits.spelling = none) {k n : Nat}
    {cursor : Cursor} {todo : List Text} {target : Location} (h : fs.Leads k cursor.place todo target) :
    (k ≤ n → ∃ route, fs.resolveParts limits n cursor todo = .ok ⟨target, route⟩) ∧
      (n < k → fs.resolveParts limits n cursor todo = .error .tooManyLinks) := by
  rcases h.resolveParts_cases limits n with ⟨spelled, ha, _⟩ | ⟨hk, hr⟩ | ⟨hk, hr⟩
  · simp [Limits.admits, hs] at ha
  · exact ⟨fun _ => hr, fun hlt => by omega⟩
  · exact ⟨fun hle => by omega, fun _ => hr⟩

theorem locate_eq_ok_iff {fs : FileSystem} {path : Text} {place : Location} :
    fs.locate path = .ok place ↔ 0 ∉ path ∧ path ≠ [] ∧ path.length ≤ longestPath ∧
      ∃ k ≤ lookupLinks, fs.Leads k (origin path fs.cwd) (Path.parts path) place := by
  have hplace : (outset path ⟨fs.cwd, ⟨false, []⟩⟩).place = origin path fs.cwd := outset_place path _
  unfold locate
  by_cases hz : (0 : UInt8) ∈ path
  · simp [hz]
  by_cases hn : path = []
  · simp [hn]
  by_cases hl : longestPath < path.length
  · simp [hz, hn, hl, Nat.not_le.mpr hl]
  simp only [List.contains_iff_mem, hz, hn, hl, ↓reduceIte, not_false_eq_true, ne_eq, Nat.le_of_not_lt hl, true_and]
  constructor
  · intro h
    split at h
    · next cursor hr =>
      cases h
      obtain ⟨k, hk, ht⟩ := resolveParts_sound hr
      exact ⟨k, hk, hplace ▸ ht⟩
    · cases h
  · rintro ⟨k, hk, ht⟩
    rw [← hplace] at ht
    obtain ⟨route, hr⟩ := (ht.resolveParts lookupLimits rfl).1 hk
    have hr' : fs.resolve lookupLimits path = .ok ⟨place, route⟩ := hr
    rw [hr']

/-- A lookup does not begin on a path that is too long. -/
theorem locate_of_long {fs : FileSystem} {path : Text} (hz : 0 ∉ path) (hn : path ≠ [])
    (hl : longestPath < path.length) : fs.locate path = .error .tooLong := by
  simp [locate, hz, hn, hl]

/-- A lookup gives up on a path that leads somewhere through too many links. -/
theorem Leads.locate_tooManyLinks {fs : FileSystem} {path : Text} {place : Location} {k : Nat}
    (h : fs.Leads k (origin path fs.cwd) (Path.parts path) place) (hk : lookupLinks < k) (hz : 0 ∉ path)
    (hn : path ≠ []) (hl : path.length ≤ longestPath) : fs.locate path = .error .tooManyLinks := by
  rw [← outset_place path ⟨fs.cwd, ⟨false, []⟩⟩] at h
  have hr : fs.resolve lookupLimits path = .error .tooManyLinks := (h.resolveParts lookupLimits rfl).2 hk
  unfold locate
  simp only [List.contains_iff_mem, hz, hn, Nat.not_lt.mpr hl, ↓reduceIte, hr]
  rfl

/-- A path leads to a place also once it is cleaned. -/
def LeadsClean (fs : FileSystem) (k : Nat) (path : Text) (place : Location) : Prop :=
  fs.Leads k (origin path fs.cwd) (Path.inner path).reverse place

theorem origin_join (dir : Text) {name : Text} (h : Path.IsName name) (place : Location) :
    origin (Path.join dir name) place = origin dir place := by
  simp only [origin, Path.isAbsolute_join dir h]

/-- A path below a directory is clean as it stands. -/
theorem leads_join {fs : FileSystem} {k : Nat} {dir name : Text} (h : Path.IsName name) {target : Location} :
    fs.Leads k (origin (Path.join dir name) fs.cwd) (Path.parts (Path.join dir name)) target ↔
      fs.LeadsClean k (Path.join dir name) target := by
  unfold LeadsClean
  rw [origin_join dir h, Path.parts_join dir h, Path.inner_join dir h, List.reverse_cons]
  cases ha : Path.isAbsolute dir with
  | false => simp
  | true =>
    have ho : origin dir fs.cwd = [] := by simp [origin, ha]
    rw [ho]
    constructor
    · intro ht
      cases ht with
      | stay _ _ onward => exact onward
      | descend found => exact absurd rfl (isName_of_found found).ne_nil
      | jump found => exact absurd rfl (isName_of_found found).ne_nil
    · exact fun ht => .stay fs.isDirectory_top (.inl rfl) ht

theorem leadsClean_join {fs : FileSystem} {k : Nat} {dir name : Text} (h : Path.IsName name) {target : Location} :
    fs.LeadsClean k (Path.join dir name) target ↔
      ∃ m n place, k = m + n ∧ fs.LeadsClean m dir place ∧ fs.Leads n place [name] target := by
  unfold LeadsClean
  rw [origin_join dir h, Path.inner_join dir h, List.reverse_cons]
  constructor
  · exact fun ht => ht.split
  · rintro ⟨m, n, place, rfl, hm, hn⟩
    exact hm.append hn

theorem Leads.without_blanks {fs : FileSystem} {k : Nat} {start place : Location} {todo : List Text}
    (h : fs.Leads k start todo place) :
    fs.Leads k start (todo.filter fun part => ¬ (part = [] ∨ part = Path.dot)) place := by
  induction todo generalizing k start with
  | nil => exact h
  | cons part rest ih =>
    rw [← List.singleton_append] at h
    obtain ⟨m, n, mid, rfl, hm, hn⟩ := h.split
    by_cases hb : part = [] ∨ part = Path.dot
    · have hdrop : decide (¬ (part = [] ∨ part = Path.dot)) = false := decide_eq_false fun hk => hk hb
      obtain ⟨rfl, rfl⟩ := hm.of_blank hb
      simpa only [List.filter_cons, hdrop, Bool.false_eq_true, ↓reduceIte, Nat.zero_add] using ih hn
    · have hkeep : decide (¬ (part = [] ∨ part = Path.dot)) = true := decide_eq_true hb
      simpa only [List.filter_cons, hkeep, ↓reduceIte, List.singleton_append] using hm.append (ih hn)

/-- A path that nowhere goes up leads to the same place once it is cleaned. -/
theorem Leads.leadsClean {fs : FileSystem} {k : Nat} {path : Text} {place : Location}
    (h : fs.Leads k (origin path fs.cwd) (Path.parts path) place) (hup : Path.dotDot ∉ Path.parts path) :
    fs.LeadsClean k path place := by
  unfold LeadsClean Path.inner
  rw [Path.stack_of_no_dotDot _ [] hup, List.append_nil, List.reverse_reverse]
  exact h.without_blanks

theorem stack_dotDot {l : List Text} (h : Path.Tidy true l) (rest : List Text) :
    Path.stack true l (Path.dotDot :: rest) = Path.stack true l.tail rest := by
  rw [← List.singleton_append, Path.stack_append, Path.stack_up h]

/-- Without links a place is what cleaning makes of the parts that lead to it. -/
theorem Leads.eq_stack {fs : FileSystem} {k : Nat} {place target : Location} {todo : List Text}
    (h : fs.Leads k place todo target) (hk : k = 0) (hp : Path.Tidy true place) :
    target = Path.stack true place todo := by
  induction h with
  | arrive => rfl
  | stay _ same _ ih =>
    unfold Path.stack
    rw [if_pos same, ih hk hp]
  | ascend _ _ ih => rw [stack_dotDot hp, ih hk hp.tail]
  | @descend _ place _ part rest _ found _ _ ih =>
    have hn := isName_of_found found
    rw [← List.singleton_append, Path.stack_append, Path.stack_name _ _ hn, ih hk (.name hn hp)]
  | jump => cases hk

theorem isDirectory_origin {fs : FileSystem} {place : Location} (h : fs.isDirectory place = true) (goal : Text) :
    fs.isDirectory (origin goal place) = true := by
  unfold origin
  split
  · exact fs.isDirectory_top
  · exact h

/-- There is something where parts lead to, and it is no link. -/
theorem Leads.exists_object {fs : FileSystem} {k : Nat} {place target : Location} {todo : List Text} {object : Object}
    (h : fs.Leads k place todo target) (hp : fs.at? place = some object) (plain : object.isLink = false) :
    ∃ found, fs.at? target = some found ∧ found.isLink = false := by
  induction h generalizing object with
  | arrive => exact ⟨object, hp, plain⟩
  | stay _ _ _ ih => exact ih hp plain
  | ascend here _ ih => exact ih (isDirectory_iff.mp (isDirectory_tail here)) rfl
  | descend found plain' _ ih => exact ih found plain'
  | jump found _ ih => exact ih (isDirectory_iff.mp (isDirectory_origin (at?_cons found).2.1 _)) rfl

/-- A place is led to from the top by its own names. -/
theorem leads_reverse {fs : FileSystem} {place : Location} {object : Object} (h : fs.at? place = some object)
    (plain : object.isLink = false) : fs.Leads 0 [] place.reverse place := by
  induction place generalizing object with
  | nil => exact .arrive []
  | cons name dir ih =>
    rw [List.reverse_cons]
    exact (ih (isDirectory_iff.mp (at?_cons h).2.1) rfl).append (.descend h plain (.arrive _))

/-- An absolute path with no link on the way to the directory it leads to. -/
structure IsPlain (fs : FileSystem) (path : Text) (place : Location) : Prop where
  absolute : Path.isAbsolute path = true
  leads : fs.Leads 0 [] (Path.parts path) place
  directory : fs.isDirectory place = true

/-- An absolute path without links leads to the place of its parts. -/
theorem Leads.inner_eq {fs : FileSystem} {path : Text} {place : Location} (h : fs.Leads 0 [] (Path.parts path) place)
    (ha : Path.isAbsolute path = true) : Path.inner path = place := by
  unfold Path.inner
  rw [ha, ← h.eq_stack rfl (.bottom true)]

theorem IsPlain.leadsClean {fs : FileSystem} {path : Text} {place : Location} (h : fs.IsPlain path place) :
    fs.LeadsClean 0 path place := by
  have hi : Path.inner path = place := h.leads.inner_eq h.absolute
  have ho : origin path fs.cwd = [] := by simp [origin, h.absolute]
  unfold LeadsClean
  rw [hi, ho]
  exact leads_reverse (isDirectory_iff.mp h.directory) rfl

/-- A path that leads to a directory as it stands, and to the same one once it is cleaned. -/
structure Denotes (fs : FileSystem) (path : Text) (place : Location) : Prop where
  leads : ∃ k, fs.Leads k (origin path fs.cwd) (Path.parts path) place
  clean : ∃ k, fs.LeadsClean k path place
  directory : fs.isDirectory place = true

theorem IsPlain.denotes {fs : FileSystem} {path : Text} {place : Location} (h : fs.IsPlain path place) :
    fs.Denotes path place := by
  have ho : origin path fs.cwd = [] := by simp [origin, h.absolute]
  exact ⟨⟨0, ho ▸ h.leads⟩, ⟨0, h.leadsClean⟩, h.directory⟩

/-- An absolute path that leads nowhere through a link. -/
structure LinkFree (fs : FileSystem) (path : Text) : Prop where
  absolute : Path.isAbsolute path = true
  free : ∀ k place, fs.Leads k [] (Path.parts path) place → k = 0

theorem IsPlain.linkFree {fs : FileSystem} {path : Text} {place : Location} (h : fs.IsPlain path place) :
    fs.LinkFree path :=
  ⟨h.absolute, fun _ _ hl => (hl.unique h.leads).1⟩

end FileSystem

end SignalAudit
