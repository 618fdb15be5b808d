import SignalAudit.Proofs.WalkSteps

/-!
What an entry is does not depend on the path by which its directory was reached: a lookup of the entry under that path
ends where the entry leads from the directory's own place. Only the limits of a lookup depend on the path.
-/

namespace SignalAudit

theorem Text.exists_mem_splitOn {sep b : UInt8} {t : Text} (h : b ∈ t) (hb : b ≠ sep) :
    ∃ piece ∈ t.splitOn sep, b ∈ piece := by
  induction t with
  | nil => simp at h
  | cons c rest ih =>
    obtain ⟨first, others, hs⟩ := List.exists_cons_of_ne_nil (List.splitOn_ne_nil sep rest)
    rw [List.splitOn_cons_eq_if_modifyHead]
    by_cases hc : c = sep
    · subst hc
      obtain ⟨piece, hp, hm⟩ := ih (by simpa [hb] using h)
      exact ⟨piece, by simp [hp], hm⟩
    · simp only [beq_iff_eq, hc, ↓reduceIte, hs, List.modifyHead_cons, List.mem_cons]
      rcases List.mem_cons.mp h with rfl | h
      · exact ⟨b :: first, .inl rfl, by simp⟩
      · obtain ⟨piece, hp, hm⟩ := ih h
        rw [hs] at hp
        rcases List.mem_cons.mp hp with rfl | hp
        · exact ⟨c :: piece, .inl rfl, by simp [hm]⟩
        · exact ⟨piece, .inr hp, hm⟩

namespace FileSystem

/-- Parts that lead somewhere can be spoken of. -/
theorem Leads.zero_not_mem {fs : FileSystem} {k : Nat} {place target : Location} {todo : List Text}
    (h : fs.Leads k place todo target) : ∀ part ∈ todo, 0 ∉ part := by
  induction h with
  | arrive => simp
  | stay _ same _ ih =>
    intro part hp
    rcases List.mem_cons.mp hp with rfl | hp
    · rcases same with rfl | rfl <;> decide
    · exact ih part hp
  | ascend _ _ ih =>
    intro part hp
    rcases List.mem_cons.mp hp with rfl | hp
    · decide
    · exact ih part hp
  | descend found _ _ ih =>
    intro part hp
    rcases List.mem_cons.mp hp with rfl | hp
    · exact (isLegalName_iff.mp (at?_cons found).1).2.2.2.2.1
    · exact ih part hp
  | jump found _ ih =>
    intro part hp
    rcases List.mem_cons.mp hp with rfl | hp
    · exact (isLegalName_iff.mp (at?_cons found).1).2.2.2.2.1
    · exact ih part (by simp [hp])

theorem zero_not_mem_of_leads {fs : FileSystem} {k : Nat} {path : Text} {place target : Location}
    (h : fs.Leads k place (Path.parts path) target) : 0 ∉ path := by
  intro hz
  obtain ⟨part, hp, hm⟩ := Text.exists_mem_splitOn hz (show (0 : UInt8) ≠ Path.slash by decide)
  exact h.zero_not_mem part hp hm

theorem directory?_spelling {fs : FileSystem} {place : Location} (h : fs.isDirectory place = true)
    (hlen : (spelling place).length ≤ longestPath) : fs.directory? (spelling place) = some place := by
  have plain := isPlain_spelling h
  have hne : spelling place ≠ [] := by
    intro he
    have habs := plain.absolute
    rw [he] at habs
    cases habs
  have ho : origin (spelling place) fs.cwd = [] := if_pos plain.absolute
  rw [directory?_eq_some_iff, locate_eq_ok_iff, ho]
  exact ⟨⟨zero_not_mem_of_leads plain.leads, hne, hlen, 0, Nat.zero_le _, plain.leads⟩, h⟩

/-- The entry of a directory with a name is, links followed, at a place. -/
def StatsTo (fs : FileSystem) (dir : Location) (name : Text) (target : Location) : Prop :=
  ∃ links, fs.Leads links dir [name] target

theorem StatsTo.unique {fs : FileSystem} {dir s t : Location} {name : Text} (hs : fs.StatsTo dir name s)
    (ht : fs.StatsTo dir name t) : s = t := by
  obtain ⟨m, hm⟩ := hs
  obtain ⟨n, hn⟩ := ht
  exact (hm.unique hn).2

/-- An entry that is no link stands where it is. -/
theorem statsTo_of_plain {fs : FileSystem} {dir : Location} {e : Text × Object} (he : e ∈ fs.entries dir)
    (plain : e.2.isLink = false) : fs.StatsTo dir e.1 (e.1 :: dir) :=
  ⟨0, .descend (mem_entries.mp he) plain (.arrive _)⟩

theorem join_ne_nil (dir : Text) {name : Text} (hn : Path.IsName name) : Path.join dir name ≠ [] := by
  intro h
  have hi := Path.inner_join dir hn
  rw [h] at hi
  cases hi

/-- A lookup of an entry ends where the entry leads from the place of its directory, if its path is not too long and
the links on the way to the directory and its own are not too many. -/
theorem locate_join_iff {fs : FileSystem} {path name : Text} {dir target : Location} {before : Nat}
    (hn : Path.IsName name) (hd : fs.LeadsClean before path dir) :
    fs.locate (Path.join path name) = .ok target ↔ (Path.join path name).length ≤ longestPath ∧
      ∃ own, fs.Leads own dir [name] target ∧ before + own ≤ lookupLinks := by
  rw [locate_eq_ok_iff]
  constructor
  · rintro ⟨_, _, short, k, hk, hl⟩
    obtain ⟨i, own, mid, rfl, hi, hown⟩ := (leadsClean_join hn).mp ((leads_join hn).mp hl)
    obtain ⟨rfl, rfl⟩ := hi.unique hd
    exact ⟨short, own, hown, hk⟩
  · rintro ⟨short, own, hown, few⟩
    have hl := (leads_join hn).mpr ((leadsClean_join hn).mpr ⟨before, own, dir, rfl, hd, hown⟩)
    exact ⟨zero_not_mem_of_leads hl, join_ne_nil path hn, short, before + own, few, hl⟩

theorem statsTo_of_locate {fs : FileSystem} {path name : Text} {dir target : Location} {k : Nat}
    (hn : Path.IsName name) (hd : fs.LeadsClean k path dir) (h : fs.locate (Path.join path name) = .ok target) :
    fs.StatsTo dir name target := by
  obtain ⟨_, own, hown, _⟩ := (locate_join_iff hn hd).mp h
  exact ⟨own, hown⟩

theorem locate_of_statsTo {fs : FileSystem} {path name : Text} {dir target : Location} {k : Nat}
    (hn : Path.IsName name) (hd : fs.LeadsClean k path dir) (ht : fs.StatsTo dir name target)
    (short : (Path.join path name).length ≤ longestPath)
    (few : fs.locate (Path.join path name) ≠ .error .tooManyLinks) : fs.locate (Path.join path name) = .ok target := by
  obtain ⟨m, hm⟩ := ht
  by_cases hk : k + m ≤ lookupLinks
  · exact (locate_join_iff hn hd).mpr ⟨short, m, hm, hk⟩
  · have hl := (leads_join hn).mpr ((leadsClean_join hn).mpr ⟨k, m, dir, rfl, hd, hm⟩)
    have hmany := hl.locate_tooManyLinks (by omega) (zero_not_mem_of_leads hl) (join_ne_nil path hn) short
    exact absurd hmany few

/-- There is something where an entry leads. -/
theorem StatsTo.exists_object {fs : FileSystem} {dir target : Location} {name : Text} (h : fs.StatsTo dir name target) :
    ∃ object, fs.at? target = some object ∧ object.isLink = false := by
  obtain ⟨k, hk⟩ := h
  have hdir := hk.isDirectory_start (by simp)
  exact hk.exists_object (isDirectory_iff.mp hdir) rfl

theorem entryObject_of_plain {fs : FileSystem} {path : Text} {e : Text × Object} (plain : e.2.isLink = false) :
    fs.entryObject path e = .ok e.2 := by
  obtain ⟨name, object⟩ := e
  cases object with
  | link => cases plain
  | directory | file | pipe | device => rfl

theorem entryObject_of_link {fs : FileSystem} {path : Text} {e : Text × Object} (link : e.2.isLink = true) :
    fs.entryObject path e = fs.stat (Path.join path e.1) := by
  obtain ⟨name, object⟩ := e
  cases object with
  | link => rfl
  | directory | file | pipe | device => cases link

theorem stat_eq_ok_iff {fs : FileSystem} {path : Text} {object : Object} :
    fs.stat path = .ok object ↔ ∃ place, fs.locate path = .ok place ∧ fs.at? place = some object := by
  unfold stat lookup
  cases hl : fs.locate path with
  | error => simp
  | ok place => cases hp : fs.at? place <;> simp [hp]

theorem stat_of_locate_error {fs : FileSystem} {path : Text} {reason : Reason} (h : fs.locate path = .error reason) :
    fs.stat path = .error (.operation .stat path reason) := by
  simp [stat, lookup, h]

/-- A link among the entries of a directory is looked up by its own path, and that may be too long. -/
def Speakable (path : Text) (e : Text × Object) : Prop :=
  e.2.isLink = true → (Path.join path e.1).length ≤ longestPath

theorem entryObject_sound {fs : FileSystem} {path : Text} {dir : Location} {k : Nat} {e : Text × Object}
    {object : Object} (hd : fs.LeadsClean k path dir) (he : e ∈ fs.entries dir)
    (h : fs.entryObject path e = .ok object) :
    ∃ target, fs.StatsTo dir e.1 target ∧ fs.at? target = some object ∧ Speakable path e := by
  cases hlink : e.2.isLink with
  | false =>
    rw [entryObject_of_plain hlink] at h
    cases h
    refine ⟨e.1 :: dir, statsTo_of_plain he hlink, mem_entries.mp he, fun hl => ?_⟩
    rw [hlink] at hl
    cases hl
  | true =>
    rw [entryObject_of_link hlink] at h
    obtain ⟨target, hl, ho⟩ := stat_eq_ok_iff.mp h
    exact ⟨target, statsTo_of_locate (isName_of_mem_entries he) hd hl, ho, fun _ => (locate_eq_ok_iff.mp hl).2.2.1⟩

theorem entryObject_of_locate {fs : FileSystem} {path : Text} {dir target : Location} {e : Text × Object}
    {object : Object} (he : e ∈ fs.entries dir) (ht : fs.StatsTo dir e.1 target) (ho : fs.at? target = some object)
    (hloc : e.2.isLink = true → fs.locate (Path.join path e.1) = .ok target) : fs.entryObject path e = .ok object := by
  cases hlink : e.2.isLink with
  | false =>
    obtain rfl := ht.unique (statsTo_of_plain he hlink)
    rw [mem_entries.mp he] at ho
    rw [entryObject_of_plain hlink, Option.some.inj ho]
  | true =>
    rw [entryObject_of_link hlink, stat_eq_ok_iff]
    exact ⟨target, hloc hlink, ho⟩

theorem entryObject_complete {fs : FileSystem} {path : Text} {dir target : Location} {k : Nat} {e : Text × Object}
    {object : Object} (hd : fs.LeadsClean k path dir) (he : e ∈ fs.entries dir) (ht : fs.StatsTo dir e.1 target)
    (ho : fs.at? target = some object) (short : Speakable path e)
    (few : e.2.isLink = true → fs.locate (Path.join path e.1) ≠ .error .tooManyLinks) :
    fs.entryObject path e = .ok object :=
  entryObject_of_locate he ht ho fun hlink =>
    locate_of_statsTo (isName_of_mem_entries he) hd ht (short hlink) (few hlink)

end FileSystem

end SignalAudit
