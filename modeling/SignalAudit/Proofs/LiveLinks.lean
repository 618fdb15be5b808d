import SignalAudit.Proofs.WalkExactness

/-!
The links that a walk passes over. A link is looked up by the path under which its directory was listed, so the links on
the way to the directory count with its own. What is passed over leads nowhere, or is beyond a limit of lookups.
-/

namespace SignalAudit

namespace FileSystem

/-- An entry of a directory that leads nowhere, through however many links it is followed. -/
def Dangles (fs : FileSystem) (dir : Location) (name : Text) : Prop := ∀ target, ¬ fs.StatsTo dir name target

/-- An entry below a directory that so many links have led to is not found under its path, because it leads nowhere or
because the path has too many bytes or too many links. -/
theorem stat_join_eq_error_iff {fs : FileSystem} {path name : Text} {dir : Location} {before : Nat}
    (hn : Path.IsName name) (hd : fs.LeadsClean before path dir) :
    (∃ cause, fs.stat (Path.join path name) = .error cause) ↔
      fs.Dangles dir name ∨ longestPath < (Path.join path name).length ∨
        ∃ own target, fs.Leads own dir [name] target ∧ lookupLinks < before + own := by
  constructor
  · rintro ⟨cause, hstat⟩
    by_cases hdangles : fs.Dangles dir name
    · exact .inl hdangles
    by_cases hlong : longestPath < (Path.join path name).length
    · exact .inr (.inl hlong)
    -- It leads somewhere under a path that is not too long, so there is only the number of links.
    obtain ⟨target, own, hown⟩ : ∃ target, fs.StatsTo dir name target := by simpa [Dangles] using hdangles
    refine .inr (.inr ⟨own, target, hown, ?_⟩)
    apply Nat.lt_of_not_le
    intro few
    have hloc := (locate_join_iff hn hd).mpr ⟨Nat.le_of_not_lt hlong, own, hown, few⟩
    obtain ⟨object, ho, _⟩ := StatsTo.exists_object ⟨own, hown⟩
    rw [stat_eq_ok_iff.mpr ⟨target, hloc, ho⟩] at hstat
    cases hstat
  · intro h
    cases hstat : fs.stat (Path.join path name) with
    | error cause => exact ⟨cause, rfl⟩
    | ok object =>
      obtain ⟨target, hloc, _⟩ := stat_eq_ok_iff.mp hstat
      obtain ⟨short, own, hown, few⟩ := (locate_join_iff hn hd).mp hloc
      rcases h with hdangles | hlong | ⟨own', target', hown', hmany⟩
      · exact absurd ⟨own, hown⟩ (hdangles target)
      · omega
      · obtain ⟨rfl, _⟩ := hown.unique hown'
        omega

end FileSystem

namespace Walk

variable {σ ε : Type}

/-- A walk that succeeds, from a root without links on its way or from any other that leads to the same directory once
it is cleaned. A visible link of a directory that it has listed is passed over just when it dangles, its path has too
many bytes, or the links on the way to the directory and its own are too many; and no such link is named like a source.
From any other link the walk has gone on: a directory is listed, and a source file is visited. -/
theorem run_passes_over_iff (w : Walk σ ε) {root : Text} {top : Location} (denotes : w.fs.Denotes root top) {state : σ}
    {p : Progress σ} (ok : w.run root state = (p, none)) :
    ∀ l ∈ p.listings, ∃ dir before, w.fs.directory? l.path = some dir ∧ w.fs.LeadsClean before l.path dir ∧
      ∀ e ∈ w.fs.entries dir, e.2.isLink = true → w.filter.Visible e.1 →
        ((∃ cause, w.fs.stat (Path.join l.path e.1) = .error cause) ↔
          w.fs.Dangles dir e.1 ∨ FileSystem.longestPath < (Path.join l.path e.1).length ∨
            ∃ own target, w.fs.Leads own dir [e.1] target ∧ FileSystem.lookupLinks < before + own) ∧
        (∀ cause, w.fs.stat (Path.join l.path e.1) = .error cause → w.filter.isSource e.1 = false) ∧
        ∀ object, w.fs.stat (Path.join l.path e.1) = .ok object →
          ∃ target, w.fs.StatsTo dir e.1 target ∧ w.fs.at? target = some object ∧
            (object = .directory → target ∈ p.listed w.fs) ∧
            (∀ content, object = .file content → w.filter.isSource e.1 = true →
              Path.join l.path e.1 ∈ w.calls root state) := by
  obtain ⟨q, hq, hlistings, hcalls⟩ := survey_of_run ok
  intro l hl
  rw [← hlistings] at hl
  obtain ⟨dir, hd, _⟩ := directory_of_finished (finished_of_run hq l hl)
  obtain ⟨before, hk⟩ := leadsClean_of_run denotes hq hl hd
  refine ⟨dir, before, hd, hk, ?_⟩
  intro e he hlink visible
  have hobj : w.fs.entryObject l.path e = w.fs.stat (Path.join l.path e.1) := FileSystem.entryObject_of_link hlink
  refine ⟨FileSystem.stat_join_eq_error_iff (FileSystem.isName_of_mem_entries he) hk, ?_, ?_⟩
  · intro cause hstat
    cases hsource : w.filter.isSource e.1 with
    | false => rfl
    | true =>
      obtain ⟨object, hfound⟩ := entryObject_of_isSource hq hl hd he visible hsource
      rw [hobj, hstat] at hfound
      cases hfound
  · intro object hstat
    obtain ⟨target, ht, ho, _⟩ := FileSystem.entryObject_sound hk he (hobj.trans hstat)
    refine ⟨target, ht, ho, ?_, ?_⟩
    · rintro rfl
      have hlisted := listed_of_entryObject denotes hq hl hd he visible ht (FileSystem.isDirectory_iff.mpr ho)
        (hobj.trans hstat)
      unfold Progress.listed at hlisted ⊢
      rwa [hlistings] at hlisted
    · rintro content rfl hsource
      rw [hcalls, mem_itinerary_iff_task hq]
      exact ⟨l, hl, dir, hd, e, he, SourceFilter.task_eq_visit_iff.mpr
        ⟨SourceFilter.visible_iff.mp visible, hsource, ⟨content, hobj.trans hstat⟩, rfl⟩⟩

theorem looping_passes_over_self :
    looped.Denotes (text "/r") [text "r"] ∧
    looping.run (text "/r") [] = (⟨loopedListings, [text "/r/a.cpp", text "/r/c.cpp", text "/r/lib/b.h"]⟩, none) ∧
    [text "e"] ∈ (looping.run (text "/r") []).1.listed looped ∧
    ∃ before, looped.LeadsClean before (text "/r") [text "r"] ∧ (looped.Dangles [text "r"] (text "self") ∨
      ∃ own target, looped.Leads own [text "r"] [text "self"] target ∧ FileSystem.lookupLinks < before + own) := by
  have hrun : looping.run (text "/r") [] =
      (⟨loopedListings, [text "/r/a.cpp", text "/r/c.cpp", text "/r/lib/b.h"]⟩, none) := by decide +kernel
  obtain ⟨dir, before, hd, hk, hlinks⟩ :=
    run_passes_over_iff looping looped_plain.denotes hrun ⟨text "/r", text "/r"⟩ (by decide)
  obtain rfl : dir = [text "r"] := Option.some.inj (hd.symm.trans (by decide))
  obtain ⟨_, _, hlib⟩ := hlinks (text "lib", .link (text "../e")) (FileSystem.mem_entries.mpr rfl) rfl
    (SourceFilter.visible_iff.mpr (by decide))
  obtain ⟨hself, _, _⟩ := hlinks (text "self", .link (text "self")) (FileSystem.mem_entries.mpr rfl) rfl
    (SourceFilter.visible_iff.mpr (by decide))
  refine ⟨looped_plain.denotes, hrun, ?_, before, hk, ?_⟩
  · have hstat : looped.stat (text "/r/lib") = .ok .directory :=
      FileSystem.stat_eq_ok_iff.mpr ⟨[text "e"], by decide, rfl⟩
    obtain ⟨target, ht, _, hlisted, _⟩ := hlib .directory hstat
    obtain rfl := ht.unique ⟨1, .jump rfl (.ascend rfl (.descend rfl rfl (.arrive _)))⟩
    rw [hrun]
    exact hlisted rfl
  · have hlocate : looped.locate (text "/r/self") = .error .tooManyLinks := by decide +kernel
    rcases hself.mp ⟨_, FileSystem.stat_of_locate_error hlocate⟩ with hdangles | hlong | hmany
    · exact .inl hdangles
    · exact absurd hlong (by decide)
    · exact .inr hmany

/-- A directory behind as many links as a lookup follows, with one more link in it to a directory with a source. -/
def capped : FileSystem where
  objects := [
    ([text "r"], .directory),
    ([text ".x", text "r"], .link (text ".")),
    ([text "a", text "r"], .link ((List.replicate 39 (text ".x/")).flatten ++ text "../d")),
    ([text "d"], .directory),
    ([text "b", text "d"], .link (text "../e")),
    ([text "e"], .directory),
    ([text "x.cpp", text "e"], .file .empty)]

/-- A link that leads to a directory by itself alone is passed over, and so is the source in there. -/
theorem capped_passes_over_live :
    capped.IsPlain (text "/r") [text "r"] ∧
    (⟨capped, .standard, fun path seen => (seen ++ [path], none)⟩ : Walk (List Text) Unit).run (text "/r") [] =
      (⟨[⟨text "/d", text "/r/a"⟩, ⟨text "/r", text "/r"⟩], []⟩, none) ∧
    capped.directory? (text "/r/a") = some [text "d"] ∧
    (text "b", .link (text "../e")) ∈ capped.entries [text "d"] ∧ SourceFilter.standard.Visible (text "b") ∧
    capped.stat (text "/r/a/b") = .error (.operation .stat (text "/r/a/b") .tooManyLinks) ∧
    capped.Leads 1 [text "d"] [text "b"] [text "e"] ∧ capped.isDirectory [text "e"] = true ∧
    SourceFilter.standard.isSource (text "x.cpp") = true ∧
    capped.at? [text "x.cpp", text "e"] = some (.file .empty) := by
  refine ⟨⟨by decide, .stay rfl (.inl rfl) (.descend rfl rfl (.arrive _)), rfl⟩, by decide +kernel, by decide +kernel,
    FileSystem.mem_entries.mpr rfl, SourceFilter.visible_iff.mpr (by decide), ?_, ?_, rfl, by decide, rfl⟩
  · exact FileSystem.stat_of_locate_error (by decide +kernel)
  · exact .jump rfl (.ascend rfl (.descend rfl rfl (.arrive _)))

end Walk

end SignalAudit
