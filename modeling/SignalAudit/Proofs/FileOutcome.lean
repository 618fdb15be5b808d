import SignalAudit.Proofs.FileFailure
import SignalAudit.Proofs.SourceLines

/-!
What becomes of a usage to which a file is added, told by the bytes of the file: where its lines begin, and the first of
them that cannot be read or classified. The names on the lines before that one are added, and nothing else is.
-/

namespace SignalAudit

namespace Text

/-- What a text is from the start of a line on, by the line's number. A line follows the newline that ends the line
before, unless nothing does. -/
inductive LineAt (t : Text) : Nat → Text → Prop where
  | first (more : t ≠ []) : LineAt t 1 t
  | next {n : Nat} {line rest : Text} (h : LineAt t n (line ++ newline :: rest)) (ended : newline ∉ line)
      (more : rest ≠ []) : LineAt t (n + 1) rest

/-- The line at the front. -/
def frontLine (rest : Text) : Text := rest.takeWhile (· ≠ newline)

/-- No newline comes within the limit. -/
def RunsOn (rest : Text) : Prop := lineLimit ≤ rest.length ∧ newline ∉ rest.take lineLimit

theorem frontLine_append {line : Text} (h : newline ∉ line) (back : Text) :
    frontLine (line ++ back) = line ++ frontLine back := by
  apply List.takeWhile_append_of_pos
  intro b hb
  simpa using fun he : b = newline => h (he ▸ hb)

theorem frontLine_of_not_mem {rest : Text} (h : newline ∉ rest) : frontLine rest = rest := by
  simpa [frontLine] using frontLine_append h []

theorem frontLine_of_ended {line : Text} (h : newline ∉ line) (back : Text) :
    frontLine (line ++ newline :: back) = line := by
  rw [frontLine_append h]
  simp [frontLine]

/-- A text is its front line, or goes on after a newline. -/
theorem ended_or_not (rest : Text) :
    newline ∉ rest ∨ ∃ line back, rest = line ++ newline :: back ∧ newline ∉ line := by
  by_cases h : newline ∈ rest
  · obtain ⟨line, back, hsplit, hline⟩ := List.eq_append_cons_of_mem h
    exact .inr ⟨line, back, hsplit, hline⟩
  · exact .inl h

theorem runsOn_iff {rest : Text} : RunsOn rest ↔ isOverlong (frontLine rest) = true := by
  unfold RunsOn isOverlong
  rw [decide_eq_true_iff]
  rcases ended_or_not rest with h | ⟨line, back, rfl, hline⟩
  · rw [frontLine_of_not_mem h]
    exact and_iff_left fun hin => h (List.mem_of_mem_take hin)
  · rw [frontLine_of_ended hline]
    constructor
    · rintro ⟨_, hfree⟩
      apply Nat.le_of_not_lt
      intro hlt
      apply hfree
      rw [List.take_append, List.mem_append]
      obtain ⟨k, hk⟩ : ∃ k, lineLimit - line.length = k + 1 := ⟨lineLimit - line.length - 1, by omega⟩
      simp [hk]
    · intro hle
      refine ⟨?_, ?_⟩
      · rw [List.length_append]
        exact Nat.le_add_right_of_le hle
      · rw [List.take_append_of_le_length hle]
        exact fun hin => hline (List.mem_of_mem_take hin)

theorem dropReturn_of_not_mem {line : Text} (h : 0x0D ∉ line) : dropReturn line = line :=
  if_neg fun hlast => h (List.mem_of_getLast? hlast)

theorem foldr_addByte_of_not_mem {rest : Text} (h : newline ∉ rest) (more : rest ≠ []) :
    rest.foldr addByte [] = [rest] := by
  induction rest with
  | nil => exact absurd rfl more
  | cons b rest ih =>
    obtain ⟨hb, hrest⟩ := not_or.mp (List.mem_cons.not.mp h)
    have hb : b ≠ 0x0A := Ne.symm hb
    rw [List.foldr_cons]
    cases rest with
    | nil => exact if_neg hb
    | cons c rest =>
      rw [ih hrest (by simp)]
      exact if_neg hb

theorem exists_lines {rest : Text} (more : rest ≠ []) :
    ∃ after, rest.foldr addByte [] = frontLine rest :: after := by
  rcases ended_or_not rest with h | ⟨line, back, rfl, hline⟩
  · exact ⟨[], by rw [foldr_addByte_of_not_mem h more, frontLine_of_not_mem h]⟩
  · exact ⟨_, by rw [foldr_addByte_line hline, frontLine_of_ended hline]⟩

theorem LineAt.more {t rest : Text} {n : Nat} (h : LineAt t n rest) : rest ≠ [] := by
  cases h with
  | first more | next _ _ more => exact more

/-- The line with a number comes after one line less. -/
theorem LineAt.lines {t rest : Text} {n : Nat} (h : LineAt t n rest) : ∃ before after,
    t.foldr addByte [] = before ++ frontLine rest :: after ∧ n = before.length + 1 := by
  suffices hsplit : ∃ before, t.foldr addByte [] = before ++ rest.foldr addByte [] ∧ n = before.length + 1 by
    obtain ⟨before, hbefore, hn⟩ := hsplit
    obtain ⟨after, hafter⟩ := exists_lines h.more
    exact ⟨before, after, by rw [hbefore, hafter], hn⟩
  induction h with
  | first more => exact ⟨[], rfl, rfl⟩
  | @next _ line _ h ended more ih =>
    obtain ⟨before, hbefore, hn⟩ := ih
    refine ⟨before ++ [line], ?_, by simp [hn]⟩
    rw [hbefore, foldr_addByte_line ended, List.append_assoc, List.singleton_append]

theorem LineAt.le_length {t rest : Text} {n : Nat} (h : LineAt t n rest) : n ≤ (t.foldr addByte []).length := by
  obtain ⟨before, after, hsplit, rfl⟩ := h.lines
  simp [hsplit]

theorem exists_lineAt {t line : Text} {before after : List Text} (h : t.foldr addByte [] = before ++ line :: after) :
    ∃ rest, LineAt t (before.length + 1) rest ∧ frontLine rest = line := by
  suffices hstart : ∃ rest, LineAt t (before.length + 1) rest ∧ rest.foldr addByte [] = line :: after by
    obtain ⟨rest, hat, hrest⟩ := hstart
    obtain ⟨_, hfront⟩ := exists_lines hat.more
    exact ⟨rest, hat, (List.cons.inj (hfront.symm.trans hrest)).1⟩
  induction before using List.reverseRecOn generalizing line after with
  | nil =>
    refine ⟨t, .first ?_, h⟩
    rintro rfl
    cases h
  | append_singleton before last ih =>
    rw [List.append_assoc, List.singleton_append] at h
    obtain ⟨rest, hat, hrest⟩ := ih h
    rcases ended_or_not rest with hfree | ⟨ended, back, rfl, hended⟩
    · -- A line that no newline ends is the last.
      rw [foldr_addByte_of_not_mem hfree hat.more] at hrest
      cases hrest
    · rw [foldr_addByte_line hended] at hrest
      have hback : back.foldr addByte [] = line :: after := (List.cons.inj hrest).2
      rw [List.length_append, List.length_singleton]
      refine ⟨back, .next hat hended ?_, hback⟩
      rintro rfl
      cases hback

/-- The first lines of a text are those with the first numbers. -/
theorem mem_lines_iff {t : Text} {before after : List Text} (h : t.foldr addByte [] = before ++ after) {line : Text} :
    line ∈ before ↔ ∃ n rest, n ≤ before.length ∧ LineAt t n rest ∧ frontLine rest = line := by
  constructor
  · intro hline
    obtain ⟨earlier, later, rfl⟩ := List.append_of_mem hline
    rw [List.append_assoc] at h
    obtain ⟨rest, hat, hfront⟩ := exists_lineAt h
    exact ⟨_, rest, by simp, hat, hfront⟩
  · rintro ⟨n, rest, hn, hat, rfl⟩
    obtain ⟨earlier, later, hsplit, rfl⟩ := hat.lines
    have hget : (before ++ after)[earlier.length]? = some (frontLine rest) := by simp [← h, hsplit]
    rw [List.getElem?_append_left hn] at hget
    exact List.mem_of_getElem? hget

end Text

open Text (LineAt RunsOn frontLine dropReturn)

/-- The line at the front can be read and says this about a signal. -/
def Tells (patterns : List Pattern) (rest : Text) (m : Match) : Prop :=
  ¬ RunsOn rest ∧ classify patterns (dropReturn (frontLine rest)) = .ok m

/-- The line at the front, which has this number, is the cause of an error. -/
inductive Trips (patterns : List Pattern) (rest : Text) (number : Nat) : FileError → Prop where
  | overlong (long : RunsOn rest) : Trips patterns rest number .overlong
  | malformed {cause : Malformed} (short : ¬ RunsOn rest)
      (bad : classify patterns (dropReturn (frontLine rest)) = .error cause) :
      Trips patterns rest number (.malformed number cause)

/-- No line of a text is the cause of an error. -/
def Smooth (patterns : List Pattern) (t : Text) : Prop :=
  ∀ n rest, LineAt t n rest → ∀ e, ¬ Trips patterns rest n e

/-- The first line that is the cause of an error. -/
structure FirstTrip (patterns : List Pattern) (t : Text) (number : Nat) (e : FileError) : Prop where
  trips : ∃ rest, LineAt t number rest ∧ Trips patterns rest number e
  earlier : ∀ n < number, ∀ rest, LineAt t n rest → ∀ e, ¬ Trips patterns rest n e

section Lines

variable {patterns : List Pattern} {t rest : Text} {n : Nat} {e : FileError} {m : Match}

theorem tells_iff : Tells patterns rest m ↔ Yields patterns (frontLine rest) m := by
  rw [Tells, Yields, Text.runsOn_iff, Bool.not_eq_true]

theorem trips_iff : Trips patterns rest n e ↔ Stops patterns (frontLine rest) n e := by
  constructor
  · intro h
    cases h with
    | overlong long => exact .overlong (Text.runsOn_iff.mp long)
    | malformed short bad => exact .malformed (Bool.not_eq_true _ ▸ Text.runsOn_iff.not.mp short) bad
  · intro h
    cases h with
    | overlong long => exact .overlong (Text.runsOn_iff.mpr long)
    | malformed short bad => exact .malformed (Text.runsOn_iff.not.mpr (by simp [short])) bad

/-- A line either says something or is the cause of an error. -/
theorem never_trips_iff : (∀ e, ¬ Trips patterns rest n e) ↔ ∃ m, Yields patterns (frontLine rest) m := by
  simp only [trips_iff]
  constructor
  · intro h
    by_contra hno
    obtain ⟨e, he⟩ := exists_stops hno n
    exact h e he
  · rintro ⟨m, short, good⟩ e he
    cases he with
    | overlong long => simp [long] at short
    | malformed _ bad => simp [bad] at good

/-- The first lines are no cause of an error if they all say something. -/
theorem all_yield_iff {before after : List Text} (h : t.foldr Text.addByte [] = before ++ after) :
    (∀ line ∈ before, ∃ m, Yields patterns line m) ↔
      ∀ n rest, n ≤ before.length → LineAt t n rest → ∀ e, ¬ Trips patterns rest n e := by
  simp only [Text.mem_lines_iff h, never_trips_iff]
  constructor
  · intro hall n rest hn hat
    exact hall _ ⟨n, rest, hn, hat, rfl⟩
  · rintro hall line ⟨n, rest, hn, hat, rfl⟩
    exact hall n rest hn hat

theorem yields_iff_tells {before after : List Text} (h : t.foldr Text.addByte [] = before ++ after) :
    (∃ line ∈ before, Yields patterns line m) ↔
      ∃ n rest, n ≤ before.length ∧ LineAt t n rest ∧ Tells patterns rest m := by
  simp only [Text.mem_lines_iff h, tells_iff]
  constructor
  · rintro ⟨_, ⟨n, rest, hn, hat, rfl⟩, hm⟩
    exact ⟨n, rest, hn, hat, hm⟩
  · rintro ⟨n, rest, hn, hat, hm⟩
    exact ⟨_, ⟨n, rest, hn, hat, rfl⟩, hm⟩

/-- The first cause of an error is the line that classification stops at. -/
theorem firstTrip_iff : FirstTrip patterns t n e ↔ ∃ before line after,
    t.foldr Text.addByte [] = before ++ line :: after ∧ n = before.length + 1 ∧
      (∀ line ∈ before, ∃ m, Yields patterns line m) ∧ Stops patterns line n e := by
  constructor
  · rintro ⟨⟨rest, hat, trips⟩, earlier⟩
    obtain ⟨before, after, hsplit, rfl⟩ := hat.lines
    refine ⟨before, frontLine rest, after, hsplit, rfl, ?_, trips_iff.mp trips⟩
    rw [all_yield_iff hsplit]
    intro n rest hn
    exact earlier n (Nat.lt_succ_of_le hn) rest
  · rintro ⟨before, line, after, hsplit, rfl, fine, stops⟩
    obtain ⟨rest, hat, rfl⟩ := Text.exists_lineAt hsplit
    refine ⟨⟨rest, hat, trips_iff.mpr stops⟩, ?_⟩
    intro n hn rest
    exact (all_yield_iff hsplit).mp fine n rest (Nat.le_of_lt_succ hn)

theorem smooth_iff : Smooth patterns t ↔ ∀ line ∈ t.foldr Text.addByte [], ∃ m, Yields patterns line m := by
  rw [all_yield_iff (List.append_nil _).symm]
  constructor
  · intro h n rest _
    exact h n rest
  · intro h n rest hat
    exact h n rest hat.le_length hat

/-- If some line is the cause of an error, one is the first. -/
theorem smooth_or_firstTrip (patterns : List Pattern) (t : Text) :
    Smooth patterns t ∨ ∃ k e, FirstTrip patterns t k e := by
  by_cases hall : ∀ line ∈ t.foldr Text.addByte [], ∃ m, Yields patterns line m
  · exact .inl (smooth_iff.mpr hall)
  · obtain ⟨before, line, after, hsplit, fine, hline⟩ := exists_first_not hall
    obtain ⟨e, stops⟩ := exists_stops hline (before.length + 1)
    exact .inr ⟨_, e, firstTrip_iff.mpr ⟨before, line, after, hsplit, rfl, fine, stops⟩⟩

end Lines

namespace Usage

theorem Gathers.of_iff {A B : Match → Prop} {files : Nat} {u v : Usage} (h : Gathers A files u v)
    (hiff : ∀ m, B m ↔ A m) : Gathers B files u v where
  names kind hk x := by rw [h.names kind hk, hiff]
  files := h.files

theorem Gathers.keeps {Said : Match → Prop} {files : Nat} {u v : Usage} (h : Gathers Said files u v) {kind : Kind}
    {name : Text} (hname : name ∈ u.names kind) : name ∈ v.names kind := by
  by_cases hk : kind.Kept
  · exact (h.names kind hk name).mpr (.inl hname)
  · cases kind with
    | noMatch | unknown => exact absurd hname (NameSet.not_mem_empty name)
    | declaration | emission | connection | compatConnection => exact absurd ⟨nofun, nofun⟩ hk

section File

variable {fs : FileSystem} {path : Text} {content : ByteArray} {patterns : List Pattern}

theorem addFile_of_read (read : fs.readFile path = .ok content) (u : Usage) : u.addFile fs patterns path =
    classifyLines patterns (fun _ found u => u.add found) 1 (content.data.toList.foldr Text.addByte []) u := by
  rw [Array.foldr_toList]
  exact classifyFile_of_read read u

theorem addFile_of_smooth (read : fs.readFile path = .ok content) (smooth : Smooth patterns content.data.toList)
    (u : Usage) : (u.addFile fs patterns path).2 = none ∧
      Gathers (fun m => ∃ n rest, LineAt content.data.toList n rest ∧ Tells patterns rest m) 0 u
        (u.addFile fs patterns path).1 := by
  rw [addFile_of_read read]
  have fine := smooth_iff.mp smooth
  refine ⟨classifyLines_eq_none_iff.mpr fine, (classifyLines_gathers fine 1 u).of_iff ?_⟩
  intro m
  rw [yields_iff_tells (List.append_nil _).symm]
  constructor
  · rintro ⟨n, rest, hat, tells⟩
    exact ⟨n, rest, hat.le_length, hat, tells⟩
  · rintro ⟨n, rest, _, hat, tells⟩
    exact ⟨n, rest, hat, tells⟩

theorem addFile_of_firstTrip (read : fs.readFile path = .ok content) {k : Nat} {e : FileError}
    (h : FirstTrip patterns content.data.toList k e) (u : Usage) : (u.addFile fs patterns path).2 = some e ∧
      Gathers (fun m => ∃ n rest, n < k ∧ LineAt content.data.toList n rest ∧ Tells patterns rest m) 0 u
        (u.addFile fs patterns path).1 := by
  obtain ⟨before, line, after, hsplit, rfl, fine, stops⟩ := firstTrip_iff.mp h
  rw [Nat.add_comm] at stops
  rw [addFile_of_read read, hsplit, classifyLines_append fine, classifyLines_of_stops stops]
  refine ⟨rfl, (classifyLines_gathers fine 1 u).of_iff ?_⟩
  intro m
  simp only [yields_iff_tells hsplit, Nat.lt_succ_iff]

end File

/-- If no line of a file is over-long or malformed, adding the file succeeds, and the names of all lines are added, each
in the set of its kind. Otherwise it fails by the error of the first such line, and the names of the lines before are
added. Neither way is the file counted or a name lost. -/
theorem addFile_outcome {fs : FileSystem} {path : Text} {content : ByteArray} (read : fs.readFile path = .ok content)
    (patterns : List Pattern) (u : Usage) :
    (Smooth patterns content.data.toList →
      (u.addFile fs patterns path).2 = none ∧
        Gathers (fun m => ∃ n rest, LineAt content.data.toList n rest ∧ Tells patterns rest m) 0 u
          (u.addFile fs patterns path).1) ∧
    (∀ k e, FirstTrip patterns content.data.toList k e →
      (u.addFile fs patterns path).2 = some e ∧
        (e = .overlong ∨ ∃ cause, e = .malformed k cause ∧
          e.message = text "line " ++ Text.ofNat k ++ text ": " ++ cause.message) ∧
        Gathers (fun m => ∃ n rest, n < k ∧ LineAt content.data.toList n rest ∧ Tells patterns rest m) 0 u
          (u.addFile fs patterns path).1) ∧
    (Smooth patterns content.data.toList ∨ ∃ k e, FirstTrip patterns content.data.toList k e) ∧
    (u.addFile fs patterns path).1.files = u.files ∧
    ∀ kind name, name ∈ u.names kind → name ∈ (u.addFile fs patterns path).1.names kind := by
  have hgathers : ∃ Said, Gathers Said 0 u (u.addFile fs patterns path).1 := by
    rcases smooth_or_firstTrip patterns content.data.toList with smooth | ⟨k, e, first⟩
    · exact ⟨_, (addFile_of_smooth read smooth u).2⟩
    · exact ⟨_, (addFile_of_firstTrip read first u).2⟩
  obtain ⟨Said, gathers⟩ := hgathers
  refine ⟨fun smooth => addFile_of_smooth read smooth u, ?_, smooth_or_firstTrip _ _, gathers.files,
    fun kind name => gathers.keeps⟩
  intro k e first
  obtain ⟨hends, hnames⟩ := addFile_of_firstTrip read first u
  refine ⟨hends, ?_, hnames⟩
  obtain ⟨rest, _, trips⟩ := first.trips
  cases trips with
  | overlong => exact .inl rfl
  | malformed => exact .inr ⟨_, rfl, rfl⟩

/-- A file with an unclosed name on its fifth line. -/
def halfRead : FileSystem where
  objects := [
    ([text "a.cpp"], .file ⟨(text "ADD_SIGNAL(MethodInfo(\"opened\"));\r\n\n// emit_signal(\"x\n" ++
      text "emit_signal(\"closed\");\nbutton->connect(\"lost);\r\nemit_signal(\"late\");").toArray⟩)]

theorem halfRead_outcome : ∃ content, halfRead.readFile (text "/a.cpp") = .ok content ∧
    FirstTrip Pattern.standard content.data.toList 5 (.malformed 5 ⟨text "->connect(\"", text "\""⟩) ∧
    Gathers (fun m => ∃ n rest, n < 5 ∧ LineAt content.data.toList n rest ∧ Tells Pattern.standard rest m) 0
      { emitted := .ofList [text "old"], files := 3 }
      { declared := .ofList [text "opened"], emitted := .ofList [text "closed", text "old"], files := 3 } := by
  obtain ⟨content, read⟩ : ∃ content, halfRead.readFile (text "/a.cpp") = .ok content := ⟨_, rfl⟩
  refine ⟨content, read, ?_⟩
  obtain ⟨hsmooth, hfirst, hcases, _⟩ := addFile_outcome read Pattern.standard
    { emitted := .ofList [text "old"], files := 3 }
  have hends : addFile halfRead Pattern.standard (text "/a.cpp") { emitted := .ofList [text "old"], files := 3 } =
      ({ declared := .ofList [text "opened"], emitted := .ofList [text "closed", text "old"], files := 3 },
        some (.malformed 5 ⟨text "->connect(\"", text "\""⟩)) := by decide +kernel
  rw [hends] at hsmooth hfirst
  rcases hcases with smooth | ⟨k, e, first⟩
  · cases (hsmooth smooth).1
  · obtain ⟨hsome, _, gathers⟩ := hfirst k e first
    obtain rfl := Option.some.inj hsome
    obtain ⟨_, _, trips⟩ := first.trips
    cases trips
    exact ⟨first, gathers⟩

/-- Adds what the lines of a text say, up to the first that cannot be read or classified. -/
def addText (patterns : List Pattern) (t : Text) (u : Usage) : Usage × Option FileError :=
  classifyLines patterns (fun _ found u => u.add found) 1 (t.foldr Text.addByte []) u

end Usage

/-- A file with a given text. -/
structure FileOf (t : Text) where
  fs : FileSystem
  path : Text
  read : fs.readFile path = .ok ⟨t.toArray⟩

namespace FileOf

variable {t : Text}

/-- The only file of its tree. -/
def alone (t : Text) : FileOf t where
  fs := { objects := [([text "a.cpp"], .file ⟨t.toArray⟩)] }
  path := text "/a.cpp"
  read := rfl

/-- A usage with the matches of the file. -/
def addTo (file : FileOf t) (patterns : List Pattern) (u : Usage) : Usage × Option FileError :=
  u.addFile file.fs patterns file.path

theorem addTo_eq (file : FileOf t) (patterns : List Pattern) (u : Usage) :
    file.addTo patterns u = u.addText patterns t :=
  Usage.addFile_of_read file.read u

end FileOf

end SignalAudit
