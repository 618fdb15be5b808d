import SignalAudit.Proofs.NameScanning
import SignalAudit.Proofs.OrderIndependence

/-!
Compat connections that count are as good as plain ones. If every line with a compat connection is written as a plain
connection of the same name, and nothing else is touched, then the report that leaves compat connections out is the
report that counted them before.
-/

namespace SignalAudit

namespace Text

/-- What holds a byte at its end at most cannot reach over that byte. -/
theorem infix_append_cons {q : UInt8} {marker a b : Text} (hq : q ∉ marker.dropLast) (h : marker <:+: a ++ q :: b) :
    marker <:+: a ++ [q] ∨ marker <:+: b := by
  obtain ⟨x, y, h⟩ := h
  have h : x ++ (marker ++ y) = (a ++ [q]) ++ b := by simpa using h
  rcases List.append_eq_append_iff.mp h with ⟨z, hz, hy⟩ | ⟨z, rfl, rfl⟩
  · rcases List.append_eq_append_iff.mp hy with ⟨w, rfl, rfl⟩ | ⟨w, rfl, rfl⟩
    · exact .inl ⟨x, w, by simp [hz]⟩
    · -- The marker begins with `z`, which ends in the byte unless there is nothing of it.
      rcases List.eq_nil_or_concat' w with rfl | ⟨w, last, rfl⟩
      · exact .inl ⟨x, [], by simp [hz]⟩
      rcases List.eq_nil_or_concat' z with rfl | ⟨z, c, rfl⟩
      · exact .inr ⟨[], y, by simp⟩
      · have hc : q = c := by simpa using congrArg List.getLast? hz
        rw [← List.append_assoc, List.dropLast_concat, hc] at hq
        exact absurd (by simp) hq
  · exact .inr ⟨z, y, by simp⟩

/-- The pieces between newlines are the lines, but for nothing after the last newline. -/
def endedPieces (pieces : List Text) : List Text := if pieces.getLast? = some [] then pieces.dropLast else pieces

theorem endedPieces_cons {pieces : List Text} (piece : Text) (h : pieces ≠ []) :
    endedPieces (piece :: pieces) = piece :: endedPieces pieces := by
  obtain ⟨next, rest, rfl⟩ := List.exists_cons_of_ne_nil h
  unfold endedPieces
  rw [List.getLast?_cons_cons]
  split <;> simp

theorem endedPieces_map {f : Text → Text} (hf : ∀ piece, f piece = [] ↔ piece = []) (pieces : List Text) :
    endedPieces (pieces.map f) = (endedPieces pieces).map f := by
  unfold endedPieces
  rw [List.getLast?_map]
  cases pieces.getLast? with
  | none => simp
  | some piece =>
    simp only [Option.map_some, Option.some.injEq, hf]
    split <;> simp [List.map_dropLast]

theorem foldr_addByte_eq_endedPieces (t : Text) : t.foldr addByte [] = endedPieces (t.splitOn newline) := by
  induction t with
  | nil => rfl
  | cons b rest ih =>
    obtain ⟨piece, pieces, hs⟩ := List.exists_cons_of_ne_nil (List.splitOn_ne_nil newline rest)
    rw [List.foldr_cons, ih, List.splitOn_cons_eq_if_modifyHead, hs]
    simp only [beq_iff_eq, List.modifyHead_cons]
    by_cases hb : b = newline
    · have hmore : piece :: pieces ≠ [] := by simp
      rw [if_pos hb, endedPieces_cons [] hmore]
      exact if_pos hb
    · rw [if_neg hb]
      have hb : b ≠ 0x0A := hb
      cases pieces with
      | nil => cases piece <;> simp [addByte, endedPieces, hb]
      | cons next pieces =>
        have hmore : next :: pieces ≠ [] := by simp
        rw [endedPieces_cons piece hmore]
        rw [endedPieces_cons (b :: piece) hmore]
        exact if_neg hb

end Text

open Text (newline dropReturn)

namespace Pattern

/-- The patterns that come before those of connections. -/
def louder : List Pattern := standard.take 4

def plain : Pattern := ⟨.connection, text "->connect(\"", text "\""⟩

def compat : Pattern := ⟨.compatConnection, text "connect_compat(\"", text "\""⟩

theorem standard_eq : standard = louder ++ [plain, compat] := rfl

end Pattern

/-- The byte that ends a quoted name. -/
def quoteMark : UInt8 := 0x22

theorem beforeAny?_quote_iff {t name : Text} :
    Text.beforeAny? (text "\"") t = some name ↔ quoteMark ∉ name ∧ name ++ [quoteMark] <+: t := by
  have hstops : text "\"" = [quoteMark] := rfl
  have hlow : ∀ b ∈ [quoteMark], b.toNat < 0x80 := by simp [quoteMark]
  rw [hstops, Text.beforeAny?_eq_upTo? hlow, Text.upTo?_eq_some_iff]
  simp only [List.mem_singleton, exists_eq_left]
  exact and_congr_left fun _ => ⟨fun h hq => h _ hq rfl, fun h b hb he => h (he ▸ hb)⟩

/-- A plain connection of a name. -/
def plainCall (name : Text) : Text := text "->connect(\"" ++ name ++ text "\""

theorem classify_compat {line name : Text} (h : classify Pattern.standard line = .ok ⟨.compatConnection, name⟩) :
    (∀ p ∈ Pattern.louder, ¬ p.marker <:+: line) ∧ quoteMark ∉ name ∧
      Pattern.compat.marker ++ name ++ [quoteMark] <:+: line := by
  unfold classify at h
  split at h
  · cases h
  have hkinds : ∀ p ∈ Pattern.louder ++ [Pattern.plain], p.kind ≠ .compatConnection := by decide
  have hsplit : Pattern.standard = (Pattern.louder ++ [Pattern.plain]) ++ [Pattern.compat] := rfl
  rw [hsplit] at h
  obtain ⟨habsent, h⟩ := absent_of_firstMatch (m := ⟨.compatConnection, name⟩) hkinds h
  refine ⟨fun p hp => habsent p (List.mem_append_left _ hp), ?_⟩
  cases ha : Text.after? Pattern.compat.marker line with
  | none =>
    simp only [firstMatch, ha] at h
    cases h
  | some rest =>
    cases hb : Text.beforeAny? Pattern.compat.terminators rest with
    | none =>
      simp only [firstMatch, ha, hb] at h
      cases h
    | some found =>
      rw [firstMatch_of_marked ha hb] at h
      cases h
      obtain ⟨hq, hp⟩ := beforeAny?_quote_iff.mp hb
      refine ⟨hq, ?_⟩
      have hrest : Pattern.compat.marker ++ rest <:+: line := (Text.after?_eq_some ha).isInfix
      rw [List.append_assoc]
      exact ((List.prefix_append_right_inj _).mpr hp).isInfix.trans hrest

theorem classify_plainCall {name : Text} (hq : quoteMark ∉ name)
    (habsent : ∀ p ∈ Pattern.louder, ¬ p.marker <:+: name ++ [quoteMark]) :
    classify Pattern.standard (plainCall name) = .ok ⟨.connection, name⟩ := by
  have hmarkers : ∀ p ∈ Pattern.louder,
      quoteMark ∉ p.marker.dropLast ∧ ¬ p.marker <:+: text "->connect(" ++ [quoteMark] := by decide
  have hcall : plainCall name = text "->connect(" ++ quoteMark :: (name ++ [quoteMark]) := by
    change text "->connect(" ++ [quoteMark] ++ name ++ [quoteMark] = _
    simp
  have hlouder : ∀ p ∈ Pattern.louder, ¬ p.marker <:+: plainCall name := by
    intro p hp h
    rw [hcall] at h
    rcases Text.infix_append_cons (hmarkers p hp).1 h with h | h
    · exact (hmarkers p hp).2 h
    · exact habsent p hp h
  have hcomment : isComment (plainCall name) = false := rfl
  have hafter : Text.after? Pattern.plain.marker (plainCall name) = some (name ++ text "\"") := by
    rw [plainCall, List.append_assoc]
    exact Text.after?_append ..
  have hname : Text.beforeAny? Pattern.plain.terminators (name ++ text "\"") = some name :=
    beforeAny?_quote_iff.mpr ⟨hq, List.prefix_rfl⟩
  rw [classify, hcomment, Pattern.standard_eq, firstMatch_of_absent hlouder, firstMatch_of_marked hafter hname]
  rfl

/-- A match with a compat connection taken as a plain one. -/
def Match.folded (m : Match) : Match := if m.kind = .compatConnection then ⟨.connection, m.name⟩ else m

/-- A line with its compat connection, if it has one, written as a plain one. -/
def plainLine (line : Text) : Text :=
  match classify Pattern.standard line with
  | .ok m => if m.kind = .compatConnection then plainCall m.name else line
  | .error _ => line

theorem plainLine_cases (line : Text) : plainLine line = line ∨
    ∃ name, classify Pattern.standard line = .ok ⟨.compatConnection, name⟩ ∧ plainLine line = plainCall name := by
  unfold plainLine
  split
  · next m hm =>
    split
    · next hk => exact .inr ⟨m.name, hk ▸ hm, rfl⟩
    · exact .inl rfl
  · exact .inl rfl

theorem classify_plainLine {line : Text} {m : Match} (h : classify Pattern.standard line = .ok m) :
    classify Pattern.standard (plainLine line) = .ok m.folded := by
  unfold plainLine Match.folded
  rw [h]
  dsimp only
  split
  · next hk =>
    obtain ⟨kind, name⟩ := m
    cases hk
    obtain ⟨habsent, hq, hline⟩ := classify_compat h
    refine classify_plainCall hq fun p hp hname => habsent p hp (hname.trans ?_)
    rw [List.append_assoc] at hline
    exact (List.suffix_append ..).isInfix.trans hline
  · exact h

theorem length_plainLine_le (line : Text) : (plainLine line).length ≤ line.length := by
  rcases plainLine_cases line with h | ⟨name, hc, h⟩
  · rw [h]
  · have hlength := (classify_compat hc).2.2.length_le
    have hcompat : Pattern.compat.marker.length = 16 := by decide
    have hplain : (text "->connect(\"").length = 11 ∧ (text "\"").length = 1 := by decide
    rw [h, plainCall]
    simp only [List.length_append, List.length_singleton] at hlength ⊢
    omega

/-- A raw line with its compat connection written as a plain one; its carriage return stays. -/
def plainRaw (raw : Text) : Text := plainLine (dropReturn raw) ++ raw.drop (dropReturn raw).length

theorem dropReturn_concat (line : Text) : dropReturn (line ++ [0x0D]) = line := by
  simp [dropReturn]

theorem dropReturn_cases (raw : Text) :
    raw = dropReturn raw ++ [0x0D] ∨ dropReturn raw = raw ∧ raw.getLast? ≠ some 0x0D := by
  unfold dropReturn
  split
  · next h => exact .inl (List.dropLast_append_getLast? _ h).symm
  · next h => exact .inr ⟨rfl, h⟩

theorem dropReturn_plainRaw (raw : Text) : dropReturn (plainRaw raw) = plainLine (dropReturn raw) := by
  rcases dropReturn_cases raw with h | ⟨h, hlast⟩
  · have hreturn : raw.drop (dropReturn raw).length = [0x0D] := by
      rw [h, dropReturn_concat, List.drop_left]
    rw [plainRaw, hreturn, dropReturn_concat]
  · rw [plainRaw, h, List.drop_length, List.append_nil]
    rcases plainLine_cases raw with hp | ⟨name, _, hp⟩
    · rw [hp, h]
    · have hquote : (plainCall name).getLast? ≠ some 0x0D := by
        simp [plainCall, show text "\"" = [quoteMark] from rfl, quoteMark]
      rw [hp, dropReturn, if_neg hquote]

theorem yields_plainRaw {raw : Text} {m : Match} (h : Yields Pattern.standard raw m) :
    Yields Pattern.standard (plainRaw raw) m.folded := by
  refine ⟨?_, ?_⟩
  · have hlength : (plainRaw raw).length ≤ raw.length := by
      have hline := length_plainLine_le (dropReturn raw)
      have hreturn := (Text.dropReturn_isPrefix raw).length_le
      rw [plainRaw, List.length_append, List.length_drop]
      omega
    have hshort := h.1
    simp only [Text.isOverlong, decide_eq_false_iff_not] at hshort ⊢
    omega
  · rw [dropReturn_plainRaw]
    exact classify_plainLine h.2

theorem plainRaw_eq_nil_iff (raw : Text) : plainRaw raw = [] ↔ raw = [] := by
  constructor
  · intro h
    obtain ⟨hline, hreturn⟩ := List.append_eq_nil_iff.mp h
    rcases plainLine_cases (dropReturn raw) with hp | ⟨name, _, hp⟩
    · have hsplit : dropReturn raw ++ raw.drop (dropReturn raw).length = raw :=
        List.prefix_iff_eq_append.mp (Text.dropReturn_isPrefix raw)
      rw [hp] at hline
      rw [← hsplit, hreturn, hline]
      rfl
    · rw [hp] at hline
      cases hline
  · rintro rfl
    rfl

theorem newline_not_mem_plainRaw {raw : Text} (h : newline ∉ raw) : newline ∉ plainRaw raw := by
  have hline : newline ∉ dropReturn raw := fun hn => h ((Text.dropReturn_isPrefix raw).subset hn)
  have hreturn : newline ∉ raw.drop (dropReturn raw).length := fun hn => h (List.mem_of_mem_drop hn)
  rw [plainRaw, List.mem_append, not_or]
  refine ⟨?_, hreturn⟩
  rcases plainLine_cases (dropReturn raw) with hp | ⟨name, hc, hp⟩
  · rwa [hp]
  · have hname : newline ∉ name := fun hn => hline ((classify_name_isInfix hc).subset hn)
    have hmarks : newline ∉ text "->connect(\"" ∧ newline ∉ text "\"" := by decide
    rw [hp, plainCall]
    simp [hname, hmarks]

/-- A file in which every compat connection is written as a plain one. -/
def plainContent (content : ByteArray) : ByteArray :=
  ⟨([newline].intercalate ((content.data.toList.splitOn newline).map plainRaw)).toArray⟩

theorem rawLines_plainContent (content : ByteArray) :
    Text.rawLines (plainContent content) = (Text.rawLines content).map plainRaw := by
  have hpieces : ∀ piece ∈ (content.data.toList.splitOn newline).map plainRaw, newline ∉ piece := by
    intro piece hp
    obtain ⟨raw, hraw, rfl⟩ := List.mem_map.mp hp
    exact newline_not_mem_plainRaw (Text.sep_not_mem_of_mem_splitOn hraw)
  have hsplit := List.splitOn_intercalate newline hpieces (by simp)
  have hcontent : Text.rawLines content = content.data.toList.foldr Text.addByte [] :=
    (Array.foldr_toList ..).symm
  rw [plainContent, Text.rawLines_ofText, hcontent, Text.foldr_addByte_eq_endedPieces,
    Text.foldr_addByte_eq_endedPieces, hsplit, Text.endedPieces_map plainRaw_eq_nil_iff]

/-- The matches of some files, and of the same files with plain connections. -/
theorem exists_yields_plainContent {files : List ByteArray}
    (readable : ∀ content ∈ files, ∀ raw ∈ Text.rawLines content, ∃ m, Yields Pattern.standard raw m) (m : Match) :
    (∃ content ∈ files.map plainContent, ∃ raw ∈ Text.rawLines content, Yields Pattern.standard raw m) ↔
      ∃ content ∈ files, ∃ raw ∈ Text.rawLines content, ∃ x, Yields Pattern.standard raw x ∧ x.folded = m := by
  constructor
  · rintro ⟨_, hplain, _, hline, hm⟩
    obtain ⟨content, hc, rfl⟩ := List.mem_map.mp hplain
    rw [rawLines_plainContent] at hline
    obtain ⟨raw, hraw, rfl⟩ := List.mem_map.mp hline
    obtain ⟨x, hx⟩ := readable content hc raw hraw
    exact ⟨content, hc, raw, hraw, x, hx, (yields_plainRaw hx).unique hm⟩
  · rintro ⟨content, hc, raw, hraw, x, hx, rfl⟩
    refine ⟨_, List.mem_map_of_mem hc, plainRaw raw, ?_, yields_plainRaw hx⟩
    rw [rawLines_plainContent]
    exact List.mem_map_of_mem hraw

theorem Match.folded_eq_iff {m : Match} {k : Kind} {name : Text} : m.folded = ⟨k, name⟩ ↔
    m = ⟨k, name⟩ ∧ k ≠ .compatConnection ∨ m = ⟨.compatConnection, name⟩ ∧ k = .connection := by
  obtain ⟨kind, found⟩ := m
  unfold folded
  split <;> grind

namespace Usage

/-- Usage of the same signals, with the compat connections among the connections. -/
structure FoldsTo (u v : Usage) : Prop where
  declared : v.declared = u.declared
  emitted : v.emitted = u.emitted
  connected : v.connected = u.connected ∪ u.compatConnected
  compatConnected : v.compatConnected = ∅

theorem foldsTo_of_gathers {A B : Match → Prop} {u v : Usage} (hA : Gathers A 0 {} u) (hB : Gathers B 0 {} v)
    (hsame : ∀ m, B m ↔ ∃ x, A x ∧ x.folded = m) : FoldsTo u v := by
  have hu : ∀ k, k.Kept → ∀ name, name ∈ u.names k ↔ A ⟨k, name⟩ := by
    intro k hk name
    rw [hA.names k hk name, or_iff_right (not_mem_names_empty k name)]
  have hv : ∀ k, k.Kept → ∀ name, name ∈ v.names k ↔
      A ⟨k, name⟩ ∧ k ≠ .compatConnection ∨ A ⟨.compatConnection, name⟩ ∧ k = .connection := by
    intro k hk name
    rw [hB.names k hk name, or_iff_right (not_mem_names_empty k name), hsame]
    simp only [Match.folded_eq_iff]
    grind
  have hdeclared : ∀ name, name ∈ u.declared ↔ A ⟨.declaration, name⟩ := hu .declaration ⟨nofun, nofun⟩
  have hemitted : ∀ name, name ∈ u.emitted ↔ A ⟨.emission, name⟩ := hu .emission ⟨nofun, nofun⟩
  have hconnected : ∀ name, name ∈ u.connected ↔ A ⟨.connection, name⟩ := hu .connection ⟨nofun, nofun⟩
  have hcompat : ∀ name, name ∈ u.compatConnected ↔ A ⟨.compatConnection, name⟩ :=
    hu .compatConnection ⟨nofun, nofun⟩
  refine ⟨NameSet.ext fun name => ?_, NameSet.ext fun name => ?_, NameSet.ext fun name => ?_,
    NameSet.ext fun name => ?_⟩
  · exact (hv .declaration ⟨nofun, nofun⟩ name).trans (by simp [hdeclared])
  · exact (hv .emission ⟨nofun, nofun⟩ name).trans (by simp [hemitted])
  · exact (hv .connection ⟨nofun, nofun⟩ name).trans (by simp [hconnected, hcompat])
  · exact (hv .compatConnection ⟨nofun, nofun⟩ name).trans (by simp)

end Usage

theorem Report.build_of_foldsTo {u v : Usage} (h : u.FoldsTo v) (o : ReportOptions) :
    build u { o with includeCompat := true } = build v { o with includeCompat := false } := by
  have hconnections : connections u { o with includeCompat := true } = connections v { o with includeCompat := false } :=
    h.connected.symm
  have hignored : v.compatConnected.size = 0 := by
    rw [h.compatConnected]
    rfl
  unfold build
  rw [hconnections, h.declared, h.emitted, hignored]
  rfl

/-- Files whose lines can all be classified, and the same files with every compat connection written as a plain one:
the second are classified to their end too, and the report that counts the compat connections of the first is the one
that leaves out those of the second, of which there are none. -/
theorem addContents_folds_compat {files : List ByteArray}
    (readable : ∀ content ∈ files, ∀ raw ∈ Text.rawLines content, ∃ m, Yields Pattern.standard raw m) :
    ∃ u v, Usage.addContents Pattern.standard files {} = (u, none) ∧
      Usage.addContents Pattern.standard (files.map plainContent) {} = (v, none) ∧
      ∀ o : ReportOptions,
        let counted := Report.build u { o with includeCompat := true }
        let plain := Report.build v { o with includeCompat := false }
        counted.groups = plain.groups ∧ counted.total = plain.total ∧
          counted.ignoredCompat = 0 ∧ plain.ignoredCompat = 0 ∧ counted.render = plain.render := by
  have hsame := exists_yields_plainContent readable
  have hplain : ∀ content ∈ files.map plainContent, ∀ raw ∈ Text.rawLines content,
      ∃ m, Yields Pattern.standard raw m := by
    intro content hc raw hraw
    obtain ⟨original, ho, rfl⟩ := List.mem_map.mp hc
    rw [rawLines_plainContent] at hraw
    obtain ⟨line, hline, rfl⟩ := List.mem_map.mp hraw
    obtain ⟨m, hm⟩ := readable original ho line hline
    exact ⟨m.folded, yields_plainRaw hm⟩
  obtain ⟨u, hu, gathersU⟩ := Usage.addContents_gathers readable {}
  obtain ⟨v, hv, gathersV⟩ := Usage.addContents_gathers hplain {}
  have hfolds : u.FoldsTo v := by
    apply Usage.foldsTo_of_gathers gathersU gathersV
    intro m
    rw [hsame]
    grind
  refine ⟨u, v, hu, hv, fun o => ?_⟩
  have hbuild := Report.build_of_foldsTo hfolds o
  refine ⟨congrArg Report.groups hbuild, congrArg Report.total hbuild, rfl, ?_, congrArg Report.render hbuild⟩
  rw [← hbuild]
  rfl

/-- Compat connections, one before a carriage return, and one with a name that looks like something else. -/
def legacy : List ByteArray := [
  ⟨(text "ADD_SIGNAL(MethodInfo(\"done\"));\nx.connect_compat(\"done\", y);\r\nemit_signal(\"done\");").toArray⟩,
  ⟨(text "x.connect_compat(\"->connect(emit_signal(x\", y);\n\n").toArray⟩]

theorem legacy_folded :
    legacy.map (fun content => (plainContent content).data.toList) = [
      text "ADD_SIGNAL(MethodInfo(\"done\"));\n->connect(\"done\"\r\nemit_signal(\"done\");",
      text "->connect(\"->connect(emit_signal(x\"\n\n"] ∧
    ∃ u v, Usage.addContents Pattern.standard legacy {} = (u, none) ∧
      Usage.addContents Pattern.standard (legacy.map plainContent) {} = (v, none) ∧
      (Report.build u ⟨true, true, false⟩).render = (Report.build v ⟨false, true, false⟩).render := by
  have readable : ∀ content ∈ legacy, ∀ raw ∈ Text.rawLines content, ∃ m, Yields Pattern.standard raw m := by
    have hall : ∀ content ∈ legacy,
        (classifyContent Pattern.standard (fun _ found (u : Usage) => u.add found) content {}).2 = none := by
      decide +kernel
    exact fun content hc => classifyLines_eq_none_iff.mp (hall content hc)
  obtain ⟨u, v, hu, hv, hreports⟩ := addContents_folds_compat readable
  exact ⟨by decide +kernel, u, v, hu, hv, (hreports ⟨false, true, false⟩).2.2.2.2⟩

end SignalAudit
