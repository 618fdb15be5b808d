import SignalAudit.Proofs.CycleSafety
import SignalAudit.Proofs.Itinerary

/-!
A visit that fails cuts a walk where it is. What counts is only which call fails: up to that call the walk goes as a
walk whose visits never fail, and after it there is no other call. The failure is told once, however deep the walk was.
-/

namespace SignalAudit

namespace Walk

variable {σ τ ε : Type}

/-- The visits from a state fail at the call of this number, and at none before, whatever paths they are called with. -/
def FailsAtCall (w : Walk σ ε) (state : σ) (k : Nat) : Prop :=
  ∀ paths, (w.visitAll paths state).2 = none ↔ paths.length < k

/-- Where a walk goes is up to its tree and its filter. -/
theorem survey_congr {w : Walk σ ε} {v : Walk τ ε} (fs : v.fs = w.fs) (filter : v.filter = w.filter) :
    v.survey = w.survey := by
  unfold survey
  rw [fs, filter]

theorem itinerary_congr {w : Walk σ ε} {v : Walk τ ε} (fs : v.fs = w.fs) (filter : v.filter = w.filter)
    (root : Text) : v.itinerary root = w.itinerary root := by
  unfold itinerary
  rw [survey_congr fs filter]

section Cut

variable {w : Walk σ ε} {state : σ} {k : Nat} {before : List Text} {path : Text}

/-- The call that fails, after as many as come before it. -/
theorem FailsAtCall.exists_failure (fails : w.FailsAtCall state k) (hk : before.length + 1 = k) (path : Text) :
    ∃ mid s cause, w.visitAll before state = (mid, none) ∧ w.visit path mid = (s, some cause) := by
  have hbefore : (w.visitAll before state).2 = none := (fails before).mpr (by omega)
  have hcut : (w.visitAll (before ++ [path]) state).2 ≠ none := by
    intro hnone
    have hlt := (fails _).mp hnone
    rw [List.length_append, List.length_singleton] at hlt
    omega
  have hall : w.visitAll before state = ((w.visitAll before state).1, none) := Prod.ext rfl hbefore
  rw [visitAll_append, hall] at hcut
  rcases hv : w.visit path (w.visitAll before state).1 with ⟨s, _ | cause⟩
  · simp [visitAll, hv] at hcut
  · exact ⟨_, s, cause, hall, hv⟩

/-- Fewer calls than that all succeed, so the walk goes along its whole itinerary. -/
theorem FailsAtCall.run_of_few (fails : w.FailsAtCall state k) {root : Text} (few : (w.itinerary root).length < k) :
    w.calls root state = w.itinerary root ∧
      (w.run root state).1.listings = (w.survey.run root []).1.listings ∧
      (w.run root state).2 = (w.survey.run root []).2 := by
  have hnone := (fails (w.itinerary root)).mpr few
  have hrun := w.run_eq_visitAll root state
  refine ⟨by rw [calls_eq_called, called_of_visitAll hnone], ?_⟩
  generalize w.visitAll (w.itinerary root) state = visited at hrun hnone
  obtain ⟨s, _ | e⟩ := visited
  · dsimp only at hrun
    rw [hrun]
    exact ⟨rfl, rfl⟩
  · cases hnone

end Cut

/-- A walk of which one visit fails, the `k`-th that it makes, beside one of the same tree whose visits never fail. If
the latter makes so many visits, the walk makes the first `k` of them and ends with the failure of the last, whose
message names its path once. If not, the two do the same. -/
theorem run_cut_at_call (w : Walk σ ε) {v : Walk τ ε} (fs : v.fs = w.fs) (filter : v.filter = w.filter)
    (never : ∀ path s, (v.visit path s).2 = none) (root : Text) (start : τ) {state : σ} {k : Nat}
    (fails : w.FailsAtCall state k) :
    (k ≤ (v.calls root start).length → ∃ path s cause, (v.calls root start)[k - 1]? = some path ∧
      w.visit path (w.visitAll ((v.calls root start).take (k - 1)) state).1 = (s, some cause) ∧
      w.calls root state = (v.calls root start).take k ∧ (w.run root state).1.state = s ∧
      (w.run root state).2 = some (.visit path cause) ∧
      ∀ describe, (WalkError.visit path cause).message describe =
        text "failed to walk directory: " ++ path ++ text ": " ++ describe cause) ∧
    ((v.calls root start).length < k → w.calls root state = v.calls root start ∧
      (w.run root state).1.listings = (v.run root start).1.listings ∧
      (w.run root state).2 = (v.run root start).2) := by
  obtain ⟨hlistings, hends, hcalls⟩ := run_of_never_fails never root start
  rw [hcalls, hlistings, hends, survey_congr fs filter, itinerary_congr fs filter]
  refine ⟨?_, fails.run_of_few⟩
  intro hk
  have hpos : 0 < k := (fails []).mp rfl
  have hlt : k - 1 < (w.itinerary root).length := by omega
  -- The itinerary, cut before the call that fails.
  have route : w.itinerary root = (w.itinerary root).take (k - 1) ++ (w.itinerary root)[k - 1] ::
      (w.itinerary root).drop (k - 1 + 1) := by
    rw [← List.drop_eq_getElem_cons hlt, List.take_append_drop]
  have hlen : ((w.itinerary root).take (k - 1)).length + 1 = k := by
    rw [List.length_take]
    omega
  obtain ⟨mid, s, cause, succeeded, failed⟩ := fails.exists_failure hlen ((w.itinerary root)[k - 1])
  obtain ⟨hstate, herror⟩ := run_of_failed route succeeded failed
  refine ⟨_, s, cause, List.getElem?_eq_getElem hlt, ?_, ?_, hstate, herror, ?_⟩
  · rw [succeeded]
    exact failed
  · have htake : (w.itinerary root).take k = (w.itinerary root).take (k - 1) ++ [(w.itinerary root)[k - 1]] := by
      rw [List.take_append_getElem hlt, Nat.sub_add_cancel hpos]
    rw [calls_eq_called, htake]
    have hcalled := called_of_failed succeeded failed ((w.itinerary root).drop (k - 1 + 1))
    rwa [← route] at hcalled
  · intro describe
    simp [WalkError.message]

/-- A walk that counts its visits, and whose `k`-th fails. -/
def failingAt (fs : FileSystem) (filter : SourceFilter) (k : Nat) (cause : ε) : Walk Nat ε :=
  ⟨fs, filter, fun _ n => (n + 1, if n + 1 = k then some cause else none)⟩

theorem visitAll_failingAt {fs : FileSystem} {filter : SourceFilter} {k n : Nat} (cause : ε) (hn : n < k)
    (paths : List Text) :
    ((failingAt fs filter k cause).visitAll paths n).2 = none ↔ n + paths.length < k := by
  induction paths generalizing n with
  | nil => simpa [visitAll] using hn
  | cons path rest ih =>
    by_cases hk : n + 1 = k
    · have hv : (failingAt fs filter k cause).visit path n = (n + 1, some cause) := by simp [failingAt, hk]
      rw [visitAll, hv, List.length_cons]
      constructor
      · intro h
        cases h
      · intro h
        omega
    · have hv : (failingAt fs filter k cause).visit path n = (n + 1, none) := by simp [failingAt, hk]
      rw [visitAll, hv, List.length_cons]
      dsimp only
      rw [ih (by omega)]
      omega

theorem failingAt_failsAtCall (fs : FileSystem) (filter : SourceFilter) {k : Nat} (hk : 0 < k) (cause : ε) :
    (failingAt fs filter k cause).FailsAtCall 0 k := by
  intro paths
  rw [visitAll_failingAt cause hk, Nat.zero_add]

/-- The third visit is in a directory behind a link. -/
theorem looping_cut_at_third : (failingAt looped .standard 3 ()).FailsAtCall 0 3 ∧
    looping.calls (text "/r") [] = [text "/r/a.cpp", text "/r/c.cpp", text "/r/lib/b.h"] ∧
    ((failingAt looped .standard 3 ()).run (text "/r") 0).2 = some (.visit (text "/r/lib/b.h") ()) ∧
    (failingAt looped .standard 2 ()).calls (text "/r") 0 = [text "/r/a.cpp", text "/r/c.cpp"] ∧
    ((failingAt looped .standard 4 ()).run (text "/r") 0).2 = none := by
  have hcalls : looping.calls (text "/r") [] = [text "/r/a.cpp", text "/r/c.cpp", text "/r/lib/b.h"] := by
    decide +kernel
  have hends : (looping.run (text "/r") []).2 = none := by decide +kernel
  have fails : ∀ k, 0 < k → (failingAt looped .standard k ()).FailsAtCall 0 k := fun k hk =>
    failingAt_failsAtCall looped .standard hk ()
  have hcut : ∀ k, (hk : 0 < k) → _ := fun k hk =>
    run_cut_at_call (failingAt looped .standard k ()) (v := looping) rfl rfl (fun _ _ => rfl) (text "/r") []
      (fails k hk)
  simp only [hcalls, hends] at hcut
  obtain ⟨path, _, _, hpath, _, _, _, hthird, _⟩ := (hcut 3 (by decide)).1 (by decide)
  obtain ⟨_, _, _, _, _, hsecond, _⟩ := (hcut 2 (by decide)).1 (by decide)
  obtain rfl := Option.some.inj hpath
  exact ⟨fails 3 (by decide), hcalls, hthird, hsecond, ((hcut 4 (by decide)).2 (by decide)).2.2⟩

end Walk

end SignalAudit
