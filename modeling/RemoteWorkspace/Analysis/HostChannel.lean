import Mathlib.Data.List.Basic
import RemoteWorkspace.Model.PtcHost

/-!
# Who answers the program host

The host keeps no reference to what the bootstrap has published. What it reaches is whatever the
global object has under the name at that moment, so a program that assigns to one of the three
names takes the place of the frame handler, of the close handler or of the root promise. Only as
long as the published value stands at each look-up do all frames and notices reach the bootstrap,
and only then do the program's assignments make no difference.
-/

set_option autoImplicit false

namespace RemoteWorkspace.Analysis.HostChannel

open RemoteWorkspace.Computation RemoteWorkspace.Model RemoteWorkspace.Model.PtcHost

variable {fits : String → Bool} {s t u : State} {e : Event}

/-- The bootstrap's own answer to what the host asks for. -/
def own : Asked → Reached
  | .test => .tested .root
  | .deliver text => .called .onFrame (some text)
  | .close => .called .onClose none

/-- All that the host has asked for has reached the bootstrap. -/
def Held (s : State) : Prop := s.reached = s.asked.map own

/-- The name that the host looks up. -/
def lookUp : Asked → Name
  | .test => .root
  | .deliver _ => .onFrame
  | .close => .onClose

/-- What the host asks for in a step. -/
def asks (fits : String → Bool) : Event → Option Asked
  | .test => some .test
  | .frame text _ => if fits text then some (.deliver text) else none
  | .close _ => some .close
  | _ => none

/-- The global object has under a name what the bootstrap has published. -/
def Stands (s : State) (name : Name) : Prop :=
  Property.get (s.global name) = some (published name)

/-- The name that the host looks up in a step still stands. -/
def Untouched (fits : String → Bool) (s : State) (e : Event) : Prop :=
  ∀ a ∈ asks fits e, Stands s (lookUp a)

/-! ### One step -/

/-- What the host reaches, by the value that it finds. -/
def reach : Option Value → Asked → List Reached
  | some (.promise p), .test => [.tested p]
  | some (.function f), .deliver text => [.called f (some text)]
  | some (.function f), .close => [.called f none]
  | _, _ => []

/-- The bootstrap is reached through the value that it has published, and no other. -/
theorem reach_eq_own_iff (value : Option Value) (a : Asked) :
    reach value a = [own a] ↔ value = some (published (lookUp a)) := by
  constructor
  · intro h
    unfold reach at h
    split at h <;> cases h <;> rfl
  · rintro rfl
    cases a <;> rfl

/-- The call of a handler reaches it. -/
theorem reached_called (s : State) (name : Name) (f : JsFunction) (text thrown : Option String) :
    (called s name f text thrown).reached = s.reached ++ [.called f text] := by
  unfold called
  split <;> rfl

/-- The call of a handler asks for nothing more. -/
theorem asked_called (s : State) (name : Name) (f : JsFunction) (text thrown : Option String) :
    (called s name f text thrown).asked = s.asked := by
  unfold called
  split <;> rfl

/-- A failure asks for nothing and reaches nothing. -/
theorem fail_asks (s : State) (message : String) :
    (s.fail message).asked = s.asked ∧ (s.fail message).reached = s.reached :=
  ⟨rfl, rfl⟩

/-- A test asks for the root promise. -/
theorem asked_test (s : State) : (test s).asked = s.asked ++ [.test] ∧
    (test s).reached = s.reached ++ reach (Property.get (s.global .root)) .test := by
  unfold test pending
  cases hget : Property.get (s.global .root) with
  | none => simp [reach, fail_asks]
  | some value =>
    cases value with
    | promise p => cases hsettled : s.settled p <;> simp [reach, hsettled]
    | _ => simp [reach, fail_asks]

/-- A frame that fits asks for the frame handler. -/
theorem asked_deliver (s : State) (text : String) (thrown : Option String) :
    (deliver fits text thrown s).asked = s.asked ++ (asks fits (.frame text thrown)).toList ∧
      (deliver fits text thrown s).reached = s.reached ++
        (asks fits (.frame text thrown)).toList.flatMap
          (reach (Property.get (s.global .onFrame))) := by
  unfold deliver globalFunction
  cases hfits : fits text <;> cases hget : Property.get (s.global .onFrame) with
  | none => simp [asks, hfits, reach, fail_asks]
  | some value =>
    cases value <;> simp [asks, hfits, reach, fail_asks, asked_called, reached_called]

/-- The end of the channel asks for the close handler. -/
theorem asked_close (s : State) (thrown : Option String) :
    (close thrown s).asked = s.asked ++ [.close] ∧
      (close thrown s).reached = s.reached ++ reach (Property.get (s.global .onClose)) .close := by
  unfold close globalFunction
  cases hget : Property.get (s.global .onClose) with
  | none => simp [reach, fail_asks]
  | some value =>
    cases value with
    | function f => cases thrown <;> simp [reach, asked_called, reached_called]
    | _ => simp [reach, fail_asks]

/-- What a step asks for and what it reaches. -/
theorem step_asks (hstep : step fits s e = some t) :
    t.asked = s.asked ++ (asks fits e).toList ∧
      t.reached = s.reached ++ (asks fits e).toList.flatMap
        fun a => reach (Property.get (s.global (lookUp a))) a := by
  obtain ⟨-, hstep⟩ := Option.ite_none_left_eq_some.mp hstep
  cases e with
  | test =>
    obtain ⟨-, ht⟩ := Option.ite_none_left_eq_some.mp hstep
    cases ht
    simpa [asks, lookUp] using asked_test s
  | frame text thrown =>
    obtain ⟨-, ht⟩ := Option.ite_none_right_eq_some.mp hstep
    cases ht
    refine (asked_deliver s text thrown).imp id fun hreached => ?_
    rw [hreached, asks]
    split <;> rfl
  | close thrown =>
    obtain ⟨-, ht⟩ := Option.ite_none_right_eq_some.mp hstep
    cases ht
    simpa [asks, lookUp] using asked_close s thrown
  | readError detail =>
    obtain ⟨-, ht⟩ := Option.ite_none_right_eq_some.mp hstep
    cases ht
    exact ⟨(List.append_nil _).symm, (List.append_nil _).symm⟩
  | _ =>
    cases hstep
    exact ⟨(List.append_nil _).symm, (List.append_nil _).symm⟩

/-- A step reaches the bootstrap exactly when the name that it looks up stands. -/
theorem held_step_iff (h : Held s) (hstep : step fits s e = some t) :
    Held t ↔ Untouched fits s e := by
  obtain ⟨hasked, hreached⟩ := step_asks hstep
  rw [Held, hasked, hreached, List.map_append, h, List.append_cancel_left_eq]
  cases hasks : asks fits e with
  | none => simp [Untouched, hasks]
  | some a =>
    have hone := reach_eq_own_iff (Property.get (s.global (lookUp a))) a
    simpa [Untouched, hasks, Stands] using hone

/-! ### Two runs -/

/-- Whether an event is not an assignment of the program to one of the names. -/
def isOther : Event → Bool
  | .assign _ _ => false
  | _ => true

/-- Two states that differ in the global object, where the second has what the bootstrap has
published, and in the text of an error. -/
structure Alike (s u : State) : Prop where
  settled : u.settled = s.settled
  tested : u.tested = s.tested
  ended : u.ended.isSome = s.ended.isSome
  reached : u.reached = s.reached
  stands : ∀ name, Stands u name

/-- An assignment leaves the states alike. -/
theorem Alike.assign (h : Alike s u) (hother : isOther e = false)
    (hstep : step fits s e = some t) : Alike t u := by
  obtain ⟨-, hstep⟩ := Option.ite_none_left_eq_some.mp hstep
  cases e with
  | assign name property =>
    cases hstep
    exact { h with }
  | _ => cases hother

/-- A test of the published promise. -/
theorem pending_stands (h : Stands s .root) : pending s = .ok (.root, !s.settled .root) := by
  unfold pending
  rw [h]
  rfl

/-- The function of a name that stands. -/
theorem globalFunction_stands {name : Name} {f : JsFunction} (h : Stands s name)
    (hf : published name = .function f) : globalFunction s name = .ok f := by
  unfold globalFunction
  rw [h, hf]

/-- A failure leaves the states alike, whatever it is. -/
theorem Alike.fail (h : Alike s u) (message message' : String) :
    Alike (s.fail message) (u.fail message') :=
  { h with ended := rfl }

/-- So does the call of the same handler. -/
theorem Alike.called (h : Alike s u) (name : Name) (f : JsFunction) (text thrown : Option String) :
    Alike (called s name f text thrown) (called u name f text thrown) := by
  have hreached : u.reached ++ [Reached.called f text] = s.reached ++ [.called f text] := by
    rw [h.reached]
  unfold PtcHost.called
  cases thrown with
  | none => exact { h with reached := hreached }
  | some detail => exact { h with reached := hreached, ended := rfl }

/-- A test leaves the states alike when the root promise is the published one. -/
theorem Alike.test (h : Alike s u) (hroot : Stands s .root) : Alike (test s) (test u) := by
  have hreached : u.reached ++ [Reached.tested .root] = s.reached ++ [.tested .root] := by
    rw [h.reached]
  have hpending : pending u = .ok (.root, !s.settled .root) := by
    rw [pending_stands (h.stands .root), h.settled]
  unfold PtcHost.test
  rw [pending_stands hroot, hpending]
  cases s.settled .root with
  | false => exact { h with reached := hreached, tested := rfl }
  | true => exact { h with reached := hreached, ended := rfl }

/-- A frame leaves the states alike when the handler that it is for is the published one. -/
theorem Alike.deliver (h : Alike s u) (text : String) (thrown : Option String)
    (hframe : fits text = true → Stands s .onFrame) :
    Alike (deliver fits text thrown s) (deliver fits text thrown u) := by
  have hread (a b : List Asked) : Alike { s with tested := false, asked := a }
      { u with tested := false, asked := b } := { h with tested := rfl }
  unfold PtcHost.deliver
  rw [globalFunction_stands (h.stands .onFrame) rfl]
  cases hfits : fits text with
  | false =>
    cases globalFunction s .onFrame with
    | error message => exact (hread _ _).fail _ _
    | ok f => exact (hread _ _).fail _ _
  | true =>
    rw [globalFunction_stands (hframe hfits) rfl]
    exact (hread _ _).called _ _ _ _

/-- The notice leaves the states alike when the handler that it is for is the published one. -/
theorem Alike.close (h : Alike s u) (thrown : Option String) (hclose : Stands s .onClose) :
    Alike (close thrown s) (close thrown u) := by
  have hread (a b : List Asked) : Alike { s with asked := a } { u with asked := b } := { h with }
  unfold PtcHost.close
  rw [globalFunction_stands (h.stands .onClose) rfl, globalFunction_stands hclose rfl]
  cases thrown with
  | none => exact { (hread _ _).called .onClose .onClose none none with ended := rfl }
  | some detail => exact (hread _ _).called _ _ _ _

/-- Any other event leaves the states alike when the name that is looked up stands. -/
theorem Alike.step (h : Alike s u) (hother : isOther e = true) (huntouched : Untouched fits s e)
    (hstep : step fits s e = some t) : ∃ v, PtcHost.step fits u e = some v ∧ Alike t v := by
  obtain ⟨hended, hstep⟩ := Option.ite_none_left_eq_some.mp hstep
  have hopen : ¬ u.ended.isSome = true := by rwa [h.ended]
  unfold PtcHost.step
  rw [if_neg hopen]
  cases e with
  | assign name property => cases hother
  | settle p =>
    cases hstep
    exact ⟨_, rfl, { h with settled := by rw [h.settled] }⟩
  | test =>
    obtain ⟨htested, ht⟩ := Option.ite_none_left_eq_some.mp hstep
    cases ht
    refine ⟨_, if_neg (by rwa [h.tested]), h.test ?_⟩
    exact huntouched .test rfl
  | frame text thrown =>
    obtain ⟨htested, ht⟩ := Option.ite_none_right_eq_some.mp hstep
    cases ht
    refine ⟨_, if_pos (by rwa [h.tested]), h.deliver text thrown fun hfits => ?_⟩
    exact huntouched (.deliver text) (if_pos hfits)
  | close thrown =>
    obtain ⟨htested, ht⟩ := Option.ite_none_right_eq_some.mp hstep
    cases ht
    refine ⟨_, if_pos (by rwa [h.tested]), h.close thrown ?_⟩
    exact huntouched .close rfl
  | readError detail =>
    obtain ⟨htested, ht⟩ := Option.ite_none_right_eq_some.mp hstep
    cases ht
    exact ⟨_, if_pos (by rwa [h.tested]), h.fail _ _⟩

/-- A run in which every name that is looked up stands reaches what the run without the program's
assignments reaches. -/
theorem runFrom_other {es : List Event} (huntouched : (machine fits).Each (Untouched fits)
    (machine fits).init es) (ht : (machine fits).run es = some t) :
    ∃ v, (machine fits).run (es.filter isOther) = some v ∧ Alike t v := by
  have hinit : Alike (machine fits).init (machine fits).init := ⟨rfl, rfl, rfl, rfl, fun _ => rfl⟩
  exact Machine.unwinding (R := Alike) (fun _ _ _ _ h hother hstep => h.assign hother hstep)
    (fun _ _ _ _ h hother huntouched hstep => h.step hother huntouched hstep)
    hinit huntouched ht

/-- All that the host asks for reaches the bootstrap exactly in the runs where each name still
has the published value when it is looked up; and two such runs that differ in the program's
assignments only reach the same. -/
theorem channel_held_iff (fits : String → Bool) :
    (∀ es, (machine fits).Always Held (machine fits).init es ↔
      (machine fits).Each (Untouched fits) (machine fits).init es) ∧
    ∀ es es' s s', es.filter isOther = es'.filter isOther →
      (machine fits).Each (Untouched fits) (machine fits).init es →
      (machine fits).Each (Untouched fits) (machine fits).init es' →
      (machine fits).run es = some s → (machine fits).run es' = some s' →
      s.reached = s'.reached := by
  constructor
  · intro es
    have hinit : Held (machine fits).init := rfl
    exact Machine.always_iff_each (M := machine fits) (fun _ h => h)
      (fun _ _ _ h huntouched hstep => (held_step_iff h hstep).mpr huntouched)
      (fun _ _ _ h htouched hstep ht => htouched ((held_step_iff h hstep).mp ht)) hinit es
  · intro es es' s s' hsame hes hes' hs hs'
    obtain ⟨v, hv, halike⟩ := runFrom_other hes hs
    obtain ⟨v', hv', halike'⟩ := runFrom_other hes' hs'
    rw [← hsame, hv] at hv'
    obtain rfl := Option.some.inj hv'
    rw [← halike.reached, halike'.reached]

/-! ### A program that takes the channel -/

/-- The program puts a function of its own in the place of the frame handler. -/
def seized : List Event :=
  [.test, .frame "boot" none, .assign .onFrame (some (.data (.function (.other 0)))), .test,
    .frame "reply" none]

/-- The reply is handed to the program's function. -/
theorem seized_reached : ((machine fun _ => true).run seized).map (fun s => s.reached) =
    some [.tested .root, .called .onFrame (some "boot"), .tested .root,
      .called (.other 0) (some "reply")] := by
  decide

/-- So not every run reaches the bootstrap. -/
theorem channel_seized :
    ¬ (machine fun _ => true).Always Held (machine fun _ => true).init seized := by
  intro h
  obtain ⟨t, ht, hreached⟩ := Option.map_eq_some_iff.mp seized_reached
  have hlength := congrArg List.getLast? (h.after ht)
  rw [hreached, List.getLast?_map] at hlength
  obtain ⟨a, -, ha⟩ := Option.map_eq_some_iff.mp hlength.symm
  cases a <;> cases ha

end RemoteWorkspace.Analysis.HostChannel
