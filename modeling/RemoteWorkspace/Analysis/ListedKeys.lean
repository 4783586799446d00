import RemoteWorkspace.Analysis.EndReports
import RemoteWorkspace.Computation.Fallible
import RemoteWorkspace.Model.TerminalReads

/-!
# Keys that are on the list

`keys` looks names up in an object, and an object answers for what it inherits as well as for
its own keys. A name that is neither makes the call reject before anything is written; a name
that is inherited is taken for a key, and what is written for it is the text of a function.
-/

set_option autoImplicit false

namespace RemoteWorkspace.Analysis.ListedKeys

open RemoteWorkspace.Computation RemoteWorkspace.Model RemoteWorkspace.Model.TerminalRegistry
open RemoteWorkspace.Analysis.TerminalRegistry

/-- The names that every object answers for. -/
def inheritedNames : List String := inherited.map Prod.fst

/-- The bytes of listed names, one behind the other. -/
def listedBytes (names : List String) : String := String.join (names.filterMap (keys.lookup ·))

/-- A name off the list makes the call reject and nothing is written; otherwise the bytes of all
names are written to the terminal, if it is open and live, in one write, and they are what the
call reports once they are taken. -/
def AllOrNothing (s : Registry) (id : String) (names : List String) : Prop :=
  ∀ taken,
    ((∃ name ∈ names, name ∉ keyNames) →
      ∃ error, pressKeys s id names taken = ([], .error error)) ∧
    ((∀ name ∈ names, name ∈ keyNames) → ∀ n, write s id = .ok n →
      pressKeys s id names taken = ([(n, listedBytes names)],
        taken.map fun _ => ⟨byteLength (listedBytes names).toList, names.length⟩))

/-! ### Names -/

/-- A list of pairs has a value for its first components. -/
theorem lookup_eq_none_iff {table : List (String × String)} {name : String} :
    table.lookup name = none ↔ name ∉ table.map Prod.fst := by
  induction table with
  | nil => simp
  | cons entry table ih =>
    obtain ⟨key, value⟩ := entry
    rw [List.lookup_cons, List.map_cons, List.mem_cons, not_or, ← ih]
    cases hkey : name == key with
    | true => simp [beq_iff_eq.mp hkey]
    | false => simp [ne_of_beq_false hkey]

/-- The object has no value for a name exactly when it is not listed and not inherited. -/
theorem keySequence_eq_none_iff {name : String} :
    keySequence name = none ↔ name ∉ keyNames ∧ name ∉ inheritedNames := by
  rw [keySequence, Option.or_eq_none_iff, lookup_eq_none_iff, lookup_eq_none_iff]
  rfl

/-- A listed name stands for its own bytes. -/
theorem keySequence_listed {name : String} (h : name ∈ keyNames) :
    keySequence name = keys.lookup name ∧ (keys.lookup name).isSome := by
  obtain ⟨value, hvalue⟩ : ∃ value, keys.lookup name = some value := by
    apply Option.ne_none_iff_exists'.mp
    rw [Ne, lookup_eq_none_iff, not_not]
    exact h
  rw [keySequence, hvalue]
  exact ⟨rfl, rfl⟩

/-! ### A call -/

variable {s : Registry} {id : String} {names : List String} {n : ℕ}

/-- Names that the object has values for. -/
theorem keyBytes_known (h : ∀ name ∈ names, keySequence name ≠ none) :
    keyBytes names = .ok (String.join (names.filterMap keySequence)) := by
  unfold keyBytes
  rw [mapM_eq_ok_filterMap (g := keySequence), except_ok_bind]
  · rfl
  · intro name hname
    obtain ⟨sequence, hsequence⟩ := Option.ne_none_iff_exists'.mp (h name hname)
    exact ⟨sequence, hsequence, by rw [hsequence]⟩

/-- A name that it has no value for. -/
theorem keyBytes_unknown {name : String} (hname : name ∈ names) (h : keySequence name = none) :
    ∃ error, keyBytes names = .error error := by
  unfold keyBytes
  refine bind_error_of _ (mapM_eq_error hname ?_)
  rw [h]
  exact ⟨_, rfl⟩

/-- A call resolves its names once it has a live terminal. -/
theorem sendKeys_eq (s : Registry) (id : String) (names : List String) :
    sendKeys s id names = write s id >>= fun n => (keyBytes names).map fun bytes => (n, bytes) := by
  unfold sendKeys write
  cases entryOf s id with
  | error error => rfl
  | ok n =>
    rw [except_ok_bind, except_ok_bind]
    cases requireLive s n with
    | error error => rfl
    | ok n =>
      rw [except_ok_bind, except_ok_bind]
      cases keyBytes names <;> rfl

/-- Without a live terminal a call rejects and writes nothing. -/
theorem pressKeys_dead (h : ¬ ∃ n, write s id = .ok n) (taken : Except String Unit) :
    ∃ error, pressKeys s id names taken = ([], .error error) := by
  cases hwrite : write s id with
  | error error =>
    refine ⟨error, ?_⟩
    rw [pressKeys, sendKeys_eq, hwrite]
    rfl
  | ok n => exact absurd ⟨n, hwrite⟩ h

/-- A name without a value makes a call reject before it writes. -/
theorem pressKeys_unknown {name : String} (hname : name ∈ names) (h : keySequence name = none)
    (taken : Except String Unit) : ∃ error, pressKeys s id names taken = ([], .error error) := by
  by_cases hlive : ∃ n, write s id = .ok n
  · obtain ⟨n, hn⟩ := hlive
    obtain ⟨error, herror⟩ := keyBytes_unknown hname h
    refine ⟨error, ?_⟩
    rw [pressKeys, sendKeys_eq, hn, herror]
    rfl
  · exact pressKeys_dead hlive taken

/-- Names that all have values are written in one write and reported. -/
theorem pressKeys_known (h : ∀ name ∈ names, keySequence name ≠ none) (hn : write s id = .ok n)
    (taken : Except String Unit) :
    pressKeys s id names taken = ([(n, String.join (names.filterMap keySequence))],
      taken.map fun _ =>
        ⟨byteLength (String.join (names.filterMap keySequence)).toList, names.length⟩) := by
  rw [pressKeys, sendKeys_eq, hn, keyBytes_known h]
  rfl

/-- Listed names stand for the listed bytes. -/
theorem filterMap_listed (h : ∀ name ∈ names, name ∈ keyNames) :
    names.filterMap keySequence = names.filterMap (keys.lookup ·) :=
  List.filterMap_congr fun name hname => (keySequence_listed (h name hname)).1

/-- A call is all or nothing exactly when, if the terminal is open and live, every name is
listed or some name is neither listed nor inherited. -/
theorem keys_all_or_nothing_iff (s : Registry) (id : String) (names : List String) :
    AllOrNothing s id names ↔ ((∃ n, write s id = .ok n) →
      (∀ name ∈ names, name ∈ keyNames) ∨
        ∃ name ∈ names, name ∉ keyNames ∧ name ∉ inheritedNames) := by
  constructor
  · rintro h ⟨n, hn⟩
    by_contra hneither
    obtain ⟨hunlisted, hknown⟩ := not_or.mp hneither
    push Not at hunlisted hknown
    obtain ⟨error, herror⟩ := (h (.ok ())).1 hunlisted
    have hvalues : ∀ name ∈ names, keySequence name ≠ none := by
      intro name hname hnone
      obtain ⟨hoff, hnot⟩ := keySequence_eq_none_iff.mp hnone
      exact hnot (hknown name hname hoff)
    rw [pressKeys_known hvalues hn] at herror
    cases herror
  · intro h taken
    refine ⟨fun hunlisted => ?_, fun hlisted n hn => ?_⟩
    · by_cases hlive : ∃ n, write s id = .ok n
      · rcases h hlive with hall | ⟨name, hname, hoff⟩
        · obtain ⟨name, hname, hnot⟩ := hunlisted
          exact absurd (hall name hname) hnot
        · exact pressKeys_unknown hname (keySequence_eq_none_iff.mpr hoff) taken
      · exact pressKeys_dead hlive taken
    · rw [listedBytes, ← filterMap_listed hlisted]
      refine pressKeys_known (fun name hname hnone => ?_) hn taken
      exact (keySequence_eq_none_iff.mp hnone).1 (hlisted name hname)

/-- One shell is open. -/
theorem openShell_isSome : ((TerminalRegistry.machine shellOptions).run
    [.open "s1" "/w" 80 24, .spawned 0 4711]).isSome = true := by
  decide +kernel

/-- The registry then. -/
def openShell : Registry :=
  ((TerminalRegistry.machine shellOptions).run [.open "s1" "/w" 80 24, .spawned 0 4711]).get
    openShell_isSome

/-- `toString` is not a key, and the text of a function is written for it. -/
theorem inherited_key_written :
    pressKeys openShell "t1" ["tab", "toString"] (.ok ()) =
        ([(1, "\tfunction toString() \x7b [native code] \x7d")], .ok ⟨38, 2⟩) ∧
      ¬ ∀ s id names, AllOrNothing s id names := by
  have hlive : write openShell "t1" = .ok 1 := by
    have hget : openShell.get "t1" = some 1 := by decide +kernel
    have hstate : (openShell.entries 1).state ≠ .exited := by decide +kernel
    rw [write, entryOf, hget, except_ok_bind, requireLive, if_neg hstate]
  have hvalues : ∀ name ∈ ["tab", "toString"], keySequence name ≠ none := by
    decide +kernel
  have hpressed := pressKeys_known hvalues hlive (.ok ())
  have hbytes : String.join (["tab", "toString"].filterMap keySequence) =
      "\tfunction toString() \x7b [native code] \x7d" := by
    decide +kernel
  have hlength : byteLength "\tfunction toString() \x7b [native code] \x7d".toList = 38 := by
    decide +kernel
  rw [hbytes, hlength] at hpressed
  refine ⟨hpressed, fun h => ?_⟩
  obtain ⟨error, herror⟩ := (h openShell "t1" ["tab", "toString"] (.ok ())).1
    ⟨"toString", by simp, by decide +kernel⟩
  rw [hpressed] at herror
  cases herror

end RemoteWorkspace.Analysis.ListedKeys
