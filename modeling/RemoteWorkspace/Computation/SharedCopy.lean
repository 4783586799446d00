import Mathlib.Data.List.Induction
import Mathlib.Logic.Function.Basic
import RemoteWorkspace.Computation.WriteBack

/-!
# One copy that several memories are written to

Several owners keep a value in a memory of their own and share the copy. An owner fills its
memory from the copy when it likes; a call of an owner computes the next value from the
owner's memory, writes it to the copy, and puts it in that memory when the write has returned.
A write replaces the whole copy with what one owner knew of it.

The value has entries under keys, and a call gives some of them a new entry or none. The
entries that calls gave are kept as long as every write finds the other entries as its call
read them, and no longer (`always_kept_iff`).
-/

set_option autoImplicit false

namespace RemoteWorkspace.Computation

namespace SharedCopy

open WriteBack

variable {ι σ κ ρ K R : Type}

/-! ### Entries under keys -/

/-- The newest element of a list under a key. -/
def newest {α : Type} [DecidableEq K] (ident : α → K) (l : List α) (key : K) : Option α :=
  l.reverse.find? fun x => decide (ident x = key)

section Newest

variable {α : Type} [DecidableEq K] {ident : α → K} {l : List α} {key : K} {x : α}

/-- The newest element under a key is one of the list. -/
theorem mem_of_newest (h : newest ident l key = some x) : x ∈ l :=
  List.mem_reverse.mp (List.mem_of_find?_eq_some h)

/-- The newest element under a key is under that key. -/
theorem ident_of_newest (h : newest ident l key = some x) : ident x = key := by
  simpa using List.find?_some h

/-- After an element is added it is the newest under its key. -/
theorem newest_concat (l : List α) (x : α) (key : K) :
    newest ident (l ++ [x]) key = if ident x = key then some x else newest ident l key := by
  rw [newest, List.reverse_append, List.reverse_singleton, List.singleton_append, List.find?_cons]
  by_cases h : ident x = key
  · simp [h]
  · simp [h, newest]

/-- There is a newest element under the key of each element. -/
theorem newest_isSome (ident : α → K) (h : x ∈ l) : (newest ident l (ident x)).isSome = true := by
  rw [newest, List.find?_isSome]
  exact ⟨x, List.mem_reverse.mpr h, by simp⟩

/-- Elements that change and keep their keys. -/
theorem newest_map {f : α → α} (hf : ∀ y, ident (f y) = ident y) (l : List α) (key : K) :
    newest ident (l.map f) key = (newest ident l key).map f := by
  rw [newest, ← List.map_reverse, List.find?_map, newest]
  congr 1
  apply congrArg (fun test => List.find? test l.reverse)
  funext y
  simp [hf]

/-- The newest elements after those under one key are replaced by another under that key. -/
theorem newest_replace {x y : α} (hy : y ∈ l) (hkey : ident y = ident x) (key : K) :
    newest ident (l.map fun z => if ident z = ident x then x else z) key =
      if ident x = key then some x else newest ident l key := by
  rw [newest_map (fun z => by split <;> simp [*])]
  by_cases h : ident x = key
  · rw [if_pos h]
    have hsome : (newest ident l (ident y)).isSome = true := newest_isSome ident hy
    rw [hkey, h] at hsome
    obtain ⟨z, hz⟩ := Option.isSome_iff_exists.mp hsome
    rw [hz, Option.map_some, if_pos ((ident_of_newest hz).trans h.symm)]
  · rw [if_neg h]
    cases hz : newest ident l key with
    | none => rfl
    | some z =>
      have hident : ident z ≠ ident x := fun heq => h (heq.symm.trans (ident_of_newest hz))
      rw [Option.map_some, if_neg hident]

/-- The newest elements after those under one key are taken away. -/
theorem newest_erase (l : List α) (gone key : K) :
    newest ident (l.filter fun y => decide (ident y ≠ gone)) key =
      if gone = key then none else newest ident l key := by
  rw [newest, ← List.filter_reverse, List.find?_filter]
  by_cases h : gone = key
  · rw [if_pos h, List.find?_eq_none]
    intro y _
    simp only [decide_eq_true_eq, Bool.decide_and, Bool.and_eq_true, not_and]
    exact fun hne heq => hne (heq.trans h.symm)
  · rw [if_neg h, newest]
    congr 1
    funext y
    by_cases hy : ident y = key
    · have hne : key ≠ gone := fun heq => h heq.symm
      simp [hy, hne]
    · simp [hy]

/-- The newest element under a key stays when it is not one of those taken away. -/
theorem newest_filter {test : α → Bool} (h : ∀ y, newest ident l key = some y → test y = true) :
    newest ident (l.filter test) key = newest ident l key := by
  induction l using List.reverseRecOn with
  | nil => rfl
  | append_singleton l z ih =>
    rw [newest_concat] at h ⊢
    by_cases hz : ident z = key
    · rw [if_pos hz] at h ⊢
      rw [List.filter_append, List.filter_singleton, h z rfl, cond_true, newest_concat, if_pos hz]
    · rw [if_neg hz] at h ⊢
      rw [List.filter_append, List.filter_singleton]
      cases test z with
      | true => rw [cond_true, newest_concat, if_neg hz, ih h]
      | false => rw [cond_false, List.append_nil, ih h]

end Newest

/-- How a value is read under keys, and what a call that changes the value it read says of a
key: nothing, or that there is an entry, or that there is none. -/
structure Keyed (effect : κ → σ → Outcome σ ρ) (K R : Type) where
  get : σ → K → Option R
  gives : κ → σ → K → Option (Option R)
  law : ∀ {c : κ} {v : σ} {answer : ρ} {next : σ}, effect c v = .changed answer next →
    ∀ key, get next key = (gives c v key).getD (get v key)

/-! ### Owners and their calls -/

/-- The owners' memories, which are empty at first; the copy; what owners have read from the
copy and not yet put in memory; the calls with their owners; and the calls whose writes have
landed, in this order, with what they read. -/
structure State (ι κ σ : Type) where
  memories : ι → Option σ
  copy : σ
  loads : List (ι × σ)
  calls : List (ι × Pending κ σ)
  log : List (κ × σ)

/-- An owner reads the copy; what one read is put in its memory; an owner's call begins; its
write lands; it fails instead; its value is put in the owner's memory. -/
inductive Event (ι κ : Type) where
  | readCopy (i : ι)
  | loaded (k : ℕ)
  | begin (i : ι) (call : κ)
  | written (k : ℕ)
  | failed (k : ℕ)
  | assigned (k : ℕ)
  deriving DecidableEq

/-- The calls with one of them in another phase. -/
def State.move (s : State ι κ σ) (k : ℕ) (i : ι) (p : Pending κ σ) (phase : Phase) :
    State ι κ σ :=
  { s with calls := s.calls.set k (i, { p with phase := phase }) }

/-- One uninterrupted piece of an owner's work. An owner whose memory is empty makes no call. -/
def step [DecidableEq ι] (effect : κ → σ → Outcome σ ρ) (s : State ι κ σ) :
    Event ι κ → Option (State ι κ σ)
  | .readCopy i => some { s with loads := s.loads ++ [(i, s.copy)] }
  | .loaded k =>
    (s.loads[k]?).map fun load =>
      { s with
        memories := Function.update s.memories load.1 (some load.2)
        loads := s.loads.eraseIdx k }
  | .begin i call =>
    (s.memories i).map fun memory =>
      { s with calls := s.calls ++ [(i, ⟨call, memory, Outcome.phase (effect call memory)⟩)] }
  | .written k =>
    (s.calls[k]?).bind fun p =>
      if p.2.phase = .computed then
        some ({ s with
          copy := p.2.next effect
          log := s.log ++ [(p.2.call, p.2.read)] }.move k p.1 p.2 .written)
      else none
  | .failed k =>
    (s.calls[k]?).bind fun p =>
      if p.2.phase = .computed then some (s.move k p.1 p.2 .failed) else none
  | .assigned k =>
    (s.calls[k]?).bind fun p =>
      if p.2.phase = .written then
        some ({ s with
          memories := Function.update s.memories p.1 (some (p.2.next effect)) }.move k p.1 p.2
            .assigned)
      else none

/-- The owners over a copy with this value. -/
def machine (effect : κ → σ → Outcome σ ρ) (ι : Type) [DecidableEq ι] (v : σ) :
    Machine (State ι κ σ) (Event ι κ) :=
  ⟨⟨fun _ => none, v, [], [], []⟩, step effect⟩

/-! ### What is kept -/

variable {effect : κ → σ → Outcome σ ρ} (keyed : Keyed effect K R)

/-- The copy has, under every key, what the last call that said something of it gave; and what
it had at first under a key of which no call said anything. -/
structure Kept (v : σ) (s : State ι κ σ) : Prop where
  stands : ∀ before c read later key entry, s.log = before ++ (c, read) :: later →
    keyed.gives c read key = some entry → (∀ e ∈ later, keyed.gives e.1 e.2 key = none) →
    keyed.get s.copy key = entry
  first : ∀ key, (∀ e ∈ s.log, keyed.gives e.1 e.2 key = none) →
    keyed.get s.copy key = keyed.get v key

/-- A write finds in the copy, under every key of which its call says nothing, what the call
read there. -/
def Current (s : State ι κ σ) : Event ι κ → Prop
  | .written k => ∀ p ∈ s.calls[k]?, ∀ key, keyed.gives p.2.call p.2.read key = none →
      keyed.get s.copy key = keyed.get p.2.read key
  | _ => True

/-- What is under a key after calls have said what they give. -/
def told (v : σ) (log : List (κ × σ)) (key : K) : Option R :=
  log.foldl (fun entry e => (keyed.gives e.1 e.2 key).getD entry) (keyed.get v key)

variable {keyed} {v : σ} {s t : State ι κ σ} {log : List (κ × σ)} {key : K}

/-- One more call says what it gives. -/
theorem told_concat (log : List (κ × σ)) (e : κ × σ) (key : K) :
    told keyed v (log ++ [e]) key = (keyed.gives e.1 e.2 key).getD (told keyed v log key) := by
  rw [told, List.foldl_append]
  rfl

/-- What calls give under a key: one of them was the last to give something, or none did. -/
theorem told_cases (keyed : Keyed effect K R) (v : σ) (log : List (κ × σ)) (key : K) :
    (∀ e ∈ log, keyed.gives e.1 e.2 key = none) ∧ told keyed v log key = keyed.get v key ∨
      ∃ before c read later entry, log = before ++ (c, read) :: later ∧
        keyed.gives c read key = some entry ∧ (∀ e ∈ later, keyed.gives e.1 e.2 key = none) ∧
        told keyed v log key = entry := by
  induction log using List.reverseRecOn with
  | nil =>
    refine .inl ⟨fun e he => ?_, rfl⟩
    cases he
  | append_singleton log e ih =>
    rw [told_concat]
    cases hgives : keyed.gives e.1 e.2 key with
    | some entry =>
      refine .inr ⟨log, e.1, e.2, [], entry, rfl, hgives, fun l hl => ?_, rfl⟩
      cases hl
    | none =>
      rw [Option.getD_none]
      rcases ih with ⟨hnone, htold⟩ | ⟨before, c, read, later, entry, rfl, hc, hlater, htold⟩
      · refine .inl ⟨fun l hl => ?_, htold⟩
        rcases List.mem_append.mp hl with hl | hl
        · exact hnone l hl
        · rw [List.mem_singleton.mp hl]
          exact hgives
      · refine .inr ⟨before, c, read, later ++ [e], entry, by simp, hc, fun l hl => ?_, htold⟩
        rcases List.mem_append.mp hl with hl | hl
        · exact hlater l hl
        · rw [List.mem_singleton.mp hl]
          exact hgives

/-- Calls that say nothing of a key. -/
theorem told_append_of_none {later : List (κ × σ)}
    (h : ∀ e ∈ later, keyed.gives e.1 e.2 key = none) (log : List (κ × σ)) :
    told keyed v (log ++ later) key = told keyed v log key := by
  induction later using List.reverseRecOn with
  | nil => rw [List.append_nil]
  | append_singleton later e ih =>
    rw [← List.append_assoc, told_concat, h e (by simp), Option.getD_none]
    exact ih fun l hl => h l (List.mem_append_left _ hl)

/-- The copy keeps what it should when it has under every key what the calls gave. -/
theorem kept_iff : Kept keyed v s ↔ ∀ key, keyed.get s.copy key = told keyed v s.log key := by
  constructor
  · intro h key
    rcases told_cases keyed v s.log key with
      ⟨hnone, htold⟩ | ⟨before, c, read, later, entry, hlog, hc, hlater, htold⟩
    · exact (h.first key hnone).trans htold.symm
    · exact (h.stands before c read later key entry hlog hc hlater).trans htold.symm
  · intro h
    refine ⟨fun before c read later key entry hlog hc hlater => ?_, fun key hnone => ?_⟩
    · have hsplit : s.log = (before ++ [(c, read)]) ++ later := by simp [hlog]
      rw [h key, hsplit, told_append_of_none hlater, told_concat, hc, Option.getD_some]
    · have htold : told keyed v ([] ++ s.log) key = told keyed v [] key :=
        told_append_of_none hnone []
      rw [List.nil_append] at htold
      exact (h key).trans htold

/-! ### Runs -/

/-- A call whose value is computed changes the value it read. -/
def Computed (effect : κ → σ → Outcome σ ρ) (s : State ι κ σ) : Prop :=
  ∀ p ∈ s.calls, p.2.phase = .computed →
    ∃ answer next, effect p.2.call p.2.read = .changed answer next

/-- A call in another phase than computed keeps this. -/
theorem Computed.move (h : Computed effect s) (k : ℕ) (i : ι) (p : Pending κ σ) {phase : Phase}
    (hphase : phase ≠ .computed) : Computed effect (s.move k i p phase) := by
  intro q hq hcomputed
  rcases List.mem_or_eq_of_mem_set hq with hq | rfl
  · exact h q hq hcomputed
  · exact absurd hcomputed hphase

/-- What a write that lands leaves under a key. -/
theorem get_next (h : Computed effect s) {k : ℕ} {p : ι × Pending κ σ}
    (hk : s.calls[k]? = some p) (hphase : p.2.phase = .computed) (key : K) :
    keyed.get (p.2.next effect) key =
      (keyed.gives p.2.call p.2.read key).getD (keyed.get p.2.read key) := by
  obtain ⟨answer, next, heffect⟩ := h p (List.mem_of_getElem? hk) hphase
  have hnext : p.2.next effect = next := by
    rw [Pending.next, after, heffect]
  rw [hnext]
  exact keyed.law heffect key

variable [DecidableEq ι]

/-- Every step keeps this. -/
theorem computed_step {e : Event ι κ} (h : Computed effect s)
    (hstep : step effect s e = some t) : Computed effect t := by
  cases e with
  | readCopy i =>
    obtain rfl := Option.some.inj hstep
    exact h
  | loaded k =>
    obtain ⟨load, -, rfl⟩ := Option.map_eq_some_iff.mp hstep
    exact h
  | begin i c =>
    obtain ⟨memory, -, rfl⟩ := Option.map_eq_some_iff.mp hstep
    intro p hp hcomputed
    rcases List.mem_append.mp hp with hp | hp
    · exact h p hp hcomputed
    · obtain rfl := List.mem_singleton.mp hp
      exact Outcome.changed_of_phase hcomputed
  | written k =>
    obtain ⟨p, -, hp⟩ := Option.bind_eq_some_iff.mp hstep
    obtain ⟨-, ht⟩ := Option.ite_none_right_eq_some.mp hp
    obtain rfl := Option.some.inj ht
    exact Computed.move (s := { s with copy := _, log := _ }) h k p.1 p.2 (by decide)
  | failed k =>
    obtain ⟨p, -, hp⟩ := Option.bind_eq_some_iff.mp hstep
    obtain ⟨-, ht⟩ := Option.ite_none_right_eq_some.mp hp
    obtain rfl := Option.some.inj ht
    exact h.move k p.1 p.2 (by decide)
  | assigned k =>
    obtain ⟨p, -, hp⟩ := Option.bind_eq_some_iff.mp hstep
    obtain ⟨-, ht⟩ := Option.ite_none_right_eq_some.mp hp
    obtain rfl := Option.some.inj ht
    exact Computed.move (s := { s with memories := _ }) h k p.1 p.2 (by decide)

/-- Only a write that lands touches the copy and the order of the writes. -/
theorem step_copy {e : Event ι κ} (hstep : step effect s e = some t) :
    t.copy = s.copy ∧ t.log = s.log ∨
      ∃ k p, e = .written k ∧ s.calls[k]? = some p ∧ p.2.phase = .computed ∧
        t.copy = p.2.next effect ∧ t.log = s.log ++ [(p.2.call, p.2.read)] := by
  cases e with
  | readCopy i =>
    obtain rfl := Option.some.inj hstep
    exact .inl ⟨rfl, rfl⟩
  | loaded k =>
    obtain ⟨load, -, rfl⟩ := Option.map_eq_some_iff.mp hstep
    exact .inl ⟨rfl, rfl⟩
  | begin i c =>
    obtain ⟨memory, -, rfl⟩ := Option.map_eq_some_iff.mp hstep
    exact .inl ⟨rfl, rfl⟩
  | written k =>
    obtain ⟨p, hk, hp⟩ := Option.bind_eq_some_iff.mp hstep
    obtain ⟨hphase, ht⟩ := Option.ite_none_right_eq_some.mp hp
    obtain rfl := Option.some.inj ht
    exact .inr ⟨k, p, rfl, hk, hphase, rfl, rfl⟩
  | failed k =>
    obtain ⟨p, -, hp⟩ := Option.bind_eq_some_iff.mp hstep
    obtain ⟨-, ht⟩ := Option.ite_none_right_eq_some.mp hp
    obtain rfl := Option.some.inj ht
    exact .inl ⟨rfl, rfl⟩
  | assigned k =>
    obtain ⟨p, -, hp⟩ := Option.bind_eq_some_iff.mp hstep
    obtain ⟨-, ht⟩ := Option.ite_none_right_eq_some.mp hp
    obtain rfl := Option.some.inj ht
    exact .inl ⟨rfl, rfl⟩

/-- A current step keeps what calls gave. -/
theorem kept_step {e : Event ι κ} (hcomputed : Computed effect s) (h : Kept keyed v s)
    (hG : Current keyed s e) (hstep : step effect s e = some t) : Kept keyed v t := by
  rw [kept_iff] at h ⊢
  rcases step_copy hstep with ⟨hcopy, hlog⟩ | ⟨k, p, rfl, hk, hphase, hcopy, hlog⟩
  · rw [hcopy, hlog]
    exact h
  · intro key
    rw [hcopy, hlog, told_concat, get_next hcomputed hk hphase, ← h key]
    cases hgives : keyed.gives p.2.call p.2.read key with
    | some entry => rfl
    | none => exact (hG p hk key hgives).symm

/-- A step that is not current loses something. -/
theorem not_kept_step {e : Event ι κ} (hcomputed : Computed effect s) (h : Kept keyed v s)
    (hG : ¬ Current keyed s e) (hstep : step effect s e = some t) : ¬ Kept keyed v t := by
  rw [kept_iff] at h ⊢
  rcases step_copy hstep with ⟨hcopy, hlog⟩ | ⟨k, p, rfl, hk, hphase, hcopy, hlog⟩
  · exfalso
    cases e with
    | written k =>
      obtain ⟨p, -, hp⟩ := Option.bind_eq_some_iff.mp hstep
      obtain ⟨-, ht⟩ := Option.ite_none_right_eq_some.mp hp
      obtain rfl := Option.some.inj ht
      simp [State.move] at hlog
    | _ => exact hG trivial
  · intro hkept
    apply hG
    intro q hq key hgives
    obtain rfl := Option.some.inj (hk.symm.trans hq)
    have hnext := hkept key
    rw [hcopy, hlog, told_concat, get_next hcomputed hk hphase, hgives] at hnext
    exact (h key).trans hnext.symm

/-- What calls gave is kept throughout a run exactly when every write of it is current. -/
theorem always_kept_iff (v : σ) (es : List (Event ι κ)) :
    (machine effect ι v).Always (Kept keyed v) (machine effect ι v).init es ↔
      (machine effect ι v).Each (Current keyed) (machine effect ι v).init es := by
  refine Machine.always_iff_each (I := fun s => Computed effect s ∧ Kept keyed v s)
    (fun s h => h.2) ?_ ?_ ⟨?_, ?_⟩ es
  · intro s e t h hG hstep
    exact ⟨computed_step h.1 hstep, kept_step h.1 h.2 hG hstep⟩
  · intro s e t h hG hstep
    exact not_kept_step h.1 h.2 hG hstep
  · intro p hp
    cases hp
  · rw [kept_iff]
    exact fun key => rfl

/-- A call whose write has landed is one of those that said what they give. -/
theorem logged (hs : (machine effect ι v).Reachable s) :
    ∀ p ∈ s.calls, p.2.phase = .written ∨ p.2.phase = .assigned →
      (p.2.call, p.2.read) ∈ s.log := by
  refine Machine.ReachableWhen.invariant (I := fun s => ∀ p ∈ s.calls,
    p.2.phase = .written ∨ p.2.phase = .assigned → (p.2.call, p.2.read) ∈ s.log) ?_ ?_ hs
  · intro p hp
    cases hp
  intro s e t h _ hstep
  have hstep : step effect s e = some t := hstep
  cases e with
  | readCopy i =>
    obtain rfl := Option.some.inj hstep
    exact h
  | loaded k =>
    obtain ⟨load, -, rfl⟩ := Option.map_eq_some_iff.mp hstep
    exact h
  | begin i c =>
    obtain ⟨memory, -, rfl⟩ := Option.map_eq_some_iff.mp hstep
    intro p hp hphase
    rcases List.mem_append.mp hp with hp | hp
    · exact h p hp hphase
    · obtain rfl := List.mem_singleton.mp hp
      exact absurd hphase (not_or.mpr (effect c memory).phase_of_begin)
  | written k =>
    obtain ⟨p, -, hp⟩ := Option.bind_eq_some_iff.mp hstep
    obtain ⟨-, ht⟩ := Option.ite_none_right_eq_some.mp hp
    obtain rfl := Option.some.inj ht
    intro q hq hphase
    rcases List.mem_or_eq_of_mem_set hq with hq | rfl
    · exact List.mem_append_left _ (h q hq hphase)
    · exact List.mem_append_right _ (List.mem_singleton.mpr rfl)
  | failed k =>
    obtain ⟨p, -, hp⟩ := Option.bind_eq_some_iff.mp hstep
    obtain ⟨-, ht⟩ := Option.ite_none_right_eq_some.mp hp
    obtain rfl := Option.some.inj ht
    intro q hq hphase
    rcases List.mem_or_eq_of_mem_set hq with hq | rfl
    · exact h q hq hphase
    · rcases hphase with hphase | hphase
      · cases hphase
      · cases hphase
  | assigned k =>
    obtain ⟨p, hk, hp⟩ := Option.bind_eq_some_iff.mp hstep
    obtain ⟨hwritten, ht⟩ := Option.ite_none_right_eq_some.mp hp
    obtain rfl := Option.some.inj ht
    intro q hq hphase
    rcases List.mem_or_eq_of_mem_set hq with hq | rfl
    · exact h q hq hphase
    · exact h p (List.mem_of_getElem? hk) (.inl hwritten)

end SharedCopy

end RemoteWorkspace.Computation
