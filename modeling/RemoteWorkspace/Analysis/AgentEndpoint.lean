import RemoteWorkspace.Computation.Fallible
import RemoteWorkspace.Model.EnsureAgent

/-!
# What a resolved endpoint promises

A run of `ensureAgent` that resolves with a port is to name an agent of the build asked for,
started by the current recipe, that accepts the given token and no other. A reused agent is
never asked for its token, and a started one trims the token it reads.
-/

set_option autoImplicit false

namespace RemoteWorkspace.Analysis.AgentEndpoint

open RemoteWorkspace.Computation RemoteWorkspace.Model.EnsureAgent

/-! ### The handshake -/

/-- The differences of two lists of bytes add up to none exactly when there are none. -/
theorem foldl_difference {l : List (UInt8 × UInt8)} {d : UInt8} :
    l.foldl (fun diff p => diff ||| (p.1 ^^^ p.2)) d = 0 ↔ d = 0 ∧ ∀ p ∈ l, p.1 = p.2 := by
  induction l generalizing d with
  | nil => simp
  | cons p l ih =>
    rw [List.foldl_cons, ih, UInt8.or_eq_zero_iff, UInt8.xor_eq_zero_iff]
    simp only [List.mem_cons, forall_eq_or_imp, and_assoc]

/-- Lists of one length are equal exactly when the pairs of their elements are. -/
theorem eq_iff_zip {α : Type} {l r : List α} (hlen : l.length = r.length) :
    l = r ↔ ∀ p ∈ l.zip r, p.1 = p.2 := by
  induction l generalizing r with
  | nil => simp [List.length_eq_zero_iff.mp hlen.symm]
  | cons a l ih =>
    cases r with
    | nil => simp at hlen
    | cons b r =>
      have htail := ih (r := r) (by simpa using hlen)
      rw [List.cons.injEq, htail, List.zip_cons_cons]
      simp only [List.mem_cons, forall_eq_or_imp]

/-- The comparison in constant time is equality. -/
theorem tokenMatches_iff (expected presented : String) :
    tokenMatches expected presented = true ↔ presented = expected := by
  unfold tokenMatches
  extract_lets left right
  have hsame : left = right ↔ presented = expected := by
    rw [eq_comm (a := presented), ← String.toByteArray_inj, ByteArray.ext_iff,
      ← Array.toList_inj]
  by_cases hlen : left.length = right.length
  · rw [if_neg (not_not.mpr hlen), ← hsame, decide_eq_true_iff, foldl_difference,
      eq_iff_zip hlen]
    simp
  · rw [if_pos hlen]
    simp only [Bool.false_eq_true, false_iff]
    rw [← hsame]
    intro heq
    exact hlen (by rw [heq])

/-- An agent accepts a token in its handshake, and no other. -/
def AcceptsExactly (agent : Agent) (token : String) : Prop :=
  ∀ presented, handshake agent "node.hello" protocolVersion presented = .ok () ↔
    presented = token

/-- An agent accepts exactly the token it read. -/
theorem acceptsExactly_iff (agent : Agent) (token : String) :
    AcceptsExactly agent token ↔ agent.token = token := by
  have haccepts : ∀ presented, handshake agent "node.hello" protocolVersion presented = .ok () ↔
      presented = agent.token := by
    intro presented
    rw [← tokenMatches_iff]
    unfold handshake
    rw [if_neg (by simp), if_neg (by simp)]
    by_cases hmatch : tokenMatches agent.token presented = true
    · simp [hmatch]
    · simp [hmatch]
  constructor
  · intro h
    exact (h agent.token).mp ((haccepts agent.token).mpr rfl)
  · rintro rfl
    exact haccepts

/-! ### What an install leaves -/

/-- The agent that listens on a port serves it. -/
theorem serving_of_mem {m : Remote} {agent : Agent} (h : agent ∈ m.agents) :
    m.serving agent.port = some agent := by
  unfold Remote.serving
  cases hfound : m.agents.find? fun other => other.port = agent.port with
  | none =>
    have hnot := List.find?_eq_none.mp hfound agent h
    simp at hnot
  | some other =>
    have hmem := List.mem_of_find?_eq_some hfound
    have hport : other.port = agent.port := by
      simpa using (List.find?_eq_some_iff_append.mp hfound).1
    rw [List.inj_on_of_nodup_map m.distinct hmem h hport]

/-- A build that is put in place changes neither the agents nor the state file. -/
theorem installBinary_ok {course : Course} {version : String} {m m' : Remote}
    (h : installBinary course version m = .ok m') :
    m'.agents = m.agents ∧ m'.state = m.state := by
  unfold installBinary at h
  split at h
  · cases h
    exact ⟨rfl, rfl⟩
  · split at h
    · cases h
    · split at h
      · cases h
      · split at h
        · cases h
        · cases h
          exact ⟨rfl, rfl⟩

/-- A kill takes agents away and leaves the files. -/
theorem killRunning_spec (course : Course) (running : Option ℕ) (m : Remote) :
    (killRunning course running m).agents ⊆ m.agents ∧
      (killRunning course running m).state = m.state ∧
      (killRunning course running m).token = m.token := by
  unfold killRunning
  split
  · split
    · exact ⟨List.filter_subset_self _, rfl, rfl⟩
    · exact ⟨List.Subset.refl _, rfl, rfl⟩
  · exact ⟨List.Subset.refl _, rfl, rfl⟩

/-- A start adds at most one agent, by the current recipe, with the token in the file. -/
theorem startAgent_ok {course : Course} {m m' : Remote} (h : startAgent course m = .ok m') :
    m'.state = m.state ∧ ∀ agent ∈ m'.agents, agent ∈ m.agents ∨
      agent.recipe = launchRecipeVersion ∧ readToken m.token = some agent.token := by
  unfold startAgent at h
  split at h
  · cases h
  · split at h
    · rename_i build token hbuild htoken
      split at h
      · cases h
        exact ⟨rfl, fun agent hagent => .inl hagent⟩
      · cases h
        refine ⟨rfl, ?_⟩
        intro agent hagent
        rcases List.mem_append.mp hagent with hagent | hagent
        · exact .inl hagent
        · obtain rfl := List.mem_singleton.mp hagent
          exact .inr ⟨rfl, htoken⟩
    · cases h
      exact ⟨rfl, fun agent hagent => .inl hagent⟩

/-- After an install the state file is as before, and every agent ran before or was started
by the current recipe with the trimmed token. -/
theorem install_ok {course : Course} {m m' : Remote} {token version : String}
    (h : install course m token version = .ok m') :
    m'.state = m.state ∧ ∀ agent ∈ m'.agents, agent ∈ m.agents ∨
      agent.recipe = launchRecipeVersion ∧ agent.token = trim token := by
  unfold install at h
  split at h
  · cases h
  · obtain ⟨m₁, h₁, h⟩ := bind_eq_ok_iff.mp h
    obtain ⟨m₂, h₂, h⟩ := bind_eq_ok_iff.mp h
    obtain ⟨hagents, hstate⟩ := installBinary_ok h₁
    unfold writeToken at h₂
    split at h₂
    · cases h₂
    · cases h₂
      obtain ⟨hsub, hkstate, hktoken⟩ :=
        killRunning_spec course (runningPid course m) { m₁ with token := some token }
      obtain ⟨hsstate, hstarted⟩ := startAgent_ok h
      refine ⟨hsstate.trans (hkstate.trans hstate), ?_⟩
      intro agent hagent
      rcases hstarted agent hagent with hold | ⟨hrecipe, htoken⟩
      · left
        rw [← hagents]
        exact hsub hold
      · right
        refine ⟨hrecipe, ?_⟩
        rw [hktoken] at htoken
        unfold readToken at htoken
        split at htoken
        · cases htoken
        · rename_i text htext
          cases htext
          split at htoken
          · cases htoken
          · exact (Option.some.inj htoken).symm

/-! ### The wait -/

/-- The poll that ends the wait: the first whose state is accepted. -/
def EndsWait (course : Course) (m : Remote) (version : String) (replacedPid : Option ℕ)
    (first last : ℕ) (state : AgentState) : Prop :=
  first ≤ last ∧ stateAt course m last = some state ∧ accepts version replacedPid state = true ∧
    ∀ poll, first ≤ poll → poll < last → ∀ other, stateAt course m poll = some other →
      accepts version replacedPid other = false

/-- The wait is over with what the first accepted poll reads. -/
theorem awaitPublished_eq_some_iff {course : Course} {m : Remote} {version : String}
    {replacedPid : Option ℕ} {n first : ℕ} {state : AgentState} :
    awaitPublished course m version replacedPid n first = some state ↔
      ∃ last, last < first + n ∧ EndsWait course m version replacedPid first last state := by
  induction n generalizing first with
  | zero =>
    simp only [awaitPublished, reduceCtorEq, false_iff]
    rintro ⟨last, hlt, hle, -⟩
    omega
  | succ n ih =>
    -- Past a poll that is not accepted, the wait goes on from the next one.
    have hskip : (∀ other, stateAt course m first = some other →
        accepts version replacedPid other = false) →
        ((∃ last, last < first + 1 + n ∧
          EndsWait course m version replacedPid (first + 1) last state) ↔
        ∃ last, last < first + (n + 1) ∧
          EndsWait course m version replacedPid first last state) := by
      intro hfirst
      refine exists_congr fun last => ?_
      constructor
      · rintro ⟨hlt, hle, hstate, haccept, hbefore⟩
        refine ⟨by omega, by omega, hstate, haccept, ?_⟩
        intro poll hpoll hlast other hother
        by_cases heq : poll = first
        · exact hfirst other (heq ▸ hother)
        · exact hbefore poll (by omega) hlast other hother
      · rintro ⟨hlt, hle, hstate, haccept, hbefore⟩
        have hne : last ≠ first := by
          rintro rfl
          rw [hfirst state hstate] at haccept
          cases haccept
        refine ⟨by omega, by omega, hstate, haccept, ?_⟩
        intro poll hpoll hlast other hother
        exact hbefore poll (by omega) hlast other hother
    unfold awaitPublished
    split
    · rename_i found hfound
      by_cases haccept : accepts version replacedPid found = true
      · rw [if_pos haccept]
        constructor
        · intro h
          obtain rfl := Option.some.inj h
          refine ⟨first, by omega, Nat.le_refl first, hfound, haccept, ?_⟩
          intro poll hpoll hlast
          omega
        · rintro ⟨last, -, hle, hstate, -, hbefore⟩
          by_cases heq : last = first
          · subst heq
            exact hfound.symm.trans hstate
          · have hnot := hbefore first (Nat.le_refl first) (by omega) found hfound
            rw [haccept] at hnot
            cases hnot
      · rw [if_neg haccept, ih]
        apply hskip
        intro other hother
        obtain rfl : found = other := Option.some.inj (hfound.symm.trans hother)
        simpa using haccept
    · rename_i hnone
      rw [ih]
      apply hskip
      intro other hother
      rw [hnone] at hother
      cases hother

/-! ### The contract -/

/-- The agent that serves the port is of the build asked for, was started by the current
recipe, and accepts exactly the token. -/
def Serves (m : Remote) (port : ℕ) (token version : String) : Prop :=
  ∃ agent, m.serving port = some agent ∧ agent.build = version ∧
    agent.recipe = launchRecipeVersion ∧ AcceptsExactly agent token

/-- A run that resolves with a port names an agent that serves it as asked. -/
def EndpointContract (course : Course) (m : Remote) (token version : String) : Prop :=
  ∀ endpoint m', ensureAgent course m token version = .ok (endpoint, m') →
    Serves m' endpoint.port token version

/-- What is to be so for the contract. Where the run reuses an agent, the one that serves the
port on record is of the build, was started by the current recipe and has the token. Where
it installs one, the first document the wait accepts is of an agent that ran before, was
started by the current recipe and has the token, or of the one the run started, and then
the token has no whitespace at its ends. -/
structure Honest (course : Course) (m : Remote) (token version : String) : Prop where
  reuse : course.fails .uname = false → course.fails .readState = false →
    ∀ state, reused course m version = some state →
      ∃ agent, m.serving state.port = some agent ∧ agent.build = version ∧
        agent.recipe = launchRecipeVersion ∧ agent.token = token
  install : course.fails .uname = false → course.fails .readState = false →
    course.fails .writeLaunch = false → reused course m version = none →
    ∀ m', install course m token version = .ok m' → ∀ last state agent, last < course.polls →
      EndsWait course m' version ((parseState m.state).map AgentState.pid) 0 last state →
      (course.published last).bind (m'.agents[·]?) = some agent →
      if agent ∈ m.agents then agent.recipe = launchRecipeVersion ∧ agent.token = token
      else trim token = token

/-- What a run that resolves did: it reused an agent, or its wait was ended. -/
theorem ensureAgent_ok_iff {course : Course} {m m' : Remote} {token version : String}
    {endpoint : AgentEndpoint} :
    ensureAgent course m token version = .ok (endpoint, m') ↔
      course.fails .uname = false ∧ course.fails .readState = false ∧
      ((∃ state, reused course m version = some state ∧ endpoint = ⟨state.port, version, true⟩ ∧
          m' = m) ∨
        (reused course m version = none ∧ course.fails .writeLaunch = false ∧
          ∃ m₁ last state, install course m token version = .ok m₁ ∧ last < course.polls ∧
            EndsWait course m₁ version ((parseState m.state).map AgentState.pid) 0 last state ∧
            endpoint = ⟨state.port, version, false⟩ ∧
            m' = { m₁ with launch := some launchRecipeVersion })) := by
  unfold ensureAgent
  cases huname : course.fails .uname with
  | true => simp
  | false =>
  cases hread : course.fails .readState with
  | true => simp
  | false =>
  simp only [Bool.false_eq_true, if_false, true_and]
  cases hreused : reused course m version with
  | some state =>
    simp only [Except.ok.injEq, Prod.mk.injEq, Option.some.injEq, reduceCtorEq, false_and,
      or_false, exists_eq_left']
    exact and_congr eq_comm eq_comm
  | none =>
    simp only [reduceCtorEq, false_and, exists_false, false_or, true_and]
    constructor
    · intro h
      obtain ⟨m₁, hinstall, h⟩ := bind_eq_ok_iff.mp h
      split at h
      · rename_i state hstate
        obtain ⟨last, hlast, hends⟩ := awaitPublished_eq_some_iff.mp hstate
        cases hwrite : course.fails .writeLaunch with
        | true => simp [hwrite] at h
        | false =>
          simp only [hwrite, Bool.false_eq_true, if_false, Except.ok.injEq, Prod.mk.injEq] at h
          exact ⟨rfl, m₁, last, state, hinstall, by omega, hends, h.1.symm, h.2.symm⟩
      · cases h
    · rintro ⟨hwrite, m₁, last, state, hinstall, hlast, hends, rfl, rfl⟩
      have hstate : awaitPublished course m₁ version ((parseState m.state).map AgentState.pid)
          course.polls 0 = some state :=
        awaitPublished_eq_some_iff.mpr ⟨last, by omega, hends⟩
      simp [hinstall, hwrite, bind, Except.bind, hstate]

/-- What is read of a published document is what the agent wrote. -/
theorem parseState_document {agent : Agent} {state : AgentState}
    (h : parseState (some (document agent)) = some state) :
    state.version = agent.build ∧ state.port = agent.port := by
  simp only [parseState, document] at h
  split at h
  · cases h
  · split at h
    · cases h
    · split at h
      · cases h
      · obtain rfl := Option.some.inj h
        simp

/-- The document that ends the wait was published since the run began. -/
theorem published_of_endsWait {course : Course} {m m' : Remote} {version : String}
    {first last : ℕ} {state : AgentState} (hstate : m'.state = m.state)
    (h : EndsWait course m' version ((parseState m.state).map AgentState.pid) first last state) :
    ∃ agent, (course.published last).bind (m'.agents[·]?) = some agent ∧
      agent ∈ m'.agents ∧ agent.port = state.port ∧ agent.build = version := by
  obtain ⟨-, hread, haccept, -⟩ := h
  simp only [accepts, Bool.and_eq_true, decide_eq_true_eq] at haccept
  obtain ⟨⟨hversion, -⟩, hpid⟩ := haccept
  unfold stateAt at hread
  split at hread
  · cases hread
  · split at hread
    · rename_i agent hagent
      have hparsed := parseState_document hread
      obtain ⟨k, -, hk⟩ := Option.bind_eq_some_iff.mp hagent
      exact ⟨agent, hagent, List.mem_of_getElem? hk, hparsed.2.symm,
        hparsed.1.symm.trans hversion⟩
    · rw [hstate] at hread
      rw [hread] at hpid
      exact absurd rfl hpid

/-- A run in which nothing fails; a started agent is the only one and publishes at once. -/
def smooth : Course where
  fails _ := false
  resolveFails := false
  killEnds := true
  pid := 20
  port := 40000
  polls := 1
  pollFails _ := false
  published _ := some 0

/-- A machine with an agent of build 7 that was started with the token `old`. -/
def running : Remote where
  agents := [⟨10, 30000, "7", "old", launchRecipeVersion⟩]
  others := []
  state := some ⟨some 10, some 30000, some "7"⟩
  token := some "old"
  binary := some "7"
  installed := some "7"
  launch := some launchRecipeVersion
  distinct := by decide

/-- A machine that never had an agent. -/
def bare : Remote where
  agents := []
  others := []
  state := none
  token := none
  binary := none
  installed := none
  launch := none
  distinct := by decide

/-- The same machine once the agent was installed and started. -/
def started : Remote where
  agents := [⟨20, 40000, "7", "new", launchRecipeVersion⟩]
  others := []
  state := none
  token := some "new\n"
  binary := some "7"
  installed := some "7"
  launch := some launchRecipeVersion
  distinct := by decide

end RemoteWorkspace.Analysis.AgentEndpoint
