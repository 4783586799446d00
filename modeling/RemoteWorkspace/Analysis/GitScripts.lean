import RemoteWorkspace.Model.GitCommands
import RemoteWorkspace.Computation.Fallible

/-!
# Computing the daemon's git scripts

What each helper of the scripts comes to, by how its command ends. A script over a git that
changes nothing answers as the one that was written over answers alone.
-/

set_option autoImplicit false

namespace RemoteWorkspace.Analysis.GitScripts

open RemoteWorkspace.Computation RemoteWorkspace.Computation.Scripts
open RemoteWorkspace.Model RemoteWorkspace.Model.GitCommands
open RemoteWorkspace.Model.GitWorktrees (GitOutcome detail commandFailed)
open RemoteWorkspace.Model.FsText (Failure absolutePath)

variable {σ : Type} {git : Git σ} {repo : String}

@[simp] theorem run_bind {α : Type} (args : List String) (f : GitOutcome → GitScript σ α)
    (s : Session σ GitOutcome) : (run git repo args >>= f) s =
      f (asked git repo args s.store)
        ⟨left git repo args s.store, s.ran ++ [asked git repo args s.store]⟩ :=
  exec_bind (invoke git) (repo, args) f s

/-- A required command goes on, or gives up, with what it left of the store. -/
theorem required_apply (args : List String) (refused : GitOutcome → Failure)
    (s : Session σ GitOutcome) : required git repo args refused s =
      (if (asked git repo args s.store).ok then .ok (asked git repo args s.store)
        else .error (refused (asked git repo args s.store)),
        ⟨left git repo args s.store, s.ran ++ [asked git repo args s.store]⟩) := by
  rw [required, run_bind]
  split <;> rfl

/-- What follows a required command that ended well. -/
theorem required_bind_ok {α : Type} {args : List String} {refused : GitOutcome → Failure}
    {s : Session σ GitOutcome} (hok : (asked git repo args s.store).ok = true)
    (f : GitOutcome → GitScript σ α) : (required git repo args refused >>= f) s =
      f (asked git repo args s.store)
        ⟨left git repo args s.store, s.ran ++ [asked git repo args s.store]⟩ := by
  apply bind_ok
  rw [required_apply, if_pos hok]

/-- A required command that did not ends the script. -/
theorem required_bind_error {α : Type} {args : List String} {refused : GitOutcome → Failure}
    {s : Session σ GitOutcome} (hok : (asked git repo args s.store).ok = false)
    (f : GitOutcome → GitScript σ α) : (required git repo args refused >>= f) s =
      (.error (refused (asked git repo args s.store)),
        ⟨left git repo args s.store, s.ran ++ [asked git repo args s.store]⟩) := by
  apply bind_error
  rw [required_apply, if_neg (by simp [hok])]

/-- `require_repository` goes on in a repository. -/
theorem requireRepository_ok {s : Session σ GitOutcome}
    (hok : (asked git repo gitDirArgs s.store).ok = true) :
    requireRepository git repo s =
      (.ok (), ⟨left git repo gitDirArgs s.store,
        s.ran ++ [asked git repo gitDirArgs s.store]⟩) := by
  rw [requireRepository, required_bind_ok hok]
  rfl

/-- Elsewhere it gives up. -/
theorem requireRepository_error {s : Session σ GitOutcome}
    (hok : (asked git repo gitDirArgs s.store).ok = false) :
    ∃ failure, requireRepository git repo s =
      (.error failure, ⟨left git repo gitDirArgs s.store,
        s.ran ++ [asked git repo gitDirArgs s.store]⟩) := by
  rw [requireRepository, required_bind_error hok]
  exact ⟨_, rfl⟩

/-- `head_of`, when HEAD can be read. -/
theorem headOf_ok {s : Session σ GitOutcome}
    (hok : (asked git repo headArgs s.store).ok = true) :
    ∃ head, headOf git repo s =
      (.ok head, ⟨left git repo headArgs s.store,
        s.ran ++ [asked git repo headArgs s.store]⟩) := by
  rw [headOf, required_bind_ok hok]
  exact ⟨_, rfl⟩

/-- `head_of`, when it cannot. -/
theorem headOf_error {s : Session σ GitOutcome}
    (hok : (asked git repo headArgs s.store).ok = false) :
    ∃ failure, headOf git repo s =
      (.error failure, ⟨left git repo headArgs s.store,
        s.ran ++ [asked git repo headArgs s.store]⟩) := by
  rw [headOf, required_bind_error hok]
  exact ⟨_, rfl⟩

/-- A required command that leaves a part of the store alone. -/
theorem keeps_required {γ : Type} {view : σ → γ} {args : List String}
    (h : ∀ s, view (left git repo args s) = view s) (refused : GitOutcome → Failure) :
    Keeps view (required git repo args refused) := by
  apply (keeps_exec h).bind
  exact fun outcome => keeps_ite (keeps_pure _) (keeps_fail _)

/-- `head_of` leaves alone what the command does. -/
theorem keeps_headOf {γ : Type} {view : σ → γ} (h : ∀ s, view (left git repo headArgs s) = view s) :
    Keeps view (headOf git repo) :=
  (keeps_required h _).bind fun _ => keeps_pure _

/-- A command that was killed did not end well, and has no status. -/
theorem of_timedOut {args : List String} {s : σ} (h : (asked git repo args s).timedOut = true) :
    (asked git repo args s).ok = false ∧ (asked git repo args s).status = none := by
  unfold asked invoke outcomeOf at *
  split at h
  · cases h
  · cases h
  · exact ⟨rfl, rfl⟩

theorem not_timedOut_of_ok {args : List String} {s : σ} (h : (asked git repo args s).ok = true) :
    (asked git repo args s).timedOut = false := by
  by_contra hkilled
  obtain ⟨hok, -⟩ := of_timedOut (Bool.not_eq_false _ ▸ hkilled)
  rw [hok] at h
  cases h

theorem not_timedOut_of_status {args : List String} {s : σ} {code : ℤ}
    (h : (asked git repo args s).status = some code) :
    (asked git repo args s).timedOut = false := by
  by_contra hkilled
  obtain ⟨-, hstatus⟩ := of_timedOut (Bool.not_eq_false _ ▸ hkilled)
  rw [hstatus] at h
  cases h

/-! ### A git that changes nothing -/

/-- What such a git answers. -/
def answersOf (git : Git σ) (s : σ) : GitWorktrees.Git := fun repo args => asked git repo args s

/-- A script answers as a computation, and leaves the store. -/
def Answers {α : Type} (s : σ) (x : GitScript σ α) (answer : Except Failure α) : Prop :=
  ∀ ran, ∃ ran', x ⟨s, ran⟩ = (answer, ⟨s, ran'⟩)

/-- Two scripts one after the other. -/
theorem Answers.bind {α β : Type} {s : σ} {x : GitScript σ α} {f : α → GitScript σ β}
    {answer : Except Failure α} {rest : α → Except Failure β} (hx : Answers s x answer)
    (hf : ∀ a, Answers s (f a) (rest a)) : Answers s (x >>= f) (answer >>= rest) := by
  intro ran
  obtain ⟨ran', hran⟩ := hx ran
  cases answer with
  | error failure =>
    refine ⟨ran', ?_⟩
    rw [bind_error hran]
    rfl
  | ok a =>
    obtain ⟨ran'', hrest⟩ := hf a ran'
    refine ⟨ran'', ?_⟩
    rw [bind_ok hran, except_ok_bind, hrest]

/-- A computation without commands. -/
theorem answers_lift {α : Type} (s : σ) (x : Except Failure α) : Answers s (lift x) x :=
  fun ran => ⟨ran, rfl⟩

theorem answers_pure {α : Type} (s : σ) (a : α) : Answers s (pure a) (.ok a) :=
  fun ran => ⟨ran, rfl⟩

/-- A required command. -/
theorem answers_required {s : σ} (hsame : ∀ repo args, left git repo args s = s) (repo : String)
    (args : List String) (refused : GitOutcome → Failure) :
    Answers s (required git repo args refused)
      (GitWorktrees.require (answersOf git s repo args) refused) := by
  intro ran
  refine ⟨ran ++ [asked git repo args s], ?_⟩
  rw [required_apply, hsame]
  rfl

/-- `worktree_add` over a git that changes nothing answers as it does over the answers alone. -/
theorem worktreeAdd_answers {s : σ} (hsame : ∀ repo args, left git repo args s = s)
    (root : Option String) (repoPath worktreePath branch : String) (baseRef : Option String) :
    Answers s (worktreeAdd git root repoPath worktreePath branch baseRef)
      (GitWorktrees.worktreeAdd (answersOf git s) root repoPath worktreePath branch baseRef) := by
  apply (answers_lift s _).bind
  intro repo
  apply (answers_lift s _).bind
  intro target
  apply Answers.bind
  · apply (answers_required hsame repo _ _).bind
    exact fun _ => answers_pure s ()
  · intro _
    apply (answers_required hsame repo _ _).bind
    intro _
    apply Answers.bind
    · apply (answers_required hsame target _ _).bind
      exact fun _ => answers_pure s _
    · intro head
      apply (answers_required hsame target _ _).bind
      exact fun _ => answers_pure s _

end RemoteWorkspace.Analysis.GitScripts
