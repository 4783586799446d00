import RemoteWorkspace.Analysis.PtyDescriptors

/-!
# An allocation agrees with its child

A child either executes its program, with the terminal as its three standard descriptors, in a
session of its own and in the directory it was given, or reports the error that kept it from doing
so; the pipe that it reports through tells the two apart. So an allocation that answered has a
child that got as far, and one that failed has none that runs, unless one of its own calls was
interrupted (`allocation_agrees`).

The pipe is marked after it is made. A program that another part of the daemon starts in between
has it too and keeps it, and that is the one thing an allocation can wait for in vain
(`report_awaited`): its own calls and those of its child are few (`calls_bounded`).
-/

set_option autoImplicit false

namespace RemoteWorkspace.Analysis.PtyAllocation

open RemoteWorkspace.Computation RemoteWorkspace.Computation.Descriptors
open RemoteWorkspace.Model.PtyAllocation
open RemoteWorkspace.Model.Wire (Failure TerminalSpawnSpec)

variable {n : ℕ} {host : Host} {s t : State n} {a i : ℕ} {x : Allocation n} {c d : Child n}
  {f : Fork n} {bytes : List UInt8}

/-! ### Error numbers as bytes -/

/-- An error number is read back from its bytes. -/
theorem fromNeBytes_toNeBytes (code : Errno) : fromNeBytes (toNeBytes code) = code := by
  have hlt := code.isLt
  refine Fin.ext ?_
  simp only [fromNeBytes, toNeBytes, List.foldr_cons, List.foldr_nil, UInt8.toNat_ofNat',
    Fin.ofNat]
  omega

@[simp] theorem length_toNeBytes (code : Errno) : (toNeBytes code).length = 4 := rfl

/-- What a child wrote to its pipe. -/
def reportOf (reported : Option Errno) : List UInt8 := reported.elim [] toNeBytes

/-! ### What one call of a child does -/

/-- What the next call of a child does, with the bytes that it writes. -/
inductive ChildCalls (c : Child n) : Child n → List UInt8 → Prop where
  | closedMaster (f : Fork n) (h : c.stage = .closingMaster f) :
      ChildCalls c { c with table := c.table.close f.master, stage := .closingRead f } []
  | closedRead (f : Fork n) (h : c.stage = .closingRead f) :
      ChildCalls c { c with table := c.table.close f.read, stage := .leading f } []
  | led (f : Fork n) (h : c.stage = .leading f) :
      ChildCalls c { c with leads := true, stage := .openingSlave f } []
  | failed (f : Fork n) (code : Errno) (h : c.stage = .leading f ∨ c.stage = .openingSlave f ∨
      c.stage = .entering f ∨ c.stage = .executing f) :
      ChildCalls c { c with stage := .reporting f code } []
  | opened (f : Fork n) (slave : Fd n) (h : c.stage = .openingSlave f)
      (hfree : c.table slave = none) :
      ChildCalls c { c with
        table := c.table.put slave ⟨.slave f.allocation, false⟩
        stage := .duplicating f slave } []
  | duplicated (f : Fork n) (slave : Fd n) (h : c.stage = .duplicating f slave) :
      ChildCalls c { c with
        table := if 2 < slave.val then
            (((c.table.dup2 slave 0).dup2 slave 1).dup2 slave 2).close slave
          else ((c.table.dup2 slave 0).dup2 slave 1).dup2 slave 2
        stage := .entering f } []
  | entered (f : Fork n) (h : c.stage = .entering f) :
      ChildCalls c { c with cwd := some f.image.cwd, stage := .executing f } []
  | executed (f : Fork n) (h : c.stage = .executing f) :
      ChildCalls c
        { c with table := c.table.exec, ran := true, stage := .running (some f.image) } []
  | reported (f : Fork n) (code : Errno) (h : c.stage = .reporting f code) :
      ChildCalls c { c with reported := some code, stage := .exiting f } (toNeBytes code)
  | exited (f : Fork n) (h : c.stage = .exiting f) : ChildCalls c c.die []
  | started (h : c.stage = .starting) :
      ChildCalls c { c with table := c.table.exec, ran := true, stage := .running none } []

/-- The call of a child does one of these. -/
theorem childCalls_of_childCall {stage : ChildStage n} {answer : Answer n}
    (hstage : c.stage = stage) (h : childCall c stage answer = some (d, bytes)) :
    ChildCalls c d bytes := by
  unfold childCall at h
  split at h
  · cases h
    exact .closedMaster _ hstage
  · cases h
    exact .closedRead _ hstage
  · cases h
    exact .led _ hstage
  · cases h
    exact .failed _ _ (.inl hstage)
  · cases h
    exact .failed _ _ (.inr (.inl hstage))
  · cases h
    exact .failed _ _ (.inr (.inr (.inl hstage)))
  · cases h
    exact .failed _ _ (.inr (.inr (.inr hstage)))
  · split at h
    · cases h
      exact .opened _ _ hstage ‹_›
    · cases h
  · cases h
    exact .duplicated _ _ hstage
  · cases h
    exact .entered _ hstage
  · cases h
    exact .executed _ hstage
  · cases h
    exact .reported _ _ hstage
  · cases h
    exact .exited _ hstage
  · cases h
    exact .started hstage
  · cases h

/-! ### What a child is like -/

/-- The image is what the request of an allocation asks for. -/
def Prepared (host : Host) (allocations : List (Allocation n)) (a : ℕ) (image : Image) : Prop :=
  ∃ x, allocations[a]? = some x ∧ prepare host x.spec x.cwd = .ok image

/-- A child that has neither executed nor reported, and has its end of the pipe. -/
structure Begun (host : Host) (allocations : List (Allocation n)) (c : Child n) (f : Fork n) :
    Prop where
  owner : c.owner = some f.allocation
  prepared : Prepared host allocations f.allocation f.image
  pipe : c.table f.write = some ⟨.reportWrite f.allocation, true⟩
  large : 2 < f.write.val
  silent : c.reported = none
  idle : c.ran = false

/-- What a child is like at its stage. -/
def Fits (host : Host) (allocations : List (Allocation n)) (c : Child n) : ChildStage n → Prop
  | .closingMaster f => Begun host allocations c f ∧
    c.table.Open f.master (.master f.allocation) ∧ c.table.Open f.read (.reportRead f.allocation)
  | .closingRead f => Begun host allocations c f ∧ c.table.Open f.read (.reportRead f.allocation)
  | .leading f | .reporting f _ => Begun host allocations c f
  | .openingSlave f => Begun host allocations c f ∧ c.leads = true
  | .duplicating f slave => Begun host allocations c f ∧ c.leads = true ∧
    c.table slave = some ⟨.slave f.allocation, false⟩
  | .entering f => Begun host allocations c f ∧ c.leads = true ∧ OnTerminal c.table f.allocation
  | .executing f => Begun host allocations c f ∧ c.leads = true ∧
    OnTerminal c.table f.allocation ∧ c.cwd = some f.image.cwd
  | .exiting f => c.owner = some f.allocation ∧ c.reported.isSome = true ∧ c.ran = false
  | .starting => c.owner = none
  | .running (some image) => ∃ a, c.owner = some a ∧ Prepared host allocations a image ∧
    c.leads = true ∧ OnTerminal c.table a ∧ c.cwd = some image.cwd ∧ c.reported = none
  | .running none => c.owner = none
  | .dead | .reaped => c.table = .none ∧ (c.ran = true → c.owner.isSome = true → c.reported = none)

/-- A child is on its way to its program, or to its end without it. -/
def onItsWay : ChildStage n → Bool
  | .running _ | .dead | .reaped => false
  | _ => true

/-- A child has a report pipe only on its way, where the pipe is marked, or because it was forked
when the pipe was not. -/
def Inherits (c : Child n) : Prop :=
  ∀ fd b cloexec, c.table fd = some ⟨.reportWrite b, cloexec⟩ →
    b ∈ c.unflagged ∨ cloexec = true ∧ onItsWay c.stage = true

variable {allocations allocations' : List (Allocation n)}

/-- A child that did nothing to its end of the pipe. -/
theorem Begun.keep (h : Begun host allocations c f) (howner : d.owner = c.owner)
    (hpipe : d.table f.write = c.table f.write) (hreported : d.reported = c.reported)
    (hran : d.ran = c.ran) : Begun host allocations d f :=
  ⟨howner.trans h.owner, h.prepared, hpipe.trans h.pipe, h.large, hreported.trans h.silent,
    hran.trans h.idle⟩

/-- A number that stands for something else is not that of the pipe. -/
theorem Begun.ne_write (h : Begun host allocations c f) {fd : Fd n} {file : File}
    (hopen : c.table.Open fd file) (hne : file ≠ .reportWrite f.allocation) : f.write ≠ fd := by
  rintro rfl
  exact hne (hopen.unique ⟨true, h.pipe⟩)

/-- Duplicating the terminal onto the standard descriptors. -/
theorem onTerminal_dup2 {table : Table n File} {slave : Fd n}
    (h : table slave = some ⟨.slave a, false⟩) :
    OnTerminal (((table.dup2 slave 0).dup2 slave 1).dup2 slave 2) a := by
  have hkeep : ∀ (table : Table n File) (k : Fd n), table slave = some ⟨.slave a, false⟩ →
      table.dup2 slave k slave = some ⟨.slave a, false⟩ := by
    intro table k htable
    by_cases hk : slave = k
    · rw [← hk]
      exact Table.dup2_target htable
    · rw [Table.dup2_of_ne hk, htable]
  have h0 := hkeep table 0 h
  have h1 := hkeep _ 1 h0
  refine ⟨?_, ?_, Table.dup2_target h1⟩
  · rw [Table.dup2_of_ne (zero_ne_two n), Table.dup2_of_ne (by simp)]
    exact Table.dup2_target h
  · rw [Table.dup2_of_ne (one_ne_two n)]
    exact Table.dup2_target h0

/-- A number past the standard ones can be closed again. -/
theorem onTerminal_close {table : Table n File} (h : OnTerminal table a) {fd : Fd n}
    (hfd : 2 < fd.val) : OnTerminal (table.close fd) a := by
  have hne : ∀ k : Fd n, k.val ≤ 2 → table.close fd k = table k := by
    intro k hk
    refine Table.close_of_ne ?_
    rintro rfl
    omega
  refine ⟨?_, ?_, ?_⟩
  · rw [hne 0 (by simp), h.1]
  · rw [hne 1 (by simp), h.2.1]
  · rw [hne 2 (Nat.mod_le _ _), h.2.2]

/-- It is open across `exec`. -/
theorem onTerminal_exec {table : Table n File} (h : OnTerminal table a) :
    OnTerminal table.exec a :=
  ⟨Table.exec_eq_some_iff.mpr ⟨h.1, rfl⟩, Table.exec_eq_some_iff.mpr ⟨h.2.1, rfl⟩,
    Table.exec_eq_some_iff.mpr ⟨h.2.2, rfl⟩⟩

/-- Every call of a child leaves it as its stage says. -/
theorem Fits.childCalls (h : Fits host allocations c c.stage) (hcalls : ChildCalls c d bytes) :
    Fits host allocations d d.stage := by
  cases hcalls with
  | closedMaster f hstage =>
    rw [hstage] at h
    obtain ⟨hbegun, hmaster, hread⟩ := h
    refine ⟨hbegun.keep rfl ?_ rfl rfl, (Table.open_close hmaster).mpr ⟨hread, by simp⟩⟩
    exact Table.close_of_ne (hbegun.ne_write hmaster (by simp))
  | closedRead f hstage =>
    rw [hstage] at h
    obtain ⟨hbegun, hread⟩ := h
    refine hbegun.keep rfl ?_ rfl rfl
    exact Table.close_of_ne (hbegun.ne_write hread (by simp))
  | led f hstage =>
    rw [hstage] at h
    have hbegun : Begun host allocations c f := h
    exact ⟨hbegun.keep rfl rfl rfl rfl, rfl⟩
  | failed f code hstage =>
    have hbegun : Begun host allocations c f := by
      rcases hstage with hstage | hstage | hstage | hstage <;> rw [hstage] at h
      · exact h
      · exact h.1
      · exact h.1
      · exact h.1
    exact hbegun.keep rfl rfl rfl rfl
  | opened f slave hstage hfree =>
    rw [hstage] at h
    obtain ⟨hbegun, hleads⟩ := h
    refine ⟨hbegun.keep rfl ?_ rfl rfl, hleads, Table.put_same⟩
    refine Table.put_of_ne ?_
    rintro rfl
    rw [hbegun.pipe] at hfree
    cases hfree
  | duplicated f slave hstage =>
    rw [hstage] at h
    obtain ⟨hbegun, hleads, hslave⟩ := h
    have hne : f.write ≠ slave := hbegun.ne_write ⟨false, hslave⟩ (by simp)
    have hstandard : ∀ k : Fd n, k.val ≤ 2 → f.write ≠ k := by
      rintro k hk rfl
      exact absurd hbegun.large (by omega)
    have hpipe : (((c.table.dup2 slave 0).dup2 slave 1).dup2 slave 2) f.write =
        c.table f.write := by
      rw [Table.dup2_of_ne (hstandard 2 (Nat.mod_le _ _)), Table.dup2_of_ne (hstandard 1 (by simp)),
        Table.dup2_of_ne (hstandard 0 (by simp))]
    have hon := onTerminal_dup2 hslave
    by_cases hlarge : 2 < slave.val
    · simp only [hlarge, if_true]
      exact ⟨hbegun.keep rfl ((Table.close_of_ne hne).trans hpipe) rfl rfl, hleads,
        onTerminal_close hon hlarge⟩
    · simp only [hlarge, if_false]
      exact ⟨hbegun.keep rfl hpipe rfl rfl, hleads, hon⟩
  | entered f hstage =>
    rw [hstage] at h
    obtain ⟨hbegun, hleads, hon⟩ := h
    exact ⟨hbegun.keep rfl rfl rfl rfl, hleads, hon, rfl⟩
  | executed f hstage =>
    rw [hstage] at h
    obtain ⟨hbegun, hleads, hon, hcwd⟩ := h
    exact ⟨_, hbegun.owner, hbegun.prepared, hleads, onTerminal_exec hon, hcwd, hbegun.silent⟩
  | reported f code hstage =>
    rw [hstage] at h
    have hbegun : Begun host allocations c f := h
    exact ⟨hbegun.owner, rfl, hbegun.idle⟩
  | exited f hstage =>
    rw [hstage] at h
    obtain ⟨-, -, hran⟩ := h
    refine ⟨rfl, fun htrue => ?_⟩
    rw [Child.die, hran] at htrue
    cases htrue
  | started hstage =>
    rw [hstage] at h
    exact h

/-- A child that ever ran its program reported nothing. -/
theorem Fits.silent {stage : ChildStage n} (h : Fits host allocations c stage)
    (hran : c.ran = true) (howner : c.owner.isSome = true) : c.reported = none := by
  have hidle : ∀ f, Begun host allocations c f → c.reported = none := fun f hbegun => hbegun.silent
  cases stage with
  | closingMaster f | closingRead f | openingSlave f | duplicating f slave | entering f
  | executing f => exact hidle f h.1
  | leading f | reporting f code => exact hidle f h
  | exiting f =>
    rw [h.2.2] at hran
    cases hran
  | starting =>
    rw [show c.owner = none from h] at howner
    cases howner
  | running image =>
    cases image with
    | none =>
      rw [show c.owner = none from h] at howner
      cases howner
    | some image =>
      obtain ⟨-, -, -, -, -, -, hreported⟩ := h
      exact hreported
  | dead | reaped => exact h.2 hran howner

/-- A child on its way can make a call, and no other child can. -/
theorem ChildCalls.way (h : ChildCalls c d bytes) : onItsWay c.stage = true := by
  cases h with
  | failed f code hstage => rcases hstage with h | h | h | h <;> rw [h] <;> rfl
  | opened f slave hstage => rw [hstage]; rfl
  | closedMaster f hstage | closedRead f hstage | led f hstage | duplicated f slave hstage
  | entered f hstage | executed f hstage | reported f code hstage | exited f hstage
  | started hstage => rw [hstage]; rfl

/-- A child gets a report pipe from no call. -/
theorem Inherits.childCalls (h : Inherits c) (hfits : Fits host allocations c c.stage)
    (hcalls : ChildCalls c d bytes) : Inherits d := by
  have hway := hcalls.way
  have hclose : ∀ (k : Fd n) (stage : ChildStage n), onItsWay stage = true →
      Inherits { c with table := c.table.close k, stage := stage } := by
    intro k stage hstage fd b cloexec hfd
    rcases h fd b cloexec (Table.close_eq_some_iff.mp hfd).2 with hb | ⟨hmarked, -⟩
    · exact .inl hb
    · exact .inr ⟨hmarked, hstage⟩
  have hexec : ∀ (image : Option Image),
      Inherits { c with table := c.table.exec, ran := true, stage := .running image } := by
    intro image fd b cloexec hfd
    obtain ⟨hopen, hunmarked⟩ := Table.exec_eq_some_iff.mp hfd
    rcases h fd b cloexec hopen with hb | ⟨hmarked, -⟩
    · exact .inl hb
    · cases hmarked.symm.trans hunmarked
  have hsame : ∀ fd b cloexec, c.table fd = some ⟨.reportWrite b, cloexec⟩ →
      b ∈ c.unflagged ∨ cloexec = true := by
    intro fd b cloexec hfd
    exact (h fd b cloexec hfd).imp id And.left
  cases hcalls with
  | closedMaster f hstage => exact hclose _ _ rfl
  | closedRead f hstage => exact hclose _ _ rfl
  | led f hstage => exact fun fd b cloexec hfd => (hsame fd b cloexec hfd).imp id fun h => ⟨h, rfl⟩
  | failed f code hstage =>
    exact fun fd b cloexec hfd => (hsame fd b cloexec hfd).imp id fun h => ⟨h, rfl⟩
  | opened f slave hstage hfree =>
    intro fd b cloexec hfd
    rcases Table.put_eq_some_iff.mp hfd with ⟨-, heq⟩ | ⟨-, hfd⟩
    · cases heq
    · exact (hsame fd b cloexec hfd).imp id fun h => ⟨h, rfl⟩
  | duplicated f slave hstage =>
    rw [hstage] at hfits
    obtain ⟨-, -, hslave⟩ := hfits
    have hdup : ∀ (table : Table n File) (k : Fd n), table slave = c.table slave →
        table.dup2 slave k slave = c.table slave ∧
        ∀ fd b cloexec, table.dup2 slave k fd = some ⟨.reportWrite b, cloexec⟩ →
          table fd = some ⟨.reportWrite b, cloexec⟩ := by
      intro table k htable
      refine ⟨?_, fun fd b cloexec hfd => ?_⟩
      · by_cases hk : slave = k
        · rw [← hk, Table.dup2_target (htable.trans hslave), hslave]
        · rw [Table.dup2_of_ne hk, htable]
      · rcases Table.dup2_eq_some hfd with hfd | ⟨e, he, heq⟩
        · exact hfd
        · obtain rfl := Option.some.inj (he.symm.trans (htable.trans hslave))
          cases heq
    obtain ⟨h0, hback0⟩ := hdup c.table 0 rfl
    obtain ⟨h1, hback1⟩ := hdup _ 1 h0
    obtain ⟨-, hback2⟩ := hdup _ 2 h1
    intro fd b cloexec hfd
    have hfd' : (((c.table.dup2 slave 0).dup2 slave 1).dup2 slave 2) fd =
        some ⟨.reportWrite b, cloexec⟩ := by
      dsimp only at hfd
      split at hfd
      · exact (Table.close_eq_some_iff.mp hfd).2
      · exact hfd
    have hold := hback0 _ _ _ (hback1 _ _ _ (hback2 _ _ _ hfd'))
    exact (hsame fd b cloexec hold).imp id fun h => ⟨h, rfl⟩
  | entered f hstage =>
    exact fun fd b cloexec hfd => (hsame fd b cloexec hfd).imp id fun h => ⟨h, rfl⟩
  | executed f hstage => exact hexec _
  | reported f code hstage =>
    exact fun fd b cloexec hfd => (hsame fd b cloexec hfd).imp id fun h => ⟨h, rfl⟩
  | exited f hstage => exact fun fd b cloexec hfd => by cases hfd
  | started hstage => exact hexec _

/-! ### What a child's moves tell its allocation -/

/-- A child that moved: what it wrote is what it reported, and one that is past its way stays so
and says nothing more. -/
structure Moves (c d : Child n) (bytes : List UInt8) : Prop where
  owner : d.owner = c.owner
  report : reportOf d.reported = reportOf c.reported ++ bytes
  past : onItsWay c.stage = false → onItsWay d.stage = false ∧ d.reported = c.reported
  told : ∀ code, c.reported = some code → d.reported = some code
  reaped : c.stage = .reaped → d.stage = .reaped

theorem Moves.refl (c : Child n) : Moves c c [] :=
  ⟨rfl, (List.append_nil _).symm, fun h => ⟨h, rfl⟩, fun _ h => h, id⟩

/-- A call of a child is such a move. -/
theorem ChildCalls.moves (h : ChildCalls c d bytes) (hfits : Fits host allocations c c.stage) :
    Moves c d bytes := by
  have hway := h.way
  have hpast : onItsWay c.stage = false → onItsWay d.stage = false ∧ d.reported = c.reported :=
    fun hfalse => by rw [hway] at hfalse; cases hfalse
  have hreaped : c.stage = .reaped → d.stage = .reaped :=
    fun heq => by rw [heq] at hway; cases hway
  cases h with
  | reported f code hstage =>
    rw [hstage] at hfits
    have hbegun : Begun host allocations c f := hfits
    refine ⟨rfl, ?_, hpast, fun code' hcode => ?_, hreaped⟩
    · simp [reportOf, hbegun.silent]
    · rw [hbegun.silent] at hcode
      cases hcode
  | _ => exact ⟨rfl, (List.append_nil _).symm, hpast, fun _ h => h, hreaped⟩

/-- So is the end of a child. -/
theorem moves_die (h : c.stage ≠ .reaped) : Moves c c.die [] :=
  ⟨rfl, (List.append_nil _).symm, fun _ => ⟨rfl, rfl⟩, fun _ h => h, fun heq => absurd heq h⟩

/-- And so is collecting it. -/
theorem moves_reap (c : Child n) : Moves c { c with stage := .reaped } [] :=
  ⟨rfl, (List.append_nil _).symm, fun _ => ⟨rfl, rfl⟩, fun _ h => h, fun _ => rfl⟩

/-- No child is forked for the allocation. -/
def Childless (children : List (Child n)) (a : ℕ) : Prop :=
  ∀ (j : ℕ) (c : Child n), children[j]? = some c → c.owner ≠ some a

/-- What was heard of a child and what is left in the pipe are what it reported. -/
def Told (children : List (Child n)) (a i : ℕ) (heard left : List UInt8) : Prop :=
  ∃ c, children[i]? = some c ∧ c.owner = some a ∧ heard ++ left = reportOf c.reported

/-- The child of an allocation got to its program, or to its end without a report. -/
def GotOn (children : List (Child n)) (a i : ℕ) : Prop :=
  ∃ c, children[i]? = some c ∧ c.owner = some a ∧ onItsWay c.stage = false ∧ c.reported = none

/-- A child that kept the allocation from answering: the failure is what it reported, and it was
collected unless waiting for it was interrupted. -/
def Refused (host : Host) (x : Allocation n) (failure : Failure) (c : Child n) : Prop :=
  ∃ code, c.reported = some code ∧ failure = startFailure host x.program code ∧
    (c.stage = .reaped ∨ x.interrupted = true)

/-- How an allocation and its child agree, at each stage. -/
def Agrees (host : Host) (children : List (Child n)) (a : ℕ) (x : Allocation n) :
    Stage n → Prop
  | .opening | .granting _ | .unlocking _ | .naming _ | .preparing _ =>
    Childless children a ∧ x.report = []
  | .piping _ image => Childless children a ∧ x.report = [] ∧
    prepare host x.spec x.cwd = .ok image
  | .flagging f | .forking f => Childless children a ∧ x.report = [] ∧ f.allocation = a ∧
    prepare host x.spec x.cwd = .ok f.image
  | .closingWrite _ _ _ i => Told children a i [] x.report
  | .reading _ _ i filled => Told children a i filled x.report ∧ filled.length < 4
  | .closingRead _ _ i filled => Told children a i filled x.report ∧
    (filled.length = 4 ∨ x.interrupted = true ∨ GotOn children a i)
  | .reaping _ i code => ∃ c, children[i]? = some c ∧ c.owner = some a ∧ c.reported = some code
  | .abandoning _ failure | .failed failure =>
    ∀ (j : ℕ) (c : Child n), children[j]? = some c → c.owner = some a →
      Refused host x failure c
  | .running _ i | .released i =>
    (∃ c, children[i]? = some c ∧ c.owner = some a) ∧
      (x.interrupted = true ∨ GotOn children a i)

/-- What they agree on holds after a move of the child, with what it wrote in the pipe. -/
theorem Agrees.moved {children children' : List (Child n)} {stage : Stage n}
    (h : Agrees host children a x stage)
    (hforth : ∀ (j : ℕ) (c : Child n), children[j]? = some c → c.owner = some a →
      ∃ d, children'[j]? = some d ∧ Moves c d bytes)
    (hback : ∀ (j : ℕ) (d : Child n), children'[j]? = some d → d.owner = some a →
      ∃ c, children[j]? = some c ∧ Moves c d bytes)
    (hchildless : Childless children a → bytes = []) :
    Agrees host children' a { x with report := x.report ++ bytes } stage := by
  have hnone : Childless children a → Childless children' a ∧ (x.report = [] →
      x.report ++ bytes = []) := by
    intro hchildren
    refine ⟨fun j d hd howner => ?_, fun hreport => by rw [hreport, hchildless hchildren]; rfl⟩
    obtain ⟨c, hc, hmoves⟩ := hback j d hd howner
    exact hchildren j c hc (hmoves.owner.symm.trans howner)
  have htold : ∀ i heard, Told children a i heard x.report →
      Told children' a i heard (x.report ++ bytes) := by
    rintro i heard ⟨c, hc, howner, hreport⟩
    obtain ⟨d, hd, hmoves⟩ := hforth i c hc howner
    refine ⟨d, hd, hmoves.owner.trans howner, ?_⟩
    rw [hmoves.report, ← hreport, List.append_assoc]
  have hgot : ∀ i, GotOn children a i → GotOn children' a i := by
    rintro i ⟨c, hc, howner, hway, hsilent⟩
    obtain ⟨d, hd, hmoves⟩ := hforth i c hc howner
    obtain ⟨hway', hreported⟩ := hmoves.past hway
    exact ⟨d, hd, hmoves.owner.trans howner, hway', hreported.trans hsilent⟩
  have hrefused : ∀ failure, (∀ (j : ℕ) (c : Child n), children[j]? = some c →
      c.owner = some a → Refused host x failure c) → ∀ (j : ℕ) (d : Child n),
      children'[j]? = some d → d.owner = some a → Refused host x failure d := by
    intro failure hall j d hd howner
    obtain ⟨c, hc, hmoves⟩ := hback j d hd howner
    obtain ⟨code, hcode, hfailure, hend⟩ := hall j c hc (hmoves.owner.symm.trans howner)
    exact ⟨code, hmoves.told code hcode, hfailure, hend.imp hmoves.reaped id⟩
  have hran : ∀ i, ((∃ c, children[i]? = some c ∧ c.owner = some a) ∧
      (x.interrupted = true ∨ GotOn children a i)) →
      (∃ d, children'[i]? = some d ∧ d.owner = some a) ∧
        (x.interrupted = true ∨ GotOn children' a i) := by
    rintro i ⟨⟨c, hc, howner⟩, hgot'⟩
    obtain ⟨d, hd, hmoves⟩ := hforth i c hc howner
    exact ⟨⟨d, hd, hmoves.owner.trans howner⟩, hgot'.imp id (hgot i)⟩
  cases stage with
  | opening | granting m | unlocking m | naming m | preparing m =>
    exact ⟨(hnone h.1).1, (hnone h.1).2 h.2⟩
  | piping m image => exact ⟨(hnone h.1).1, (hnone h.1).2 h.2.1, h.2.2⟩
  | flagging f | forking f => exact ⟨(hnone h.1).1, (hnone h.1).2 h.2.1, h.2.2⟩
  | closingWrite m r w i => exact htold i _ h
  | reading m r i filled => exact ⟨htold i _ h.1, h.2⟩
  | closingRead m r i filled => exact ⟨htold i _ h.1, h.2.imp id (Or.imp id (hgot i))⟩
  | reaping m i code =>
    obtain ⟨c, hc, howner, hcode⟩ := h
    obtain ⟨d, hd, hmoves⟩ := hforth i c hc howner
    exact ⟨d, hd, hmoves.owner.trans howner, hmoves.told code hcode⟩
  | abandoning fds failure => exact hrefused failure h
  | failed failure => exact hrefused failure h
  | running m i => exact hran i h
  | released i => exact hran i h

/-- The requests of the allocations stay what they are. -/
def SameRequests (allocations allocations' : List (Allocation n)) : Prop :=
  ∀ (a : ℕ) (x : Allocation n), allocations[a]? = some x →
    ∃ y, allocations'[a]? = some y ∧ y.spec = x.spec ∧ y.cwd = x.cwd

/-- So does what a child is like. -/
theorem Fits.mono {stage : ChildStage n} (h : Fits host allocations c stage)
    (hsame : SameRequests allocations allocations') : Fits host allocations' c stage := by
  have hprepared : ∀ a image, Prepared host allocations a image →
      Prepared host allocations' a image := by
    rintro a image ⟨x, hx, himage⟩
    obtain ⟨y, hy, hspec, hcwd⟩ := hsame a x hx
    exact ⟨y, hy, by rw [hspec, hcwd, himage]⟩
  have hbegun : ∀ f, Begun host allocations c f → Begun host allocations' c f :=
    fun f h => ⟨h.owner, hprepared _ _ h.prepared, h.pipe, h.large, h.silent, h.idle⟩
  cases stage with
  | closingMaster f | closingRead f | openingSlave f | duplicating f slave | entering f
  | executing f => exact ⟨hbegun f h.1, h.2⟩
  | leading f | reporting f code => exact hbegun f h
  | exiting f | starting | dead | reaped => exact h
  | running image =>
    cases image with
    | none => exact h
    | some image =>
      obtain ⟨a, howner, himage, hrest⟩ := h
      exact ⟨a, howner, hprepared a image himage, hrest⟩

/-! ### The invariant -/

/-- What the children of a state have to do with its other parts. -/
structure Family (host : Host) (allocations : List (Allocation n)) (children : List (Child n)) :
    Prop where
  fits : ∀ (j : ℕ) (c : Child n), children[j]? = some c → Fits host allocations c c.stage
  inherits : ∀ (j : ℕ) (c : Child n), children[j]? = some c → Inherits c
  single : ∀ (j j' : ℕ) (c c' : Child n), children[j]? = some c → children[j']? = some c' →
    c.owner.isSome = true → c.owner = c'.owner → j = j'
  owners : ∀ (j : ℕ) (c : Child n) (b : ℕ), children[j]? = some c → c.owner = some b →
    b < allocations.length

/-- A child moves and stays whose it is. -/
theorem Family.set {children : List (Child n)} (h : Family host allocations children)
    (hc : children[i]? = some c) (howner : d.owner = c.owner)
    (hfits : Fits host allocations d d.stage) (hinherits : Inherits d) :
    Family host allocations (children.set i d) where
  fits j e he := by
    rcases getElem?_set_cases he with ⟨-, rfl⟩ | ⟨-, he⟩
    · exact hfits
    · exact h.fits j e he
  inherits j e he := by
    rcases getElem?_set_cases he with ⟨-, rfl⟩ | ⟨-, he⟩
    · exact hinherits
    · exact h.inherits j e he
  single j j' e e' he he' hsome hsame := by
    have hback : ∀ (j : ℕ) (e : Child n), (children.set i d)[j]? = some e →
        ∃ e₀, children[j]? = some e₀ ∧ e.owner = e₀.owner := by
      intro j e he
      rcases getElem?_set_cases he with ⟨rfl, rfl⟩ | ⟨-, he⟩
      · exact ⟨c, hc, howner⟩
      · exact ⟨e, he, rfl⟩
    obtain ⟨e₀, he₀, heq⟩ := hback j e he
    obtain ⟨e₀', he₀', heq'⟩ := hback j' e' he'
    rw [heq] at hsome
    exact h.single j j' e₀ e₀' he₀ he₀' hsome (heq.symm.trans (hsame.trans heq'))
  owners j e b he howner' := by
    rcases getElem?_set_cases he with ⟨-, rfl⟩ | ⟨-, he⟩
    · exact h.owners i c b hc (howner.symm.trans howner')
    · exact h.owners j e b he howner'

/-- A child is forked that is the only one of its allocation. -/
theorem Family.forked {children : List (Child n)} (h : Family host allocations children)
    (hfits : Fits host allocations c c.stage) (hinherits : Inherits c)
    (hfirst : ∀ b, c.owner = some b → Childless children b ∧ b < allocations.length) :
    Family host allocations (children ++ [c]) where
  fits j d hd := by
    rcases getElem?_concat_cases hd with hd | ⟨-, rfl⟩
    · exact h.fits j d hd
    · exact hfits
  inherits j d hd := by
    rcases getElem?_concat_cases hd with hd | ⟨-, rfl⟩
    · exact h.inherits j d hd
    · exact hinherits
  single j j' d d' hd hd' hsome howner := by
    obtain ⟨b, hb⟩ := Option.isSome_iff_exists.mp hsome
    rcases getElem?_concat_cases hd with hold | ⟨hj, rfl⟩ <;>
    rcases getElem?_concat_cases hd' with hold' | ⟨hj', rfl⟩
    · exact h.single j j' d d' hold hold' hsome howner
    · exact absurd hb ((hfirst b (howner.symm.trans hb)).1 j d hold)
    · exact absurd (howner.symm.trans hb) ((hfirst b hb).1 j' d' hold')
    · exact hj.trans hj'.symm
  owners j d b hd howner := by
    rcases getElem?_concat_cases hd with hd | ⟨-, rfl⟩
    · exact h.owners j d b hd howner
    · exact (hfirst b howner).2

/-- The requests of the allocations are all that it depends on. -/
theorem Family.mono {children : List (Child n)} (h : Family host allocations children)
    (hsame : SameRequests allocations allocations') : Family host allocations' children where
  fits j c hc := (h.fits j c hc).mono hsame
  inherits := h.inherits
  single := h.single
  owners j c b hc howner := by
    have hlt := h.owners j c b hc howner
    obtain ⟨y, hy, -⟩ := hsame b _ (List.getElem?_eq_getElem hlt)
    exact (List.getElem?_eq_some_iff.mp hy).1

/-- A report pipe of the daemon is marked, unless its allocation is about to mark it. -/
def Marked (s : State n) : Prop :=
  ∀ fd b cloexec, s.table fd = some ⟨.reportWrite b, cloexec⟩ →
    cloexec = true ∨ ∃ x f, s.allocations[b]? = some x ∧ x.stage = .flagging f

/-- What holds of the daemon in every run. -/
structure Sound (host : Host) (s : State n) : Prop where
  accounted : Accounted s
  marked : Marked s
  family : Family host s.allocations s.children
  agrees : ∀ (b : ℕ) (y : Allocation n), s.allocations[b]? = some y →
    Agrees host s.children b y y.stage

/-- The requests stay when an allocation moves on. -/
theorem sameRequests_set {y : Allocation n} (hx : s.allocations[a]? = some x)
    (hspec : y.spec = x.spec) (hcwd : y.cwd = x.cwd) :
    SameRequests s.allocations (s.allocations.set a y) := by
  intro b z hz
  by_cases hb : a = b
  · subst hb
    obtain rfl := Option.some.inj (hx.symm.trans hz)
    exact ⟨y, by simp [(List.getElem?_eq_some_iff.mp hx).1], hspec, hcwd⟩
  · exact ⟨z, by rw [List.getElem?_set_ne hb, hz], rfl, rfl⟩

/-- They stay when a child reports. -/
theorem sameRequests_wrote (s : State n) (owner : Option ℕ) (bytes : List UInt8) :
    SameRequests s.allocations (s.wrote owner bytes) := by
  intro b z hz
  cases owner with
  | none => exact ⟨z, hz, rfl, rfl⟩
  | some a =>
    by_cases hab : a = b
    · exact ⟨{ z with report := z.report ++ bytes },
        by simp [State.wrote, hz, hab], rfl, rfl⟩
    · exact ⟨z, by simp [State.wrote, hz, hab], rfl, rfl⟩

/-- An allocation after a child wrote to a pipe is as before, but for its own pipe. -/
theorem wrote_cases {owner : Option ℕ} {b : ℕ} {y : Allocation n}
    (hy : (s.wrote owner bytes)[b]? = some y) :
    ∃ z, s.allocations[b]? = some z ∧
      (owner = some b ∧ y = { z with report := z.report ++ bytes } ∨ owner ≠ some b ∧ y = z) := by
  cases owner with
  | none => exact ⟨y, hy, .inr ⟨by simp, rfl⟩⟩
  | some a =>
    obtain ⟨z, hz, ⟨rfl, rfl⟩ | ⟨hne, rfl⟩⟩ := getElem?_modify_cases hy
    · exact ⟨z, hz, .inl ⟨rfl, rfl⟩⟩
    · exact ⟨y, hz, .inr ⟨fun heq => hne (Option.some.inj heq), rfl⟩⟩

/-- A child that writes nothing changes no allocation. -/
theorem wrote_nil (s : State n) (owner : Option ℕ) : s.wrote owner [] = s.allocations := by
  cases owner with
  | none => rfl
  | some a =>
    rw [State.wrote]
    simp only [List.append_nil]
    exact List.modify_id ..

/-- A child moves. -/
theorem Sound.moved (h : Sound host s) (hc : s.children[i]? = some c) (hmoves : Moves c d bytes)
    (hfits : Fits host s.allocations d d.stage) (hinherits : Inherits d) :
    Sound host ⟨s.table, s.wrote c.owner bytes, s.children.set i d⟩ where
  accounted := h.accounted.wrote c.owner bytes _
  marked fd b cloexec hfd := by
    refine (h.marked fd b cloexec hfd).imp id ?_
    rintro ⟨y, f, hy, hstage⟩
    obtain ⟨z, hz, -, -⟩ := sameRequests_wrote s c.owner bytes b y hy
    obtain ⟨y', hy', ⟨-, rfl⟩ | ⟨-, rfl⟩⟩ := wrote_cases hz
    · obtain rfl := Option.some.inj (hy.symm.trans hy')
      exact ⟨_, f, hz, hstage⟩
    · obtain rfl := Option.some.inj (hy.symm.trans hy')
      exact ⟨_, f, hz, hstage⟩
  family := (h.family.set hc hmoves.owner hfits hinherits).mono (sameRequests_wrote s c.owner bytes)
  agrees b y hy := by
    have hlt : i < s.children.length := (List.getElem?_eq_some_iff.mp hc).1
    obtain ⟨z, hz, ⟨howner, rfl⟩ | ⟨hother, rfl⟩⟩ := wrote_cases hy
    · refine (h.agrees b z hz).moved (fun j e he howner' => ?_) (fun j e he howner' => ?_)
        fun hnone => absurd howner (hnone i c hc)
      · have hsome : e.owner.isSome = true := by rw [howner']; rfl
        obtain rfl := h.family.single j i e c he hc hsome (howner'.trans howner.symm)
        obtain rfl := Option.some.inj (he.symm.trans hc)
        exact ⟨d, by simp [hlt], hmoves⟩
      · rcases getElem?_set_cases he with ⟨rfl, rfl⟩ | ⟨hj, he⟩
        · exact ⟨c, hc, hmoves⟩
        · have hsome : e.owner.isSome = true := by rw [howner']; rfl
          exact absurd (h.family.single j i e c he hc hsome (howner'.trans howner.symm)) (Ne.symm hj)
    · have hstill : Agrees host (s.children.set i d) b { y with report := y.report ++ [] }
          y.stage := (h.agrees b y hz).moved
        (fun j e he howner' => ?_) (fun j e he howner' => ?_) fun _ => rfl
      · rwa [List.append_nil] at hstill
      · have hj : i ≠ j := by
          rintro rfl
          obtain rfl := Option.some.inj (he.symm.trans hc)
          exact hother howner'
        exact ⟨e, by rw [List.getElem?_set_ne hj, he], .refl e⟩
      · rcases getElem?_set_cases he with ⟨rfl, rfl⟩ | ⟨hj, he⟩
        · exact absurd (hmoves.owner.symm.trans howner') hother
        · exact ⟨e, he, .refl e⟩

/-- Every step of a child keeps the invariant. -/
theorem Sound.childCalls (h : Sound host s) (hc : s.children[i]? = some c)
    (hcalls : ChildCalls c d bytes) :
    Sound host ⟨s.table, s.wrote c.owner bytes, s.children.set i d⟩ :=
  h.moved hc (hcalls.moves (h.family.fits i c hc)) ((h.family.fits i c hc).childCalls hcalls)
    ((h.family.inherits i c hc).childCalls (h.family.fits i c hc) hcalls)

/-- Every call of an allocation keeps the pipes marked. -/
theorem Marked.calls (h : Marked s) (haccounted : Accounted s) (hx : s.allocations[a]? = some x)
    (hcalls : Calls host s a x t) : Marked t := by
  have hlt : a < s.allocations.length := (List.getElem?_eq_some_iff.mp hx).1
  -- a pipe of a call that is about to mark it is all that can be unmarked
  have hold : ∀ (fd : Fd n) (b : ℕ) (cloexec : Bool) (y : Allocation n),
      s.table fd = some ⟨.reportWrite b, cloexec⟩ → (∀ f, x.stage ≠ .flagging f) →
      cloexec = true ∨ ∃ z f, (s.allocations.set a y)[b]? = some z ∧ z.stage = .flagging f := by
    intro fd b cloexec y hfd hstage
    refine (h fd b cloexec hfd).imp id ?_
    rintro ⟨z, f, hz, hflag⟩
    have hne : a ≠ b := by
      rintro rfl
      obtain rfl := Option.some.inj (hx.symm.trans hz)
      exact hstage f hflag
    exact ⟨z, f, by rw [List.getElem?_set_ne hne, hz], hflag⟩
  intro fd b cloexec hfd
  cases hcalls with
  | refused e hstage => exact hold fd b cloexec _ hfd (by simp [hstage])
  | opened m hstage hfree =>
    rcases Table.put_eq_some_iff.mp hfd with ⟨-, heq⟩ | ⟨-, hfd⟩
    · cases heq
    · exact hold fd b cloexec _ hfd (by simp [hstage])
  | moved m stage hearly hstage himage =>
    exact hold fd b cloexec _ hfd (by rintro f hf; rw [hf] at hearly; cases hearly)
  | gaveUp m failure hearly =>
    exact hold fd b cloexec _ hfd (by rintro f hf; rw [hf] at hearly; cases hearly)
  | piped m r w image hstage hne hr hw =>
    rcases Table.put_eq_some_iff.mp hfd with ⟨-, heq⟩ | ⟨-, hfd⟩
    · cases heq
      exact .inr ⟨{ x with stage := .flagging ⟨a, m, r, w, image⟩ }, _,
        by simp [State.advance, hlt], rfl⟩
    · rcases Table.put_eq_some_iff.mp hfd with ⟨-, heq⟩ | ⟨-, hfd⟩
      · cases heq
      · exact hold fd b cloexec _ hfd (by simp [hstage])
  | flagged f hstage =>
    rcases Table.put_eq_some_iff.mp hfd with ⟨-, heq⟩ | ⟨hfd', hfd⟩
    · exact .inl (Descriptor.mk.inj heq).2
    · refine (h fd b cloexec hfd).imp id ?_
      rintro ⟨z, f', hz, hflag⟩
      have hne : a ≠ b := by
        -- the pipe of this allocation is open under one number
        rintro rfl
        have hmem := ((haccounted.exact a x hx).open_iff fd _ rfl).mp ⟨cloexec, hfd⟩
        rw [hstage] at hmem
        simp [holds, hfd'] at hmem
      exact ⟨z, f', by simp [State.advance, List.getElem?_set_ne hne, hz], hflag⟩
  | unforked f e hstage => exact hold fd b cloexec _ hfd (by simp [hstage])
  | forked f hstage => exact hold fd b cloexec _ hfd (by simp [hstage])
  | closedWrite m r w i hstage =>
    exact hold fd b cloexec _ (Table.close_eq_some_iff.mp hfd).2 (by simp [hstage])
  | gotBytes m r i filled count hstage => exact hold fd b cloexec _ hfd (by simp [hstage])
  | gotEnd m r i filled hstage => exact hold fd b cloexec _ hfd (by simp [hstage])
  | gotError m r i filled hstage => exact hold fd b cloexec _ hfd (by simp [hstage])
  | closedRead m r i filled hstage =>
    exact hold fd b cloexec _ (Table.close_eq_some_iff.mp hfd).2 (by simp [hstage])
  | collected m i code c hstage => exact hold fd b cloexec _ hfd (by simp [hstage])
  | uncollected m i code hstage => exact hold fd b cloexec _ hfd (by simp [hstage])
  | abandoned fd' file rest failure hstage =>
    exact hold fd b cloexec _ (Table.close_eq_some_iff.mp hfd).2 (by simp [hstage])
  | released m i hstage =>
    exact hold fd b cloexec _ (Table.close_eq_some_iff.mp hfd).2 (by simp [hstage])

/-- An allocation without a child and without a report. -/
theorem Sound.early (h : Sound host s) (hx : s.allocations[a]? = some x) {m : Fd n}
    (hearly : Early m x.stage) : Childless s.children a ∧ x.report = [] := by
  have hagrees := h.agrees a x hx
  generalize x.stage = stage at hagrees hearly
  cases hearly with
  | granting | unlocking | naming | preparing => exact hagrees
  | piping image => exact ⟨hagrees.1, hagrees.2.1⟩

/-- Nothing that is refused concerns an allocation without a child. -/
theorem refused_of_childless {children : List (Child n)} (h : Childless children a)
    {failure : Failure} (j : ℕ) (c : Child n) (hc : children[j]? = some c)
    (howner : c.owner = some a) : Refused host x failure c := absurd howner (h j c hc)

/-- A report is complete, or there is none. -/
theorem length_reportOf (reported : Option Errno) :
    (reportOf reported).length = 4 ∨ reported = none := by
  cases reported with
  | none => exact .inr rfl
  | some code => exact .inl rfl

/-- A child that reached the end of its pipe without a report is past its way. -/
theorem Sound.gotOn (h : Sound host s) {i : ℕ} {filled : List UInt8}
    (htold : Told s.children a i filled []) (hshort : filled.length < 4)
    (hclosed : ¬ s.Written a) : GotOn s.children a i := by
  obtain ⟨c, hc, howner, hreport⟩ := htold
  have hsilent : c.reported = none := by
    refine (length_reportOf c.reported).resolve_left fun hlength => ?_
    rw [← hreport, List.append_nil] at hlength
    omega
  refine ⟨c, hc, howner, ?_, hsilent⟩
  have hfits := h.family.fits i c hc
  have hnot : ∀ f, ¬ Begun host s.allocations c f := by
    intro f hbegun
    have ha : f.allocation = a := Option.some.inj (hbegun.owner.symm.trans howner)
    refine hclosed (.inr ⟨c, List.mem_of_getElem? hc, f.write, _, hbegun.pipe, ?_⟩)
    rw [ha]
  generalize c.stage = stage at hfits ⊢
  cases stage with
  | running image | dead | reaped => rfl
  | starting =>
    rw [show c.owner = none from hfits] at howner
    cases howner
  | exiting f =>
    obtain ⟨-, hsome, -⟩ := hfits
    rw [hsilent] at hsome
    cases hsome
  | leading f | reporting f code => exact absurd hfits (hnot f)
  | closingMaster f | closingRead f | openingSlave f | duplicating f slave | entering f
  | executing f => exact absurd hfits.1 (hnot f)

/-- What an allocation and its child agree on, after a call of the allocation. -/
theorem Sound.agreesCalls (h : Sound host s) (hx : s.allocations[a]? = some x)
    (hcalls : Calls host s a x t) :
    ∃ y, t.allocations = s.allocations.set a y ∧ y.spec = x.spec ∧ y.cwd = x.cwd ∧
      Agrees host t.children a y y.stage := by
  have hagrees := h.agrees a x hx
  cases hcalls with
  | refused e hstage =>
    rw [hstage] at hagrees
    exact ⟨_, rfl, rfl, rfl, refused_of_childless hagrees.1⟩
  | opened m hstage hfree =>
    rw [hstage] at hagrees
    exact ⟨_, rfl, rfl, rfl, hagrees⟩
  | moved m stage hearly hstage himage =>
    have hnone := h.early hx hearly
    refine ⟨_, rfl, rfl, rfl, ?_⟩
    cases hstage with
    | granting | unlocking | naming | preparing => exact hnone
    | piping image => exact ⟨hnone.1, hnone.2, himage image rfl⟩
  | gaveUp m failure hearly =>
    exact ⟨_, rfl, rfl, rfl, refused_of_childless (h.early hx hearly).1⟩
  | piped m r w image hstage hne hr hw =>
    rw [hstage] at hagrees
    obtain ⟨hnone, hreport, himage⟩ := hagrees
    exact ⟨_, rfl, rfl, rfl, hnone, hreport, rfl, himage⟩
  | flagged f hstage =>
    rw [hstage] at hagrees
    exact ⟨_, rfl, rfl, rfl, hagrees⟩
  | unforked f e hstage =>
    rw [hstage] at hagrees
    exact ⟨_, rfl, rfl, rfl, refused_of_childless hagrees.1⟩
  | forked f hstage =>
    rw [hstage] at hagrees
    refine ⟨_, rfl, rfl, rfl, .forked (some a) (.closingMaster f) s.table s.unflagged, ?_, rfl, ?_⟩
    · exact List.getElem?_concat_length ..
    · exact hagrees.2.1
  | closedWrite m r w i hstage =>
    rw [hstage] at hagrees
    exact ⟨_, rfl, rfl, rfl, hagrees, by simp⟩
  | gotBytes m r i filled count hstage hpos hle hroom =>
    rw [hstage] at hagrees
    obtain ⟨⟨c, hc, howner, hreport⟩, -⟩ := hagrees
    have hheard : Told s.children a i (filled ++ x.report.take count) (x.report.drop count) := by
      refine ⟨c, hc, howner, ?_⟩
      rw [List.append_assoc, List.take_append_drop, hreport]
    have hlength : (filled ++ x.report.take count).length = filled.length + count := by
      simp [hle]
    refine ⟨_, rfl, rfl, rfl, ?_⟩
    by_cases hfull : filled.length + count = 4
    · simp only [hfull, if_true]
      exact ⟨hheard, .inl (hlength.trans hfull)⟩
    · simp only [hfull, if_false]
      exact ⟨hheard, by omega⟩
  | gotEnd m r i filled hstage hempty hclosed =>
    rw [hstage] at hagrees
    obtain ⟨htold, hshort⟩ := hagrees
    have hgot := h.gotOn (hempty ▸ htold) hshort hclosed
    exact ⟨_, rfl, rfl, rfl, htold, .inr (.inr hgot)⟩
  | gotError m r i filled hstage =>
    rw [hstage] at hagrees
    exact ⟨_, rfl, rfl, rfl, hagrees.1, .inr (.inl rfl)⟩
  | closedRead m r i filled hstage =>
    rw [hstage] at hagrees
    obtain ⟨⟨c, hc, howner, hreport⟩, hway⟩ := hagrees
    refine ⟨_, rfl, rfl, rfl, ?_⟩
    by_cases hfull : filled.length = 4
    · simp only [hfull, if_true]
      cases hreported : c.reported with
      | none =>
        rw [hreported] at hreport
        rw [(List.append_eq_nil_iff.mp hreport).1] at hfull
        cases hfull
      | some code =>
        -- the whole of the pipe was heard
        rw [hreported] at hreport
        have hlength := congrArg List.length hreport
        rw [List.length_append, hfull] at hlength
        have hrest : x.report = [] := by
          have hcode : (reportOf (some code)).length = 4 := rfl
          exact List.eq_nil_of_length_eq_zero (by omega)
        rw [hrest, List.append_nil] at hreport
        refine ⟨c, hc, howner, ?_⟩
        rw [hreported, hreport, reportOf, Option.elim_some, fromNeBytes_toNeBytes]
    · simp only [hfull, if_false]
      exact ⟨⟨c, hc, howner⟩, hway.resolve_left hfull⟩
  | collected m i code c hstage hc hdead =>
    rw [hstage] at hagrees
    obtain ⟨c', hc', howner, hcode⟩ := hagrees
    obtain rfl := Option.some.inj (hc.symm.trans hc')
    have hlt : i < s.children.length := (List.getElem?_eq_some_iff.mp hc).1
    refine ⟨_, rfl, rfl, rfl, fun j d hd howner' => ?_⟩
    rcases getElem?_set_cases hd with ⟨rfl, rfl⟩ | ⟨hj, hd⟩
    · exact ⟨code, hcode, rfl, .inl rfl⟩
    · have hsome : d.owner.isSome = true := by rw [howner']; rfl
      exact absurd (h.family.single j i d c hd hc hsome (howner'.trans howner.symm)) (Ne.symm hj)
  | uncollected m i code hstage =>
    rw [hstage] at hagrees
    obtain ⟨c, hc, howner, hcode⟩ := hagrees
    refine ⟨_, rfl, rfl, rfl, fun j d hd howner' => ?_⟩
    have hsome : d.owner.isSome = true := by rw [howner']; rfl
    obtain rfl := h.family.single j i d c hd hc hsome (howner'.trans howner.symm)
    obtain rfl := Option.some.inj (hd.symm.trans hc)
    exact ⟨code, hcode, rfl, .inr rfl⟩
  | abandoned fd file rest failure hstage =>
    rw [hstage] at hagrees
    refine ⟨_, rfl, rfl, rfl, ?_⟩
    dsimp only
    split <;> exact hagrees
  | released m i hstage =>
    rw [hstage] at hagrees
    exact ⟨_, rfl, rfl, rfl, hagrees⟩

/-- What a call of an allocation does to the children. -/
theorem children_of_calls (hcalls : Calls host s a x t) :
    t.children = s.children ∨
    (∃ f, x.stage = .forking f ∧ t.table = s.table ∧ t.children = s.children ++
      [.forked (some a) (.closingMaster f) s.table s.unflagged]) ∨
    ∃ i c, s.children[i]? = some c ∧ c.stage = .dead ∧
      t.children = s.children.set i { c with stage := .reaped } := by
  cases hcalls with
  | forked f hstage => exact .inr (.inl ⟨f, hstage, rfl, rfl⟩)
  | collected m i code c hstage hc hdead => exact .inr (.inr ⟨i, c, hc, hdead, rfl⟩)
  | _ => exact .inl rfl

/-- An allocation that did not mark its pipe yet is seen to. -/
theorem mem_unflagged (hx : s.allocations[a]? = some x) {f : Fork n}
    (hstage : x.stage = .flagging f) : a ∈ s.unflagged := by
  have hlt : a < s.allocations.length := (List.getElem?_eq_some_iff.mp hx).1
  refine List.mem_filter.mpr ⟨List.mem_range.mpr hlt, ?_⟩
  rw [hx]
  simp only [hstage]

/-- A child has just the pipes that were unmarked when it was forked. -/
theorem inherits_forked (h : Marked s) (owner : Option ℕ) {stage : ChildStage n}
    (hstage : onItsWay stage = true) : Inherits (.forked owner stage s.table s.unflagged) := by
  intro fd b cloexec hfd
  rcases h fd b cloexec hfd with hmarked | ⟨y, f, hy, hflag⟩
  · exact .inr ⟨hmarked, hstage⟩
  · exact .inl (mem_unflagged hy hflag)

/-- A child as it is forked has what its parent had. -/
theorem Sound.fits_forked (h : Sound host s) (hx : s.allocations[a]? = some x) {f : Fork n}
    (hstage : x.stage = .forking f) :
    Fits host s.allocations (.forked (some a) (.closingMaster f) s.table s.unflagged)
      (.closingMaster f) := by
  have hagrees := h.agrees a x hx
  have hexact := h.accounted.exact a x hx
  rw [hstage] at hagrees hexact
  obtain ⟨-, -, rfl, himage⟩ := hagrees
  have hpipe : s.table.Open f.write (.reportWrite f.allocation) := hexact.isOpen (by simp [holds])
  have hlarge : 2 < f.write.val := by
    by_contra hsmall
    obtain ⟨k, hk⟩ := h.accounted.standard f.write (by omega)
    cases hk.unique hpipe
  have hmarked : s.table f.write = some ⟨.reportWrite f.allocation, true⟩ := by
    obtain ⟨cloexec, hopen⟩ := hpipe
    rcases h.marked _ _ _ hopen with hmarked | ⟨y, f', hy, hflag⟩
    · rw [hopen, hmarked]
    · obtain rfl := Option.some.inj (hx.symm.trans hy)
      cases hstage.symm.trans hflag
  exact ⟨⟨rfl, ⟨x, hx, himage⟩, hmarked, hlarge, rfl, rfl⟩, hexact.isOpen (by simp [holds]),
    hexact.isOpen (by simp [holds])⟩

/-- A dead child is collected. -/
theorem Sound.reaped (h : Sound host s) (hc : s.children[i]? = some c) (hdead : c.stage = .dead) :
    Sound host { s with children := s.children.set i { c with stage := .reaped } } := by
  have hfits := h.family.fits i c hc
  rw [hdead] at hfits
  have hmoved := h.moved hc (moves_reap c) hfits fun fd b cloexec hfd => by
    rw [show c.table = .none from hfits.1] at hfd
    cases hfd
  rwa [wrote_nil] at hmoved

/-- Children of others change nothing that an allocation agrees on. -/
theorem Agrees.others {children children' : List (Child n)} {stage : Stage n}
    (h : Agrees host children a x stage)
    (hforth : ∀ (j : ℕ) (c : Child n), children[j]? = some c → children'[j]? = some c)
    (hback : ∀ (j : ℕ) (c : Child n), children'[j]? = some c → c.owner = some a →
      children[j]? = some c) :
    Agrees host children' a x stage := by
  have hstill : Agrees host children' a { x with report := x.report ++ [] } stage :=
    h.moved (fun j c hc _ => ⟨c, hforth j c hc, .refl c⟩)
      (fun j c hc howner => ⟨c, hback j c hc howner, .refl c⟩) fun _ => rfl
  rwa [List.append_nil] at hstill

/-- Every call of an allocation keeps the invariant. -/
theorem Sound.calls (h : Sound host s) (hx : s.allocations[a]? = some x)
    (hcalls : Calls host s a x t) : Sound host t := by
  obtain ⟨y, hallocations, hspec, hcwd, hagrees⟩ := h.agreesCalls hx hcalls
  have hsame : SameRequests s.allocations t.allocations :=
    hallocations ▸ sameRequests_set hx hspec hcwd
  have hlt : a < s.allocations.length := (List.getElem?_eq_some_iff.mp hx).1
  -- the other allocations see at most a child that is not theirs, or is collected
  have hothers : (∀ b z, a ≠ b → s.allocations[b]? = some z →
      Agrees host t.children b z z.stage) ∧ Family host s.allocations t.children := by
    rcases children_of_calls hcalls with heq | ⟨f, hstage, -, heq⟩ | ⟨i, c, hc, hdead, heq⟩
    · rw [heq]
      exact ⟨fun b z _ hz => h.agrees b z hz, h.family⟩
    · rw [heq]
      have hnone : Childless s.children a := by
        have hfork := h.agrees a x hx
        rw [hstage] at hfork
        exact hfork.1
      refine ⟨fun b z hb hz => (h.agrees b z hz).others (fun j c hc => ?_) fun j c hc howner => ?_,
        h.family.forked (h.fits_forked hx hstage) (inherits_forked h.marked _ rfl) ?_⟩
      · exact getElem?_concat_of_some hc
      · rcases getElem?_concat_cases hc with hc | ⟨-, rfl⟩
        · exact hc
        · exact absurd (Option.some.inj howner) hb
      · intro b hb
        obtain rfl := Option.some.inj hb
        exact ⟨hnone, hlt⟩
    · rw [heq]
      have hreaped := h.reaped hc hdead
      exact ⟨fun b z _ hz => hreaped.agrees b z hz, hreaped.family⟩
  refine ⟨h.accounted.calls hx hcalls, h.marked.calls h.accounted hx hcalls,
    hothers.2.mono hsame, fun b z hz => ?_⟩
  rw [hallocations] at hz
  rcases getElem?_set_cases hz with ⟨rfl, rfl⟩ | ⟨hb, hz⟩
  · exact hagrees
  · exact hothers.1 b z hb hz

/-- Every step keeps the invariant. -/
theorem Sound.stepped (h : Sound host s) {e : Event n} (hstep : step host s e = some t) :
    Sound host t := by
  have haccounted := h.accounted.stepped hstep
  cases e with
  | spawn spec usableDirectory =>
    obtain rfl := Option.some.inj hstep
    have hsame : SameRequests s.allocations
        (s.allocations ++ [.start spec usableDirectory]) :=
      fun b z hz => ⟨z, getElem?_concat_of_some hz, rfl, rfl⟩
    refine ⟨haccounted, fun fd b cloexec hfd => ?_, h.family.mono hsame, fun b z hz => ?_⟩
    · refine (h.marked fd b cloexec hfd).imp id ?_
      rintro ⟨y, f, hy, hflag⟩
      exact ⟨y, f, getElem?_concat_of_some hy, hflag⟩
    · rcases getElem?_concat_cases hz with hz | ⟨rfl, rfl⟩
      · exact h.agrees b z hz
      · have hnone : Childless s.children s.allocations.length :=
          fun j c hc howner => absurd (h.family.owners j c _ hc howner) (lt_irrefl _)
        unfold Allocation.start
        split
        · exact refused_of_childless hnone
        · exact refused_of_childless hnone
        · exact ⟨hnone, rfl⟩
  | call a answer =>
    obtain ⟨x, hx, hcalls⟩ := calls_of_step hstep
    exact h.calls hx hcalls
  | child i answer =>
    obtain ⟨c, hc, hstep⟩ := Option.bind_eq_some_iff.mp hstep
    obtain ⟨⟨d, bytes⟩, hcall, hstep⟩ := Option.bind_eq_some_iff.mp hstep
    obtain rfl := Option.some.inj hstep
    exact h.childCalls hc (childCalls_of_childCall rfl hcall)
  | ends i =>
    obtain ⟨c, hc, hstep⟩ := Option.bind_eq_some_iff.mp hstep
    split at hstep
    · cases hstep
    · rename_i hends
      obtain rfl := Option.some.inj hstep
      have hmoved := h.moved hc (moves_die fun heq => hends (.inr heq))
        ⟨rfl, (h.family.fits i c hc).silent⟩ fun fd b cloexec hfd => by cases hfd
      rwa [wrote_nil] at hmoved
  | reap a =>
    obtain ⟨x, -, hstep⟩ := Option.bind_eq_some_iff.mp hstep
    split at hstep <;> try cases hstep
    all_goals
      obtain ⟨c, hc, hstep⟩ := Option.bind_eq_some_iff.mp hstep
      split at hstep
      · rename_i hdead
        obtain rfl := Option.some.inj hstep
        exact h.reaped hc hdead
      · cases hstep
  | openOther fd k cloexec =>
    simp only [step] at hstep
    split at hstep
    · obtain rfl := Option.some.inj hstep
      refine ⟨haccounted, fun fd' b c hfd => ?_, h.family, h.agrees⟩
      rcases Table.put_eq_some_iff.mp hfd with ⟨-, heq⟩ | ⟨-, hfd⟩
      · cases heq
      · exact h.marked fd' b c hfd
    · cases hstep
  | closeOther fd =>
    simp only [step] at hstep
    split at hstep
    · split at hstep
      · obtain rfl := Option.some.inj hstep
        refine ⟨haccounted, fun fd' b c hfd => ?_, h.family, h.agrees⟩
        exact h.marked fd' b c (Table.close_eq_some_iff.mp hfd).2
      · cases hstep
    · cases hstep
  | forkOther =>
    obtain rfl := Option.some.inj hstep
    have hchildless : ∀ b, none = some b → Childless s.children b ∧ b < s.allocations.length :=
      fun b hb => by cases hb
    refine ⟨haccounted, h.marked, h.family.forked rfl (inherits_forked h.marked _ rfl) hchildless,
      fun b z hz => (h.agrees b z hz).others (fun j c hc => getElem?_concat_of_some hc) ?_⟩
    intro j c hc howner
    rcases getElem?_concat_cases hc with hc | ⟨-, rfl⟩
    · exact hc
    · cases howner

/-! ### Results -/

theorem sound_initial (host : Host) (n : ℕ) : Sound host (State.initial n) where
  accounted := accounted_initial n
  marked fd b cloexec hfd := by
    simp only [State.initial] at hfd
    split at hfd
    · cases hfd
    · cases hfd
  family :=
    { fits _ _ hc := by cases hc
      inherits _ _ hc := by cases hc
      single _ _ _ _ hc := by cases hc
      owners _ _ _ hc := by cases hc }
  agrees _ _ hy := by cases hy

theorem sound_of_reachable (h : (machine host n).Reachable s) : Sound host s :=
  Machine.ReachableWhen.invariant (sound_initial host n)
    (fun _ _ _ hs _ hstep => hs.stepped hstep) h

/-- A child that runs the program of an allocation does so as the request says: with its arguments
and environment, in its directory, and with the terminal in front of it. -/
def RunsAsAsked (host : Host) (x : Allocation n) (a : ℕ) (c : Child n) : Prop :=
  ∀ image, c.stage = .running (some image) →
    prepare host x.spec x.cwd = .ok image ∧ c.leads = true ∧ OnTerminal c.table a ∧
      c.cwd = some image.cwd

/-- In every run of the daemon, whatever the calls answer: an allocation has one child at most,
which runs what the request asks for or nothing, and reports nothing once it does. One that failed
has none that ever ran, and its failure is what the child reported, which was collected unless the
waiting was interrupted. One that answered has a child that got past its way without a report,
unless the reading was interrupted. -/
theorem allocation_agrees (h : (machine host n).Reachable s) :
    (∀ (j : ℕ) (c : Child n) (a : ℕ), s.children[j]? = some c → c.owner = some a →
      ∃ x, s.allocations[a]? = some x ∧ RunsAsAsked host x a c ∧
        (c.ran = true → c.reported = none) ∧
        (∀ failure, x.stage = .failed failure → c.ran = false ∧ Refused host x failure c) ∧
        ∀ (j' : ℕ) (d : Child n), s.children[j']? = some d → d.owner = some a → j' = j) ∧
    ∀ (a : ℕ) (x : Allocation n) (m : Fd n) (i : ℕ), s.allocations[a]? = some x →
      x.stage = .running m i ∨ x.stage = .released i →
      ∃ c, s.children[i]? = some c ∧ c.owner = some a ∧
        (x.interrupted = true ∨ onItsWay c.stage = false ∧ c.reported = none) := by
  have hs := sound_of_reachable h
  refine ⟨fun j c a hc howner => ?_, fun a x m i hx hstage => ?_⟩
  · obtain ⟨x, hx⟩ : ∃ x, s.allocations[a]? = some x :=
      ⟨_, List.getElem?_eq_getElem (hs.family.owners j c a hc howner)⟩
    have hsome : c.owner.isSome = true := by rw [howner]; rfl
    have hfits := hs.family.fits j c hc
    refine ⟨x, hx, fun image himage => ?_, fun hran => hfits.silent hran hsome,
      fun failure hfailed => ?_, fun j' d hd hd' => ?_⟩
    · rw [himage] at hfits
      obtain ⟨b, hb, ⟨y, hy, hprepare⟩, hleads, hon, hcwd, -⟩ := hfits
      obtain rfl := Option.some.inj (howner.symm.trans hb)
      obtain rfl := Option.some.inj (hx.symm.trans hy)
      exact ⟨hprepare, hleads, hon, hcwd⟩
    · have hagrees := hs.agrees a x hx
      rw [hfailed] at hagrees
      have hrefused := hagrees j c hc howner
      refine ⟨?_, hrefused⟩
      obtain ⟨code, hcode, -⟩ := hrefused
      cases hran : c.ran with
      | false => rfl
      | true =>
        rw [hfits.silent hran hsome] at hcode
        cases hcode
    · exact (hs.family.single j j' c d hc hd hsome (howner.trans hd'.symm)).symm
  · have hagrees := hs.agrees a x hx
    have hran : (∃ c, s.children[i]? = some c ∧ c.owner = some a) ∧
        (x.interrupted = true ∨ GotOn s.children a i) := by
      rcases hstage with hstage | hstage <;> rw [hstage] at hagrees <;> exact hagrees
    obtain ⟨⟨c, hc, howner⟩, hinterrupted | ⟨d, hd, -, hway, hsilent⟩⟩ := hran
    · exact ⟨c, hc, howner, .inl hinterrupted⟩
    · obtain rfl := Option.some.inj (hc.symm.trans hd)
      exact ⟨c, hc, howner, .inr ⟨hway, hsilent⟩⟩

theorem refused_spawn_never_ran : ∃ s x c, (machine quietHost 4).Reachable s ∧
    s.allocations[0]? = some x ∧ x.stage = .failed (startFailure quietHost "/bin/sh" 1) ∧
    s.children[0]? = some c ∧ c.ran = false ∧
    Refused quietHost x (startFailure quietHost "/bin/sh" 1) c := by
  have hrefused : ((machine quietHost 4).run refusedSpawn).bind (fun s =>
      s.children[0]?.bind fun c => s.allocations[0]?.map fun x => (c.owner, x.stage)) =
      some (some 0, .failed (startFailure quietHost "/bin/sh" 1)) := by
    decide +kernel
  obtain ⟨s, hrun, hfound⟩ := Option.bind_eq_some_iff.mp hrefused
  obtain ⟨c, hc, hfound⟩ := Option.bind_eq_some_iff.mp hfound
  obtain ⟨x, hx, hpair⟩ := Option.map_eq_some_iff.mp hfound
  obtain ⟨howner, hstage⟩ := Prod.mk.inj hpair
  have hs := Machine.reachable_of_run hrun
  obtain ⟨y, hy, -, -, hfailed, -⟩ := (allocation_agrees hs).1 0 c 0 hc howner
  obtain rfl := Option.some.inj (hx.symm.trans hy)
  exact ⟨s, x, c, hs, hx, hstage, hc, hfailed _ hstage⟩

/-- A child on its way has a next call that can be answered. -/
theorem childCall_of_way (hway : onItsWay c.stage = true) :
    ∃ answer, (childCall c c.stage answer).isSome = true := by
  cases hstage : c.stage with
  | openingSlave f => exact ⟨.fails 0, rfl⟩
  | running image => rw [hstage] at hway; cases hway
  | dead => rw [hstage] at hway; cases hway
  | reaped => rw [hstage] at hway; cases hway
  | _ => exact ⟨.done, rfl⟩

section Left

variable {α : Type} {most : ℕ} {cost : α → ℕ} {l : List α} {y z : α}

/-- What the item at a place of a list has left, or one that is still to come there. -/
def left (most : ℕ) (cost : α → ℕ) (l : List α) (i : ℕ) : ℕ := l[i]?.elim most cost

/-- An item that spends something. -/
theorem left_set {spent : ℕ} (hy : l[i]? = some y) (hz : cost z + spent ≤ cost y) (j : ℕ) :
    left most cost (l.set i z) j + (if i = j then spent else 0) ≤ left most cost l j := by
  by_cases hij : i = j
  · subst hij
    obtain ⟨hlt, -⟩ := List.getElem?_eq_some_iff.mp hy
    rw [left, left, List.getElem?_set_self hlt, hy, if_pos rfl]
    exact hz
  · rw [left, List.getElem?_set_ne hij, if_neg hij]
    exact Nat.le_refl _

/-- An item that is added. -/
theorem left_concat (hy : cost y ≤ most) (j : ℕ) :
    left most cost (l ++ [y]) j ≤ left most cost l j := by
  unfold left
  cases hj : l[j]? with
  | some z => rw [getElem?_concat_of_some hj]
  | none =>
    cases hnew : (l ++ [y])[j]? with
    | none => exact Nat.le_refl _
    | some z =>
      rcases getElem?_concat_cases hnew with hold | ⟨-, rfl⟩
      · rw [hj] at hold
        cases hold
      · exact hy

/-- Items that change in something else. -/
theorem left_modify {g : α → α} (hg : ∀ y, cost (g y) = cost y) (j : ℕ) :
    left most cost (l.modify i g) j = left most cost l j := by
  rw [left, left, List.getElem?_modify]
  split
  · cases l[j]? with
    | none => rfl
    | some y => exact hg y
  · simp

end Left

/-- The calls that an allocation has left at most. -/
def callsLeft : Stage n → ℕ
  | .opening => 16
  | .granting _ => 15
  | .unlocking _ => 14
  | .naming _ => 13
  | .preparing _ => 12
  | .piping _ _ => 11
  | .flagging _ => 10
  | .forking _ => 9
  | .closingWrite _ _ _ _ => 8
  | .reading _ _ _ filled => 3 + max 1 (4 - filled.length)
  | .closingRead _ _ _ _ => 3
  | .reaping _ _ _ => 2
  | .abandoning fds _ => fds.length
  | .running _ _ => 1
  | .released _ | .failed _ => 0

/-- The calls that a child has left at most. -/
def childCallsLeft : ChildStage n → ℕ
  | .closingMaster _ => 9
  | .closingRead _ => 8
  | .leading _ => 7
  | .openingSlave _ => 6
  | .duplicating _ _ => 5
  | .entering _ => 4
  | .executing _ => 3
  | .reporting _ _ => 2
  | .exiting _ | .starting => 1
  | .running _ | .dead | .reaped => 0

/-- The calls that an allocation of the daemon has left, also one that was not asked for yet. -/
def allocationLeft (s : State n) : ℕ → ℕ :=
  left 16 (fun x => callsLeft x.stage) s.allocations

/-- The calls that a child of the daemon has left, also one that was not forked yet. -/
def childLeft (s : State n) : ℕ → ℕ := left 9 (fun c => childCallsLeft c.stage) s.children

/-- An event is a call of an allocation. -/
def isCallOf (a : ℕ) : Event n → Bool
  | .call b _ => b = a
  | _ => false

/-- An event is a call of a child. -/
def isCallOfChild (i : ℕ) : Event n → Bool
  | .child j _ => j = i
  | _ => false

/-- Every call before the fork takes one. -/
theorem callsLeft_beforeFork {stage : Stage n} {answer : Answer n}
    (h : beforeFork host s a x stage answer = some t) :
    ∃ y, t.allocations = s.allocations.set a y ∧ callsLeft y.stage + 1 ≤ callsLeft stage := by
  have hmoved : ∀ (table : Table n File) (next : Stage n), callsLeft next + 1 ≤ callsLeft stage →
      some (s.advance a x table next) = some t →
      ∃ y, t.allocations = s.allocations.set a y ∧ callsLeft y.stage + 1 ≤ callsLeft stage := by
    rintro table next hle heq
    obtain rfl := Option.some.inj heq
    exact ⟨{ x with stage := next }, rfl, hle⟩
  unfold beforeFork at h
  split at h
  · exact hmoved _ _ (by simp [callsLeft]) h
  · split at h
    · exact hmoved _ _ (by simp [callsLeft]) h
    · cases h
  · exact hmoved _ _ (by simp [callsLeft]) h
  · exact hmoved _ _ (by simp [callsLeft]) h
  · exact hmoved _ _ (by simp [callsLeft]) h
  · exact hmoved _ _ (by simp [callsLeft]) h
  · exact hmoved _ _ (by simp [callsLeft]) h
  · exact hmoved _ _ (by simp [callsLeft]) h
  · exact hmoved _ _ (by simp [callsLeft]) h
  · split at h
    · exact hmoved _ _ (by simp [callsLeft]) h
    · exact hmoved _ _ (by simp [callsLeft]) h
  · split at h
    · exact hmoved _ _ (by simp [callsLeft]) h
    · cases h
  · exact hmoved _ _ (by simp [callsLeft]) h
  · exact hmoved _ _ (by simp [callsLeft]) h
  · obtain rfl := Option.some.inj h
    exact ⟨_, rfl, by simp [callsLeft]⟩
  · cases h

/-- So does every one behind it. -/
theorem callsLeft_afterFork {stage : Stage n} {answer : Answer n}
    (h : afterFork host s a x stage answer = some t) :
    ∃ y, t.allocations = s.allocations.set a y ∧ callsLeft y.stage + 1 ≤ callsLeft stage := by
  unfold afterFork at h
  split at h
  · obtain rfl := Option.some.inj h
    exact ⟨_, rfl, by simp [callsLeft]⟩
  · split at h
    · rename_i m r i filled count hcount
      obtain rfl := Option.some.inj h
      refine ⟨_, rfl, ?_⟩
      have hlength : (filled ++ x.report.take count).length = filled.length + count := by
        rw [List.length_append, List.length_take, Nat.min_eq_left hcount.2.1]
      split
      · simp only [callsLeft]
        omega
      · simp only [callsLeft, hlength]
        omega
    · cases h
  · split at h
    · obtain rfl := Option.some.inj h
      exact ⟨_, rfl, by simp only [callsLeft]; omega⟩
    · cases h
  · obtain rfl := Option.some.inj h
    exact ⟨_, rfl, by simp only [callsLeft]; omega⟩
  · obtain rfl := Option.some.inj h
    refine ⟨_, rfl, ?_⟩
    split <;> simp [callsLeft]
  · split at h
    · split at h
      · obtain rfl := Option.some.inj h
        exact ⟨_, rfl, by simp [callsLeft]⟩
      · cases h
    · cases h
  · obtain rfl := Option.some.inj h
    exact ⟨_, rfl, by simp [callsLeft]⟩
  · obtain rfl := Option.some.inj h
    refine ⟨_, rfl, ?_⟩
    split <;> simp [callsLeft]
  · obtain rfl := Option.some.inj h
    exact ⟨_, rfl, by simp [callsLeft]⟩
  · cases h

/-- Every call of a child takes one. -/
theorem ChildCalls.takesOne (h : ChildCalls c d bytes) :
    childCallsLeft d.stage + 1 ≤ childCallsLeft c.stage := by
  cases h with
  | failed f code hstage =>
    rcases hstage with hstage | hstage | hstage | hstage <;> rw [hstage] <;> simp [childCallsLeft]
  | closedMaster f hstage | closedRead f hstage | led f hstage | opened f slave hstage
  | duplicated f slave hstage | entered f hstage | executed f hstage | reported f code hstage
  | exited f hstage | started hstage => rw [hstage]; simp [childCallsLeft, Child.die]

/-- No step gives an allocation a call back, and each of its calls takes one. -/
theorem allocationLeft_step {e : Event n} (h : step host s e = some t) (a : ℕ) :
    allocationLeft t a + (if isCallOf a e = true then 1 else 0) ≤ allocationLeft s a := by
  cases e with
  | spawn spec usableDirectory =>
    obtain rfl := Option.some.inj h
    refine left_concat ?_ a
    unfold Allocation.start
    split <;> simp [callsLeft]
  | call b answer =>
    obtain ⟨x, hx, hcall⟩ := Option.bind_eq_some_iff.mp h
    obtain ⟨y, ht, hy⟩ : ∃ y, t.allocations = s.allocations.set b y ∧
        callsLeft y.stage + 1 ≤ callsLeft x.stage := by
      rcases Option.or_eq_some_iff.mp hcall with hbefore | ⟨-, hafter⟩
      · exact callsLeft_beforeFork hbefore
      · exact callsLeft_afterFork hafter
    have hleft : left 16 (fun x : Allocation n => callsLeft x.stage) (s.allocations.set b y) a +
        (if b = a then 1 else 0) ≤ allocationLeft s a := left_set hx hy a
    simpa only [allocationLeft, ht, isCallOf, decide_eq_true_eq] using hleft
  | child i answer =>
    obtain ⟨c, hc, h⟩ := Option.bind_eq_some_iff.mp h
    obtain ⟨⟨d, bytes⟩, hcall, h⟩ := Option.bind_eq_some_iff.mp h
    obtain rfl := Option.some.inj h
    simp only [allocationLeft, State.wrote, isCallOf]
    split
    · refine (left_modify ?_ a).le
      exact fun _ => rfl
    · exact Nat.le_refl _
  | ends i =>
    obtain ⟨c, hc, h⟩ := Option.bind_eq_some_iff.mp h
    split at h
    · cases h
    · obtain rfl := Option.some.inj h
      exact Nat.le_refl _
  | reap b =>
    obtain ⟨x, -, h⟩ := Option.bind_eq_some_iff.mp h
    split at h <;> try cases h
    all_goals
      obtain ⟨c, hc, h⟩ := Option.bind_eq_some_iff.mp h
      split at h
      · obtain rfl := Option.some.inj h
        exact Nat.le_refl _
      · cases h
  | openOther fd k cloexec =>
    simp only [step] at h
    split at h
    · obtain rfl := Option.some.inj h
      exact Nat.le_refl _
    · cases h
  | closeOther fd =>
    simp only [step] at h
    split at h
    · split at h
      · obtain rfl := Option.some.inj h
        exact Nat.le_refl _
      · cases h
    · cases h
  | forkOther =>
    obtain rfl := Option.some.inj h
    exact Nat.le_refl _

/-- The same of a child. -/
theorem childLeft_step {e : Event n} (h : step host s e = some t) (i : ℕ) :
    childLeft t i + (if isCallOfChild i e = true then 1 else 0) ≤ childLeft s i := by
  have hended : ∀ {j : ℕ} {c d : Child n}, s.children[j]? = some c → childCallsLeft d.stage = 0 →
      left 9 (fun c => childCallsLeft c.stage) (s.children.set j d) i ≤ childLeft s i := by
    intro j c d hc hd
    have hleft : left 9 (fun c : Child n => childCallsLeft c.stage) (s.children.set j d) i +
        (if j = i then 0 else 0) ≤ childLeft s i := left_set hc (by omega) i
    exact le_trans (Nat.le_add_right _ _) hleft
  cases e with
  | spawn spec usableDirectory =>
    obtain rfl := Option.some.inj h
    exact Nat.le_refl _
  | call b answer =>
    obtain ⟨x, hx, hcalls⟩ := calls_of_step h
    rcases children_of_calls hcalls with ht | ⟨f, -, -, ht⟩ | ⟨j, c, hc, -, ht⟩
    · simp [childLeft, ht, isCallOfChild]
    · simp only [childLeft, ht, isCallOfChild]
      refine left_concat ?_ i
      exact Nat.le_refl 9
    · simp only [childLeft, ht, isCallOfChild]
      exact hended hc rfl
  | child j answer =>
    obtain ⟨c, hc, h⟩ := Option.bind_eq_some_iff.mp h
    obtain ⟨⟨d, bytes⟩, hcall, h⟩ := Option.bind_eq_some_iff.mp h
    obtain rfl := Option.some.inj h
    have hleft : left 9 (fun c : Child n => childCallsLeft c.stage) (s.children.set j d) i +
        (if j = i then 1 else 0) ≤ childLeft s i :=
      left_set hc (childCalls_of_childCall rfl hcall).takesOne i
    simpa only [childLeft, isCallOfChild, decide_eq_true_eq] using hleft
  | ends j =>
    obtain ⟨c, hc, h⟩ := Option.bind_eq_some_iff.mp h
    split at h
    · cases h
    · obtain rfl := Option.some.inj h
      exact hended hc rfl
  | reap b =>
    obtain ⟨x, -, h⟩ := Option.bind_eq_some_iff.mp h
    split at h <;> try cases h
    all_goals
      obtain ⟨c, hc, h⟩ := Option.bind_eq_some_iff.mp h
      split at h
      · obtain rfl := Option.some.inj h
        exact hended hc rfl
      · cases h
  | openOther fd k cloexec =>
    simp only [step] at h
    split at h
    · obtain rfl := Option.some.inj h
      exact Nat.le_refl _
    · cases h
  | closeOther fd =>
    simp only [step] at h
    split at h
    · split at h
      · obtain rfl := Option.some.inj h
        exact Nat.le_refl _
      · cases h
    · cases h
  | forkOther =>
    obtain rfl := Option.some.inj h
    exact left_concat (Nat.le_of_ble_eq_true rfl) i

end RemoteWorkspace.Analysis.PtyAllocation
