import RemoteWorkspace.Computation.Slots
import RemoteWorkspace.Model.PtyAllocation

/-!
# No descriptor of a terminal is lost

Whatever the calls of any number of allocations answer, and however they interleave, the table of
the daemon has of each allocation just the descriptors that its next call works on. One that
failed has none left, and one that answered has its terminal's and nothing else until the output
reader closes it, so two terminals never share a number, and no number that is closed is anything
but what the code takes it for.
-/

set_option autoImplicit false

namespace RemoteWorkspace.Analysis.PtyAllocation

open RemoteWorkspace.Computation RemoteWorkspace.Computation.Descriptors
open RemoteWorkspace.Model.PtyAllocation
open RemoteWorkspace.Model.Wire (Failure TerminalSpawnSpec)

variable {n : ℕ} {host : Host} {s t : State n} {a : ℕ} {x : Allocation n}

/-! ### What one call does -/

/-- The stages between `posix_openpt` and `pipe`. -/
inductive Early (m : Fd n) : Stage n → Prop where
  | granting : Early m (.granting m)
  | unlocking : Early m (.unlocking m)
  | naming : Early m (.naming m)
  | preparing : Early m (.preparing m)
  | piping (image : Image) : Early m (.piping m image)

/-- What the next call of an allocation does. -/
inductive Calls (host : Host) (s : State n) (a : ℕ) (x : Allocation n) : State n → Prop where
  | refused (e : Errno) (h : x.stage = .opening) :
      Calls host s a x (s.advance a x s.table (.failed (allocateFailure host x.program e)))
  | opened (m : Fd n) (h : x.stage = .opening) (hfree : s.table m = none) :
      Calls host s a x (s.advance a x (s.table.put m ⟨.master a, false⟩) (.granting m))
  | moved (m : Fd n) (stage : Stage n) (h : Early m x.stage) (hstage : Early m stage)
      (himage : ∀ image, stage = .piping m image → prepare host x.spec x.cwd = .ok image) :
      Calls host s a x (s.advance a x s.table stage)
  | gaveUp (m : Fd n) (failure : Failure) (h : Early m x.stage) :
      Calls host s a x (s.advance a x s.table (.abandoning [(m, .master a)] failure))
  | piped (m r w : Fd n) (image : Image) (h : x.stage = .piping m image) (hne : r ≠ w)
      (hr : s.table r = none) (hw : s.table w = none) :
      Calls host s a x (s.advance a x
        ((s.table.put r ⟨.reportRead a, false⟩).put w ⟨.reportWrite a, false⟩)
        (.flagging ⟨a, m, r, w, image⟩))
  | flagged (f : Fork n) (h : x.stage = .flagging f) :
      Calls host s a x
        (s.advance a x (s.table.put f.write ⟨.reportWrite a, true⟩) (.forking f))
  | unforked (f : Fork n) (e : Errno) (h : x.stage = .forking f) :
      Calls host s a x (s.advance a x s.table (.abandoning
        [(f.master, .master a), (f.read, .reportRead a), (f.write, .reportWrite a)]
        (forkFailure host x.program e)))
  | forked (f : Fork n) (h : x.stage = .forking f) :
      Calls host s a x
        { s.advance a x s.table (.closingWrite f.master f.read f.write s.children.length) with
          children := s.children ++
            [.forked (some a) (.closingMaster f) s.table s.unflagged] }
  | closedWrite (m r w : Fd n) (i : ℕ) (h : x.stage = .closingWrite m r w i) :
      Calls host s a x (s.advance a x (s.table.close w) (.reading m r i []))
  | gotBytes (m r : Fd n) (i : ℕ) (filled : List UInt8) (count : ℕ)
      (h : x.stage = .reading m r i filled) (hpos : 0 < count) (hle : count ≤ x.report.length)
      (hroom : filled.length + count ≤ 4) :
      Calls host s a x (s.advance a { x with report := x.report.drop count } s.table
        (if filled.length + count = 4 then .closingRead m r i (filled ++ x.report.take count)
        else .reading m r i (filled ++ x.report.take count)))
  | gotEnd (m r : Fd n) (i : ℕ) (filled : List UInt8) (h : x.stage = .reading m r i filled)
      (hempty : x.report = []) (hclosed : ¬ s.Written a) :
      Calls host s a x (s.advance a x s.table (.closingRead m r i filled))
  | gotError (m r : Fd n) (i : ℕ) (filled : List UInt8) (h : x.stage = .reading m r i filled) :
      Calls host s a x
        (s.advance a { x with interrupted := true } s.table (.closingRead m r i filled))
  | closedRead (m r : Fd n) (i : ℕ) (filled : List UInt8)
      (h : x.stage = .closingRead m r i filled) :
      Calls host s a x (s.advance a x (s.table.close r)
        (if filled.length = 4 then .reaping m i (fromNeBytes filled) else .running m i))
  | collected (m : Fd n) (i : ℕ) (code : Errno) (c : Child n) (h : x.stage = .reaping m i code)
      (hc : s.children[i]? = some c) (hdead : c.stage = .dead) :
      Calls host s a x { s.advance a x s.table
          (.abandoning [(m, .master a)] (startFailure host x.program code)) with
        children := s.children.set i { c with stage := .reaped } }
  | uncollected (m : Fd n) (i : ℕ) (code : Errno) (h : x.stage = .reaping m i code) :
      Calls host s a x (s.advance a { x with interrupted := true } s.table
        (.abandoning [(m, .master a)] (startFailure host x.program code)))
  | abandoned (fd : Fd n) (file : File) (rest : List (Fd n × File)) (failure : Failure)
      (h : x.stage = .abandoning ((fd, file) :: rest) failure) :
      Calls host s a x (s.advance a x (s.table.close fd)
        (if rest = [] then .failed failure else .abandoning rest failure))
  | released (m : Fd n) (i : ℕ) (h : x.stage = .running m i) :
      Calls host s a x (s.advance a x (s.table.close m) (.released i))

/-- The calls before the fork. -/
theorem calls_of_beforeFork {stage : Stage n} {answer : Answer n} (hstage : x.stage = stage)
    (h : beforeFork host s a x stage answer = some t) : Calls host s a x t := by
  unfold beforeFork at h
  split at h
  · cases h
    exact .refused _ hstage
  · split at h
    · cases h
      exact .opened _ hstage ‹_›
    · cases h
  · cases h
    exact .moved _ _ (hstage ▸ .granting) .unlocking nofun
  · cases h
    exact .moved _ _ (hstage ▸ .unlocking) .naming nofun
  · cases h
    exact .moved _ _ (hstage ▸ .naming) .preparing nofun
  · cases h
    exact .gaveUp _ _ (hstage ▸ .granting)
  · cases h
    exact .gaveUp _ _ (hstage ▸ .unlocking)
  · cases h
    exact .gaveUp _ _ (hstage ▸ .naming)
  · cases h
    exact .gaveUp _ _ (hstage ▸ .piping _)
  · split at h
    · cases h
      refine .moved _ _ (hstage ▸ .preparing) (.piping _) fun image himage => ?_
      cases himage
      assumption
    · cases h
      exact .gaveUp _ _ (hstage ▸ .preparing)
  · split at h
    · rename_i hfree
      cases h
      exact .piped _ _ _ _ hstage hfree.1 hfree.2.1 hfree.2.2
    · cases h
  · cases h
    exact .flagged _ hstage
  · cases h
    exact .unforked _ _ hstage
  · cases h
    exact .forked _ hstage
  · cases h

/-- The calls after it. -/
theorem calls_of_afterFork {stage : Stage n} {answer : Answer n} (hstage : x.stage = stage)
    (h : afterFork host s a x stage answer = some t) : Calls host s a x t := by
  unfold afterFork at h
  split at h
  · cases h
    exact .closedWrite _ _ _ _ hstage
  · split at h
    · rename_i hread
      cases h
      exact .gotBytes _ _ _ _ _ hstage hread.1 hread.2.1 hread.2.2
    · cases h
  · split at h
    · rename_i hend
      cases h
      exact .gotEnd _ _ _ _ hstage hend.1 hend.2
    · cases h
  · cases h
    exact .gotError _ _ _ _ hstage
  · cases h
    exact .closedRead _ _ _ _ hstage
  · split at h
    · split at h
      · cases h
        exact .collected _ _ _ _ hstage ‹_› ‹_›
      · cases h
    · cases h
  · cases h
    exact .uncollected _ _ _ hstage
  · cases h
    exact .abandoned _ _ _ _ hstage
  · cases h
    exact .released _ _ hstage
  · cases h

/-- What a call of an allocation does. -/
theorem calls_of_step {answer : Answer n} (h : step host s (.call a answer) = some t) :
    ∃ x, s.allocations[a]? = some x ∧ Calls host s a x t := by
  obtain ⟨x, hx, hcall⟩ := Option.bind_eq_some_iff.mp h
  refine ⟨x, hx, ?_⟩
  rcases Option.or_eq_some_iff.mp hcall with hbefore | ⟨-, hafter⟩
  · exact calls_of_beforeFork rfl hbefore
  · exact calls_of_afterFork rfl hafter

/-! ### What an allocation holds -/

/-- The allocation that a file is of. -/
def allocationOf : File → Option ℕ
  | .master a | .slave a | .reportRead a | .reportWrite a => some a
  | .other _ => none

/-- The descriptors that the next calls of an allocation work on, with what they stand for. -/
def holds (a : ℕ) : Stage n → List (Fd n × File)
  | .opening | .failed _ | .released _ => []
  | .granting m | .unlocking m | .naming m | .preparing m | .piping m _ => [(m, .master a)]
  | .flagging f | .forking f =>
    [(f.master, .master a), (f.read, .reportRead a), (f.write, .reportWrite a)]
  | .closingWrite m r w _ => [(m, .master a), (r, .reportRead a), (w, .reportWrite a)]
  | .reading m r _ _ | .closingRead m r _ _ => [(m, .master a), (r, .reportRead a)]
  | .reaping m _ _ | .running m _ => [(m, .master a)]
  | .abandoning fds _ => fds

theorem Early.holds_eq {m : Fd n} {stage : Stage n} (h : Early m stage) :
    holds a stage = [(m, .master a)] := by
  cases h <;> rfl

/-- The table has just these descriptors of an allocation. -/
structure Exact (table : Table n File) (a : ℕ) (held : List (Fd n × File)) : Prop where
  open_iff : ∀ fd file, allocationOf file = some a → (table.Open fd file ↔ (fd, file) ∈ held)
  own : ∀ p ∈ held, allocationOf p.2 = some a
  nodup : held.Nodup

section Exact

variable {table table' : Table n File} {held : List (Fd n × File)} {fd : Fd n} {file : File}
  {cloexec : Bool}

/-- What an allocation holds is open. -/
theorem Exact.isOpen (h : Exact table a held) (hmem : (fd, file) ∈ held) : table.Open fd file :=
  (h.open_iff fd file (h.own _ hmem)).mpr hmem

/-- A table that is the same for the files of an allocation. -/
theorem Exact.congr (h : Exact table a held)
    (hsame : ∀ fd file, allocationOf file = some a → (table'.Open fd file ↔ table.Open fd file)) :
    Exact table' a held :=
  ⟨fun fd file hfile => (hsame fd file hfile).trans (h.open_iff fd file hfile), h.own, h.nodup⟩

/-- A file of the allocation is opened. -/
theorem Exact.put (h : Exact table a held) (hfree : table fd = none)
    (hfile : allocationOf file = some a) :
    Exact (table.put fd ⟨file, cloexec⟩) a (held ++ [(fd, file)]) where
  open_iff k file' hfile' := by
    rw [Table.open_put_free hfree, h.open_iff k file' hfile', List.mem_append,
      List.mem_singleton, Prod.mk.injEq, or_comm]
  own p hp := by
    rcases List.mem_append.mp hp with hp | hp
    · exact h.own p hp
    · rw [List.mem_singleton.mp hp]
      exact hfile
  nodup := by
    refine nodup_concat h.nodup fun hmem => ?_
    obtain ⟨c, hc⟩ := h.isOpen hmem
    rw [hfree] at hc
    cases hc

/-- A file of the allocation is marked. -/
theorem Exact.mark (h : Exact table a held) (hmem : (fd, file) ∈ held) :
    Exact (table.put fd ⟨file, cloexec⟩) a held :=
  h.congr fun _ _ _ => Table.open_put_same (h.isOpen hmem)

/-- A file of the allocation is closed. -/
theorem Exact.close (h : Exact table a held) (front : List (Fd n × File))
    {rest : List (Fd n × File)} (hheld : held = front ++ (fd, file) :: rest) : Exact (table.close fd) a (front ++ rest) := by
  have hmem : (fd, file) ∈ held := by
    rw [hheld]
    simp
  have hnodup := h.nodup
  rw [hheld, List.nodup_middle] at hnodup
  obtain ⟨hnot, hrest⟩ := List.nodup_cons.mp hnodup
  refine ⟨fun k file' hfile' => ?_, fun p hp => h.own p ?_, hrest⟩
  · rw [Table.open_close (h.isOpen hmem), h.open_iff k file' hfile', hheld, List.mem_append,
      List.mem_cons, List.mem_append]
    constructor
    · rintro ⟨hfront | heq | hrest, hne⟩
      · exact .inl hfront
      · exact absurd heq hne
      · exact .inr hrest
    · rintro (hin | hin)
      · exact ⟨.inl hin, fun heq => hnot (heq ▸ List.mem_append_left _ hin)⟩
      · exact ⟨.inr (.inr hin), fun heq => hnot (heq ▸ List.mem_append_right _ hin)⟩
  · rw [hheld]
    rcases List.mem_append.mp hp with hp | hp
    · exact List.mem_append_left _ hp
    · exact List.mem_append_right _ (List.mem_cons_of_mem _ hp)

end Exact

/-! ### The books of the table -/

/-- The table has of each allocation what it holds, and of no other. -/
structure Accounted (s : State n) : Prop where
  exact : ∀ a x, s.allocations[a]? = some x → Exact s.table a (holds a x.stage)
  known : ∀ fd file b, s.table.Open fd file → allocationOf file = some b →
    b < s.allocations.length
  standard : ∀ fd : Fd n, fd.val < 3 → ∃ k, s.table.Open fd (.other k)

/-- One allocation moves on, and the table changes in its files alone. -/
theorem Accounted.advance (h : Accounted s) {table : Table n File} {y : Allocation n}
    (hx : s.allocations[a]? = some x) (hexact : Exact table a (holds a y.stage))
    (hother : ∀ fd file, allocationOf file ≠ some a →
      (table.Open fd file ↔ s.table.Open fd file)) (children : List (Child n)) :
    Accounted ⟨table, s.allocations.set a y, children⟩ where
  exact b z hz := by
    rcases getElem?_set_cases hz with ⟨rfl, rfl⟩ | ⟨hne, hz⟩
    · exact hexact
    · refine (h.exact b z hz).congr fun fd file hfile => hother fd file ?_
      rw [hfile, ne_eq, Option.some.injEq]
      exact fun heq => hne heq.symm
  known fd file b hopen hfile := by
    rw [List.length_set]
    by_cases hb : allocationOf file = some a
    · obtain rfl := Option.some.inj (hfile.symm.trans hb)
      exact (List.getElem?_eq_some_iff.mp hx).1
    · exact h.known fd file b ((hother fd file hb).mp hopen) hfile
  standard fd hfd := by
    obtain ⟨k, hk⟩ := h.standard fd hfd
    exact ⟨k, (hother fd _ (by simp [allocationOf])).mpr hk⟩

/-- Opening a file of an allocation leaves those of the others. -/
theorem other_put {table : Table n File} {fd : Fd n} {file : File} {cloexec : Bool}
    (hfree : table fd = none) (hfile : allocationOf file = some a) (k : Fd n) (file' : File)
    (hne : allocationOf file' ≠ some a) :
    (table.put fd ⟨file, cloexec⟩).Open k file' ↔ table.Open k file' := by
  rw [Table.open_put_free hfree]
  refine or_iff_right ?_
  rintro ⟨-, rfl⟩
  exact hne hfile

/-- So does closing one. -/
theorem other_close {table : Table n File} {fd : Fd n} {file : File} (hopen : table.Open fd file)
    (hfile : allocationOf file = some a) (k : Fd n) (file' : File)
    (hne : allocationOf file' ≠ some a) :
    (table.close fd).Open k file' ↔ table.Open k file' := by
  rw [Table.open_close hopen]
  refine and_iff_left ?_
  intro heq
  rw [(Prod.mk.inj heq).2] at hne
  exact hne hfile

/-- Every call of an allocation keeps the books. -/
theorem Accounted.calls (h : Accounted s) (hx : s.allocations[a]? = some x)
    (hcalls : Calls host s a x t) : Accounted t := by
  have hexact := h.exact a x hx
  have hsame : ∀ fd file, allocationOf file ≠ some a →
      (s.table.Open fd file ↔ s.table.Open fd file) := fun _ _ _ => Iff.rfl
  cases hcalls with
  | refused e hstage =>
    rw [hstage] at hexact
    exact h.advance hx hexact hsame _
  | opened m hstage hfree =>
    rw [hstage] at hexact
    exact h.advance hx (hexact.put hfree rfl) (other_put hfree rfl) _
  | moved m stage hearly hstage himage =>
    rw [hearly.holds_eq] at hexact
    exact h.advance hx (by rwa [hstage.holds_eq]) hsame _
  | gaveUp m failure hearly =>
    rw [hearly.holds_eq] at hexact
    exact h.advance hx hexact hsame _
  | piped m r w image hstage hne hr hw =>
    rw [hstage] at hexact
    have hread : Exact (s.table.put r ⟨.reportRead a, false⟩) a _ := hexact.put hr rfl
    have hfree : (s.table.put r ⟨.reportRead a, false⟩) w = none := by
      rw [Table.put_of_ne hne.symm, hw]
    refine h.advance hx (hread.put hfree rfl) (fun k file hfile => ?_) _
    rw [other_put hfree rfl k file hfile, other_put hr rfl k file hfile]
  | flagged f hstage =>
    rw [hstage] at hexact
    have hmem : (f.write, File.reportWrite a) ∈ holds a (.flagging f) := by simp [holds]
    exact h.advance hx (hexact.mark hmem)
      (fun k file _ => Table.open_put_same (hexact.isOpen hmem)) _
  | unforked f e hstage =>
    rw [hstage] at hexact
    exact h.advance hx hexact hsame _
  | forked f hstage =>
    rw [hstage] at hexact
    exact h.advance hx hexact hsame _
  | closedWrite m r w i hstage =>
    rw [hstage] at hexact
    have hmem : (w, File.reportWrite a) ∈ holds a (.closingWrite m r w i) := by simp [holds]
    exact h.advance hx (hexact.close [(m, .master a), (r, .reportRead a)] rfl)
      (other_close (hexact.isOpen hmem) rfl) _
  | gotBytes m r i filled count hstage =>
    rw [hstage] at hexact
    refine h.advance hx ?_ hsame _
    dsimp only
    split <;> exact hexact
  | gotEnd m r i filled hstage =>
    rw [hstage] at hexact
    exact h.advance hx hexact hsame _
  | gotError m r i filled hstage =>
    rw [hstage] at hexact
    exact h.advance hx hexact hsame _
  | closedRead m r i filled hstage =>
    rw [hstage] at hexact
    have hmem : (r, File.reportRead a) ∈ holds a (.closingRead m r i filled) := by simp [holds]
    have hclosed := hexact.close [(m, .master a)] rfl
    refine h.advance hx ?_ (other_close (hexact.isOpen hmem) rfl) _
    dsimp only
    split <;> exact hclosed
  | collected m i code c hstage =>
    rw [hstage] at hexact
    exact h.advance hx hexact hsame _
  | uncollected m i code hstage =>
    rw [hstage] at hexact
    exact h.advance hx hexact hsame _
  | abandoned fd file rest failure hstage =>
    rw [hstage] at hexact
    have hmem : (fd, file) ∈ holds a (.abandoning ((fd, file) :: rest) failure) :=
      List.mem_cons_self
    have hclosed := hexact.close [] rfl
    refine h.advance hx ?_ (other_close (hexact.isOpen hmem) (hexact.own _ hmem)) _
    dsimp only
    split
    · rename_i hrest
      subst hrest
      exact hclosed
    · exact hclosed
  | released m i hstage =>
    rw [hstage] at hexact
    have hmem : (m, File.master a) ∈ holds a (.running m i) := List.mem_cons_self
    exact h.advance hx (hexact.close [] rfl)
      (other_close (hexact.isOpen hmem) rfl) _

/-- Reports change nothing of what is held. -/
theorem Accounted.wrote (h : Accounted s) (owner : Option ℕ) (bytes : List UInt8)
    (children : List (Child n)) : Accounted ⟨s.table, s.wrote owner bytes, children⟩ := by
  have hback : ∀ (a : ℕ) (x : Allocation n), (s.wrote owner bytes)[a]? = some x →
      ∃ y, s.allocations[a]? = some y ∧ x.stage = y.stage := by
    intro a x hx
    unfold State.wrote at hx
    split at hx
    · obtain ⟨y, hy, ⟨-, rfl⟩ | ⟨-, rfl⟩⟩ := getElem?_modify_cases hx
      · exact ⟨y, hy, rfl⟩
      · exact ⟨x, hy, rfl⟩
    · exact ⟨x, hx, rfl⟩
  have hlength : (s.wrote owner bytes).length = s.allocations.length := by
    unfold State.wrote
    split
    · exact List.length_modify ..
    · rfl
  refine ⟨fun a x hx => ?_, fun fd file b hopen hfile => ?_, h.standard⟩
  · obtain ⟨y, hy, hstage⟩ := hback a x hx
    rw [hstage]
    exact h.exact a y hy
  · rw [hlength]
    exact h.known fd file b hopen hfile

/-- A new allocation holds nothing. -/
theorem Accounted.spawn (h : Accounted s) (spec : TerminalSpawnSpec)
    (usableDirectory : Except Failure String) :
    Accounted { s with allocations := s.allocations ++ [.start spec usableDirectory] } := by
  refine ⟨fun b y hy => ?_, fun fd file b hopen hfile => ?_, h.standard⟩
  · rcases getElem?_concat_cases hy with hy | ⟨rfl, rfl⟩
    · exact h.exact b y hy
    · have hnone : holds s.allocations.length
          (Allocation.start (n := n) spec usableDirectory).stage = [] := by
        unfold Allocation.start
        split <;> rfl
      rw [hnone]
      refine ⟨fun fd file hfile => ?_, by simp, List.nodup_nil⟩
      exact iff_of_false (fun hopen => absurd (h.known fd file _ hopen hfile) (by simp)) (by simp)
  · have hlt := h.known fd file b hopen hfile
    rw [List.length_append]
    exact Nat.lt_add_right _ hlt

/-- Other parts of the daemon change their own files alone. -/
theorem Accounted.other (h : Accounted s) {table : Table n File}
    (hother : ∀ fd file b, allocationOf file = some b →
      (table.Open fd file ↔ s.table.Open fd file))
    (hstandard : ∀ fd : Fd n, fd.val < 3 → table fd = s.table fd) :
    Accounted { s with table := table } where
  exact a x hx := (h.exact a x hx).congr fun fd file hfile => hother fd file a hfile
  known fd file b hopen hfile := h.known fd file b ((hother fd file b hfile).mp hopen) hfile
  standard fd hfd := by
    obtain ⟨k, c, hc⟩ := h.standard fd hfd
    exact ⟨k, c, (hstandard fd hfd).trans hc⟩

/-- Every step keeps the books. -/
theorem Accounted.stepped (h : Accounted s) {e : Event n} (hstep : step host s e = some t) :
    Accounted t := by
  cases e with
  | spawn spec usableDirectory =>
    obtain rfl := Option.some.inj hstep
    exact h.spawn spec usableDirectory
  | call a answer =>
    obtain ⟨x, hx, hcalls⟩ := calls_of_step hstep
    exact h.calls hx hcalls
  | child i answer =>
    obtain ⟨c, -, hstep⟩ := Option.bind_eq_some_iff.mp hstep
    obtain ⟨⟨d, bytes⟩, -, hstep⟩ := Option.bind_eq_some_iff.mp hstep
    obtain rfl := Option.some.inj hstep
    exact h.wrote c.owner bytes _
  | ends i =>
    obtain ⟨c, -, hstep⟩ := Option.bind_eq_some_iff.mp hstep
    split at hstep
    · cases hstep
    · obtain rfl := Option.some.inj hstep
      exact ⟨h.exact, h.known, h.standard⟩
  | reap a =>
    obtain ⟨x, -, hstep⟩ := Option.bind_eq_some_iff.mp hstep
    split at hstep <;> try cases hstep
    all_goals
      obtain ⟨c, -, hstep⟩ := Option.bind_eq_some_iff.mp hstep
      split at hstep
      · obtain rfl := Option.some.inj hstep
        exact ⟨h.exact, h.known, h.standard⟩
      · cases hstep
  | openOther fd k cloexec =>
    simp only [step] at hstep
    split at hstep
    · rename_i hfree
      obtain rfl := Option.some.inj hstep
      refine h.other (fun fd' file b hfile => ?_) fun fd' hfd' => Table.put_of_ne ?_
      · rw [Table.open_put_free hfree]
        refine or_iff_right ?_
        rintro ⟨-, rfl⟩
        cases hfile
      · rintro rfl
        obtain ⟨k, c, hc⟩ := h.standard _ hfd'
        rw [hfree] at hc
        cases hc
    · cases hstep
  | closeOther fd =>
    simp only [step] at hstep
    split at hstep
    · rename_i k c hother
      split at hstep
      · rename_i hlarge
        obtain rfl := Option.some.inj hstep
        refine h.other (fun fd' file b hfile => ?_) fun fd' hfd' => Table.close_of_ne ?_
        · rw [Table.open_close ⟨c, hother⟩]
          refine and_iff_left fun heq => ?_
          rw [(Prod.mk.inj heq).2] at hfile
          cases hfile
        · rintro rfl
          omega
      · cases hstep
    · cases hstep
  | forkOther =>
    obtain rfl := Option.some.inj hstep
    exact ⟨h.exact, h.known, h.standard⟩

/-- Before anything happens the standard descriptors are all there is. -/
theorem accounted_initial (n : ℕ) : Accounted (State.initial n) where
  exact a x hx := by cases hx
  known fd file b hopen hfile := by
    obtain ⟨c, hc⟩ := hopen
    simp only [State.initial] at hc
    split at hc
    · cases hc
      cases hfile
    · cases hc
  standard fd hfd := ⟨fd.val, false, by simp [State.initial, hfd]⟩

theorem accounted_of_reachable (h : (machine host n).Reachable s) : Accounted s :=
  Machine.ReachableWhen.invariant (accounted_initial n)
    (fun _ _ _ hs _ hstep => hs.stepped hstep) h

/-- In every run of the daemon, whatever the calls answer: a descriptor of an allocation is one
that its next call works on, so one that failed or was released has none and one that answered has
its terminal's; what a call works on is open, and is what the code takes it for; and no two
allocations have a number in common. -/
theorem no_descriptor_lost (h : (machine host n).Reachable s) :
    (∀ fd file a, s.table.Open fd file → allocationOf file = some a →
      ∃ x, s.allocations[a]? = some x ∧ (fd, file) ∈ holds a x.stage) ∧
    (∀ a x, s.allocations[a]? = some x → ∀ p ∈ holds a x.stage, s.table.Open p.1 p.2) ∧
    ∀ a b x y, s.allocations[a]? = some x → s.allocations[b]? = some y →
      ∀ p ∈ holds a x.stage, ∀ q ∈ holds b y.stage, p.1 = q.1 → a = b ∧ p = q := by
  have hs := accounted_of_reachable h
  have hopen : ∀ a x, s.allocations[a]? = some x → ∀ p ∈ holds a x.stage, s.table.Open p.1 p.2 :=
    fun a x hx p hp => (hs.exact a x hx).isOpen hp
  refine ⟨fun fd file a hfd hfile => ?_, hopen, fun a b x y hx hy p hp q hq heq => ?_⟩
  · obtain ⟨x, hx⟩ : ∃ x, s.allocations[a]? = some x :=
      ⟨_, List.getElem?_eq_getElem (hs.known fd file a hfd hfile)⟩
    exact ⟨x, hx, ((hs.exact a x hx).open_iff fd file hfile).mp hfd⟩
  · have hp' := hopen a x hx p hp
    rw [heq] at hp'
    have hfile : p.2 = q.2 := hp'.unique (hopen b y hy q hq)
    have ha := (hs.exact a x hx).own p hp
    rw [hfile, (hs.exact b y hy).own q hq] at ha
    exact ⟨(Option.some.inj ha).symm, Prod.ext heq hfile⟩

/-- A host whose errors have no words. -/
def quietHost : Host := ⟨fun _ => "", []⟩

/-- A request for a shell. -/
def shellSpec : TerminalSpawnSpec := ⟨["/bin/sh"], "/", [], 24, 80, 1000⟩

/-- Two requests at once, of which the first cannot be unlocked and takes its number back, which
the pipe of the second then gets. -/
def crossedSpawns : List (Event 4) :=
  [.spawn shellSpec (.ok "/"), .spawn shellSpec (.ok "/"), .call 0 (.fd 3), .call 1 (.fd 4),
    .call 0 .done, .call 0 (.fails 5), .call 1 .done, .call 1 .done, .call 1 .done,
    .call 0 .done, .call 1 .done, .call 1 (.fds 3 5)]

/-- A request whose child cannot lead a session. -/
def refusedSpawn : List (Event 4) :=
  [.spawn shellSpec (.ok "/"), .call 0 (.fd 3), .call 0 .done, .call 0 .done, .call 0 .done,
    .call 0 .done, .call 0 (.fds 4 5), .call 0 .done, .call 0 .done, .child 0 .done,
    .child 0 .done, .child 0 (.fails 1), .child 0 .done, .child 0 .done, .call 0 .done,
    .call 0 (.bytes 4), .call 0 .done, .call 0 .done, .call 0 .done]

/-- A program is started between the pipe and its mark, and the child gets to its own. -/
def inheritedPipe : List (Event 4) :=
  [.spawn shellSpec (.ok "/"), .call 0 (.fd 3), .call 0 .done, .call 0 .done, .call 0 .done,
    .call 0 .done, .call 0 (.fds 4 5), .forkOther, .call 0 .done, .call 0 .done, .child 0 .done,
    .call 0 .done, .child 1 .done, .child 1 .done, .child 1 .done, .child 1 (.fd 3),
    .child 1 .done, .child 1 .done, .child 1 .done]

theorem failed_spawn_closed : ∃ s x, (machine quietHost 4).Reachable s ∧
    s.allocations[0]? = some x ∧ x.stage = .failed (allocateFailure quietHost "/bin/sh" 5) ∧
    ∀ fd file, allocationOf file = some 0 → ¬ s.table.Open fd file := by
  have hfailed : ((machine quietHost 4).run crossedSpawns).bind (fun s => s.allocations[0]?) =
      some ⟨shellSpec, "/", .failed (allocateFailure quietHost "/bin/sh" 5), [], false⟩ := by
    decide +kernel
  obtain ⟨s, hrun, hx⟩ := Option.bind_eq_some_iff.mp hfailed
  have hs := Machine.reachable_of_run hrun
  refine ⟨s, _, hs, hx, rfl, fun fd file hfile hopen => ?_⟩
  obtain ⟨x, hx', hmem⟩ := (no_descriptor_lost hs).1 fd file 0 hopen hfile
  obtain rfl := Option.some.inj (hx.symm.trans hx')
  exact List.not_mem_nil hmem

end RemoteWorkspace.Analysis.PtyAllocation
