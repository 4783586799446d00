import RemoteWorkspace.Model.RemoteArgv

/-!
# A sandbox around a command, and the command

A spawn on a node is unwrapped from the sandbox of this host, so the node should get the same argv
as without one. It does unless the command is a packaged `rg`: the rewrite to the configured one
looks at the head of the argv before the sandbox is dropped, and sees the runner.
-/

set_option autoImplicit false

namespace RemoteWorkspace.Analysis.InvisibleSandbox

open RemoteWorkspace.Computation
open RemoteWorkspace.Model.Anchors (basename segmentsOf)
open RemoteWorkspace.Model.RemoteArgv

variable {deps : Deps} {argv profile rest : List String} {head runner : String}

/-! ### Unwrapping -/

/-- The name of a sandbox runner of this host. -/
def Runner (head : String) : Prop := basename head ∈ hostSandboxRunners

/-- A separator is no runner. -/
theorem ne_of_runner (h : Runner head) : head ≠ "--" := by
  rintro rfl
  revert h
  unfold Runner
  decide +kernel

/-- The first place of what does not stand in front of it. -/
theorem idxOf?_append_cons {front : List String} {word : String} (h : word ∉ front)
    (back : List String) : (front ++ word :: back).idxOf? word = some front.length := by
  induction front with
  | nil => simp [List.idxOf?_cons]
  | cons x front ih =>
    rw [List.mem_cons, not_or] at h
    rw [List.cons_append, List.idxOf?_cons, if_neg (by simpa using Ne.symm h.1), ih h.2]
    rfl

/-- A command in a sandbox is unwrapped. -/
theorem strip_wrapped (hrunner : Runner runner) (hprofile : "--" ∉ profile) (head : String)
    (rest : List String) :
    stripHostSandbox (runner :: (profile ++ "--" :: head :: rest)) = head :: rest := by
  have hfront : "--" ∉ runner :: profile := by
    rw [List.mem_cons, not_or]
    exact ⟨(ne_of_runner hrunner).symm, hprofile⟩
  have hseparator := idxOf?_append_cons hfront (head :: rest)
  rw [List.cons_append] at hseparator
  have hroom : (runner :: profile).length + 1 <
      (runner :: (profile ++ "--" :: head :: rest)).length := by
    simp
  have hbehind : (runner :: (profile ++ "--" :: head :: rest)).drop
      ((runner :: profile).length + 1) = head :: rest := by
    rw [← List.cons_append, List.drop_append]
    simp
  have hknown : basename runner ∈ hostSandboxRunners := hrunner
  simp only [stripHostSandbox, hseparator, if_pos hroom, if_pos hknown, hbehind]

/-- A command that no runner runs is left alone. -/
theorem strip_plain (h : ¬ Runner head) : stripHostSandbox (head :: rest) = head :: rest := by
  exact if_neg h

/-- Unwrapping leaves an argv alone or drops at least a runner and a separator. -/
theorem strip_suffix (argv : List String) :
    stripHostSandbox argv = argv ∨
      (stripHostSandbox argv <:+ argv ∧ (stripHostSandbox argv).length + 2 ≤ argv.length) := by
  cases argv with
  | nil => exact .inl rfl
  | cons head rest =>
    unfold stripHostSandbox
    dsimp only
    split
    · rename_i hrunner
      split
      · rename_i separator hseparator
        split
        · refine .inr ⟨List.drop_suffix _ _, ?_⟩
          -- the separator is not the runner
          have hpos : separator ≠ 0 := by
            rintro rfl
            obtain ⟨_, hfirst, _⟩ := List.idxOf?_eq_some_iff.mp hseparator
            exact ne_of_runner hrunner hfirst
          rw [List.length_drop]
          omega
        · exact .inl rfl
      · exact .inl rfl
    · exact .inl rfl

/-! ### The packaged ripgrep -/

/-- An absolute path whose last part is `rg`. -/
def Packaged (head : String) : Prop := "/".toList <+: head.toList ∧ fileName head = "rg"

/-- The last part of a path is its name. -/
theorem basename_of_fileName {name : String} (h : fileName head = name) (hne : name ≠ "") :
    basename head = name := by
  have hlast : head.toList.rtakeWhile (fun c => decide (c ≠ '/')) = name.toList := by
    rw [← h, fileName, String.toList_ofList]
  have hplain : '/' ∉ name.toList := by
    intro hmem
    rw [← hlast] at hmem
    simpa using List.mem_rtakeWhile_imp hmem
  have hpart : segments '/' name.toList = [name.toList] := by
    rw [segments, List.splitOn_eq_singleton hplain]
    simp [hne]
  have hfront : ∃ front, segmentsOf head = front ++ [name.toList] := by
    have hsplit := List.rdropWhile_append_rtakeWhile (p := fun c => decide (c ≠ '/'))
      (l := head.toList)
    rw [hlast] at hsplit
    rw [segmentsOf, ← hsplit]
    rcases List.eq_nil_or_concat (head.toList.rdropWhile fun c => decide (c ≠ '/')) with
      hnil | ⟨dir, c, hdir⟩
    · exact ⟨[], by rw [hnil, List.nil_append, hpart, List.nil_append]⟩
    · have hc : c = '/' := by
        have hstays := List.rdropWhile_last_not (fun c => decide (c ≠ '/')) head.toList
        simp only [hdir, List.concat_eq_append, List.getLast_append_singleton] at hstays
        simpa using hstays (by simp)
      refine ⟨segments '/' dir, ?_⟩
      rw [hdir, hc, List.concat_eq_append, List.append_assoc, List.singleton_append,
        segments_append_cons, hpart]
  obtain ⟨front, hfront⟩ := hfront
  rw [basename, hfront, List.getLast?_concat, Option.getD_some, String.ofList_toList]

/-- A runner is no packaged ripgrep. -/
theorem not_packaged_of_runner (h : Runner runner) : ¬ Packaged runner := by
  rintro ⟨-, hname⟩
  rw [Runner, basename_of_fileName hname (by decide)] at h
  revert h
  decide

/-! ### PTC programs -/

/-- An argv of the shape of a PTC program: something in front of a bootstrap and a frame limit. -/
def PtcProgram (argv : List String) : Prop := ∃ front bootstrap limit,
  argv = front ++ [bootstrap, limit] ∧ front ≠ [] ∧ isLimit limit = true ∧
    ptcPackageSegment.toList <:+: bootstrap.toList ∧ fileName bootstrap = ptcBootstrap

/-- The bootstrap of a PTC program is the last but one. -/
theorem ptcBootstrapIndex_append {front : List String} (hfront : front ≠ [])
    (bootstrap limit : String) :
    ptcBootstrapIndex (front ++ [bootstrap, limit]) =
      if isLimit limit = true ∧ ptcPackageSegment.toList <:+: bootstrap.toList ∧
        fileName bootstrap = ptcBootstrap then some front.length else none := by
  have hpos := List.length_pos_iff.mpr hfront
  have hlength : (front ++ [bootstrap, limit]).length = front.length + 2 := by simp
  have hlimit : (front ++ [bootstrap, limit])[front.length + 2 - 1]? = some limit := by
    rw [List.getElem?_append_right (by omega)]
    simp
  have hbootstrap : (front ++ [bootstrap, limit])[front.length + 2 - 2]? = some bootstrap := by
    rw [List.getElem?_append_right (by omega)]
    simp
  unfold ptcBootstrapIndex
  rw [hlength, if_neg (by omega), hlimit, hbootstrap]
  dsimp only
  by_cases hl : isLimit limit = true
  · by_cases hb : ptcPackageSegment.toList <:+: bootstrap.toList
    · by_cases hf : fileName bootstrap = ptcBootstrap
      · simp [hl, hb, hf]
      · simp [hl, hb, hf]
    · simp [hl, hb]
  · simp [hl]

/-- An argv has a bootstrap when it is a PTC program. -/
theorem ptcBootstrapIndex_eq_none_iff : ptcBootstrapIndex argv = none ↔ ¬ PtcProgram argv := by
  constructor
  · rintro hnone ⟨front, bootstrap, limit, rfl, hfront, hshape⟩
    rw [ptcBootstrapIndex_append hfront, if_pos hshape] at hnone
    cases hnone
  · intro hnot
    rcases List.eq_nil_or_concat argv with rfl | ⟨init, limit, rfl⟩
    · rfl
    rcases List.eq_nil_or_concat init with rfl | ⟨front, bootstrap, rfl⟩
    · rfl
    have hargv : (front.concat bootstrap).concat limit = front ++ [bootstrap, limit] := by simp
    rw [hargv] at hnot ⊢
    rcases eq_or_ne front [] with rfl | hfront
    · rfl
    rw [ptcBootstrapIndex_append hfront, if_neg]
    exact fun hshape => hnot ⟨front, bootstrap, limit, rfl, hfront, hshape⟩

/-- What is sent for a PTC program is the node's host, what stands between, and the limit. -/
theorem translate_ptc (deps : Deps) (h : PtcProgram (head :: rest)) :
    ∃ middle limit, rest.length = middle.length + 2 ∧
      ∀ other, translateUnwrapped deps (other :: rest) =
        deps.ptcHost.map fun host => host :: (middle ++ [limit]) := by
  obtain ⟨front, bootstrap, limit, hargv, hfront, hshape⟩ := h
  obtain ⟨first, middle, rfl⟩ := List.exists_cons_of_ne_nil hfront
  rw [List.cons_append, List.cons.injEq] at hargv
  obtain ⟨rfl, rfl⟩ := hargv
  refine ⟨middle, limit, by simp, fun other => ?_⟩
  have hindex := ptcBootstrapIndex_append (List.cons_ne_nil other middle) bootstrap limit
  rw [if_pos hshape, List.cons_append] at hindex
  unfold translateUnwrapped
  rw [hindex]
  cases deps.ptcHost with
  | error message => rfl
  | ok host =>
    change Except.ok _ = Except.ok _
    simp

/-- A program with a PTC program at its end is one. -/
theorem PtcProgram.suffix (h : PtcProgram argv) {longer : List String} (hsuffix : argv <:+ longer) :
    PtcProgram longer := by
  obtain ⟨front, bootstrap, limit, rfl, hfront, hshape⟩ := h
  obtain ⟨before, rfl⟩ := hsuffix
  refine ⟨before ++ front, bootstrap, limit, by rw [List.append_assoc], ?_, hshape⟩
  exact List.append_ne_nil_of_right_ne_nil before hfront

/-- The path that the node gets of the executable of another program. -/
def resolved (deps : Deps) (head : String) : String :=
  if isHostOnly deps head then basename head else head

/-- What is sent for any other program is the program with its executable resolved. -/
theorem translate_other (h : ¬ PtcProgram (head :: rest)) :
    translateUnwrapped deps (head :: rest) = .ok (resolved deps head :: rest) := by
  unfold translateUnwrapped resolved
  rw [ptcBootstrapIndex_eq_none_iff.mpr h]
  dsimp only
  split <;> rfl

/-- What stands in front of a PTC program does not matter. -/
theorem ptcProgram_head {head other : String} (h : PtcProgram (head :: rest)) :
    PtcProgram (other :: rest) := by
  obtain ⟨front, bootstrap, limit, hargv, hfront, hshape⟩ := h
  obtain ⟨first, middle, rfl⟩ := List.exists_cons_of_ne_nil hfront
  rw [List.cons_append, List.cons.injEq] at hargv
  exact ⟨other :: middle, bootstrap, limit, by rw [hargv.2, List.cons_append],
    List.cons_ne_nil _ _, hshape⟩

/-- An argv with nothing in it is no PTC program. -/
theorem not_ptcProgram_nil : ¬ PtcProgram [] := by
  rintro ⟨front, bootstrap, limit, hargv, -⟩
  have hlength := congrArg List.length hargv
  simp at hlength

/-- What is sent is no longer than the program and lacks at most its bootstrap. -/
theorem translate_length {sent : List String} (h : translateUnwrapped deps argv = .ok sent) :
    sent.length ≤ argv.length ∧ argv.length ≤ sent.length + 1 := by
  cases argv with
  | nil =>
    obtain rfl := Except.ok.inj h
    exact ⟨le_rfl, Nat.le_succ _⟩
  | cons head rest =>
    by_cases hptc : PtcProgram (head :: rest)
    · obtain ⟨middle, limit, hlength, htranslate⟩ := translate_ptc deps hptc
      rw [htranslate head] at h
      cases hhost : deps.ptcHost with
      | error message =>
        rw [hhost] at h
        cases h
      | ok host =>
        rw [hhost] at h
        obtain rfl := Except.ok.inj h
        simp only [List.length_cons, List.length_append, List.length_nil]
        omega
    · rw [translate_other hptc] at h
      obtain rfl := Except.ok.inj h
      exact ⟨le_rfl, Nat.le_succ _⟩

/-- Nothing is sent exactly when a PTC program has no host to run on. -/
theorem translate_eq_error_iff {message : String} : translateUnwrapped deps argv = .error message ↔
    PtcProgram argv ∧ deps.ptcHost = .error message := by
  cases argv with
  | nil =>
    refine iff_of_false (fun h => ?_) fun h => not_ptcProgram_nil h.1
    cases h
  | cons head rest =>
    by_cases hptc : PtcProgram (head :: rest)
    · obtain ⟨middle, limit, -, htranslate⟩ := translate_ptc deps hptc
      rw [htranslate head, and_iff_right hptc]
      cases deps.ptcHost with
      | error other => simp [Except.map]
      | ok host => exact iff_of_false (fun h => by cases h) fun h => by cases h
    · rw [translate_other hptc]
      exact iff_of_false (fun h => by cases h) fun h => hptc h.1

/-! ### When a sandbox is invisible -/

/-- The configured ripgrep of a node. -/
def ripgrep (deps : Deps) : String := deps.remoteRipgrep.getD "rg"

/-- A node gets the same path for a packaged ripgrep as for the configured one. -/
def NamedAlike (deps : Deps) (head : String) : Prop :=
  ripgrep deps = head ∨ (isHostOnly deps head = true ∧
    (ripgrep deps = "rg" ∨
      (isHostOnly deps (ripgrep deps) = true ∧ basename (ripgrep deps) = "rg")))

/-- A command that is sent alike with and without a sandbox: it is no packaged ripgrep; or one
that the node gets the same path for as for the configured one; or a PTC program, in which
neither is sent (and the configured ripgrep is not itself unwrapped as a sandbox, or there is no
host to run the program on with and without). -/
def Invisible (deps : Deps) (head : String) (rest : List String) : Prop :=
  Packaged head → NamedAlike deps head ∨
    (PtcProgram (head :: rest) ∧
      (stripHostSandbox (ripgrep deps :: rest) = ripgrep deps :: rest ∨
        ((∃ message, deps.ptcHost = .error message) ∧
          PtcProgram (stripHostSandbox (ripgrep deps :: rest)))))

/-- A name has no slash in it. -/
theorem slash_not_mem_basename (path : String) : '/' ∉ (basename path).toList := by
  rw [basename, String.toList_ofList]
  cases hlast : (segmentsOf path).getLast? with
  | none => simp
  | some last =>
    have hmem := List.mem_of_getLast? hlast
    rw [segmentsOf, segments, List.mem_filter] at hmem
    exact not_mem_of_mem_splitOn '/' _ last hmem.1

/-- When the path that a node gets of a packaged ripgrep is that of the configured one. -/
theorem resolved_eq_iff (h : Packaged head) :
    resolved deps head = resolved deps (ripgrep deps) ↔ NamedAlike deps head := by
  have hname : basename head = "rg" := basename_of_fileName h.2 (by decide)
  have hslash : '/' ∈ head.toList := h.1.subset (by decide)
  have hbare : isHostOnly deps "rg" = false := by simp [isHostOnly]
  unfold resolved NamedAlike
  by_cases hh : isHostOnly deps head = true
  · rw [if_pos hh, hname]
    by_cases hr : isHostOnly deps (ripgrep deps) = true
    · rw [if_pos hr]
      constructor
      · intro hsame
        exact .inr ⟨hh, .inr ⟨hr, hsame.symm⟩⟩
      · rintro (hsame | ⟨-, hbareName | ⟨-, hsame⟩⟩)
        · rw [hsame, hname]
        · rw [hbareName, hbare] at hr
          cases hr
        · exact hsame.symm
    · rw [if_neg hr]
      constructor
      · intro hsame
        exact .inr ⟨hh, .inl hsame.symm⟩
      · rintro (hsame | ⟨-, hbareName | ⟨hcontra, -⟩⟩)
        · exact absurd (hsame ▸ hh) hr
        · exact hbareName.symm
        · exact absurd hcontra hr
  · rw [if_neg hh]
    by_cases hr : isHostOnly deps (ripgrep deps) = true
    · rw [if_pos hr]
      constructor
      · intro hsame
        rw [hsame] at hslash
        exact absurd hslash (slash_not_mem_basename _)
      · rintro (hsame | ⟨hcontra, -⟩)
        · exact absurd (hsame ▸ hr) hh
        · exact absurd hcontra hh
    · rw [if_neg hr]
      constructor
      · intro hsame
        exact .inl hsame.symm
      · rintro (hsame | ⟨hcontra, -⟩)
        · exact hsame.symm
        · exact absurd hcontra hh

/-- A configured ripgrep that the node gets the path of a packaged one for is no sandbox
runner. -/
theorem NamedAlike.not_runner (h : NamedAlike deps head) (hhead : ¬ Runner head) :
    ¬ Runner (ripgrep deps) := by
  have hrg : ("rg" : String) ∉ hostSandboxRunners := by decide
  rcases h with hsame | ⟨-, hsame | ⟨-, hsame⟩⟩
  · rwa [hsame]
  · rw [Runner, hsame]
    decide +kernel
  · rwa [Runner, hsame]

/-- What is sent of a command without a sandbox that is no packaged ripgrep. -/
theorem rewrite_plain (h : ¬ Packaged head) (remoteRipgrep : String) :
    rewriteExecutable (head :: rest) remoteRipgrep = head :: rest := by
  unfold rewriteExecutable
  dsimp only
  split
  · rfl
  · split
    · rfl
    · rename_i habsolute hname
      exact absurd ⟨not_not.mp habsolute, not_not.mp hname⟩ h

/-- A packaged ripgrep is replaced by the configured one. -/
theorem rewrite_packaged (h : Packaged head) (remoteRipgrep : String) :
    rewriteExecutable (head :: rest) remoteRipgrep = remoteRipgrep :: rest := by
  unfold rewriteExecutable
  dsimp only
  rw [if_neg (not_not.mpr h.1), if_neg (not_not.mpr h.2)]

/-- With and without a sandbox of this host the node gets the same argv, exactly when the sandbox
is invisible around the command. -/
theorem wrapping_invisible_iff (deps : Deps) (runner : String) (profile : List String)
    (head : String) (rest : List String) (hrunner : basename runner ∈ hostSandboxRunners)
    (hprofile : "--" ∉ profile) (hhead : basename head ∉ hostSandboxRunners) :
    sentArgv deps (runner :: (profile ++ "--" :: head :: rest)) = sentArgv deps (head :: rest) ↔
      Invisible deps head rest := by
  have hwrapped : sentArgv deps (runner :: (profile ++ "--" :: head :: rest)) =
      translateUnwrapped deps (head :: rest) := by
    rw [sentArgv, rewrite_plain (not_packaged_of_runner hrunner), translateRemoteArgv,
      strip_wrapped hrunner hprofile]
  rw [hwrapped]
  by_cases hpackaged : Packaged head
  swap
  · have hplain : sentArgv deps (head :: rest) = translateUnwrapped deps (head :: rest) := by
      rw [sentArgv, rewrite_plain hpackaged, translateRemoteArgv, strip_plain hhead]
    rw [hplain]
    exact iff_of_true rfl fun hcontra => absurd hcontra hpackaged
  have hplain : sentArgv deps (head :: rest) =
      translateUnwrapped deps (stripHostSandbox (ripgrep deps :: rest)) := by
    rw [sentArgv, rewrite_packaged hpackaged, translateRemoteArgv, ripgrep]
  rw [hplain, Invisible, imp_iff_right hpackaged]
  by_cases hstrip : stripHostSandbox (ripgrep deps :: rest) = ripgrep deps :: rest
  · rw [hstrip]
    by_cases hptc : PtcProgram (head :: rest)
    · obtain ⟨middle, limit, -, htranslate⟩ := translate_ptc deps hptc
      rw [htranslate, htranslate]
      exact iff_of_true rfl (.inr ⟨hptc, .inl rfl⟩)
    · have hother : ¬ PtcProgram (ripgrep deps :: rest) := fun h => hptc (ptcProgram_head h)
      rw [translate_other hptc, translate_other hother, Except.ok.injEq, List.cons.injEq,
        and_iff_left rfl, resolved_eq_iff hpackaged]
      constructor
      · exact .inl
      · rintro (h | ⟨h, -⟩)
        · exact h
        · exact absurd h hptc
  · -- the configured ripgrep is itself taken for a sandbox, and more is dropped
    obtain ⟨hsuffix, hshort⟩ := (strip_suffix _).resolve_left hstrip
    have hnamed : ¬ NamedAlike deps head := by
      intro h
      exact hstrip (strip_plain (h.not_runner hhead))
    rw [List.length_cons] at hshort
    constructor
    · intro hsame
      cases hsent : translateUnwrapped deps (head :: rest) with
      | ok sent =>
        have hfull := translate_length hsent
        have hless := translate_length (hsame ▸ hsent)
        rw [List.length_cons] at hfull
        omega
      | error message =>
        have hless := translate_eq_error_iff.mp (hsame ▸ hsent)
        have hfull := translate_eq_error_iff.mp hsent
        exact .inr ⟨hfull.1, .inr ⟨⟨message, hfull.2⟩, hless.1⟩⟩
    · rintro (h | ⟨hptc, h | ⟨⟨message, hhost⟩, hless⟩⟩)
      · exact absurd h hnamed
      · exact absurd h hstrip
      · rw [translate_eq_error_iff.mpr ⟨hptc, hhost⟩, translate_eq_error_iff.mpr ⟨hless, hhost⟩]

/-- A packaged ripgrep in a sandbox is sent under its path on this host, where it would be sent
as the configured one without. -/
theorem ripgrep_unconfigured :
    sentArgv ⟨fun path => .ok (decide (path = "/opt/rg")), .ok "/h", some "/opt/rg"⟩
      ["sandbox-exec", "-p", "(version 1)", "--", "/Users/dev/.dsh/bin/rg", "--json"] ≠
    sentArgv ⟨fun path => .ok (decide (path = "/opt/rg")), .ok "/h", some "/opt/rg"⟩
      ["/Users/dev/.dsh/bin/rg", "--json"] := by
  decide +kernel

/-- Any other command is sent alike. -/
theorem node_sent_alike :
    sentArgv ⟨fun _ => .ok false, .ok "/h", none⟩
      ("sandbox-exec" :: (["-p", "(version 1)"] ++ "--" :: "/opt/node" :: ["--version"])) =
    sentArgv ⟨fun _ => .ok false, .ok "/h", none⟩ ("/opt/node" :: ["--version"]) :=
  (wrapping_invisible_iff ⟨fun _ => .ok false, .ok "/h", none⟩ "sandbox-exec"
    ["-p", "(version 1)"] "/opt/node" ["--version"] (by decide +kernel) (by decide)
    (by decide +kernel)).mpr fun h => absurd h.2 (by decide +kernel)

end RemoteWorkspace.Analysis.InvisibleSandbox
