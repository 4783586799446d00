import Mathlib.Data.List.Induction
import Mathlib.Data.List.Infix

/-!
# Walking a path through symbolic links

A file system says what stands at each place, a place being the names that lead there from the
root through directories alone. A path is walked step by step; a link on the way is replaced by
its target, and only so many links are followed. Where a walk ends is a place that leads to
itself, so a path is its own end exactly when no link stands on the way it spells out.
-/

set_option autoImplicit false

namespace RemoteWorkspace.Computation.Symlinks

variable {α : Type}

/-- A step of a path. -/
inductive Step (α : Type) where
  | here
  | parent
  | name (name : α)
  deriving DecidableEq

/-- What stands at a place: nothing can be looked up in a file, nor in a directory that is
locked; a link has a target, which starts at the root or at the link's own directory. -/
inductive Node (α : Type) where
  | directory
  | file
  | locked
  | link (absolute : Bool) (target : List (Step α))
  deriving DecidableEq

/-- Why a walk ends before its path does. -/
inductive Stop where
  | missing
  | notDirectory
  | denied
  | loop
  deriving DecidableEq

/-- What stands at each place. -/
abbrev FileSystem (α : Type) := List α → Option (Node α)

/-- A link stands at the place. -/
def isLink (fs : FileSystem α) (place : List α) : Bool :=
  match fs place with
  | some (.link _ _) => true
  | _ => false

/-- A path is walked from a place up to the first link, which is followed from the place that
its target starts at. -/
def descend (fs : FileSystem α) (follow : List α → List (Step α) → Except Stop (List α)) :
    List α → List (Step α) → Except Stop (List α)
  | place, [] => .ok place
  | place, .here :: todo => descend fs follow place todo
  | place, .parent :: todo => descend fs follow place.dropLast todo
  | place, .name name :: todo =>
    match fs (place ++ [name]) with
    | none => .error .missing
    | some .directory => descend fs follow (place ++ [name]) todo
    | some .file => if todo.isEmpty then .ok (place ++ [name]) else .error .notDirectory
    | some .locked => if todo.isEmpty then .ok (place ++ [name]) else .error .denied
    | some (.link absolute target) => follow (if absolute then [] else place) (target ++ todo)

/-- A path is walked from a place, following so many links. -/
def walk (fs : FileSystem α) : (links : ℕ) → List α → List (Step α) → Except Stop (List α)
  | 0 => descend fs fun _ _ => .error .loop
  | links + 1 => descend fs (walk fs links)

/-- The path that spells a place out. -/
def names (place : List α) : List (Step α) := place.map .name

/-- The place is reached through directories and is one. -/
def Directories (fs : FileSystem α) (place : List α) : Prop :=
  ∀ q, q ≠ [] → q <+: place → fs q = some .directory

/-- Something stands at the place that is reached through directories alone, and is no link. -/
structure Real (fs : FileSystem α) (place : List α) : Prop where
  through : Directories fs place.dropLast
  stands : place ≠ [] → (fs place).isSome = true ∧ isLink fs place = false

/-- No link stands on the way that the place spells out. -/
def LinkFree (fs : FileSystem α) (place : List α) : Prop :=
  ∀ q ∈ place.inits, q ≠ [] → isLink fs q = false

instance [DecidableEq α] (fs : FileSystem α) (place : List α) : Decidable (LinkFree fs place) :=
  inferInstanceAs (Decidable (∀ q ∈ place.inits, q ≠ [] → isLink fs q = false))

variable {fs : FileSystem α} {place rest : List α} {name : α}
  {follow : List α → List (Step α) → Except Stop (List α)} {links : ℕ}

/-! ### Places -/

/-- The root is a directory. -/
theorem directories_nil : Directories fs [] := fun _ hne hq => absurd (List.prefix_nil.mp hq) hne

/-- What a directory is reached through are directories. -/
theorem Directories.of_prefix (h : Directories fs place) (hrest : rest <+: place) :
    Directories fs rest := fun q hne hq => h q hne (hq.trans hrest)

/-- A directory in a directory. -/
theorem Directories.concat (h : Directories fs place)
    (hname : fs (place ++ [name]) = some .directory) : Directories fs (place ++ [name]) := by
  intro q hne hq
  rcases List.prefix_concat_iff.mp hq with rfl | hq
  · exact hname
  · exact h q hne hq

/-- A directory is real. -/
theorem Directories.real (h : Directories fs place) : Real fs place where
  through := h.of_prefix (List.dropLast_prefix place)
  stands hne := by simp [isLink, h place hne (List.prefix_refl place)]

/-- What stands in a directory is real when it is no link. -/
theorem Directories.real_concat (h : Directories fs place)
    (hsome : (fs (place ++ [name])).isSome = true) (hlink : isLink fs (place ++ [name]) = false) :
    Real fs (place ++ [name]) where
  through := by rwa [List.dropLast_concat]
  stands _ := ⟨hsome, hlink⟩

/-- What has something real in it is a directory. -/
theorem Real.above (h : Real fs (place ++ rest)) (hne : rest ≠ []) : Directories fs place := by
  refine h.through.of_prefix ?_
  rw [List.dropLast_append_of_ne_nil hne]
  exact List.prefix_append place rest.dropLast

/-- No link stands on the way to something real. -/
theorem Real.linkFree (h : Real fs place) : LinkFree fs place := by
  intro q hq hne
  obtain ⟨rest, rfl⟩ := List.mem_inits _ _ |>.mp hq
  rcases eq_or_ne rest [] with rfl | hrest
  · rw [List.append_nil] at h
    exact (h.stands hne).2
  · simp [isLink, h.above hrest q hne (List.prefix_refl q)]

/-- A way without links starts as one. -/
theorem LinkFree.of_prefix (h : LinkFree fs place) (hrest : rest <+: place) : LinkFree fs rest :=
  fun q hq hne => h q ((List.mem_inits _ _).mpr (((List.mem_inits _ _).mp hq).trans hrest)) hne

/-! ### Walks -/

/-- A walk goes down through directories. -/
theorem descend_names (h : Directories fs (place ++ rest)) (todo : List (Step α)) :
    descend fs follow place (names rest ++ todo) = descend fs follow (place ++ rest) todo := by
  induction rest generalizing place with
  | nil => simp [names]
  | cons name rest ih =>
    have hname : fs (place ++ [name]) = some .directory :=
      h (place ++ [name]) (by simp) ⟨rest, by simp⟩
    have hbelow : Directories fs (place ++ [name] ++ rest) := by simpa using h
    simpa [names, descend, hname] using ih hbelow

/-- Where a walk from a directory ends is real. -/
theorem descend_real
    (hfollow : ∀ place todo c, Directories fs place → follow place todo = .ok c →
      Real fs c) (todo : List (Step α)) {c : List α} (h : Directories fs place)
    (hok : descend fs follow place todo = .ok c) : Real fs c := by
  induction todo generalizing place with
  | nil =>
    rw [descend, Except.ok.injEq] at hok
    exact hok ▸ h.real
  | cons step todo ih =>
    cases step with
    | here => exact ih h hok
    | parent => exact ih (h.of_prefix (List.dropLast_prefix place)) hok
    | name name =>
      rw [descend] at hok
      split at hok
      · cases hok
      · exact ih (h.concat ‹_›) hok
      · split at hok
        · obtain rfl := Except.ok.inj hok
          exact h.real_concat (by simp [*]) (by simp [isLink, *])
        · cases hok
      · split at hok
        · obtain rfl := Except.ok.inj hok
          exact h.real_concat (by simp [*]) (by simp [isLink, *])
        · cases hok
      · rename_i absolute target _
        refine hfollow _ _ _ ?_ hok
        cases absolute with
        | true => exact directories_nil
        | false => exact h

/-- Where a walk from a directory ends is real. -/
theorem walk_real {todo : List (Step α)} {c : List α} (h : Directories fs place)
    (hok : walk fs links place todo = .ok c) : Real fs c := by
  induction links generalizing place todo c with
  | zero => exact descend_real (fun _ _ _ _ hloop => by cases hloop) todo h hok
  | succ links ih => exact descend_real (fun _ _ _ hplace hlater => ih hplace hlater) todo h hok

/-- A walk along a way to something real ends there. -/
theorem descend_to_real (h : Real fs (place ++ rest)) :
    descend fs follow place (names rest) = .ok (place ++ rest) := by
  rcases List.eq_nil_or_concat rest with rfl | ⟨up, name, rfl⟩
  · simp [names, descend]
  · rw [List.concat_eq_append, ← List.append_assoc] at h ⊢
    have hup : Directories fs (place ++ up) := h.above (by simp)
    obtain ⟨hsome, hlink⟩ := h.stands (by simp)
    rw [names, List.map_append, ← names, descend_names hup]
    generalize place ++ up = dir at hsome hlink ⊢
    cases hnode : fs (dir ++ [name]) with
    | none => simp [hnode] at hsome
    | some node =>
      cases node with
      | directory => simp [descend, hnode]
      | file => simp [descend, hnode]
      | locked => simp [descend, hnode]
      | link absolute target => simp [isLink, hnode] at hlink

/-- What stands below the end of a walk is reached by walking on. -/
theorem descend_append
    (hfollow : ∀ place todo c, follow place todo = .ok c → Real fs (c ++ rest) →
      follow place (todo ++ names rest) = .ok (c ++ rest)) (todo : List (Step α)) {c : List α}
    (hok : descend fs follow place todo = .ok c) (h : Real fs (c ++ rest)) :
    descend fs follow place (todo ++ names rest) = .ok (c ++ rest) := by
  induction todo generalizing place with
  | nil =>
    rw [descend, Except.ok.injEq] at hok
    subst hok
    exact descend_to_real h
  | cons step todo ih =>
    cases step with
    | here => exact ih hok
    | parent => exact ih hok
    | name name =>
      -- nothing is below a file or a locked directory
      have hleaf (hplace : place ++ [name] = c) (hfs : fs (place ++ [name]) ≠ some .directory) :
          rest = [] := by
        by_contra hrest
        subst hplace
        exact hfs (h.above hrest _ (by simp) (List.prefix_refl _))
      rw [descend] at hok
      rw [List.cons_append, descend]
      split at hok
      · cases hok
      · exact ih hok
      · rename_i hfile
        split at hok
        · rename_i hempty
          obtain rfl := hleaf (Except.ok.inj hok) (by simp [hfile])
          rw [names, List.map_nil, List.append_nil, if_pos hempty, List.append_nil]
          exact hok
        · cases hok
      · rename_i hlocked
        split at hok
        · rename_i hempty
          obtain rfl := hleaf (Except.ok.inj hok) (by simp [hlocked])
          rw [names, List.map_nil, List.append_nil, if_pos hempty, List.append_nil]
          exact hok
        · cases hok
      · rw [← List.append_assoc]
        exact hfollow _ _ _ hok h

/-- What stands below the end of a walk is reached by walking on. -/
theorem walk_append {todo : List (Step α)} {c : List α} (hok : walk fs links place todo = .ok c)
    (h : Real fs (c ++ rest)) : walk fs links place (todo ++ names rest) = .ok (c ++ rest) := by
  induction links generalizing place todo c with
  | zero => exact descend_append (fun _ _ _ hloop _ => by cases hloop) todo hok h
  | succ links ih => exact descend_append (fun _ _ _ hlater hreal => ih hlater hreal) todo hok h

/-- A path without a link on its way that ends somewhere ends where it spells out. -/
theorem descend_linkFree {c : List α} (hfree : LinkFree fs (place ++ rest))
    (hok : descend fs follow place (names rest) = .ok c) : c = place ++ rest := by
  induction rest generalizing place with
  | nil =>
    rw [List.append_nil]
    exact (Except.ok.inj hok).symm
  | cons name rest ih =>
    have hlink : isLink fs (place ++ [name]) = false :=
      hfree _ ((List.mem_inits _ _).mpr ⟨rest, by simp⟩) (by simp)
    have hleaf (hempty : (names rest).isEmpty = true) : place ++ [name] = place ++ name :: rest := by
      rw [names, List.isEmpty_map, List.isEmpty_iff] at hempty
      rw [hempty]
    have hnext : LinkFree fs (place ++ [name] ++ rest) := by simpa using hfree
    rw [names, List.map_cons, ← names, descend] at hok
    split at hok
    · cases hok
    · simpa using ih hnext hok
    · split at hok
      · exact (Except.ok.inj hok).symm.trans (hleaf ‹_›)
      · cases hok
    · split at hok
      · exact (Except.ok.inj hok).symm.trans (hleaf ‹_›)
      · cases hok
    · simp [isLink, *] at hlink

/-- What a walk finds with fewer links it finds with more, unless it had too few. -/
theorem descend_mono {follow' : List α → List (Step α) → Except Stop (List α)}
    (hfollow : ∀ place todo r, follow place todo = r → r ≠ .error .loop → follow' place todo = r)
    (todo : List (Step α)) {r : Except Stop (List α)} (h : descend fs follow place todo = r)
    (hr : r ≠ .error .loop) : descend fs follow' place todo = r := by
  induction todo generalizing place with
  | nil => exact h
  | cons step todo ih =>
    cases step with
    | here => exact ih h
    | parent => exact ih h
    | name name =>
      rw [descend] at h ⊢
      split at h
      · exact h
      · exact ih h
      · exact h
      · exact h
      · exact hfollow _ _ _ h hr

/-- What a walk finds with so many links it finds with more, unless it had too few. -/
theorem walk_mono {more : ℕ} (hle : links ≤ more) {todo : List (Step α)}
    {r : Except Stop (List α)} (h : walk fs links place todo = r) (hr : r ≠ .error .loop) :
    walk fs more place todo = r := by
  induction links generalizing more place todo r with
  | zero =>
    cases more with
    | zero => exact h
    | succ more =>
      refine descend_mono (fun _ _ _ hloop hr => absurd hloop.symm hr) todo h hr
  | succ links ih =>
    obtain ⟨more, rfl⟩ : ∃ m, more = m + 1 := ⟨more - 1, by omega⟩
    exact descend_mono (fun _ _ _ hlater hr => ih (Nat.le_of_succ_le_succ hle) hlater hr) todo h hr

/-- A way misses something on its first part, or that leads to a directory from which the rest is
walked, with no more links than there are. -/
def MissesBehind (fs : FileSystem α) (links : ℕ) (first : Except Stop (List α))
    (whole : List (Step α) → Except Stop (List α)) : Prop :=
  first = .error .missing ∨ ∃ c left, left ≤ links ∧ Directories fs c ∧ first = .ok c ∧
    ∀ more, whole more = walk fs left c more

/-- A walk that misses something misses it on the first part of its way, or that part leads to a
directory from which the walk goes on. -/
theorem descend_append_missing {rest : List (Step α)} (hrest : rest ≠ [])
    (hwalk : walk fs links = descend fs follow)
    (hfollow : ∀ place todo, Directories fs place → follow place (todo ++ rest) = .error .missing →
      MissesBehind fs links (follow place todo) fun more => follow place (todo ++ more))
    (todo : List (Step α)) (hdirs : Directories fs place)
    (h : descend fs follow place (todo ++ rest) = .error .missing) :
    MissesBehind fs links (descend fs follow place todo)
      fun more => descend fs follow place (todo ++ more) := by
  induction todo generalizing place with
  | nil => exact .inr ⟨place, links, Nat.le_refl _, hdirs, rfl, fun more => by rw [hwalk]; rfl⟩
  | cons step todo ih =>
    cases step with
    | here => exact ih hdirs h
    | parent => exact ih (hdirs.of_prefix (List.dropLast_prefix place)) h
    | name name =>
      have hnonempty : (todo ++ rest).isEmpty = false := by simp [hrest]
      rw [List.cons_append, descend] at h
      cases hnode : fs (place ++ [name]) with
      | none =>
        left
        rw [descend, hnode]
      | some node =>
        rw [hnode] at h
        cases node with
        | directory =>
          have hnext := ih (hdirs.concat hnode) h
          simpa only [descend, hnode, List.cons_append] using hnext
        | file =>
          simp [hnonempty] at h
        | locked =>
          simp [hnonempty] at h
        | link absolute target =>
          have hstart : Directories fs (if absolute then [] else place) := by
            cases absolute with
            | true => exact directories_nil
            | false => exact hdirs
          simp only [← List.append_assoc] at h
          have hnext := hfollow _ _ hstart h
          simpa only [descend, hnode, List.cons_append, List.append_assoc] using hnext

/-- The same of a walk with so many links. -/
theorem walk_append_missing {todo rest : List (Step α)} (hrest : rest ≠ [])
    (hdirs : Directories fs place) (h : walk fs links place (todo ++ rest) = .error .missing) :
    MissesBehind fs links (walk fs links place todo)
      fun more => walk fs links place (todo ++ more) := by
  induction links generalizing place todo with
  | zero => exact descend_append_missing hrest rfl (fun _ _ _ hloop => by cases hloop) todo hdirs h
  | succ links ih =>
    refine descend_append_missing hrest rfl (fun place todo hplace hlater => ?_) todo hdirs h
    rcases ih hplace hlater with hmissing | ⟨c, left, hle, hc, hfirst, hwhole⟩
    · exact .inl hmissing
    · exact .inr ⟨c, left, Nat.le_succ_of_le hle, hc, hfirst, hwhole⟩

/-! ### Canonical places -/

/-- The links that a walk follows at most, as the kernel has it. -/
def maxLinks : ℕ := 40

/-- The place that a path leads to, every link on its way followed. -/
def canonicalize (fs : FileSystem α) (place : List α) : Except Stop (List α) :=
  walk fs maxLinks [] (names place)

variable {c : List α}

/-- The place that a path leads to is real. -/
theorem canonicalize_real (h : canonicalize fs place = .ok c) : Real fs c :=
  walk_real directories_nil h

/-- Below a path stands what is below its canonical place. -/
theorem canonicalize_append (h : canonicalize fs place = .ok c) (hreal : Real fs (c ++ rest)) :
    canonicalize fs (place ++ rest) = .ok (c ++ rest) := by
  rw [canonicalize, names, List.map_append, ← names, ← names]
  exact walk_append h hreal

/-- A path is its own canonical place when no link is on its way. -/
theorem canonicalize_linkFree (h : canonicalize fs place = .ok c) (hfree : LinkFree fs place) :
    c = place := by
  rw [← List.nil_append place] at hfree ⊢
  exact descend_linkFree hfree h

/-- What is below the canonical place of a path is below the path itself only when no link is on
its way. -/
theorem prefix_iff_linkFree (h : canonicalize fs place = .ok c) (hreal : Real fs (c ++ rest)) :
    place <+: c ++ rest ↔ LinkFree fs place := by
  constructor
  · exact fun hprefix => hreal.linkFree.of_prefix hprefix
  · intro hfree
    rw [canonicalize_linkFree h hfree]
    exact List.prefix_append place rest

/-- Something real is its own canonical place. -/
theorem canonicalize_of_real (h : Real fs place) : canonicalize fs place = .ok place := by
  have hwalk : walk fs maxLinks [] (names place) = .ok ([] ++ place) :=
    descend_to_real (by rwa [List.nil_append])
  rwa [List.nil_append] at hwalk

/-- Nothing below a locked directory is looked at. -/
theorem canonicalize_locked (h : Directories fs place)
    (hlocked : fs (place ++ [name]) = some .locked) (hrest : rest ≠ []) :
    canonicalize fs (place ++ [name] ++ rest) = .error .denied := by
  have hwalk : walk fs maxLinks [] (names place ++ names (name :: rest)) =
      walk fs maxLinks place (names (name :: rest)) := by
    exact descend_names (by rwa [List.nil_append]) (names (name :: rest))
  rw [canonicalize, names, List.append_assoc, List.map_append, ← names, ← names,
    List.singleton_append, hwalk]
  simp [names, walk, maxLinks, descend, hlocked, hrest]

/-! ### Missing places -/

/-- A path whose deepest ancestor that leads somewhere leads to a place, with the names that are
missing below it. -/
structure Splits (fs : FileSystem α) (ancestor missing real : List α) : Prop where
  leads : canonicalize fs ancestor = .ok real
  misses : ∀ q, q ≠ [] → q <+: missing → canonicalize fs (ancestor ++ q) = .error .missing

/-- A path that misses something has such an ancestor. -/
theorem exists_splits (h : canonicalize fs place = .error .missing) :
    ∃ ancestor missing real, place = ancestor ++ missing ∧ missing ≠ [] ∧
      Splits fs ancestor missing real := by
  induction place using List.reverseRecOn with
  | nil => cases h
  | append_singleton up name ih =>
    have hwhole : walk fs maxLinks [] (names up ++ names [name]) = .error .missing := by
      rw [names, names, ← List.map_append]
      exact h
    rcases walk_append_missing (List.cons_ne_nil _ _) directories_nil hwhole with hup | ⟨c, -, -, -, hup, -⟩
    · obtain ⟨ancestor, missing, real, rfl, hne, hsplits⟩ := ih hup
      refine ⟨ancestor, missing ++ [name], real, List.append_assoc _ _ _, by simp, hsplits.leads, ?_⟩
      intro q hq hprefix
      rcases List.prefix_concat_iff.mp hprefix with rfl | hprefix
      · rw [← List.append_assoc]
        exact h
      · exact hsplits.misses q hq hprefix
    · refine ⟨up, [name], c, rfl, List.cons_ne_nil _ _, hup, ?_⟩
      intro q hq hprefix
      rcases List.prefix_cons_iff.mp hprefix with rfl | ⟨front, rfl, hfront⟩
      · exact absurd rfl hq
      · rw [List.prefix_nil.mp hfront]
        exact h

/-- The names that are missing below an ancestor are missing below the place that it leads to. -/
theorem Splits.below (h : Splits fs place rest c) : Splits fs c rest c := by
  refine ⟨canonicalize_of_real (canonicalize_real h.leads), ?_⟩
  intro q hq hprefix
  have hmissing := h.misses q hq hprefix
  have hnames : names q ≠ [] := by simpa [names] using hq
  rw [canonicalize, names, List.map_append, ← names, ← names] at hmissing
  rcases walk_append_missing hnames directories_nil hmissing with
    hnone | ⟨c', left, hle, hdirs, hc', hwhole⟩
  · cases hnone.symm.trans h.leads
  · obtain rfl := Except.ok.inj (h.leads.symm.trans hc')
    have hrest : walk fs left c (names q) = .error .missing := (hwhole _).symm.trans hmissing
    have hdown : descend fs (walk fs 39) [] (names c ++ names q) =
        descend fs (walk fs 39) ([] ++ c) (names q) := descend_names hdirs (names q)
    have hmore := walk_mono hle hrest (by simp)
    rw [canonicalize, names, List.map_append, ← names, ← names]
    exact hdown.trans hmore

end RemoteWorkspace.Computation.Symlinks
