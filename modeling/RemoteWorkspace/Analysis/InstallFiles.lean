import RemoteWorkspace.Computation.Slots
import RemoteWorkspace.Model.Install

/-!
# What an install leaves on a machine

The file at the final path is a complete build, and the build its marker names, as long as
no upload command moves a short file into place or shares its staging file with another,
and no build is moved into place under a marker of another version.
-/

set_option autoImplicit false

namespace RemoteWorkspace.Analysis.InstallFiles

open RemoteWorkspace.Computation RemoteWorkspace.Model.Install

/-! ### Writes and markers -/

/-- A write at the end appends. -/
theorem writeAt_end {α : Type} (zero : α) (content chunk : List α) :
    writeAt zero content content.length chunk = content ++ chunk := by
  simp [writeAt]

/-- A write at the front replaces as much as it is long. -/
theorem writeAt_zero {α : Type} (zero : α) (content chunk : List α) :
    writeAt zero content 0 chunk = chunk ++ content.drop chunk.length := by
  simp [writeAt]

/-- A first part of a text, written over another first part, is a first part again. -/
theorem writeAt_zero_prefix {α : Type} (zero : α) {text content : List α} (n : ℕ)
    (h : content <+: text) : writeAt zero content 0 (text.take n) <+: text := by
  rw [writeAt_zero]
  obtain ⟨k, rfl⟩ : ∃ k, content = text.take k := ⟨_, List.prefix_iff_eq_take.mp h⟩
  rcases Nat.le_total k n with hkn | hnk
  · have hdrop : (text.take k).drop (text.take n).length = [] := by
      rw [List.drop_eq_nil_iff, List.length_take, List.length_take]
      omega
    rw [hdrop, List.append_nil]
    exact List.take_prefix n text
  · have hsplit : text.take n = (text.take k).take n := by
      rw [List.take_take, Nat.min_eq_left hnk]
    rw [hsplit]
    by_cases hlen : n ≤ (text.take k).length
    · rw [List.length_take, Nat.min_eq_left hlen, List.take_append_drop]
      exact List.take_prefix k text
    · have hall : (text.take k).take n = text.take k := List.take_of_length_le (by omega)
      rw [hall, List.drop_length, List.append_nil]
      exact List.take_prefix k text

/-- A value with no quote in it ends at the quote that is written after it. -/
theorem takeWhile_quote {value rest : List Char} (h : ∀ c ∈ value, c ≠ '\x22') :
    (value ++ '\x22' :: rest).takeWhile (· ≠ '\x22') = value := by
  rw [List.takeWhile_append_of_pos (by simpa using h)]
  simp

/-- An empty marker names nothing. -/
theorem markerVersion_nil : markerVersion [] = none := by decide +kernel

/-- A first part of a marker's text names no version but the marker's own. -/
theorem markerVersion_of_prefix {text : List Char} {v : Version} {name : String}
    (htext : text <+: markerText v) (hname : markerVersion text = some name) :
    name = v.text := by
  unfold markerVersion at hname
  split at hname
  · rename_i hhead
    rw [List.isPrefixOf_iff_prefix] at hhead
    obtain ⟨body, rfl⟩ := hhead
    rw [List.drop_left] at hname
    obtain ⟨hend, hvalue⟩ := Option.ite_none_right_eq_some.mp hname
    have hkept : ∀ c ∈ body.takeWhile (· ≠ '\x22'), c ≠ '\x22' := by
      intro c hc
      simpa using List.all_eq_true.mp List.all_takeWhile c hc
    have hpart : body.takeWhile (· ≠ '\x22') <+: body := List.takeWhile_prefix _
    generalize body.takeWhile (· ≠ '\x22') = value at hend hvalue hkept hpart
    obtain ⟨rest, rfl⟩ := hpart
    rw [List.drop_left] at hend
    rw [markerText, List.append_assoc, List.prefix_append_right_inj] at htext
    obtain ⟨more, hmore⟩ := htext
    have htail : markerTail = ['\x22', '\x7d'] := by decide +kernel
    have hplain : ∀ c ∈ v.text.toList, c ≠ '\x22' := fun c hc => (v.plain c hc).1
    have htake := congrArg (List.takeWhile (· ≠ '\x22')) hmore
    rw [hend, htail, List.append_assoc, List.cons_append, takeWhile_quote hkept,
      takeWhile_quote hplain] at htake
    rw [← Option.some.inj hvalue, htake, String.ofList_toList]
  · cases hname

/-! ### The condition -/

variable (build : Version → Bytes)

/-- An upload command that has opened the staging file and not come to its end. -/
def busy (u : Upload) : Bool :=
  match u.phase with
  | .copying _ | .chmod | .mv => true
  | _ => false

/-- A run whose upload command went well, with its marker still to be written. -/
def due (uploads : List Upload) (run : Run) : Bool :=
  match run.phase with
  | .recording => true
  | .uploading p => (uploads[p]?).map Upload.phase = some (.exited true)
  | _ => false

/-- An upload command opens the staging file while no other one uses it; it moves the file
into place when it has copied the whole build, and while neither the marker nor a run or
command that is to write it is of another version; and no client of an upload command that
is still to go well is ended by a signal. -/
def Orderly (s : Place) : Event → Prop
  | .openStaging _ => ∀ u ∈ s.uploads, busy u = false
  | .rename p => ∀ u ∈ s.uploads[p]?, u.copied = (build u.version).length ∧
      (∀ run ∈ s.runs, due s.uploads run = true → run.version = u.version) ∧
      (∀ w ∈ s.markers, w.phase ≠ .over → w.version = u.version) ∧
      ∀ name ∈ markerVersion s.marker, name = u.version.text
  | .sshKilled r => ∀ run ∈ s.runs[r]?, due s.uploads run = true
  | _ => True

instance (s : Place) (e : Event) : Decidable (Orderly build s e) := by
  unfold Orderly
  cases e <;> infer_instance

/-! ### The invariant -/

/-- What an inode holds. -/
def contentAt (s : Place) (x : ℕ) : Option Bytes := (s.inodes[x]?).map Inode.content

/-- What `cat` has copied of the build stands in the staging file, and `cat` writes that
file. -/
structure Staged (s : Place) (u : Upload) : Prop where
  staging : ∃ x, s.staging = some x ∧ contentAt s x = some ((build u.version).take u.copied) ∧
    ∀ y, u.phase = .copying y → y = x
  copied : u.copied ≤ (build u.version).length

/-- The files of a binary, with the version that was moved into place. -/
structure FilesKept (cur : Option Version) (s : Place) : Prop where
  staging : ∀ x, s.staging = some x → x < s.inodes.length ∧ s.final ≠ some x
  final : ∀ x, s.final = some x → ∃ v, cur = some v ∧ contentAt s x = some (build v)
  placed : cur ≠ none → s.final ≠ none
  opening : ∀ (p : ℕ) (u : Upload), s.uploads[p]? = some u → u.phase = .opening → u.copied = 0
  alone : ∀ (p : ℕ) (u : Upload) (p' : ℕ) (u' : Upload), s.uploads[p]? = some u →
    s.uploads[p']? = some u' → busy u = true → busy u' = true → p = p'
  staged : ∀ (p : ℕ) (u : Upload), s.uploads[p]? = some u → busy u = true → Staged build s u

/-- The marker, and who is to write it, with the version that was moved into place. -/
structure RecordsKept (cur : Option Version) (s : Place) : Prop where
  own : ∀ (r : ℕ) (run : Run) (p : ℕ), s.runs[r]? = some run → run.phase = .uploading p →
    ∃ u, s.uploads[p]? = some u ∧ u.version = run.version
  pending : ∀ (r : ℕ) (run : Run), s.runs[r]? = some run → due s.uploads run = true →
    cur = some run.version
  writers : ∀ (q : ℕ) (w : MarkerWrite), s.markers[q]? = some w → w.phase ≠ .over →
    cur = some w.version
  writing : ∀ (q : ℕ) (w : MarkerWrite), s.markers[q]? = some w → w.phase = .writing →
    s.marker <+: markerText w.version
  marker : ∀ name, markerVersion s.marker = some name → ∃ v, cur = some v ∧ name = v.text

/-- What holds in every state of an orderly run. -/
structure Kept (cur : Option Version) (s : Place) : Prop where
  files : FilesKept build cur s
  records : RecordsKept cur s

variable {build}

/-- A machine without the binary. -/
theorem kept_fresh : Kept build none .fresh := by
  have hmarker : Place.fresh.marker = [] := rfl
  refine ⟨⟨?_, ?_, ?_, ?_, ?_, ?_⟩, ⟨?_, ?_, ?_, ?_, ?_⟩⟩
  all_goals simp [Place.fresh, markerVersion_nil]

/-! ### Steps that leave the files alone -/

/-- The files hold what they held, and no upload command has come further than to its end. -/
structure Quiet (s s' : Place) : Prop where
  staging : s'.staging = s.staging
  final : s'.final = s.final
  length : s'.inodes.length = s.inodes.length
  content : ∀ x, contentAt s' x = contentAt s x
  uploads : ∀ (p : ℕ) (u' : Upload), s'.uploads[p]? = some u' →
    (u'.phase = .opening ∧ u'.copied = 0) ∨
    ∃ u, s.uploads[p]? = some u ∧ u'.version = u.version ∧ u'.copied = u.copied ∧
      (busy u' = true → busy u = true) ∧ (u'.phase = .opening → u.phase = .opening) ∧
      ∀ y, u'.phase = .copying y → u.phase = .copying y

/-- A command that only opens its file is not busy. -/
theorem not_busy_of_opening {u : Upload} (h : u.phase = .opening) : busy u ≠ true := by
  simp [busy, h]

/-- A step that leaves the files alone keeps what is known of them. -/
theorem FilesKept.quiet {cur : Option Version} {s s' : Place} (hs : FilesKept build cur s)
    (h : Quiet s s') : FilesKept build cur s' := by
  have hbusy : ∀ (p : ℕ) (u' : Upload), s'.uploads[p]? = some u' → busy u' = true →
      ∃ u, s.uploads[p]? = some u ∧ busy u = true ∧ u'.version = u.version ∧
        u'.copied = u.copied ∧ ∀ y, u'.phase = .copying y → u.phase = .copying y := by
    intro p u' hu' hb
    rcases h.uploads p u' hu' with ⟨hopening, -⟩ | ⟨u, hu, hv, hc, hbusy, -, hcopying⟩
    · exact absurd hb (not_busy_of_opening hopening)
    · exact ⟨u, hu, hbusy hb, hv, hc, hcopying⟩
  refine ⟨?_, ?_, ?_, ?_, ?_, ?_⟩
  · rw [h.staging, h.final, h.length]
    exact hs.staging
  · intro x hx
    rw [h.content]
    exact hs.final x (h.final ▸ hx)
  · rw [h.final]
    exact hs.placed
  · intro p u' hu' hopening
    rcases h.uploads p u' hu' with ⟨-, hzero⟩ | ⟨u, hu, -, hc, -, hopens, -⟩
    · exact hzero
    · rw [hc]
      exact hs.opening p u hu (hopens hopening)
  · intro p u p' u' hu hu' hb hb'
    obtain ⟨v, hv, hvb, -⟩ := hbusy p u hu hb
    obtain ⟨v', hv', hvb', -⟩ := hbusy p' u' hu' hb'
    exact hs.alone p v p' v' hv hv' hvb hvb'
  · intro p u' hu' hb
    obtain ⟨u, hu, hub, hv, hc, hcopying⟩ := hbusy p u' hu' hb
    obtain ⟨⟨x, hx, hcontent, hwrites⟩, hcopied⟩ := hs.staged p u hu hub
    refine ⟨⟨x, ?_, ?_, ?_⟩, ?_⟩
    · rw [h.staging, hx]
    · rw [h.content, hcontent, hv, hc]
    · intro y hy
      exact hwrites y (hcopying y hy)
    · rw [hv, hc]
      exact hcopied

/-- An upload command that moves to a phase without the staging file, or from one phase with
it to a later one, leaves the files alone. -/
theorem quiet_moveUpload {s : Place} {p : ℕ} {f : Upload → Upload}
    (hversion : ∀ u, (f u).version = u.version) (hcopied : ∀ u, (f u).copied = u.copied)
    (hphase : ∀ u, s.uploads[p]? = some u → (busy (f u) = true → busy u = true) ∧
      ((f u).phase = .opening → u.phase = .opening) ∧
      ∀ y, (f u).phase = .copying y → u.phase = .copying y) : Quiet s (s.moveUpload p f) := by
  refine ⟨rfl, rfl, rfl, fun x => rfl, ?_⟩
  intro j u' hu'
  obtain ⟨u, hu, ⟨rfl, rfl⟩ | ⟨-, rfl⟩⟩ := getElem?_modify_cases hu'
  · obtain ⟨hbusy, hopening, hcopying⟩ := hphase u hu
    exact .inr ⟨u, hu, hversion u, hcopied u, hbusy, hopening, hcopying⟩
  · exact .inr ⟨u', hu, rfl, rfl, id, id, fun _ => id⟩

/-- A step that leaves the files and the upload commands as they are. -/
theorem quiet_of_eq {s s' : Place} (hstaging : s'.staging = s.staging)
    (hfinal : s'.final = s.final) (hinodes : s'.inodes = s.inodes)
    (huploads : s'.uploads = s.uploads) : Quiet s s' := by
  refine ⟨hstaging, hfinal, by rw [hinodes], fun x => by rw [contentAt, contentAt, hinodes], ?_⟩
  intro p u hu
  rw [huploads] at hu
  exact .inr ⟨u, hu, rfl, rfl, id, id, fun _ => id⟩

/-- A client that is gone leaves the files alone. -/
theorem quiet_unlink (s : Place) (phase : RunPhase) : Quiet s (s.unlink phase) := by
  unfold Place.unlink
  split
  · exact quiet_moveUpload (fun _ => rfl) (fun _ => rfl) fun u _ => ⟨id, id, fun _ => id⟩
  · exact quiet_of_eq rfl rfl rfl rfl

/-! ### Steps that change the files -/

/-- Only the command that moved is busy, when it was or no other is. -/
theorem alone_of_moved {l : List Upload} {p : ℕ} {f : Upload → Upload}
    (hothers : ∀ (j : ℕ) (u : Upload), l[j]? = some u → busy u = true → j = p)
    {i j : ℕ} {u u' : Upload} (hu : (l.modify p f)[i]? = some u)
    (hu' : (l.modify p f)[j]? = some u') (hb : busy u = true) (hb' : busy u' = true) : i = j := by
  have hp : ∀ (k : ℕ) (v : Upload), (l.modify p f)[k]? = some v → busy v = true → k = p := by
    intro k v hv hvb
    obtain ⟨w, hw, ⟨hk, -⟩ | ⟨-, rfl⟩⟩ := getElem?_modify_cases hv
    · exact hk.symm
    · exact hothers k v hw hvb
  rw [hp i u hu hb, hp j u' hu' hb']

/-- The staging file is opened while no other upload command uses it. -/
theorem files_openStaging {cur : Option Version} {s : Place} {p : ℕ} {u : Upload}
    (hs : FilesKept build cur s) (hu : s.uploads[p]? = some u) (hopening : u.phase = .opening)
    (hfree : ∀ v ∈ s.uploads, busy v = false) : FilesKept build cur (s.openStaging p) := by
  have hidle : ∀ (j : ℕ) (v : Upload), s.uploads[j]? = some v → busy v ≠ true := by
    intro j v hv
    simp [hfree v (List.mem_of_getElem? hv)]
  have hzero := hs.opening p u hu hopening
  -- The moved command is the only busy one, and it has copied nothing yet.
  have hopen : ∀ (x : ℕ) (j : ℕ) (v : Upload),
      (s.uploads.modify p fun u => { u with phase := .copying x })[j]? = some v →
      (v.phase = .opening → v.copied = 0) ∧
      (busy v = true → v.copied = 0 ∧ ∀ y, v.phase = .copying y → y = x) := by
    intro x j v hv
    obtain ⟨w, hw, ⟨rfl, rfl⟩ | ⟨-, rfl⟩⟩ := getElem?_modify_cases hv
    · obtain rfl : w = u := Option.some.inj (hw.symm.trans hu)
      refine ⟨fun _ => hzero, fun _ => ⟨hzero, ?_⟩⟩
      rintro y ⟨⟩
      rfl
    · exact ⟨hs.opening j v hw, fun hb => absurd hb (hidle j v hw)⟩
  unfold Place.openStaging
  split
  · rename_i x hx
    obtain ⟨hlt, hne⟩ := hs.staging x hx
    have hcontent : ∀ y, s.final = some y →
        contentAt { s with inodes := s.inodes.modify x fun i => { i with content := [] } } y =
          contentAt s y := by
      intro y hy
      have hxy : x ≠ y := by
        rintro rfl
        exact hne hy
      simp [contentAt, hxy]
    refine ⟨?_, ?_, hs.placed, fun j v hv => (hopen x j v hv).1, ?_, ?_⟩
    · intro y hy
      rw [List.length_modify]
      exact hs.staging y hy
    · intro y hy
      obtain ⟨v, hcur, hv⟩ := hs.final y hy
      exact ⟨v, hcur, (hcontent y hy).trans hv⟩
    · intro i v j w hv hw hb hb'
      exact alone_of_moved (fun k z hz hzb => absurd hzb (hidle k z hz)) hv hw hb hb'
    · intro j v hv hb
      obtain ⟨hcopied, hwrites⟩ := (hopen x j v hv).2 hb
      refine ⟨⟨x, hx, ?_, hwrites⟩, by omega⟩
      rw [hcopied, List.take_zero]
      simp [contentAt, List.getElem?_eq_getElem hlt]
  · rename_i hnone
    have hcontent : ∀ y c, contentAt s y = some c →
        contentAt { s with inodes := s.inodes ++ [⟨[], false⟩] } y = some c := by
      intro y c hc
      obtain ⟨inode, hinode, rfl⟩ := Option.map_eq_some_iff.mp hc
      simp only [contentAt, getElem?_concat_of_some hinode, Option.map_some]
    refine ⟨?_, ?_, hs.placed, fun j v hv => (hopen _ j v hv).1, ?_, ?_⟩
    · rintro y ⟨⟩
      refine ⟨by simp, ?_⟩
      intro hy
      obtain ⟨v, -, hv⟩ := hs.final _ hy
      simp [contentAt] at hv
    · intro y hy
      obtain ⟨v, hcur, hv⟩ := hs.final y hy
      exact ⟨v, hcur, hcontent y _ hv⟩
    · intro i v j w hv hw hb hb'
      exact alone_of_moved (fun k z hz hzb => absurd hzb (hidle k z hz)) hv hw hb hb'
    · intro j v hv hb
      obtain ⟨hcopied, hwrites⟩ := (hopen _ j v hv).2 hb
      refine ⟨⟨s.inodes.length, rfl, ?_, hwrites⟩, by omega⟩
      rw [hcopied, List.take_zero]
      simp [contentAt]

/-- A chunk is copied. -/
theorem files_copy {cur : Option Version} {s : Place} {p x n : ℕ} {u : Upload}
    (hs : FilesKept build cur s) (hu : s.uploads[p]? = some u) (hx : u.phase = .copying x) :
    FilesKept build cur (s.copy build p u x n) := by
  have hb : busy u = true := by simp [busy, hx]
  obtain ⟨⟨x', hstaging, hcontent, hwrites⟩, hcopied⟩ := hs.staged p u hu hb
  obtain rfl := hwrites x hx
  have hne := (hs.staging x hstaging).2
  have hothers : ∀ (j : ℕ) (v : Upload), s.uploads[j]? = some v → busy v = true → j = p :=
    fun j v hv hvb => hs.alone j v p u hv hu hvb hb
  unfold Place.copy
  extract_lets chunk
  have hfinal : ∀ y, s.final = some y → contentAt { s with
      inodes := s.inodes.modify x fun inode => { inode with
        content := writeAt 0 inode.content u.copied chunk } } y = contentAt s y := by
    intro y hy
    have hxy : x ≠ y := by
      rintro rfl
      exact hne hy
    simp [contentAt, hxy]
  refine ⟨?_, ?_, hs.placed, ?_, ?_, ?_⟩
  · intro y hy
    rw [List.length_modify]
    exact hs.staging y hy
  · intro y hy
    obtain ⟨v, hcur, hv⟩ := hs.final y hy
    exact ⟨v, hcur, (hfinal y hy).trans hv⟩
  · intro j v hv hopening
    obtain ⟨w, hw, ⟨rfl, rfl⟩ | ⟨-, rfl⟩⟩ := getElem?_modify_cases hv
    · obtain rfl : w = u := Option.some.inj (hw.symm.trans hu)
      rw [hx] at hopening
      cases hopening
    · exact hs.opening j v hw hopening
  · intro i v j w hv hw hvb hwb
    exact alone_of_moved hothers hv hw hvb hwb
  · intro j v hv hvb
    obtain ⟨w, hw, ⟨rfl, rfl⟩ | ⟨hne, rfl⟩⟩ := getElem?_modify_cases hv
    · obtain rfl : w = u := Option.some.inj (hw.symm.trans hu)
      have hlen : (List.take w.copied (build w.version)).length = w.copied := by
        rw [List.length_take, Nat.min_eq_left hcopied]
      have htake : (build w.version).take (w.copied + chunk.length) =
          (build w.version).take w.copied ++ chunk := by
        rw [List.take_add]
        congr 1
        exact List.take_eq_take_iff.mpr (by simp [chunk])
      refine ⟨⟨x, hstaging, ?_, hwrites⟩, ?_⟩
      · obtain ⟨inode, hinode, hic⟩ := Option.map_eq_some_iff.mp hcontent
        have hwritten : writeAt 0 inode.content w.copied chunk =
            (build w.version).take (w.copied + chunk.length) := by
          rw [htake, hic, ← writeAt_end 0, hlen]
        simp [contentAt, hinode, hwritten]
      · simp only [chunk, List.length_take, List.length_drop]
        omega
    · exact absurd (hothers j v hw hvb).symm hne

/-- `chmod` leaves the files alone, and so does its failure. -/
theorem quiet_chmod {s : Place} {p : ℕ} {u : Upload} (hu : s.uploads[p]? = some u)
    (hphase : u.phase = .chmod) : Quiet s (s.chmod p) := by
  have hbusy : busy u = true := by simp [busy, hphase]
  unfold Place.chmod
  split
  · rename_i x hx
    obtain ⟨-, -, -, -, huploads⟩ := quiet_moveUpload (s := s) (p := p)
      (f := fun u => { u with phase := .mv }) (fun _ => rfl) (fun _ => rfl) (by
        intro v hv
        obtain rfl : v = u := Option.some.inj (hv.symm.trans hu)
        exact ⟨fun _ => hbusy, by simp, by simp⟩)
    refine ⟨rfl, rfl, List.length_modify .., ?_, huploads⟩
    intro y
    simp only [contentAt, List.getElem?_modify]
    cases s.inodes[y]? with
    | none => rfl
    | some inode => by_cases hxy : x = y <;> simp [hxy]
  · exact quiet_moveUpload (f := fun u => { u with phase := .exited false }) (fun _ => rfl)
      (fun _ => rfl) fun v _ => ⟨by simp [busy], by simp, by simp⟩

/-- A whole build is moved into place. -/
theorem files_rename {cur : Option Version} {s : Place} {p : ℕ} {u : Upload}
    (hs : FilesKept build cur s) (hu : s.uploads[p]? = some u) (hphase : u.phase = .mv)
    (hwhole : u.copied = (build u.version).length) :
    FilesKept build (some u.version) (s.rename p) ∧ (s.rename p).final = s.staging := by
  have hb : busy u = true := by simp [busy, hphase]
  obtain ⟨⟨x, hstaging, hcontent, -⟩, -⟩ := hs.staged p u hu hb
  have hothers : ∀ (j : ℕ) (v : Upload), s.uploads[j]? = some v → busy v = true → j = p :=
    fun j v hv hvb => hs.alone j v p u hv hu hvb hb
  have hidle : ∀ (j : ℕ) (v : Upload),
      (s.uploads.modify p fun u => { u with phase := .exited true })[j]? = some v →
      busy v ≠ true ∧ (v.phase = .opening → v.copied = 0) := by
    intro j v hv
    obtain ⟨w, hw, ⟨rfl, rfl⟩ | ⟨hne, rfl⟩⟩ := getElem?_modify_cases hv
    · exact ⟨by simp [busy], by simp⟩
    · exact ⟨fun hvb => hne (hothers j v hw hvb).symm, hs.opening j v hw⟩
  unfold Place.rename
  rw [hstaging]
  refine ⟨⟨?_, ?_, ?_, ?_, ?_, ?_⟩, rfl⟩
  · intro y hy
    cases hy
  · rintro y ⟨⟩
    refine ⟨u.version, rfl, ?_⟩
    rw [hwhole, List.take_length] at hcontent
    exact hcontent
  · intro _ hnone
    cases hnone
  · intro j v hv
    exact (hidle j v hv).2
  · intro j v j' v' hv hv' hvb
    exact absurd hvb (hidle j v hv).1
  · intro j v hv hvb
    exact absurd hvb (hidle j v hv).1

/-! ### The marker and who writes it -/

/-- A run is due only through an upload command that ended well. -/
theorem due_of_exited {l l' : List Upload} {run : Run}
    (h : ∀ p : ℕ, (l'[p]?).map Upload.phase = some (.exited true) →
      (l[p]?).map Upload.phase = some (.exited true)) (hdue : due l' run = true) :
    due l run = true := by
  unfold due at hdue ⊢
  split at hdue
  · rfl
  · simp only [decide_eq_true_eq] at hdue ⊢
    exact h _ hdue
  · cases hdue

/-- A move of an upload command that does not end it well ends none well. -/
theorem exited_of_moved {l : List Upload} {p : ℕ} {f : Upload → Upload}
    (hf : ∀ u, (f u).phase = .exited true → u.phase = .exited true) (j : ℕ)
    (h : ((l.modify p f)[j]?).map Upload.phase = some (.exited true)) :
    (l[j]?).map Upload.phase = some (.exited true) := by
  obtain ⟨v, hv, hphase⟩ := Option.map_eq_some_iff.mp h
  obtain ⟨w, hw, ⟨-, rfl⟩ | ⟨-, rfl⟩⟩ := getElem?_modify_cases hv
  · simp [hw, hf w hphase]
  · simp [hw, hphase]

/-- A command keeps its version when one moves. -/
theorem version_of_moved {l : List Upload} {p : ℕ} {f : Upload → Upload}
    (hf : ∀ u, (f u).version = u.version) {j : ℕ} {u : Upload} (hu : l[j]? = some u) :
    ∃ u', (l.modify p f)[j]? = some u' ∧ u'.version = u.version := by
  rw [List.getElem?_modify, hu]
  by_cases hpj : p = j
  · exact ⟨f u, by simp [hpj], hf u⟩
  · exact ⟨u, by simp [hpj], rfl⟩

/-- A step of an upload command that does not end it well keeps the records. -/
theorem RecordsKept.uploads {cur : Option Version} {s s' : Place} (hs : RecordsKept cur s)
    (hruns : s'.runs = s.runs) (hmarkers : s'.markers = s.markers)
    (hmarker : s'.marker = s.marker) {p : ℕ} {f : Upload → Upload}
    (huploads : s'.uploads = s.uploads.modify p f) (hversion : ∀ u, (f u).version = u.version)
    (hphase : ∀ u, (f u).phase = .exited true → u.phase = .exited true) :
    RecordsKept cur s' := by
  refine ⟨?_, ?_, ?_, ?_, ?_⟩
  · intro r run j hrun hj
    obtain ⟨u, hu, hv⟩ := hs.own r run j (hruns ▸ hrun) hj
    obtain ⟨u', hu', hv'⟩ := version_of_moved (p := p) hversion hu
    exact ⟨u', huploads ▸ hu', hv'.trans hv⟩
  · intro r run hrun hdue
    rw [huploads] at hdue
    exact hs.pending r run (hruns ▸ hrun) (due_of_exited (exited_of_moved hphase) hdue)
  · rw [hmarkers]
    exact hs.writers
  · rw [hmarkers, hmarker]
    exact hs.writing
  · rw [hmarker]
    exact hs.marker

/-- A run moves on to a phase in which it waits for no command and owes no marker, or owes
the one it owed. -/
theorem RecordsKept.moveRun {cur : Option Version} {s : Place} {r : ℕ} {run : Run}
    {phase : RunPhase} (hs : RecordsKept cur s) (hrun : s.runs[r]? = some run)
    (hown : ∀ p, phase = .uploading p → ∃ u, s.uploads[p]? = some u ∧ u.version = run.version)
    (hdue : due s.uploads { run with phase } = true → cur = some run.version) :
    RecordsKept cur (s.moveRun r phase) := by
  refine ⟨?_, ?_, hs.writers, hs.writing, hs.marker⟩
  · intro j moved p hj hp
    obtain ⟨z, hz, ⟨rfl, rfl⟩ | ⟨-, rfl⟩⟩ := getElem?_modify_cases hj
    · obtain rfl : z = run := Option.some.inj (hz.symm.trans hrun)
      exact hown p hp
    · exact hs.own j moved p hz hp
  · intro j moved hj hmoved
    obtain ⟨z, hz, ⟨rfl, rfl⟩ | ⟨-, rfl⟩⟩ := getElem?_modify_cases hj
    · obtain rfl : z = run := Option.some.inj (hz.symm.trans hrun)
      exact hdue hmoved
    · exact hs.pending j moved hz hmoved

/-- A build moved into place is the only one with a marker to come. -/
theorem records_rename {cur : Option Version} {s : Place} {p : ℕ} {u : Upload}
    (hs : RecordsKept cur s) (hu : s.uploads[p]? = some u) {x : ℕ} (hstaging : s.staging = some x)
    (hruns : ∀ run ∈ s.runs, due s.uploads run = true → run.version = u.version)
    (hwriters : ∀ w ∈ s.markers, w.phase ≠ .over → w.version = u.version)
    (hmarker : ∀ name ∈ markerVersion s.marker, name = u.version.text) :
    RecordsKept (some u.version) (s.rename p) := by
  unfold Place.rename
  rw [hstaging]
  refine ⟨?_, ?_, ?_, hs.writing, ?_⟩
  · intro r run j hrun hj
    obtain ⟨v, hv, hversion⟩ := hs.own r run j hrun hj
    obtain ⟨v', hv', hversion'⟩ := version_of_moved (p := p)
      (f := fun u => { u with phase := .exited true }) (fun _ => rfl) hv
    exact ⟨v', hv', hversion'.trans hversion⟩
  · intro r run hrun hdue
    have hmem := List.mem_of_getElem? hrun
    congr 1
    -- The run waits for this very command, or it was due before.
    by_cases hwaits : run.phase = .uploading p
    · obtain ⟨v, hv, hversion⟩ := hs.own r run p hrun hwaits
      obtain rfl : v = u := Option.some.inj (hv.symm.trans hu)
      exact hversion
    · refine (hruns run hmem ?_).symm
      unfold due at hdue ⊢
      split at hdue
      · rfl
      · rename_i j hj
        have hne : p ≠ j := by
          rintro rfl
          exact hwaits hj
        simpa [Place.moveUpload, List.getElem?_modify, hne] using hdue
      · cases hdue
  · intro q w hw hphase
    rw [hwriters w (List.mem_of_getElem? hw) hphase]
  · intro name hname
    exact ⟨u.version, rfl, hmarker name hname⟩

/-- A command that writes the marker moves, the marker holding no version or the one in
place. -/
theorem RecordsKept.markers {cur : Option Version} {s s' : Place} (hs : RecordsKept cur s)
    (hruns : s'.runs = s.runs) (huploads : s'.uploads = s.uploads) {q : ℕ}
    {phase : MarkerPhase} (hphase : ∀ w, s.markers[q]? = some w → phase ≠ .over → w.phase ≠ .over)
    (hmarkers : s'.markers = s.markers.modify q fun w => { w with phase })
    (hwriting : ∀ (j : ℕ) (w : MarkerWrite), s'.markers[j]? = some w → w.phase = .writing →
      s'.marker <+: markerText w.version)
    (hmarker : ∀ name, markerVersion s'.marker = some name →
      ∃ v, cur = some v ∧ name = v.text) : RecordsKept cur s' := by
  refine ⟨?_, ?_, ?_, hwriting, hmarker⟩
  · rw [hruns, huploads]
    exact hs.own
  · rw [hruns, huploads]
    exact hs.pending
  · intro j w hw hover
    rw [hmarkers] at hw
    obtain ⟨z, hz, ⟨rfl, rfl⟩ | ⟨-, rfl⟩⟩ := getElem?_modify_cases hw
    · exact hs.writers q z hz (hphase z hz hover)
    · exact hs.writers j w hz hover

/-! ### Every step -/

/-- A step of an upload command. -/
theorem kept_stepUpload {cur : Option Version} {s s' : Place} {p : ℕ} {u : Upload} {e : Event}
    (hs : Kept build cur s) (hu : s.uploads[p]? = some u)
    (hopen : ∀ j, e = .openStaging j → ∀ v ∈ s.uploads, busy v = false)
    (hrename : ∀ j, e = .rename j → u.copied = (build u.version).length ∧
      (∀ run ∈ s.runs, due s.uploads run = true → run.version = u.version) ∧
      (∀ w ∈ s.markers, w.phase ≠ .over → w.version = u.version) ∧
      ∀ name ∈ markerVersion s.marker, name = u.version.text)
    (h : stepUpload build s p u e = some s') : ∃ cur', Kept build cur' s' := by
  unfold stepUpload at h
  split at h
  · obtain ⟨hphase, ⟨⟩⟩ := Option.ite_none_right_eq_some.mp h
    have hfiles := files_openStaging hs.files hu hphase (hopen _ rfl)
    refine ⟨cur, hfiles, ?_⟩
    unfold Place.openStaging
    split
    · exact hs.records.uploads rfl rfl rfl rfl (fun _ => rfl) (by simp)
    · exact hs.records.uploads rfl rfl rfl rfl (fun _ => rfl) (by simp)
  · split at h
    · rename_i hphase
      cases h
      refine ⟨cur, files_copy hs.files hu hphase, ?_⟩
      exact hs.records.uploads rfl rfl rfl rfl (fun _ => rfl) (fun _ => id)
    · cases h
  · split at h
    · rename_i hphase
      obtain ⟨-, ⟨⟩⟩ := Option.ite_none_right_eq_some.mp h
      refine ⟨cur, hs.files.quiet (quiet_moveUpload (fun _ => rfl) (fun _ => rfl) ?_), ?_⟩
      · intro v hv
        obtain rfl : v = u := Option.some.inj (hv.symm.trans hu)
        exact ⟨fun _ => by simp [busy, hphase], by simp, by simp⟩
      · exact hs.records.uploads rfl rfl rfl rfl (fun _ => rfl) (by simp)
    · cases h
  · obtain ⟨hphase, ⟨⟩⟩ := Option.ite_none_right_eq_some.mp h
    refine ⟨cur, hs.files.quiet (quiet_chmod hu hphase), ?_⟩
    unfold Place.chmod
    split
    · exact hs.records.uploads rfl rfl rfl rfl (fun _ => rfl) (by simp)
    · exact hs.records.uploads rfl rfl rfl rfl (fun _ => rfl) (by simp)
  · obtain ⟨hphase, ⟨⟩⟩ := Option.ite_none_right_eq_some.mp h
    obtain ⟨hwhole, hruns, hwriters, hmarker⟩ := hrename _ rfl
    obtain ⟨⟨x, hstaging, -⟩, -⟩ := hs.files.staged p u hu (by simp [busy, hphase])
    exact ⟨some u.version, (files_rename hs.files hu hphase hwhole).1,
      records_rename hs.records hu hstaging hruns hwriters hmarker⟩
  · split at h
    · cases h
    · cases h
      refine ⟨cur, hs.files.quiet (quiet_moveUpload (fun _ => rfl) (fun _ => rfl) ?_), ?_⟩
      · intro v _
        exact ⟨by simp [busy], by simp, by simp⟩
      · exact hs.records.uploads rfl rfl rfl rfl (fun _ => rfl) (by simp)
  · cases h

/-- A step of a command that writes the marker. -/
theorem kept_stepMarker {cur : Option Version} {s s' : Place} {q : ℕ} {w : MarkerWrite}
    {e : Event} (hs : Kept build cur s) (hw : s.markers[q]? = some w)
    (h : stepMarker s q w e = some s') : Kept build cur s' := by
  have hfiles : ∀ {m : List MarkerWrite} {t : List Char},
      FilesKept build cur { s with markers := m, marker := t } :=
    hs.files.quiet (quiet_of_eq rfl rfl rfl rfl)
  unfold stepMarker at h
  split at h
  · obtain ⟨hphase, ⟨⟩⟩ := Option.ite_none_right_eq_some.mp h
    refine ⟨hfiles, hs.records.markers rfl rfl ?_ rfl ?_ ?_⟩
    · intro z hz _
      obtain rfl : z = w := Option.some.inj (hz.symm.trans hw)
      simp [hphase]
    · intro j z _ _
      exact List.nil_prefix
    · intro name hname
      rw [markerVersion_nil] at hname
      cases hname
  · obtain ⟨hphase, ⟨⟩⟩ := Option.ite_none_right_eq_some.mp h
    have hcur := hs.records.writers q w hw (by simp [hphase])
    have hpart := fun n =>
      writeAt_zero_prefix '\x00' n (hs.records.writing q w hw hphase)
    refine ⟨hfiles, hs.records.markers rfl rfl ?_ rfl ?_ ?_⟩
    · intro z _ hover
      exact absurd rfl hover
    · intro j z hz hwriting
      obtain ⟨y, hy, ⟨-, rfl⟩ | ⟨-, rfl⟩⟩ := getElem?_modify_cases hz
      · cases hwriting
      · have hcur' := hs.records.writers j z hy (by simp [hwriting])
        have hsame : z.version = w.version := Option.some.inj (hcur'.symm.trans hcur)
        rw [hsame]
        exact hpart _
    · intro name hname
      exact ⟨w.version, hcur, markerVersion_of_prefix (hpart _) hname⟩
  · cases h
    refine ⟨hfiles, hs.records.markers rfl rfl ?_ rfl ?_ hs.records.marker⟩
    · intro z _ hover
      exact absurd rfl hover
    · intro j z hz hwriting
      obtain ⟨y, hy, ⟨-, rfl⟩ | ⟨-, rfl⟩⟩ := getElem?_modify_cases hz
      · cases hwriting
      · exact hs.records.writing j z hy hwriting
  · cases h

/-- A run that gives up or goes on without its client. -/
theorem kept_unlink {cur : Option Version} {s : Place} (hs : Kept build cur s)
    (phase : RunPhase) : Kept build cur (s.unlink phase) := by
  refine ⟨hs.files.quiet (quiet_unlink s phase), ?_⟩
  unfold Place.unlink
  split
  · exact hs.records.uploads rfl rfl rfl rfl (fun _ => rfl) (fun _ => id)
  · exact hs.records

/-- A run comes to its look at the marker. -/
theorem kept_start {cur : Option Version} {s : Place} (hs : Kept build cur s)
    (version : Version) : Kept build cur { s with runs := s.runs ++ [⟨version, .reading⟩] } := by
  refine ⟨hs.files.quiet (quiet_of_eq rfl rfl rfl rfl), ?_, ?_, hs.records.writers,
    hs.records.writing, hs.records.marker⟩
  · intro r run p hrun hp
    rcases getElem?_concat_cases hrun with hrun | ⟨-, rfl⟩
    · exact hs.records.own r run p hrun hp
    · cases hp
  · intro r run hrun hdue
    rcases getElem?_concat_cases hrun with hrun | ⟨-, rfl⟩
    · exact hs.records.pending r run hrun hdue
    · cases hdue

/-- A run starts its upload command. -/
theorem kept_upload {cur : Option Version} {s : Place} {r : ℕ} {run : Run}
    (hs : Kept build cur s) (hrun : s.runs[r]? = some run) :
    Kept build cur { s.moveRun r (.uploading s.uploads.length) with
      uploads := s.uploads ++ [⟨run.version, true, 0, .opening⟩] } := by
  have hnew : (s.uploads ++ [⟨run.version, true, 0, .opening⟩])[s.uploads.length]? =
      some ⟨run.version, true, 0, .opening⟩ := List.getElem?_concat_length
  have hdue : ∀ z : Run, due (s.uploads ++ [⟨run.version, true, 0, .opening⟩]) z = true →
      due s.uploads z = true := by
    intro z hz
    refine due_of_exited (fun p hp => ?_) hz
    obtain ⟨u, hu, hphase⟩ := Option.map_eq_some_iff.mp hp
    rcases getElem?_concat_cases hu with hu | ⟨-, rfl⟩
    · simp [hu, hphase]
    · cases hphase
  refine ⟨hs.files.quiet ⟨rfl, rfl, rfl, fun _ => rfl, ?_⟩, ?_, ?_, hs.records.writers,
    hs.records.writing, hs.records.marker⟩
  · intro j u hu
    rcases getElem?_concat_cases hu with hu | ⟨-, rfl⟩
    · exact .inr ⟨u, hu, rfl, rfl, id, id, fun _ => id⟩
    · exact .inl ⟨rfl, rfl⟩
  · intro j moved p hj hp
    obtain ⟨z, hz, ⟨rfl, rfl⟩ | ⟨-, rfl⟩⟩ := getElem?_modify_cases hj
    · obtain rfl : z = run := Option.some.inj (hz.symm.trans hrun)
      cases hp
      exact ⟨_, hnew, rfl⟩
    · obtain ⟨u, hu, hv⟩ := hs.records.own j moved p hz hp
      exact ⟨u, getElem?_concat_of_some hu, hv⟩
  · intro j moved hj hmoved
    obtain ⟨z, hz, ⟨rfl, rfl⟩ | ⟨-, rfl⟩⟩ := getElem?_modify_cases hj
    · simp only [due, hnew] at hmoved
      cases hmoved
    · exact hs.records.pending j moved hz (hdue moved hmoved)

/-- A run whose build is in place starts its marker command. -/
theorem kept_record {cur : Option Version} {s : Place} (hs : Kept build cur s)
    {version : Version} (hcur : cur = some version) :
    Kept build cur { s with markers := s.markers ++ [⟨version, .opening⟩] } := by
  refine ⟨hs.files.quiet (quiet_of_eq rfl rfl rfl rfl), hs.records.own, hs.records.pending,
    ?_, ?_, hs.records.marker⟩
  · intro q w hw hover
    rcases getElem?_concat_cases hw with hw | ⟨-, rfl⟩
    · exact hs.records.writers q w hw hover
    · exact hcur
  · intro q w hw hwriting
    rcases getElem?_concat_cases hw with hw | ⟨-, rfl⟩
    · exact hs.records.writing q w hw hwriting
    · cases hwriting

/-- A step of a run. -/
theorem kept_stepRun {cur : Option Version} {slot : Slot} {s s' : Place} {r : ℕ} {run : Run}
    {e : Event} (hs : Kept build cur s) (hrun : s.runs[r]? = some run)
    (hkilled : ∀ j, e = .sshKilled j → due s.uploads run = true)
    (h : stepRun slot s r run e = some s') : Kept build cur s' := by
  have hmove : ∀ {t : Place} {phase : RunPhase}, Kept build cur t → t.runs[r]? = some run →
      (∀ p, phase ≠ .uploading p) → (phase = .recording → due s.uploads run = true) →
      Kept build cur (t.moveRun r phase) := by
    intro t phase ht htrun hnone hrecording
    have hfiles : FilesKept build cur (t.moveRun r phase) :=
      ht.files.quiet (quiet_of_eq rfl rfl rfl rfl)
    refine ⟨hfiles, ht.records.moveRun htrun (fun p hp => absurd hp (hnone p)) ?_⟩
    intro hdue
    cases phase with
    | recording => exact hs.records.pending r run hrun (hrecording rfl)
    | uploading p => exact absurd rfl (hnone p)
    | reading => cases hdue
    | fetching => cases hdue
    | done => cases hdue
  have hgone : (s.unlink run.phase).runs[r]? = some run := by
    unfold Place.unlink
    split <;> exact hrun
  unfold stepRun at h
  split at h
  · obtain ⟨-, h⟩ := Option.ite_none_right_eq_some.mp h
    split at h
    · cases h
      exact hmove hs hrun (by simp) (by simp)
    · cases h
      exact hmove hs hrun (by simp) (by simp)
  · obtain ⟨-, ⟨⟩⟩ := Option.ite_none_right_eq_some.mp h
    exact kept_upload hs hrun
  · split at h
    · rename_i p hphase
      split at h
      · rename_i hexited
        cases h
        exact hmove hs hrun (by simp) (fun _ => by simp [due, hphase, hexited])
      · cases h
        exact hmove hs hrun (by simp) (by simp)
      · cases h
        exact hmove hs hrun (by simp) (by simp)
      · cases h
    · cases h
  · split at h
    · cases h
      exact hmove (kept_unlink hs _) hgone (by simp) (fun _ => hkilled _ rfl)
    · cases h
  · obtain ⟨hphase, ⟨⟩⟩ := Option.ite_none_right_eq_some.mp h
    have hcur := hs.records.pending r run hrun (by simp [due, hphase])
    exact kept_record (hmove hs hrun (by simp) (by simp)) hcur
  · cases h
    exact hmove (kept_unlink hs _) hgone (by simp) (by simp)
  · cases h

/-- One orderly step. -/
theorem kept_step {cur : Option Version} {slot : Slot} {s s' : Place} {e : Event}
    (hs : Kept build cur s) (hG : Orderly build s e) (h : step build slot s e = some s') :
    ∃ cur', Kept build cur' s' := by
  cases e with
  | start version =>
    cases h
    exact ⟨cur, kept_start hs version⟩
  | openStaging p =>
    obtain ⟨u, hu, h⟩ := Option.bind_eq_some_iff.mp h
    exact kept_stepUpload hs hu (fun _ _ => hG) (by simp) h
  | rename p =>
    obtain ⟨u, hu, h⟩ := Option.bind_eq_some_iff.mp h
    exact kept_stepUpload hs hu (by simp) (fun _ _ => hG u hu) h
  | copy p n | endOfInput p | chmod p | kill p =>
    obtain ⟨u, hu, h⟩ := Option.bind_eq_some_iff.mp h
    exact kept_stepUpload hs hu (by simp) (by simp) h
  | openMarker q | writeMarker q n | killMarker q =>
    obtain ⟨w, hw, h⟩ := Option.bind_eq_some_iff.mp h
    exact ⟨cur, kept_stepMarker hs hw h⟩
  | sshKilled r =>
    obtain ⟨run, hrun, h⟩ := Option.bind_eq_some_iff.mp h
    exact ⟨cur, kept_stepRun hs hrun (fun _ _ => hG run hrun) h⟩
  | readMarker r | upload r | uploaded r | record r | abandon r =>
    obtain ⟨run, hrun, h⟩ := Option.bind_eq_some_iff.mp h
    exact ⟨cur, kept_stepRun hs hrun (by simp) h⟩

/-! ### Every run -/

/-- The file at the final path is a complete build, and the one its marker names. -/
structure Consistent (build : Version → Bytes) (s : Place) : Prop where
  complete : ∀ x, s.final = some x → ∃ v, contentAt s x = some (build v)
  marked : ∀ v : Version, markerVersion s.marker = some v.text →
    ∃ x, s.final = some x ∧ contentAt s x = some (build v)

/-- Two versions with the same text are the same. -/
theorem version_ext {v w : Version} (h : v.text = w.text) : v = w := by
  cases v
  cases w
  cases h
  rfl

/-- What is kept along a run makes the files consistent. -/
theorem Kept.consistent {cur : Option Version} {s : Place} (hs : Kept build cur s) :
    Consistent build s := by
  refine ⟨?_, ?_⟩
  · intro x hx
    obtain ⟨v, -, hv⟩ := hs.files.final x hx
    exact ⟨v, hv⟩
  · intro v hv
    obtain ⟨w, hcur, hname⟩ := hs.records.marker _ hv
    obtain rfl : v = w := version_ext hname
    obtain ⟨x, hx⟩ := Option.ne_none_iff_exists'.mp (hs.files.placed (by simp [hcur]))
    obtain ⟨w, hw, hcontent⟩ := hs.files.final x hx
    obtain rfl : v = w := Option.some.inj (hcur.symm.trans hw)
    exact ⟨x, hx, hcontent⟩

/-- In every state of an orderly run, both binaries on a machine are complete builds, and
the ones that their markers name. -/
theorem installs_consistent (builds : Slot → Version → Bytes) {m : Slot → Place}
    (h : (installs builds).ReachableWhen (fun m e => Orderly (builds e.1) (m e.1) e.2) m)
    (slot : Slot) : Consistent (builds slot) (m slot) := by
  have hkept : ∀ slot, ∃ cur, Kept (builds slot) cur (m slot) := by
    refine h.invariant (I := fun m => ∀ slot, ∃ cur, Kept (builds slot) cur (m slot)) ?_ ?_
    · intro slot
      exact ⟨none, kept_fresh⟩
    · rintro m ⟨moved, e⟩ m' hm hG ht slot
      obtain ⟨s', hs', rfl⟩ := Option.map_eq_some_iff.mp ht
      by_cases hslot : slot = moved
      · subst hslot
        obtain ⟨cur, hcur⟩ := hm slot
        rw [Function.update_self]
        exact kept_step hcur hG hs'
      · rw [Function.update_of_ne hslot]
        exact hm slot
  obtain ⟨cur, hcur⟩ := hkept slot
  exact hcur.consistent

/-- The first version of the runs below. -/
def v1 : Version := ⟨"1", by simp⟩

/-- The second one. -/
def v2 : Version := ⟨"2", by simp⟩

/-- Builds of three bytes that begin alike. -/
def sampleBuild (_ : Slot) (version : Version) : Bytes :=
  [0x7f, 0x45, if version = v1 then 1 else 2]

/-- A run that installs `version` undisturbed, as the first of its slot. -/
def installing (slot : Slot) (version : Version) : List (Slot × Event) :=
  ([.start version, .readMarker 0, .upload 0, .openStaging 0, .copy 0 2, .copy 0 1,
    .endOfInput 0, .chmod 0, .rename 0, .uploaded 0, .record 0, .openMarker 0,
    .writeMarker 0 15] : List Event).map fun e => (slot, e)

/-- Both binaries are installed, an upload of another version is cut on the way. -/
def installedTwice : List (Slot × Event) :=
  installing .agent v1 ++ installing .ptcHost v1 ++
    ([.start v2, .readMarker 1, .upload 1, .openStaging 1, .copy 1 1, .abandon 1,
      .endOfInput 1, .kill 1] : List Event).map fun e => (.agent, e)

/-- The cut upload leaves the installed agent and its marker as they were. -/
theorem installs_consistent_cut :
    let m := ((installs sampleBuild).runGuarded
      (fun m e => Orderly (sampleBuild e.1) (m e.1) e.2) (fun _ => .fresh) installedTwice).get
      (by decide +kernel)
    markerVersion (m .agent).marker = some "1" ∧
      Consistent (sampleBuild .agent) (m .agent) := by
  intro m
  have hreach : (installs sampleBuild).ReachableWhen
      (fun m e => Orderly (sampleBuild e.1) (m e.1) e.2) m :=
    Machine.reachableWhen_get (by decide +kernel)
  exact ⟨by decide +kernel, installs_consistent sampleBuild hreach .agent⟩

/-- The client of an upload is ended by a signal when two of three bytes have arrived; the
remote shell goes on, and the run takes the signal for success. -/
def truncating : List (Slot × Event) :=
  ([.start v1, .readMarker 0, .upload 0, .openStaging 0, .copy 0 2, .sshKilled 0,
    .endOfInput 0, .chmod 0, .rename 0, .record 0, .openMarker 0, .writeMarker 0 15] :
    List Event).map fun e => (.agent, e)

/-- An undisturbed upgrade, up to the step before its marker is written. -/
def upgrading : List (Slot × Event) :=
  installing .agent v1 ++
    ([.start v2, .readMarker 1, .upload 1, .openStaging 1, .copy 1 3, .endOfInput 1, .chmod 1,
      .rename 1] : List Event).map fun e => (.agent, e)

/-- A truncated agent is installed under a marker that names its version, and an upgrade
leaves the marker of the old version beside the new build. -/
theorem installs_inconsistent :
    (∃ m, (installs sampleBuild).Reachable m ∧ markerVersion (m .agent).marker = some "1" ∧
      (m .agent).installed = some ⟨[0x7f, 0x45], true⟩ ∧
      ¬ Consistent (sampleBuild .agent) (m .agent)) ∧
    ∃ m, (installs sampleBuild).Reachable m ∧ markerVersion (m .agent).marker = some "1" ∧
      (m .agent).installed = some ⟨sampleBuild .agent v2, true⟩ ∧
      ¬ Consistent (sampleBuild .agent) (m .agent) := by
  refine ⟨⟨_, Machine.reachable_get truncating (by decide +kernel), by decide +kernel,
    by decide +kernel, ?_⟩, ⟨_, Machine.reachable_get upgrading (by decide +kernel),
    by decide +kernel, by decide +kernel, ?_⟩⟩
  · intro hcons
    obtain ⟨x, hx, hcontent⟩ := hcons.marked v1 (by decide +kernel)
    obtain rfl : 0 = x := Option.some.inj (Eq.trans (by decide +kernel) hx)
    exact absurd hcontent (by decide +kernel)
  · intro hcons
    obtain ⟨x, hx, hcontent⟩ := hcons.marked v1 (by decide +kernel)
    obtain rfl : 1 = x := Option.some.inj (Eq.trans (by decide +kernel) hx)
    exact absurd hcontent (by decide +kernel)

end RemoteWorkspace.Analysis.InstallFiles
