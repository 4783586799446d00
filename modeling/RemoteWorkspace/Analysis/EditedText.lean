import RemoteWorkspace.Computation.Fallible
import RemoteWorkspace.Model.FsWrites

/-!
# What an edit does to a text

An edit reads the file, collapses its line endings, replaces, and puts the file's own line
endings back. What the file's own are is guessed from the first 4096 characters, so a file whose
first line is longer loses them. Collapsing is not idempotent: a `\r` that stood before a `\r\n`
stands before a `\n` afterwards, and so may one that a replacement has brought there.

Whether an edit is unambiguous is judged by the number of matches that do not overlap.
-/

set_option autoImplicit false

namespace RemoteWorkspace.Analysis.EditedText

open RemoteWorkspace.Computation
open RemoteWorkspace.Computation.Literal (StartsAt)
open RemoteWorkspace.Model.FsText
open RemoteWorkspace.Model.FsWrites

variable {path : String} {content : Bytes} {raw oldString newString : Text} {replaceAll : Bool}

/-! ### The replacement -/

/-- What the replacement step makes of a content. -/
def replaced (content oldString newString : Text) : Text :=
  Literal.replace (normalizeLineEndings oldString) (normalizeLineEndings newString) content

/-- When the replacement step succeeds. -/
theorem applyLiteralEdit_eq_ok_iff {content edited : Text} :
    applyLiteralEdit path content oldString newString replaceAll = .ok edited ↔
      normalizeLineEndings oldString ≠ [] ∧
        Literal.countMatches (normalizeLineEndings oldString) content ≠ 0 ∧
        (replaceAll = true ∨ Literal.countMatches (normalizeLineEndings oldString) content = 1) ∧
        edited = replaced content oldString newString := by
  unfold applyLiteralEdit
  extract_lets oldText newText found
  by_cases hold : oldText = []
  · rw [if_pos hold]
    exact iff_of_false nofun fun h => h.1 hold
  · rw [if_neg hold]
    by_cases hnone : found = 0
    · rw [if_pos hnone]
      exact iff_of_false nofun fun h => h.2.1 hnone
    · rw [if_neg hnone]
      by_cases hmany : replaceAll = false ∧ 1 < found
      · rw [if_pos hmany]
        refine iff_of_false nofun fun h => ?_
        rcases h.2.2.1 with hall | hone
        · rw [hmany.1] at hall
          cases hall
        · exact absurd hone (Nat.ne_of_gt hmany.2)
      · rw [if_neg hmany, Except.ok.injEq]
        have hcount : replaceAll = true ∨ found = 1 := by
          cases replaceAll with
          | true => exact .inl rfl
          | false =>
            have hle : ¬ 1 < found := fun hlt => hmany ⟨rfl, hlt⟩
            exact .inr (by omega)
        exact ⟨fun h => ⟨hold, hnone, hcount, h.symm⟩, fun h => h.2.2.2.symm⟩

/-! ### Line endings -/

/-- The text of the CRLF style of a text in the LF style. -/
theorem restore_eq_flatMap (text : Text) : restoreLineEndings text true =
    text.flatMap fun c => if c = '\n' then ['\r', '\n'] else [c] := by
  rw [restoreLineEndings, if_pos rfl, Literal.replace_singleton]

/-- A line break. -/
theorem restore_newline (text : Text) :
    restoreLineEndings ('\n' :: text) true = ['\r', '\n'] ++ restoreLineEndings text true := by
  rw [restore_eq_flatMap, restore_eq_flatMap, List.flatMap_cons, if_pos rfl]

/-- Any other character. -/
theorem restore_cons {c : Char} (hc : c ≠ '\n') (text : Text) :
    restoreLineEndings (c :: text) true = c :: restoreLineEndings text true := by
  rw [restore_eq_flatMap, restore_eq_flatMap, List.flatMap_cons, if_neg hc,
    List.singleton_append]

/-- Two texts one after the other. -/
theorem restore_append (text text' : Text) (crlf : Bool) :
    restoreLineEndings (text ++ text') crlf =
      restoreLineEndings text crlf ++ restoreLineEndings text' crlf := by
  cases crlf with
  | false => rfl
  | true => rw [restore_eq_flatMap, List.flatMap_append, ← restore_eq_flatMap, ← restore_eq_flatMap]

/-- No text of the CRLF style begins with an LF. -/
theorem restore_not_newline (text rest : Text) :
    restoreLineEndings text true ≠ '\n' :: rest := by
  cases text with
  | nil => exact nofun
  | cons c text =>
    by_cases hc : c = '\n'
    · subst hc
      rw [restore_newline]
      intro h
      exact absurd (List.cons.inj h).1 (by decide)
    · rw [restore_cons hc]
      intro h
      exact hc (List.cons.inj h).1

/-- A character that is no match for a CRLF in the CRLF style. -/
theorem not_crlf_restore {c : Char} (text : Text) :
    ¬ ['\r', '\n'] <+: c :: restoreLineEndings text true := by
  intro h
  obtain ⟨rest, hrest⟩ := (List.cons_prefix_cons.mp h).2
  exact restore_not_newline text rest hrest.symm

/-- Collapsing undoes restoring. -/
theorem normalize_restore (text : Text) :
    normalizeLineEndings (restoreLineEndings text true) = text := by
  unfold normalizeLineEndings
  induction text with
  | nil => rfl
  | cons c text ih =>
    by_cases hc : c = '\n'
    · subst hc
      rw [restore_newline, Literal.replace_append (List.cons_ne_nil _ _), ih]
      rfl
    · rw [restore_cons hc, Literal.replace_cons (not_crlf_restore text), ih]

/-- A text is collapsed already exactly when it has no CRLF. -/
theorem normalize_eq_self_iff (text : Text) :
    normalizeLineEndings text = text ↔ ¬ ['\r', '\n'] <:+: text :=
  Literal.replace_eq_self_iff (List.cons_ne_nil _ _) (by decide) text

/-- All line breaks of a text are CRLF, or all are LF. -/
def HasStyle (crlf : Bool) (text : Text) : Prop :=
  if crlf then ∀ before behind, text = before ++ '\n' :: behind → before.getLast? = some '\r'
  else ¬ ['\r', '\n'] <:+: text

/-! ### A single edit -/

/-- The replacement step without `replaceAll` succeeds exactly when the old string is not empty
and stands at one place only, and then replaces it there. -/
def Unambiguous (path : String) (content oldString newString : Text) : Prop :=
  ∀ edited, applyLiteralEdit path content oldString newString false = .ok edited ↔
    normalizeLineEndings oldString ≠ [] ∧
      ∃ place, (∀ k, StartsAt (normalizeLineEndings oldString) content k ↔ k = place) ∧
        edited = content.take place ++ normalizeLineEndings newString ++
          content.drop (place + (normalizeLineEndings oldString).length)

/-- A pattern stands at several places of a text, and every two of them overlap. -/
def OnlyOverlaps (pattern text : Text) : Prop :=
  (∃ p q, p ≠ q ∧ StartsAt pattern text p ∧ StartsAt pattern text q) ∧
    ∀ p q, StartsAt pattern text p → StartsAt pattern text q → q < p + pattern.length

/-- A single edit is unambiguous, for every text and every old and new string, exactly when the
old string does not stand at several places all of which overlap: those count as one match. -/
theorem unambiguous_iff (path : String) (raw oldString newString : Text) :
    Unambiguous path (normalizeLineEndings raw) oldString newString ↔
      ¬ OnlyOverlaps (normalizeLineEndings oldString) (normalizeLineEndings raw) := by
  unfold Unambiguous
  simp only [applyLiteralEdit_eq_ok_iff, Bool.false_eq_true, false_or]
  constructor
  · rintro hunambiguous ⟨⟨p, q, hne, hp, hq⟩, hoverlap⟩
    have hpattern : normalizeLineEndings oldString ≠ [] := by
      intro hempty
      have hlt := hoverlap p p hp hp
      rw [hempty] at hlt
      exact Nat.lt_irrefl _ hlt
    have hone := (Literal.countMatches_eq_one_iff hpattern).mpr ⟨⟨p, hp⟩, hoverlap⟩
    have hzero : Literal.countMatches (normalizeLineEndings oldString)
        (normalizeLineEndings raw) ≠ 0 := by omega
    obtain ⟨-, place, huniq, -⟩ := (hunambiguous _).mp ⟨hpattern, hzero, hone, rfl⟩
    exact hne (((huniq p).mp hp).trans ((huniq q).mp hq).symm)
  · intro hnot edited
    constructor
    · rintro ⟨hpattern, -, hone, rfl⟩
      obtain ⟨hsome, hoverlap⟩ := (Literal.countMatches_eq_one_iff hpattern).mp hone
      obtain ⟨first, hplace, hbefore, -⟩ := Literal.exists_first hsome
      refine ⟨hpattern, first, fun k => ⟨fun hk => ?_, ?_⟩, ?_⟩
      · by_contra hne
        exact hnot ⟨⟨k, first, hne, hk, hplace⟩, hoverlap⟩
      · rintro rfl
        exact hplace
      · exact Literal.replace_one hpattern hone hplace hbefore _
    · rintro ⟨hpattern, place, huniq, rfl⟩
      have hplace := (huniq place).mpr rfl
      have hpos := List.length_pos_iff.mpr hpattern
      have hone : Literal.countMatches (normalizeLineEndings oldString)
          (normalizeLineEndings raw) = 1 := by
        refine (Literal.countMatches_eq_one_iff hpattern).mpr ⟨⟨place, hplace⟩, ?_⟩
        intro p q hp hq
        obtain rfl := (huniq p).mp hp
        obtain rfl := (huniq q).mp hq
        omega
      have hbefore : ∀ k < place, ¬ StartsAt (normalizeLineEndings oldString)
          (normalizeLineEndings raw) k := by
        intro k hk hat
        exact Nat.ne_of_lt hk ((huniq k).mp hat)
      refine ⟨hpattern, by omega, hone, ?_⟩
      exact (Literal.replace_one hpattern hone hplace hbefore _).symm

/-- `aa` stands at two places of `aaa`, and its replacement succeeds. -/
theorem overlapping_edit : ¬ Unambiguous "/file" (normalizeLineEndings ['a', 'a', 'a'])
    ['a', 'a'] ['b'] := by
  intro h
  have hedit : applyLiteralEdit "/file" (normalizeLineEndings ['a', 'a', 'a']) ['a', 'a'] ['b']
      false = .ok ['b', 'a'] := by decide
  obtain ⟨-, place, huniq, -⟩ := (h _).mp hedit
  have hfirst : StartsAt (normalizeLineEndings ['a', 'a'])
      (normalizeLineEndings ['a', 'a', 'a']) 0 := by decide
  have hsecond : StartsAt (normalizeLineEndings ['a', 'a'])
      (normalizeLineEndings ['a', 'a', 'a']) 1 := by decide
  have hsame := ((huniq 0).mp hfirst).trans ((huniq 1).mp hsecond).symm
  cases hsame

/-! ### The report of an edit -/

/-- What an edit reports and what it publishes. -/
theorem editContent_ok {e : Edited} (hdecode : decodeText "edit" path content = .ok raw)
    (hedit : editContent path oldString newString replaceAll content = .ok e) :
    let edited := replaced (normalizeLineEndings raw) oldString newString
    normalizeLineEndings oldString ≠ [] ∧ e.before = normalizeLineEndings raw ∧
      e.after = normalizeLineEndings edited ∧
      e.content = Utf8.encode (restoreLineEndings edited (detectCrlf raw)) := by
  intro edited
  unfold editContent readForEdit at hedit
  split at hedit
  · cases hedit
  · rw [hdecode] at hedit
    obtain ⟨source, hsource, hedit⟩ := bind_eq_ok_iff.mp hedit
    obtain rfl : (normalizeLineEndings raw, detectCrlf raw) = source := Except.ok.inj hsource
    obtain ⟨text, htext, hlast⟩ := bind_eq_ok_iff.mp hedit
    obtain ⟨hold, -, -, rfl⟩ := applyLiteralEdit_eq_ok_iff.mp htext
    obtain rfl := Except.ok.inj hlast
    exact ⟨hold, rfl, rfl, rfl⟩

/-- What an edit reports is what is on the disk: before it the collapsed text that was read, and
after it the collapsed text that was published. -/
def ReportMatches (raw : Text) (e : Edited) : Prop :=
  e.before = normalizeLineEndings raw ∧ e.after = normalizeLineEndings (Utf8.decode e.content)

/-- The report of an edit matches the disk, for every file and every successful edit, exactly when
the file was not taken for CRLF, or the content with the replacements made has no CR directly
before an LF. -/
theorem report_matches_iff {e : Edited} (hdecode : decodeText "edit" path content = .ok raw)
    (hedit : editContent path oldString newString replaceAll content = .ok e) :
    ReportMatches raw e ↔ detectCrlf raw = false ∨
      ¬ ['\r', '\n'] <:+: replaced (normalizeLineEndings raw) oldString newString := by
  obtain ⟨-, hbefore, hafter, hcontent⟩ := editContent_ok hdecode hedit
  unfold ReportMatches
  rw [hbefore, hafter, hcontent, Utf8.decode_encode]
  cases detectCrlf raw with
  | false => exact iff_of_true ⟨rfl, rfl⟩ (.inl rfl)
  | true =>
    rw [normalize_restore, normalize_eq_self_iff]
    simp

/-- An edit of a file in the LF style. -/
theorem report_matches_lf : ∃ e, editContent "/file" ['b'] ['c'] false
      (Utf8.encode ['a', '\n', 'b']) = .ok e ∧ ReportMatches ['a', '\n', 'b'] e := by
  obtain ⟨e, he⟩ : ∃ e, editContent "/file" ['b'] ['c'] false
      (Utf8.encode ['a', '\n', 'b']) = .ok e := ⟨_, rfl⟩
  exact ⟨e, he, (report_matches_iff (by decide) he).mpr (.inl (by decide))⟩

/-- A file of the CRLF style with another `\r` before one of its line breaks, and an edit
elsewhere. -/
theorem report_misses_cr : ∃ e, editContent "/file" ['b'] ['c'] false
      (Utf8.encode ['a', '\r', '\r', '\n', 'b', '\r', '\n']) = .ok e ∧
    ¬ ReportMatches ['a', '\r', '\r', '\n', 'b', '\r', '\n'] e := by
  refine ⟨_, rfl, ?_⟩
  rintro ⟨-, hafter⟩
  exact absurd hafter (by decide)

/-! ### The style of a file -/

/-- The text of a file in one style, from a text in the LF style. -/
theorem hasStyle_restore (text : Text) : HasStyle true (restoreLineEndings text true) := by
  unfold HasStyle
  rw [if_pos rfl]
  induction text with
  | nil =>
    intro before behind h
    exact absurd h.symm (by simp [restoreLineEndings, Literal.replace_nil])
  | cons c text ih =>
    intro before behind h
    by_cases hc : c = '\n'
    · subst hc
      rw [restore_newline] at h
      match before, h with
      | [], h => exact absurd (List.cons.inj h).1 (by decide)
      | [x], h =>
        obtain ⟨rfl, -⟩ := List.cons.inj h
        rfl
      | x :: y :: before, h =>
        have hlast := ih before behind (List.cons.inj (List.cons.inj h).2).2
        cases before with
        | nil => cases hlast
        | cons z before => rw [List.getLast?_cons_cons, List.getLast?_cons_cons, hlast]
    · rw [restore_cons hc] at h
      cases before with
      | nil => exact absurd (List.cons.inj h).1 hc
      | cons x before =>
        have hlast := ih before behind (List.cons.inj h).2
        cases before with
        | nil => cases hlast
        | cons z before => rw [List.getLast?_cons_cons, hlast]

/-- A text of the CRLF style is restored from its collapsed text. -/
theorem restore_normalize {text : Text} (h : HasStyle true text) :
    restoreLineEndings (normalizeLineEndings text) true = text := by
  unfold HasStyle at h
  rw [if_pos rfl] at h
  induction hn : text.length using Nat.strongRecOn generalizing text with
  | ind n ih =>
    subst hn
    by_cases hmatch : ['\r', '\n'] <+: text
    · obtain ⟨rest, rfl⟩ := hmatch
      have hrest : ∀ before behind, rest = before ++ '\n' :: behind →
          before.getLast? = some '\r' := by
        intro before behind heq
        have hlast := h (['\r', '\n'] ++ before) behind (by rw [heq, List.append_assoc])
        cases before with
        | nil => exact absurd hlast (by decide)
        | cons x before => simpa using hlast
      have hlt : rest.length < (['\r', '\n'] ++ rest).length := by
        rw [List.length_append]
        exact Nat.lt_add_of_pos_left (by decide)
      have hnext := ih rest.length hlt hrest rfl
      rw [normalizeLineEndings, Literal.replace_append (List.cons_ne_nil _ _)]
      rw [normalizeLineEndings] at hnext
      rw [List.singleton_append, restore_newline, hnext]
    · cases text with
      | nil => rfl
      | cons c rest =>
        have hc : c ≠ '\n' := by
          rintro rfl
          have hlast := h [] rest rfl
          cases hlast
        have hrest : ∀ before behind, rest = before ++ '\n' :: behind →
            before.getLast? = some '\r' := by
          intro before behind heq
          have hlast := h (c :: before) behind (by rw [heq, List.cons_append])
          cases before with
          | nil =>
            obtain rfl := Option.some.inj hlast
            exact absurd ⟨behind, by rw [heq]; rfl⟩ hmatch
          | cons x before => rwa [List.getLast?_cons_cons] at hlast
        have hnext := ih rest.length (by simp) hrest rfl
        rw [normalizeLineEndings, Literal.replace_cons hmatch]
        rw [normalizeLineEndings] at hnext
        rw [restore_cons hc, hnext]

/-- The beginning of a text of the CRLF style is one. -/
theorem hasStyle_take {text : Text} (h : HasStyle true text) (n : ℕ) :
    HasStyle true (text.take n) := by
  unfold HasStyle at h ⊢
  rw [if_pos rfl] at h ⊢
  intro before behind heq
  refine h before (behind ++ text.drop n) ?_
  have hwhole := List.take_append_drop n text
  rw [heq, List.append_assoc] at hwhole
  exact hwhole.symm

/-- In a text of the CRLF style every LF is one of a CRLF. -/
theorem countMatches_restore (text : Text) :
    Literal.countMatches ['\r', '\n'] (restoreLineEndings text true) =
      (restoreLineEndings text true).count '\n' := by
  induction text with
  | nil => rfl
  | cons c text ih =>
    by_cases hc : c = '\n'
    · subst hc
      rw [restore_newline, Literal.countMatches_append (List.cons_ne_nil _ _), ih,
        List.count_append]
      exact Nat.add_comm _ _
    · rw [restore_cons hc, Literal.countMatches_cons (not_crlf_restore text), ih,
        List.count_cons_of_ne hc]

/-- A file of the CRLF style is taken for one exactly when a line break is among its first 4096
characters. -/
theorem detectCrlf_crlf (h : HasStyle true raw) :
    detectCrlf raw = true ↔ '\n' ∈ raw.take 4096 := by
  have hsample := restore_normalize (hasStyle_take h 4096)
  have hcount := countMatches_restore (normalizeLineEndings (raw.take 4096))
  rw [hsample] at hcount
  unfold detectCrlf
  rw [decide_eq_true_iff, hcount, Literal.countMatches_singleton, Nat.sub_self,
    List.count_pos_iff]

/-- A file of the LF style is never taken for one of the CRLF style. -/
theorem detectCrlf_lf (h : HasStyle false raw) : detectCrlf raw = false := by
  have hnot : ¬ ['\r', '\n'] <:+: raw.take 4096 := by
    intro hpart
    exact h (hpart.trans (List.take_prefix 4096 raw).isInfix)
  have hzero : Literal.countMatches ['\r', '\n'] (raw.take 4096) = 0 := by
    rw [Literal.countMatches, Literal.pieces_of_not_infix hnot]
    rfl
  refine decide_eq_false fun hlt => ?_
  rw [hzero] at hlt
  exact Nat.not_lt_zero _ hlt

/-- A text of the LF style is the text that it is in the CRLF style only without line breaks. -/
theorem restore_eq_self_iff (text : Text) : restoreLineEndings text true = text ↔ '\n' ∉ text := by
  induction text with
  | nil => exact iff_of_true rfl List.not_mem_nil
  | cons c text ih =>
    by_cases hc : c = '\n'
    · subst hc
      refine iff_of_false (fun h => ?_) fun h => h List.mem_cons_self
      rw [restore_newline] at h
      exact absurd (List.cons.inj h).1 (by decide)
    · rw [restore_cons hc, List.cons.injEq, ih, List.mem_cons]
      simp [Ne.symm hc]

/-- The pieces of a text in a style, with a text in that style between each two. -/
theorem restore_intercalate (separator : Text) (pieces : List Text) (crlf : Bool) :
    restoreLineEndings (separator.intercalate pieces) crlf =
      (restoreLineEndings separator crlf).intercalate
        (pieces.map fun piece => restoreLineEndings piece crlf) := by
  induction pieces with
  | nil => cases crlf <;> rfl
  | cons piece pieces ih =>
    cases pieces with
    | nil => simp
    | cons second pieces =>
      rw [List.intercalate_cons_of_ne_nil (List.cons_ne_nil _ _), restore_append, restore_append, ih]
      exact (List.intercalate_cons_of_ne_nil (List.cons_ne_nil _ _)).symm

/-! ### Edits and the style of their file -/

/-- A file's own style: CRLF when it has line breaks and all are CRLF, and LF when none is. -/
def FileStyle (crlf : Bool) (raw : Text) : Prop :=
  HasStyle crlf raw ∧ (crlf = true → '\n' ∈ raw)

/-- The text of a file outside the occurrences of an old string. -/
def outside (crlf : Bool) (raw oldString : Text) : List Text :=
  (Literal.pieces (normalizeLineEndings oldString) (normalizeLineEndings raw)).map
    fun piece => restoreLineEndings piece crlf

/-- What was published has the file's own style throughout, and is the file with the new string in
place of the old one, both in that style. -/
def Kept (crlf : Bool) (raw oldString newString : Text) (published : Bytes) : Prop :=
  ∃ text, published = Utf8.encode text ∧ HasStyle crlf text ∧
    raw = (restoreLineEndings (normalizeLineEndings oldString) crlf).intercalate
      (outside crlf raw oldString) ∧
    text = (restoreLineEndings (normalizeLineEndings newString) crlf).intercalate
      (outside crlf raw oldString)

/-- In a file of the CRLF style a line break is among the first 4096 characters, or none is left;
in one of the LF style no CR stands directly before an LF when the replacements are made. -/
def StyleSafe (crlf : Bool) (raw oldString newString : Text) : Prop :=
  if crlf then
    '\n' ∈ raw.take 4096 ∨ '\n' ∉ replaced (normalizeLineEndings raw) oldString newString
  else ¬ ['\r', '\n'] <:+: replaced (normalizeLineEndings raw) oldString newString

/-- A file is what stands outside of the old string, with that between each two pieces. -/
theorem intercalate_outside {crlf : Bool} (hstyle : HasStyle crlf raw)
    (hold : normalizeLineEndings oldString ≠ []) :
    raw = (restoreLineEndings (normalizeLineEndings oldString) crlf).intercalate
      (outside crlf raw oldString) := by
  rw [outside, ← restore_intercalate, Literal.intercalate_pieces hold]
  cases crlf with
  | true => exact (restore_normalize hstyle).symm
  | false => exact ((normalize_eq_self_iff raw).mpr hstyle).symm

/-- The replaced text in a style. -/
theorem restore_replaced (crlf : Bool) (raw oldString newString : Text) :
    restoreLineEndings (replaced (normalizeLineEndings raw) oldString newString) crlf =
      (restoreLineEndings (normalizeLineEndings newString) crlf).intercalate
        (outside crlf raw oldString) := by
  rw [replaced, Literal.replace, restore_intercalate, outside]

/-- Every edit of a file that has one style keeps it, and leaves the text outside of what it
replaces as it is, exactly when it is safe. -/
theorem style_kept_iff {crlf : Bool} {e : Edited}
    (hdecode : decodeText "edit" path content = .ok raw) (hstyle : FileStyle crlf raw)
    (hedit : editContent path oldString newString replaceAll content = .ok e) :
    Kept crlf raw oldString newString e.content ↔ StyleSafe crlf raw oldString newString := by
  obtain ⟨hold, -, -, hcontent⟩ := editContent_ok hdecode hedit
  have houtside := intercalate_outside hstyle.1 hold
  have hreplaced := restore_replaced crlf raw oldString newString
  unfold Kept
  rw [hcontent, ← hreplaced]
  constructor
  · rintro ⟨text, hencode, htext, -, rfl⟩
    have hsame := congrArg Utf8.decode hencode
    rw [Utf8.decode_encode, Utf8.decode_encode] at hsame
    cases crlf with
    | false => exact htext
    | true =>
      refine or_iff_not_imp_left.mpr fun hlate => ?_
      have hundetected : detectCrlf raw = false :=
        Bool.not_eq_true _ ▸ mt (detectCrlf_crlf hstyle.1).mp hlate
      rw [hundetected] at hsame
      exact (restore_eq_self_iff _).mp hsame.symm
  · intro hsafe
    cases crlf with
    | false =>
      rw [detectCrlf_lf hstyle.1]
      exact ⟨_, rfl, hsafe, houtside, rfl⟩
    | true =>
      refine ⟨_, ?_, hasStyle_restore _, houtside, rfl⟩
      rcases hsafe with hearly | hnone
      · rw [(detectCrlf_crlf hstyle.1).mpr hearly]
      · cases detectCrlf raw with
        | true => rfl
        | false =>
          rw [(restore_eq_self_iff _).mpr hnone]
          rfl

/-- An edit of a file in the LF style. -/
theorem style_kept_lf : ∃ e, editContent "/file" ['b'] ['c'] false
      (Utf8.encode ['a', '\n', 'b']) = .ok e ∧
    Kept false ['a', '\n', 'b'] ['b'] ['c'] e.content := by
  obtain ⟨e, he⟩ : ∃ e, editContent "/file" ['b'] ['c'] false
      (Utf8.encode ['a', '\n', 'b']) = .ok e := ⟨_, rfl⟩
  have hstyle : FileStyle false ['a', '\n', 'b'] := by
    refine ⟨?_, nofun⟩
    show ¬ ['\r', '\n'] <:+: ['a', '\n', 'b']
    decide
  refine ⟨e, he, (style_kept_iff (by decide) hstyle he).mpr ?_⟩
  show ¬ ['\r', '\n'] <:+: replaced (normalizeLineEndings ['a', '\n', 'b']) ['b'] ['c']
  decide

/-- A file of the CRLF style with a first line of `n` characters. -/
def longLine (n : ℕ) : Text := List.replicate n 'a' ++ ['\r', '\n', 'b']

/-- It is restored from its text in the LF style. -/
theorem longLine_eq (n : ℕ) :
    longLine n = restoreLineEndings (List.replicate n 'a' ++ ['\n', 'b']) true := by
  have hplain : restoreLineEndings (List.replicate n 'a') true = List.replicate n 'a' :=
    (restore_eq_self_iff _).mpr fun h => absurd (List.eq_of_mem_replicate h) (by decide)
  rw [restore_append, hplain]
  rfl

/-- What the replacement of its second line makes of it. -/
theorem longLine_replaced (n : ℕ) :
    replaced (List.replicate n 'a' ++ ['\n', 'b']) ['b'] ['c'] =
      List.replicate n 'a' ++ ['\n', 'c'] := by
  unfold replaced
  induction n with
  | zero => decide
  | succ n ih =>
    have hnot : ¬ normalizeLineEndings ['b'] <+:
        'a' :: (List.replicate n 'a' ++ ['\n', 'b']) := by
      intro h
      exact absurd (List.cons_prefix_cons.mp h).1 (by decide)
    rw [List.replicate_succ, List.cons_append, Literal.replace_cons hnot, ih, List.cons_append]

/-- Its bytes. -/
theorem encode_longLine (n : ℕ) :
    Utf8.encode (longLine n) = List.replicate n 97 ++ [13, 10, 98] := by
  unfold longLine
  induction n with
  | zero => decide
  | succ n ih =>
    rw [List.replicate_succ, List.cons_append, Utf8.encode_cons, ih]
    rfl

/-- When the first line is longer than what is looked at, an edit of the second publishes the file
with an LF. -/
theorem longLine_edit {n : ℕ} (hlong : 4096 ≤ n) (hsize : n + 3 ≤ maxReadBytes) :
    ∃ e, editContent "/file" ['b'] ['c'] false (Utf8.encode (longLine n)) = .ok e ∧
      e.content = Utf8.encode (List.replicate n 'a' ++ ['\n', 'c']) := by
  have hnormalized : normalizeLineEndings (longLine n) = List.replicate n 'a' ++ ['\n', 'b'] := by
    rw [longLine_eq, normalize_restore]
  have hundetected : detectCrlf (longLine n) = false := by
    have hstyle : HasStyle true (longLine n) := longLine_eq n ▸ hasStyle_restore _
    refine Bool.not_eq_true _ ▸ mt (detectCrlf_crlf hstyle).mp ?_
    rw [longLine, List.take_append_of_le_length (by rwa [List.length_replicate])]
    exact fun h => absurd (List.eq_of_mem_replicate (List.mem_of_mem_take h)) (by decide)
  have hcount : Literal.countMatches ['b'] (List.replicate n 'a' ++ ['\n', 'b']) = 1 := by
    rw [Literal.countMatches_singleton, List.count_append, List.count_replicate,
      if_neg (by decide)]
    decide
  have hnul : 0 ∉ Utf8.encode (longLine n) := by
    rw [encode_longLine, List.mem_append, not_or]
    exact ⟨fun h => absurd (List.eq_of_mem_replicate h) (by decide), by decide⟩
  have hdecode : decodeText "edit" "/file" (Utf8.encode (longLine n)) = .ok (longLine n) := by
    rw [decodeText, if_neg hnul, if_pos ⟨longLine n, rfl⟩, Utf8.decode_encode]
  have hedited : applyLiteralEdit "/file" (List.replicate n 'a' ++ ['\n', 'b']) ['b'] ['c'] false =
      .ok (List.replicate n 'a' ++ ['\n', 'c']) := by
    refine applyLiteralEdit_eq_ok_iff.mpr ⟨by decide, ?_, .inr hcount, (longLine_replaced n).symm⟩
    exact fun hzero => absurd (hcount.symm.trans hzero) (by decide)
  have hsmall : ¬ maxReadBytes < (Utf8.encode (longLine n)).length := by
    rw [encode_longLine, List.length_append, List.length_replicate]
    exact Nat.not_lt.mpr hsize
  unfold editContent readForEdit
  rw [if_neg hsmall, hdecode]
  simp only [Except.map, except_ok_bind, hnormalized, hedited, hundetected]
  exact ⟨_, rfl, rfl⟩

/-- So an edit may change the style of a file. -/
theorem style_lost : ∃ e,
    editContent "/file" ['b'] ['c'] false (Utf8.encode (longLine 4096)) = .ok e ∧
    FileStyle true (longLine 4096) ∧ ¬ Kept true (longLine 4096) ['b'] ['c'] e.content := by
  have hsize : 4096 + 3 ≤ maxReadBytes := by decide
  obtain ⟨e, hedit, hcontent⟩ := longLine_edit (Nat.le_refl 4096) hsize
  refine ⟨e, hedit, ⟨?_, fun _ => ?_⟩, ?_⟩
  · rw [longLine_eq]
    exact hasStyle_restore _
  · exact List.mem_append_right _ (by decide)
  · rintro ⟨text, hencode, hstyle, -, -⟩
    rw [hcontent] at hencode
    have hsame := congrArg Utf8.decode hencode
    rw [Utf8.decode_encode, Utf8.decode_encode] at hsame
    have hlast := hstyle (List.replicate 4096 'a') ['c'] hsame.symm
    rw [List.getLast?_replicate] at hlast
    cases hlast

end RemoteWorkspace.Analysis.EditedText
