import RemoteWorkspace.Computation.Fallible
import RemoteWorkspace.Model.ApiPaths

/-!
# Ids as segments of a path

A segment is decoded by itself, but it is joined with the others again before the handler splits
the path, so a slash in it ends it; and before any of that the URL's own parser takes out
segments of dots, which no encoding escapes. All other segments arrive as they were sent.
-/

set_option autoImplicit false

namespace RemoteWorkspace.Analysis.OpaqueIds

open RemoteWorkspace.Computation RemoteWorkspace.Model.ApiPaths

/-- A segment that arrives as it was sent: it has no half of a surrogate pair and no slash in it,
and it is not one or two dots. -/
def Plain (segment : Text) : Prop :=
  (Utf16.decodeStrict segment).isSome ∧ slash ∉ segment ∧
    segment ≠ literal "." ∧ segment ≠ literal ".."

instance (segment : Text) : Decidable (Plain segment) := inferInstanceAs (Decidable (_ ∧ _))

/-- A segment that the URL's parser takes out. -/
def Dots (segment : Text) : Prop :=
  doubleDots.contains segment = true ∨ singleDots.contains segment = true

instance (segment : Text) : Decidable (Dots segment) := inferInstanceAs (Decidable (_ ∨ _))

/-- How many segments hold something. -/
def held (segments : List Text) : ℕ := segments.countP (· ≠ [])

/-! ### Encoding -/

theorem keeps_unreserved : PercentEncoding.Keeps unreserved := by
  constructor
  · intro c hc
    have hle : ∀ {a b : Char}, a ≤ b → a.toNat ≤ b.toNat := fun h => UInt32.le_iff_toNat_le.mp h
    simp only [unreserved, Bool.or_eq_true, Bool.and_eq_true, decide_eq_true_eq] at hc
    obtain ((⟨-, hc⟩ | ⟨-, hc⟩) | ⟨-, hc⟩) | hc := hc
    · exact Nat.lt_of_le_of_lt (hle hc) (by decide)
    · exact Nat.lt_of_le_of_lt (hle hc) (by decide)
    · exact Nat.lt_of_le_of_lt (hle hc) (by decide)
    · have hmarks : unreservedMarks.all (fun c => c.toNat < 0x80) = true := by decide
      exact of_decide_eq_true (List.all_eq_true.mp hmarks c (List.contains_iff_mem.mp hc))
  · decide

/-- A slash is never left as it is. -/
theorem slash_not_mem {segment escaped : Text} (h : encodeURIComponent segment = some escaped) :
    slash ∉ escaped := by
  intro hmem
  obtain ⟨c, hc, hslash⟩ | hslash | ⟨n, hn, hslash⟩ := PercentEncoding.mem_encode h hmem
  · have hascii := keeps_unreserved.ascii c hc
    have hnat : slash.toNat = c.toNat := by
      rw [hslash, UInt16.toNat_ofNat', Nat.mod_eq_of_lt (by omega)]
    have hchar : c = '/' := Char.toNat_inj.mp hnat.symm
    rw [hchar] at hc
    revert hc
    decide
  · cases hslash
  · have hbounds := (PercentEncoding.digit_bounds hn).1
    rw [← hslash] at hbounds
    revert hbounds
    decide

/-- Only dots are written as dots. -/
theorem dots_escaped {segment escaped : Text} (h : encodeURIComponent segment = some escaped) :
    Dots escaped ↔ segment = literal "." ∨ segment = literal ".." := by
  have hback := PercentEncoding.decode_encode keeps_unreserved h
  constructor
  · intro hdots
    -- what is taken for dots is read as dots, so dots were sent
    have htwo : ∀ text ∈ doubleDots, PercentEncoding.decode text = some (literal "..") := by
      decide +kernel
    have hone : ∀ text ∈ singleDots, PercentEncoding.decode text = some (literal ".") := by
      decide +kernel
    cases hdots with
    | inl hdouble =>
      have hread := htwo escaped (List.contains_iff_mem.mp hdouble)
      exact Or.inr (Option.some.inj (hback.symm.trans hread))
    | inr hsingle =>
      have hread := hone escaped (List.contains_iff_mem.mp hsingle)
      exact Or.inl (Option.some.inj (hback.symm.trans hread))
  · intro hdots
    have hone : encodeURIComponent (literal ".") = some (literal ".") := by decide +kernel
    have htwo : encodeURIComponent (literal "..") = some (literal "..") := by decide +kernel
    obtain rfl | rfl := hdots
    · obtain rfl := Option.some.inj (hone.symm.trans h)
      decide +kernel
    · obtain rfl := Option.some.inj (htwo.symm.trans h)
      decide +kernel

/-! ### The URL's parser -/

/-- Segments without dots stay as they are. -/
theorem resolve_plain {rest : List Text} (h : ∀ s ∈ rest, ¬ Dots s) (read : List Text) :
    resolve read rest = read ++ rest := by
  induction rest generalizing read with
  | nil => rw [resolve, List.append_nil]
  | cons s rest ih =>
    have hs := not_or.mp (h s List.mem_cons_self)
    rw [resolve, if_neg hs.1, if_neg hs.2, ih fun t ht => h t (List.mem_cons_of_mem s ht),
      List.append_assoc]
    rfl

/-- What is added behind a last segment of dots. -/
theorem mem_ending {rest : List Text} {s : Text}
    (h : s ∈ if rest = [] then [([] : Text)] else []) : s = [] := by
  by_cases hrest : rest = []
  · rw [if_pos hrest] at h
    exact List.mem_singleton.mp h
  · rw [if_neg hrest] at h
    cases h

/-- Empty segments at the end do not count. -/
theorem held_append {segments ending : List Text} (h : ∀ s ∈ ending, s = []) :
    held (segments ++ ending) = held segments := by
  rw [held, List.countP_append, held, Nat.add_eq_left, List.countP_eq_zero]
  intro s hs
  rw [decide_eq_true_eq]
  exact not_not.mpr (h s hs)

/-- Whatever the segments are, what is left of those that were there before comes first, and then
some of the new ones: none of them are dots, but the last may be empty. -/
theorem resolve_split (rest first more : List Text) :
    ∃ first' more', resolve (first ++ more) rest = first' ++ more' ∧ first' <+: first ∧
      (∀ s ∈ more', s ∈ more ∨ s ∈ rest ∨ s = []) ∧
      held more' ≤ held more + (rest.filter (¬ Dots ·)).length := by
  induction rest generalizing first more with
  | nil =>
    exact ⟨first, more, rfl, List.prefix_refl first, fun s hs => Or.inl hs, Nat.le_add_right _ _⟩
  | cons s rest ih =>
    -- it is enough to say what is left of both parts by the next segment
    have hnext : ∀ first₁ more₁,
        resolve (first ++ more) (s :: rest) = resolve (first₁ ++ more₁) rest →
        first₁ <+: first → (∀ t ∈ more₁, t ∈ more ∨ t = s ∨ t = []) →
        held more₁ + (rest.filter (¬ Dots ·)).length ≤
          held more + ((s :: rest).filter (¬ Dots ·)).length →
        ∃ first' more', resolve (first ++ more) (s :: rest) = first' ++ more' ∧
          first' <+: first ∧ (∀ t ∈ more', t ∈ more ∨ t ∈ s :: rest ∨ t = []) ∧
          held more' ≤ held more + ((s :: rest).filter (¬ Dots ·)).length := by
      intro first₁ more₁ heq hprefix hmem hheld
      obtain ⟨first', more', hsplit, hprefix', hmem', hheld'⟩ := ih first₁ more₁
      refine ⟨first', more', heq.trans hsplit, hprefix'.trans hprefix, ?_, by omega⟩
      intro t ht
      obtain hold | hnew | hempty := hmem' t ht
      · obtain hmore | rfl | hempty := hmem t hold
        · exact Or.inl hmore
        · exact Or.inr (Or.inl List.mem_cons_self)
        · exact Or.inr (Or.inr hempty)
      · exact Or.inr (Or.inl (List.mem_cons_of_mem s hnew))
      · exact Or.inr (Or.inr hempty)
    by_cases hdouble : doubleDots.contains s = true
    · have hfilter : (s :: rest).filter (¬ Dots ·) = rest.filter (¬ Dots ·) :=
        List.filter_cons_of_neg (by rw [decide_eq_true_eq]; exact not_not.mpr (Or.inl hdouble))
      by_cases hmore : more = []
      · subst hmore
        refine hnext first.dropLast (if rest = [] then [[]] else []) ?_
          (List.dropLast_prefix first) (fun t ht => Or.inr (Or.inr (mem_ending ht))) ?_
        · rw [resolve, if_pos hdouble, List.append_nil]
        · apply Nat.le_of_eq
          rw [hfilter, ← List.nil_append (if rest = [] then _ else _),
            held_append fun t ht => mem_ending ht]
      · refine hnext first (more.dropLast ++ if rest = [] then [[]] else []) ?_
          (List.prefix_refl first) ?_ ?_
        · rw [resolve, if_pos hdouble, List.dropLast_append_of_ne_nil hmore, List.append_assoc]
        · intro t ht
          obtain hold | hending := List.mem_append.mp ht
          · exact Or.inl (List.dropLast_subset more hold)
          · exact Or.inr (Or.inr (mem_ending hending))
        · rw [hfilter, held_append fun t ht => mem_ending ht]
          exact Nat.add_le_add_right (List.dropLast_sublist more).countP_le _
    · by_cases hsingle : singleDots.contains s = true
      · have hfilter : (s :: rest).filter (¬ Dots ·) = rest.filter (¬ Dots ·) :=
          List.filter_cons_of_neg (by rw [decide_eq_true_eq]; exact not_not.mpr (Or.inr hsingle))
        refine hnext first (more ++ if rest = [] then [[]] else []) ?_
          (List.prefix_refl first) ?_ ?_
        · rw [resolve, if_neg hdouble, if_pos hsingle, List.append_assoc]
        · intro t ht
          obtain hold | hending := List.mem_append.mp ht
          · exact Or.inl hold
          · exact Or.inr (Or.inr (mem_ending hending))
        · apply Nat.le_of_eq
          rw [hfilter, held_append fun t ht => mem_ending ht]
      · have hfilter : (s :: rest).filter (¬ Dots ·) = s :: rest.filter (¬ Dots ·) :=
          List.filter_cons_of_pos
            (by rw [decide_eq_true_eq]; exact not_or.mpr ⟨hdouble, hsingle⟩)
        refine hnext first (more ++ [s]) ?_ (List.prefix_refl first) ?_ ?_
        · rw [resolve, if_neg hdouble, if_neg hsingle, List.append_assoc]
        · intro t ht
          obtain hold | hlast := List.mem_append.mp ht
          · exact Or.inl hold
          · exact Or.inr (Or.inl (List.mem_singleton.mp hlast))
        · rw [hfilter, held, List.countP_append, List.length_cons]
          have hone : [s].countP (· ≠ []) ≤ 1 := List.countP_le_length
          unfold held
          omega

/-! ### The adapter and the handler -/

/-- The segments of a request's path before the parser looks for dots. -/
theorem splitOn_target {escaped : List Text} (h : ∀ e ∈ escaped, slash ∉ e) (hne : escaped ≠ []) :
    ((apiPrefix ++ slash :: [slash].intercalate escaped).drop 1).splitOn slash =
      apiSegment :: escaped := by
  have hdrop : (apiPrefix ++ slash :: [slash].intercalate escaped).drop 1 =
      apiSegment ++ slash :: [slash].intercalate escaped := rfl
  have hsegment : slash ∉ apiSegment := by decide +kernel
  rw [hdrop, List.splitOn_append_cons_self_of_not_mem hsegment,
    List.splitOn_intercalate slash h hne]

/-- The prefix's segment is read first. -/
theorem resolve_target (escaped : List Text) :
    resolve [] (apiSegment :: escaped) = resolve ([apiSegment] ++ []) escaped := by
  have hdouble : ¬ doubleDots.contains apiSegment = true := by decide +kernel
  have hsingle : ¬ singleDots.contains apiSegment = true := by decide +kernel
  rw [resolve, if_neg hdouble, if_neg hsingle]
  rfl

/-- The path behind the prefix, of a request to some segments: an end of some of them. The
prefix itself may be gone, and then a part of them is taken for it. -/
theorem path_suffix {escaped : List Text} (h : ∀ e ∈ escaped, slash ∉ e) (hne : escaped ≠ []) :
    ∃ more, (pathname (apiPrefix ++ slash :: [slash].intercalate escaped)).drop apiPrefix.length <:+
        more.flatMap (slash :: ·) ∧ (∀ e ∈ more, e ∈ escaped ∨ e = []) ∧
      held more ≤ (escaped.filter (¬ Dots ·)).length := by
  obtain ⟨first, more, hsplit, hprefix, hmem, hheld⟩ := resolve_split escaped [apiSegment] []
  have hshort : (first.flatMap (slash :: ·)).length ≤ apiPrefix.length := by
    obtain ⟨gone, hgone⟩ := hprefix
    have hwhole : apiPrefix = [apiSegment].flatMap (slash :: ·) := rfl
    rw [hwhole, ← hgone, List.flatMap_append, List.length_append]
    exact Nat.le_add_right _ _
  refine ⟨more, ?_, ?_, ?_⟩
  · rw [pathname, splitOn_target h hne, resolve_target, hsplit, List.flatMap_append,
      List.drop_append, List.drop_eq_nil_of_le hshort, List.nil_append]
    exact List.drop_suffix _ _
  · intro e he
    obtain hnone | hold := hmem e he
    · cases hnone
    · exact hold
  · have hnone : held [] = 0 := rfl
    omega

/-- The same path, when no segment is dots. -/
theorem path_plain {escaped : List Text} (h : ∀ e ∈ escaped, slash ∉ e) (hne : escaped ≠ [])
    (hdots : ∀ e ∈ escaped, ¬ Dots e) :
    (pathname (apiPrefix ++ slash :: [slash].intercalate escaped)).drop apiPrefix.length =
      escaped.flatMap (slash :: ·) := by
  have hwhole : [apiSegment].flatMap (slash :: ·) = apiPrefix := rfl
  rw [pathname, splitOn_target h hne, resolve_target, resolve_plain hdots, List.append_nil,
    List.flatMap_append, hwhole, List.drop_left]

/-- What a client sends. -/
theorem requestTarget_eq {sent escaped : List Text}
    (h : sent.map encodeURIComponent = escaped.map some) :
    requestTarget sent = some (apiPrefix ++ slash :: [slash].intercalate escaped) := by
  rw [requestTarget, mapM_eq_some_iff.mpr h]
  rfl

/-- A character that stands for itself in a request's target. -/
def Unreserved (u : UInt16) : Prop :=
  u = slash ∨ u = PercentEncoding.percent ∨ ∃ c, unreserved c = true ∧ u = UInt16.ofNat c.toNat

/-- Targets are written in slashes, escapes and unreserved characters alone. -/
theorem requestTarget_unreserved {sent : List Text} {target : Text}
    (h : requestTarget sent = some target) : ∀ u ∈ target, Unreserved u := by
  obtain ⟨escaped, hescaped, heq⟩ := Option.map_eq_some_iff.mp h
  subst heq
  intro u hu
  have hprefix : apiSegment.all (fun u => unreserved (Char.ofNat u.toNat) = true ∧
      u = UInt16.ofNat (Char.ofNat u.toNat).toNat) = true := by decide +kernel
  have hsegment (u : UInt16) (hu : u ∈ apiSegment) := of_decide_eq_true
    (List.all_eq_true.mp hprefix u hu)
  have hdigit : ∀ n < 16, unreserved (Char.ofNat (PercentEncoding.digit n).toNat) = true ∧
      PercentEncoding.digit n =
        UInt16.ofNat (Char.ofNat (PercentEncoding.digit n).toNat).toNat := by decide +kernel
  rw [apiPrefix, List.cons_append, List.mem_cons, List.mem_append, List.mem_cons] at hu
  obtain hslash | hprefix | hslash | hbehind := hu
  · exact Or.inl hslash
  · exact Or.inr (Or.inr ⟨_, hsegment u hprefix⟩)
  · exact Or.inl hslash
  · obtain hslash | ⟨e, he, hmem⟩ := mem_intercalate hbehind
    · exact Or.inl hslash
    · obtain ⟨s, _, hs⟩ := exists_of_map_some (mapM_eq_some_iff.mp hescaped) he
      obtain hkept | hpercent | ⟨n, hn, hdig⟩ := PercentEncoding.mem_encode hs hmem
      · exact Or.inr (Or.inr hkept)
      · exact Or.inr (Or.inl hpercent)
      · rw [hdig]
        exact Or.inr (Or.inr ⟨_, hdigit n hn⟩)

/-- What the adapter hands on of a path that holds something. -/
theorem decodedPath_eq {target : Text} {pieces decoded : List Text}
    (hpath : (pathname target).drop apiPrefix.length ≠ [])
    (hsplit : ((pathname target).drop apiPrefix.length).splitOn slash = pieces)
    (hdecoded : pieces.map decodeURIComponent = decoded.map some) :
    decodedPath target = some ([slash].intercalate decoded) := by
  rw [decodedPath]
  simp only [if_neg hpath]
  rw [hsplit, mapM_eq_some_iff.mpr hdecoded]
  rfl

/-- Segments without half surrogate pairs can be encoded. -/
theorem encoded {sent : List Text} (h : ∀ s ∈ sent, (Utf16.decodeStrict s).isSome) :
    ∃ escaped : List Text, sent.map encodeURIComponent = escaped.map some := by
  refine ⟨sent.filterMap encodeURIComponent, ?_⟩
  induction sent with
  | nil => rfl
  | cons s sent ih =>
    obtain ⟨chars, hchars⟩ := Option.isSome_iff_exists.mp (h s List.mem_cons_self)
    have hs : encodeURIComponent s = some
        ((chars.flatMap (PercentEncoding.escape unreserved)).flatMap PercentEncoding.spell) := by
      rw [encodeURIComponent, PercentEncoding.encode, hchars, Option.map_some]
    rw [List.map_cons, ih fun t ht => h t (List.mem_cons_of_mem s ht), List.filterMap_cons_some hs,
      List.map_cons, hs]

/-- Segments that were encoded are decoded as they were sent. -/
theorem decoded {sent escaped : List Text} (h : sent.map encodeURIComponent = escaped.map some) :
    escaped.map decodeURIComponent = sent.map some :=
  map_some_symm h fun _ _ hs => PercentEncoding.decode_encode keeps_unreserved hs

/-- Escaped segments have no slashes. -/
theorem slash_not_mem_escaped {sent escaped : List Text}
    (h : sent.map encodeURIComponent = escaped.map some) : ∀ e ∈ escaped, slash ∉ e := by
  intro e he
  obtain ⟨s, _, hs⟩ := exists_of_map_some h he
  exact slash_not_mem hs

/-- What arrives of segments that are all plain. -/
theorem received_plain {sent : List Text} (hne : ∀ s ∈ sent, s ≠ []) (h : ∀ s ∈ sent, Plain s) :
    received sent = some sent := by
  by_cases hsent : sent = []
  · subst hsent
    decide +kernel
  · obtain ⟨escaped, hescaped⟩ := encoded fun s hs => (h s hs).1
    have hslash := slash_not_mem_escaped hescaped
    have hdots : ∀ e ∈ escaped, ¬ Dots e := by
      intro e he hdots
      obtain ⟨s, hs, hencoded⟩ := exists_of_map_some hescaped he
      obtain hone | htwo := (dots_escaped hencoded).mp hdots
      · exact (h s hs).2.2.1 hone
      · exact (h s hs).2.2.2 htwo
    have hescapedne : escaped ≠ [] := by
      intro hnil
      rw [hnil] at hescaped
      exact hsent (List.map_eq_nil_iff.mp hescaped)
    have hpath := path_plain hslash hescapedne hdots
    have hpathne : escaped.flatMap (slash :: ·) ≠ [] := by
      obtain ⟨e, rest, heq⟩ := List.exists_cons_of_ne_nil hescapedne
      rw [heq, List.flatMap_cons]
      exact List.cons_ne_nil _ _
    have hsplit : (escaped.flatMap (slash :: ·)).splitOn slash = [] :: escaped :=
      splitOn_flatMap (List.not_mem_nil) hslash
    have hdecoded : ([] :: escaped).map decodeURIComponent = ([] :: sent).map some := by
      rw [List.map_cons, List.map_cons, decoded hescaped]
      rfl
    have hhanded := decodedPath_eq (hpath ▸ hpathne) (hpath ▸ hsplit) hdecoded
    have hplain : ∀ s ∈ [] :: sent, slash ∉ s := by
      intro s hs
      obtain rfl | hs := List.mem_cons.mp hs
      · exact List.not_mem_nil
      · exact (h s hs).2.1
    have hall : sent.filter (· ≠ []) = sent := by
      rw [List.filter_eq_self]
      intro s hs
      exact decide_eq_true (hne s hs)
    rw [received, requestTarget_eq hescaped, Option.bind_some, hhanded, Option.map_some, parts,
      segments_intercalate_filter hplain, List.filter_cons_of_neg (by decide), hall]

/-- What arrives, of segments that could be encoded. -/
theorem received_eq_some {sent arrived : List Text} (h : received sent = some arrived) :
    ∃ escaped path, sent.map encodeURIComponent = escaped.map some ∧
      decodedPath (apiPrefix ++ slash :: [slash].intercalate escaped) = some path ∧
      arrived = parts path := by
  obtain ⟨target, htarget, h⟩ := Option.bind_eq_some_iff.mp h
  obtain ⟨path, hpath, harrived⟩ := Option.map_eq_some_iff.mp h
  obtain ⟨escaped, hescaped, heq⟩ := Option.map_eq_some_iff.mp htarget
  subst heq
  exact ⟨escaped, path, mapM_eq_some_iff.mp hescaped, hpath, harrived.symm⟩

/-- No segment that arrives has a slash in it. -/
theorem slash_not_mem_received {sent arrived : List Text} (h : received sent = some arrived) :
    ∀ s ∈ arrived, slash ∉ s := by
  intro s hs
  obtain ⟨_, path, _, _, harrived⟩ := received_eq_some h
  rw [harrived] at hs
  exact not_mem_of_mem_splitOn slash path s (List.mem_filter.mp hs).1

/-- One more segment counts for no more than another one, unless it alone holds something. -/
theorem held_cons_le {s t : Text} {segments others : List Text} (h : t = [] → s = [])
    (hrest : held segments ≤ held others) : held (s :: segments) ≤ held (t :: others) := by
  unfold held at hrest ⊢
  by_cases ht : t = []
  · rw [h ht, ht, List.countP_cons_of_neg (by decide), List.countP_cons_of_neg (by decide)]
    exact hrest
  · rw [@List.countP_cons_of_pos _ _ t _ (decide_eq_true ht), List.countP_cons]
    have hle : (if decide (s ≠ []) = true then 1 else 0) ≤ 1 := by split <;> omega
    omega

/-- Nothing is decoded as nothing. -/
theorem held_decoded {pieces out : List Text}
    (h : pieces.map decodeURIComponent = out.map some) : held out ≤ held pieces := by
  induction pieces generalizing out with
  | nil =>
    obtain rfl := List.map_eq_nil_iff.mp h.symm
    exact Nat.le_refl _
  | cons p pieces ih =>
    cases out with
    | nil => cases h
    | cons d out =>
      rw [List.map_cons, List.map_cons] at h
      obtain ⟨hd, hout⟩ := List.cons.inj h
      refine held_cons_le ?_ (ih hout)
      intro hp
      rw [hp] at hd
      exact (Option.some.inj hd).symm

/-- An end of some segments holds no more of them than there are. -/
theorem held_end {first : Text} {rest more : List Text}
    (h : first = [] ∧ rest <:+ more ∨ ∃ t, t :: rest <:+ more ∧ first <:+ t) :
    held (first :: rest) ≤ held more := by
  obtain ⟨rfl, hrest⟩ | ⟨t, hrest, hfirst⟩ := h
  · have hsame : held ([] :: rest) = held rest := List.countP_cons_of_neg (by decide)
    rw [hsame]
    exact hrest.countP_le
  · apply Nat.le_trans _ hrest.countP_le
    refine held_cons_le ?_ (Nat.le_refl _)
    intro ht
    rw [ht] at hfirst
    exact List.suffix_nil.mp hfirst

/-- No end of an escaped segment is decoded with a slash in it, when the segment has none. -/
theorem slash_not_mem_decoded {segment escaped part out : Text} (hslash : slash ∉ segment)
    (hescaped : encodeURIComponent segment = some escaped) (hpart : part <:+ escaped)
    (hout : decodeURIComponent part = some out) : slash ∉ out := by
  intro hmem
  have hdigit : ∀ n < 16, slash ≠ PercentEncoding.digit n := by decide
  exact hslash (PercentEncoding.mem_decode_suffix keeps_unreserved (by decide) hdigit hescaped
    hpart hout hmem)

/-- Of segments without slashes, fewer arrive when some of them are dots. -/
theorem length_received_lt {sent arrived : List Text} (h : received sent = some arrived)
    (hslash : ∀ s ∈ sent, slash ∉ s) {s : Text} (hs : s ∈ sent)
    (hdots : s = literal "." ∨ s = literal "..") : arrived.length < sent.length := by
  obtain ⟨escaped, path, hescaped, hpath, harrived⟩ := received_eq_some h
  have hlength : sent.length = escaped.length := by
    have hmaps := congrArg List.length hescaped
    rwa [List.length_map, List.length_map] at hmaps
  obtain ⟨e, he, hencoded⟩ : ∃ e ∈ escaped, some e = encodeURIComponent s :=
    List.mem_map.mp (hescaped ▸ List.mem_map_of_mem hs)
  have hfewer : (escaped.filter (¬ Dots ·)).length < escaped.length := by
    rw [List.length_filter_lt_length_iff_exists]
    refine ⟨e, he, ?_⟩
    rw [decide_eq_true_eq]
    exact not_not.mpr ((dots_escaped hencoded.symm).mpr hdots)
  have hnoslash := slash_not_mem_escaped hescaped
  obtain ⟨more, hsuffix, hmore, hheld⟩ := path_suffix hnoslash (List.ne_nil_of_mem he)
  obtain ⟨first, rest, hend, hcase⟩ := suffix_flatMap hsuffix
  -- what is decoded are the parts of the path, each an end of an escaped segment
  have hends : ∀ p ∈ first :: rest, p = [] ∨ ∃ t ∈ more, p <:+ t := by
    intro p hp
    obtain ⟨rfl, hrest⟩ | ⟨t, hrest, hfirst⟩ := hcase
    · obtain rfl | hp := List.mem_cons.mp hp
      · exact Or.inl rfl
      · exact Or.inr ⟨p, hrest.subset hp, List.suffix_refl p⟩
    · obtain rfl | hp := List.mem_cons.mp hp
      · exact Or.inr ⟨t, hrest.subset List.mem_cons_self, hfirst⟩
      · exact Or.inr ⟨p, hrest.subset (List.mem_cons_of_mem t hp), List.suffix_refl p⟩
  have hpieces : ∀ p ∈ first :: rest, p = [] ∨ ∃ e ∈ escaped, p <:+ e := by
    intro p hp
    obtain hnil | ⟨t, ht, hpart⟩ := hends p hp
    · exact Or.inl hnil
    · obtain hold | rfl := hmore t ht
      · exact Or.inr ⟨t, hold, hpart⟩
      · exact Or.inl (List.suffix_nil.mp hpart)
  have hplain : ∀ p ∈ first :: rest, slash ∉ p := by
    intro p hp
    obtain rfl | ⟨e, he, hpart⟩ := hpieces p hp
    · exact List.not_mem_nil
    · exact fun hmem => hnoslash e he (hpart.subset hmem)
  rw [decodedPath] at hpath
  by_cases hempty : (pathname (apiPrefix ++ slash :: [slash].intercalate escaped)).drop
      apiPrefix.length = []
  · simp only [if_pos hempty] at hpath
    rw [harrived, ← Option.some.inj hpath]
    exact List.length_pos_of_mem hs
  · simp only [if_neg hempty] at hpath
    rw [hend, splitOn_flatMap (hplain first List.mem_cons_self)
      fun p hp => hplain p (List.mem_cons_of_mem first hp)] at hpath
    obtain ⟨out, hout, hjoin⟩ := Option.map_eq_some_iff.mp hpath
    have hdecoded := mapM_eq_some_iff.mp hout
    have houtplain : ∀ d ∈ out, slash ∉ d := by
      intro d hd
      obtain ⟨p, hp, hpd⟩ := exists_of_map_some hdecoded hd
      obtain rfl | ⟨e, he, hpart⟩ := hpieces p hp
      · obtain rfl := Option.some.inj hpd
        exact List.not_mem_nil
      · obtain ⟨s', hs', hs'e⟩ := exists_of_map_some hescaped he
        exact slash_not_mem_decoded (hslash s' hs') hs'e hpart hpd
    calc arrived.length = held out := by
          rw [harrived, ← hjoin, parts, segments_intercalate_filter houtplain, held,
            List.countP_eq_length_filter]
      _ ≤ held (first :: rest) := held_decoded hdecoded
      _ ≤ held more := held_end hcase
      _ ≤ (escaped.filter (¬ Dots ·)).length := hheld
      _ < sent.length := by omega

/-- Segments arrive as they were sent exactly when all of them are plain. -/
theorem segments_arrive_iff (sent : List Text) (hne : ∀ s ∈ sent, s ≠ []) :
    received sent = some sent ↔ ∀ s ∈ sent, Plain s := by
  constructor
  · intro h s hs
    have hslash := slash_not_mem_received h
    refine ⟨?_, hslash s hs, ?_, ?_⟩
    · obtain ⟨escaped, _, hescaped, _, _⟩ := received_eq_some h
      obtain ⟨e, _, he⟩ : ∃ e ∈ escaped, some e = encodeURIComponent s :=
        List.mem_map.mp (hescaped ▸ List.mem_map_of_mem hs)
      obtain ⟨chars, hchars, _⟩ := Option.map_eq_some_iff.mp he.symm
      rw [hchars]
      rfl
    · intro hone
      exact Nat.lt_irrefl _ (length_received_lt h hslash hs (Or.inl hone))
    · intro htwo
      exact Nat.lt_irrefl _ (length_received_lt h hslash hs (Or.inr htwo))
  · exact received_plain hne

theorem received_escaped_slash :
    received [literal "nodes", literal "a%2Fb"] = some [literal "nodes", literal "a%2Fb"] :=
  (segments_arrive_iff _ (by decide +kernel)).mpr (by decide +kernel)

/-- A slash in an id makes two segments of it, and dots take one out. -/
theorem received_split_id :
    received [literal "nodes", literal "a/connect"] ≠
        some [literal "nodes", literal "a/connect"] ∧
      received [literal "nodes", literal ".."] ≠ some [literal "nodes", literal ".."] := by
  constructor
  · decide +kernel
  · decide +kernel

end RemoteWorkspace.Analysis.OpaqueIds
