import RemoteWorkspace.Analysis.OutputBudget

/-!
# The ledger to the byte

The ledger's bytes are those of the JSON array of the lines that were sent, at every point of
every run. Lines are sent whole while the array with them is within the budget; of the first that
is not, the longest beginning is sent for which it is, without one half of a pair alone, and
then the limit is reported and nothing is sent any more.
-/

set_option autoImplicit false

namespace RemoteWorkspace.Model.PtcOutput

open RemoteWorkspace.Computation
open RemoteWorkspace.Computation.Json
open RemoteWorkspace.Computation.Utf16
open RemoteWorkspace.Model.PtcCodec

variable {ν : Type} [JsNumber ν]

/-! ### Where a text may be cut -/

/-- A cut between the two halves of a pair. -/
def Splits (part rest : Text) : Prop :=
  ∃ u v, part.getLast? = some u ∧ rest.head? = some v ∧ isHigh u = true ∧ isLow v = true

/-- The longest beginning of a text that splits no pair and is one of those that fit; nothing,
where none fits. -/
structure LongestPart (Fits : Text → Prop) (text part : Text) : Prop where
  begins : ∃ rest, text = part ++ rest ∧ ¬ Splits part rest
  fits : part ≠ [] → Fits part
  longest : ∀ p rest, text = p ++ rest → ¬ Splits p rest → Fits p → p.length ≤ part.length

/-- Behind nothing there is no cut. -/
theorem not_splits_nil (rest : Text) : ¬ Splits [] rest := by
  rintro ⟨u, v, hu, -⟩
  cases hu

/-- One more unit in front moves no cut. -/
theorem splits_cons {u w : UInt16} {part rest : Text} :
    Splits (u :: w :: part) rest ↔ Splits (w :: part) rest := by
  unfold Splits
  rw [List.getLast?_cons_cons]

/-- A unit that starts no pair with the one behind it may be cut off. -/
theorem not_splits_of_width {u v : UInt16} {us : Text}
    (hwidth : (characterCost u (some v)).width ≠ 2) : ¬ Splits [u] (v :: us) := by
  rintro ⟨u', v', hu, hv, hhigh, hlow⟩
  have hu' : u = u' := Option.some.inj hu
  have hv' : v = v' := Option.some.inj hv
  rw [hu', hv', characterCost_pair hhigh hlow] at hwidth
  exact hwidth rfl

/-- A unit of width two starts a pair. -/
theorem pair_of_width {u v : UInt16} (hwidth : (characterCost u (some v)).width = 2) :
    isHigh u = true ∧ isLow v = true := by
  by_contra hpair
  have hone := (characterCost_unit u (some v) (by simpa using hpair)).1
  rw [hwidth] at hone
  cases hone

/-- Behind a second half there may be a cut. -/
theorem not_splits_low {v : UInt16} (hlow : isLow v = true) (rest : Text) : ¬ Splits [v] rest := by
  rintro ⟨u, w, hu, -, hhigh, -⟩
  have hu' : v = u := Option.some.inj hu
  rw [← hu', isHigh_iff] at hhigh
  rw [isLow_iff] at hlow
  omega

/-- What is kept of a text is a beginning that splits no pair. -/
theorem truncateFrom_begins (limit : ℤ) (text : Text) (bytes : ℕ) :
    ∃ rest, text = truncateFrom limit bytes text ++ rest ∧
      ¬ Splits (truncateFrom limit bytes text) rest := by
  induction text using cost.induct generalizing bytes with
  | case1 => exact ⟨[], rfl, not_splits_nil _⟩
  | case2 u =>
    rw [truncateFrom]
    split
    · exact ⟨[u], rfl, not_splits_nil _⟩
    · refine ⟨[], rfl, ?_⟩
      rintro ⟨u', v', -, hv, -⟩
      cases hv
  | case3 u v us hwidth ih =>
    rw [truncateFrom]
    split
    · exact ⟨_, rfl, not_splits_nil _⟩
    · obtain ⟨rest, heq, hwhole⟩ := ih (bytes + (characterCost u (some v)).cost)
      refine ⟨rest, by rw [List.cons_append, List.cons_append, ← heq], ?_⟩
      rw [splits_cons]
      cases hkept : truncateFrom limit (bytes + (characterCost u (some v)).cost) us with
      | nil => exact not_splits_low (pair_of_width hwidth).2 rest
      | cons w kept =>
        rw [hkept] at hwhole
        rwa [splits_cons]
  | case4 u v us hwidth ih =>
    rw [truncateFrom]
    split
    · exact ⟨_, rfl, not_splits_nil _⟩
    · obtain ⟨rest, heq, hwhole⟩ := ih (bytes + (characterCost u (some v)).cost)
      refine ⟨rest, by rw [List.cons_append, ← heq], ?_⟩
      rcases truncateFrom_cons limit (bytes + (characterCost u (some v)).cost) v us with hnil |
        ⟨kept, hkept⟩
      · rw [hnil, List.nil_append] at heq
        rw [hnil, ← heq]
        exact not_splits_of_width hwidth
      · rw [hkept] at hwhole ⊢
        rwa [splits_cons]

/-- A beginning that splits no pair and is within the limit is no longer than what is kept. -/
theorem length_le_truncateFrom {limit : ℤ} (text : Text) {bytes : ℕ} {p rest : Text}
    (heq : text = p ++ rest) (hwhole : ¬ Splits p rest)
    (hfits : ((bytes + cost p : ℕ) : ℤ) ≤ limit) :
    p.length ≤ (truncateFrom limit bytes text).length := by
  induction text using cost.induct generalizing bytes p with
  | case1 =>
    obtain rfl := (List.append_eq_nil_iff.mp heq.symm).1
    exact Nat.zero_le _
  | case2 u =>
    cases p with
    | nil => exact Nat.zero_le _
    | cons w p =>
      obtain ⟨rfl, htail⟩ := List.cons.inj heq
      obtain rfl := (List.append_eq_nil_iff.mp htail.symm).1
      rw [cost] at hfits
      rw [truncateFrom, if_neg (by omega)]
  | case3 u v us hwidth ih =>
    cases p with
    | nil => exact Nat.zero_le _
    | cons w p =>
      obtain ⟨rfl, htail⟩ := List.cons.inj heq
      cases p with
      | nil =>
        obtain ⟨hhigh, hlow⟩ := pair_of_width hwidth
        have hrest : v :: us = rest := htail
        exact absurd ⟨u, v, rfl, congrArg List.head? hrest.symm, hhigh, hlow⟩ hwhole
      | cons w p =>
        obtain ⟨rfl, hrest⟩ := List.cons.inj htail
        rw [cost, if_pos hwidth] at hfits
        rw [truncateFrom, if_neg (by omega), if_pos hwidth]
        have hshort : p.length ≤
            (truncateFrom limit (bytes + (characterCost u (some v)).cost) us).length :=
          ih hrest ?_ (by omega)
        · exact Nat.succ_le_succ (Nat.succ_le_succ hshort)
        · cases p with
          | nil => exact not_splits_nil _
          | cons w p => rwa [splits_cons, splits_cons] at hwhole
  | case4 u v us hwidth ih =>
    cases p with
    | nil => exact Nat.zero_le _
    | cons w p =>
      obtain ⟨rfl, htail⟩ := List.cons.inj heq
      cases p with
      | nil =>
        rw [cost, characterCost_last hwidth] at hfits
        rw [truncateFrom, if_neg (by omega), if_neg hwidth]
        exact Nat.succ_le_succ (Nat.zero_le _)
      | cons w p =>
        obtain rfl : v = w := (List.cons.inj htail).1
        rw [cost, if_neg hwidth] at hfits
        rw [truncateFrom, if_neg (by omega), if_neg hwidth]
        rw [splits_cons] at hwhole
        exact Nat.succ_le_succ (ih htail hwhole (by omega))

/-- What is sent of a text that does not fit is its longest beginning that fits. -/
theorem longestPart_truncateJsonString (text : Text) (limit : ℤ) :
    LongestPart (fun part => (jsonStringBytes part : ℤ) ≤ limit) text
      (truncateJsonString text limit) := by
  by_cases hroom : limit < 2
  · have hnone : truncateJsonString text limit = [] := if_pos hroom
    rw [hnone]
    refine ⟨⟨text, rfl, not_splits_nil _⟩, fun h => absurd rfl h, ?_⟩
    intro p rest _ _ hfits
    rw [jsonStringBytes_eq] at hfits
    omega
  · refine ⟨?_, truncateJsonString_le, ?_⟩
    · rw [truncateJsonString, if_neg hroom]
      exact truncateFrom_begins limit text 2
    · intro p rest heq hwhole hfits
      rw [truncateJsonString, if_neg hroom]
      rw [jsonStringBytes_eq] at hfits
      exact length_le_truncateFrom text heq hwhole hfits

/-! ### Runs -/

/-- A text is pushed. -/
def State.push (s : State ν) (text : Text) : State ν :=
  ⟨(s.ledger.push text : Ledger × List (Frame ν)).1, s.frames ++ (s.ledger.push text).2⟩

/-- What the ledger is, and what it sent, when these texts were pushed. -/
def pushed (ν : Type) (maxBytes : ℕ) (texts : List Text) : State ν :=
  texts.foldl State.push ⟨.new maxBytes, []⟩

/-- The JSON array of some texts is within the budget. -/
def Within (ν : Type) [JsNumber ν] (maxBytes : ℕ) (texts : List Text) : Prop :=
  size (stringify (.arr (texts.map .str) : Json ν)) ≤ maxBytes

/-- What one more text does: behind the report of the limit nothing is sent; a text that fits
behind the lines before it is sent whole; of any other the longest part that fits is sent, if
there is one, and the limit is reported. -/
structure OneMore (maxBytes : ℕ) (s : State ν) (text : Text) (t : State ν) : Prop where
  silent : .outputLimit ∈ s.frames → t.frames = s.frames
  whole : .outputLimit ∉ s.frames → Within ν maxBytes (s.logs ++ [text]) →
    t.frames = s.frames ++ [.log text]
  part : .outputLimit ∉ s.frames → ¬ Within ν maxBytes (s.logs ++ [text]) →
    ∃ part, LongestPart (fun p => Within ν maxBytes (s.logs ++ [p])) text part ∧
      t.frames = s.frames ++ ((if part = [] then [] else [.log part]) ++ [.outputLimit])

/-- What holds of a ledger and of what it sent: its bytes are those of the lines' array, within
the budget, and the limit was reported once it was exceeded. -/
structure Charges (maxBytes : ℕ) (s : State ν) : Prop where
  limit : s.ledger.maxBytes = maxBytes
  bytes : s.ledger.bytes = size (stringify (.arr (s.logs.map .str) : Json ν))
  within : s.ledger.bytes ≤ maxBytes
  entries : s.ledger.entries = s.logs.length
  reported : .outputLimit ∈ s.frames ↔ s.ledger.truncated = true

section Push

variable {l : Ledger} {text : Text}

omit [JsNumber ν] in
/-- Behind the limit. -/
theorem push_truncated (h : l.truncated = true) :
    (l.push text : Ledger × List (Frame ν)) = (l, []) :=
  if_pos h

omit [JsNumber ν] in
/-- A text that fits. -/
theorem push_whole (h : l.truncated = false) (hfits : (jsonStringBytes text : ℤ) ≤ l.available) :
    (l.push text : Ledger × List (Frame ν)) = (l.charge (jsonStringBytes text), [.log text]) := by
  have hbytes : jsonStringBytesUpTo text (some l.available) = some (jsonStringBytes text) := by
    rw [jsonStringBytes_eq] at hfits ⊢
    rw [jsonStringBytesUpTo_eq, if_neg]
    simpa [exceeds] using hfits
  rw [Ledger.push, h, hbytes]
  rfl

omit [JsNumber ν] in
/-- A text that does not. -/
theorem push_part (h : l.truncated = false) (hover : l.available < jsonStringBytes text) :
    (l.push text : Ledger × List (Frame ν)) =
      if truncateJsonString text l.available = [] then
        ({ l with truncated := true }, [.outputLimit])
      else
        ({ l with truncated := true }.charge
          (jsonStringBytes (truncateJsonString text l.available)),
            [.log (truncateJsonString text l.available), .outputLimit]) := by
  have hbytes : jsonStringBytesUpTo text (some l.available) = none := by
    rw [jsonStringBytes_eq] at hover
    rw [jsonStringBytesUpTo_eq, if_pos]
    simpa [exceeds] using hover
  rw [Ledger.push, h, hbytes]
  by_cases hkept : truncateJsonString text l.available = []
  · rw [if_pos hkept, hkept]
    rfl
  · rw [if_neg hkept]
    exact if_pos (List.length_pos_iff.mpr hkept)

end Push

/-- A text fits behind the lines before it exactly when it is within what is available. -/
theorem Charges.within_iff {maxBytes : ℕ} {s : State ν} (h : Charges maxBytes s) (text : Text) :
    Within ν maxBytes (s.logs ++ [text]) ↔ (jsonStringBytes text : ℤ) ≤ s.ledger.available := by
  rw [Within, size_concat h.entries, ← h.bytes, Ledger.available, h.limit]
  omega

/-- One more line. -/
theorem Charges.charge {maxBytes : ℕ} {s : State ν} (h : Charges maxBytes s) {line : Text}
    (hfits : (jsonStringBytes line : ℤ) ≤ s.ledger.available) {truncated : Bool}
    {frames : List (Frame ν)} (hsilent : Silent frames)
    (hreported : .outputLimit ∈ s.frames ++ .log line :: frames ↔ truncated = true) :
    Charges maxBytes ⟨{ s.ledger.charge (jsonStringBytes line) with truncated := truncated },
      s.frames ++ .log line :: frames⟩ := by
  obtain ⟨hlogs, -⟩ := logs_line s.ledger
    { s.ledger.charge (jsonStringBytes line) with truncated := truncated } s.frames line hsilent
  have hbytes : s.ledger.bytes + (jsonStringBytes line + s.ledger.separator) =
      size (stringify (.arr ((s.logs ++ [line]).map .str) : Json ν)) := by
    rw [size_concat h.entries, ← h.bytes]
  refine ⟨h.limit, ?_, ?_, ?_, hreported⟩
  · rw [hlogs]
    exact hbytes
  · show s.ledger.bytes + (jsonStringBytes line + s.ledger.separator) ≤ maxBytes
    rw [Ledger.available, h.limit] at hfits
    omega
  · rw [hlogs, List.length_append]
    exact congrArg (· + 1) h.entries

/-- Nothing is sent behind the report of the limit. -/
theorem Charges.push_silent {maxBytes : ℕ} {s : State ν} (h : Charges maxBytes s) (text : Text)
    (htruncated : s.ledger.truncated = true) :
    Charges maxBytes (s.push text) ∧ OneMore maxBytes s text (s.push text) := by
  have hpush : s.push text = s := by
    rw [State.push, push_truncated htruncated, List.append_nil]
  have hreported := h.reported.mpr htruncated
  rw [hpush]
  exact ⟨h, fun _ => rfl, fun hnot => absurd hreported hnot, fun hnot => absurd hreported hnot⟩

/-- A text that fits is sent whole. -/
theorem Charges.push_fits {maxBytes : ℕ} {s : State ν} (h : Charges maxBytes s) {text : Text}
    (hopen : s.ledger.truncated = false)
    (hfits : (jsonStringBytes text : ℤ) ≤ s.ledger.available) :
    Charges maxBytes (s.push text) ∧ OneMore maxBytes s text (s.push text) := by
  have hunreported : .outputLimit ∉ s.frames := by
    rw [h.reported, hopen]
    exact Bool.false_ne_true
  have hpush : s.push text = ⟨{ s.ledger.charge (jsonStringBytes text) with
      truncated := false }, s.frames ++ [.log text]⟩ := by
    rw [State.push, push_whole hopen hfits, ← hopen]
    rfl
  rw [hpush]
  refine ⟨h.charge hfits (List.forall_mem_nil _) ?_, fun hrep => absurd hrep hunreported,
    fun _ _ => rfl, fun _ hnot => absurd ((h.within_iff text).mpr hfits) hnot⟩
  simp [hunreported]

/-- What is sent of a text that does not fit. -/
theorem Charges.oneMore_part {maxBytes : ℕ} {s t : State ν} (h : Charges maxBytes s) {text : Text}
    (hopen : s.ledger.truncated = false) (hover : s.ledger.available < jsonStringBytes text)
    (hframes : t.frames = s.frames ++ ((if truncateJsonString text s.ledger.available = [] then []
      else [.log (truncateJsonString text s.ledger.available)]) ++ [.outputLimit])) :
    OneMore maxBytes s text t := by
  have hunreported : .outputLimit ∉ s.frames := by
    rw [h.reported, hopen]
    exact Bool.false_ne_true
  refine ⟨fun hrep => absurd hrep hunreported, ?_, ?_⟩
  · intro _ hwithin
    exact absurd ((h.within_iff text).mp hwithin) (not_le.mpr hover)
  · intro _ _
    have hparts : (fun part => Within ν maxBytes (s.logs ++ [part])) =
        fun part => (jsonStringBytes part : ℤ) ≤ s.ledger.available :=
      funext fun part => propext (h.within_iff part)
    refine ⟨truncateJsonString text s.ledger.available, ?_, hframes⟩
    rw [hparts]
    exact longestPart_truncateJsonString text s.ledger.available

/-- A text that does not fit is sent in part, or not at all, and the limit is reported. -/
theorem Charges.push_over {maxBytes : ℕ} {s : State ν} (h : Charges maxBytes s) {text : Text}
    (hopen : s.ledger.truncated = false) (hover : s.ledger.available < jsonStringBytes text) :
    Charges maxBytes (s.push text) ∧ OneMore maxBytes s text (s.push text) := by
  by_cases hkept : truncateJsonString text s.ledger.available = []
  · have hpush : s.push text = ⟨{ s.ledger with truncated := true },
        s.frames ++ [.outputLimit]⟩ := by
      rw [State.push, push_part hopen hover, if_pos hkept]
    obtain ⟨hlogs, -⟩ := @logs_silent _ s.ledger { s.ledger with truncated := true } s.frames
      [.outputLimit] (List.forall_mem_singleton.mpr rfl)
    rw [hpush]
    refine ⟨⟨h.limit, ?_, h.within, ?_, ?_⟩, h.oneMore_part hopen hover ?_⟩
    · rw [hlogs]
      exact h.bytes
    · rw [hlogs]
      exact h.entries
    · simp
    · rw [if_pos hkept, List.nil_append]
  · have hpush : s.push text = ⟨{ s.ledger.charge
        (jsonStringBytes (truncateJsonString text s.ledger.available)) with truncated := true },
        s.frames ++ [.log (truncateJsonString text s.ledger.available), .outputLimit]⟩ := by
      rw [State.push, push_part hopen hover, if_neg hkept]
      rfl
    have hfits := (longestPart_truncateJsonString text s.ledger.available).fits hkept
    rw [hpush]
    refine ⟨h.charge hfits (List.forall_mem_singleton.mpr rfl) (by simp),
      h.oneMore_part hopen hover ?_⟩
    rw [if_neg hkept]
    rfl

/-- One more text keeps the books, and does what it should. -/
theorem Charges.push {maxBytes : ℕ} {s : State ν} (h : Charges maxBytes s) (text : Text) :
    Charges maxBytes (s.push text) ∧ OneMore maxBytes s text (s.push text) := by
  cases htruncated : s.ledger.truncated with
  | true => exact h.push_silent text htruncated
  | false =>
    by_cases hfits : (jsonStringBytes text : ℤ) ≤ s.ledger.available
    · exact h.push_fits htruncated hfits
    · exact h.push_over htruncated (not_le.mp hfits)

/-- A ledger that nothing was pushed to. -/
theorem charges_new {maxBytes : ℕ} (h : 2 ≤ maxBytes) :
    Charges maxBytes (⟨.new maxBytes, []⟩ : State ν) := by
  refine ⟨rfl, ?_, h, rfl, ?_⟩
  · show 2 = size (stringify (.arr (([] : List Text).map .str) : Json ν))
    rw [size_lines]
    rfl
  · simp [Ledger.new]

/-- The books are kept by any texts. -/
theorem charges_pushed {maxBytes : ℕ} (h : 2 ≤ maxBytes) (texts : List Text) :
    Charges maxBytes (pushed ν maxBytes texts) := by
  induction texts using List.reverseRecOn with
  | nil => exact charges_new h
  | append_singleton texts text ih =>
    rw [pushed, List.foldl_append]
    exact (ih.push text).1

/-- The ledger's bytes are those of the JSON array of what was sent, and within the budget; a
string is charged with the bytes of its JSON text; and each text is sent whole while it fits,
then once in part with the report of the limit, and then not at all. -/
theorem ledger_exact {maxBytes : ℕ} (h : 2 ≤ maxBytes) (texts : List Text) :
    (pushed ν maxBytes texts).ledger.bytes =
        size (stringify (.arr ((pushed ν maxBytes texts).logs.map .str) : Json ν)) ∧
      (pushed ν maxBytes texts).ledger.bytes ≤ maxBytes ∧
      (∀ text, jsonStringBytes text = size (stringify (.str text : Json ν))) ∧
      ∀ text, OneMore maxBytes (pushed ν maxBytes texts) text
        (pushed ν maxBytes (texts ++ [text])) := by
  have hcharges := charges_pushed (ν := ν) h texts
  refine ⟨hcharges.bytes, hcharges.within, fun text => ?_, fun text => ?_⟩
  · rw [stringify, size_quote]
  · have hmore : pushed ν maxBytes (texts ++ [text]) = (pushed ν maxBytes texts).push text := by
      rw [pushed, List.foldl_append]
      rfl
    rw [hmore]
    exact (hcharges.push text).2

/-- Ten bytes hold `ab` and, of `cde`, the first letter. -/
theorem ledger_exact_ten : (pushed WholeNumber 10 [ascii "ab", ascii "cde"]).ledger.bytes = 10 ∧
    (pushed WholeNumber 10 [ascii "ab", ascii "cde"]).ledger.bytes ≤ 10 :=
  ⟨by decide +kernel, (ledger_exact (by decide) [ascii "ab", ascii "cde"]).2.1⟩

end RemoteWorkspace.Model.PtcOutput
