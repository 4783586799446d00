import RemoteWorkspace.Analysis.LosslessCodec
import RemoteWorkspace.Analysis.OutputCharges

/-!
# The budget of a program's output

The lines that a program printed and its completion share one budget. The ledger charges lines
exactly, so that they alone stay within the budget. They exceed it together with the completion in
two ways. A value is let through by the bytes of its tokens, without the commas of its JSON text.
And a line that is printed behind the completion is held against what the lines before it left,
though the completion has used that.

The budget is kept throughout a run exactly when each step leaves room for what it does (`Room`).
-/

set_option autoImplicit false

namespace RemoteWorkspace.Model.PtcOutput

open RemoteWorkspace.Computation
open RemoteWorkspace.Computation.Json
open RemoteWorkspace.Model.PtcCodec

variable {ν : Type} [JsNumber ν]

/-! ### What counts -/

/-- The bytes of the JSON text that a done frame carries: of the value, or of the message of a
failure other than an exhausted budget. -/
def weight : Option (Completion ν) → ℕ
  | some (.value wire) => ((unflatten (.arr wire)).map fun v => size (stringify v)).getD 0
  | some (.error .outputLimit _) => 0
  | some (.error _ message) => size (quote message)
  | _ => 0

/-- The lines and the completion are within the budget; an exhausted budget is reported by its
fixed notice. -/
def Kept (maxOutputBytes : ℕ) (s : State ν) : Prop :=
  size (stringify (.arr (s.logs.map .str) : Json ν)) + weight s.done ≤ maxOutputBytes ∧
    ∀ message, s.done = some (.error .outputLimit message) →
      message = overflowMessage maxOutputBytes

/-- What is sent of a line. -/
def Ledger.sends (l : Ledger) (text : Text) : Option Text :=
  if l.truncated then none
  else if (jsonStringBytesUpTo text (some l.available)).isSome then some text
  else if 0 < (truncateJsonString text l.available).length then
    some (truncateJsonString text l.available)
  else none

/-- There is room for a step: for the commas of a returned value, when its tokens are let through,
and for what is sent of a line besides a completion that was sent before. -/
def Room (s : State ν) : Event ν → Prop
  | .print text => ∀ line, s.ledger.sends text = some line →
    s.ledger.bytes + (jsonStringBytes line + s.ledger.separator) + weight s.done ≤ s.ledger.maxBytes
  | .returns heap value _ => ∀ v, Lossless heap value v →
    (wireBytes (tokens v) : ℤ) ≤ s.ledger.remaining →
    ((wireBytes (tokens v) + commas v : ℕ) : ℤ) ≤ s.ledger.remaining
  | .throws _ => True

/-! ### The ledger -/

/-- A frame that neither prints nor ends. -/
def Silent (frames : List (Frame ν)) : Prop := ∀ frame ∈ frames, frame = .outputLimit

omit [JsNumber ν] in
/-- A line is sent within what is available, or nothing of it is. -/
theorem push_cases (l : Ledger) (text : Text) :
    (l.sends text = none ∧ ∃ truncated frames,
      (l.push text : Ledger × List (Frame ν)) = ({ l with truncated := truncated }, frames) ∧
        Silent frames) ∨
    ∃ line truncated frames, l.sends text = some line ∧
      (jsonStringBytes line : ℤ) ≤ l.available ∧
      (l.push text : Ledger × List (Frame ν)) =
        ({ l.charge (jsonStringBytes line) with truncated := truncated }, .log line :: frames) ∧
      Silent frames := by
  unfold Ledger.sends Ledger.push
  by_cases htruncated : l.truncated = true
  · rw [if_pos htruncated, if_pos htruncated]
    refine .inl ⟨rfl, l.truncated, [], rfl, nofun⟩
  · rw [if_neg htruncated, if_neg htruncated]
    rw [jsonStringBytesUpTo_eq]
    by_cases hexceeds : exceeds (some l.available) (2 + cost text) = true
    · rw [if_pos hexceeds]
      simp only [Option.isSome_none, Bool.false_eq_true, if_false]
      by_cases hkept : 0 < (truncateJsonString text l.available).length
      · rw [if_pos hkept, if_pos hkept]
        refine .inr ⟨_, true, [.outputLimit], rfl, ?_, rfl, List.forall_mem_singleton.mpr rfl⟩
        exact truncateJsonString_le (List.ne_nil_of_length_pos hkept)
      · rw [if_neg hkept, if_neg hkept]
        exact .inl ⟨rfl, true, [.outputLimit], rfl, List.forall_mem_singleton.mpr rfl⟩
    · rw [if_neg hexceeds]
      simp only [Option.isSome_some, if_true]
      refine .inr ⟨text, l.truncated, [], rfl, ?_, ?_, nofun⟩
      · rw [jsonStringBytes_eq]
        simpa [exceeds] using hexceeds
      · rw [jsonStringBytes_eq]
        rfl

omit [JsNumber ν] in
/-- Frames that neither print nor end add nothing. -/
theorem logs_silent (l l' : Ledger) (frames : List (Frame ν)) {rest : List (Frame ν)}
    (h : Silent rest) : State.logs ⟨l', frames ++ rest⟩ = State.logs ⟨l, frames⟩ ∧
      State.done ⟨l', frames ++ rest⟩ = State.done ⟨l, frames⟩ := by
  have hlogs : State.logs ⟨l', rest⟩ = [] := by
    apply List.filterMap_eq_nil_iff.mpr
    intro frame hframe
    rw [h frame hframe]
  have hdone : State.done ⟨l', rest⟩ = none := by
    apply List.findSome?_eq_none_iff.mpr
    intro frame hframe
    rw [h frame hframe]
  refine ⟨?_, ?_⟩
  · rw [State.logs, List.filterMap_append]
    exact (congrArg _ hlogs).trans (List.append_nil _)
  · rw [State.done, List.findSome?_append]
    exact (congrArg _ hdone).trans Option.or_none

omit [JsNumber ν] in
/-- A line is one more, and does not end the program. -/
theorem logs_line (l l' : Ledger) (frames : List (Frame ν)) {rest : List (Frame ν)} (line : Text)
    (h : Silent rest) :
    State.logs ⟨l', frames ++ .log line :: rest⟩ = State.logs ⟨l, frames⟩ ++ [line] ∧
      State.done ⟨l', frames ++ .log line :: rest⟩ = State.done ⟨l, frames⟩ := by
  have hsplit : frames ++ .log line :: rest = (frames ++ [.log line]) ++ rest := by simp
  obtain ⟨hlogs, hdone⟩ := logs_silent l l' (frames ++ [.log line]) h
  rw [hsplit, hlogs, hdone]
  refine ⟨?_, ?_⟩
  · rw [State.logs, List.filterMap_append]
    rfl
  · rw [State.done, List.findSome?_append]
    exact Option.or_none

omit [JsNumber ν] in
/-- A done frame ends the program, and prints nothing. -/
theorem logs_done (l : Ledger) (frames : List (Frame ν)) (completion : Completion ν)
    (h : State.done ⟨l, frames⟩ = none) :
    State.logs ⟨l, frames ++ [.done completion]⟩ = State.logs ⟨l, frames⟩ ∧
      State.done ⟨l, frames ++ [.done completion]⟩ = some completion := by
  refine ⟨?_, ?_⟩
  · rw [State.logs, List.filterMap_append]
    exact List.append_nil _
  · rw [State.done, List.findSome?_append]
    exact (congrArg (Option.or · _) h).trans (Option.none_or)

/-- The ledger holds what the lines take. -/
structure Booked (maxOutputBytes : ℕ) (s : State ν) : Prop where
  limit : s.ledger.maxBytes = maxOutputBytes
  bytes : s.ledger.bytes = size (stringify (.arr (s.logs.map .str) : Json ν))
  entries : s.ledger.entries = s.logs.length
  kept : Kept maxOutputBytes s

/-- The bytes of one more line. -/
theorem size_concat {l : Ledger} {logs : List Text} (hentries : l.entries = logs.length)
    (line : Text) : size (stringify (.arr ((logs ++ [line]).map .str) : Json ν)) =
      size (stringify (.arr (logs.map .str) : Json ν)) + (jsonStringBytes line + l.separator) := by
  rw [size_lines, size_lines, List.map_append, List.sum_append, List.length_append, Ledger.separator,
    hentries]
  simp only [List.map_cons, List.map_nil, List.sum_cons, List.sum_nil, List.length_cons,
    List.length_nil]
  split <;> omega

/-! ### Completions -/

/-- A failure is within what remains. -/
theorem weight_failure {kind : ErrorKind} (hkind : kind ≠ .outputLimit) (message : Text)
    {remaining : ℕ} (maxOutputBytes : ℕ) :
    weight (some (failure kind message remaining maxOutputBytes : Completion ν)) ≤ remaining ∧
      ∀ notice, (failure kind message remaining maxOutputBytes : Completion ν) =
        .error .outputLimit notice → notice = overflowMessage maxOutputBytes := by
  rw [failure, jsonStringBytesUpTo_eq]
  by_cases hexceeds : exceeds (some (remaining : ℤ)) (2 + cost message) = true
  · rw [if_pos hexceeds]
    refine ⟨Nat.zero_le _, ?_⟩
    rintro notice heq
    obtain ⟨-, rfl⟩ := Completion.error.inj heq
    rfl
  · rw [if_neg hexceeds]
    refine ⟨?_, ?_⟩
    · have hfits : 2 + cost message ≤ remaining := by
        simp only [exceeds, Option.any_some, decide_eq_true_eq] at hexceeds
        omega
      have hweight : weight (some (.error kind message : Completion ν)) = size (quote message) := by
        cases kind with
        | outputLimit => exact absurd rfl hkind
        | invalidOutput => rfl
        | exception => rfl
      rw [hweight, (sized_quote message).size_eq]
      exact hfits
    · intro notice heq
      exact absurd (Completion.error.inj heq).1 hkind

/-- A value that is sent weighs its JSON text. -/
theorem weight_value {n : ℕ} {heap : Heap ν n} {value : Value ν n} {v : Json ν}
    (h : Lossless heap value v) :
    weight (some (.value (tokens v))) = wireBytes (tokens v) + commas v := by
  rw [weight, unflatten_arr_iff.mpr (encoding_tokens h), Option.map_some, Option.getD_some,
    size_stringify (tidy_of_lossless h)]

/-- A lossless value is sent when its tokens are within what remains. -/
theorem completion_lossless {n : ℕ} {heap : Heap ν n} {value : Value ν n} {v : Json ν}
    (h : Lossless heap value v) {fuel maxOutputBytes : ℕ} {remaining : ℤ} {c : Completion ν}
    (hc : completion heap value fuel remaining maxOutputBytes = some c) :
    c = if remaining < wireBytes (tokens v) then overflow maxOutputBytes else .value (tokens v) := by
  have hflattened : ∃ flattened, flattenLoop heap fuel ⟨[], ∅, [.value value]⟩ = some flattened ∧
      completionOf flattened remaining maxOutputBytes = c := by
    cases h
    all_goals exact Option.map_eq_some_iff.mp hc
  obtain ⟨flattened, hloop, rfl⟩ := hflattened
  obtain rfl := Ends.unique ⟨fuel, hloop⟩ (flatten_of_lossless h)
  rfl

/-- Any other value fails, but for `undefined`. -/
theorem completion_other {n : ℕ} {heap : Heap ν n} {value : Value ν n}
    (h : ¬ ∃ v, Lossless heap value v) {fuel maxOutputBytes : ℕ} {remaining : ℤ} {c : Completion ν}
    (hc : completion heap value fuel remaining maxOutputBytes = some c) :
    c = .empty ∨ ∃ message, c = failure .invalidOutput message remaining maxOutputBytes := by
  by_cases hundefined : value = .undefined
  · subst hundefined
    exact .inl (Option.some.inj hc).symm
  · have hflattened : ∃ flattened, flattenLoop heap fuel ⟨[], ∅, [.value value]⟩ = some flattened ∧
        completionOf flattened remaining maxOutputBytes = c := by
      cases value with
      | undefined => exact absurd rfl hundefined
      | _ => exact Option.map_eq_some_iff.mp hc
    obtain ⟨flattened, hloop, rfl⟩ := hflattened
    obtain rfl := Ends.unique ⟨fuel, hloop⟩ (flatten_of_not_lossless h)
    exact .inr ⟨_, rfl⟩

/-! ### Runs -/

/-- What remains is what the lines left. -/
theorem Booked.remaining {maxOutputBytes : ℕ} {s : State ν} (h : Booked maxOutputBytes s) :
    s.ledger.remaining = ((maxOutputBytes - s.ledger.bytes : ℕ) : ℤ) ∧
      s.ledger.bytes ≤ maxOutputBytes := by
  have hle : s.ledger.bytes ≤ maxOutputBytes := by
    rw [h.bytes]
    exact Nat.le_trans (Nat.le_add_right _ _) h.kept.1
  rw [Ledger.remaining, h.limit]
  exact ⟨by omega, hle⟩

/-- A completion within what remains keeps the budget. -/
theorem Booked.finish {maxOutputBytes : ℕ} {s : State ν} (h : Booked maxOutputBytes s)
    (hdone : s.done = none) {completion : Completion ν}
    (hweight : weight (some completion) ≤ maxOutputBytes - s.ledger.bytes)
    (hnotice : ∀ message, completion = .error .outputLimit message →
      message = overflowMessage maxOutputBytes) :
    Booked maxOutputBytes { s with frames := s.frames ++ [.done completion] } := by
  obtain ⟨hlogs, hdone'⟩ := logs_done s.ledger s.frames completion hdone
  obtain ⟨-, hle⟩ := h.remaining
  refine ⟨h.limit, ?_, ?_, ?_, ?_⟩
  · rw [hlogs]
    exact h.bytes
  · rw [hlogs]
    exact h.entries
  · rw [hlogs, hdone', ← h.bytes]
    omega
  · intro message hmessage
    rw [hdone'] at hmessage
    exact hnotice message (Option.some.inj hmessage)

/-- Printing leaves what was printed before in the books. -/
theorem Booked.print {maxOutputBytes : ℕ} {s : State ν} (h : Booked maxOutputBytes s)
    {text : Text} {t : State ν} (hstep : step maxOutputBytes s (.print text) = some t) :
    t.done = s.done ∧ t.ledger.maxBytes = maxOutputBytes ∧
      t.ledger.bytes = size (stringify (.arr (t.logs.map .str) : Json ν)) ∧
      t.ledger.entries = t.logs.length ∧
      t.ledger.bytes = s.ledger.bytes + ((s.ledger.sends text).map fun line =>
        jsonStringBytes line + s.ledger.separator).getD 0 := by
  obtain rfl := Option.some.inj hstep
  rcases push_cases (ν := ν) s.ledger text with ⟨hsends, truncated, frames, hpush, hsilent⟩ |
    ⟨line, truncated, frames, hsends, -, hpush, hsilent⟩
  · rw [hpush, hsends]
    obtain ⟨hlogs, hdone⟩ := logs_silent s.ledger { s.ledger with truncated := truncated }
      s.frames hsilent
    rw [hlogs, hdone]
    exact ⟨rfl, h.limit, h.bytes, h.entries, rfl⟩
  · rw [hpush, hsends]
    obtain ⟨hlogs, hdone⟩ := logs_line s.ledger
      { s.ledger.charge (jsonStringBytes line) with truncated := truncated } s.frames line hsilent
    rw [hlogs, hdone, size_concat h.entries, List.length_append]
    refine ⟨rfl, h.limit, ?_, ?_, rfl⟩
    · exact congrArg (· + _) h.bytes
    · exact congrArg (· + 1) h.entries

/-- A program that returns has not ended before. -/
theorem step_returns {maxOutputBytes n : ℕ} {s t : State ν} {heap : Heap ν n}
    {value : Value ν n} {fuel : ℕ} (h : step maxOutputBytes s (.returns heap value fuel) = some t) :
    s.done = none ∧ ∃ out, completion heap value fuel s.ledger.remaining maxOutputBytes = some out ∧
      { s with frames := s.frames ++ [.done out] } = t := by
  rw [step] at h
  split at h
  · cases h
  · rename_i hdone
    exact ⟨by simpa using hdone, Option.map_eq_some_iff.mp h⟩

/-- Nor has one that throws. -/
theorem step_throws {maxOutputBytes : ℕ} {s t : State ν} {rendered : Option Text}
    (h : step maxOutputBytes s (.throws rendered) = some t) :
    s.done = none ∧ { s with
      frames := s.frames ++ [.done (exception rendered s.ledger.remaining maxOutputBytes)] } =
      t := by
  rw [step] at h
  split at h
  · cases h
  · rename_i hdone
    exact ⟨by simpa using hdone, Option.some.inj h⟩

/-- A step with room keeps the books. -/
theorem booked_step {maxOutputBytes : ℕ} (s : State ν) (e : Event ν) (t : State ν)
    (h : Booked maxOutputBytes s) (hroom : Room s e) (hstep : step maxOutputBytes s e = some t) :
    Booked maxOutputBytes t := by
  obtain ⟨hremaining, hle⟩ := h.remaining
  cases e with
  | print text =>
    obtain ⟨hdone, hlimit, hbytes, hentries, hcharged⟩ := h.print hstep
    refine ⟨hlimit, hbytes, hentries, ?_, ?_⟩
    · rw [← hbytes, hdone, hcharged]
      cases hsends : s.ledger.sends text with
      | none =>
        have hkept := h.kept.1
        rw [← h.bytes] at hkept
        simpa using hkept
      | some line =>
        have hfits := hroom line hsends
        rw [h.limit] at hfits
        exact hfits
    · rw [hdone]
      exact h.kept.2
  | returns heap value fuel =>
    obtain ⟨hnone, completion, hcompletion, rfl⟩ := step_returns hstep
    by_cases hlossless : ∃ v, Lossless heap value v
    · obtain ⟨v, hv⟩ := hlossless
      rw [completion_lossless hv hcompletion]
      split
      · apply h.finish hnone (Nat.zero_le _)
        intro message hmessage
        exact (Completion.error.inj hmessage).2.symm
      · have hroom := hroom v hv (by omega)
        apply h.finish hnone
        · rw [weight_value hv]
          omega
        · nofun
    · rw [hremaining] at hcompletion
      rcases completion_other hlossless hcompletion with rfl | ⟨message, rfl⟩
      · exact h.finish hnone (Nat.zero_le _) nofun
      · obtain ⟨hweight, hnotice⟩ := weight_failure (ν := ν)
          (by decide : ErrorKind.invalidOutput ≠ .outputLimit) message maxOutputBytes
        exact h.finish hnone hweight hnotice
  | throws rendered =>
    obtain ⟨hnone, rfl⟩ := step_throws hstep
    rw [exception, hremaining]
    obtain ⟨hweight, hnotice⟩ := weight_failure (ν := ν)
      (by decide : ErrorKind.exception ≠ .outputLimit)
      (rendered.getD (ascii "program threw an unrenderable value")) maxOutputBytes
    exact h.finish hnone hweight hnotice

/-- A step without room exceeds the budget. -/
theorem exceeded_step {maxOutputBytes : ℕ} (s : State ν) (e : Event ν) (t : State ν)
    (h : Booked maxOutputBytes s) (hroom : ¬ Room s e) (hstep : step maxOutputBytes s e = some t) :
    ¬ Kept maxOutputBytes t := by
  rintro ⟨hkept, -⟩
  apply hroom
  cases e with
  | print text =>
    obtain ⟨hdone, -, hbytes, -, hcharged⟩ := h.print hstep
    intro line hsends
    rw [← hbytes, hdone, hcharged, hsends] at hkept
    rw [h.limit]
    exact hkept
  | returns heap value fuel =>
    intro v hv hfits
    obtain ⟨hnone, completion, hcompletion, rfl⟩ := step_returns hstep
    have hsent := completion_lossless hv hcompletion
    rw [if_neg (by omega)] at hsent
    subst hsent
    obtain ⟨hlogs, hdone'⟩ := logs_done s.ledger s.frames (.value (tokens v)) hnone
    rw [hlogs, hdone', weight_value hv] at hkept
    have hsum : s.ledger.bytes + (wireBytes (tokens v) + commas v) ≤ maxOutputBytes := by
      rw [h.bytes]
      exact hkept
    rw [Ledger.remaining, h.limit]
    omega
  | throws rendered => exact trivial

/-- The budget is kept throughout a run exactly when every step leaves room: the commas of a
returned value fit whenever its tokens do, and a line behind the completion fits besides it. -/
theorem budget_kept_iff {maxOutputBytes : ℕ} (hmax : 2 ≤ maxOutputBytes) (es : List (Event ν)) :
    (machine ν maxOutputBytes).Always (Kept maxOutputBytes) (machine ν maxOutputBytes).init es ↔
      (machine ν maxOutputBytes).Each Room (machine ν maxOutputBytes).init es := by
  have hinit : Booked maxOutputBytes (machine ν maxOutputBytes).init := by
    have hsize : size (stringify (.arr (([] : List Text).map .str) : Json ν)) = 2 := size_lines []
    refine ⟨rfl, hsize.symm, rfl, ?_, nofun⟩
    exact hsize.symm ▸ hmax
  exact Machine.always_iff_each (fun s h => h.kept) booked_step exceeded_step hinit es

/-- An array of one number. -/
def oneNumber : Heap WholeNumber 1 := fun _ =>
  .array ⟨.array, [some (.num (.whole 1))], 0, by decide⟩

/-- An array of two numbers. -/
def twoNumbers : Heap WholeNumber 1 := fun _ =>
  .array ⟨.array, [some (.num (.whole 1)), some (.num (.whole 2))], 0, by decide⟩

/-- A program that prints a line and returns an array of one number. -/
def fittingRun : List (Event WholeNumber) := [.print (ascii "ok"), .returns oneNumber (.ref 0) 4]

/-- An array of one number has no comma, and the line fits. -/
theorem fittingRun_room :
    (machine WholeNumber 10).Each Room (machine WholeNumber 10).init fittingRun := by
  have hsends : (Ledger.new 10).sends (ascii "ok") = some (ascii "ok") := by decide +kernel
  have hone : Lossless oneNumber (.ref 0) (.arr [.num (.whole 1)]) := by
    have hnumber : JsNumber.isFinite (WholeNumber.whole 1) = true ∧
        JsNumber.isNegativeZero (WholeNumber.whole 1) = false := by decide
    refine @Lossless.array _ _ _ oneNumber 0 _ [(.num (.whole 1), .num (.whole 1))] rfl rfl rfl rfl ?_
    exact List.forall_mem_singleton.mpr (.num hnumber.1 hnumber.2)
  intro t _
  refine ⟨?_, fun t' _ => ⟨?_, trivial⟩⟩
  · intro line hline
    obtain rfl := Option.some.inj (hsends.symm.trans hline)
    decide +kernel
  · intro v hv hfits
    obtain rfl := hv.unique hone
    exact hfits

/-- The budget of ten bytes is kept. -/
theorem budget_kept_fitting : (machine WholeNumber 10).Always (Kept 10)
    (machine WholeNumber 10).init fittingRun :=
  (budget_kept_iff (by decide) fittingRun).mpr fittingRun_room

/-- A program that returns an array of two numbers. -/
def commaRun : List (Event WholeNumber) := [.returns twoNumbers (.ref 0) 5]

/-- Within six bytes the value is sent: five bytes besides the two of the empty array. -/
theorem commaRun_weight : ((machine WholeNumber 6).step (machine WholeNumber 6).init
    (.returns twoNumbers (.ref 0) 5)).map (fun s => (s.logs, weight s.done)) = some ([], 5) := by
  decide +kernel

/-- The tokens of the two numbers fit, and their array does not. -/
theorem commas_exceed_budget : ¬ (machine WholeNumber 6).Always (Kept 6)
    (machine WholeNumber 6).init commaRun := by
  rintro ⟨-, h⟩
  obtain ⟨s, hs, heq⟩ := Option.map_eq_some_iff.mp commaRun_weight
  have hlogs : s.logs = [] := congrArg Prod.fst heq
  have hweight : weight s.done = 5 := congrArg Prod.snd heq
  have hkept := (h s hs).1
  rw [hlogs, hweight, size_lines] at hkept
  exact absurd hkept (by decide)

end RemoteWorkspace.Model.PtcOutput
