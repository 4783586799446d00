import RemoteWorkspace.Analysis.PtcUnflatten
import RemoteWorkspace.Computation.Slots
import RemoteWorkspace.Computation.WholeNumbers
import RemoteWorkspace.Model.PtcBindings

/-!
# How binding calls are settled

Every call that was sent has an entry in the table of replies until a reply takes it, and no other
id has one. So a call is settled once, by a reply with its own id or because it could not be sent.

That the call ends with what the reply carries rests on the built-in functions that the handler
looks up when the reply arrives. They are the program's to replace, and a replaced one makes the
handler throw, or settles the call with something else.
-/

set_option autoImplicit false

namespace RemoteWorkspace.Analysis.BindingSettlement

open RemoteWorkspace.Computation
open RemoteWorkspace.Computation.Json
open RemoteWorkspace.Model
open RemoteWorkspace.Model.PtcCodec
open RemoteWorkspace.Model.PtcBindings

variable {ν : Type} [JsNumber ν] {s t : State ν}

/-! ### What a reply carries -/

/-- The value or the error that a reply carries for a call of a binding. -/
inductive Carries (binding : Binding) (message : Json ν) : Outcome ν → Prop
  | value {value : Json ν} {tokens : List (Json ν)} (hok : isOk message = true)
    (hfield : field "value" message = some (.arr tokens)) (hvalue : Encoding value tokens) :
    Carries binding message (.resolved value)
  | notLossless (hok : isOk message = true)
    (hnone : ∀ value tokens, field "value" message = some (.arr tokens) →
      ¬ Encoding value tokens) :
    Carries binding message (.rejected (bindingFailure binding.errorClass binding.name
      (ascii "binding resolution must be lossless JSON")))
  | failure (hok : isOk message = false) :
    Carries binding message (.rejected (bindingFailure binding.errorClass binding.name
      (replyMessage message)))

/-- The built-in functions that the handler looks up for a reply do what the language's own do:
they decode its value alike, and build the same error where one is built. -/
def Faithful (b : Builtins ν) (binding : Binding) (message : Json ν) : Prop :=
  let own : Builtins ν := .own
  if isOk message then
    b.unflatten (field "value" message) = own.unflatten (field "value" message) ∧
      (own.unflatten (field "value" message) = some none →
        b.reject binding (ascii "binding resolution must be lossless JSON") =
          own.reject binding (ascii "binding resolution must be lossless JSON"))
  else b.reject binding (replyMessage message) = own.reject binding (replyMessage message)

/-- The language's own functions are. -/
theorem faithful_own (binding : Binding) (message : Json ν) :
    Faithful .own binding message := by
  unfold Faithful
  split
  · exact ⟨rfl, fun _ => rfl⟩
  · rfl

/-- A value that is not read from a reply is the encoding of none. -/
theorem not_encoding_iff {value : Option (Json ν)} :
    value.bind unflatten = none ↔
      ∀ w tokens, value = some (.arr tokens) → ¬ Encoding w tokens := by
  constructor
  · intro hnone w tokens hvalue hencoding
    have hw : unflatten (.arr tokens) = some w := unflatten_arr_iff.mpr hencoding
    rw [hvalue, Option.bind_some, hw] at hnone
    cases hnone
  · intro hnone
    rw [Option.eq_none_iff_forall_not_mem]
    intro w hw
    obtain ⟨input, hinput, hread⟩ := Option.bind_eq_some_iff.mp hw
    obtain ⟨tokens, rfl, hencoding⟩ := unflatten_iff.mp hread
    exact hnone w tokens hinput hencoding

/-- With faithful functions a call ends with what the reply carries. -/
theorem carries_of_answer {b : Builtins ν} {binding : Binding} {message : Json ν}
    (h : Faithful b binding message) :
    ∃ outcome, answer b binding message = some outcome ∧ Carries binding message outcome := by
  unfold Faithful at h
  unfold answer
  split at h
  · rename_i hok
    obtain ⟨hdecode, hreject⟩ := h
    rw [if_pos hok, hdecode]
    cases hvalue : (field "value" message).bind unflatten with
    | none =>
      have hown : (Builtins.own : Builtins ν).unflatten (field "value" message) = some none :=
        congrArg some hvalue
      rw [hown, Option.bind_some, hreject hown]
      exact ⟨_, rfl, .notLossless hok (not_encoding_iff.mp hvalue)⟩
    | some w =>
      have hown : (Builtins.own : Builtins ν).unflatten (field "value" message) =
          some (some w) := congrArg some hvalue
      obtain ⟨input, hinput, hread⟩ := Option.bind_eq_some_iff.mp hvalue
      obtain ⟨tokens, rfl, hencoding⟩ := unflatten_iff.mp hread
      rw [hown]
      exact ⟨_, rfl, .value hok hinput hencoding⟩
  · rename_i hok
    rw [if_neg hok, h]
    exact ⟨_, rfl, .failure (Bool.not_eq_true _ ▸ hok)⟩

/-- A call ends with what the reply carries only with faithful functions. -/
theorem faithful_of_carries {b : Builtins ν} {binding : Binding} {message : Json ν}
    {outcome : Outcome ν} (h : answer b binding message = some outcome)
    (hcarries : Carries binding message outcome) : Faithful b binding message := by
  unfold Faithful
  unfold answer at h
  cases hcarries with
  | @value w tokens hok hfield hvalue =>
    rw [if_pos hok] at h ⊢
    have hread : unflatten (.arr tokens) = some w := unflatten_arr_iff.mpr hvalue
    have hown : (Builtins.own : Builtins ν).unflatten (field "value" message) = some (some w) := by
      rw [hfield]
      exact congrArg some hread
    rw [hown]
    obtain ⟨value, hdecode, h⟩ := Option.bind_eq_some_iff.mp h
    cases value with
    | none =>
      obtain ⟨failure, -, hfailure⟩ := Option.map_eq_some_iff.mp h
      cases hfailure
    | some v =>
      cases h
      exact ⟨hdecode, nofun⟩
  | notLossless hok hnone =>
    rw [if_pos hok] at h ⊢
    have hown : (Builtins.own : Builtins ν).unflatten (field "value" message) = some none :=
      congrArg some (not_encoding_iff.mpr hnone)
    rw [hown]
    obtain ⟨value, hdecode, h⟩ := Option.bind_eq_some_iff.mp h
    cases value with
    | none =>
      obtain ⟨failure, hreject, hfailure⟩ := Option.map_eq_some_iff.mp h
      cases hfailure
      exact ⟨hdecode, fun _ => hreject⟩
    | some v => cases h
  | failure hok =>
    have hnot : ¬ isOk message = true := by rw [hok]; exact Bool.false_ne_true
    rw [if_neg hnot] at h ⊢
    obtain ⟨failure, hreject, hfailure⟩ := Option.map_eq_some_iff.mp h
    cases hfailure
    exact hreject

/-! ### Orderly states -/

/-- The id of the call at a place. -/
def idOf (calls : List Call) (place : ℕ) : Option ℕ := (calls[place]?).bind Call.id

/-- A settlement is of a call that was made, by a reply with the id of that call, and then with
what the reply carries, or as a rejection of a call whose frame was not sent. -/
def OwnAnswer (s : State ν) (r : Settlement ν) : Prop :=
  ∃ c, s.calls[r.call]? = some c ∧
    match r.cause with
    | .reply message =>
      isReply message = true ∧ (∃ id, c.id = some id ∧ replyId message = some id) ∧
        Carries c.binding message r.outcome
    | .unsent =>
      (∃ failure, r.outcome = .rejected failure) ∧ ∀ frame ∈ s.sent, c.id ≠ some frame.id

/-- No frame made the handler throw, the program was started once at most, and every call is
settled once at most and with its own answer. -/
structure Orderly (s : State ν) : Prop where
  threw : s.threw = false
  started : s.started ≤ 1
  once : (s.settled.map Settlement.call).Nodup
  own : ∀ r ∈ s.settled, OwnAnswer s r

/-- A frame is a reply, with the id of a call that waits for it. -/
structure Concerns (s : State ν) (text : Text) (message : Json ν) (id place : ℕ) (c : Call) :
    Prop where
  parsed : parse text = some message
  reply : isReply message = true
  identified : replyId message = some id
  waiting : s.waiting id = some place
  made : s.calls[place]? = some c

/-- When a reply arrives for a call that waits, the built-in functions that the handler looks up
still do with it what the language's own do. -/
def Intact (s : State ν) : Event ν → Prop
  | .frame text => ∀ message id place c, Concerns s text message id place c →
    Faithful s.builtins c.binding message
  | _ => True

/-! ### The table of replies -/

omit [JsNumber ν] in
/-- The id of an earlier call does not change. -/
theorem idOf_concat {calls : List Call} {place id : ℕ} (c : Call)
    (h : idOf calls place = some id) : idOf (calls ++ [c]) place = some id := by
  obtain ⟨old, hold, hid⟩ := Option.bind_eq_some_iff.mp h
  have hlt := (List.getElem?_eq_some_iff.mp hold).1
  rw [idOf, List.getElem?_append_left hlt]
  exact h

/-- The id of the last call is its own. -/
theorem idOf_length (calls : List Call) (c : Call) :
    idOf (calls ++ [c]) calls.length = c.id := by
  rw [idOf, List.getElem?_concat_length, Option.bind_some]

/-- A call with an id is an earlier one or the last. -/
theorem idOf_concat_cases {calls : List Call} {c : Call} {place id : ℕ}
    (h : idOf (calls ++ [c]) place = some id) :
    idOf calls place = some id ∨ place = calls.length ∧ c.id = some id := by
  rcases Nat.lt_trichotomy place calls.length with hlt | heq | hgt
  · rw [idOf, List.getElem?_append_left hlt] at h
    exact .inl h
  · subst heq
    rw [idOf_length] at h
    exact .inr ⟨rfl, h⟩
  · have hout : (calls ++ [c])[place]? = none := by
      rw [List.getElem?_eq_none_iff, List.length_append, List.length_singleton]
      omega
    rw [idOf, hout] at h
    cases h

/-- What holds in every state: besides what is asked for, the ids of the calls are different and
below the next one, frames were sent for calls only, and the keys of the table are the ids that
were sent and not answered. -/
structure Tracked (s : State ν) : Prop extends Orderly s where
  unresumed : s.resumed = false → s.started = 0
  idle : s.started = 0 → s.calls = [] ∧ s.replies = [] ∧ s.sent = [] ∧ s.settled = []
  distinct : ∀ p q id, idOf s.calls p = some id → idOf s.calls q = some id → p = q
  below : ∀ p id, idOf s.calls p = some id → id < s.nextId
  sentCalls : ∀ frame ∈ s.sent, ∃ p, idOf s.calls p = some frame.id
  waits : ∀ entry ∈ s.replies, idOf s.calls entry.2 = some entry.1
  keys : ∀ id, id ∈ s.replies.map Prod.fst ↔
    id ∈ s.sent.map CallFrame.id ∧ ∀ r ∈ s.settled, idOf s.calls r.call ≠ some id

/-- It holds at first. -/
theorem tracked_init : Tracked (machine ν).init where
  threw := rfl
  started := Nat.zero_le 1
  once := List.nodup_nil
  own := nofun
  unresumed _ := rfl
  idle _ := ⟨rfl, rfl, rfl, rfl⟩
  distinct _ _ _ := nofun
  below _ _ := nofun
  sentCalls := nofun
  waits := nofun
  keys id := by simp [machine]

/-! ### Replies -/

/-- The keys that stay when one is deleted. -/
theorem mem_keys_filter {replies : List (ℕ × ℕ)} {id k : ℕ} :
    k ∈ (replies.filter fun entry => entry.1 ≠ id).map Prod.fst ↔
      k ∈ replies.map Prod.fst ∧ k ≠ id := by
  simp only [List.mem_map, List.mem_filter, decide_eq_true_eq]
  constructor
  · rintro ⟨entry, ⟨hmem, hne⟩, rfl⟩
    exact ⟨⟨entry, hmem, rfl⟩, hne⟩
  · rintro ⟨⟨entry, hmem, rfl⟩, hne⟩
    exact ⟨entry, ⟨hmem, hne⟩, rfl⟩

omit [JsNumber ν] in
/-- What waits for an id is in the table. -/
theorem mem_of_waiting {id place : ℕ} (h : s.waiting id = some place) :
    (id, place) ∈ s.replies := by
  obtain ⟨entry, hfind, rfl⟩ := Option.map_eq_some_iff.mp h
  have hkey : entry.1 = id := by simpa using List.find?_some hfind
  subst hkey
  exact List.mem_of_find?_eq_some hfind

/-- A call that waits is not settled. -/
theorem Tracked.not_settled (h : Tracked s) {id place : ℕ} (hwaiting : s.waiting id = some place) :
    place ∉ s.settled.map Settlement.call := by
  have hmem := mem_of_waiting hwaiting
  have hid := h.waits _ hmem
  obtain ⟨-, hopen⟩ := (h.keys id).mp (List.mem_map_of_mem hmem)
  intro hsettled
  obtain ⟨r, hr, rfl⟩ := List.mem_map.mp hsettled
  exact hopen r hr hid

/-- A reply takes the entry of its call. -/
theorem Tracked.answered (h : Tracked s) {text : Text} {message : Json ν} {id place : ℕ} {c : Call}
    (hc : Concerns s text message id place c) {outcome : Outcome ν}
    (hcarries : Carries c.binding message outcome) :
    Tracked { s with
      replies := s.replies.filter fun entry => entry.1 ≠ id
      settled := s.settled ++ [⟨place, outcome, .reply message⟩] } := by
  have hid : idOf s.calls place = some id := h.waits _ (mem_of_waiting hc.waiting)
  have hnot := h.not_settled hc.waiting
  refine { h with once := ?_, own := ?_, idle := ?_, waits := ?_, keys := ?_ }
  · rw [List.map_append]
    exact nodup_concat h.once hnot
  · intro r hr
    rcases List.mem_append.mp hr with hr | hr
    · exact h.own r hr
    · obtain rfl := List.mem_singleton.mp hr
      have hcid : c.id = some id := by
        rw [idOf, hc.made] at hid
        exact hid
      exact ⟨c, hc.made, hc.reply, ⟨id, hcid, hc.identified⟩, hcarries⟩
  · intro hstarted
    have hempty := (h.idle hstarted).1
    rw [hempty] at hid
    cases hid
  · intro entry hentry
    exact h.waits entry (List.mem_filter.mp hentry).1
  · intro k
    rw [mem_keys_filter, h.keys k]
    constructor
    · rintro ⟨⟨hsent, hopen⟩, hne⟩
      refine ⟨hsent, fun r hr => ?_⟩
      rcases List.mem_append.mp hr with hr | hr
      · exact hopen r hr
      · obtain rfl := List.mem_singleton.mp hr
        intro hk
        exact hne (Option.some.inj (hk.symm.trans hid))
    · rintro ⟨hsent, hopen⟩
      refine ⟨⟨hsent, fun r hr => hopen r (List.mem_append_left _ hr)⟩, ?_⟩
      rintro rfl
      exact hopen _ (List.mem_append_right _ (List.mem_singleton.mpr rfl)) hid

/-! ### Calls -/

/-- No entry has the next id. -/
theorem Tracked.others (h : Tracked s) :
    (s.replies.filter fun entry => entry.1 ≠ s.nextId) = s.replies := by
  rw [List.filter_eq_self]
  intro entry hentry
  have hlt := h.below _ _ (h.waits entry hentry)
  exact decide_eq_true (Nat.ne_of_lt hlt)

section concat

variable {c : Call} (hnew : ∀ id, c.id = some id → id = s.nextId)
include hnew

/-- Ids stay different when a call is made. -/
theorem Tracked.distinct_concat (h : Tracked s) (p q id : ℕ)
    (hp : idOf (s.calls ++ [c]) p = some id) (hq : idOf (s.calls ++ [c]) q = some id) : p = q := by
  rcases idOf_concat_cases hp with hp | ⟨rfl, hpid⟩ <;>
    rcases idOf_concat_cases hq with hq | ⟨rfl, hqid⟩
  · exact h.distinct p q id hp hq
  · have hlt := h.below p id hp
    have heq := hnew id hqid
    omega
  · have hlt := h.below q id hq
    have heq := hnew id hpid
    omega
  · rfl

omit hnew in
/-- Ids stay below the next one when a call is made. -/
theorem Tracked.below_concat (h : Tracked s) {n : ℕ} (hle : s.nextId ≤ n)
    (hlt : ∀ id, c.id = some id → id < n) (p id : ℕ) (hp : idOf (s.calls ++ [c]) p = some id) :
    id < n := by
  rcases idOf_concat_cases hp with hp | ⟨-, hid⟩
  · exact Nat.lt_of_lt_of_le (h.below p id hp) hle
  · exact hlt id hid

omit hnew in
/-- Settlements stay what they are when a call is made. -/
theorem Tracked.own_concat (h : Tracked s) {r : Settlement ν} (hr : r ∈ s.settled)
    (hcalls : t.calls = s.calls ++ [c])
    (hsent : ∀ frame ∈ t.sent, frame ∈ s.sent ∨ frame.id = s.nextId) : OwnAnswer t r := by
  obtain ⟨old, hold, howns⟩ := h.own r hr
  have hlt := (List.getElem?_eq_some_iff.mp hold).1
  refine ⟨old, ?_, ?_⟩
  · rw [hcalls, List.getElem?_append_left hlt, hold]
  · cases hcause : r.cause with
    | reply message =>
      rw [hcause] at howns
      exact howns
    | unsent =>
      rw [hcause] at howns
      refine ⟨howns.1, fun frame hframe => ?_⟩
      rcases hsent frame hframe with hframe | hid
      · exact howns.2 frame hframe
      · intro hold'
        have hbelow := h.below r.call frame.id (by rw [idOf, hold]; exact hold')
        omega

omit hnew in
/-- Settlements are of calls that were made. -/
theorem Tracked.settled_lt (h : Tracked s) {r : Settlement ν} (hr : r ∈ s.settled) :
    r.call < s.calls.length := by
  obtain ⟨old, hold, -⟩ := h.own r hr
  exact (List.getElem?_eq_some_iff.mp hold).1

omit hnew in
/-- The id that a settlement is for does not change when a call is made. -/
theorem Tracked.idOf_settled (h : Tracked s) {r : Settlement ν} (hr : r ∈ s.settled) :
    idOf (s.calls ++ [c]) r.call = idOf s.calls r.call := by
  rw [idOf, List.getElem?_append_left (h.settled_lt hr), idOf]

omit hnew in
/-- The last call is not settled. -/
theorem Tracked.length_not_settled (h : Tracked s) :
    s.calls.length ∉ s.settled.map Settlement.call := by
  intro hmem
  obtain ⟨r, hr, heq⟩ := List.mem_map.mp hmem
  have hlt := h.settled_lt hr
  omega

/-- A call that could not be sent is settled at once. -/
theorem Tracked.unsent (h : Tracked s) (hstarted : s.started ≠ 0) {n : ℕ} (hle : s.nextId ≤ n)
    (hlt : ∀ id, c.id = some id → id < n) (failure : Failure) :
    Tracked { s with
      nextId := n
      calls := s.calls ++ [c]
      settled := s.settled ++ [⟨s.calls.length, .rejected failure, .unsent⟩] } := by
  have hfresh : ∀ frame ∈ s.sent, c.id ≠ some frame.id := by
    intro frame hframe hid
    obtain ⟨p, hp⟩ := h.sentCalls frame hframe
    have hbelow := h.below p frame.id hp
    have heq := hnew frame.id hid
    omega
  refine { h with
    once := ?_, own := ?_, idle := fun hzero => absurd hzero hstarted,
    distinct := h.distinct_concat hnew, below := h.below_concat hle hlt,
    sentCalls := ?_, waits := fun entry hentry => idOf_concat c (h.waits entry hentry),
    keys := ?_ }
  · rw [List.map_append]
    exact nodup_concat h.once h.length_not_settled
  · intro r hr
    rcases List.mem_append.mp hr with hr | hr
    · exact h.own_concat hr rfl fun frame hframe => .inl hframe
    · obtain rfl := List.mem_singleton.mp hr
      exact ⟨c, List.getElem?_concat_length, ⟨failure, rfl⟩, hfresh⟩
  · intro frame hframe
    obtain ⟨p, hp⟩ := h.sentCalls frame hframe
    exact ⟨p, idOf_concat c hp⟩
  · intro k
    rw [h.keys k]
    refine and_congr_right fun hsent => ?_
    obtain ⟨frame, hframe, rfl⟩ := List.mem_map.mp hsent
    constructor
    · intro hopen r hr
      rcases List.mem_append.mp hr with hr | hr
      · rw [h.idOf_settled hr]
        exact hopen r hr
      · obtain rfl := List.mem_singleton.mp hr
        rw [idOf_length]
        exact hfresh frame hframe
    · intro hopen r hr
      rw [← h.idOf_settled hr (c := c)]
      exact hopen r (List.mem_append_left _ hr)

end concat

/-- A call that was sent waits for its reply. -/
theorem Tracked.sent (h : Tracked s) (hstarted : s.started ≠ 0) (binding : Binding)
    (frame : CallFrame ν) (hframe : frame.id = s.nextId) :
    Tracked { s with
      nextId := s.nextId + 1
      calls := s.calls ++ [⟨binding, some s.nextId⟩]
      replies := (s.nextId, s.calls.length) :: s.replies
      sent := s.sent ++ [frame] } := by
  have hnew : ∀ id, (⟨binding, some s.nextId⟩ : Call).id = some id → id = s.nextId := by
    intro id hid
    exact (Option.some.inj hid).symm
  have hlast : idOf (s.calls ++ [⟨binding, some s.nextId⟩]) s.calls.length = some s.nextId :=
    idOf_length _ _
  refine { h with
    own := ?_, idle := fun hzero => absurd hzero hstarted,
    distinct := h.distinct_concat hnew, below := ?_, sentCalls := ?_, waits := ?_, keys := ?_ }
  · intro r hr
    refine h.own_concat hr rfl fun f hf => ?_
    rcases List.mem_append.mp hf with hf | hf
    · exact .inl hf
    · obtain rfl := List.mem_singleton.mp hf
      exact .inr hframe
  · refine h.below_concat (Nat.le_succ _) fun id hid => ?_
    rw [hnew id hid]
    exact Nat.lt_succ_self _
  · intro f hf
    rcases List.mem_append.mp hf with hf | hf
    · obtain ⟨p, hp⟩ := h.sentCalls f hf
      exact ⟨p, idOf_concat _ hp⟩
    · obtain rfl := List.mem_singleton.mp hf
      exact ⟨s.calls.length, hframe ▸ hlast⟩
  · intro entry hentry
    rcases List.mem_cons.mp hentry with rfl | hentry
    · exact hlast
    · exact idOf_concat _ (h.waits entry hentry)
  · intro k
    rw [List.map_cons, List.mem_cons, List.map_append, List.mem_append, h.keys k, List.map_singleton,
      List.mem_singleton, hframe]
    constructor
    · rintro (rfl | ⟨hsent, hopen⟩)
      · refine ⟨.inr rfl, fun r hr hid => ?_⟩
        rw [h.idOf_settled hr] at hid
        exact Nat.lt_irrefl _ (h.below _ _ hid)
      · refine ⟨.inl hsent, fun r hr => ?_⟩
        rw [h.idOf_settled hr]
        exact hopen r hr
    · rintro ⟨hsent | rfl, hopen⟩
      · refine .inr ⟨hsent, fun r hr => ?_⟩
        rw [← h.idOf_settled hr (c := ⟨binding, some s.nextId⟩)]
        exact hopen r hr
      · exact .inl rfl

/-! ### Steps -/

/-- What only the bootstrap's own variables or the built-in functions change by. -/
theorem Tracked.aside (h : Tracked s) (b : Bool) (a : Option (Option Text)) (f : Builtins ν) :
    Tracked { s with bootSettled := b, awaited := a, builtins := f } :=
  { h with }

/-- The boot frame's promise is the bootstrap's own. -/
theorem Tracked.settleBoot (h : Tracked s) (text : Option Text) : Tracked (settleBoot text s) := by
  unfold PtcBindings.settleBoot
  split
  · exact h
  · exact h.aside true (some text) s.builtins

/-- `main` goes on once, and the program is started there only. -/
theorem Tracked.resume (h : Tracked s) (hresumed : s.resumed = false) (awaited : Option Text) :
    Tracked (resume awaited s) := by
  have hzero := h.unresumed hresumed
  obtain ⟨hcalls, hreplies, hsent, hsettled⟩ := h.idle hzero
  unfold PtcBindings.resume
  split
  · exact { h with unresumed := nofun }
  · split
    · refine { h with
        started := by rw [hzero], unresumed := nofun, idle := fun _ => h.idle hzero, below := ?_ }
      intro p id hid
      rw [hcalls] at hid
      cases hid
    · exact { h with unresumed := nofun }

/-- A reply for a call that waits is handed to it. -/
theorem onFrame_of_concerns {text : Text} {message : Json ν} {id place : ℕ} {c : Call}
    (hc : Concerns s text message id place c) :
    onFrame text s = match answer s.builtins c.binding message with
      | none => { s with replies := s.replies.filter fun entry => entry.1 ≠ id, threw := true }
      | some outcome =>
        { s with
          replies := s.replies.filter fun entry => entry.1 ≠ id
          settled := s.settled ++ [⟨place, outcome, .reply message⟩] } := by
  cases hanswer : answer s.builtins c.binding message <;>
    simp only [onFrame, hc.parsed, hc.reply, if_true, deliverReply, hc.identified, hc.waiting,
      hc.made, Option.bind_some, Option.map_some, hanswer]

/-- Any other frame settles nothing but the boot frame's promise. -/
theorem Tracked.onFrame_aside (h : Tracked s) {text : Text}
    (hnone : ∀ message id place c, ¬ Concerns s text message id place c) :
    Tracked (onFrame text s) := by
  unfold onFrame
  split
  · exact h
  · rename_i message hparsed
    split
    · rename_i hreply
      unfold deliverReply
      split
      · exact h
      · rename_i id place hwaits
        obtain ⟨id', hid, hwaits⟩ := Option.bind_eq_some_iff.mp hwaits
        obtain ⟨place', hwaiting, heq⟩ := Option.map_eq_some_iff.mp hwaits
        obtain ⟨rfl, rfl⟩ := Prod.mk.inj heq
        obtain ⟨c, hmade, -⟩ := Option.bind_eq_some_iff.mp
          (h.waits _ (mem_of_waiting hwaiting))
        exact absurd ⟨hparsed, hreply, hid, hwaiting, hmade⟩ (hnone message id' place' c)
    · exact h.settleBoot _

/-- A call is sent, or settled at once. -/
theorem Tracked.call (h : Tracked s) (hstarted : s.started ≠ 0) (binding : Binding)
    (args : Option (List (Json ν))) (refused : Option Text) :
    Tracked (call binding args refused s) := by
  unfold PtcBindings.call
  split
  · exact h.unsent (c := ⟨binding, none⟩) nofun hstarted (Nat.le_refl _) nofun _
  · simp only [h.others]
    split
    · exact h.sent hstarted binding _ rfl
    · refine h.unsent (c := ⟨binding, some s.nextId⟩) ?_ hstarted (Nat.le_succ _) ?_ _
      · intro id hid
        exact (Option.some.inj hid).symm
      · intro id hid
        rw [← Option.some.inj hid]
        exact Nat.lt_succ_self _

/-- A step that meets the condition keeps what holds in every state. -/
theorem tracked_step {e : Event ν} (h : Tracked s) (hintact : Intact s e)
    (hstep : (machine ν).step s e = some t) : Tracked t := by
  obtain ⟨-, hstep⟩ := Option.ite_none_left_eq_some.mp hstep
  cases e with
  | frame text =>
    obtain rfl := Option.some.inj hstep
    by_cases hconcerns : ∃ message id place c, Concerns s text message id place c
    · obtain ⟨message, id, place, c, hc⟩ := hconcerns
      obtain ⟨outcome, hanswer, hcarries⟩ :=
        carries_of_answer (hintact message id place c hc)
      rw [onFrame_of_concerns hc, hanswer]
      exact h.answered hc hcarries
    · refine h.onFrame_aside fun message id place c hc => ?_
      exact hconcerns ⟨message, id, place, c, hc⟩
  | close =>
    obtain rfl := Option.some.inj hstep
    exact h.settleBoot none
  | resume =>
    simp only at hstep
    split at hstep
    · cases hstep
    · obtain ⟨hresumed, ht⟩ := Option.ite_none_left_eq_some.mp hstep
      obtain rfl := Option.some.inj ht
      exact h.resume (Bool.not_eq_true _ ▸ hresumed) _
  | call binding args refused =>
    obtain ⟨hstarted, ht⟩ := Option.ite_none_left_eq_some.mp hstep
    obtain rfl := Option.some.inj ht
    exact h.call hstarted binding args refused
  | replace builtins =>
    obtain ⟨-, ht⟩ := Option.ite_none_left_eq_some.mp hstep
    obtain rfl := Option.some.inj ht
    exact h.aside _ _ builtins

/-- A reply to a call that waits, behind functions that do something else with it, makes the
handler throw or gives the call something else. -/
theorem not_orderly_step {e : Event ν} (hintact : ¬ Intact s e)
    (hstep : (machine ν).step s e = some t) : ¬ Orderly t := by
  cases e with
  | frame text =>
    obtain ⟨-, hstep⟩ := Option.ite_none_left_eq_some.mp hstep
    obtain rfl := Option.some.inj hstep
    unfold Intact at hintact
    push Not at hintact
    obtain ⟨message, id, place, c, hc, hunfaithful⟩ := hintact
    intro horderly
    cases hanswer : answer s.builtins c.binding message with
    | none =>
      have hthrew := horderly.threw
      rw [onFrame_of_concerns hc, hanswer] at hthrew
      cases hthrew
    | some outcome =>
      have howns := horderly.own ⟨place, outcome, .reply message⟩ (by
        rw [onFrame_of_concerns hc, hanswer]
        exact List.mem_append_right _ (List.mem_singleton.mpr rfl))
      rw [onFrame_of_concerns hc, hanswer] at howns
      obtain ⟨c', hmade, -, -, hcarries⟩ := howns
      obtain rfl := Option.some.inj (hmade.symm.trans hc.made)
      exact hunfaithful (faithful_of_carries hanswer hcarries)
  | _ => exact absurd trivial hintact

/-! ### The claim over runs -/

/-- Every call is settled once at most and with its own answer, no frame makes the handler throw,
and the program is started once at most, exactly in the runs where the handler finds the built-in
functions intact for each reply to a call that waits. -/
theorem orderly_iff_intact (es : List (Event ν)) :
    (machine ν).Always Orderly (machine ν).init es ↔ (machine ν).Each Intact (machine ν).init es :=
  Machine.always_iff_each (fun _ h => h.toOrderly)
    (fun _ _ _ h hintact hstep => tracked_step h hintact hstep)
    (fun _ _ _ _ hintact hstep => not_orderly_step hintact hstep) tracked_init es

/-! ### A program without `Array` -/

/-- The built-in functions when `globalThis.Array` is `undefined`: decoding a value throws. -/
def withoutArray : Builtins WholeNumber :=
  { (Builtins.own : Builtins WholeNumber) with unflatten := fun _ => none }

/-- The program calls a binding and loses `Array` before the reply is there. -/
def severed : List (Event WholeNumber) :=
  [.frame (ascii "\x7b\"type\":\"boot\",\"data\":\x7b\x7d\x7d"), .resume,
    .call ⟨ascii "tools", ascii "read", none⟩ (some [.null]) none, .replace withoutArray,
    .frame (ascii "\x7b\"type\":\"reply\",\"id\":1,\"ok\":true,\"value\":[true]\x7d")]

/-- The reply makes the handler throw, and the call that was sent stays open. -/
theorem severed_throws : ((machine WholeNumber).run severed).map
    (fun s => (s.threw, s.sent.length, s.settled.length)) = some (true, 1, 0) := by
  decide +kernel

/-- So not every run is orderly. -/
theorem lost_reply :
    ¬ (machine WholeNumber).Always Orderly (machine WholeNumber).init severed := by
  intro h
  obtain ⟨t, ht, heq⟩ := Option.map_eq_some_iff.mp severed_throws
  have hthrew : t.threw = true := congrArg Prod.fst heq
  have horderly := h.after ht
  rw [horderly.threw] at hthrew
  cases hthrew

end RemoteWorkspace.Analysis.BindingSettlement
