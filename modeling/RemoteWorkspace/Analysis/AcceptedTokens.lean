import RemoteWorkspace.Analysis.AgentEndpoint
import RemoteWorkspace.Analysis.GitListing
import RemoteWorkspace.Computation.Fallible
import RemoteWorkspace.Model.NodeRequests

/-!
# Tokens that the management API accepts

A token is trimmed when a machine is created and not when it is changed, and the agent trims the
file it was written to by the rules of another language. The handshake succeeds exactly when what
is stored is a text that neither begins nor ends with white space of those rules.
-/

set_option autoImplicit false

namespace RemoteWorkspace.Analysis.AcceptedTokens

open RemoteWorkspace.Computation
open RemoteWorkspace.Model.EnsureAgent RemoteWorkspace.Model.NodeRequests
open RemoteWorkspace.Model.RepoRequests (ApiError)
open RemoteWorkspace.Model.Stores (NodeTransport)
open RemoteWorkspace.Analysis.AgentEndpoint RemoteWorkspace.Analysis.GitListing

/-- The agent that starts with the token accepts the handshake that the host makes with it. -/
def Works (token : JsString) : Prop :=
  ∃ expected presented, agentToken token = some expected ∧ presentedToken token = some presented ∧
    ∀ agent : Agent, agent.token = expected →
      handshake agent "node.hello" protocolVersion presented = .ok ()

/-- A token that survives the way to the agent: it is a text, with neither end white space. -/
def Survives (token : JsString) : Prop :=
  ∃ first rest, Utf16.decodeStrict token = some (first :: rest) ∧
    isWhitespace first = false ∧
    ∀ last, (first :: rest).getLast? = some last → isWhitespace last = false

/-- The token that a request asks to store: on creation without the white space around it, and on
a change the stored one when the body names none. -/
def asked : Request → JsString
  | .post body => trimUnits (body.token.getD [])
  | .patch _ found body => body.token.getD ((found.map NodeView.token).getD [])

/-! ### Trimming -/

/-- Trimming keeps a text exactly when it has no white space around it. -/
theorem trim_eq_iff (first : Char) (rest : List Char) :
    trim (String.ofList (first :: rest)) = String.ofList (first :: rest) ↔
      isWhitespace first = false ∧
        ∀ last, (first :: rest).getLast? = some last → isWhitespace last = false := by
  rw [← String.toList_inj, toList_trim, String.toList_ofList]
  constructor
  · intro h
    have hfront : (first :: rest).dropWhile isWhitespace = first :: rest := by
      have hback := (List.rdropWhile_prefix isWhitespace
        ((first :: rest).dropWhile isWhitespace)).length_le
      rw [h] at hback
      exact (List.dropWhile_suffix isWhitespace).eq_of_length_le hback
    rw [hfront, List.rdropWhile_eq_self_iff] at h
    constructor
    · rw [List.dropWhile_cons] at hfront
      by_contra hspace
      rw [if_pos (by simpa using hspace)] at hfront
      have hlength := (List.dropWhile_suffix isWhitespace (l := rest)).length_le
      rw [hfront, List.length_cons] at hlength
      omega
    · intro last hlast
      have hne := h (List.cons_ne_nil first rest)
      rw [List.getLast?_eq_some_getLast (List.cons_ne_nil first rest), Option.some.injEq] at hlast
      rw [← hlast]
      simpa using hne
  · rintro ⟨hfirst, hlast⟩
    rw [List.dropWhile_cons, if_neg (by simp [hfirst]), List.rdropWhile_eq_self_iff]
    intro hne
    rw [hlast _ (List.getLast?_eq_some_getLast hne)]
    exact Bool.false_ne_true

/-- The handshake is accepted for the agent's own token. -/
theorem handshake_iff (agent : Agent) (presented : String) :
    handshake agent "node.hello" protocolVersion presented = .ok () ↔ presented = agent.token :=
  ((acceptsExactly_iff agent agent.token).mpr rfl) presented

/-- A stored token works exactly when it survives the way to the agent. -/
theorem works_iff (token : JsString) : Works token ↔ Survives token := by
  unfold Works Survives agentToken presentedToken
  constructor
  · rintro ⟨expected, presented, hread, hsent, haccept⟩
    obtain ⟨text, htext, rfl⟩ := Option.map_eq_some_iff.mp hsent
    have hsame : String.ofList text = expected :=
      (handshake_iff ⟨0, 0, "", expected, 0⟩ _).mp (haccept _ rfl)
    rw [tokenFile, Utf16.decode_of_strict htext, readToken] at hread
    split at hread
    · cases hread
    · rename_i hne
      rw [Option.some.injEq, ← hsame] at hread
      cases text with
      | nil => exact absurd rfl hne
      | cons first rest => exact ⟨first, rest, htext, (trim_eq_iff first rest).mp hread⟩
  · rintro ⟨first, rest, htext, hends⟩
    have htrim := (trim_eq_iff first rest).mpr hends
    refine ⟨_, _, ?_, by rw [htext]; rfl, fun agent htoken => (handshake_iff agent _).mpr htoken.symm⟩
    rw [tokenFile, Utf16.decode_of_strict htext, readToken, htrim, if_neg]
    rw [← String.toList_inj, String.toList_ofList]
    exact List.cons_ne_nil first rest

/-! ### Requests -/

/-- What an accepted request stores is the token it asks for. -/
theorem accepted_token {request : Request} {draft : Draft} (h : accept request = .ok draft) :
    draft.token = asked request := by
  cases request with
  | post body =>
    obtain ⟨transport, -, h⟩ := bind_eq_ok_iff.mp h
    obtain ⟨token, htoken, h⟩ := bind_eq_ok_iff.mp h
    obtain rfl := Except.ok.inj h
    cases hbody : body.token with
    | none =>
      rw [hbody] at htoken
      cases htoken
    | some given =>
      simp only [hbody, requireString, Option.map_some] at htoken
      split at htoken
      · cases htoken
      · rw [asked, hbody]
        exact (Except.ok.inj htoken).symm
  | patch nodeId found body =>
    cases found with
    | none => cases h
    | some record =>
      simp only [accept, patchNode] at h
      split at h
      · cases h
      · obtain ⟨transport, -, h⟩ := bind_eq_ok_iff.mp h
        obtain rfl := Except.ok.inj h
        rfl

/-- The token that an accepted request stores works exactly when it is a text, after the white
space around it was taken away on creation, that is not empty and neither begins nor ends with
what the agent takes for white space. -/
theorem accepted_tokens_work (request : Request) (draft : Draft)
    (h : accept request = .ok draft) : Works draft.token ↔ Survives (asked request) := by
  rw [accepted_token h]
  exact works_iff _

/-- A machine that is reached over SSH. -/
def box : NodeView := ⟨"n1", "box", .ssh "box" none none, [0x73]⟩

/-- A token that was given with white space around it when the machine was created. -/
theorem trimmed_token_works : Works [0x73] := by
  refine (accepted_tokens_work
    (.post ⟨none, .object ⟨some "box", .absent, none⟩, some [0x20, 0x73, 0x0A]⟩)
    ⟨none, none, .ssh "box" none none, [0x73]⟩ (by decide +kernel)).mpr ?_
  exact ⟨'s', [], by decide, by decide, fun last hlast => by cases hlast; decide⟩

/-- A token that was given with a line break behind it when the machine was changed is stored with
it, and the agent has it without. -/
theorem untrimmed_token : ¬ ∀ (request : Request) (draft : Draft), accept request = .ok draft →
    Works draft.token := by
  intro h
  have hworks := h (.patch "n1" (some box) ⟨none, .absent, some [0x73, 0x0A]⟩)
    ⟨some "n1", some "box", .ssh "box" none none, [0x73, 0x0A]⟩ (by decide +kernel)
  obtain ⟨first, rest, htext, -, hlast⟩ := (works_iff _).mp hworks
  have hsome : Utf16.decodeStrict [0x73, 0x0A] = some ['s', '\n'] := by decide
  rw [hsome, Option.some.injEq] at htext
  rw [← htext] at hlast
  exact absurd (hlast '\n' rfl) (by decide)

end RemoteWorkspace.Analysis.AcceptedTokens
