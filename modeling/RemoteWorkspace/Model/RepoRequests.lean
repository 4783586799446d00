import RemoteWorkspace.Model.Stores

/-!
# Requests on the repository store

The pieces of the management API and of the worktree manager that look a repository up and
store it: `POST /repos` after the machine has answered what is at the path,
`DELETE /repos/:id` and `DELETE /nodes/:id` (plugin/api.ts), and `registerRepoIfUnknown`
(models/worktrees.ts). There is no wait between the lookup and the list that the store computes.
-/

set_option autoImplicit false

namespace RemoteWorkspace.Model.RepoRequests

open RemoteWorkspace.Computation RemoteWorkspace.Computation.WriteBack
open RemoteWorkspace.Model.Stores

/-- `ApiError`. -/
structure ApiError where
  status : ℕ
  message : String
  deriving DecidableEq

/-- `find` of the repository store. -/
def find (repos : List RepoRecord) (nodeId repoPath : String) : Option RepoRecord :=
  repos.find? fun repo => decide (repo.nodeId = nodeId ∧ repo.repoPath = repoPath)

/-- What `POST /repos` refuses, given what the machine has at the path. -/
def refusalOf (repoPath : String) : Option String → Option ApiError
  | none => some ⟨400, "\"" ++ repoPath ++ "\" does not exist on that machine"⟩
  | some target =>
    if target = "directory" then none
    else some ⟨400, "\"" ++ repoPath ++ "\" is a " ++ target ++ " on that machine, not a directory"⟩

/-- The draft of `POST /repos`. -/
def postDraft (repos : List RepoRecord) (nodeId repoPath : String) (name : Option String) :
    RepoDraft where
  repoId := (find repos nodeId repoPath).map RepoRecord.repoId
  nodeId := nodeId
  repoPath := repoPath
  name := (name.map trim).filter fun name => decide (name ≠ "")

/-- The status that `POST /repos` answers with once the record is stored. -/
def postStatus (repos : List RepoRecord) (nodeId repoPath : String) : ℕ :=
  if find repos nodeId repoPath = none then 201 else 200

/-- A request, with what the machine answered for it and with the id and the instant that a new
record gets. -/
inductive Request where
  | post (nodeId repoPath : String) (target name : Option String) (generated stamp : String)
  | registerRepoIfUnknown (nodeId repoPath generated stamp : String)
  | delete (repoId : String)
  | deleteNode (nodeId : String)
  deriving DecidableEq

/-- The call on the store that a request makes, if it makes one. -/
def callOf (repos : List RepoRecord) : Request → Option RepoCall
  | .post nodeId repoPath target name generated stamp =>
    if refusalOf repoPath target = none then
      some (.upsert (postDraft repos nodeId repoPath name) generated stamp)
    else none
  | .registerRepoIfUnknown nodeId repoPath generated stamp =>
    if find repos nodeId repoPath = none then
      some (.upsert ⟨none, nodeId, repoPath, none⟩ generated stamp)
    else none
  | .delete repoId => some (.remove repoId)
  | .deleteNode nodeId => some (.removeByNode nodeId)

/-- One uninterrupted piece of a request. -/
def step (s : State RepoCall (List RepoRecord)) :
    Event Request → Option (State RepoCall (List RepoRecord))
  | .begin request =>
    match callOf s.memory request with
    | none => some s
    | some call => WriteBack.step repoEffect s (.begin call)
  | .written k => WriteBack.step repoEffect s (.written k)
  | .failed k => WriteBack.step repoEffect s (.failed k)
  | .assigned k => WriteBack.step repoEffect s (.assigned k)

/-- Requests over a document with these records. -/
def requests (repos : List RepoRecord) :
    Machine (State RepoCall (List RepoRecord)) (Event Request) :=
  ⟨⟨repos, repos, []⟩, step⟩

/-- What `randomUUID` gives: an id that no record has. -/
def FreshId (s : State RepoCall (List RepoRecord)) : Event Request → Prop
  | .begin (.post _ _ _ _ generated _) => ∀ repo ∈ s.memory, repo.repoId ≠ generated
  | .begin (.registerRepoIfUnknown _ _ generated _) => ∀ repo ∈ s.memory, repo.repoId ≠ generated
  | _ => True

instance (s : State RepoCall (List RepoRecord)) (e : Event Request) : Decidable (FreshId s e) := by
  rcases e with (_ | _ | _ | _) | _ | _ | _ <;> unfold FreshId <;> infer_instance

end RemoteWorkspace.Model.RepoRequests
