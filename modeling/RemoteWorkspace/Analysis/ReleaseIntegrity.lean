import RemoteWorkspace.Computation.Fallible
import RemoteWorkspace.Model.Release

/-!
# Whose digest a download is checked against

The bytes that are returned and cached on a cold cache come from an archive whose digest was
listed for it, in the sums file that was downloaded. That is the published one when the
release's own address answered; a mirror that answers for both files is checked against
itself.
-/

set_option autoImplicit false

namespace RemoteWorkspace.Analysis.ReleaseIntegrity

open RemoteWorkspace.Computation RemoteWorkspace.Model.Release

variable (sha256 : Bytes → List Char) (gunzip : Bytes → Option Bytes)

/-- The network a release is downloaded over: what each address answers, and the sums file
of the release, which its own address answers with when it answers at all. -/
structure Network (version : String) where
  fetch : AgentFetcher
  published : Bytes
  honest : ∀ sums, fetch (agentSumsUrl version) = some sums → sums = published

/-- The digest a sums file lists for the archive of some options. -/
def listed (options : AgentBinaryOptions) (sums : Bytes) : Except Failure (List Char) :=
  expectedChecksum (Utf8.decode sums) (archiveName options.assetName)
    (agentSumsUrl options.version)

/-- The member of an archive that some options name. -/
def memberOf (steps : ℕ) (options : AgentBinaryOptions) (archive : Bytes) :
    Except Failure Bytes :=
  archiveMember gunzip steps archive (agentArchiveUrl options.version options.assetName)
    (options.member.getD agentMember)

/-- The archive that is downloaded for some options. -/
def fetchedArchive (options : AgentBinaryOptions) (fetcher : AgentFetcher) :
    Except Failure Bytes :=
  download fetcher (agentArchiveUrl options.version options.assetName)

/-- What a run on a cold cache returns is cached, and it is the named member of the archive
that was downloaded, whose digest the published sums list for it; so it is the member of the
published archive, when no other archive has that one's digest. -/
def Integrity (steps : ℕ) (cache : Cache) (options : AgentBinaryOptions)
    (net : Network options.version) : Prop :=
  cache.files (cached options) = none → ∀ bytes cache',
    resolveAgentBinary sha256 gunzip net.fetch steps cache options = .ok (bytes, cache') →
      cache'.files (cached options) = some bytes ∧
      (∃ archive, fetchedArchive options net.fetch = .ok archive ∧
        listed options net.published = .ok (sha256 archive) ∧
        memberOf gunzip steps options archive = .ok bytes) ∧
      ∀ genuine, listed options net.published = .ok (sha256 genuine) →
        (∀ other, sha256 other = sha256 genuine → other = genuine) →
        memberOf gunzip steps options genuine = .ok bytes

/-- Where the sums come from a mirror, for an archive that they list and that holds the
member, they list the published digest for it. -/
def Vouched (steps : ℕ) (cache : Cache) (options : AgentBinaryOptions)
    (net : Network options.version) : Prop :=
  cache.files (cached options) = none → cache.readFails = false → cache.writeFails = false →
    net.fetch (agentSumsUrl options.version) = none →
    ∀ sums archive bytes,
      (downloadMirrors.map (· ++ agentSumsUrl options.version)).findSome? net.fetch = some sums →
      fetchedArchive options net.fetch = .ok archive →
      listed options sums = .ok (sha256 archive) →
      memberOf gunzip steps options archive = .ok bytes →
      listed options net.published = .ok (sha256 archive)

variable {sha256 gunzip}

/-- A file is downloaded from its own address, or from a mirror when that fails. -/
theorem download_ok_iff {fetcher : AgentFetcher} {url : String} {bytes : Bytes} :
    download fetcher url = .ok bytes ↔
      fetcher url = some bytes ∨
        fetcher url = none ∧ (downloadMirrors.map (· ++ url)).findSome? fetcher = some bytes := by
  simp only [download, List.findSome?_cons]
  cases hown : fetcher url with
  | some own => simp
  | none =>
    cases (downloadMirrors.map (· ++ url)).findSome? fetcher with
    | some found => simp
    | none => simp

/-- What a binary is checked against before it is unpacked. -/
theorem fetchBinary_ok_iff {fetcher : AgentFetcher} {steps : ℕ} {options : AgentBinaryOptions}
    {bytes : Bytes} :
    fetchBinary sha256 gunzip fetcher steps options = .ok bytes ↔
      ∃ archive sums, fetchedArchive options fetcher = .ok archive ∧
        download fetcher (agentSumsUrl options.version) = .ok sums ∧
        listed options sums = .ok (sha256 archive) ∧
        memberOf gunzip steps options archive = .ok bytes := by
  unfold fetchBinary
  constructor
  · intro h
    obtain ⟨archive, harchive, h⟩ := bind_eq_ok_iff.mp h
    obtain ⟨sums, hsums, h⟩ := bind_eq_ok_iff.mp h
    obtain ⟨digest, hdigest, h⟩ := bind_eq_ok_iff.mp h
    split at h
    · cases h
    · rename_i heq
      rw [not_not] at heq
      exact ⟨archive, sums, harchive, hsums, heq ▸ hdigest, h⟩
  · rintro ⟨archive, sums, harchive, hsums, hdigest, hmember⟩
    unfold fetchedArchive at harchive
    unfold listed at hdigest
    simp only [harchive, hsums, hdigest, bind, Except.bind, ne_eq, not_true_eq_false, if_false]
    exact hmember

/-- A run on a cold cache that returns something downloaded it and cached it. -/
theorem resolve_ok_iff {fetcher : AgentFetcher} {steps : ℕ} {cache cache' : Cache}
    {options : AgentBinaryOptions} {bytes : Bytes} (hcold : cache.files (cached options) = none) :
    resolveAgentBinary sha256 gunzip fetcher steps cache options = .ok (bytes, cache') ↔
      cache.readFails = false ∧ cache.writeFails = false ∧
      fetchBinary sha256 gunzip fetcher steps options = .ok bytes ∧
      cache' = { cache with files := Function.update cache.files (cached options) (some bytes) } := by
  unfold resolveAgentBinary
  rw [hcold]
  constructor
  · intro h
    split at h
    · cases h
    · rename_i hread
      obtain ⟨binary, hbinary, h⟩ := bind_eq_ok_iff.mp h
      split at h
      · cases h
      · rename_i hwrite
        cases h
        exact ⟨by simpa using hread, by simpa using hwrite, hbinary, rfl⟩
  · rintro ⟨hread, hwrite, hbinary, rfl⟩
    simp [hread, hwrite, hbinary, bind, Except.bind]

/-- Integrity holds exactly when a mirror's sums, where they are used and the archive passes,
list the published digest for it. -/
theorem integrity_iff (sha256 : Bytes → List Char) (gunzip : Bytes → Option Bytes) (steps : ℕ)
    (cache : Cache) (options : AgentBinaryOptions) (net : Network options.version) :
    Integrity sha256 gunzip steps cache options net ↔
      Vouched sha256 gunzip steps cache options net := by
  constructor
  · intro h hcold hread hwrite hown sums archive bytes hmirror harchive hlisted hmember
    have hsums : download net.fetch (agentSumsUrl options.version) = .ok sums :=
      download_ok_iff.mpr (.inr ⟨hown, hmirror⟩)
    obtain ⟨-, ⟨found, hfound, hpublished, -⟩, -⟩ := h hcold bytes _ ((resolve_ok_iff hcold).mpr
      ⟨hread, hwrite, fetchBinary_ok_iff.mpr ⟨archive, sums, harchive, hsums, hlisted, hmember⟩,
        rfl⟩)
    obtain rfl : archive = found := by
      rw [harchive] at hfound
      exact Except.ok.inj hfound
    exact hpublished
  · intro h hcold bytes cache' hok
    obtain ⟨hread, hwrite, hbinary, rfl⟩ := (resolve_ok_iff hcold).mp hok
    obtain ⟨archive, sums, harchive, hsums, hlisted, hmember⟩ := fetchBinary_ok_iff.mp hbinary
    have hpublished : listed options net.published = .ok (sha256 archive) := by
      rcases download_ok_iff.mp hsums with hown | ⟨hown, hmirror⟩
      · rw [← net.honest sums hown]
        exact hlisted
      · exact h hcold hread hwrite hown sums archive bytes hmirror harchive hlisted hmember
    refine ⟨by simp, ⟨archive, harchive, hpublished, hmember⟩, ?_⟩
    intro genuine hgenuine hunique
    have hsame : sha256 archive = sha256 genuine := by
      rw [hpublished] at hgenuine
      exact Except.ok.inj hgenuine
    rw [← hunique archive hsame]
    exact hmember

/-! ### A mirror that substitutes -/

/-- The agent of a Linux machine, on a host that never downloaded one. -/
def linuxAgent : AgentBinaryOptions :=
  ⟨"0.0.7", "dsh-remote-agent-linux-x86_64", none, "/cache"⟩

def coldCache : Cache := ⟨fun _ => none, false, false⟩

/-- A tar with three bytes under the agent's name. -/
def substituteTar : Bytes :=
  agentMember.toUTF8.toList ++ List.replicate 108 0 ++ [51] ++ List.replicate 31 0 ++ [48] ++
    List.replicate 355 0 ++ "mal".toUTF8.toList ++ List.replicate 509 0

/-- The same, compressed. -/
def substitute : Bytes :=
  [31, 139, 8, 0, 0, 0, 0, 0, 2, 3, 75, 41, 206, 208, 45, 74, 205, 205, 47, 73, 213, 77, 76, 79,
    205, 43, 97, 160, 35, 48, 38, 32, 111, 192, 48, 10, 104, 13, 114, 19, 115, 70, 3, 97, 4, 3,
    0, 220, 125, 141, 88, 0, 4, 0, 0]

/-- Its digest. -/
def substituteDigest : String :=
  "6d65f66c7a45f6c808ee6f6766bfd938d209c4172f6c93dc3255bbf4e869d707"

/-- The digest the release lists. -/
def publishedDigest : String :=
  "dfec22473777f0ddaea98d74045c22ae9029a8e3b75aa8fcce941aa29e5b073b"

/-- A sums file with one line, for the Linux agent. -/
def sumsOf (digest : String) : Bytes :=
  (digest ++ "  dsh-remote-agent-linux-x86_64.tar.gz\n").toUTF8.toList

/-- The digest of the substitute; the digests of other archives do not matter. -/
def sampleSha256 (archive : Bytes) : List Char :=
  if archive = substitute then substituteDigest.toList else []

/-- What the substitute unpacks to. -/
def sampleGunzip (archive : Bytes) : Option Bytes :=
  if archive = substitute then some substituteTar else none

/-- The release's own addresses do not answer, and the first mirror serves the substitute and
sums that list it. -/
def captured : Network "0.0.7" where
  fetch url :=
    if url = "https://ghfast.top/" ++ agentArchiveUrl "0.0.7" "dsh-remote-agent-linux-x86_64" then
      some substitute
    else if url = "https://ghfast.top/" ++ agentSumsUrl "0.0.7" then
      some (sumsOf substituteDigest)
    else none
  published := sumsOf publishedDigest
  honest sums h := by
    rw [if_neg (by decide +kernel), if_neg (by decide +kernel)] at h
    cases h

/-- The substitute's bytes are returned and cached. -/
theorem mirror_substitutes :
    fetchBinary sampleSha256 sampleGunzip captured.fetch 8 linuxAgent =
      .ok "mal".toUTF8.toList ∧
    ¬ Integrity sampleSha256 sampleGunzip 8 coldCache linuxAgent captured := by
  have hbinary : fetchBinary sampleSha256 sampleGunzip captured.fetch 8 linuxAgent =
      .ok "mal".toUTF8.toList := by decide +kernel
  refine ⟨hbinary, ?_⟩
  intro h
  obtain ⟨-, ⟨archive, harchive, hlisted, -⟩, -⟩ :=
    h rfl _ _ ((resolve_ok_iff rfl).mpr ⟨rfl, rfl, hbinary, rfl⟩)
  have hpublished : listed linuxAgent captured.published = .ok publishedDigest.toList := by
    decide +kernel
  have hfetched : fetchedArchive linuxAgent captured.fetch = .ok substitute := by
    decide +kernel
  rw [hfetched] at harchive
  obtain rfl := Except.ok.inj harchive
  rw [hpublished] at hlisted
  exact absurd (Except.ok.inj hlisted) (by decide +kernel)

end RemoteWorkspace.Analysis.ReleaseIntegrity
