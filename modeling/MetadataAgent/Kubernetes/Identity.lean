import MetadataAgent.Kubernetes.Query
import MetadataAgent.Lib.Memo
import Mathlib.Data.List.Induction

/-! # The token, the namespace and the node

Three members of the reader are filled when they are first needed: the token and the namespace from
the files of the service account, and the node from the option or from what the master says about
the pod that the agent runs in. To ask for the node takes the other two. The files and the master
may say something else from call to call. -/
namespace MetadataAgent.KubernetesReader
open Lib Json
set_option autoImplicit false

/-! ## The members -/

structure Identity where
  kubernetesApiToken : Bytes
  kubernetesNamespace : Bytes
  currentNode : Bytes

def Identity.init : Identity := ⟨[], [], []⟩

/-- What a call finds outside: the files, the name of the host, and the master, which answers by
the token and the path. -/
structure Surroundings where
  file : Bytes → Option Bytes
  hostName : Bytes
  master : Bytes → Bytes → Response

inductive Access where
  | opened (filename : Bytes)
  | queried (token path : Bytes)
  deriving DecidableEq

/-- What a call returns and what it did for it. -/
structure Told where
  value : Bytes
  accesses : List Access
  deriving DecidableEq

def secretPath (secret : Bytes) : Bytes :=
  lit "/var/run/secrets/kubernetes.io/serviceaccount" ++ lit "/" ++ secret

/-- `std::getline`, of which an empty file makes a failure. -/
def firstLine (contents : Bytes) : Bytes := contents.takeWhile fun c => decide (c ≠ 0x0a)

/-- The destination afterwards, and whether it was read. -/
def readServiceAccountSecret (around : Surroundings) (secret destination : Bytes) : Bytes × Bool :=
  match around.file (secretPath secret) with
  | none => (destination, false)
  | some contents => (firstLine contents, !contents.isEmpty)

section Getters
variable (config : Configuration) (kubernetesNodeName : Bytes)
variable (around : Surroundings) (identity : Identity)

def kubernetesApiToken : Identity × Told :=
  if identity.kubernetesApiToken.isEmpty then
    let read := readServiceAccountSecret around (lit "token") identity.kubernetesApiToken
    ({ identity with kubernetesApiToken := read.1 },
      ⟨read.1, [.opened (secretPath (lit "token"))]⟩)
  else (identity, ⟨identity.kubernetesApiToken, []⟩)

def kubernetesNamespace : Identity × Told :=
  if identity.kubernetesNamespace.isEmpty then
    let read := readServiceAccountSecret around (lit "namespace") identity.kubernetesNamespace
    ({ identity with kubernetesNamespace := read.1 },
      ⟨read.1, [.opened (secretPath (lit "namespace"))]⟩)
  else (identity, ⟨identity.kubernetesNamespace, []⟩)

def podPath (ns podName : Bytes) : Bytes :=
  kubernetesEndpointPath ++ lit "/namespaces/" ++ ns ++ lit "/pods/" ++ podName

def nodeOfPod (podResponse : Value) : Except Exception Bytes := do
  let pod ← asObject podResponse
  let spec ← getObject pod (lit "spec")
  getString spec (lit "nodeName")

/-- The node of the pod, if the master can be asked and its answer has one. -/
def nodeAsked (token ns : Bytes) : Bytes :=
  match (queryMaster config (fun _ => around.master token) (podPath ns around.hostName)
    noQueries).1 with
  | .error _ => []
  | .ok podResponse => (nodeOfPod podResponse).toOption.getD []

def currentNode : Identity × Told :=
  if identity.currentNode.isEmpty then
    if kubernetesNodeName.isEmpty then
      let named := kubernetesNamespace around identity
      let signed := kubernetesApiToken around named.1
      let node := nodeAsked config around signed.2.value named.2.value
      ({ signed.1 with currentNode := node }, ⟨node, named.2.accesses ++ signed.2.accesses ++
        [.queried signed.2.value (podPath named.2.value around.hostName)]⟩)
    else ({ identity with currentNode := kubernetesNodeName }, ⟨kubernetesNodeName, []⟩)
  else (identity, ⟨identity.currentNode, []⟩)

end Getters

inductive IdentityGetter where
  | kubernetesApiToken
  | kubernetesNamespace
  | currentNode
  deriving DecidableEq

def IdentityGetter.member : IdentityGetter → Identity → Bytes
  | .kubernetesApiToken => Identity.kubernetesApiToken
  | .kubernetesNamespace => Identity.kubernetesNamespace
  | .currentNode => Identity.currentNode

section Runs
variable (config : Configuration) (kubernetesNodeName : Bytes)

/-- A call of a getter, with what it finds outside. -/
def tell (identity : Identity) (call : IdentityGetter × Surroundings) : Identity × Told :=
  match call.1 with
  | .kubernetesApiToken => kubernetesApiToken call.2 identity
  | .kubernetesNamespace => kubernetesNamespace call.2 identity
  | .currentNode => currentNode config kubernetesNodeName call.2 identity

/-! ## What a call does -/

/-- A member that has something stays. -/
def Kept (before after : Identity) : Prop :=
  ∀ getter : IdentityGetter, getter.member before ≠ [] →
    getter.member after = getter.member before

theorem Kept.trans {a b c : Identity} (h : Kept a b) (h' : Kept b c) : Kept a c := by
  intro getter hsome
  have hb := h getter hsome
  rw [h' getter (by rw [hb]; exact hsome), hb]

theorem kept_set (own : IdentityGetter) {identity : Identity} (hempty : own.member identity = [])
    {after : Identity} (hothers : ∀ getter, getter ≠ own →
      IdentityGetter.member getter after = getter.member identity) : Kept identity after := by
  intro getter hsome
  refine hothers getter ?_
  rintro rfl
  exact hsome hempty

/-- A call returns the member that it fills, keeps the others that have something, and does nothing
if its own has. -/
structure Fills (own : IdentityGetter) (identity : Identity) (result : Identity × Told) : Prop where
  hit : own.member identity ≠ [] → result = (identity, ⟨own.member identity, []⟩)
  value : result.2.value = own.member result.1
  kept : Kept identity result.1

theorem kubernetesApiToken_fills (around : Surroundings) (identity : Identity) :
    Fills .kubernetesApiToken identity (kubernetesApiToken around identity) := by
  by_cases hempty : identity.kubernetesApiToken = []
  · rw [kubernetesApiToken, if_pos (List.isEmpty_iff.mpr hempty)]
    refine ⟨fun h => absurd hempty h, rfl, kept_set .kubernetesApiToken hempty ?_⟩
    intro getter hgetter
    cases getter <;> first | rfl | exact absurd rfl hgetter
  · rw [kubernetesApiToken, if_neg (by simpa using hempty)]
    exact ⟨fun _ => rfl, rfl, fun _ _ => rfl⟩

theorem kubernetesNamespace_fills (around : Surroundings) (identity : Identity) :
    Fills .kubernetesNamespace identity (kubernetesNamespace around identity) := by
  by_cases hempty : identity.kubernetesNamespace = []
  · rw [kubernetesNamespace, if_pos (List.isEmpty_iff.mpr hempty)]
    refine ⟨fun h => absurd hempty h, rfl, kept_set .kubernetesNamespace hempty ?_⟩
    intro getter hgetter
    cases getter <;> first | rfl | exact absurd rfl hgetter
  · rw [kubernetesNamespace, if_neg (by simpa using hempty)]
    exact ⟨fun _ => rfl, rfl, fun _ _ => rfl⟩

theorem currentNode_fills (around : Surroundings) (identity : Identity) :
    Fills .currentNode identity (currentNode config kubernetesNodeName around identity) := by
  by_cases hempty : identity.currentNode = []
  · rw [currentNode, if_pos (List.isEmpty_iff.mpr hempty)]
    have hset : ∀ (after : Identity) (node : Bytes), Kept identity after →
        Kept identity { after with currentNode := node } := by
      intro after node hkept getter hsome
      cases getter with
      | kubernetesApiToken => exact hkept .kubernetesApiToken hsome
      | kubernetesNamespace => exact hkept .kubernetesNamespace hsome
      | currentNode => exact absurd hempty hsome
    split
    · refine ⟨fun h => absurd hempty h, rfl, hset _ _ ?_⟩
      exact (kubernetesNamespace_fills around identity).kept.trans
        (kubernetesApiToken_fills around _).kept
    · exact ⟨fun h => absurd hempty h, rfl, hset identity _ fun _ _ => rfl⟩
  · rw [currentNode, if_neg (by simpa using hempty)]
    exact ⟨fun _ => rfl, rfl, fun _ _ => rfl⟩

theorem tell_fills (identity : Identity) (call : IdentityGetter × Surroundings) :
    Fills call.1 identity (tell config kubernetesNodeName identity call) := by
  obtain ⟨getter, around⟩ := call
  cases getter with
  | kubernetesApiToken => exact kubernetesApiToken_fills around identity
  | kubernetesNamespace => exact kubernetesNamespace_fills around identity
  | currentNode => exact currentNode_fills config kubernetesNodeName around identity

/-! ## Where it comes from -/

/-- Nothing, or the first line of a file that one of the calls found. -/
def FromFile (secret : Bytes) (calls : List (IdentityGetter × Surroundings)) (value : Bytes) :
    Prop :=
  value = [] ∨ ∃ call ∈ calls, ∃ contents,
    call.2.file (secretPath secret) = some contents ∧ value = firstLine contents

/-- Nothing, the option, or what the master said about the pod, which was asked for with what is
kept of the token and the namespace, or without them. -/
def FromMaster (calls : List (IdentityGetter × Surroundings)) (identity : Identity) : Prop :=
  identity.currentNode = [] ∨ identity.currentNode = kubernetesNodeName ∨
    ∃ call ∈ calls, ∃ token ns, identity.currentNode = nodeAsked config call.2 token ns ∧
      (token = [] ∨ token = identity.kubernetesApiToken) ∧
      (ns = [] ∨ ns = identity.kubernetesNamespace)

structure Sourced (calls : List (IdentityGetter × Surroundings)) (identity : Identity) : Prop where
  token : FromFile (lit "token") calls identity.kubernetesApiToken
  ns : FromFile (lit "namespace") calls identity.kubernetesNamespace
  node : FromMaster config kubernetesNodeName calls identity

variable {config kubernetesNodeName}

theorem FromFile.append {secret value : Bytes} {calls : List (IdentityGetter × Surroundings)}
    (h : FromFile secret calls value) (call : IdentityGetter × Surroundings) :
    FromFile secret (calls ++ [call]) value := by
  rcases h with h | ⟨found, hfound, hfile⟩
  · exact .inl h
  · exact .inr ⟨found, List.mem_append_left _ hfound, hfile⟩

theorem fromFile_read {secret destination : Bytes} {calls : List (IdentityGetter × Surroundings)}
    {call : IdentityGetter × Surroundings} (hcall : call ∈ calls) (hempty : destination = []) :
    FromFile secret calls (readServiceAccountSecret call.2 secret destination).1 := by
  rw [readServiceAccountSecret]
  cases hfile : call.2.file (secretPath secret) with
  | none => exact .inl hempty
  | some contents => exact .inr ⟨call, hcall, contents, hfile, rfl⟩

theorem fromFile_token {calls : List (IdentityGetter × Surroundings)}
    {call : IdentityGetter × Surroundings} (hcall : call ∈ calls) {identity : Identity}
    (h : FromFile (lit "token") calls identity.kubernetesApiToken) :
    FromFile (lit "token") calls (kubernetesApiToken call.2 identity).1.kubernetesApiToken := by
  rw [kubernetesApiToken]
  split
  · rename_i hempty
    exact fromFile_read hcall (List.isEmpty_iff.mp hempty)
  · exact h

theorem fromFile_namespace {calls : List (IdentityGetter × Surroundings)}
    {call : IdentityGetter × Surroundings} (hcall : call ∈ calls) {identity : Identity}
    (h : FromFile (lit "namespace") calls identity.kubernetesNamespace) :
    FromFile (lit "namespace") calls
      (kubernetesNamespace call.2 identity).1.kubernetesNamespace := by
  rw [kubernetesNamespace]
  split
  · rename_i hempty
    exact fromFile_read hcall (List.isEmpty_iff.mp hempty)
  · exact h

theorem kubernetesApiToken_others (around : Surroundings) (identity : Identity) :
    (kubernetesApiToken around identity).1.kubernetesNamespace = identity.kubernetesNamespace ∧
      (kubernetesApiToken around identity).1.currentNode = identity.currentNode := by
  rw [kubernetesApiToken]
  split <;> exact ⟨rfl, rfl⟩

theorem kubernetesNamespace_others (around : Surroundings) (identity : Identity) :
    (kubernetesNamespace around identity).1.kubernetesApiToken = identity.kubernetesApiToken ∧
      (kubernetesNamespace around identity).1.currentNode = identity.currentNode := by
  rw [kubernetesNamespace]
  split <;> exact ⟨rfl, rfl⟩

/-- What was kept or missing is kept or missing after a call that keeps what there is. -/
theorem missing_or_kept (getter : IdentityGetter) {before after : Identity}
    (hkept : Kept before after) {value : Bytes} (h : value = [] ∨ value = getter.member before) :
    value = [] ∨ value = getter.member after := by
  rcases h with h | rfl
  · exact .inl h
  · by_cases hempty : getter.member before = []
    · exact .inl hempty
    · exact .inr (hkept getter hempty).symm

theorem FromMaster.keep {calls : List (IdentityGetter × Surroundings)} {identity after : Identity}
    (h : FromMaster config kubernetesNodeName calls identity)
    (hnode : after.currentNode = identity.currentNode) (hkept : Kept identity after)
    (call : IdentityGetter × Surroundings) :
    FromMaster config kubernetesNodeName (calls ++ [call]) after := by
  rw [FromMaster, hnode]
  rcases h with h | h | ⟨asked, hasked, token, ns, hvalue, htoken, hns⟩
  · exact .inl h
  · exact .inr (.inl h)
  · exact .inr (.inr ⟨asked, List.mem_append_left _ hasked, token, ns, hvalue,
      missing_or_kept .kubernetesApiToken hkept htoken,
      missing_or_kept .kubernetesNamespace hkept hns⟩)

theorem sourced_currentNode {calls : List (IdentityGetter × Surroundings)} {identity : Identity}
    (h : Sourced config kubernetesNodeName calls identity) (call : IdentityGetter × Surroundings) :
    Sourced config kubernetesNodeName (calls ++ [call])
      (currentNode config kubernetesNodeName call.2 identity).1 := by
  have hcall : call ∈ calls ++ [call] := List.mem_append_right _ List.mem_cons_self
  rw [currentNode]
  split
  · split
    · have hnamed := kubernetesNamespace_others call.2 identity
      have hsigned := kubernetesApiToken_others call.2 (kubernetesNamespace call.2 identity).1
      refine ⟨?_, ?_, .inr (.inr ⟨call, hcall, _, _, rfl, .inr ?_, .inr ?_⟩)⟩
      · refine fromFile_token hcall ?_
        rw [hnamed.1]
        exact h.token.append call
      · exact hsigned.1 ▸ fromFile_namespace hcall (h.ns.append call)
      · exact (kubernetesApiToken_fills call.2 _).value
      · exact (kubernetesNamespace_fills call.2 identity).value.trans hsigned.1.symm
    · exact ⟨h.token.append call, h.ns.append call, .inr (.inl rfl)⟩
  · exact ⟨h.token.append call, h.ns.append call, h.node.keep rfl (fun _ _ => rfl) call⟩

theorem sourced_tell {calls : List (IdentityGetter × Surroundings)} {identity : Identity}
    (h : Sourced config kubernetesNodeName calls identity) (call : IdentityGetter × Surroundings) :
    Sourced config kubernetesNodeName (calls ++ [call])
      (tell config kubernetesNodeName identity call).1 := by
  have hcall : call ∈ calls ++ [call] := List.mem_append_right _ List.mem_cons_self
  rcases hgetter : call.1 with _ | _ | _
  · have hothers := kubernetesApiToken_others call.2 identity
    rw [tell, hgetter]
    refine ⟨fromFile_token hcall (h.token.append call), ?_,
      h.node.keep hothers.2 (kubernetesApiToken_fills call.2 identity).kept call⟩
    rw [hothers.1]
    exact h.ns.append call
  · have hothers := kubernetesNamespace_others call.2 identity
    rw [tell, hgetter]
    refine ⟨?_, fromFile_namespace hcall (h.ns.append call),
      h.node.keep hothers.2 (kubernetesNamespace_fills call.2 identity).kept call⟩
    rw [hothers.1]
    exact h.token.append call
  · rw [tell, hgetter]
    exact sourced_currentNode h call

variable (config kubernetesNodeName)

theorem sourced_afterAll (calls : List (IdentityGetter × Surroundings)) :
    Sourced config kubernetesNodeName calls
      (afterAll (tell config kubernetesNodeName) .init calls) := by
  induction calls using List.reverseRecOn with
  | nil => exact ⟨.inl rfl, .inl rfl, .inl rfl⟩
  | append_singleton calls call ih =>
    rw [afterAll_concat]
    exact sourced_tell ih call

/-- Whatever the files and the master say from call to call: once a getter has returned something
it returns the same ever after and asks nobody, and what it has is the first line of a secret, the
option, or the node that the master gave for the pod of the host in the namespace that is kept,
asked with the token that is kept, each of them as far as it was there. -/
theorem identity_settles (calls : List (IdentityGetter × Surroundings)) :
    let last := afterAll (tell config kubernetesNodeName) .init calls
    (responses (tell config kubernetesNodeName) .init calls).Pairwise (fun x z =>
      x.2.value ≠ [] → z.1.1 = x.1.1 → z.2 = ⟨x.2.value, []⟩) ∧
    (∀ x ∈ responses (tell config kubernetesNodeName) .init calls, x.2.value ≠ [] →
      x.2.value = x.1.1.member last) ∧
    Sourced config kubernetesNodeName calls last := by
  intro last
  have hstays : ∀ (getter : IdentityGetter) {value : Bytes}, value ≠ [] →
      ∀ identity call, getter.member identity = value →
        getter.member (tell config kubernetesNodeName identity call).1 = value := by
    intro getter value hsome identity call hvalue
    have hkept := (tell_fills config kubernetesNodeName identity call).kept getter
      (by rw [hvalue]; exact hsome)
    exact hkept.trans hvalue
  refine ⟨?_, ?_, sourced_afterAll config kubernetesNodeName calls⟩
  · refine @responses_remember _ _ _ (tell config kubernetesNodeName)
      (fun x : (IdentityGetter × Surroundings) × Told => x.2.value ≠ [])
      (fun identity x => x.2.value ≠ [] ∧ x.1.1.member identity = x.2.value)
      (fun x z => z.1.1 = x.1.1 → z.2 = ⟨x.2.value, []⟩) ?_ ?_ ?_ .init calls
    · intro identity call hsome
      exact ⟨hsome, (tell_fills config kubernetesNodeName identity call).value.symm⟩
    · rintro identity x call ⟨hsome, hmember⟩
      exact ⟨hsome, hstays x.1.1 hsome identity call hmember⟩
    · rintro identity x ⟨getter, around⟩ ⟨hsome, hmember⟩ hsame
      obtain rfl : getter = x.1.1 := hsame
      have hhit := (tell_fills config kubernetesNodeName identity (x.1.1, around)).hit
        (by rw [hmember]; exact hsome)
      rw [hmember] at hhit
      exact congrArg Prod.snd hhit
  · intro x hx hsome
    obtain ⟨before, after, hcalls, htold⟩ := exists_of_mem_responses hx
    have hvalue := (tell_fills config kubernetesNodeName
      (afterAll (tell config kubernetesNodeName) .init before) x.1).value
    rw [← htold] at hvalue
    have hrest := afterAll_keeps (hstays x.1.1 hsome) hvalue.symm after
    have hlast : last = afterAll (tell config kubernetesNodeName)
        (tell config kubernetesNodeName
          (afterAll (tell config kubernetesNodeName) .init before) x.1).1 after := by
      simp only [last, hcalls, afterAll, List.foldl_append, List.foldl_cons]
    rw [hlast, hrest]

end Runs

end MetadataAgent.KubernetesReader
