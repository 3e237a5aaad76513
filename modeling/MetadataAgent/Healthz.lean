import MetadataAgent.Health
import MetadataAgent.Lib.Output
import Mathlib.Data.Finset.Sort

/-! # The health request

`HandleHealthz` answers a request for the health of the agent with a text: that it is healthy, or
what is not. -/
namespace MetadataAgent.MetadataApiServer
open Lib
set_option autoImplicit false

/-- The statuses that the handler sets. -/
inductive Status where
  | ok
  | internalServerError
  deriving DecidableEq

/-- What the handler sets and writes on the connection. -/
structure Response where
  status : Status
  headers : OrderedMap Bytes Bytes
  body : Bytes

def plainText (status : Status) (body : Bytes) : Response :=
  ⟨status, .ofList [
    (lit "Connection", lit "close"),
    (lit "Content-Length", digits body.length),
    (lit "Content-Type", lit "text/plain")], body⟩

/-- The text with which the stream of the response is constructed. -/
def header : Bytes := lit "unhealthy components:\n"

/-- `HandleHealthz`, from the set of components on. -/
def healthzResponse (unhealthyComponents : Finset Bytes) : Response :=
  if unhealthyComponents = ∅ then plainText .ok (lit "healthy")
  else
    let components := unhealthyComponents.sort
    let stream := components.foldl
      (fun stream component => (stream.write component).write [0x0a]) (OutputStream.ofText header)
    plainText .internalServerError stream.text

/-- `HandleHealthz`; the checker may be the null pointer. -/
def handleHealthz (healthChecker : Option HealthChecker) (store : MetadataStore)
    (healthCheckMaxDataAgeSeconds : ℤ) (now : Timestamp) : Response :=
  healthzResponse <|
    match healthChecker with
    | none => ∅
    | some checker => checker.unhealthy store healthCheckMaxDataAgeSeconds now

/-! ## The lines of the body -/

/-- The body of the response, split into lines, is the header and the components in order. -/
def ListsComponents (unhealthyComponents : Finset Bytes) : Prop :=
  lines 0x0a (healthzResponse unhealthyComponents).body =
    lit "unhealthy components:" :: unhealthyComponents.sort

/-- What the loop writes. -/
def written (unhealthyComponents : Finset Bytes) : Bytes :=
  unhealthyComponents.sort.flatMap fun component => component ++ [0x0a]

section Body
variable {unhealthyComponents : Finset Bytes}

theorem body_of_nonempty (h : unhealthyComponents.Nonempty) :
    (healthzResponse unhealthyComponents).body =
      written unhealthyComponents ++ header.drop (written unhealthyComponents).length := by
  have hwrites : (unhealthyComponents.sort.flatMap fun component => [component, [0x0a]]).flatten =
      written unhealthyComponents := by
    rw [written]
    induction unhealthyComponents.sort with
    | nil => rfl
    | cons component components ih =>
      rw [List.flatMap_cons, List.flatMap_cons, List.flatten_append, ih]
      simp
  have htext := OutputStream.text_foldl_write header
    (unhealthyComponents.sort.flatMap fun component => [component, [0x0a]])
  rw [hwrites, List.foldl_flatMap] at htext
  rw [healthzResponse, if_neg h.ne_empty]
  exact htext

/-- What is left of the header is at most one line. -/
theorem lines_drop_header (n : ℕ) : lines 0x0a (header.drop n) =
    if n < header.length then [(lit "unhealthy components:").drop n] else [] := by
  by_cases hn : n < header.length
  · have hall : ∀ m < 22, lines 0x0a (header.drop m) = [(lit "unhealthy components:").drop m] := by
      decide +kernel
    rw [if_pos hn]
    exact hall n hn
  · rw [if_neg hn, List.drop_of_length_le (by omega)]
    rfl

/-- The lines are the components, and what they left of the header. -/
theorem lines_body (h : unhealthyComponents.Nonempty)
    (hnames : ∀ component ∈ unhealthyComponents, 0x0a ∉ component) :
    lines 0x0a (healthzResponse unhealthyComponents).body =
      unhealthyComponents.sort ++
        if (written unhealthyComponents).length < header.length then
          [(lit "unhealthy components:").drop (written unhealthyComponents).length]
        else [] := by
  have hsorted : ∀ component ∈ unhealthyComponents.sort, 0x0a ∉ component := by
    intro component hmem
    exact hnames component ((Finset.mem_sort _).mp hmem)
  rw [body_of_nonempty h, written, lines_flatMap _ hsorted, lines_drop_header]

theorem length_written_le {components : List Bytes} {component : Bytes}
    (h : component ∈ components) :
    component.length + 1 ≤ (components.flatMap fun c => c ++ [0x0a]).length := by
  obtain ⟨before, after, rfl⟩ := List.append_of_mem h
  simp only [List.flatMap_append, List.flatMap_cons, List.length_append, List.length_singleton]
  omega

/-- The body is never the header and the components: it starts with the first component. -/
theorem body_never_lists (h : unhealthyComponents.Nonempty)
    (hnames : ∀ component ∈ unhealthyComponents, 0x0a ∉ component) :
    ¬ ListsComponents unhealthyComponents := by
  intro hlists
  rw [ListsComponents, lines_body h hnames] at hlists
  have hlength := congrArg List.length hlists
  by_cases hshort : (written unhealthyComponents).length < header.length
  · cases hsort : unhealthyComponents.sort with
    | nil =>
      have hcard := Finset.length_sort (s := unhealthyComponents) (fun a b => a ≤ b)
      rw [hsort] at hcard
      exact absurd (Finset.card_eq_zero.mp hcard.symm) h.ne_empty
    | cons first rest =>
      rw [hsort, List.cons_append, List.cons.injEq] at hlists
      have hmem : first ∈ unhealthyComponents.sort := by
        rw [hsort]
        exact List.mem_cons_self
      have hfirst := length_written_le hmem
      rw [hlists.1] at hfirst
      have hheader : (lit "unhealthy components:").length + 1 = header.length := rfl
      rw [written] at hshort
      omega
  · rw [if_neg hshort, List.append_nil, List.length_cons] at hlength
    omega

end Body

/-- A component that reported itself, in an agent without data. -/
def podThreadResponse : Response :=
  handleHealthz (some (HealthChecker.init.setUnhealthy (lit "kubernetes_pod_thread"))) .empty 300 0

theorem body_podThread : (healthzResponse {lit "kubernetes_pod_thread"}).body =
    lit "kubernetes_pod_thread\n" := by
  rw [body_of_nonempty (Finset.singleton_nonempty _), written, Finset.sort_singleton]
  decide +kernel

/-- The name is as long as the header, and takes its place. -/
theorem pod_thread_overwrites_header :
    podThreadResponse = healthzResponse {lit "kubernetes_pod_thread"} ∧
      podThreadResponse.body = lit "kubernetes_pod_thread\n" ∧
      ¬ ListsComponents {lit "kubernetes_pod_thread"} := by
  have hresponse : podThreadResponse = healthzResponse {lit "kubernetes_pod_thread"} := rfl
  refine ⟨hresponse, ?_, ?_⟩
  · rw [hresponse, body_podThread]
  · rw [ListsComponents, body_podThread, Finset.sort_singleton]
    decide +kernel

theorem body_never_lists_podThread : ¬ ListsComponents {lit "kubernetes_pod_thread"} := by
  refine body_never_lists (Finset.singleton_nonempty _) ?_
  intro component hmem
  rw [Finset.mem_singleton] at hmem
  rw [hmem]
  decide +kernel

end MetadataAgent.MetadataApiServer
