import MetadataAgent.Json.Value

/-! # Monitored resources

A resource is a type and a label map. Its order, type first and then the labels entry by entry,
is the key order of the metadata map, and so the order in which entries are reported. -/
namespace MetadataAgent
open Lib Json
set_option autoImplicit false

structure MonitoredResource where
  type : Bytes
  labels : OrderedMap Bytes Bytes
  deriving DecidableEq

namespace MonitoredResource

def ofLabels (type : Bytes) (labels : List (Bytes × Bytes)) : MonitoredResource :=
  ⟨type, OrderedMap.ofList labels⟩

/-- What `operator<` compares. -/
def sortKey (r : MonitoredResource) : Bytes ×ₗ List (Bytes ×ₗ Bytes) :=
  toLex (r.type, r.labels.entries.map toLex)

theorem sortKey_injective : Function.Injective sortKey := by
  intro r s h
  have hpair := toLex.injective h
  simp only [Prod.mk.injEq] at hpair
  obtain ⟨htype, hlabels⟩ := hpair
  cases r
  cases s
  simp only at htype hlabels
  rw [MonitoredResource.mk.injEq]
  exact ⟨htype, OrderedMap.ext (toLex.injective.list_map hlabels)⟩

instance resourceLinearOrder : LinearOrder MonitoredResource :=
  LinearOrder.lift' sortKey sortKey_injective

theorem lt_iff (r s : MonitoredResource) :
    r < s ↔ r.type < s.type ∨
      r.type = s.type ∧ r.labels.entries.map toLex < s.labels.entries.map toLex :=
  Prod.Lex.toLex_lt_toLex

def toJSON (r : MonitoredResource) : Value :=
  object [
    (lit "type", some (.string r.type)),
    (lit "labels", some (.object (r.labels.mapValues fun _ label => Value.string label).entries))]

end MonitoredResource

end MetadataAgent
