import MetadataAgent.Resource

/-! # Configuration and environment

The options and the facts about the machine that the Kubernetes reader uses, as they are when it
runs. -/
namespace MetadataAgent
set_option autoImplicit false

structure Configuration where
  kubernetesEndpointHost : Bytes
  metadataIngestionRawContentVersion : Bytes
  metadataApiResourceTypeSeparator : Bytes

structure Environment where
  kubernetesClusterName : Bytes
  kubernetesClusterLocation : Bytes
  instanceResourceType : Bytes
  instanceId : Bytes
  instanceZone : Bytes

/-- `InstanceReader::InstanceResource`; `none` is `std::out_of_range`. -/
def Environment.instanceResource (environment : Environment) : Option MonitoredResource :=
  if environment.instanceId.isEmpty || environment.instanceZone.isEmpty then none
  else some (.ofLabels environment.instanceResourceType [
    (lit "instance_id", environment.instanceId),
    (lit "zone", environment.instanceZone)])

end MetadataAgent
