import MetadataAgent.Bytes

/-! # HTTP errors -/
namespace MetadataAgent
set_option autoImplicit false

/-- `boost::system::system_error`, by the text it is made from. -/
structure SystemError where
  what : Bytes
  deriving DecidableEq

/-- The text thrown for a status that is not a success. -/
def serverResponded (status : ℤ) (statusMessage : Bytes) : Bytes :=
  lit "Server responded with '" ++ statusMessage ++ lit "' (" ++ decimal status ++ lit ")"

end MetadataAgent
