/-!
# Messages

`Message` of `include/governor/protocol.h`: what daemon and clients send each other.
-/

namespace MemoryGovernor

/-- `MessageType`. -/
inductive MessageType
  | REGISTER
  | REPORT_SIZE
  | SHRINK
  | GROW
  | ACK
  | HEARTBEAT
  | UNKNOWN
deriving DecidableEq, Repr

/-- `Message`. -/
structure Message where
  type : MessageType := .UNKNOWN
  pid : Int32 := 0
  target_bytes : UInt64 := 0
  current_size_bytes : UInt64 := 0
  tier : Int32 := 0
deriving DecidableEq, Repr

end MemoryGovernor
