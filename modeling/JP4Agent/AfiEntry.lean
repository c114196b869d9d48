import JP4Agent.AfiDevice

set_option autoImplicit false

namespace JP4Agent

/-- A `std::string` in memory: its bytes, and what follows their terminator. -/
structure CStr where
  str : Str
  after : Nat → UInt8 := fun _ => 0

namespace CStr
variable (s : CStr)

/-- `c_str()[i]`, also behind the terminator. -/
def byte (i : Nat) : UInt8 :=
  if inside : i < s.str.length then s.str[i] else if i = s.str.length then 0 else s.after i

/-- `*((const uint8_t *) c_str())` -/
def uint8 : UInt32 := (s.byte 0).toUInt32

/-- `ntohs(*((const uint16_t *) c_str()))` -/
def uint16 : UInt32 := (netWord (s.byte 0) (s.byte 1)).toUInt32

/-- `ntohl(*((const uint32_t *) c_str()))` -/
def uint32 : UInt32 :=
  (netWord (s.byte 0) (s.byte 1)).toUInt32 <<< 16 ||| (netWord (s.byte 2) (s.byte 3)).toUInt32

end CStr

inductive MfType where
  | exact
  | lpm
  | ternary
  deriving DecidableEq, Repr

structure AfiTEntryMatchField where
  id : UInt32
  type : MfType
  value : CStr
  len : UInt16
  mask : CStr

structure AfiAEntry where
  id : UInt32
  value : CStr

/-- The value or mask of a match field of at most 32 bits. -/
def readUint (bitWidth : UInt32) (s : CStr) : UInt32 :=
  if bitWidth ≤ 8 then s.uint8 else if bitWidth ≤ 16 then s.uint16 else s.uint32

def decimal (n : Nat) : Str := str (toString n)

def encodeMessage (pb : Protobuf) (c : AfiClass) (message : c.Message) : Str :=
  Base64.base64Encode (pb.serialize c message)

/-- `dynamic_pointer_cast<P4InfoTable>(P4Info::instance().p4InfoResource(id))` -/
def p4InfoTable (id : UInt32) : AfiM (Option P4InfoTable) := do
  let agent ← get
  set { agent with p4Info := agent.p4Info.lookedUp id }
  pure (agent.p4Info.table? id)

/-- `dynamic_pointer_cast<P4InfoAction>(P4Info::instance().p4InfoResource(id))` -/
def p4InfoAction (id : UInt32) : AfiM (Option P4InfoAction) := do
  let agent ← get
  set { agent with p4Info := agent.p4Info.lookedUp id }
  pure (agent.p4Info.action? id)

def childJsonRes (pb : Protobuf) (type : Str) (id : Nat) (name : Str) (c : AfiClass)
    (message : c.Message) : AfiJsonResource :=
  { type := type
    id := UInt64.ofNat id
    name := name
    objStr := encodeMessage pb c message }

end JP4Agent
