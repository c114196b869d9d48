import JP4Agent.AfiDeviceSteps
import JP4Agent.AfiEntry
import JP4Agent.Base64Decode

set_option autoImplicit false

namespace JP4Agent
open AfiDevice

/-- What a constructor decodes from the text of an object and hands to the protobuf library. -/
def decodedBytes (objStr : Str) : Except Base64.Fault Str :=
  let decoded := Base64.base64Decode objStr 5000
  decoded.result.map fun numDecodedBytes =>
    (decoded.memory (HeapBuffer.alloc 5000)).load 0 numDecodedBytes.toNat

theorem construct_eq (pb : Protobuf) (c : AfiClass) (objStr : Str) :
    construct pb c objStr = (decodedBytes objStr).map (pb.parse c) := by
  rw [construct, decodedBytes]
  cases (Base64.base64Decode objStr 5000).result <;> rfl

theorem decodedBytes_short {bytes : Str} (short : bytes.length < 5000) :
    decodedBytes (Base64.base64Encode bytes) = .ok bytes := by
  rw [decodedBytes, Base64.base64Encode_eq, Base64.base64Decode]
  have length := Base64.encodeBytes_length bytes
  rw [Base64.base64DecodeFrom_encodeBytes _ _ 5000 short (by omega)]
  have loaded := Base64.memory_finish_load bytes (HeapBuffer.alloc 5000) (by omega)
  rw [Base64.finish_eq (by omega)] at loaded ⊢
  simp only [Except.map, Int.toNat_natCast]
  rw [loaded]

/-- The object of a message is what the constructor makes of the text it is encoded to. -/
theorem creation_childJsonRes_eq (pb : Protobuf) (target : Target) {c : AfiClass} {type : Str}
    (id : Nat) (name : Str) (c' : AfiClass) (message : c'.Message)
    (creator : target.creators type = some c) :
    creation pb target (childJsonRes pb type id name c' message) =
      (construct pb c (encodeMessage pb c' message)).map fun made => some ⟨c, made⟩ := by
  rw [creation, childJsonRes]
  simp only [creator]

section
variable (pb : Protobuf) {c c' : AfiClass} {message : c'.Message}
  (short : (pb.serialize c' message).length < 5000)
include short

/-- A message whose serialization fits into the buffer of a constructor comes back as the
protobuf library parses it. -/
theorem construct_encodeMessage :
    construct pb c (encodeMessage pb c' message) =
      .ok (pb.parse c (pb.serialize c' message)) := by
  rw [construct_eq, encodeMessage, decodedBytes_short short]
  rfl

theorem creation_childJsonRes (target : Target) {type : Str} (id : Nat) (name : Str)
    (creator : target.creators type = some c) :
    creation pb target (childJsonRes pb type id name c' message) =
      .ok (some ⟨c, pb.parse c (pb.serialize c' message)⟩) := by
  rw [creation_childJsonRes_eq pb target id name c' message creator,
    construct_encodeMessage pb short]
  rfl

end
end JP4Agent
