import JP4Agent.Library.HeapBuffer

set_option autoImplicit false

/- The base64 codec of the AFI objects, as two state machines over scratch arrays of
three bytes and four characters. The scratch arrays start uninitialised: `scratch`
stands for what they happen to hold. -/
namespace JP4Agent.Base64

def base64Chars : Str :=
  str "ABCDEFGHIJKLMNOPQRSTUVWXYZabcdefghijklmnopqrstuvwxyz0123456789+/"

/-- The padding character. -/
abbrev pad : UInt8 := 61

/-- `isalnum(c) || c == '+' || c == '/'` in the C locale. -/
def isBase64 (c : UInt8) : Bool :=
  (48 ≤ c && c ≤ 57) || (65 ≤ c && c ≤ 90) || (97 ≤ c && c ≤ 122) || c == 43 || c == 47

/-- `base64_chars[v]` -/
def charAt (v : UInt8) : UInt8 := base64Chars.getD v.toNat 0

/-- `base64_chars.find(c)` cut to an `unsigned char`, `npos` included. -/
def find (c : UInt8) : UInt8 :=
  if c ∈ base64Chars then UInt8.ofNat (base64Chars.idxOf c) else 0xFF

abbrev Scratch := Nat → UInt8

def Scratch.set (a : Scratch) (i : Nat) (v : UInt8) : Scratch :=
  fun j => if j = i then v else a j

def sextet0 (a : UInt8) : UInt8 := (a &&& 0xfc) >>> 2
def sextet1 (a b : UInt8) : UInt8 := ((a &&& 0x03) <<< 4) + ((b &&& 0xf0) >>> 4)
def sextet2 (b c : UInt8) : UInt8 := ((b &&& 0x0f) <<< 2) + ((c &&& 0xc0) >>> 6)
def sextet3 (c : UInt8) : UInt8 := c &&& 0x3f

def octet0 (w x : UInt8) : UInt8 := (w <<< 2) + ((x &&& 0x30) >>> 4)
def octet1 (x y : UInt8) : UInt8 := ((x &&& 0xf) <<< 4) + ((y &&& 0x3c) >>> 2)
def octet2 (y z : UInt8) : UInt8 := ((y &&& 0x3) <<< 6) + z

structure EncodeState where
  i : Nat
  charArray3 : Scratch
  ret : Str

/-- One round of `while (in_len--)`. -/
def encodeStep (st : EncodeState) (byte : UInt8) : EncodeState :=
  let a := st.charArray3.set st.i byte
  if st.i + 1 = 3 then
    { i := 0
      charArray3 := a
      ret := st.ret ++ [charAt (sextet0 (a 0)), charAt (sextet1 (a 0) (a 1)),
        charAt (sextet2 (a 1) (a 2)), charAt (sextet3 (a 2))] }
  else { st with i := st.i + 1, charArray3 := a }

/-- The one or two bytes left over after the last whole group. -/
def encodeTail (st : EncodeState) : Str :=
  if st.i = 0 then st.ret
  else
    let a : Scratch := fun j => if st.i ≤ j then 0 else st.charArray3 j
    let chars := [charAt (sextet0 (a 0)), charAt (sextet1 (a 0) (a 1)),
      charAt (sextet2 (a 1) (a 2))]
    st.ret ++ chars.take (st.i + 1) ++ List.replicate (3 - st.i) pad

def base64EncodeFrom (scratch : Scratch) (bytes : Str) : Str :=
  encodeTail (bytes.foldl encodeStep ⟨0, scratch, []⟩)

/-- `bytes_to_encode` with its `in_len` bytes. -/
def base64Encode (bytes : Str) : Str := base64EncodeFrom (fun _ => 0) bytes

inductive Fault where
  /-- `assert(num_bytes < len)` failed. -/
  | assertion
  /-- `in_len--` at `INT_MIN`: undefined behaviour. -/
  | overflow
  deriving DecidableEq, Repr

/-- The bytes stored to `bytes[num_bytes++]`, in order, and how the call ended. The
stores made before an assertion stopped the call are kept. -/
structure Decoded where
  stores : Str
  result : Except Fault Int
  deriving DecidableEq

/-- The value of `num_bytes`, an `unsigned int`, after these stores. -/
def numBytes (stores : Str) : Nat := stores.length % 4294967296

/-- `return num_bytes` from a function returning `int`. -/
def finish (stores : Str) : Decoded := ⟨stores, .ok (toInt32 (numBytes stores))⟩

/-- The memory behind `bytes` after the call. -/
def Decoded.memory (d : Decoded) (bytes : HeapBuffer) : HeapBuffer :=
  d.stores.zipIdx.foldl (fun b store => b.store (store.2 % 4294967296) store.1) bytes

/-- The last loop: a store, then the assertion, for each byte. -/
def storeTail (len : UInt32) (stores : Str) : Str → Decoded
  | [] => finish stores
  | byte :: bytes =>
    if numBytes (stores ++ [byte]) < len.toNat then storeTail len (stores ++ [byte]) bytes
    else ⟨stores ++ [byte], .error .assertion⟩

def decodeTail (len : UInt32) (i : Nat) (a : Scratch) (stores : Str) : Decoded :=
  if i = 0 then finish stores
  else
    let a : Scratch := fun j => if j < i then find (a j) else a j
    storeTail len stores ([octet0 (a 0) (a 1), octet1 (a 1) (a 2)].take (i - 1))

/-- The `while` loop over the rest of `encoded_string`; reading past its end gives
the terminator, which is no base64 character. All three bytes of a group are
stored before the one assertion that follows them. -/
def decodeLoop (len : UInt32) : Str → Int → Nat → Scratch → Str → Decoded
  | [], inLen, i, a, stores =>
    if inLen = -2147483648 then ⟨stores, .error .overflow⟩ else decodeTail len i a stores
  | c :: rest, inLen, i, a, stores =>
    if inLen = -2147483648 then ⟨stores, .error .overflow⟩
    else if inLen ≠ 0 ∧ c ≠ pad ∧ isBase64 c then
      let a := a.set i c
      if i + 1 = 4 then
        let a : Scratch := fun j => if j < 4 then find (a j) else a j
        let stores := stores ++ [octet0 (a 0) (a 1), octet1 (a 1) (a 2), octet2 (a 2) (a 3)]
        if numBytes stores < len.toNat then decodeLoop len rest (inLen - 1) 0 a stores
        else ⟨stores, .error .assertion⟩
      else decodeLoop len rest (inLen - 1) (i + 1) a stores
    else decodeTail len i a stores

def base64DecodeFrom (scratch : Scratch) (encoded : Str) (len : UInt32) : Decoded :=
  decodeLoop len encoded (toInt32 encoded.length) 0 scratch []

def base64Decode (encoded : Str) (len : UInt32) : Decoded :=
  base64DecodeFrom (fun _ => 0) encoded len

end JP4Agent.Base64
