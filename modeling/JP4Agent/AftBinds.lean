import JP4Agent.AfiBinds
import JP4Agent.Targets

set_option autoImplicit false

/- The AFT device: what a `_bind` that got past its lookups hands to the AFT client. What
is only printed is left out. -/
namespace JP4Agent.Aft

/-- A call of the client, and the token it returned. -/
inductive ClientCall (Token : Type) where
  | addTable (tableName fieldName : Str) (defaultTargetToken returned : Token)
  | setIngressStart (ingressStartToken : Token)
  | addEtherEncapNode (dstMac srcMac : Str) (nextToken returned : Token)
  | addRoute (rttNodeToken : Token) (prefixBytes : Str) (numPrefixBytes prefixLen : Int32)
    (routeTargetToken : Token)

/-- The client, whose tokens may depend on the calls before. -/
structure AftClient (Token : Type) where
  /-- `AFT_NODE_TOKEN_NONE` -/
  tokenNone : Token
  puntPortToken : Token
  outputPortToken : UInt16 → Token
  addTable : List (ClientCall Token) → Str → Str → Token → Token
  addEtherEncapNode : List (ClientCall Token) → Str → Str → Token → Token

/-- The calls, latest first, and the `_token` of the tree with each address. -/
structure Device (Token : Type) where
  calls : List (ClientCall Token)
  token : Nat → Token

section
variable {Token : Type} (client : AftClient Token)

def AftTree.bind (addr : Nat) (tree : AfiTree) (device : Device Token) : Device Token :=
  let keyField := tree.keyField.getD []
  let defaultTargetToken := client.puntPortToken
  let token := client.addTable device.calls (str "rtt0") keyField defaultTargetToken
  { calls := .setIngressStart token ::
      .addTable (str "rtt0") keyField defaultTargetToken token :: device.calls
    token := Function.update device.token addr token }

def AftTreeEntry.bind (aftTree : AfiObject) (entry : AfiTreeEntry) (device : Device Token) :
    Device Token :=
  let prefixBytes := entry.prefixBytes.getD []
  let aftTreeToken := device.token aftTree.addr
  let outputPortToken := client.outputPortToken 1
  let dstMac := str "32:26:0a:2e:ff:f1"
  let srcMac := str "5e:d8:f9:32:bd:85"
  let etherEncapToken := client.addEtherEncapNode device.calls dstMac srcMac outputPortToken
  -- The length is a constant; `prefix_length` is commented out. It only bounds the loop
  -- before, which prints the prefix and what may be behind it: `AftTreeEntry.accesses`.
  { device with
    calls := .addRoute aftTreeToken prefixBytes (Int32.ofNat prefixBytes.length) 32
        etherEncapToken ::
      .addEtherEncapNode dstMac srcMac outputPortToken etherEncapToken :: device.calls }

def Device.install (device : Device Token) : Installed → Device Token
  | ⟨⟨addr, _, .tree, tree⟩, _⟩ => AftTree.bind client addr tree device
  | ⟨⟨_, _, .treeEntry, entry⟩, [aftTree]⟩ => AftTreeEntry.bind client aftTree entry device
  | _ => device

/-- The device after all that was installed, latest first. -/
def installAll : List Installed → Device Token
  | [] => ⟨[], fun _ => client.tokenNone⟩
  | installed :: before => (installAll before).install client installed

variable {client}

/-- Only the `_bind` of a tree writes its token. -/
theorem install_token_of_ne {installed : Installed} {addr : Nat}
    (other : installed.object.addr ≠ addr) (device : Device Token) :
    (device.install client installed).token addr = device.token addr := by
  rcases installed with ⟨⟨addr', res, cls, message⟩, uses⟩
  cases cls with
  | tree => exact Function.update_of_ne (Ne.symm other) ..
  | treeEntry =>
      rcases uses with _ | ⟨aftTree, _ | ⟨_, _⟩⟩
      · rfl
      · rfl
      · rfl
  | _ => rfl

theorem installAll_token_of_ne {later before : List Installed} {addr : Nat}
    (others : ∀ installed ∈ later, installed.object.addr ≠ addr) :
    (installAll client (later ++ before)).token addr = (installAll client before).token addr := by
  induction later with
  | nil => rfl
  | cons installed rest ih =>
      obtain ⟨here, more⟩ := List.forall_mem_cons.mp others
      rw [List.cons_append, installAll, install_token_of_ne here, ih more]

/-- Before its first `_bind` a tree has the token it was made with. -/
theorem installAll_token_none {before : List Installed} {addr : Nat}
    (others : ∀ installed ∈ before, installed.object.addr ≠ addr) :
    (installAll client before).token addr = client.tokenNone := by
  rw [← List.append_nil before]
  exact installAll_token_of_ne others

end
end JP4Agent.Aft
