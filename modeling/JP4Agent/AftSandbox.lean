import JP4Agent.AftRoutes

set_option autoImplicit false

/- What the client of the AFT device sends to the sandbox. The debug modes, which are off in
the source, and what is only printed are left out. -/
namespace JP4Agent.Aft

inductive Parameter where
  | text (value : Str)
  | number (value : UInt32)

inductive AftNode (Token : Type) where
  | tree (field : Str) (defaultTargetToken : Token) (parameters : List (Str × Parameter))
  | encap (type : Str) (keys : List (Str × Str)) (next : Token)
  | inputPort (index : Nat) (next : Token)

/-- What is pushed to an insert context. -/
inductive Pushed (Token : Type) where
  | node (token : Token) (node : AftNode Token)
  | name (name : Str) (token : Token)
  | entry (rttNodeToken : Token) (prefixBytes : Str) (prefixLen : Int32)
    (routeTargetToken : Token)

/-- The library, for a sandbox. The token of a node may depend on what was sent before. -/
structure AftSandbox (Token : Type) where
  /-- `AFT_NODE_TOKEN_NONE` -/
  tokenNone : Token
  /-- `maxIndex` of the port tables -/
  inputPorts : Nat
  outputPorts : Nat
  /-- `portForIndex`: the name and the token of an output port -/
  outputPort : Nat → Option (Str × Token)
  push : List (Pushed Token) → AftNode Token → Token

namespace AftSandbox
variable {Token : Type} (sandbox : AftSandbox Token)

def outputPortToken (portIndex : UInt16) : Token :=
  ((List.range sandbox.outputPorts).findSome? fun i =>
    if i = portIndex.toNat then (sandbox.outputPort i).map Prod.snd else none).getD
      sandbox.tokenNone

def puntPortToken : Token :=
  ((List.range sandbox.outputPorts).findSome? fun i =>
    (sandbox.outputPort i).bind fun port =>
      if port.1 = str "punt" then some port.2 else none).getD sandbox.tokenNone

/- Each function is given what was sent before, latest first, and returns it with what it
sends itself. -/

def setInputPortNextNode (sent : List (Pushed Token)) (inputPortIndex : Nat)
    (nextToken : Token) : List (Pushed Token) :=
  let inputPort : AftNode Token := .inputPort inputPortIndex nextToken
  .node (sandbox.push sent inputPort) inputPort :: sent

def setIngressStart (sent : List (Pushed Token)) (ingressStartToken : Token) :
    List (Pushed Token) :=
  (List.range sandbox.inputPorts).foldl
    (fun sent i => sandbox.setInputPortNextNode sent i ingressStartToken) sent

def addTable (sent : List (Pushed Token)) (tableName fieldName : Str)
    (defaultTargetToken : Token) : Token × List (Pushed Token) :=
  let tree : AftNode Token := .tree fieldName defaultTargetToken
    [(str "app", .text (str "NH")), (str "rt.nhType", .text (str "route")),
      (str "rt.skipBits", .number 16)]
  let token := sandbox.push sent tree
  (token, .name tableName token :: .node token tree :: sent)

def addRoute (sent : List (Pushed Token)) (rttNodeToken : Token) (prefixBytes : Str)
    (numPrefixBytes prefixLen : Int32) (routeTargetToken : Token) : List (Pushed Token) :=
  .entry rttNodeToken (prefixBytes.take numPrefixBytes.toInt.toNat) prefixLen routeTargetToken ::
    sent

def addEtherEncapNode (sent : List (Pushed Token)) (dstMac srcMac : Str) (nextToken : Token) :
    Token × List (Pushed Token) :=
  let encap : AftNode Token := .encap (str "ethernet")
    [(str "packet.ether.saddr", srcMac), (str "packet.ether.daddr", dstMac)] nextToken
  let token := sandbox.push sent encap
  (token, .node token encap :: sent)

/-- What is sent by a call, after what was sent before. -/
def perform (sent : List (Pushed Token)) : ClientCall Token → List (Pushed Token)
  | .addTable tableName fieldName defaultTargetToken _ =>
    (sandbox.addTable sent tableName fieldName defaultTargetToken).2
  | .setIngressStart ingressStartToken => sandbox.setIngressStart sent ingressStartToken
  | .addEtherEncapNode dstMac srcMac nextToken _ =>
    (sandbox.addEtherEncapNode sent dstMac srcMac nextToken).2
  | .addRoute rttNodeToken prefixBytes numPrefixBytes prefixLen routeTargetToken =>
    addRoute sent rttNodeToken prefixBytes numPrefixBytes prefixLen routeTargetToken

/-- What these calls send. -/
def sentBy : List (ClientCall Token) → List (Pushed Token)
  | [] => []
  | call :: before => sandbox.perform (sentBy before) call

/-- The client of this sandbox. -/
def client : AftClient Token where
  tokenNone := sandbox.tokenNone
  puntPortToken := sandbox.puntPortToken
  outputPortToken := sandbox.outputPortToken
  addTable calls tableName fieldName defaultTargetToken :=
    (sandbox.addTable (sandbox.sentBy calls) tableName fieldName defaultTargetToken).1
  addEtherEncapNode calls dstMac srcMac nextToken :=
    (sandbox.addEtherEncapNode (sandbox.sentBy calls) dstMac srcMac nextToken).1

/-- A token of the sandbox itself. -/
def Given (token : Token) : Prop :=
  token = sandbox.tokenNone ∨
    ∃ i < sandbox.outputPorts, ∃ name, sandbox.outputPort i = some (name, token)

/-- A tree with this token has been sent. -/
def HasTree (sent : List (Pushed Token)) (token : Token) : Prop :=
  ∃ field target parameters, .node token (.tree field target parameters) ∈ sent

def HasEncap (sent : List (Pushed Token)) (token : Token) : Prop :=
  ∃ type keys next, .node token (.encap type keys next) ∈ sent

/-- What is pushed leads to nodes of the right kind that have been sent before, or to what
the sandbox has by itself. A route may also have no tree. -/
def Valid (sent : List (Pushed Token)) : Pushed Token → Prop
  | .node _ (.tree _ target _) => sandbox.Given target
  | .node _ (.encap _ _ next) => sandbox.Given next
  | .node _ (.inputPort index next) => index < sandbox.inputPorts ∧ HasTree sent next
  | .name _ token => HasTree sent token
  | .entry rtt _ _ target => (HasTree sent rtt ∨ rtt = sandbox.tokenNone) ∧ HasEncap sent target

/-- All that was sent was valid when it was sent. -/
def Sound : List (Pushed Token) → Prop
  | [] => True
  | pushed :: before => sandbox.Valid before pushed ∧ Sound before

theorem given_outputPort (portIndex : UInt16) :
    sandbox.Given (sandbox.outputPortToken portIndex) := by
  unfold outputPortToken
  cases found : (List.range sandbox.outputPorts).findSome? fun i =>
      if i = portIndex.toNat then (sandbox.outputPort i).map Prod.snd else none with
  | none => exact Or.inl rfl
  | some token =>
      obtain ⟨i, inside, port⟩ := List.exists_of_findSome?_eq_some found
      split at port
      · obtain ⟨⟨name, token'⟩, here, rfl⟩ := Option.map_eq_some_iff.mp port
        exact Or.inr ⟨i, List.mem_range.mp inside, name, here⟩
      · cases port

theorem given_puntPort : sandbox.Given sandbox.puntPortToken := by
  unfold puntPortToken
  cases found : (List.range sandbox.outputPorts).findSome? fun i =>
      (sandbox.outputPort i).bind fun port =>
        if port.1 = str "punt" then some port.2 else none with
  | none => exact Or.inl rfl
  | some token =>
      obtain ⟨i, inside, port⟩ := List.exists_of_findSome?_eq_some found
      obtain ⟨⟨name, token'⟩, here, punt⟩ := Option.bind_eq_some_iff.mp port
      split at punt
      · obtain rfl := Option.some.inj punt
        exact Or.inr ⟨i, List.mem_range.mp inside, name, here⟩
      · cases punt

variable {sandbox} {sent more : List (Pushed Token)} {token : Token}

theorem HasTree.mono (tree : HasTree sent token) (sub : sent ⊆ more) : HasTree more token := by
  obtain ⟨field, target, parameters, member⟩ := tree
  exact ⟨field, target, parameters, sub member⟩

theorem setInputPortNextNode_sound (sound : sandbox.Sound sent) (tree : HasTree sent token)
    {i : Nat} (inside : i < sandbox.inputPorts) :
    sandbox.Sound (sandbox.setInputPortNextNode sent i token) :=
  ⟨⟨inside, tree⟩, sound⟩

/-- Every input port is led to the tree, whatever was sent since. -/
theorem setIngressStart_sound (sound : sandbox.Sound sent) (tree : HasTree sent token) :
    sandbox.Sound (sandbox.setIngressStart sent token) ∧
      sent ⊆ sandbox.setIngressStart sent token := by
  have each (ports : List Nat) : ∀ sent : List (Pushed Token), sandbox.Sound sent →
      HasTree sent token → (∀ i ∈ ports, i < sandbox.inputPorts) →
        let after := ports.foldl (fun sent i => sandbox.setInputPortNextNode sent i token) sent
        sandbox.Sound after ∧ sent ⊆ after := by
    induction ports with
    | nil => exact fun sent sound _ _ => ⟨sound, List.Subset.refl sent⟩
    | cons i rest ih =>
        intro sent sound tree inside
        rw [List.forall_mem_cons] at inside
        have step : sent ⊆ sandbox.setInputPortNextNode sent i token := List.subset_cons_self ..
        obtain ⟨sound, sub⟩ := ih (sandbox.setInputPortNextNode sent i token)
          (setInputPortNextNode_sound sound tree inside.1) (tree.mono step) inside.2
        exact ⟨sound, List.Subset.trans step sub⟩
  exact each (List.range sandbox.inputPorts) sent sound tree
    fun i member => List.mem_range.mp member

/-- What the device keeps: each tree it has a token for has been sent. -/
structure Keeps (sandbox : AftSandbox Token) (device : Device Token) : Prop where
  sound : sandbox.Sound (sandbox.sentBy device.calls)
  tokens : ∀ addr, HasTree (sandbox.sentBy device.calls) (device.token addr) ∨
    device.token addr = sandbox.tokenNone

theorem Keeps.tree {device : Device Token} (keeps : Keeps sandbox device) (addr : Nat)
    (tree : AfiTree) : Keeps sandbox (AftTree.bind sandbox.client addr tree device) := by
  let keyField := tree.keyField.getD []
  let made := sandbox.addTable (sandbox.sentBy device.calls) (str "rtt0") keyField
    sandbox.puntPortToken
  have added : sandbox.Sound made.2 :=
    ⟨⟨_, _, _, .head _⟩, sandbox.given_puntPort, keeps.sound⟩
  have hasTree : HasTree made.2 made.1 := ⟨_, _, _, .tail _ (.head _)⟩
  obtain ⟨sound, sub⟩ := setIngressStart_sound added hasTree
  constructor
  · exact sound
  · intro addr'
    show HasTree (sandbox.setIngressStart made.2 made.1)
        (Function.update device.token addr made.1 addr') ∨
      Function.update device.token addr made.1 addr' = sandbox.tokenNone
    by_cases same : addr' = addr
    · rw [same, Function.update_self]
      exact Or.inl (hasTree.mono sub)
    · rw [Function.update_of_ne same]
      have before : sandbox.sentBy device.calls ⊆ made.2 :=
        List.Subset.trans (List.subset_cons_self ..) (List.subset_cons_self ..)
      rcases keeps.tokens addr' with tree | none
      · exact Or.inl (tree.mono (List.Subset.trans before sub))
      · exact Or.inr none

theorem Keeps.entry {device : Device Token} (keeps : Keeps sandbox device) (aftTree : AfiObject)
    (entry : AfiTreeEntry) :
    Keeps sandbox (AftTreeEntry.bind sandbox.client aftTree entry device) := by
  let sent := sandbox.sentBy device.calls
  let encap := sandbox.addEtherEncapNode sent (str "32:26:0a:2e:ff:f1")
    (str "5e:d8:f9:32:bd:85") (sandbox.outputPortToken 1)
  have before : sent ⊆ encap.2 := List.subset_cons_self ..
  constructor
  · refine ⟨⟨?_, _, _, _, .head _⟩, sandbox.given_outputPort 1, keeps.sound⟩
    rcases keeps.tokens aftTree.addr with tree | none
    · exact Or.inl (tree.mono before)
    · exact Or.inr none
  · intro addr
    rcases keeps.tokens addr with tree | none
    · exact Or.inl (tree.mono (List.Subset.trans before (List.subset_cons_self ..)))
    · exact Or.inr none

theorem Keeps.install {device : Device Token} (keeps : Keeps sandbox device)
    (installed : Installed) : Keeps sandbox (device.install sandbox.client installed) := by
  rcases installed with ⟨⟨addr, res, cls, message⟩, uses⟩
  cases cls with
  | tree => exact keeps.tree addr message
  | treeEntry =>
      rcases uses with _ | ⟨aftTree, _ | ⟨_, _⟩⟩
      · exact keeps
      · exact keeps.entry aftTree message
      · exact keeps
  | _ => exact keeps

theorem installAll_keeps (sandbox : AftSandbox Token) (installed : List Installed) :
    Keeps sandbox (installAll sandbox.client installed) := by
  induction installed with
  | nil => exact ⟨trivial, fun _ => Or.inr rfl⟩
  | cons installed before ih => exact ih.install installed

/-- Whatever is installed, in whatever order: each node that is sent leads to nodes sent
before it and to the ports of the sandbox. -/
theorem sandbox_sound (sandbox : AftSandbox Token) (installed : List Installed) :
    sandbox.Sound (sandbox.sentBy (installAll sandbox.client installed).calls) :=
  (installAll_keeps sandbox installed).sound

/-- The node that the input port was last led to. -/
def portNext (index : Nat) (sent : List (Pushed Token)) : Option Token :=
  sent.findSome? fun
    | .node _ (.inputPort i next) => if i = index then some next else none
    | _ => none

/-- The address of the tree that was bound last. -/
def lastTree (installed : List Installed) : Option Nat :=
  installed.findSome? fun
    | ⟨⟨addr, _, .tree, _⟩, _⟩ => some addr
    | _ => none

theorem portNext_setIngressStart (sandbox : AftSandbox Token) (sent : List (Pushed Token))
    (token : Token) {index : Nat} (inside : index < sandbox.inputPorts) :
    portNext index (sandbox.setIngressStart sent token) = some token := by
  have each (ports : List Nat) : ∀ sent : List (Pushed Token),
      portNext index (ports.foldl
        (fun sent i => sandbox.setInputPortNextNode sent i token) sent) =
        if index ∈ ports then some token else portNext index sent := by
    induction ports with
    | nil => exact fun sent => by simp
    | cons i rest ih =>
        intro sent
        have here : portNext index (sandbox.setInputPortNextNode sent i token) =
            if i = index then some token else portNext index sent := by
          by_cases same : i = index
          · simp [portNext, setInputPortNextNode, same]
          · simp [portNext, setInputPortNextNode, same]
        rw [List.foldl_cons, ih, here]
        by_cases later : index ∈ rest
        · simp [later]
        · simp [later, eq_comm]
  rw [setIngressStart, each, if_pos (List.mem_range.mpr inside)]

/-- Every input port leads to the tree that was bound last: a tree that is bound later takes
the packets away from those before, whose routes are still added to. -/
theorem ports_lead_to_last_tree (sandbox : AftSandbox Token) (installed : List Installed)
    {index : Nat} (inside : index < sandbox.inputPorts) :
    portNext index (sandbox.sentBy (installAll sandbox.client installed).calls) =
      (lastTree installed).map (installAll sandbox.client installed).token := by
  induction installed with
  | nil => rfl
  | cons last before ih =>
      rcases last with ⟨⟨addr, res, cls, message⟩, uses⟩
      cases cls with
      | tree =>
          let device := installAll sandbox.client before
          let made := sandbox.addTable (sandbox.sentBy device.calls) (str "rtt0")
            (message.keyField.getD []) sandbox.puntPortToken
          show portNext index (sandbox.setIngressStart made.2 made.1) =
            some (Function.update device.token addr made.1 addr)
          rw [portNext_setIngressStart sandbox _ _ inside, Function.update_self]
      | treeEntry =>
          rcases uses with _ | ⟨aftTree, _ | ⟨_, _⟩⟩
          · exact ih
          · exact ih
          · exact ih
      | _ => exact ih

/-- A sandbox with two ports that numbers its nodes. -/
def twoPorts : AftSandbox Nat where
  tokenNone := 0
  inputPorts := 2
  outputPorts := 2
  outputPort i := some (if i = 0 then str "punt" else str "out", i + 1)
  push sent _ := sent.length + 3

/-- Two trees, of which the second takes the ports. -/
def twoTrees : List Installed :=
  [⟨⟨1, ⟨str "afi-tree", 2, str "ipv4_second", []⟩, .tree,
      { keyField := some (str "ipv4_dst") }⟩, []⟩,
    ⟨⟨0, ⟨str "afi-tree", 1, str "ipv4_first", []⟩, .tree,
      { keyField := some (str "ipv4_dst") }⟩, []⟩]

theorem ports_lead_to_last_tree_two :
    portNext 1 (twoPorts.sentBy (installAll twoPorts.client twoTrees).calls) =
      some ((installAll twoPorts.client twoTrees).token 1) :=
  ports_lead_to_last_tree twoPorts twoTrees (by decide)

end AftSandbox
end JP4Agent.Aft
