import JP4Agent.AftRoutes
import JP4Agent.Base64Stores
import JP4Agent.BindSurroundings

set_option autoImplicit false

namespace JP4Agent
open Agent Afi AfiDevice

theorem decodedBytes_long {bytes decoded : Str} (long : 5000 ≤ bytes.length)
    (returned : decodedBytes (Base64.base64Encode bytes) = .ok decoded) :
    decoded.length < bytes.length := by
  rw [decodedBytes, Base64.base64Encode_eq, Base64.base64Decode] at returned
  cases result : (Base64.base64DecodeFrom (fun _ => 0) (Base64.encodeBytes bytes) 5000).result with
  | error fault => simp [result, Except.map] at returned
  | ok n =>
      have length := Base64.encodeBytes_length bytes
      by_cases small : bytes.length < 2147483648
      · obtain ⟨fault, failed⟩ :=
          Base64.base64DecodeFrom_encodeBytes_long 5000 (fun _ => 0) bytes (by decide) long small
        rw [result] at failed
        cases failed
      · have missed := Base64.base64DecodeFrom_long 5000 (fun _ => 0) bytes n (by omega) result
        simp only [result, Except.map, Except.ok.injEq] at returned
        rw [← returned, HeapBuffer.load_length]
        omega

theorem construct_cases (pb : Protobuf) (c : AfiClass) (message : c.Message) :
    (∃ fault, ∀ parse, construct ⟨pb.serialize, parse⟩ c (encodeMessage pb c message) =
      .error fault) ∨
    ∃ decoded, (5000 ≤ (pb.serialize c message).length →
        decoded.length < (pb.serialize c message).length) ∧
      ∀ parse, construct ⟨pb.serialize, parse⟩ c (encodeMessage pb c message) =
        .ok (parse c decoded) := by
  cases returned : decodedBytes (encodeMessage pb c message) with
  | error fault =>
      refine Or.inl ⟨fault, fun parse => ?_⟩
      rw [construct_eq, returned]
      rfl
  | ok decoded =>
      refine Or.inr ⟨decoded, fun long => decodedBytes_long long returned, fun parse => ?_⟩
      rw [construct_eq, returned]
      rfl

/-- Messages that the library gives back. -/
def Parsable (pb : Protobuf) (c : AfiClass) (message : c.Message) : Prop :=
  (∀ s ∈ stringFields c message, ValidUtf8 s) ∧ (pb.serialize c message).length < 2147483648

open Classical in
/-- The library, except that it makes nothing of these bytes as a tree entry if it is free to. -/
noncomputable def Protobuf.losing (pb : Protobuf) (bytes : Str) :
    (c : AfiClass) → Str → c.Message :=
  Function.update pb.parse .treeEntry fun text =>
    if text = bytes ∧ ∀ message, Parsable pb .treeEntry message →
        pb.serialize .treeEntry message ≠ bytes then {}
    else pb.parse .treeEntry text

theorem Protobuf.losing_roundTrips {pb : Protobuf} (roundTrips : pb.RoundTrips) (bytes : Str) :
    Protobuf.RoundTrips ⟨pb.serialize, pb.losing bytes⟩ := by
  intro c message strings small
  by_cases entry : c = .treeEntry
  · subst entry
    show pb.losing bytes .treeEntry (pb.serialize .treeEntry message) = message
    rw [losing, Function.update_self, if_neg]
    · exact roundTrips .treeEntry message strings small
    · rintro ⟨same, free⟩
      exact free message ⟨strings, small⟩ same
  · show pb.losing bytes c (pb.serialize c message) = message
    rw [losing, Function.update_of_ne entry]
    exact roundTrips c message strings small

theorem Protobuf.losing_forced {pb : Protobuf} (roundTrips : pb.RoundTrips) {bytes : Str}
    {message : AfiTreeEntry} (parsed : pb.losing bytes .treeEntry bytes = message)
    (named : message.name ≠ none) :
    Parsable pb .treeEntry message ∧ pb.serialize .treeEntry message = bytes := by
  rw [losing, Function.update_self] at parsed
  by_cases free : ∀ message, Parsable pb .treeEntry message →
      pb.serialize .treeEntry message ≠ bytes
  · rw [if_pos ⟨rfl, free⟩] at parsed
    rw [← parsed] at named
    exact absurd rfl named
  · rw [if_neg fun wrong => free wrong.2] at parsed
    push Not at free
    obtain ⟨other, parsable, same⟩ := free
    have forced := roundTrips .treeEntry other parsable.1 parsable.2
    rw [same, parsed] at forced
    rw [forced]
    exact ⟨parsable, same⟩

/-- The call ends, with its `_bind`, and an entry that it accepts is found under `entry1` with
its key and its prefix length. -/
def RecordsEntry (pb : Protobuf) (target : Target) (around : Surroundings) (s : Agent)
    (keystr : Str) (pLen : Int32) : Prop :=
  ∃ r t, addEntry pb target keystr pLen s = .ok r t ∧ around.BindsSurvived target s t ∧
    (r = true → ∃ obj n,
      t.lookup (str "entry1") = some obj ∧
      obj.value = ⟨.treeEntry, {
        name := some (str "entry1")
        parentName := some (str "ipv4_lpm")
        targetAfiObject := some (str "etherencap1")
        prefixBytes := some keystr
        prefixLength := some n }⟩ ∧
      (n.toNat : Int) = pLen.toInt)

def HasIpv4Lpm (s : Agent) : Prop :=
  ∃ tree, s.lookup (str "ipv4_lpm") = some tree ∧ tree.cls = .tree

theorem findsTree_entryMessage (s : Agent) (keystr : Str) (pLen : Int32) :
    Surroundings.FindsTree s (str "entry1") (Aft.entryMessage keystr pLen) ↔ HasIpv4Lpm s :=
  and_iff_right (show str "ipv4_lpm" ≠ str "entry1" by decide)

section
variable {pb : Protobuf} {target : Target} {around : Surroundings} {s : Agent} {keystr : Str}
  {pLen : Int32} (shipped : Shipped target)
include shipped

theorem entry_creation_eq :
    creation pb target (afiTreeEntryJsonObject pb keystr pLen) =
      (construct pb .treeEntry (encodeMessage pb .treeEntry (Aft.entryMessage keystr pLen))).map
        fun message => some ⟨.treeEntry, message⟩ := by
  have created := creation_childJsonRes_eq pb target 1233456 (str "entry1") .treeEntry
    (Aft.entryMessage keystr pLen) shipped.creators.2
  exact created

omit shipped in
theorem ofInt_toNat {pLen : Int32} (nonneg : 0 ≤ pLen.toInt) :
    ((UInt64.ofInt pLen.toInt).toNat : Int) = pLen.toInt := by
  have below := pLen.toInt_lt
  rw [UInt64.ofInt, UInt64.toNat_ofNat']
  omega

/-- The call returns true if the constructor does, and the object is stored and bound. -/
theorem addEntry_made {message : AfiTreeEntry}
    (made : construct pb .treeEntry (encodeMessage pb .treeEntry (Aft.entryMessage keystr pLen)) =
      .ok message) :
    ∃ t, addEntry pb target keystr pLen s = .ok true t ∧ Handled target s
      ⟨s.nextAddr, afiTreeEntryJsonObject pb keystr pLen, .treeEntry, message⟩ false t := by
  have created : creation pb target (afiTreeEntryJsonObject pb keystr pLen) = _ :=
    entry_creation_eq shipped
  rw [made] at created
  exact handleAfiJsonObject_made created s

theorem addEntry_failed {fault : Base64.Fault}
    (failed : construct pb .treeEntry (encodeMessage pb .treeEntry (Aft.entryMessage keystr pLen)) =
      .error fault) :
    addEntry pb target keystr pLen s = .error (.decode fault) s := by
  have created : creation pb target (afiTreeEntryJsonObject pb keystr pLen) = _ :=
    entry_creation_eq shipped
  rw [failed] at created
  exact handleAfiJsonObject_failed created s

theorem recordsEntry_iff :
    RecordsEntry pb target around s keystr pLen ↔
      0 ≤ pLen.toInt ∧
        construct pb .treeEntry (encodeMessage pb .treeEntry (Aft.entryMessage keystr pLen)) =
          .ok (Aft.entryMessage keystr pLen) ∧
        (HasIpv4Lpm s → around.Stand target keystr (UInt64.ofInt pLen.toInt)) := by
  constructor
  · rintro ⟨r, t, ran, survived, accepted⟩
    cases constructed : construct pb .treeEntry
        (encodeMessage pb .treeEntry (Aft.entryMessage keystr pLen)) with
    | error fault =>
        rw [addEntry_failed shipped constructed] at ran
        cases ran
    | ok message =>
        obtain ⟨t', ran', stored⟩ := addEntry_made shipped constructed (s := s)
        obtain ⟨rfl, rfl⟩ := EStateM.Result.ok.inj (ran'.symm.trans ran)
        obtain ⟨obj, n, found, holds, length⟩ := accepted rfl
        have nonneg : 0 ≤ pLen.toInt := by omega
        rw [show t'.lookup (str "entry1") = _ from stored.found, Option.some.injEq] at found
        rw [← found] at holds
        have same : n = UInt64.ofInt pLen.toInt := by
          have value := ofInt_toNat nonneg
          apply UInt64.toNat_inj.mp
          omega
        rw [same] at holds
        obtain rfl : message = Aft.entryMessage keystr pLen := eq_of_heq (Sigma.mk.inj holds).2
        refine ⟨nonneg, rfl, fun hasTree => ?_⟩
        exact (around.bindsSurvived_iff stored rfl).mp survived
          ((findsTree_entryMessage s keystr pLen).mpr hasTree)
  · rintro ⟨nonneg, constructed, stand⟩
    obtain ⟨t, ran, stored⟩ := addEntry_made shipped constructed (s := s)
    refine ⟨true, t, ran, (around.bindsSurvived_iff stored rfl).mpr fun finds => ?_,
      fun _ => ⟨_, _, stored.found, rfl, ofInt_toNat nonneg⟩⟩
    exact stand ((findsTree_entryMessage s keystr pLen).mp finds)

end

/-- The names in the message of an entry are ASCII, only its key need not be text. -/
theorem entryMessage_utf8 (keystr : Str) (pLen : Int32) :
    (∀ s ∈ stringFields .treeEntry (Aft.entryMessage keystr pLen), ValidUtf8 s) ↔
      ValidUtf8 keystr := by
  have name : ValidUtf8 (str "entry1") := ⟨"entry1".toList, by decide⟩
  have parentName : ValidUtf8 (str "ipv4_lpm") := ⟨"ipv4_lpm".toList, by decide⟩
  have targetAfiObject : ValidUtf8 (str "etherencap1") := ⟨"etherencap1".toList, by decide⟩
  simp [stringFields, Aft.entryMessage, name, parentName, targetAfiObject]

/-- Under every library that gives back the messages it has to, an entry is recorded exactly if
its key is UTF-8, its prefix length is not negative, its message has less than 5000 bytes, and
the surroundings stand what `_bind` does with them if there is a tree. -/
theorem addEntry_records_iff (pb : Protobuf) (roundTrips : pb.RoundTrips) {target : Target}
    (shipped : Shipped target) (around : Surroundings) (s : Agent) (keystr : Str) (pLen : Int32) :
    (∀ parse, Protobuf.RoundTrips ⟨pb.serialize, parse⟩ →
      RecordsEntry ⟨pb.serialize, parse⟩ target around s keystr pLen) ↔
    ValidUtf8 keystr ∧ 0 ≤ pLen.toInt ∧
      (pb.serialize .treeEntry (Aft.entryMessage keystr pLen)).length < 5000 ∧
      (HasIpv4Lpm s → around.Stand target keystr (UInt64.ofInt pLen.toInt)) := by
  have encoded (parse : (c : AfiClass) → Str → c.Message) :
      encodeMessage ⟨pb.serialize, parse⟩ .treeEntry (Aft.entryMessage keystr pLen) =
        encodeMessage pb .treeEntry (Aft.entryMessage keystr pLen) := rfl
  simp only [recordsEntry_iff shipped, encoded]
  constructor
  · intro records
    rcases construct_cases pb .treeEntry (Aft.entryMessage keystr pLen) with
      ⟨fault, failed⟩ | ⟨decoded, shorter, constructed⟩
    · have recorded := (records pb.parse roundTrips).2.1
      rw [failed] at recorded
      cases recorded
    · -- a library free to lose the message would lose it
      obtain ⟨nonneg, recorded, stand⟩ :=
        records _ (Protobuf.losing_roundTrips roundTrips decoded)
      rw [constructed, Except.ok.injEq] at recorded
      obtain ⟨parsable, serialized⟩ :=
        Protobuf.losing_forced roundTrips recorded (Option.some_ne_none _)
      refine ⟨(entryMessage_utf8 keystr pLen).mp parsable.1, nonneg, ?_, stand⟩
      by_contra long
      have fewer := shorter (by omega)
      rw [serialized] at fewer
      omega
  · rintro ⟨utf8, nonneg, short, stand⟩ parse parses
    refine ⟨nonneg, ?_, stand⟩
    have parsed := parses .treeEntry (Aft.entryMessage keystr pLen)
      ((entryMessage_utf8 keystr pLen).mpr utf8) (show (pb.serialize _ _).length < _ by omega)
    have made := construct_encodeMessage (c := .treeEntry) ⟨pb.serialize, parse⟩ short
    rw [parsed] at made
    exact made

theorem not_recordsEntry_losing {pb : Protobuf} (roundTrips : pb.RoundTrips) {target : Target}
    (shipped : Shipped target) (around : Surroundings) (s : Agent) {keystr : Str} {pLen : Int32}
    (invalid : ¬ ValidUtf8 keystr)
    (short : (pb.serialize .treeEntry (Aft.entryMessage keystr pLen)).length < 5000) :
    ¬ RecordsEntry ⟨pb.serialize, pb.losing (pb.serialize .treeEntry
      (Aft.entryMessage keystr pLen))⟩ target around s keystr pLen := by
  rw [recordsEntry_iff shipped]
  rintro ⟨_, recorded, _⟩
  have made := construct_encodeMessage (c := .treeEntry) ⟨pb.serialize,
    pb.losing (pb.serialize .treeEntry (Aft.entryMessage keystr pLen))⟩ short
  obtain ⟨parsable, _⟩ := Protobuf.losing_forced roundTrips
    (Except.ok.inj (made.symm.trans recorded)) (Option.some_ne_none _)
  exact invalid ((entryMessage_utf8 keystr pLen).mp parsable.1)

theorem hasIpv4Lpm : HasIpv4Lpm ipv4LpmAgent := ⟨ipv4Lpm, ipv4LpmAgent_lookup, rfl⟩

/-- A prefix length for which the loop of the AFT device reads up to the terminator. -/
theorem addEntry_records_iff_short :
    RecordsEntry AfiWire.protobuf Aft.target .strict ipv4LpmAgent [10, 0, 0, 1] 5 := by
  have utf8 : ValidUtf8 [10, 0, 0, 1] := ⟨['\n', '\x00', '\x00', '\x01'], by decide⟩
  have stand : Surroundings.strict.Stand Aft.target [10, 0, 0, 1] 5 :=
    ⟨fun _ => by decide, fun brcm => absurd brcm aft_ne_brcm⟩
  exact (addEntry_records_iff AfiWire.protobuf AfiWire.protobuf_roundTrips (Or.inl rfl) .strict
    ipv4LpmAgent [10, 0, 0, 1] 5).mpr ⟨utf8, by decide, by decide +kernel, fun _ => stand⟩
      AfiWire.protobuf.parse AfiWire.protobuf_roundTrips

/-- No text starts with a continuation byte. -/
theorem not_validUtf8_of_head {byte : UInt8} (rest : Str) (follows : ¬ byte.IsUTF8FirstByte) :
    ¬ ValidUtf8 (byte :: rest) := by
  rintro ⟨text, same⟩
  cases text with
  | nil => simp at same
  | cons c more =>
      have first := UInt8.isUTF8FirstByte_getElem_zero_utf8EncodeChar (c := c)
      have positive : 0 < (String.utf8EncodeChar c).length := by simp [c.utf8Size_pos]
      have head : (String.utf8EncodeChar c)[0]? = some byte := by
        have heads := congrArg (·[0]?) same
        simp only [List.flatMap_cons, List.getElem?_cons_zero] at heads
        rw [List.getElem?_append_left positive] at heads
        exact heads.symm
      rw [List.getElem?_eq_getElem positive, Option.some.injEq] at head
      rw [head] at first
      exact follows first

/-- The library may lose the bytes 172.16.0.1, a key of 5000 bytes stops the agent, a negative
prefix length comes back as a huge one, and where there is a tree the loop of the AFT device
reads 2147483647 bytes of the key and the Broadcom device copies 4000 over a variable of four. -/
theorem addEntry_lost :
    (∃ parse, Protobuf.RoundTrips ⟨AfiWire.protobuf.serialize, parse⟩ ∧
      ¬ RecordsEntry ⟨AfiWire.protobuf.serialize, parse⟩ Aft.target .strict {}
        [172, 16, 0, 1] 16) ∧
    (∃ fault, addEntry AfiWire.protobuf Aft.target (List.replicate 5000 65) 24 {} =
      .error (.decode fault) {}) ∧
    ¬ RecordsEntry AfiWire.protobuf Aft.target .strict {} (List.replicate 5000 65) 24 ∧
    ¬ RecordsEntry AfiWire.protobuf Aft.target .strict {} [10, 0, 0, 1] (-1) ∧
    (∀ around : Surroundings, around.readable < 2147483642 →
      ¬ RecordsEntry AfiWire.protobuf Aft.target around ipv4LpmAgent [10, 0, 0, 1] 2147483647) ∧
    ∀ around : Surroundings, around.writable < 3996 →
      ¬ RecordsEntry AfiWire.protobuf Brcm.target around ipv4LpmAgent (List.replicate 4000 65)
        24 := by
  have shipped : Shipped Aft.target := Or.inl rfl
  obtain ⟨fault, failed⟩ : ∃ fault, construct AfiWire.protobuf .treeEntry (encodeMessage
      AfiWire.protobuf .treeEntry (Aft.entryMessage (List.replicate 5000 65) 24)) =
        .error fault := by
    obtain ⟨fault, stopped⟩ := Base64.base64DecodeFrom_encodeBytes_long 5000 (fun _ => 0)
      (AfiWire.protobuf.serialize .treeEntry (Aft.entryMessage (List.replicate 5000 65) 24))
      (by decide) (by decide +kernel) (by decide +kernel)
    refine ⟨fault, ?_⟩
    rw [construct, encodeMessage, Base64.base64Encode_eq, Base64.base64Decode, stopped]
    rfl
  have aborted := addEntry_failed shipped failed (s := {})
  refine ⟨⟨_, Protobuf.losing_roundTrips AfiWire.protobuf_roundTrips _,
    not_recordsEntry_losing AfiWire.protobuf_roundTrips shipped .strict {}
      (not_validUtf8_of_head [16, 0, 1] (by decide)) (by decide +kernel)⟩,
    ⟨fault, aborted⟩, ?_, ?_, fun around few => ?_, fun around few => ?_⟩
  · rw [recordsEntry_iff shipped, failed]
    rintro ⟨_, wrong, _⟩
    cases wrong
  · rw [recordsEntry_iff shipped]
    exact fun wrong => absurd wrong.1 (by decide)
  · rw [recordsEntry_iff shipped]
    rintro ⟨_, _, stand⟩
    have reads : 2147483647 ≤ 4 + 1 + around.readable := ((stand hasIpv4Lpm).1 rfl).2
    omega
  · rw [recordsEntry_iff (Or.inr (Or.inr rfl))]
    rintro ⟨_, _, stand⟩
    have copied := ((stand hasIpv4Lpm).2 rfl).1
    rw [List.length_replicate] at copied
    omega

end JP4Agent
