import JP4Agent.AfiAccepted
import JP4Agent.AfiInsertRuns
import JP4Agent.P4RuntimeService

set_option autoImplicit false

namespace JP4Agent.P4RuntimeServiceImpl
open Agent Afi P4

def FieldMatchType.isLpm : FieldMatchType → Bool
  | .lpm _ _ => true
  | _ => false

/-- An LPM field of the table whose LPM fields go to `addEntry`. -/
def AddsEntry (entry : TableEntry) : Prop :=
  entry.tableId = addEntryTable ∧ ∃ mf ∈ entry.fieldMatches, FieldMatchType.isLpm mf.type = true

def passedIds (fieldMatches : List FieldMatch) : List UInt32 :=
  fieldMatches.filterMap fun mf =>
    match mf.type with
    | .exact _ | .lpm _ _ | .ternary _ _ => some mf.fieldId
    | _ => none

/-- The update is an insert of a table entry, and the call that makes the entry was made
and returned true. -/
def TookEffect (update : Update) (calls : List AfiCall) : Prop :=
  match update.type, update.entity with
  | .insert, .tableEntry entry =>
    (AddsEntry entry → .addEntry true ∈ calls ∧ .addEntry false ∉ calls) ∧
      (¬ AddsEntry entry → .afiAddObjEntry true ∈ calls)
  | _, _ => False

/-- An insert of an entry that is no default entry and has no direct resources, and that
the AFI layer accepts. -/
def Accepted (target : Target) (s : Agent) (update : Update) (mem : Memory) : Prop :=
  match update.type, update.entity with
  | .insert, .tableEntry entry =>
    entry.hasMeterConfig = false ∧ entry.hasCounterData = false ∧ entry.isDefaultAction = false ∧
      (AddsEntry entry → (target.creators (str "afi-tree-entry")).isSome) ∧
      (¬ AddsEntry entry → AfiAccepts target s entry.tableId (convertAction mem entry.action).1
        (passedIds entry.fieldMatches)
        ((convertAction mem entry.action).2.map AfiAEntry.id))
  | _, _ => False

theorem not_tookEffect_nil (update : Update) : ¬ TookEffect update [] := by
  rcases update with ⟨type, entity⟩
  cases entity with
  | tableEntry entry =>
      cases type with
      | insert =>
          rintro ⟨viaAddEntry, viaAfi⟩
          by_cases adds : AddsEntry entry
          · exact nomatch (viaAddEntry adds).1
          · exact nomatch viaAfi adds
      | _ => exact id
  | _ => cases type <;> exact id

section
variable (pb : Protobuf) (target : Target) (mem : Memory)

theorem convertMatch_plain (tableId : UInt32) (fieldMatches : List FieldMatch) : ∀ (i : Nat)
    (s : Agent), (tableId = addEntryTable →
      ∀ mf ∈ fieldMatches, FieldMatchType.isLpm mf.type = false) →
    Ends (convertMatch pb target mem tableId i fieldMatches) s
      (fun r t => r.1 = [] ∧ r.2.map AfiTEntryMatchField.id = passedIds fieldMatches ∧ t = s)
      (fun _ _ => False) := by
  induction fieldMatches with
  | nil => exact fun i s _ => ends_pure ⟨rfl, rfl, rfl⟩
  | cons mf rest ih =>
      intro i s plain
      have others := ih (i + 1) s fun special mf member =>
        plain special mf (List.mem_cons_of_mem _ member)
      rcases mf with ⟨fieldId, type⟩
      -- the ids pushed so far are those of the fields passed on so far
      have push : ∀ afiMF : AfiTEntryMatchField, afiMF.id = fieldId → Ends (do
          let r ← convertMatch pb target mem tableId (i + 1) rest
          pure (r.1, afiMF :: r.2)) s
          (fun r t => r.1 = [] ∧
            r.2.map AfiTEntryMatchField.id = fieldId :: passedIds rest ∧ t = s)
          (fun _ _ => False) := by
        intro afiMF same
        apply ends_bind
        refine others.mono (fun r t post => ?_) fun _ _ failed => failed
        obtain ⟨calls, pushed, rfl⟩ := post
        exact ends_pure ⟨calls, by rw [List.map_cons, same, pushed], rfl⟩
      rw [convertMatch]
      cases type with
      | exact value => exact push _ rfl
      | lpm value prefixLen =>
          dsimp only
          split
          · rename_i special
            cases plain special _ List.mem_cons_self
          · exact push _ rfl
      | ternary value mask => exact push _ rfl
      | _ => exact others

theorem addEntry_returns (keystr : Str) (pLen : Int32) (s : Agent) :
    Ends (addEntry pb target keystr pLen) s
      (fun r _ => r = (target.creators (str "afi-tree-entry")).isSome) (fun _ _ => True) := by
  refine (handleAfiJsonObject_ends pb target _ false s).mono (fun r t post => ?_)
    fun _ _ _ => trivial
  rcases post with ⟨created, rfl, _⟩ | ⟨value, created, rfl, _⟩
  · exact (AfiDevice.creator_of_creation pb target created).symm
  · exact (AfiDevice.creator_of_creation pb target created).symm

theorem convertMatch_special (fieldMatches : List FieldMatch) : ∀ (i : Nat) (s : Agent),
    Ends (convertMatch pb target mem addEntryTable i fieldMatches) s
      (fun r _ => r.1 = List.replicate (fieldMatches.countP fun mf => FieldMatchType.isLpm mf.type)
        (.addEntry (target.creators (str "afi-tree-entry")).isSome))
      (fun _ _ => True) := by
  induction fieldMatches with
  | nil => exact fun i s => ends_pure rfl
  | cons mf rest ih =>
      intro i s
      have others := ih (i + 1) s
      rcases mf with ⟨fieldId, type⟩
      rw [convertMatch]
      cases type with
      | lpm value prefixLen =>
          dsimp only
          rw [if_pos rfl, List.countP_cons_of_pos rfl, List.replicate_succ]
          refine ends_bind ((addEntry_returns pb target value prefixLen s).mono
            (fun returned t post => ?_) fun _ _ _ => trivial)
          refine ends_bind ((ih (i + 1) t).mono (fun r u calls => ?_) fun _ _ _ => trivial)
          exact ends_pure (by rw [post, calls])
      | exact value =>
          rw [List.countP_cons_of_neg Bool.false_ne_true]
          exact ends_bind (others.mono (fun _ _ calls => ends_pure calls) fun _ _ _ => trivial)
      | ternary value mask =>
          rw [List.countP_cons_of_neg Bool.false_ne_true]
          exact ends_bind (others.mono (fun _ _ calls => ends_pure calls) fun _ _ _ => trivial)
      | _ =>
          rw [List.countP_cons_of_neg Bool.false_ne_true]
          exact others

theorem tableInsert_ends (entry : TableEntry) (s : Agent) :
    Ends (tableInsert pb target mem entry) s
      (fun r _ => r.1 = .OK ∧ (TookEffect ⟨.insert, .tableEntry entry⟩ r.2 ↔
        entry.isDefaultAction = false ∧
          (AddsEntry entry → (target.creators (str "afi-tree-entry")).isSome) ∧
          (¬ AddsEntry entry → AfiAccepts target s entry.tableId
            (convertAction mem entry.action).1 (passedIds entry.fieldMatches)
            ((convertAction mem entry.action).2.map AfiAEntry.id))))
      (fun _ _ => True) := by
  rw [tableInsert]
  split
  · rename_i isDefault
    refine ends_pure ⟨rfl, iff_of_false (not_tookEffect_nil _) fun accepted => ?_⟩
    rw [accepted.1] at isDefault
    cases isDefault
  · rename_i notDefault
    rw [Bool.not_eq_true] at notDefault
    by_cases adds : AddsEntry entry
    · obtain ⟨special, mf, member, lpm⟩ := adds
      rw [special]
      refine ends_bind ((convertMatch_special pb target mem entry.fieldMatches 0 s).mono
        (fun r t calls => ?_) fun _ _ _ => trivial)
      have positive : (entry.fieldMatches.countP fun mf => FieldMatchType.isLpm mf.type) ≠ 0 :=
        (List.countP_pos_iff.mpr ⟨mf, member, lpm⟩).ne'
      have adds : AddsEntry entry := ⟨special, mf, member, lpm⟩
      refine ends_bind (Ends.of_returns fun returned u _ => ends_pure ⟨rfl, ?_⟩)
      rw [calls]
      cases (target.creators (str "afi-tree-entry")).isSome with
      | true => simp [TookEffect, adds, notDefault, List.mem_replicate, positive]
      | false => simp [TookEffect, adds, List.mem_replicate, positive]
    · have plain : entry.tableId = addEntryTable →
          ∀ mf ∈ entry.fieldMatches, FieldMatchType.isLpm mf.type = false := by
        intro special mf member
        exact Bool.eq_false_iff.mpr fun lpm => adds ⟨special, mf, member, lpm⟩
      refine ends_bind ((convertMatch_plain pb target mem entry.tableId entry.fieldMatches 0 s
        plain).mono (fun r t post => ?_) nofun)
      obtain ⟨calls, pushed, rfl⟩ := post
      refine ends_bind ((afiAddObjEntry_adds pb target entry.tableId
        (convertAction mem entry.action).1 r.2 (convertAction mem entry.action).2 t).mono
        (fun returned u post => ends_pure ⟨rfl, ?_⟩) fun _ _ _ => trivial)
      have accepted := post.2.1.trans (childrenOf_accepted_iff pb target t entry.tableId
        (convertAction mem entry.action).1 r.2 (convertAction mem entry.action).2)
      rw [pushed] at accepted
      rw [calls]
      simp only [TookEffect, adds, notDefault, not_false_iff, false_implies, true_implies,
        true_and, List.nil_append, List.mem_singleton, AfiCall.afiAddObjEntry.injEq, ← accepted,
        eq_comm]

/-- A round of the loop over the updates that returns keeps the status OK; the update took
effect exactly if it was accepted. -/
theorem writeUpdate_ends (update : Update) (s : Agent) :
    Ends (writeUpdate pb target .OK update mem) s
      (fun r _ => r.1 = .OK ∧ (TookEffect update r.2 ↔ Accepted target s update mem))
      (fun _ _ => True) := by
  have refused (no : ¬ Accepted target s update mem) :
      TookEffect update [] ↔ Accepted target s update mem :=
    iff_of_false (not_tookEffect_nil update) no
  rcases update with ⟨type, entity⟩
  rw [writeUpdate]
  cases entity with
  | tableEntry entry =>
      dsimp only
      unfold tableWrite
      by_cases direct : (entry.hasMeterConfig || entry.hasCounterData) = true
      · rw [if_pos direct]
        refine ends_pure ⟨rfl, refused fun accepted => ?_⟩
        cases type with
        | insert =>
            rw [accepted.1, accepted.2.1] at direct
            cases direct
        | _ => exact accepted
      · rw [if_neg direct]
        rw [Bool.not_eq_true, Bool.or_eq_false_iff] at direct
        cases type with
        | insert =>
            refine (tableInsert_ends pb target mem entry s).mono (fun r _ post => ⟨post.1, ?_⟩)
              fun _ _ _ => trivial
            rw [post.2]
            exact ⟨fun accepted => ⟨direct.1, direct.2, accepted⟩, fun accepted => accepted.2.2⟩
        | _ => exact ends_pure ⟨rfl, refused id⟩
  | _ => exact ends_pure ⟨rfl, refused (by cases type <;> exact id)⟩

def step (s : Agent) (round : Update × Memory) : Option Agent :=
  match writeUpdate pb target .OK round.1 round.2 s with
  | .ok _ t => some t
  | .error _ _ => none

omit mem

theorem writeUpdates_ends (updates : List (Update × Memory)) : ∀ s : Agent,
    Ends (writeUpdates pb target .OK updates) s
      (fun r _ => r.1 = .OK ∧
        (List.Forall₂ (fun round calls => TookEffect round.1 calls) updates r.2 ↔
          EveryStep (step pb target) (fun s round => Accepted target s round.1 round.2) s updates))
      (fun _ _ => True) := by
  induction updates with
  | nil => exact fun s => ends_pure ⟨rfl, iff_of_true .nil trivial⟩
  | cons round rest ih =>
      intro s
      apply ends_bind
      have ends := writeUpdate_ends pb target round.2 round.1 s
      cases ran : writeUpdate pb target .OK round.1 round.2 s with
      | error e t =>
          rw [Ends, ran]
          trivial
      | ok r t =>
          obtain ⟨ok, effect⟩ := ends.of_ok ran
          rw [Ends, ran]
          dsimp only
          rw [ok]
          refine ends_bind ((ih t).mono (fun others u post => ends_pure ⟨post.1, ?_⟩)
            fun _ _ _ => trivial)
          have next : step pb target s round = some t := by rw [step, ran]
          rw [List.forall₂_cons, effect, post.2, EveryStep]
          refine and_congr_right fun _ => ⟨fun later s' taken => ?_, fun later => later t next⟩
          cases next.symm.trans taken
          exact later

/-- A write that returns reports OK; each of its updates took effect exactly if each was
accepted in the state that the ones before it had led to. -/
theorem write_ok_iff (updates : List (Update × Memory)) (s t : Agent) (status : Status)
    (calls : List (List AfiCall)) (returned : write pb target updates s = .ok (status, calls) t) :
    (status = .OK → List.Forall₂ (fun round calls => TookEffect round.1 calls) updates calls) ↔
      EveryStep (step pb target) (fun s round => Accepted target s round.1 round.2) s updates := by
  obtain ⟨rfl, iff⟩ := (writeUpdates_ends pb target updates s).of_ok returned
  exact ⟨fun took => iff.mp (took rfl), fun accepted _ => iff.mpr accepted⟩

end
/-- The VRF classifier entry as a controller writes it. -/
def vrfEntry (mac dst : Str) : TableEntry where
  tableId := Spine.vrfTable.id
  fieldMatches := [⟨1, .ternary [8, 0] (List.replicate 2 0xff)⟩,
    ⟨2, .ternary mac (List.replicate 6 0xff)⟩, ⟨4, .ternary dst (List.replicate 4 0xff)⟩]
  action := .action Spine.setVrf.id [⟨1, [0, 0, 0, 5]⟩]
  isDefaultAction := false
  hasMeterConfig := false
  hasCounterData := false

theorem write_ok_iff_spine : ∃ s t,
    let updates : List (Update × Memory) :=
      [(⟨.insert, .tableEntry (vrfEntry Spine.first.1 Spine.first.2)⟩, {})]
    let calls : List (List AfiCall) := [[.afiAddObjEntry true]]
    run (Process.step AfiWire.protobuf Brcm.target) {} Spine.ops = some { agent := s } ∧
      write AfiWire.protobuf Brcm.target updates s = .ok (.OK, calls) t ∧
      ((Status.OK = .OK →
          List.Forall₂ (fun round calls => TookEffect round.1 calls) updates calls) ↔
        EveryStep (step AfiWire.protobuf Brcm.target)
          (fun s round => Accepted Brcm.target s round.1 round.2) s updates) := by
  obtain ⟨s, afiPObj, reached, ready⟩ := Spine.ops_ready
  obtain ⟨t, returned⟩ := afiAddObjEntry_created AfiWire.protobuf Brcm.target
    (Spine.childrenOf_entry ready _ _) (Spine.children_created List.mem_cons_self)
  have inserted : tableInsert AfiWire.protobuf Brcm.target {}
      (vrfEntry Spine.first.1 Spine.first.2) s = .ok (.OK, [.afiAddObjEntry true]) t :=
    bind_eq_ok.mpr ⟨([], Spine.mfs Spine.first.1 Spine.first.2), s, rfl,
      bind_eq_ok.mpr ⟨true, t, returned, rfl⟩⟩
  have written : write AfiWire.protobuf Brcm.target
      [(⟨.insert, .tableEntry (vrfEntry Spine.first.1 Spine.first.2)⟩, {})] s =
        .ok (.OK, [[.afiAddObjEntry true]]) t :=
    bind_eq_ok.mpr ⟨_, t, inserted, rfl⟩
  exact ⟨s, t, reached, written, write_ok_iff _ _ _ s t _ _ written⟩

/-- A fresh agent reports OK for a modification, which it skips, and for an insert into a
table it does not know, which the AFI layer refuses. -/
theorem write_ok_without_effect : ∃ t,
    let entry := vrfEntry Spine.first.1 Spine.first.2
    let updates : List (Update × Memory) :=
      [(⟨.modify, .tableEntry entry⟩, {}), (⟨.insert, .tableEntry entry⟩, {})]
    let calls : List (List AfiCall) := [[], [.afiAddObjEntry false]]
    write AfiWire.protobuf Brcm.target updates {} = .ok (.OK, calls) t ∧
      ¬ TookEffect ⟨.modify, .tableEntry entry⟩ [] ∧
      ¬ TookEffect ⟨.insert, .tableEntry entry⟩ [.afiAddObjEntry false] ∧
      ¬ List.Forall₂ (fun round calls => TookEffect round.1 calls) updates calls := by
  refine ⟨_, rfl, not_tookEffect_nil _, fun effect => ?_, fun all => ?_⟩
  · have made := effect.2 fun adds => absurd adds.1 (by decide)
    cases List.mem_singleton.mp made
  · exact not_tookEffect_nil _ (List.forall₂_cons.mp all).1

end JP4Agent.P4RuntimeServiceImpl
