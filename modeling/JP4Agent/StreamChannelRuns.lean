import JP4Agent.ControllerConnection
import JP4Agent.HostpathTransmit

set_option autoImplicit false

namespace JP4Agent.StreamChannel

variable {Stream : Type} [DecidableEq Stream]

theorem setPhase_handlers (s : State Stream) (stream other : Stream) (phase : Phase) :
    (s.setPhase stream phase).handlers other = if other = stream then phase else s.handlers other :=
  Function.update_apply ..

/-- A registered stream belongs to a handler that has not cleared it. -/
def Held (s : State Stream) : Prop :=
  ∀ stream, s.conn.stream_ = some stream → (s.handlers stream).Open

theorem held_step (s : State Stream) (action : Action Stream) (s' : State Stream) (held : Held s)
    (taken : step s action = some s') : Held s' := by
  intro other registered
  cases step_taken taken with
  | enter stream idle =>
      cases registered
      change ((s.setPhase other .running).handlers other).Open
      rw [setPhase_handlers, if_pos rfl]
      exact Or.inl rfl
  | arbitrate | proceed | drop => exact held other registered
  | throw stream request running transmits =>
      rw [setPhase_handlers]
      split
      · exact Or.inr rfl
      · exact held other registered
  | clear stream running => cases registered
  | finish stream cleared =>
      rw [setPhase_handlers]
      have opened := held other registered
      split
      · rename_i same
        rw [same, cleared] at opened
        rcases opened with wrong | wrong <;> cases wrong
      · exact opened
  | punt fromDevice payload => exact held other registered

/-- The log of the writes agrees with the calls of `send_pkt_in` that returned. -/
structure Logged (s : State Stream) : Prop where
  held : Held s
  opened : ∀ w ∈ s.writes, w.phase.Open
  threw : ∀ w ∈ s.writes, w.phase = .threw → s.handlers w.stream = .threw
  once : (s.writes.filterMap Write.punt).Nodup
  called : ∀ n ∈ s.writes.filterMap Write.punt, n < s.results.length
  delivered : ∀ n, (inside : n < s.results.length) →
    (s.results[n] = true ↔ n ∈ s.writes.filterMap Write.punt)

omit [DecidableEq Stream] in
theorem logged_init : Logged ({} : State Stream) where
  held := by
    intro stream registered
    cases registered
  opened := by simp
  threw := by simp
  once := by simp
  called := by simp
  delivered := by simp

/-- A handler that threw takes no further step. -/
theorem threw_step {s s' : State Stream} {action : Action Stream} (taken : step s action = some s')
    (stream : Stream) (threw : s.handlers stream = .threw) : s'.handlers stream = .threw := by
  have keeps (other : Stream) (phase : Phase) (apart : s.handlers other ≠ .threw) :
      (s.setPhase other phase).handlers stream = .threw := by
    rw [setPhase_handlers, if_neg, threw]
    rintro rfl
    exact apart threw
  cases step_taken taken with
  | enter other idle => exact keeps other _ (by rw [idle]; decide)
  | arbitrate | proceed | drop | punt => exact threw
  | throw other _ running => exact keeps other _ (by rw [running]; decide)
  | clear other running => exact keeps other _ (by rw [running]; decide)
  | finish other cleared => exact keeps other _ (by rw [cleared]; decide)

omit [DecidableEq Stream] in
theorem logged_sendPktIn {s : State Stream} (logged : Logged s) (payload : Str) :
    Logged (s.sendPktIn payload) := by
  have fresh : s.results.length ∉ s.writes.filterMap Write.punt := by
    intro member
    exact Nat.lt_irrefl _ (logged.called _ member)
  have results : (s.sendPktIn payload).results.length = s.results.length + 1 :=
    List.length_append
  have latest : ∀ n, (inside : n < (s.sendPktIn payload).results.length) →
      (s.sendPktIn payload).results[n] =
        if old : n < s.results.length then s.results[n] else s.conn.stream_.isSome := by
    intro n inside
    have appended : (s.sendPktIn payload).results = s.results ++ [s.conn.stream_.isSome] := by
      simp only [State.sendPktIn, ControllerConnection.sendPktIn_eq]
    simp only [appended, List.getElem_append]
    split <;> simp
  cases registered : s.conn.stream_ with
  | none =>
      have writes : (s.sendPktIn payload).writes = s.writes := by
        simp only [State.sendPktIn, ControllerConnection.sendPktIn_eq, registered]
      refine ⟨logged.held, ?_, ?_, ?_, ?_, ?_⟩
      · rw [writes]; exact logged.opened
      · rw [writes]; exact logged.threw
      · rw [writes]; exact logged.once
      · rw [writes, results]
        intro n member
        exact Nat.lt_succ_of_lt (logged.called n member)
      · intro n inside
        rw [latest n inside, writes]
        split
        · exact logged.delivered n _
        · rename_i last
          simp only [registered, Option.isSome_none, Bool.false_eq_true, false_iff]
          intro member
          exact last (logged.called n member)
  | some stream =>
      have writes : (s.sendPktIn payload).writes =
          ⟨stream, s.handlers stream, .packet payload, some s.results.length⟩ :: s.writes := by
        simp only [State.sendPktIn, ControllerConnection.sendPktIn_eq, registered]
      have calls : (s.sendPktIn payload).writes.filterMap Write.punt =
          s.results.length :: s.writes.filterMap Write.punt := by
        rw [writes]
        rfl
      refine ⟨logged.held, ?_, ?_, ?_, ?_, ?_⟩
      · rw [writes]
        rintro w (_ | ⟨_, member⟩)
        · exact logged.held stream registered
        · exact logged.opened w member
      · rw [writes]
        rintro w (_ | ⟨_, member⟩)
        · exact fun threw => threw
        · exact logged.threw w member
      · rw [calls]
        exact List.nodup_cons.mpr ⟨fresh, logged.once⟩
      · rw [calls, results]
        rintro n (_ | ⟨_, member⟩)
        · exact Nat.lt_succ_self _
        · exact Nat.lt_succ_of_lt (logged.called n member)
      · intro n inside
        rw [latest n inside, calls, List.mem_cons]
        split
        · rename_i old
          rw [logged.delivered n old]
          exact ⟨Or.inr, fun member => member.resolve_left (Nat.ne_of_lt old)⟩
        · rename_i last
          have same : n = s.results.length := by omega
          simp only [registered, same, Option.isSome_some, true_or]

/-- A step that calls no `send_pkt_in` leaves the log of its writes alone. -/
theorem logged_of_same {s s' : State Stream} {action : Action Stream} (logged : Logged s)
    (taken : step s action = some s') (writes : s'.writes = s.writes)
    (results : s'.results = s.results) : Logged s' where
  held := held_step s action s' logged.held taken
  opened := by rw [writes]; exact logged.opened
  threw := by
    rw [writes]
    intro w member threw
    exact threw_step taken _ (logged.threw w member threw)
  once := by rw [writes]; exact logged.once
  called := by rw [writes, results]; exact logged.called
  delivered := by
    intro n inside
    rw [writes]
    simp only [results] at inside ⊢
    exact logged.delivered n inside

theorem logged_step (s : State Stream) (action : Action Stream) (s' : State Stream)
    (logged : Logged s) (taken : step s action = some s') : Logged s' := by
  cases step_taken taken with
  | enter | throw | clear | finish => exact logged_of_same logged taken rfl rfl
  | proceed | drop => exact logged
  | arbitrate stream delivered running =>
      refine ⟨logged.held, ?_, ?_, logged.once, logged.called, logged.delivered⟩
      · rintro w (_ | ⟨_, member⟩)
        · exact Or.inl running
        · exact logged.opened w member
      · rintro w (_ | ⟨_, member⟩)
        · exact fun threw => threw
        · exact logged.threw w member
  | punt fromDevice payload => exact logged_sendPktIn logged payload

/-- Over any interleaving: each call of `send_pkt_in` writes at most once, to a stream
whose handler has been entered and has not executed its `clear_stream` (nor thrown, if
none did), and it returned true exactly if it wrote. -/
theorem punted_packets_written (actions : List (Action Stream)) (s : State Stream)
    (ran : run step {} actions = some s) :
    (s.writes.filterMap Write.punt).Nodup ∧
      (∀ w ∈ s.writes, w.punt ≠ none → w.phase.Open ∧
        ((∀ stream, s.handlers stream ≠ .threw) → w.phase = .running)) ∧
      (∀ w ∈ s.writes, ∀ n, w.punt = some n → n < s.results.length) ∧
      ∀ n, (inside : n < s.results.length) →
        (s.results[n] = true ↔ ∃ w ∈ s.writes, w.punt = some n) := by
  have logged := run_invariant logged_step logged_init ran
  refine ⟨logged.once, ?_, ?_, ?_⟩
  · intro w member _
    have opened := logged.opened w member
    refine ⟨opened, fun none => opened.resolve_right fun threw => ?_⟩
    exact none w.stream (logged.threw w member threw)
  · intro w member n call
    exact logged.called n (List.mem_filterMap.mpr ⟨w, member, call⟩)
  · intro n inside
    rw [logged.delivered n inside, List.mem_filterMap]

theorem punted_packets_written_reconnect :
    let actions : List (Action Nat) := [.enter 0, .enter 1, .punt (List.replicate 9 0), .clear 0,
      .punt (List.replicate 9 0)]
    ∃ s, run step {} actions = some s ∧ s.results = [true, false] ∧
      (s.writes.filterMap Write.punt).Nodup :=
  ⟨_, rfl, rfl, (punted_packets_written [.enter 0, .enter 1, .punt (List.replicate 9 0), .clear 0,
    .punt (List.replicate 9 0)] _ rfl).1⟩

/-- Punted packets reach the most recently opened stream while its handler runs. -/
def CurrentHeld (s : State Stream) : Prop :=
  ∀ stream, s.opened.head? = some stream → s.handlers stream = .running →
    s.conn.sendPktIn = (some stream, true)

/-- A handler closes only when no later one is running. -/
def ClearsCurrent (s : State Stream) (action : Action Stream) : Prop :=
  ∀ stream current, action = .clear stream → s.opened.head? = some current →
    s.handlers current = .running → current = stream

omit [DecidableEq Stream] in
theorem clearsCurrent_of_ne {s : State Stream} {action : Action Stream}
    (apart : ∀ stream, action ≠ .clear stream) : ClearsCurrent s action :=
  fun stream _ closes => absurd closes (apart stream)

theorem currentHeld_iff (s : State Stream) (action : Action Stream) (s' : State Stream)
    (_ : True) (held : CurrentHeld s) (taken : step s action = some s') :
    CurrentHeld s' ↔ ClearsCurrent s action := by
  -- only the step `clear` can break it, so every other action meets the condition
  have leaves (other : Stream) (phase : Phase) (ends : phase ≠ .running) :
      CurrentHeld (s.setPhase other phase) := by
    intro stream latest running
    rw [setPhase_handlers] at running
    split at running
    · exact absurd running ends
    · exact held stream latest running
  cases step_taken taken with
  | enter stream idle =>
      refine ⟨fun _ => clearsCurrent_of_ne nofun, ?_⟩
      rintro _ current latest running
      cases latest
      rfl
  | arbitrate | proceed | drop => exact ⟨fun _ => clearsCurrent_of_ne nofun, fun _ => held⟩
  | punt fromDevice payload => exact ⟨fun _ => clearsCurrent_of_ne nofun, fun _ => held⟩
  | throw stream =>
      exact ⟨fun _ => clearsCurrent_of_ne nofun, fun _ => leaves stream .threw (by decide)⟩
  | finish stream =>
      exact ⟨fun _ => clearsCurrent_of_ne nofun, fun _ => leaves stream .returned (by decide)⟩
  | clear stream running =>
      constructor
      · intro after _ current closes latest stillRunning
        cases closes
        by_contra apart
        have delivered := after current latest (by
          change (s.setPhase stream .cleared).handlers current = .running
          rw [setPhase_handlers, if_neg apart, stillRunning])
        cases delivered
      · intro closes current latest stillRunning
        change (s.setPhase stream .cleared).handlers current = .running at stillRunning
        rw [setPhase_handlers] at stillRunning
        split at stillRunning
        · cases stillRunning
        · rename_i apart
          exact absurd (closes stream current rfl latest stillRunning) apart

/-- The current controller is reached all along a run exactly when no handler
closes while a later one is running. -/
theorem current_stream_held_iff (actions : List (Action Stream)) (s : State Stream)
    (ran : run step {} actions = some s) :
    EveryState step CurrentHeld {} actions ↔ EveryStep step ClearsCurrent {} actions :=
  everyState_iff_everyStep (fun _ _ _ _ _ => trivial) currentHeld_iff trivial
    (fun _ latest => nomatch latest) ran

theorem current_stream_held_iff_reopen :
    let actions : List (Action Nat) := [.enter 0, .clear 0, .finish 0, .enter 1]
    EveryState step CurrentHeld {} actions ↔ EveryStep step ClearsCurrent {} actions :=
  current_stream_held_iff _ _ rfl

/-- The handler of the first connection ends after the second has started. -/
theorem current_stream_lost :
    ¬ ∀ (actions : List (Action Nat)) (s : State Nat), run step {} actions = some s →
      EveryState step CurrentHeld {} actions := by
  intro all
  have held := (all [.enter 0, .enter 1, .clear 0] _ rfl).last rfl
  exact nomatch held 1 rfl rfl

/-- No stream of a handler that is over is registered. -/
def Released (s : State Stream) : Prop :=
  ∀ stream, (s.handlers stream).Ended → s.conn.stream_ ≠ some stream

/-- A failing `send_to` in a handler comes when another stream, or none, is registered. -/
def FailsUnregistered (s : State Stream) (action : Action Stream) : Prop :=
  ∀ stream request, action = .message stream request false → Transmits request →
    s.conn.stream_ ≠ some stream

omit [DecidableEq Stream] in
theorem failsUnregistered_of_ne {s : State Stream} {action : Action Stream}
    (apart : ∀ stream request, action ≠ .message stream request false) :
    FailsUnregistered s action :=
  fun stream request fails => absurd fails (apart stream request)

theorem released_iff (s : State Stream) (action : Action Stream) (s' : State Stream)
    (held : Held s) (released : Released s) (taken : step s action = some s') :
    Released s' ↔ FailsUnregistered s action := by
  cases step_taken taken with
  | enter stream idle =>
      refine ⟨fun _ => failsUnregistered_of_ne nofun, fun _ other ended registered => ?_⟩
      cases registered
      change ((s.setPhase stream .running).handlers stream).Ended at ended
      rw [setPhase_handlers, if_pos rfl] at ended
      rcases ended with wrong | wrong <;> cases wrong
  | arbitrate stream delivered =>
      refine ⟨fun _ _ _ fails transmits => ?_, fun _ => released⟩
      cases fails
      exact absurd transmits id
  | drop => exact ⟨fun _ => failsUnregistered_of_ne nofun, fun _ => released⟩
  | punt fromDevice payload => exact ⟨fun _ => failsUnregistered_of_ne nofun, fun _ => released⟩
  | proceed stream request delivered running sent =>
      refine ⟨fun _ _ _ fails transmits => ?_, fun _ => released⟩
      cases fails
      exact absurd ⟨transmits, rfl⟩ sent
  | throw stream request running transmits =>
      constructor
      · intro after other _ fails _
        cases fails
        exact after stream (by rw [setPhase_handlers, if_pos rfl]; exact Or.inr rfl)
      · intro fails other ended registered
        rw [setPhase_handlers] at ended
        split at ended
        · rename_i same
          exact fails stream request rfl transmits (by rw [← same]; exact registered)
        · exact released other ended registered
  | clear stream running =>
      exact ⟨fun _ => failsUnregistered_of_ne nofun, fun _ _ _ registered => nomatch registered⟩
  | finish stream cleared =>
      refine ⟨fun _ => failsUnregistered_of_ne nofun, fun _ other ended registered => ?_⟩
      rw [setPhase_handlers] at ended
      split at ended
      · rename_i same
        have opened := held other registered
        rw [same, cleared] at opened
        rcases opened with wrong | wrong <;> cases wrong
      · exact released other ended registered

/-- The streams of ended handlers stay unregistered all along a run exactly when
`send_to` never fails in the handler of the registered stream. -/
theorem ended_streams_released_iff (actions : List (Action Stream)) (s : State Stream)
    (ran : run step {} actions = some s) :
    EveryState step Released {} actions ↔ EveryStep step FailsUnregistered {} actions :=
  everyState_iff_everyStep held_step released_iff (fun _ registered => nomatch registered)
    (fun _ _ registered => nomatch registered) ran

theorem ended_streams_released_iff_close :
    let actions : List (Action Nat) := [.enter 0, .message 0 .arbitration true, .clear 0, .finish 0]
    EveryState step Released {} actions ↔ EveryStep step FailsUnregistered {} actions :=
  ended_streams_released_iff _ _ rfl

/-- A failing `send_to` ends the handler. -/
theorem step_throw {s : State Stream} {stream : Stream} {payload : Str}
    (running : s.handlers stream = .running) (transmits : Transmits (.packet payload)) :
    step s (.message stream (.packet payload) false) = some (s.setPhase stream .threw) := by
  obtain ⟨pkt, sent, reaches⟩ := transmits
  rw [step, if_pos running]
  simp only [State.packet, sent, if_pos reaches, Bool.false_eq_true, if_false]

/-- A handler whose first request fails to be sent. -/
theorem run_throw (stream : Stream) (payload : Str) (transmits : Transmits (.packet payload)) :
    run step {} [.enter stream, .message stream (.packet payload) false] =
      some ((({} : State Stream).enter stream).setPhase stream .threw) := by
  change (step (({} : State Stream).enter stream) _).bind _ = _
  rw [step_throw (Function.update_self ..) transmits]
  rfl

/-- A PacketOut of 20 zero bytes, whose datagram has 16. -/
theorem ended_stream_registered :
    ¬ ∀ (actions : List (Action Nat)) (s : State Nat), run step {} actions = some s →
      EveryState step Released {} actions := by
  intro all
  have accepted : Hostpath.Accepted (List.replicate 20 0) := by decide
  have transmits : Transmits (.packet (List.replicate 20 0)) :=
    ⟨_, Hostpath.sendPacketOut_eq accepted (by decide),
      (Hostpath.reachesSendTo_iff ..).mpr (by decide)⟩
  have ran := run_throw 0 _ transmits
  have released := (all _ _ ran).last ran
  exact released 0 (Or.inr rfl) rfl

end JP4Agent.StreamChannel
