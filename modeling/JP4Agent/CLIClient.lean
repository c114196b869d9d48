import JP4Agent.CLIAnswers

set_option autoImplicit false

/- The prompt of the debug CLI, and its sessions with the agent. What it prints by itself is
left out. -/
namespace JP4Agent.CLIClient
open AfiDevice CLIService

/-- `str.isspace` of one character -/
def isSpaceChar (c : Char) : Bool :=
  let n := c.toNat
  (9 ≤ n && n ≤ 13) || (28 ≤ n && n ≤ 32) || n = 0x85 || n = 0xa0 || n = 0x1680 ||
    (0x2000 ≤ n && n ≤ 0x200a) || n = 0x2028 || n = 0x2029 || n = 0x202f || n = 0x205f || n = 0x3000

/-- `str.strip` -/
def strip (line : List Char) : List Char :=
  ((line.dropWhile isSpaceChar).reverse.dropWhile isSpaceChar).reverse

/-- `str.split` -/
def words (line : List Char) : List (List Char) :=
  (line.splitOnP isSpaceChar).filter fun word => word ≠ []

def p4CmdsFull : List (List Char) :=
  ["add-table <table-name> <key-field> <protocol-num> <default-next-obj> <table-size>".toList,
    "add-table-entry <table-name> <prefix> <prefix-length>".toList, "show-afi-objects".toList]

def cliCmds : List (List Char) := ["help".toList, "quit".toList]

def p4Cmds : List (List Char) := p4CmdsFull.filterMap (fun cmd => (words cmd).head?) ++ cliCmds

/-- A keyboard interrupt or the end of the input, or a line. -/
inductive Typed where
  | interrupted
  | line (usrCmd : List Char)

/-- How the CLI ends: `sys.exit`, or the missing first word of a blank line. -/
inductive Ending where
  | exit
  | indexError

/-- What a round of the loop of `run_cli` comes to. -/
inductive Round where
  | again
  | ended (ending : Ending)
  | sent (usrCmd : List Char)

def round : Typed → Round
  | .interrupted => .again
  | .line usrCmd =>
    if usrCmd = [] then .again
    else if usrCmd ∈ ["help".toList, "h".toList, "?".toList] then .again
    else if usrCmd ∈ ["quit".toList, "exit".toList] then .ended .exit
    else
      match words (strip usrCmd) with
      | [] => .ended .indexError
      | cmd :: _ => if cmd ∈ p4Cmds then .sent usrCmd else .again

/-- The string of the request. -/
def cmdstr (usrCmd : List Char) : Str := usrCmd.flatMap String.utf8EncodeChar

section
variable (pb : Protobuf) (target : Target)

/-- The agent after a request, and its reply. There is none if a number cannot be read, the
agent crashes or is not running. -/
def sendCmd (r : Process) (cmdstr : Str) : Process × Option Str :=
  match r.crashed with
  | some _ => (r, none)
  | none =>
    match CLIService.sendCmd pb target cmdstr r.agent with
    | .ok reply agent => ({ agent := agent }, reply)
    | .error fault agent => ({ agent := agent, crashed := some fault }, none)

/-- A session: the agent after it, the replies that were printed, and how it ended. -/
structure Session where
  agent : Process
  printed : List Str
  ended : Option Ending

def runCli : Process → List Typed → Session
  | r, [] => ⟨r, [], none⟩
  | r, typed :: rest =>
    match round typed with
    | .again => runCli r rest
    | .ended ending => ⟨r, [], some ending⟩
    | .sent usrCmd =>
      let (r', reply) := sendCmd pb target r (cmdstr usrCmd)
      let session := runCli r' rest
      { session with printed := reply.toList ++ session.printed }

/-- The agent after these requests, and its replies. -/
def serve : Process → List Str → Process × List Str
  | r, [] => (r, [])
  | r, cmd :: rest =>
    let (r', reply) := sendCmd pb target r cmd
    let (last, replies) := serve r' rest
    (last, reply.toList ++ replies)

end

/-- The line as the agent gets it, if the agent takes it for a command. -/
def understood : Typed → Option Str
  | .interrupted => none
  | .line usrCmd =>
    match command (cmdstr usrCmd) with
    | none | some (.invalid _) => none
    | some _ => some (cmdstr usrCmd)

/-- The session goes on. -/
def goesOn (typed : Typed) : Bool :=
  match round typed with
  | .ended _ => false
  | _ => true

/-- White space only, but not nothing. -/
def Blank : Typed → Prop
  | .interrupted => False
  | .line usrCmd => usrCmd ≠ [] ∧ ∀ c ∈ usrCmd, isSpaceChar c = true

theorem p4Cmds_eq : p4Cmds = ["add-table".toList, "add-table-entry".toList,
    "show-afi-objects".toList, "help".toList, "quit".toList] := by decide +kernel

section
variable {line spaces : List Char}

theorem words_append (c : Char) (isSpace : isSpaceChar c = true) (before after : List Char) :
    words (before ++ c :: after) = words before ++ words after := by
  unfold words
  rw [List.splitOnP_append_cons before after isSpace, List.filter_append]

theorem words_spaces (blank : ∀ c ∈ spaces, isSpaceChar c = true) : words spaces = [] := by
  induction spaces with
  | nil => rfl
  | cons c rest ih =>
      rw [List.forall_mem_cons] at blank
      have parts : words ([] ++ c :: rest) = words [] ++ words rest :=
        words_append c blank.1 [] rest
      rw [List.nil_append] at parts
      rw [parts, ih blank.2]
      rfl

theorem words_spaces_append (blank : ∀ c ∈ spaces, isSpaceChar c = true) :
    words (spaces ++ line) = words line := by
  induction spaces with
  | nil => rfl
  | cons c rest ih =>
      rw [List.forall_mem_cons] at blank
      have parts : words ([] ++ c :: (rest ++ line)) = words [] ++ words (rest ++ line) :=
        words_append c blank.1 [] _
      rw [List.nil_append] at parts
      rw [List.cons_append, parts, ih blank.2]
      rfl

theorem words_append_spaces (blank : ∀ c ∈ spaces, isSpaceChar c = true) :
    words (line ++ spaces) = words line := by
  cases spaces with
  | nil => rw [List.append_nil]
  | cons c rest =>
      rw [List.forall_mem_cons] at blank
      rw [words_append c blank.1, words_spaces blank.2, List.append_nil]

theorem words_dropWhile (line : List Char) : words (line.dropWhile isSpaceChar) = words line := by
  have whole := List.takeWhile_append_dropWhile (p := isSpaceChar) (l := line)
  conv => rhs; rw [← whole]
  exact (words_spaces_append fun c member => List.mem_takeWhile_imp member).symm

/-- Stripping does not change the words. -/
theorem words_strip (line : List Char) : words (strip line) = words line := by
  have last (text : List Char) :
      words (text.reverse.dropWhile isSpaceChar).reverse = words text := by
    have whole := congrArg List.reverse
      (List.takeWhile_append_dropWhile (p := isSpaceChar) (l := text.reverse))
    rw [List.reverse_append, List.reverse_reverse] at whole
    conv => rhs; rw [← whole]
    refine (words_append_spaces fun c member => ?_).symm
    exact List.mem_takeWhile_imp (List.mem_reverse.mp member)
  exact (last _).trans (words_dropWhile line)

end

theorem words_eq_nil_iff (line : List Char) :
    words line = [] ↔ ∀ c ∈ line, isSpaceChar c = true := by
  constructor
  · intro none
    induction line with
    | nil => simp
    | cons c rest ih =>
        by_cases isSpace : isSpaceChar c = true
        · have parts : words ([] ++ c :: rest) = words [] ++ words rest :=
            words_append c isSpace [] rest
          rw [List.nil_append] at parts
          rw [parts] at none
          exact List.forall_mem_cons.mpr ⟨isSpace, ih (List.append_eq_nil_iff.mp none).2⟩
        · obtain ⟨word, others, split⟩ :=
            List.exists_cons_of_ne_nil (List.splitOnP_ne_nil isSpaceChar rest)
          rw [words, List.splitOnP_cons_eq_if_modifyHead, if_neg isSpace, split,
            List.modifyHead_cons] at none
          simp at none
  · exact words_spaces

/-- The first word of a line that starts with it. -/
theorem words_head {word rest : List Char} (nonempty : word ≠ [])
    (solid : ∀ c ∈ word, isSpaceChar c = false)
    (ends : ∀ c ∈ rest.head?, isSpaceChar c = true) : (words (word ++ rest)).head? = some word := by
  have single : words word = [word] := by
    rw [words, List.splitOnP_eq_singleton solid]
    simp [nonempty]
  cases rest with
  | nil => rw [List.append_nil, single, List.head?_cons]
  | cons c rest => rw [words_append c (ends c rfl), single, List.singleton_append, List.head?_cons]

/-- A byte of ASCII is a character of the line. -/
theorem line_of_byte {line : List Char} {b : UInt8} {rest : Str} (ascii : b.toNat < 128)
    (starts : cmdstr line = b :: rest) :
    ∃ after, line = Char.ofNat b.toNat :: after ∧ rest = cmdstr after := by
  cases line with
  | nil => cases starts
  | cons c after =>
      have whole : String.utf8EncodeChar c ++ cmdstr after = b :: rest := starts
      unfold String.utf8EncodeChar at whole
      dsimp only at whole
      split at whole
      · rename_i small
        obtain ⟨first, more⟩ := List.cons.inj whole
        have value : b.toNat = c.val.toNat := by
          rw [← first, UInt8.toNat_ofNat']
          exact Nat.mod_eq_of_lt (by omega)
        refine ⟨after, ?_, more.symm⟩
        rw [value]
        exact congrArg (· :: after) (Char.ofNat_toNat c).symm
      -- the first of several bytes has its two high bits set
      · split at whole
        · have first := congrArg UInt8.toNat (List.cons.inj whole).1
          rw [UInt8.toNat_ofNat'] at first
          omega
        · split at whole
          · have first := congrArg UInt8.toNat (List.cons.inj whole).1
            rw [UInt8.toNat_ofNat'] at first
            omega
          · have first := congrArg UInt8.toNat (List.cons.inj whole).1
            rw [UInt8.toNat_ofNat'] at first
            omega

theorem line_of_prefix {word : List Char} (ascii : ∀ c ∈ word, c.toNat < 128) {rest : Str} :
    ∀ {line : List Char}, cmdstr line = word.map (fun c => c.toNat.toUInt8) ++ rest →
      ∃ after, line = word ++ after ∧ rest = cmdstr after := by
  induction word with
  | nil => exact fun starts => ⟨_, rfl, starts.symm⟩
  | cons c word ih =>
      intro line starts
      rw [List.forall_mem_cons] at ascii
      have value : c.toNat.toUInt8.toNat = c.toNat := by
        show c.toNat % 256 = c.toNat
        omega
      have first : cmdstr line = c.toNat.toUInt8 ::
        (word.map (fun c => c.toNat.toUInt8) ++ rest) := starts
      obtain ⟨more, rfl, behind⟩ := line_of_byte (by omega) first
      obtain ⟨after, rfl, remains⟩ := ih ascii.2 behind.symm
      rw [value, Char.ofNat_toNat]
      exact ⟨after, rfl, remains⟩

/-- The first token of a line is followed by a tab, a blank or nothing. -/
theorem split_first {text cmd : Str} {args : List Str} (tokens : split text = cmd :: args) :
    ∃ rest, text = cmd ++ rest ∧ ∀ b ∈ rest.head?, b = 9 ∨ b = 32 := by
  induction text generalizing cmd args with
  | nil =>
      obtain ⟨rfl, _⟩ := List.cons.inj (show [[]] = cmd :: args from tokens)
      exact ⟨[], rfl, by simp⟩
  | cons b text ih =>
      unfold split at tokens
      rw [List.splitOnP_cons_eq_if_modifyHead] at tokens
      by_cases blank : (b = 9 || b = 32) = true
      · rw [if_pos blank] at tokens
        obtain ⟨rfl, _⟩ := List.cons.inj tokens
        exact ⟨b :: text, rfl, by simpa using blank⟩
      · rw [if_neg blank] at tokens
        obtain ⟨cmd', args', parts⟩ := List.exists_cons_of_ne_nil
          (List.splitOnP_ne_nil (fun c : UInt8 => c = 9 || c = 32) text)
        rw [parts, List.modifyHead_cons] at tokens
        obtain ⟨rfl, _⟩ := List.cons.inj tokens
        obtain ⟨rest, rfl, ends⟩ := ih parts
        exact ⟨rest, rfl, ends⟩

/-- The names of the commands that the agent knows. -/
def names : List (List Char) :=
  ["add-table-entry".toList, "add-table".toList, "show-afi-objects".toList]

theorem names_ascii : ∀ word ∈ names, word ≠ [] ∧
    ∀ c ∈ word, c.toNat < 128 ∧ isSpaceChar c = false := by
  have all : (names.all fun word => !word.isEmpty &&
      word.all fun c => decide (c.toNat < 128) && !isSpaceChar c) = true := by decide +kernel
  simpa using all

/-- A line whose first token is a name has it as its first word. -/
theorem words_of_split {word usrCmd : List Char} (name : word ∈ names) {args : List Str}
    (tokens : split (cmdstr usrCmd) = word.map (fun c => c.toNat.toUInt8) :: args) :
    (words usrCmd).head? = some word := by
  obtain ⟨nonempty, ascii⟩ := names_ascii word name
  obtain ⟨rest, whole, ends⟩ := split_first tokens
  obtain ⟨after, rfl, remains⟩ := line_of_prefix (fun c member => (ascii c member).1) whole
  apply words_head nonempty fun c member => (ascii c member).2
  intro c member
  cases after with
  | nil => cases member
  | cons c' after =>
      obtain rfl := Option.some.inj member
      cases rest with
      | nil =>
          have empty := (List.append_eq_nil_iff.mp remains.symm).1
          exact absurd empty String.utf8EncodeChar_ne_nil
      | cons b rest =>
          have blank := ends b rfl
          have ascii : b.toNat < 128 := by rcases blank with rfl | rfl <;> decide
          obtain ⟨_, same, _⟩ := line_of_byte ascii remains.symm
          rw [(List.cons.inj same).1]
          rcases blank with rfl | rfl <;> rfl

/-- The index error is that of a blank line. -/
theorem round_indexError_iff (typed : Typed) :
    round typed = .ended .indexError ↔ Blank typed := by
  cases typed with
  | interrupted =>
      constructor
      · intro wrong
        cases wrong
      · exact False.elim
  | line usrCmd =>
      have solid : ∀ text ∈ ["help".toList, "h".toList, "?".toList] ++
          ["quit".toList, "exit".toList], text.all isSpaceChar = false := by decide +kernel
      have blank (text : List Char) : (∀ c ∈ text, isSpaceChar c = true) ↔
          text.all isSpaceChar = true := List.all_eq_true.symm
      show _ ↔ usrCmd ≠ [] ∧ ∀ c ∈ usrCmd, isSpaceChar c = true
      rw [round]
      split_ifs with empty help quit
      · simp [empty]
      · simp [blank, solid usrCmd (List.mem_append_left _ help)]
      · simp [blank, solid usrCmd (List.mem_append_right _ quit)]
      · rw [words_strip, ← words_eq_nil_iff]
        cases parts : words usrCmd with
        | nil => simp [empty]
        | cons cmd rest =>
            dsimp only
            split_ifs <;> simp

theorem line_of_sent {typed : Typed} {usrCmd : List Char} (sent : round typed = .sent usrCmd) :
    typed = .line usrCmd := by
  cases typed with
  | interrupted => cases sent
  | line text =>
      rw [round] at sent
      split_ifs at sent
      split at sent
      · cases sent
      · split at sent
        · rw [Round.sent.inj sent]
        · cases sent

theorem understood_iff {usrCmd : List Char} {cmd : Str} :
    understood (.line usrCmd) = some cmd ↔
      cmd = cmdstr usrCmd ∧ ∃ c, command cmd = some c ∧ ∀ reply, c ≠ .invalid reply := by
  rw [understood]
  constructor
  · intro takes
    split at takes
    · cases takes
    · cases takes
    · rename_i c valid known
      obtain rfl := Option.some.inj takes
      exact ⟨rfl, c, known, valid⟩
  · rintro ⟨rfl, c, known, valid⟩
    rw [known]
    cases c with
    | invalid reply => exact absurd rfl (valid reply)
    | _ => rfl

/-- What the agent takes for a command starts with one of the names. -/
theorem name_of_command {text : Str} {c : Command} (known : command text = some c)
    (valid : ∀ reply, c ≠ .invalid reply) :
    ∃ word ∈ names, ∃ args, split text = word.map (fun c => c.toNat.toUInt8) :: args := by
  cases tokens : split text with
  | nil =>
      rw [command, tokens] at known
      exact absurd (Option.some.inj known).symm (valid _)
  | cons cmd args =>
      by_cases named : cmd ∈ [str "add-table-entry", str "add-table", str "show-afi-objects"]
      · simp only [List.mem_cons, List.not_mem_nil, or_false] at named
        rcases named with rfl | rfl | rfl
        · exact ⟨_, .head _, args, rfl⟩
        · exact ⟨_, .tail _ (.head _), args, rfl⟩
        · exact ⟨_, .tail _ (.tail _ (.head _)), args, rfl⟩
      · rw [command_unknown tokens named] at known
        exact absurd (Option.some.inj known).symm (valid _)

/-- Every line that the agent takes for a command is sent. -/
theorem round_of_understood {usrCmd : List Char} {cmd : Str}
    (takes : understood (.line usrCmd) = some cmd) : round (.line usrCmd) = .sent usrCmd := by
  obtain ⟨rfl, c, known, valid⟩ := understood_iff.mp takes
  obtain ⟨word, name, args, tokens⟩ := name_of_command known valid
  have first := words_of_split name tokens
  have others : ∀ other ∈ [[], "help".toList, "h".toList, "?".toList, "quit".toList, "exit".toList],
      ∀ name ∈ names, (words other).head? ≠ some name := by decide +kernel
  have other (other : List Char) (listed : other ∈ [[], "help".toList, "h".toList, "?".toList,
      "quit".toList, "exit".toList]) : usrCmd ≠ other := by
    rintro rfl
    exact others _ listed word name first
  have listed : word ∈ p4Cmds := by
    rw [p4Cmds_eq]
    simp only [names, List.mem_cons, List.not_mem_nil, or_false] at name ⊢
    tauto
  rw [round, if_neg (other _ (by simp)), if_neg (by simp [other]), if_neg (by simp [other]),
    words_strip]
  cases parts : words usrCmd with
  | nil =>
      rw [parts] at first
      cases first
  | cons w rest =>
      rw [parts] at first
      obtain rfl := Option.some.inj first
      exact if_pos listed

theorem command_invalid {text reply : Str} (invalid : command text = some (.invalid reply)) :
    str "Invalid" <+: reply := by
  have starts : str "Invalid" <+: str "Invalid cmd: " := by decide
  rw [command] at invalid
  split at invalid
  · obtain rfl := Command.invalid.inj (Option.some.inj invalid)
    exact starts
  · split at invalid
    · split at invalid
      · obtain ⟨_, _, wrong⟩ := Option.map_eq_some_iff.mp invalid
        cases wrong
      · obtain rfl := Command.invalid.inj (Option.some.inj invalid)
        decide
    · split at invalid
      · split at invalid
        · obtain ⟨_, _, more⟩ := Option.bind_eq_some_iff.mp invalid
          obtain ⟨_, _, wrong⟩ := Option.map_eq_some_iff.mp more
          cases wrong
        · obtain rfl := Command.invalid.inj (Option.some.inj invalid)
          decide
      · split at invalid
        · cases invalid
        · obtain rfl := Command.invalid.inj (Option.some.inj invalid)
          exact starts.trans (List.prefix_append _ _)

/-- The agent found a mistake in the line. -/
def isInvalid (reply : Str) : Bool := (str "Invalid").isPrefixOf reply

section
variable (pb : Protobuf) (target : Target)

/-- A line that the agent takes for no command leaves it as it is. -/
theorem sendCmd_other (r : Process) {usrCmd : List Char}
    (other : understood (.line usrCmd) = none) :
    (sendCmd pb target r (cmdstr usrCmd)).1 = r ∧
      ∀ reply ∈ (sendCmd pb target r (cmdstr usrCmd)).2, isInvalid reply = true := by
  rcases r with ⟨s, crashed⟩
  cases crashed with
  | some fault => exact ⟨rfl, by simp [sendCmd]⟩
  | none =>
      cases known : command (cmdstr usrCmd) with
      | none => simp [sendCmd, CLIService.sendCmd, known, pure, EStateM.pure]
      | some c =>
          cases c with
          | invalid reply =>
              have starts := command_invalid known
              simp [sendCmd, CLIService.sendCmd, known, pure, EStateM.pure, isInvalid, starts]
          | _ =>
              rw [understood, known] at other
              cases other

theorem not_isInvalid {start reply : Str} (apart : ¬ str "Invalid" <+: start)
    (long : (str "Invalid").length ≤ start.length) (starts : start <+: reply) :
    isInvalid reply = false := by
  rw [isInvalid, Bool.eq_false_iff, ne_eq, List.isPrefixOf_iff_prefix]
  exact prefix_exclusive apart long starts

/-- The reply to a command is none about a mistake. -/
theorem reply_valid {s t : Agent} {text : Str} {c : Command} {reply : Option Str}
    (known : command text = some c) (valid : ∀ reply, c ≠ .invalid reply)
    (returned : CLIService.sendCmd pb target text s = .ok reply t) :
    ∀ shown ∈ reply, isInvalid shown = false := by
  have added (name : Str) {start : Str} (apart : ¬ str "Invalid" <+: start)
      (long : (str "Invalid").length ≤ start.length) :
      ∀ shown ∈ some (start ++ name), isInvalid shown = false := by
    intro shown member
    obtain rfl := Option.some.inj member
    exact not_isInvalid apart long (List.prefix_append _ _)
  rw [CLIService.sendCmd, known] at returned
  cases c with
  | addTableEntry tblname pfx plen =>
      obtain ⟨_, _, _, same⟩ := bind_eq_ok.mp returned
      obtain ⟨rfl, _⟩ := EStateM.Result.ok.inj same
      exact added tblname (by decide) (by decide)
  | addTable tblname keyField protocol defNxtObj tblsz =>
      obtain ⟨_, _, _, same⟩ := bind_eq_ok.mp returned
      obtain ⟨rfl, _⟩ := EStateM.Result.ok.inj same
      exact added tblname (by decide) (by decide)
  | showAfiObjects =>
      obtain ⟨shown, ran, rfl⟩ := map_eq_ok.mp returned
      intro text member
      obtain rfl := Option.some.inj member
      have shows : shown = [] ∨ str "Object " <+: shown :=
        (showObjects_reply (getAfiObjects s) s).of_ok ran
      rcases shows with rfl | object
      · rfl
      · exact not_isInvalid (by decide) (by decide) object
  | invalid reply => exact absurd rfl (valid reply)

theorem sendCmd_understood (r : Process) {usrCmd : List Char} {cmd : Str}
    (takes : understood (.line usrCmd) = some cmd) :
    ∀ reply ∈ (sendCmd pb target r cmd).2, isInvalid reply = false := by
  obtain ⟨rfl, c, known, valid⟩ := understood_iff.mp takes
  rcases r with ⟨s, crashed⟩
  cases crashed with
  | some fault => simp [sendCmd]
  | none =>
      cases returned : CLIService.sendCmd pb target (cmdstr usrCmd) s with
      | ok reply t =>
          have kept := reply_valid pb target known valid returned
          simpa [sendCmd, returned] using kept
      | error fault t => simp [sendCmd, returned]

variable {pb target} in
theorem filter_toList {reply : Option Str} {mistake : Bool}
    (all : ∀ shown ∈ reply, isInvalid shown = mistake) :
    reply.toList.filter (fun shown => !isInvalid shown) =
      if mistake then [] else reply.toList := by
  cases reply with
  | none => cases mistake <;> rfl
  | some shown => cases mistake <;> simp [all shown rfl]

theorem runCli_serves (typed : List Typed) : ∀ r : Process,
    let session := runCli pb target r typed
    let direct := serve pb target r ((typed.takeWhile goesOn).filterMap understood)
    session.agent = direct.1 ∧
      session.printed.filter (fun reply => !isInvalid reply) = direct.2 := by
  induction typed with
  | nil => exact fun r => ⟨rfl, rfl⟩
  | cons first rest ih =>
      intro r
      cases made : round first with
      | ended ending =>
          have stops : goesOn first = false := by rw [goesOn, made]
          rw [runCli, made, List.takeWhile_cons, stops]
          exact ⟨rfl, rfl⟩
      | again =>
          have continues : goesOn first = true := by rw [goesOn, made]
          have other : understood first = none := by
            cases first with
            | interrupted => rfl
            | line usrCmd =>
                rw [Option.eq_none_iff_forall_ne_some]
                intro cmd takes
                rw [round_of_understood takes] at made
                cases made
          rw [runCli, made, List.takeWhile_cons, continues, if_pos rfl, List.filterMap_cons, other]
          exact ih r
      | sent usrCmd =>
          have continues : goesOn first = true := by rw [goesOn, made]
          obtain rfl := line_of_sent made
          rw [runCli, made, List.takeWhile_cons, continues, if_pos rfl, List.filterMap_cons]
          dsimp only
          rw [List.filter_append]
          cases takes : understood (.line usrCmd) with
          | none =>
              obtain ⟨same, mistake⟩ := sendCmd_other pb target r takes
              rw [filter_toList mistake, same]
              exact ih r
          | some cmd =>
              have valid := sendCmd_understood pb target r takes
              obtain ⟨rfl, _⟩ := understood_iff.mp takes
              obtain ⟨agent, replies⟩ := ih (sendCmd pb target r (cmdstr usrCmd)).1
              rw [filter_toList valid, replies]
              exact ⟨agent, rfl⟩

theorem runCli_indexError_iff (typed : List Typed) : ∀ r : Process,
    (runCli pb target r typed).ended = some .indexError ↔
      ∃ before line after, typed = before ++ line :: after ∧
        (∀ earlier ∈ before, goesOn earlier = true) ∧ Blank line := by
  induction typed with
  | nil =>
      intro r
      simp [runCli]
  | cons first rest ih =>
      intro r
      have later (continues : goesOn first = true) :
          (∃ before line after, rest = before ++ line :: after ∧
            (∀ earlier ∈ before, goesOn earlier = true) ∧ Blank line) ↔
          ∃ before line after, first :: rest = before ++ line :: after ∧
            (∀ earlier ∈ before, goesOn earlier = true) ∧ Blank line := by
        constructor
        · rintro ⟨before, line, after, rfl, all, blank⟩
          exact ⟨first :: before, line, after, rfl,
            List.forall_mem_cons.mpr ⟨continues, all⟩, blank⟩
        · rintro ⟨before, line, after, split, all, blank⟩
          cases before with
          | nil =>
              obtain ⟨rfl, _⟩ := List.cons.inj split
              rw [goesOn, (round_indexError_iff _).mpr blank] at continues
              cases continues
          | cons other before =>
              obtain ⟨_, rfl⟩ := List.cons.inj split
              exact ⟨before, line, after, rfl, (List.forall_mem_cons.mp all).2, blank⟩
      cases made : round first with
      | ended ending =>
          have stops : goesOn first = false := by rw [goesOn, made]
          rw [runCli, made]
          constructor
          · intro same
            obtain rfl := Option.some.inj same
            exact ⟨[], first, rest, rfl, by simp, (round_indexError_iff first).mp made⟩
          · rintro ⟨before, line, after, split, all, blank⟩
            cases before with
            | nil =>
                obtain ⟨rfl, _⟩ := List.cons.inj split
                rw [(round_indexError_iff first).mpr blank] at made
                exact congrArg some (Round.ended.inj made).symm
            | cons other before =>
                obtain ⟨rfl, _⟩ := List.cons.inj split
                rw [all first List.mem_cons_self] at stops
                cases stops
      | again =>
          rw [runCli, made, ← later (by rw [goesOn, made])]
          exact ih r
      | sent usrCmd =>
          rw [runCli, made, ← later (by rw [goesOn, made])]
          exact ih _

/-- A session comes to the same as giving the agent the lines that it takes for commands:
the CLI keeps none of them back, and what it sends besides only gets replies about mistakes.
It ends with an index error exactly if a blank line is reached. -/
theorem session_serves (r : Process) (typed : List Typed) :
    let session := runCli pb target r typed
    let direct := serve pb target r ((typed.takeWhile goesOn).filterMap understood)
    session.agent = direct.1 ∧
      session.printed.filter (fun reply => !isInvalid reply) = direct.2 ∧
      (session.ended = some .indexError ↔ ∃ before line after,
        typed = before ++ line :: after ∧ (∀ earlier ∈ before, goesOn earlier = true) ∧
          Blank line) := by
  intro session direct
  obtain ⟨agent, replies⟩ := runCli_serves pb target typed r
  exact ⟨agent, replies, runCli_indexError_iff pb target typed r⟩

end

end JP4Agent.CLIClient
