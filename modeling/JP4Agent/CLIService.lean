import JP4Agent.Afi

set_option autoImplicit false

namespace JP4Agent.CLIService
open AfiDevice

/-- `isspace` -/
def isSpace (c : UInt8) : Bool := c = 32 || (9 ≤ c && c ≤ 13)

def isDigit (c : UInt8) : Bool := 48 ≤ c && c ≤ 57

/-- What `strtol` and `strtoul` read of a decimal number: whether there is a minus sign,
and the digits. -/
def readNumber (text : Str) : Option (Bool × Nat) :=
  let (negative, rest) : Bool × Str :=
    match text.dropWhile isSpace with
    | 45 :: rest => (true, rest)
    | 43 :: rest => (false, rest)
    | rest => (false, rest)
  match rest.takeWhile isDigit with
  | [] => none
  | digits => some (negative, digits.foldl (fun n c => 10 * n + (c.toNat - 48)) 0)

/-- `std::stoi`, or `none` if it throws. -/
def stoi (text : Str) : Option Int32 :=
  match readNumber text with
  | none => none
  | some (negative, n) =>
    let value : Int := if negative then -n else n
    if -2147483648 ≤ value ∧ value ≤ 2147483647 then some (Int32.ofInt value) else none

/-- `std::stoul` to an `unsigned int`, or `none` if it throws. -/
def stoul (text : Str) : Option UInt32 :=
  match readNumber text with
  | none => none
  | some (negative, n) =>
    if n < 18446744073709551616 then
      some (UInt32.ofNat (if negative then 18446744073709551616 - n else n))
    else none

/-- What `SendCmd` makes of a line. -/
inductive Command where
  | addTableEntry (tblname pfx : Str) (plen : Int32)
  | addTable (tblname keyField : Str) (protocol : Int32) (defNxtObj : Str) (tblsz : UInt32)
  | showAfiObjects
  | invalid (cmdoutstr : Str)

/-- `boost::split` at tabs and blanks -/
def split (cmdstr : Str) : List Str := cmdstr.splitOnP fun c => c = 9 || c = 32

/-- `none` if a number cannot be read: the exception ends the request. -/
def command (cmdstr : Str) : Option Command :=
  match split cmdstr with
  | [] => some (.invalid (str "Invalid cmd: "))
  | cmd :: args =>
    if cmd = str "add-table-entry" then
      match args with
      | [tblname, pfx, plen] => (stoi plen).map fun plen => .addTableEntry tblname pfx plen
      | _ =>
        some (.invalid (str "Invalid cmd. Please specify table name, prefix and prefix length."))
    else if cmd = str "add-table" then
      match args with
      | [tblname, keyField, protocol, defNxtObj, tblsz] =>
        (stoi protocol).bind fun protocol =>
          (stoul tblsz).map fun tblsz => .addTable tblname keyField protocol defNxtObj tblsz
      | _ => some (.invalid (str "Invalid add-table cmd."))
    else if cmd = str "show-afi-objects" then some .showAfiObjects
    else some (.invalid (str "Invalid cmd: " ++ cmd))

/-- What `show-afi-objects` prints of one object. -/
def objDetails (obj : AfiObject) : Str :=
  str "Object name: " ++ obj.name ++ str "\n" ++
    str "Object type: " ++ obj.jsonRes.type ++ str "\n" ++
      str "Object string: " ++ obj.jsonRes.objStr ++ str "\n\n"

def showObjects : List (Option AfiObject) → AfiM Str
  | [] => pure []
  | none :: _ => throw .nullDeref
  | some obj :: rest => (objDetails obj ++ ·) <$> showObjects rest

/-- The branch of `SendCmd` for `show-afi-objects`. -/
def showAfiObjects : AfiM Str := do showObjects (getAfiObjects (← get))

section
variable (pb : Protobuf) (target : Target)

def sendCmd (cmdstr : Str) : AfiM (Option Str) :=
  match command cmdstr with
  | none => pure none
  | some (.addTableEntry tblname pfx plen) => do
    let _ ← Afi.addEntry pb target pfx plen
    pure (some (str "Added entry to table " ++ tblname))
  | some (.addTable tblname keyField protocol defNxtObj tblsz) => do
    let _ ← Afi.addAfiTree pb target tblname keyField protocol defNxtObj tblsz
    pure (some (str "Added table with name: " ++ tblname))
  | some .showAfiObjects => some <$> showAfiObjects
  | some (.invalid cmdoutstr) => pure (some cmdoutstr)

end

/-- Showing the objects fails only on a null pointer of the map. -/
theorem showObjects_ends (objs : List (Option AfiObject)) (s : Agent) :
    Ends (showObjects objs) s (fun _ t => t = s)
      (fun e t => t = s ∧ e = .nullDeref ∧ none ∈ objs) := by
  induction objs with
  | nil => exact ends_pure rfl
  | cons obj rest ih =>
      cases obj with
      | none => exact ends_throw ⟨rfl, rfl, List.mem_cons_self⟩
      | some obj =>
          exact ends_map (ih.mono (fun _ _ same => same) fun _ _ failed =>
            ⟨failed.1, failed.2.1, List.mem_cons_of_mem _ failed.2.2⟩)

theorem showAfiObjects_ends (s : Agent) :
    Ends showAfiObjects s (fun _ t => t = s)
      (fun e t => t = s ∧ e = .nullDeref ∧ ¬ PtrMap.NoNulls s.objectsMap) := by
  apply ends_bind
  refine (showObjects_ends (getAfiObjects s) s).mono (fun _ _ same => same) fun e t failed => ?_
  obtain ⟨same, null, member⟩ := failed
  refine ⟨same, null, fun noNulls => ?_⟩
  obtain ⟨entry, listed, isNull⟩ := List.mem_map.mp member
  have bound := Std.ExtTreeMap.mem_toList_iff_getElem?_eq_some.mp listed
  rw [isNull] at bound
  exact noNulls entry.1 bound

end JP4Agent.CLIService
