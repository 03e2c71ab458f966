import AiOrg.Python.Lines

/-!
# Checks in a session log

One pass over the rows of a session pairs tool calls with their outputs, follows check commands that go on in a cell
until a wait brings their end, and records the outcome lines of each. What counts as a check command and as an outcome
line is left open.
-/

namespace AiOrg

namespace Harvest

structure Reader where
  py : PyLib
  /-- `strict_json_loads`, with nothing where it raises `TypeError` or `ValueError`. -/
  loads : String → Option Json
  /-- The command in the source text of a call, for the name of the tool. -/
  commandLiteral : String → String → Option String
  /-- The value of the first `cell_id` literal in the source text of a call, empty without one. -/
  cellLiteral : String → String
  isCheckCommand : String → Bool
  outcomeLines : String → List String

inductive Family
  | custom | function
  deriving DecidableEq

structure Call where
  sequence : ℕ
  name : String
  input : Json
  family : Family

/-- What a row is to the pass. -/
inductive Row
  | call (family : Family) (id : String) (name : String) (input : Json)
  | output (family : Family) (id : String) (text : String)
  | other (narration : String)
  deriving DecidableEq

section Reading

variable (rd : Reader)

mutual

def _output_text : Json → String
  | .str s => s
  | .obj fields =>
    let texts := outputOfFields fields
    (["text", "input_text", "output_text", "output", "content"].findSome? fun key => texts.lookup key).getD ""
  | .arr items => "\n".intercalate ((outputOfItems items).filter (· ≠ ""))
  | _ => ""

def outputOfFields : List (String × Json) → List (String × String)
  | [] => []
  | (key, value) :: fields => (key, _output_text value) :: outputOfFields fields

def outputOfItems : List Json → List String
  | [] => []
  | item :: items => _output_text item :: outputOfItems items

end

def _call_id (payload : Fields) : String :=
  let value := if (payload.get "call_id").truthy then payload.get "call_id" else payload.get "id"
  if value.truthy then rd.py.str value else ""

/-- `_agent_message_text`, with nothing where it raises `TypeError`. -/
def _agent_message_text (payload : Fields) : Option String :=
  match payload.get "message" with
  | .str message => some message
  | _ => do
    let items ← if (payload.get "content").truthy then (payload.get "content").iter else some []
    return "\n".intercalate (items.filterMap fun item =>
      match item with
      | .obj fields =>
        match if (Fields.get fields "text").truthy then Fields.get fields "text" else Fields.get fields "input_text" with
        | .str text => if text = "" then none else some text
        | _ => none
      | _ => none)

/-- A row of the log, with nothing where reading it raises `TypeError`. -/
def rowOf (obj : Fields) : Option Row :=
  match obj.get "payload" with
  | .obj payload => do
    let payload_type := Fields.get payload "type"
    let _ ← if (obj.get "type").hashable then some () else none
    let narration ← if (obj.get "type" = .str "event_msg" ∨ obj.get "type" = .str "response_item") ∧
        payload_type = .str "agent_message" then _agent_message_text payload else some ""
    if obj.get "type" ≠ .str "response_item" then some (.other narration)
    else if !payload_type.hashable then none
    else if payload_type = .str "custom_tool_call" ∨ payload_type = .str "function_call" then
      some (.call (if payload_type = .str "custom_tool_call" then .custom else .function) (_call_id rd payload)
        (rd.py.strOr (Fields.get payload "name") "")
        (Fields.getD payload "input" (Fields.getD payload "arguments" (.str ""))))
    else if payload_type = .str "custom_tool_call_output" ∨ payload_type = .str "function_call_output" then
      some (.output (if payload_type = .str "custom_tool_call_output" then .custom else .function)
        (_call_id rd payload) (_output_text (Fields.get payload "output")))
    else some (.other narration)
  | _ => some (.other "")

/-- `name.rsplit(".", 1)[-1]`. -/
def baseName (name : String) : String := String.ofList (name.toList.rtakeWhile (· ≠ '.'))

/-- `value.get("cell_id", value.get("session_id"))` as a text. -/
def cellOfFields (fields : Fields) : String :=
  let value := fields.getD "cell_id" (fields.get "session_id")
  if value.truthy then rd.py.str value else ""

def _cell_id_from_input : Json → String
  | .obj fields => cellOfFields rd fields
  | .str source =>
    match rd.loads source with
    | some (.obj fields) => cellOfFields rd fields
    | _ => rd.cellLiteral source
  | _ => ""

def _command_from_call (name : String) (raw_input : Json) : Option String :=
  if name ≠ "exec" ∧ name ≠ "exec_command" then none
  else match raw_input with
  | .obj fields =>
    match Fields.get fields "cmd" with
    | .str command => some command
    | _ => none
  | .str source =>
    match rd.loads source with
    | some (.obj fields) =>
      match Fields.get fields "cmd" with
      | .str command => some command
      | _ => rd.commandLiteral name source
    | _ => rd.commandLiteral name source
  | _ => none

def isCellChar (c : Char) : Bool := c.isAlphanum || c == '.' || c == '_' || c == ':' || c == '-'

/-- The cell that a line announces, in backquotes or not. -/
def cellOfLine (line : List Char) : String :=
  let front := "Script running with cell ID ".toList
  if front.isPrefixOf line then
    let rest := line.drop front.length
    let rest := if rest.head? = some '\x60' then rest.tail else rest
    let cell := if rest.getLast? = some '\x60' then rest.dropLast else rest
    if !cell.isEmpty && cell.all isCellChar then String.ofList cell else ""
  else ""

def _running_cell_id (output : String) : String :=
  match (Text.splitlines output.toList).find? fun line => !(Text.strip line).isEmpty with
  | some line => cellOfLine (Text.strip line)
  | none => ""

def checkCommand (call : Call) : Option String :=
  (_command_from_call rd (baseName call.name) call.input).filter rd.isCheckCommand

def isWait (call : Call) : Bool := baseName call.name = "wait" || baseName call.name = "write_stdin"

structure Record where
  sequence : ℕ
  command : String
  outputs : List String

structure RecordedCheck where
  sequence : ℕ
  command : String
  outcome_lines : List String
  deriving DecidableEq

structure State where
  pending_calls : String → Option Call
  ambiguous_call_ids : Finset String
  anonymous_calls : Family → List Call
  active_cells : String → Option Record
  ambiguous_cells : Finset String
  checks : List RecordedCheck
  narration : List String

def State.init : State := ⟨fun _ => none, ∅, fun _ => [], fun _ => none, ∅, [], []⟩

def _finish_check (record : Record) (s : State) : State :=
  let outcome_lines := record.outputs.flatMap rd.outcomeLines
  if outcome_lines.isEmpty then s
  else { s with checks := s.checks ++ [⟨record.sequence, record.command, outcome_lines⟩] }

/-- `active_cells.pop(cell, None)` and `ambiguous_cells.add(cell)`. -/
def State.collide (s : State) (cell : String) : State :=
  { s with active_cells := Function.update s.active_cells cell none
           ambiguous_cells := insert cell s.ambiguous_cells }

def _consume_tool_pair (call : Call) (output : String) (s : State) : State :=
  if isWait call then
    let cell_id := _cell_id_from_input rd call.input
    match if cell_id = "" then none else s.active_cells cell_id with
    | none => s
    | some active =>
      let active : Record := { active with outputs := active.outputs ++ [output] }
      let running_cell := _running_cell_id output
      if running_cell = cell_id then { s with active_cells := Function.update s.active_cells cell_id (some active) }
      else if running_cell ≠ "" then s.collide cell_id
      else _finish_check rd active { s with active_cells := Function.update s.active_cells cell_id none }
  else
    match checkCommand rd call with
    | none => s
    | some command =>
      let record : Record := ⟨call.sequence, command, [output]⟩
      let cell_id := _running_cell_id output
      if cell_id = "" then _finish_check rd record s
      else if (s.active_cells cell_id).isSome ∨ cell_id ∈ s.ambiguous_cells then s.collide cell_id
      else { s with active_cells := Function.update s.active_cells cell_id (some record) }

def State.addCall (s : State) (id : String) (call : Call) : State :=
  if id = "" then
    { s with anonymous_calls :=
        Function.update s.anonymous_calls call.family (s.anonymous_calls call.family ++ [call]) }
  else if (s.pending_calls id).isSome ∨ id ∈ s.ambiguous_call_ids then
    { s with pending_calls := Function.update s.pending_calls id none
             ambiguous_call_ids := insert id s.ambiguous_call_ids }
  else { s with pending_calls := Function.update s.pending_calls id (some call) }

/-- The call an output belongs to, and the state without it. -/
def State.takeCall (s : State) (family : Family) (id : String) : Option Call × State :=
  if id = "" then
    match s.anonymous_calls family with
    | call :: calls => (some call, { s with anonymous_calls := Function.update s.anonymous_calls family calls })
    | [] => (none, s)
  else if id ∈ s.ambiguous_call_ids then (none, s)
  else (s.pending_calls id, { s with pending_calls := Function.update s.pending_calls id none })

/-- The pass at one row. -/
def step (s : State) (sequence : ℕ) : Row → State
  | .other narration => if narration = "" then s else { s with narration := s.narration ++ [narration] }
  | .call family id name input => s.addCall id ⟨sequence, name, input, family⟩
  | .output family id text =>
    match s.takeCall family id with
    | (some call, s) => if call.family = family then _consume_tool_pair rd call text s else s
    | (none, s) => s

def pass : List Row → State
  | rows => (rows.zipIdx).foldl (fun s row => step rd s row.2 row.1) .init

def _extract_rollout (rows : List Row) : Option (List RecordedCheck × List String) :=
  if rows.isEmpty then none
  else some ((pass rd rows).checks.mergeSort fun a b => a.sequence ≤ b.sequence, (pass rd rows).narration)

def _jsonl_objects (lines : List String) : List Fields :=
  lines.filterMap fun line =>
    match rd.loads line with
    | some (.obj fields) => some fields
    | _ => none

/-- The rows of the lines of a session, with nothing where reading one raises. -/
def rowsOf (lines : List String) : Option (List Row) := (_jsonl_objects rd lines).mapM (rowOf rd)

/-- `_extract_rollout` of the lines of a session, with nothing where a row makes it raise. -/
def extractLines (lines : List String) : Option (Option (List RecordedCheck × List String)) :=
  (rowsOf rd lines).map (_extract_rollout rd)

end Reading

end Harvest

end AiOrg

/-!
## What a recorded check stems from

The pairing of outputs with calls and the cells that outputs open, stated over the rows of a session alone, and what it
means for a check to stem from one call.
-/

namespace AiOrg

namespace Harvest

def Row.callId : Row → Option String
  | .call _ id _ _ => some id
  | .output _ id _ => some id
  | .other _ => none

/-- Calls and outputs carry ids. -/
def CarryIds (rows : List Row) : Prop := ∀ row ∈ rows, row.callId ≠ some ""

/-- An output is that of a call: it has the call's family and is the next row with its id. -/
def Paired (rows : List Row) (call : Call) (k : ℕ) (output : String) : Prop :=
  ∃ id, rows[call.sequence]? = some (.call call.family id call.name call.input) ∧
    rows[k]? = some (.output call.family id output) ∧ call.sequence < k ∧
    ∀ m, call.sequence < m → m < k → ∀ row, rows[m]? = some row → row.callId ≠ some id

section Reading

variable (rd : Reader)

def WaitOn (rows : List Row) (cell : String) (k : ℕ) (output : String) : Prop :=
  ∃ call, Paired rows call k output ∧ isWait call = true ∧ _cell_id_from_input rd call.input = cell

/-- An output announces a cell, may be that of a call other than the one at `n`, and is not that of a wait for the
cell. -/
def OpenedByOther (rows : List Row) (n : ℕ) (cell : String) (k : ℕ) : Prop :=
  ∃ family id output, rows[k]? = some (.output family id output) ∧ _running_cell_id output = cell ∧
    (∃ i name input, i < k ∧ i ≠ n ∧ rows[i]? = some (.call family id name input)) ∧ ¬ WaitOn rd rows cell k output

/-- Outputs of waits for a cell behind a row, before another call opens it. -/
def WaitsFor (rows : List Row) (n : ℕ) (cell : String) (j : ℕ) (waits : List (ℕ × String)) : Prop :=
  ∀ w ∈ waits, j < w.1 ∧ WaitOn rd rows cell w.1 w.2 ∧
    ∀ k, j < k → k < w.1 → ¬ OpenedByOther rd rows n cell k

/-- A check stems from one check command: its lines are those of the output of the call, and of waits for the cell that
this output opened. -/
def Stems (rows : List Row) (check : RecordedCheck) : Prop :=
  ∃ call output j waits, call.sequence = check.sequence ∧ checkCommand rd call = some check.command ∧
    Paired rows call j output ∧ WaitsFor rd rows check.sequence (_running_cell_id output) j waits ∧
    check.outcome_lines = (output :: waits.map Prod.snd).flatMap rd.outcomeLines

/-- Every check stems from a call, and no call from which one stems yields another one. -/
def Attributed (rows : List Row) (checks : List RecordedCheck) : Prop :=
  (∀ check ∈ checks, Stems rd rows check) ∧ (checks.map RecordedCheck.sequence).Nodup

/-- The pass takes an output for that of a check command or of a wait for the cell it announces. -/
def Noticed (s : State) (family : Family) (id output : String) : Prop :=
  ∃ call, (s.takeCall family id).1 = some call ∧ call.family = family ∧
    ((checkCommand rd call).isSome ∨ isWait call = true ∧ _cell_id_from_input rd call.input = _running_cell_id output)

def Misses (past : List Row) : Row → Prop
  | .output family id output => ∃ record, (pass rd past).active_cells (_running_cell_id output) = some record ∧
    (∃ i name input, i ≠ record.sequence ∧ past[i]? = some (.call family id name input)) ∧
    ¬ Noticed rd (pass rd past) family id output
  | _ => False

end Reading

end Harvest

end AiOrg
