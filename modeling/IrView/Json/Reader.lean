import IrView.Json.Token

/-!
# Reading JSON

The reader walks over the tokens once. What it has read of each value that is still open lies on a
stack, so the depth of a value is bounded by nothing but its length. `parse` accepts a source that
holds one value and white space.
-/

namespace IrView

namespace Json

/-- A value of which not all has been read. -/
inductive Pending where
  /-- An array with its items so far, last one first. -/
  | items (read : List Value)
  /-- An object with its members so far, last one first. -/
  | members (read : List (Content × Value))
  /-- An object and the key whose value comes next. -/
  | member (key : Content) (read : List (Content × Value))

/-- Where the reader stands; the innermost open value comes first. -/
inductive State where
  /-- A value comes next. -/
  | value (stack : List Pending)
  /-- An array was just opened: an item or the end comes next. -/
  | firstItem (stack : List Pending)
  /-- An object was just opened: a key or the end comes next. -/
  | firstKey (stack : List Pending)
  /-- A key comes next. -/
  | key (read : List (Content × Value)) (stack : List Pending)
  /-- A colon comes next. -/
  | colon (key : Content) (read : List (Content × Value)) (stack : List Pending)
  /-- A comma or the end of an array comes next. -/
  | moreItems (read : List Value) (stack : List Pending)
  /-- A comma or the end of an object comes next. -/
  | moreMembers (read : List (Content × Value)) (stack : List Pending)
  /-- The whole value has been read. -/
  | finished (value : Value)

/-- Hands a value to the innermost open one. -/
def deliver (v : Value) : List Pending → Option State
  | [] => some (.finished v)
  | .items read :: stack => some (.moreItems (v :: read) stack)
  | .member key read :: stack => some (.moreMembers ((key, v) :: read) stack)
  | .members _ :: _ => none

/-- The token begins a value, whose place is on the stack. -/
def beginValue (stack : List Pending) : Token → Option State
  | .openArray => some (.firstItem stack)
  | .openObject => some (.firstKey stack)
  | .null => deliver .null stack
  | .bool b => deliver (.bool b) stack
  | .number n => deliver (.number n) stack
  | .string content => deliver (.string content) stack
  | _ => none

/-- The state after a token. -/
def State.step : State → Token → Option State
  | .value stack, t => beginValue stack t
  | .firstItem stack, .closeArray => deliver (.array []) stack
  | .firstItem stack, t => beginValue (.items [] :: stack) t
  | .firstKey stack, .closeObject => deliver (.object []) stack
  | .firstKey stack, .string content => some (.colon content [] stack)
  | .key read stack, .string content => some (.colon content read stack)
  | .colon content read stack, .colon => some (.value (.member content read :: stack))
  | .moreItems read stack, .comma => some (.value (.items read :: stack))
  | .moreItems read stack, .closeArray => deliver (.array read.reverse) stack
  | .moreMembers read stack, .comma => some (.key read stack)
  | .moreMembers read stack, .closeObject => deliver (.object read.reverse) stack
  | _, _ => none

/-- Reads the tokens of a source from a state on. -/
def readFrom (state : State) (source : Source) : Option Value :=
  match _h : nextToken source with
  | .finished =>
    match state with
    | .finished v => some v
    | _ => none
  | .token t rest =>
    match state.step t with
    | some next => readFrom next rest
    | none => none
  | .malformed => none
  termination_by source.length
  decreasing_by exact length_lt_of_nextToken _h

/-- The value that a source holds. -/
def parse (source : Source) : Option Value :=
  readFrom (.value []) source

end Json

end IrView
