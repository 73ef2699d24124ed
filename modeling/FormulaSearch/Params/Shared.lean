import FormulaSearch.Params

/-!
# Shared parameters

Parameters that are changed in place are kept in memory, where whoever has a reference to their list sees
each change. A list has the addresses of its cells in order, and beside them an index that leads from each
name to its position. A copy is a list with cells of its own. An operation that is refused may have gone
some way before, so the memory comes back in any case.
-/

namespace FormulaSearch

/-- Writes the value of a key: in place if the key is there, at the end otherwise. -/
def writeKey {β : Type} (dictionary : List (String × β)) (key : String) (value : β) :
    List (String × β) :=
  if (dictionary.lookup key).isSome then
    dictionary.map fun (k, v) => (k, if k = key then value else v)
  else dictionary ++ [(key, value)]

/-- A list of parameters in memory. -/
structure SharedParams where
  /-- The addresses of the cells, in order. -/
  items : List Nat
  /-- The position of each name. -/
  index : List (String × Nat)

/-- The cells of all parameters, each a name and a value, and the lists that are made of them. An address is
a place among the cells, a reference a place among the lists. -/
structure ParamsMemory where
  cells : List (String × Float)
  lists : List SharedParams

namespace ParamsMemory

/-! ## Reading -/

def cell (m : ParamsMemory) (address : Nat) : String × Float := m.cells.getD address ("", 0.0)

def list (m : ParamsMemory) (r : Nat) : SharedParams := m.lists.getD r ⟨[], []⟩

/-- Names and values in order. -/
def entries (m : ParamsMemory) (r : Nat) : List (String × Float) := (m.list r).items.map m.cell

def names (m : ParamsMemory) (r : Nat) : List String := (m.entries r).map Prod.fst

def values (m : ParamsMemory) (r : Nat) : List Float := (m.entries r).map Prod.snd

def size (m : ParamsMemory) (r : Nat) : Nat := (m.list r).items.length

/-- The position of a name, from the index. -/
def position? (m : ParamsMemory) (r : Nat) (name : String) : Option Nat :=
  (m.list r).index.lookup name

/-- Whether a name is in the index. -/
def contains (m : ParamsMemory) (r : Nat) (name : String) : Bool := (m.position? r name).isSome

/-- The address that the index leads to. -/
def address? (m : ParamsMemory) (r : Nat) (name : String) : Option Nat :=
  (m.position? r name).map ((m.list r).items.getD · 0)

/-- The value of a name. -/
def get (m : ParamsMemory) (r : Nat) (name : String) : Except ParamsError Float :=
  match m.address? r name with
  | some address => .ok (m.cell address).2
  | none => .error (.unknown name)

/-- The values by name, written one after the other. -/
def dictionary (m : ParamsMemory) (r : Nat) : List (String × Float) :=
  (m.entries r).foldl (fun d (n, v) => writeKey d n v) []

/-! ## Writing -/

/-- A new list without parameters. -/
def allocate (m : ParamsMemory) : ParamsMemory := { m with lists := m.lists ++ [⟨[], []⟩] }

/-- Appends a cell to a list, and its name to the index. -/
def append (m : ParamsMemory) (r : Nat) (name : String) (value : Float) : ParamsMemory :=
  let l := m.list r
  { cells := m.cells ++ [(name, value)]
    lists := m.lists.set r ⟨l.items ++ [m.cells.length], writeKey l.index name l.items.length⟩ }

/-- Gives a cell a new value. -/
def write (m : ParamsMemory) (address : Nat) (value : Float) : ParamsMemory :=
  { m with cells := m.cells.set address ((m.cell address).1, value) }

/-- Changes the values of some cells one after the other. -/
def change (m : ParamsMemory) (changes : List (Nat × (Float → Float))) : ParamsMemory :=
  changes.foldl (fun m (address, f) => m.write address (f (m.cell address).2)) m

/-! ## Operations -/

/-- Appends a parameter with a new name. -/
def add (m : ParamsMemory) (r : Nat) (name : String) (value : Float) :
    Except ParamsError Unit × ParamsMemory :=
  if m.contains r name then (.error (.duplicate name), m) else (.ok (), m.append r name value)

/-- Appends parameters until one is refused. -/
def addAll (r : Nat) : List (String × Float) → ParamsMemory → Except ParamsError Unit × ParamsMemory
  | [], m => (.ok (), m)
  | (name, value) :: entries, m =>
    match m.add r name value with
    | (.ok (), m) => addAll r entries m
    | (.error e, m) => (.error e, m)

/-- A new list of parameters. -/
def create (m : ParamsMemory) (entries : List (String × Float)) :
    Except ParamsError Nat × ParamsMemory :=
  match addAll m.lists.length entries m.allocate with
  | (.ok (), m') => (.ok m.lists.length, m')
  | (.error e, m') => (.error e, m')

/-- A new list with the names and values of another. -/
def copy (m : ParamsMemory) (r : Nat) : Except ParamsError Nat × ParamsMemory := m.create (m.entries r)

/-- Gives a parameter a new value. -/
def assign (m : ParamsMemory) (r : Nat) (name : String) (value : Float) :
    Except ParamsError Unit × ParamsMemory :=
  match m.address? r name with
  | some address => (.ok (), m.change [(address, fun _ => value)])
  | none => (.error (.unknown name), m)

/-- Gives all parameters new values, one for each. -/
def overwrite (m : ParamsMemory) (r : Nat) (values : List Float) :
    Except ParamsError Unit × ParamsMemory :=
  if values.length = m.size r then
    (.ok (), m.change ((m.list r).items.zip (values.map fun v _ => v)))
  else (.error (.wrongCount (m.size r) values.length), m)

/-- Moves every value into an interval. -/
def clamp (m : ParamsMemory) (r : Nat) (lower upper : Float) : ParamsMemory :=
  m.change ((m.list r).items.map fun address => (address, clampTo lower upper))

end ParamsMemory

/-! ## Sessions -/

/-- A list of parameters to work on and another that is kept aside; they may be the same list. -/
structure ParamsSession where
  memory : ParamsMemory
  current : Nat
  saved : Nat

/-- What can be done to the current list, or with both. -/
inductive ParamsOp where
  | create (entries : List (String × Float))
  | add (name : String) (value : Float)
  | get (name : String)
  | assign (name : String) (value : Float)
  | overwrite (values : List Float)
  | clamp (lower upper : Float)
  | save
  | exchange

namespace ParamsSession

/-- One list without parameters, which is its own companion. -/
def start : ParamsSession := ⟨⟨[], [⟨[], []⟩]⟩, 0, 0⟩

/-- The session after an operation on the current list. -/
def after (s : ParamsSession) (outcome : Except ParamsError Unit × ParamsMemory) :
    Except ParamsError (Option Float) × ParamsSession :=
  (outcome.1.map fun _ => none, { s with memory := outcome.2 })

/-- Carries out an operation; only reading gives a value. -/
def step (s : ParamsSession) : ParamsOp → Except ParamsError (Option Float) × ParamsSession
  | .create entries =>
    match s.memory.create entries with
    | (.ok r, m) => (.ok none, { s with memory := m, current := r })
    | (.error e, m) => (.error e, { s with memory := m })
  | .add name value => s.after (s.memory.add s.current name value)
  | .get name => ((s.memory.get s.current name).map some, s)
  | .assign name value => s.after (s.memory.assign s.current name value)
  | .overwrite values => s.after (s.memory.overwrite s.current values)
  | .clamp lower upper => s.after (.ok (), s.memory.clamp s.current lower upper)
  | .save =>
    match s.memory.copy s.current with
    | (.ok r, m) => (.ok none, { s with memory := m, saved := r })
    | (.error e, m) => (.error e, { s with memory := m })
  | .exchange => (.ok none, { s with current := s.saved, saved := s.current })

/-- What operations come to one after the other, and the session after them. -/
def run : List ParamsOp → ParamsSession →
    List (Except ParamsError (Option Float)) × ParamsSession
  | [], s => ([], s)
  | op :: ops, s =>
    let (answer, s) := s.step op
    let (answers, s) := run ops s
    (answer :: answers, s)

end ParamsSession

end FormulaSearch
