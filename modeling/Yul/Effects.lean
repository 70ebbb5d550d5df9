/-!
# Side effects

`SideEffects` describes the worst that a piece of code may do. Summaries are joined with
`SideEffects.join`, which keeps the worse of each part, so `none` is neutral and `worst` absorbs.
-/

namespace Yul

/-- How far one kind of state is touched. -/
inductive Effect where
  | none
  | read
  | write
deriving DecidableEq, Repr, Inhabited

namespace Effect

/-- The stronger of two effects. -/
def join : Effect → Effect → Effect
  | write, _ => write
  | _, write => write
  | read, _ => read
  | _, read => read
  | none, none => none

def text : Effect → String
  | none => "none"
  | read => "read"
  | write => "write"

end Effect

/-- A kind of state that an instruction can touch. -/
inductive Location where
  | storage
  | transientStorage
  | memory
  /-- balances, code, logs and all else outside the current call -/
  | otherState
deriving DecidableEq, Repr

/-- The worst that a piece of code may do. -/
structure SideEffects where
  /-- may be evaluated at any other point with the same outcome -/
  movable : Bool := true
  /-- depends on nothing but its arguments and the state it reads -/
  movableApartFromEffects : Bool := true
  /-- may be dropped if its result is not used -/
  canBeRemoved : Bool := true
  /-- may be dropped if the program never asks for the size of memory -/
  canBeRemovedIfNoMsize : Bool := true
  /-- always comes to an end -/
  cannotLoop : Bool := true
  otherState : Effect := .none
  storage : Effect := .none
  transientStorage : Effect := .none
  memory : Effect := .none
deriving DecidableEq, Repr

namespace SideEffects

/-- No side effect at all. -/
def none : SideEffects := {}

instance : Inhabited SideEffects := ⟨none⟩

/-- Everything that can go wrong does. -/
def worst : SideEffects where
  movable := false
  movableApartFromEffects := false
  canBeRemoved := false
  canBeRemovedIfNoMsize := false
  cannotLoop := false
  otherState := .write
  storage := .write
  transientStorage := .write
  memory := .write

/-- Code that may run for ever. -/
def looping : SideEffects where
  movable := false
  canBeRemoved := false
  canBeRemovedIfNoMsize := false
  cannotLoop := false

/-- Code whose result depends on hidden machine state. -/
def volatile : SideEffects where
  movable := false
  movableApartFromEffects := false

/-- Code that ends the current call. -/
def halting : SideEffects where
  movable := false
  movableApartFromEffects := false
  canBeRemoved := false
  canBeRemovedIfNoMsize := false

/-- The effect on one kind of state. -/
def effectOn (s : SideEffects) : Location → Effect
  | .storage => s.storage
  | .transientStorage => s.transientStorage
  | .memory => s.memory
  | .otherState => s.otherState

/-- `s` with the effect on `location` raised to at least `effect`. -/
def touching (s : SideEffects) (location : Location) (effect : Effect) : SideEffects :=
  match location with
  | .storage => { s with storage := s.storage.join effect }
  | .transientStorage => { s with transientStorage := s.transientStorage.join effect }
  | .memory => { s with memory := s.memory.join effect }
  | .otherState => { s with otherState := s.otherState.join effect }

/-- Reads `location`. Reading memory may enlarge it, which the size of memory shows. -/
def reading (location : Location) : SideEffects :=
  touching { movable := false, canBeRemoved := location ≠ .memory } location .read

/-- Writes `location`. -/
def writing (location : Location) : SideEffects :=
  touching { movable := false, canBeRemoved := false, canBeRemovedIfNoMsize := false } location
    .write

/-- The worse of each part. -/
def join (a b : SideEffects) : SideEffects where
  movable := a.movable && b.movable
  movableApartFromEffects := a.movableApartFromEffects && b.movableApartFromEffects
  canBeRemoved := a.canBeRemoved && b.canBeRemoved
  canBeRemovedIfNoMsize := a.canBeRemovedIfNoMsize && b.canBeRemovedIfNoMsize
  cannotLoop := a.cannotLoop && b.cannotLoop
  otherState := a.otherState.join b.otherState
  storage := a.storage.join b.storage
  transientStorage := a.transientStorage.join b.transientStorage
  memory := a.memory.join b.memory

/-- Whether storage or state outside the call may be changed. -/
def writesPersistentState (s : SideEffects) : Bool :=
  s.storage == .write || s.otherState == .write

def mayNotTerminate (s : SideEffects) : Bool :=
  !s.cannotLoop

def isRemovable (s : SideEffects) : Bool :=
  s.canBeRemoved

def isWorst (s : SideEffects) : Bool :=
  s == worst

/-- The summary in words, one part a line. -/
def text (s : SideEffects) : String :=
  "\n".intercalate
    [s!"movable: {s.movable}",
      s!"movable apart from effects: {s.movableApartFromEffects}",
      s!"can be removed: {s.canBeRemoved}",
      s!"can be removed if no msize: {s.canBeRemovedIfNoMsize}",
      s!"cannot loop: {s.cannotLoop}",
      s!"other state: {s.otherState.text}",
      s!"storage: {s.storage.text}",
      s!"transient storage: {s.transientStorage.text}",
      s!"memory: {s.memory.text}"]

end SideEffects

/-- How a call may leave the place where it is made. -/
structure CallExits where
  /-- may end execution successfully -/
  canTerminate : Bool
  /-- may end execution and undo it -/
  canRevert : Bool
  /-- may return to its caller -/
  canContinue : Bool
deriving DecidableEq, Repr

namespace CallExits

def continuing : CallExits := ⟨false, false, true⟩

def terminating : CallExits := ⟨true, false, false⟩

def reverting : CallExits := ⟨false, true, false⟩

instance : Inhabited CallExits := ⟨continuing⟩

end CallExits

end Yul
