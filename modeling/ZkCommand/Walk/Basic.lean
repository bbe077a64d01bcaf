import ZkCommand.Leaf.Fault
import ZkCommand.Walk.Event

/-!
# ZkCommand.Walk.Basic

**Walks.** A walk through a document produces events as it goes and ends with a value or with
the first failure, at the place where it happened. The events before a failure are kept. Walks
are a lawful monad: a sequence of walks has the events of both parts in order.
-/

namespace ZkCommand

namespace Walk

/-- Why a walk cannot go on at a node. -/
inductive Cause
  | missingField (key : String)
  | wrongShape (expected found : Tree.Kind)
  | tooManySlots (given limit : Nat)
  | leaf (fault : Leaf.Fault)
  deriving DecidableEq, Repr

/-- The wording of a cause. -/
def Cause.message : Cause → String
  | .missingField key => "missing required field '" ++ key ++ "'"
  | .wrongShape expected found => "expected " ++ expected.name ++ ", found " ++ found.name
  | .tooManySlots given limit =>
      Decimal.text given ++ " slots given, at most " ++ Decimal.text limit ++ " allowed"
  | .leaf fault => fault.message

/-- A cause and the node where it arose. -/
structure Fault where
  path : Path
  cause : Cause
  deriving DecidableEq, Repr

/-- The wording of a failure. -/
def Fault.message (f : Fault) : String := f.path.display ++ ": " ++ f.cause.message

end Walk

/-- A walk: the events in order, and a value or the first failure. -/
structure Walk (α : Type) where
  events : List Event
  outcome : Except Walk.Fault α

namespace Walk

variable {α β : Type}

/-- A walk that is already there. -/
def done (value : α) : Walk α := ⟨[], .ok value⟩

/-- A walk that cannot go on. -/
def fail (fault : Fault) : Walk α := ⟨[], .error fault⟩

/-- A walk that only notices something. -/
def emit (event : Event) : Walk Unit := ⟨[event], .ok ()⟩

/-- A walk followed by one that depends on its value. -/
def andThen (walk : Walk α) (next : α → Walk β) : Walk β :=
  match walk.outcome with
  | .ok value => ⟨walk.events ++ (next value).events, (next value).outcome⟩
  | .error fault => ⟨walk.events, .error fault⟩

instance : Monad Walk where
  pure := done
  bind := andThen

theorem pure_eq (value : α) : (pure value : Walk α) = ⟨[], .ok value⟩ := rfl

theorem bind_eq (walk : Walk α) (next : α → Walk β) : (walk >>= next) = walk.andThen next := rfl

instance : LawfulMonad Walk := LawfulMonad.mk' Walk
  (by
    intro α walk
    cases walk with
    | mk events outcome => cases outcome <;> simp [Functor.map, andThen, done])
  (by intro α β value next; simp [pure_eq, bind_eq, andThen])
  (by
    intro α β γ walk f g
    cases walk with
    | mk events outcome =>
      cases outcome with
      | error fault => simp [bind_eq, andThen]
      | ok value =>
        simp only [bind_eq, andThen]
        cases (f value).outcome <;> simp)

/-- The diagnostics of a walk, in order. -/
def diagnostics (walk : Walk α) : List Diagnostic := walk.events.filterMap Event.diagnostic?

end Walk

end ZkCommand
