import Concordance.Storage.Basic

namespace Concordance

inductive Request
  | createTemporary (stem : String)
  | write (o : Output) (b : Bytes)
  | flush (o : Output)
  | close (o : Output)
  | drop (o : Output)
  | delete (name : String)
  | rename (old new : String)
  | openInput (name : String)
  | warn (w : Warning)

namespace Request

abbrev Reply : Request → Type
  | .createTemporary _ => String × Output
  | .write _ _ | .flush _ | .close _ => Except Error Unit × Output
  | .openInput _ => Input
  | .drop _ | .delete _ | .rename _ _ | .warn _ => Unit

def perform : (r : Request) → Storing r.Reply
  | .createTemporary stem => Storing.createTemporary stem
  | .write o b => Storing.onOutput o (Writing.write b)
  | .flush o => Storing.onOutput o Writing.flush
  | .close o => Storing.onOutput o Writing.close
  | .drop o => Storing.dropOutput o
  | .delete name => Storing.delete name
  | .rename old new => Storing.rename old new
  | .openInput name => Storing.openInput name
  | .warn w => Storing.warn w

def answer (r : Request) (s : Storage) : Except Error r.Reply × Storage :=
  match r.perform s with
  | .ok a s => (.ok a, s)
  | .error e s => (.error e, s)

end Request

/-- Calls of a storage one after the other, where each depends on what came of those before it. -/
inductive Script (α : Type)
  | done (a : α)
  | fail (e : Error)
  | ask (r : Request) (next : Except Error r.Reply → Script α)

structure Event where
  request : Request
  failure : Option Error
  after : Storage

namespace Script

variable {α β : Type}

def bind : Script α → (α → Script β) → Script β
  | .done a, f => f a
  | .fail e, _ => .fail e
  | .ask r next, f => .ask r fun x => (next x).bind f

def tryCatch : Script α → (Error → Script α) → Script α
  | .done a, _ => .done a
  | .fail e, handle => handle e
  | .ask r next, handle => .ask r fun x => (next x).tryCatch handle

instance : Monad Script where
  pure := .done
  bind := bind

instance : MonadExceptOf Error Script where
  throw := .fail
  tryCatch := tryCatch

def ofExcept : Except Error α → Script α
  | .ok a => .done a
  | .error e => .fail e

def call (r : Request) : Script r.Reply := .ask r ofExcept

def attempt : Script α → Script (Except Error α)
  | .done a => .done (.ok a)
  | .fail e => .done (.error e)
  | .ask r next => .ask r fun x => (next x).attempt

def run : Script α → Storing α
  | .done a => fun s => .ok a s
  | .fail e => fun s => .error e s
  | .ask r next => fun s =>
      let (x, s) := r.answer s
      (next x).run s

def events : Script α → Storage → List Event
  | .done _, _ => []
  | .fail _, _ => []
  | .ask r next, s =>
      let (x, s) := r.answer s
      ⟨r, match x with | .ok _ => none | .error e => some e, s⟩ :: (next x).events s

/-- The storage before, between and after the calls of a script. -/
def moments (sc : Script α) (s : Storage) : List Storage := s :: (sc.events s).map (·.after)

end Script

end Concordance
