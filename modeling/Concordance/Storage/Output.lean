import Concordance.Bytes.Packed
import Concordance.Error
import Concordance.Storage.Seek

namespace Concordance

structure HeldOutput where
  buffer : Packed
  position : Nat
  closed : Bool
  deriving DecidableEq

namespace HeldOutput

def opened : HeldOutput := ⟨.empty, 0, false⟩

def write (b : Bytes) (o : HeldOutput) : Except IoFault HeldOutput :=
  if b = [] then .ok o
  else if o.closed then .error .outputClosed
  else .ok { o with buffer := o.buffer.overwrite o.position b, position := o.position + b.length }

def seek (s : Seek) (o : HeldOutput) : Except IoFault HeldOutput :=
  if o.closed then .error .outputClosed
  else match s.offset? o.buffer.size o.position with
    | some n => .ok { o with position := n }
    | none => .error .seekBeforeStart

end HeldOutput

/-- Small writes are gathered and passed on to a file, whose content is given and returned with each
action. -/
structure GatheringOutput where
  capacity : Nat
  flushesEach : Bool
  pending : Bytes
  offset : Nat
  position : Nat
  deriving DecidableEq

namespace GatheringOutput

def opened (capacity : Nat) (flushesEach : Bool) : GatheringOutput :=
  ⟨capacity, flushesEach, [], 0, 0⟩

def put (b : Bytes) (o : GatheringOutput) (content : Packed) : GatheringOutput × Packed :=
  ({ o with offset := o.offset + b.length }, content.overwrite o.offset b)

def flush (o : GatheringOutput) (content : Packed) : GatheringOutput × Packed :=
  ({ o with pending := [] }).put o.pending content

/-- Take bytes in, after what is pending has made room for them. As many as would fill the room go
straight to the file. -/
def take (b : Bytes) (o : GatheringOutput) (content : Packed) : GatheringOutput × Packed :=
  if b.length < o.capacity - o.pending.length then ({ o with pending := o.pending ++ b }, content)
  else
    let (o, content) :=
      if o.capacity - o.pending.length < b.length then o.flush content else (o, content)
    if o.capacity ≤ b.length then o.put b content
    else ({ o with pending := o.pending ++ b }, content)

def write (b : Bytes) (o : GatheringOutput) (content : Packed) : GatheringOutput × Packed :=
  if b = [] then (o, content)
  else
    let (o, content) := o.take b content
    let o := { o with position := o.position + b.length }
    if o.flushesEach then o.flush content else (o, content)

/-- The cursor stays when it cannot go, but what is pending is passed on all the same. -/
def seek (s : Seek) (o : GatheringOutput) (content : Packed) :
    Except IoFault Unit × GatheringOutput × Packed :=
  let (o, content) := o.flush content
  match s.offset? content.size o.offset with
  | some n => (.ok (), { o with offset := n, position := n }, content)
  | none => (.error (.system .invalidArgument), o, content)

end GatheringOutput

end Concordance
