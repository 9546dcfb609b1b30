namespace Concordance

/-- Where a cursor is sent: to an offset, or so many bytes behind the end of the data or behind
where it stands. -/
inductive Seek
  | start (n : Nat)
  | fromEnd (d : Int)
  | current (d : Int)
  deriving DecidableEq

def Seek.target (length position : Nat) : Seek → Int
  | .start n => n
  | .fromEnd d => length + d
  | .current d => position + d

def Seek.offset? (length position : Nat) (s : Seek) : Option Nat :=
  let t := s.target length position
  if t < 0 then none else some t.toNat

end Concordance
