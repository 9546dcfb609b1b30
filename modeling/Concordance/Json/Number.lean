import Concordance.Json.Value

namespace Concordance.JsonValue

def digits (s : List Char) : Option (List Char × List Char) :=
  match s.span Char.isDigit with
  | ([], _) => none
  | (ds, s) => some (ds, s)

def fraction : List Char → Option (List Char × List Char)
  | '.' :: s => digits s
  | s => some ([], s)

def digitValue (c : Char) : Nat := c.toNat - '0'.toNat

/-- Powers of ten beyond this one count as this one. -/
def powerLimit : Nat := 1 <<< 31

def power : List Char → Option (Option Int × List Char)
  | 'e' :: s | 'E' :: s =>
      let (negative, s) := match s with
        | '+' :: s => (false, s)
        | '-' :: s => (true, s)
        | s => (false, s)
      (digits s).map fun (ds, s) =>
        let n := ds.foldl (fun n c => min powerLimit (n * 10 + digitValue c)) 0
        (some (if negative then -(n : Int) else n), s)
  | s => some (none, s)

/-- Put digits behind a number until it would not be below 2 ^ 64, and the digits left over from
there on. -/
def gather : Nat → List Char → Nat × List Char
  | n, [] => (n, [])
  | n, c :: cs =>
      let m := n * 10 + digitValue c
      if m < UInt64.size then gather m cs else (n, c :: cs)

/-- The natural number nearest to `n` among those that double precision holds, of two the even one.
The range of double precision is left out of account. -/
def nearestDouble (n : Nat) : Nat :=
  let step := 1 <<< (n.log2 - 52)
  let q := n / step
  let r := n % step
  if 2 * r < step ∨ 2 * r = step ∧ q % 2 = 0 then q * step else (q + 1) * step

def doubleLimit : Nat := (1 <<< 1024) - (1 <<< 970)

/-- Whether the product of `n` and `10 ^ e` in double precision is infinite. -/
def isHuge (n : Nat) (e : Int) : Bool :=
  n ≠ 0 && (308 < e || 0 ≤ e && doubleLimit ≤ nearestDouble n * nearestDouble (Nat.pow 10 e.toNat))

/-- A number of at least one digit, without zeros in front. A natural number is one below 2 ^ 64
that is written without sign, fraction and power. Of the digits before the point those that the
significand does not hold raise the power of ten; of those behind it they are ignored. -/
def number (s : List Char) : Option (JsonValue × List Char) := do
  let (negative, s) := match s with
    | '-' :: s => (true, s)
    | s => (false, s)
  let (whole, s) ← digits s
  if whole.head? = some '0' ∧ whole.length ≠ 1 then none
  let (decimals, s) ← fraction s
  let (power?, s) ← power s
  let (n, excess) := gather 0 whole
  let (m, left) := gather n decimals
  let e : Int := excess.length - (decimals.length - left.length : Nat) + power?.getD 0
  return (if !negative ∧ decimals = [] ∧ power?.isNone ∧ excess = [] then .natural n
    else if isHuge m e then .hugeNumber
    else .otherNumber, s)

end Concordance.JsonValue
