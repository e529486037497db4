import LuaPages.Text.Bytes
/-!
Well-formed UTF-8: the first fault of a byte string, and the text in which each fault is
replaced by U+FFFD. Surrogates, overlong forms and code points above U+10FFFF are faults.
-/
namespace LuaPages.Utf8

/-- A fault is a sequence of `count` bytes that no scalar value starts with, or a sequence that the
end of the text cuts off. -/
inductive Fault where
  | invalid (count : Nat)
  | incomplete
  deriving DecidableEq, Repr

def continues (b : UInt8) : Bool := 0x80 ≤ b && b ≤ 0xBF

def secondAllowed (lead b : UInt8) : Bool :=
  if lead == 0xE0 then 0xA0 ≤ b && b ≤ 0xBF
  else if lead == 0xED then 0x80 ≤ b && b ≤ 0x9F
  else if lead == 0xF0 then 0x90 ≤ b && b ≤ 0xBF
  else if lead == 0xF4 then 0x80 ≤ b && b ≤ 0x8F
  else continues b

def sequenceLength (b : UInt8) (r : List UInt8) : Except Fault Nat :=
  if b < 0x80 then .ok 1
  else if 0xC2 ≤ b && b ≤ 0xDF then
    match r with
    | [] => .error .incomplete
    | c :: _ => if continues c then .ok 2 else .error (.invalid 1)
  else if 0xE0 ≤ b && b ≤ 0xEF then
    match r with
    | [] => .error .incomplete
    | c :: r => if !secondAllowed b c then .error (.invalid 1) else
      match r with
      | [] => .error .incomplete
      | d :: _ => if continues d then .ok 3 else .error (.invalid 2)
  else if 0xF0 ≤ b && b ≤ 0xF4 then
    match r with
    | [] => .error .incomplete
    | c :: r => if !secondAllowed b c then .error (.invalid 1) else
      match r with
      | [] => .error .incomplete
      | d :: r => if !continues d then .error (.invalid 2) else
        match r with
        | [] => .error .incomplete
        | e :: _ => if continues e then .ok 4 else .error (.invalid 3)
  else .error (.invalid 1)

/-- The position and kind of the first fault; `skip` bytes belong to the scalar value before. -/
def firstFaultFrom (pos : Nat) : Nat → List UInt8 → Option (Nat × Fault)
  | _, [] => none
  | skip + 1, _ :: r => firstFaultFrom (pos + 1) skip r
  | 0, b :: r =>
    match sequenceLength b r with
    | .ok n => firstFaultFrom (pos + 1) (n - 1) r
    | .error f => some (pos, f)

def firstFault (s : Bytes) : Option (Nat × Fault) := firstFaultFrom 0 0 s.data.toList

def isValid (s : Bytes) : Bool := (firstFault s).isNone

def replacement : List UInt8 := [0xEF, 0xBF, 0xBD]

inductive Pending where
  | keep (n : Nat)
  | drop (n : Nat)

def lossyFrom : Pending → List UInt8 → List UInt8
  | _, [] => []
  | .keep (n + 1), b :: r => b :: lossyFrom (.keep n) r
  | .drop (n + 1), _ :: r => lossyFrom (.drop n) r
  | .keep 0, b :: r | .drop 0, b :: r =>
    match sequenceLength b r with
    | .ok n => b :: lossyFrom (.keep (n - 1)) r
    | .error (.invalid n) => replacement ++ lossyFrom (.drop (n - 1)) r
    | .error .incomplete => replacement

def lossy (s : Bytes) : Bytes := if isValid s then s else .ofList (lossyFrom (.keep 0) s.data.toList)

def Fault.describe (pos : Nat) : Fault → String
  | .invalid n => "invalid utf-8 sequence of " ++ toString n ++ " bytes from index " ++ toString pos
  | .incomplete => "incomplete utf-8 byte sequence from index " ++ toString pos

/-- The encoding of a code below 2^31 in up to six bytes, as the scheme allows beyond Unicode. -/
def encodeWide (c : Nat) : List UInt8 :=
  let tail (n : Nat) : List UInt8 :=
    ((List.range n).map fun i => UInt8.ofNat (0x80 + c >>> (6 * i) % 64)).reverse
  if c < 0x80 then [UInt8.ofNat c]
  else if c < 0x800 then UInt8.ofNat (0xC0 + c >>> 6) :: tail 1
  else if c < 0x10000 then UInt8.ofNat (0xE0 + c >>> 12) :: tail 2
  else if c < 0x200000 then UInt8.ofNat (0xF0 + c >>> 18) :: tail 3
  else if c < 0x4000000 then UInt8.ofNat (0xF8 + c >>> 24) :: tail 4
  else UInt8.ofNat (0xFC + c >>> 30) :: tail 5

end LuaPages.Utf8
