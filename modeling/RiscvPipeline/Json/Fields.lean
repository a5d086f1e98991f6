import RiscvPipeline.Json.Basic

/-! Typed reading of JSON values. Integers must be written as such and lie in range. A record is an
object, in which unknown members are skipped and a known one may stand only once, or an array of
its fields in order, of which the tail may be missing. -/

namespace RiscvPipeline.Json

def bool? : Json → Option Bool
  | bool b => some b
  | _ => none

def string? : Json → Option String
  | string s => s.text?
  | _ => none

/-- An integer below a bound. -/
def natBelow? (bound : Nat) : Json → Option Nat
  | integer n => if 0 ≤ n ∧ n < bound then some n.toNat else none
  | _ => none

/-- An unsigned integer of `w` bits. -/
def unsigned? (w : Nat) (j : Json) : Option (BitVec w) :=
  (natBelow? (1 <<< w) j).map (BitVec.ofNat w)

/-- A signed integer of `w` bits, as its bit pattern. -/
def signed? (w : Nat) : Json → Option (BitVec w)
  | integer n =>
    let limit : Nat := 1 <<< (w - 1)
    if -(limit : Int) ≤ n ∧ n < limit then some (BitVec.ofInt w n) else none
  | _ => none

/-- A value that may be null instead. -/
def nullable? {α : Type} (read : Json → Option α) : Json → Option (Option α)
  | null => some none
  | j => (read j).map some

/-- An array of values of one kind. -/
def list? {α : Type} (read : Json → Option α) : Json → Option (List α)
  | array items => items.mapM read
  | _ => none

/-- One of several names: written as a string, or as the only key of an object whose value is
null. -/
def name? : Json → Option String
  | string s => s.text?
  | object [(key, null)] => key.text?
  | _ => none

/-- The fields found in a record. -/
abbrev Record := List (String × Json)

/-- Keeps the members of an object that have one of the names. -/
def knownMembers (names : List String) : List (Quoted × Json) → Record → Option Record
  | [], found => some found
  | (key, v) :: r, found =>
    match key.text? with
    | none => none
    | some k =>
      if k ∈ names then
        if (found.lookup k).isSome then none else knownMembers names r ((k, v) :: found)
      else knownMembers names r found

/-- The fields of a record, by their names in order. -/
def record? (names : List String) : Json → Option Record
  | object entries => knownMembers names entries []
  | array items => if items.length ≤ names.length then some (names.zip items) else none
  | _ => none

namespace Record

variable {α : Type}

/-- A field that must be there. -/
def required (r : Record) (name : String) (read : Json → Option α) : Option α :=
  (r.lookup name).bind read

/-- A field that has a default. -/
def optional (r : Record) (name : String) (read : Json → Option α) (default : α) : Option α :=
  match r.lookup name with
  | none => some default
  | some j => read j

end Record

/-- A key that is a decimal number below a bound, without sign, escapes or leading zeros. -/
def numericKey? (bound : Nat) (key : Quoted) : Option Nat :=
  if key.plain then
    match key.text?.map String.toList with
    | some cs =>
      match integerPart cs with
      | some (ds, []) => if ofDigits ds < bound then some (ofDigits ds) else none
      | _ => none
    | none => none
  else none

/-- An object whose keys are decimal numbers, in the order of the keys; of a repeated key the last
value counts. -/
def numberedMembers? {α : Type} (bound : Nat) (read : Json → Option α) :
    Json → Option (List (Nat × α))
  | object entries => do
    let pairs ← entries.mapM fun (key, v) => do return (← numericKey? bound key, ← read v)
    return (List.range bound).filterMap fun k => (pairs.reverse.lookup k).map (k, ·)
  | _ => none

end RiscvPipeline.Json
