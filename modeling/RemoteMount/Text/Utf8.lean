namespace RemoteMount.Text

/-- A character that has begun: the continuation bytes it lacks, the bounds of the next of them,
and the bits read so far. -/
structure Begun where
  missing : Nat
  low : UInt8
  high : UInt8
  bits : Nat
deriving DecidableEq, Repr

/-- What a byte at the start of a character means. -/
inductive Lead
  | ascii (c : Char)
  | begun (b : Begun)
  | stray
deriving DecidableEq, Repr

/-- The bounds of the second byte leave out overlong forms, surrogates and what exceeds
U+10FFFF. -/
def lead (b : UInt8) : Lead :=
  if b < 0x80 then .ascii (Char.ofNat b.toNat)
  else if b < 0xC2 then .stray
  else if b < 0xE0 then .begun ⟨1, 0x80, 0xBF, b.toNat - 0xC0⟩
  else if b = 0xE0 then .begun ⟨2, 0xA0, 0xBF, 0⟩
  else if b = 0xED then .begun ⟨2, 0x80, 0x9F, 0xD⟩
  else if b < 0xF0 then .begun ⟨2, 0x80, 0xBF, b.toNat - 0xE0⟩
  else if b = 0xF0 then .begun ⟨3, 0x90, 0xBF, 0⟩
  else if b < 0xF4 then .begun ⟨3, 0x80, 0xBF, b.toNat - 0xF0⟩
  else if b = 0xF4 then .begun ⟨3, 0x80, 0x8F, 4⟩
  else .stray

/-- The characters of some bytes, `none` for each undecodable unit, after a character that may
have begun before them. -/
def decodeFrom : Option Begun → List UInt8 → List (Option Char)
  | none, [] => []
  | some _, [] => [none]
  | none, b :: rest =>
    match lead b with
    | .ascii c => some c :: decodeFrom none rest
    | .begun s => decodeFrom (some s) rest
    | .stray => none :: decodeFrom none rest
  | some s, b :: rest =>
    if s.low ≤ b ∧ b ≤ s.high then
      let bits := s.bits * 64 + (b.toNat - 0x80)
      if s.missing ≤ 1 then some (Char.ofNat bits) :: decodeFrom none rest
      else decodeFrom (some ⟨s.missing - 1, 0x80, 0xBF, bits⟩) rest
    else match lead b with
      | .ascii c => none :: some c :: decodeFrom none rest
      | .begun s => none :: decodeFrom (some s) rest
      | .stray => none :: none :: decodeFrom none rest

def decode? (bytes : List UInt8) : Option String :=
  let units := decodeFrom none bytes
  if units.all Option.isSome then some (String.ofList (units.filterMap id)) else none

def decodeLossy (bytes : List UInt8) : String :=
  String.ofList ((decodeFrom none bytes).map (·.getD '\ufffd'))

def encode (s : String) : List UInt8 := s.toUTF8.toList

end RemoteMount.Text
