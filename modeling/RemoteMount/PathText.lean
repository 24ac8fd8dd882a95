namespace RemoteMount

namespace PathText

variable {α : Type} [DecidableEq α] (slash : α)

def pieces : List α → List (List α)
  | [] => [[]]
  | c :: rest => if c = slash then [] :: pieces rest else (pieces rest).modifyHead (c :: ·)

def components (path : List α) : List (List α) := (pieces slash path).filter (· ≠ [])

def depth (path : List α) : Nat := (components slash path).length

def lastSlash? : List α → Option Nat
  | [] => none
  | c :: rest =>
    match lastSlash? rest with
    | some n => some (n + 1)
    | none => if c = slash then some 0 else none

def parent (path : List α) : List α :=
  match lastSlash? slash path with
  | none | some 0 => [slash]
  | some n => path.take n

def name? (path : List α) : Option (List α) :=
  if path = [slash] then none else (pieces slash path).getLast?

def child (path name : List α) : List α :=
  if path = [slash] then slash :: name else path ++ slash :: name

/-- Whether a path begins like a directory and goes on with a slash, or ends there. -/
def within (path dir : List α) : Bool :=
  dir = [slash] ||
    (dir.isPrefixOf path && ((path.drop dir.length).isEmpty ||
      (path.drop dir.length).head? = some slash))

def rebase (path source target : List α) : Option (List α) :=
  if !within slash path source then none
  else if path = source then some target
  else
    let rest := if source = [slash] then path.drop 1 else path.drop (source.length + 1)
    some (if target = [slash] then slash :: rest else target ++ slash :: rest)

end PathText

def slashByte : UInt8 := 0x2F

end RemoteMount
