import RemoteMount.Text.Hidden
import RemoteMount.Text.Utf8

namespace RemoteMount.Text

def escapeCodePoint (c : Char) : List Char :=
  ['\\', 'u', '\x7b'] ++ Nat.toDigits 16 c.toNat ++ ['\x7d']

def escape (c : Char) : List Char :=
  match c with
  | '\x00' => ['\\', '0']
  | '\t' => ['\\', 't']
  | '\n' => ['\\', 'n']
  | '\r' => ['\\', 'r']
  | '\x22' => ['\\', '\x22']
  | '\\' => ['\\', '\\']
  | c => if isHidden c then escapeCodePoint c else [c]

/-- The text between double quotes; a single quote stands for itself. -/
def quote (s : String) : String :=
  String.ofList ('\x22' :: s.toList.flatMap escape ++ ['\x22'])

def hexDigits (b : UInt8) : List Char :=
  [Nat.digitChar (b.toNat / 16), Nat.digitChar (b.toNat % 16)].map Char.toUpper

/-- Bytes as a text shows them, with the single quote, U+27, escaped too, and with a byte that
is part of no character in hexadecimal. So many bytes at the start belong to a character that is
shown already. -/
def escapeBytes : Nat → List UInt8 → List Char
  | _, [] => []
  | shown + 1, _ :: rest => escapeBytes shown rest
  | 0, b :: rest =>
    match (decodeFrom none (b :: rest)).head? with
    | some (some c) =>
      (if c = '\x27' then ['\\', '\x27'] else escape c) ++ escapeBytes (c.utf8Size - 1) rest
    | _ => '\\' :: 'x' :: hexDigits b ++ escapeBytes 0 rest

def quoteBytes (bytes : List UInt8) : String :=
  String.ofList ('\x22' :: escapeBytes 0 bytes ++ ['\x22'])

end RemoteMount.Text
