namespace RemoteMount

abbrev Bytes := List UInt8

namespace Bytes

def resize (data : Bytes) (n : Nat) : Bytes := data.take n ++ List.replicate (n - data.length) 0

/-- Puts `piece` over `data` from position `start` on. A gap before it is filled with zeros. -/
def overwrite (data : Bytes) (start : Nat) (piece : Bytes) : Bytes :=
  data.resize start ++ piece ++ data.drop (start + piece.length)

def slice (data : Bytes) (start count : Nat) : Bytes := (data.drop start).take count

theorem length_resize (data : Bytes) (n : Nat) : (data.resize n).length = n := by
  simp only [resize, List.length_append, List.length_take, List.length_replicate]
  omega

theorem length_overwrite (data : Bytes) (start : Nat) (piece : Bytes) :
    (data.overwrite start piece).length = max data.length (start + piece.length) := by
  simp only [overwrite, List.length_append, length_resize, List.length_drop]
  omega

end Bytes

end RemoteMount
