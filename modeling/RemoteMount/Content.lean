import RemoteMount.Bytes

namespace RemoteMount

/-- What a file holds: stretches of bytes and of holes. A hole reads as zeros and takes no room,
however long it is. Each operation does to the bytes what the operation of that name does to
`Bytes`. -/
inductive Content
  | empty
  | bytes (data : Bytes) (rest : Content)
  | hole (length : Nat) (rest : Content)
deriving DecidableEq

namespace Content

def ofBytes (data : Bytes) : Content := .bytes data .empty

def toBytes : Content → Bytes
  | .empty => []
  | .bytes data rest => data ++ rest.toBytes
  | .hole n rest => List.replicate n 0 ++ rest.toBytes

def size : Content → Nat
  | .empty => 0
  | .bytes data rest => data.length + rest.size
  | .hole n rest => n + rest.size

def append : Content → Content → Content
  | .empty, c => c
  | .bytes data rest, c => .bytes data (rest.append c)
  | .hole n rest, c => .hole n (rest.append c)

def take : Content → Nat → Content
  | .empty, _ => .empty
  | .bytes data rest, n =>
    if n ≤ data.length then .bytes (data.take n) .empty
      else .bytes data (rest.take (n - data.length))
  | .hole k rest, n => if n ≤ k then .hole n .empty else .hole k (rest.take (n - k))

def drop : Content → Nat → Content
  | .empty, _ => .empty
  | .bytes data rest, n =>
    if n < data.length then .bytes (data.drop n) rest else rest.drop (n - data.length)
  | .hole k rest, n => if n < k then .hole (k - n) rest else rest.drop (n - k)

def resize (c : Content) (n : Nat) : Content :=
  if n ≤ c.size then c.take n else c.append (.hole (n - c.size) .empty)

def overwrite (c : Content) (start : Nat) (piece : Bytes) : Content :=
  (c.resize start).append (.bytes piece (c.drop (start + piece.length)))

def slice (c : Content) (start count : Nat) : Bytes := ((c.drop start).take count).toBytes

theorem length_toBytes (c : Content) : c.toBytes.length = c.size := by
  induction c with
  | empty => rfl
  | bytes data rest ih => rw [toBytes, size, List.length_append, ih]
  | hole n rest ih => rw [toBytes, size, List.length_append, List.length_replicate, ih]

theorem toBytes_append (c c' : Content) : (c.append c').toBytes = c.toBytes ++ c'.toBytes := by
  induction c with
  | empty => rfl
  | bytes data rest ih => rw [append, toBytes, toBytes, ih, List.append_assoc]
  | hole n rest ih => rw [append, toBytes, toBytes, ih, List.append_assoc]

theorem toBytes_take (c : Content) (n : Nat) : (c.take n).toBytes = c.toBytes.take n := by
  induction c generalizing n with
  | empty => rw [take, toBytes, List.take_nil]
  | bytes data rest ih =>
    rw [take, toBytes, List.take_append]
    split
    · rename_i h
      rw [toBytes, toBytes, Nat.sub_eq_zero_of_le h, List.take_zero]
    · rename_i h
      have hd : data.take n = data := List.take_of_length_le (by omega)
      rw [toBytes, ih, hd]
  | hole k rest ih =>
    rw [take, toBytes, List.take_append, List.take_replicate, List.length_replicate]
    split
    · rename_i h
      rw [toBytes, toBytes, Nat.sub_eq_zero_of_le h, List.take_zero, Nat.min_eq_left h]
    · rename_i h
      rw [toBytes, ih, Nat.min_eq_right (by omega)]

theorem toBytes_drop (c : Content) (n : Nat) : (c.drop n).toBytes = c.toBytes.drop n := by
  induction c generalizing n with
  | empty => rw [drop, toBytes, List.drop_nil]
  | bytes data rest ih =>
    rw [drop, toBytes, List.drop_append]
    split
    · rename_i h
      rw [toBytes, Nat.sub_eq_zero_of_le (Nat.le_of_lt h), List.drop_zero]
    · rename_i h
      have hd : data.drop n = [] := List.drop_of_length_le (by omega)
      rw [ih, hd, List.nil_append]
  | hole k rest ih =>
    rw [drop, toBytes, List.drop_append, List.drop_replicate, List.length_replicate]
    split
    · rename_i h
      rw [toBytes, Nat.sub_eq_zero_of_le (Nat.le_of_lt h), List.drop_zero]
    · rename_i h
      rw [ih, Nat.sub_eq_zero_of_le (Nat.le_of_not_lt h), List.replicate_zero, List.nil_append]

theorem toBytes_resize (c : Content) (n : Nat) : (c.resize n).toBytes = c.toBytes.resize n := by
  rw [resize, Bytes.resize, length_toBytes]
  split
  · rename_i h
    rw [toBytes_take, Nat.sub_eq_zero_of_le h, List.replicate_zero, List.append_nil]
  · rename_i h
    rw [toBytes_append, List.take_of_length_le (by rw [length_toBytes]; omega), toBytes, toBytes,
      List.append_nil]

theorem toBytes_overwrite (c : Content) (start : Nat) (piece : Bytes) :
    (c.overwrite start piece).toBytes = c.toBytes.overwrite start piece := by
  rw [overwrite, Bytes.overwrite, toBytes_append, toBytes_resize, toBytes, toBytes_drop,
    List.append_assoc]

theorem slice_eq (c : Content) (start count : Nat) :
    c.slice start count = c.toBytes.slice start count := by
  rw [slice, Bytes.slice, toBytes_take, toBytes_drop]

end Content

end RemoteMount
