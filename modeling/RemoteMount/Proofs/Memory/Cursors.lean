import RemoteMount.Call
import RemoteMount.Proofs.FileContents
import RemoteMount.Proofs.Memory.Capacity
import RemoteMount.Proofs.Memory.Sessions

namespace RemoteMount

theorem Bytes.slice_append (data : Bytes) (start n m : Nat) :
    data.slice start (n + m) = data.slice start n ++ data.slice (start + n) m := by
  rw [slice, slice, slice, List.take_add, List.drop_drop]

theorem Bytes.slice_eq_nil_iff {data : Bytes} {start n : Nat} (hn : 0 < n) :
    data.slice start n = [] ↔ data.length ≤ start := by
  rw [slice, List.take_eq_nil_iff, List.drop_eq_nil_iff]
  omega

namespace Memory

inductive SessionCall
  | seek (offset : UInt64)
  | read (max : Nat)
  | write (piece : Bytes)
  | truncate (length : UInt64)

namespace SessionCall

def op : SessionCall → RemoteOp
  | seek _ => .seek
  | read _ => .read
  | write _ => .write
  | truncate _ => .truncate

def request (id : SessionId) : SessionCall → Request
  | seek offset => .seek id offset
  | read max => .read id max
  | write piece => .write id piece
  | truncate length => .truncate id length

theorem op_request (id : SessionId) (c : SessionCall) : (c.request id).op = c.op := by
  cases c <;> rfl

def reply (id : SessionId) : (c : SessionCall) → (c.request id).Reply → CallAnswer
  | seek _, _ => .nothing
  | read _, chunk => .data chunk
  | write _, n => .count n
  | truncate _, _ => .nothing

def ask (d : Device) (id : SessionId) (c : SessionCall) : Except RemoteError CallAnswer × Device :=
  ((d.answer (c.request id)).1.map (c.reply id), (d.answer (c.request id)).2)

theorem ask_of_answer {d d' : Device} {id : SessionId} {c : SessionCall}
    {x : Except RemoteError (c.request id).Reply}
    (h : d.answer (c.request id) = (x, d')) : c.ask d id = (x.map (c.reply id), d') := by
  rw [ask, h]

end SessionCall

/-- A call in a session, or a fault that is armed between calls. -/
inductive SessionEvent
  | call (c : SessionCall)
  | arm (op : RemoteOp) (e : RemoteError)

/-- What a session finds: the bytes of its file, the position, and the faults that wait for its
calls. -/
structure Cursor where
  data : Bytes
  position : Nat
  faults : KeyMap RemoteOp RemoteError

/-- What stays the same for a session: its mode, the capacity of the device, and the bytes in
other files. -/
structure Terms where
  mode : OpenMode
  capacity : Nat
  beside : Nat

namespace Terms

variable (m : Terms) (c : Cursor)

/-- Why a file of some length may not have another one. The total is counted in a word. -/
def room? (current length : Nat) : Option RemoteError :=
  if m.capacity < length then some (.reported Errno.fbig "file too large")
  else if UInt64.size ≤ summed m.beside current length then some .overflow
  else if current < length ∧ m.capacity < m.beside + length then
    some (.reported Errno.nospc "no space left on device")
  else none

def start : Nat := if m.mode = .append then c.data.length else c.position

def objection? : SessionCall → Option RemoteError
  | .seek _ | .read _ => none
  | .write piece =>
    if !m.mode.isWrite then some (.reported Errno.badf "session is read-only")
    else if UInt64.size ≤ m.start c + piece.length then
      some (.reported Errno.fbig "offset too large")
    else m.room? c.data.length (m.start c + piece.length)
  | .truncate length =>
    if !m.mode.isWrite then some (.reported Errno.badf "session is read-only")
    else m.room? c.data.length length.toNat

def refusal? (call : SessionCall) : Option RemoteError :=
  (c.faults.get? call.op).or (m.objection? c call)

def granted : SessionCall → CallAnswer × Bytes × Nat
  | .seek offset => (.nothing, c.data, offset.toNat)
  | .read max =>
    (.data (c.data.slice c.position max), c.data, c.position + (c.data.slice c.position max).length)
  | .write piece =>
    (.count piece.length, c.data.overwrite (m.start c) piece, m.start c + piece.length)
  | .truncate length => (.nothing, c.data.resize length.toNat, c.position)

/-- A call that is refused leaves the bytes and the position; the fault it met is used up. -/
def ask (call : SessionCall) : Except RemoteError CallAnswer × Cursor :=
  match m.refusal? c call with
  | some e => (.error e, { c with faults := c.faults.erase call.op })
  | none =>
    (.ok (m.granted c call).1, ⟨(m.granted c call).2.1, (m.granted c call).2.2,
      c.faults.erase call.op⟩)

variable {m : Terms} {c : Cursor} {call : SessionCall} {e : RemoteError}

theorem ask_of_refusal (h : m.refusal? c call = some e) :
    m.ask c call = (.error e, { c with faults := c.faults.erase call.op }) := by
  rw [ask, h]

theorem ask_of_grant (h : m.refusal? c call = none) : m.ask c call =
    (.ok (m.granted c call).1, ⟨(m.granted c call).2.1, (m.granted c call).2.2,
      c.faults.erase call.op⟩) := by
  rw [ask, h]

theorem refusal?_of_no_fault (h : c.faults.get? call.op = none) :
    m.refusal? c call = m.objection? c call := by
  rw [refusal?, h, Option.none_or]

theorem lt_of_write_allowed {piece : Bytes} (h : m.objection? c (.write piece) = none) :
    m.start c + piece.length < UInt64.size := by
  rw [objection?] at h
  split_ifs at h
  omega

end Terms

def listen {σ : Type} (ask : σ → SessionCall → Except RemoteError CallAnswer × σ)
    (arm : σ → RemoteOp → RemoteError → σ)
    (s : σ) : List SessionEvent → List (Except RemoteError CallAnswer) × σ
  | [] => ([], s)
  | .arm op e :: events => listen ask arm (arm s op e) events
  | .call c :: events =>
    ((ask s c).1 :: (listen ask arm (ask s c).2 events).1, (listen ask arm (ask s c).2 events).2)

def Device.listen (d : Device) (id : SessionId) (events : List SessionEvent) :
    List (Except RemoteError CallAnswer) × Device :=
  Memory.listen (fun d c ↦ c.ask d id) armFault d events

def Cursor.arm (c : Cursor) (op : RemoteOp) (e : RemoteError) : Cursor :=
  { c with faults := c.faults.insert op e }

def Terms.listen (m : Terms) (c : Cursor) (events : List SessionEvent) :
    List (Except RemoteError CallAnswer) × Cursor :=
  Memory.listen m.ask Cursor.arm c events

/-- A device on which a session has such a string and such a position. -/
structure Holds (m : Terms) (path : RemotePath) (id : SessionId) (d : Device)
    (c : Cursor) : Prop where
  session : ∃ position, d.sessions.get? id = some ⟨path, m.mode, position⟩ ∧
    position.toNat = c.position
  file : ∃ content, d.tree.get? path = some (.file content) ∧ content.toBytes = c.data
  fits : c.data.length < UInt64.size
  capacity : d.capacity.toNat = m.capacity
  beside : Tree.stored (d.tree.erase path) = m.beside
  faults : d.faults = c.faults

namespace Holds

variable {m : Terms} {path : RemotePath} {id : SessionId} {d : Device} {c : Cursor}
    {content : Content} {position : UInt64}

theorem entered (h : Holds m path id d c) (op : RemoteOp) :
    Holds m path id (d.enter op).2 { c with faults := c.faults.erase op } :=
  ⟨h.session, h.file, h.fits, h.capacity, h.beside, congrArg (KeyMap.erase · op) h.faults⟩

theorem armed (h : Holds m path id d c) (op : RemoteOp) (e : RemoteError) :
    Holds m path id (d.armFault op e) (c.arm op e) :=
  ⟨h.session, h.file, h.fits, h.capacity, h.beside, congrArg (KeyMap.insert · op e) h.faults⟩

theorem moved (h : Holds m path id d c) (position : UInt64) :
    Holds m path id (d.setSession id ⟨path, m.mode, position⟩)
      { c with position := position.toNat } := by
  refine ⟨⟨position, ?_, rfl⟩, h.file, h.fits, h.capacity, h.beside, h.faults⟩
  exact KeyMap.get?_insert_self _ _ _

theorem filled (h : Holds m path id d c) (hfits : content.size < UInt64.size) :
    Holds m path id { d with tree := d.tree.insert path (.file content) }
      { c with data := content.toBytes } := by
  refine ⟨h.session, ⟨content, ?_, rfl⟩, ?_, h.capacity, ?_, h.faults⟩
  · exact KeyMap.get?_insert_self _ _ _
  · exact content.length_toBytes ▸ hfits
  · exact (congrArg Tree.stored (KeyMap.erase_insert _ _ _)).trans h.beside

theorem requireRoom (h : Holds m path id d c) (length : UInt64) :
    d.tree.requireRoom d.capacity path length =
      match m.room? c.data.length length.toNat with
      | some e => .error e
      | none => .ok () := by
  obtain ⟨content, hp, hdata⟩ := h.file
  have hsize : d.tree.storedAt path = c.data.length := by
    rw [Tree.storedAt_of_get? hp, ← hdata, content.length_toBytes]
    rfl
  rw [Tree.requireRoom_eq d.capacity length (hsize ▸ h.fits), hsize, h.capacity, h.beside,
    Terms.room?]
  split_ifs <;> rfl

theorem toNat_start (h : Holds m path id d c) (hdata : content.toBytes = c.data)
    (hposition : position.toNat = c.position) :
    (Session.writeStart ⟨path, m.mode, position⟩ content.size).toNat = m.start c := by
  have hsize : content.size = c.data.length := by rw [← hdata, content.length_toBytes]
  rw [Session.toNat_writeStart _ (hsize ▸ h.fits), Terms.start, hsize, hposition]

theorem write_eq (h : Holds m path id d c) (hp : d.tree.get? path = some (.file content))
    (hdata : content.toBytes = c.data) (hposition : position.toNat = c.position) (piece : Bytes) :
    Session.write ⟨path, m.mode, position⟩ d.tree d.capacity piece =
      match m.objection? c (.write piece) with
      | some e => .error e
      | none => .ok (piece.length, ⟨path, m.mode, (m.start c + piece.length).toUInt64⟩,
          d.tree.insert path (.file (content.overwrite (m.start c) piece))) := by
  by_cases hm : m.mode.isWrite = true
  · have hstart := h.toNat_start hdata hposition
    have hwrite := Session.write_of_file (s := ⟨path, m.mode, position⟩) hm hp d.capacity piece
    rw [hwrite, hstart]
    simp only [Terms.objection?, hm, Bool.not_true, Bool.false_eq_true, if_false]
    split
    · rfl
    · rename_i hend
      have hstop : Session.writeStart ⟨path, m.mode, position⟩ content.size +
          piece.length.toUInt64 =
          (m.start c + piece.length).toUInt64 := by
        apply UInt64.toNat_inj.1
        rw [toNat_add_of_lt (by omega), hstart, Nat.toUInt64_eq,
          UInt64.toNat_ofNat_of_lt' (by omega)]
      have hlength : ((m.start c + piece.length).toUInt64).toNat = m.start c + piece.length :=
        UInt64.toNat_ofNat_of_lt' (by omega)
      rw [hstop, h.requireRoom, hlength]
      cases m.room? c.data.length (m.start c + piece.length) <;> rfl
  · simp [Session.write, Session.requireWrite, Terms.objection?, hm, Bind.bind, Except.bind]

theorem truncate_eq (h : Holds m path id d c) (hp : d.tree.get? path = some (.file content))
    (position length : UInt64) :
    Session.truncate ⟨path, m.mode, position⟩ d.tree d.capacity length =
      match m.objection? c (.truncate length) with
      | some e => .error e
      | none => .ok (d.tree.insert path (.file (content.resize length.toNat))) := by
  by_cases hm : m.mode.isWrite = true
  · have htruncate := Session.truncate_of_file
      (s := ⟨path, m.mode, position⟩) hm hp d.capacity length
    rw [htruncate, h.requireRoom]
    simp only [Terms.objection?, hm, Bool.not_true, Bool.false_eq_true, if_false]
    cases m.room? c.data.length length.toNat <;> rfl
  · simp [Session.truncate, Session.requireWrite, Terms.objection?, hm, Bind.bind, Except.bind]

theorem ask_of_fault (h : Holds m path id d c) {call : SessionCall} {e : RemoteError}
    (hf : c.faults.get? call.op = some e) :
    (call.ask d id).1 = (m.ask c call).1 ∧ Holds m path id (call.ask d id).2 (m.ask c call).2 := by
  have hrefused : m.refusal? c call = some e := by rw [Terms.refusal?, hf, Option.some_or]
  have hd : d.faults.get? (call.request id).op = some e := by rw [call.op_request, h.faults, hf]
  rw [SessionCall.ask_of_answer (Device.answer_of_fault hd), Terms.ask_of_refusal hrefused]
  refine ⟨rfl, ?_⟩
  cases call <;> exact h.entered _

section Faultless

theorem ask_seek (h : Holds m path id d c) (hf : c.faults.get? .seek = none) (offset : UInt64) :
    ((SessionCall.seek offset).ask d id).1 = (m.ask c (.seek offset)).1 ∧
      Holds m path id ((SessionCall.seek offset).ask d id).2 (m.ask c (.seek offset)).2 := by
  obtain ⟨position, hs, -⟩ := h.session
  have hanswer := Device.seek_in_session hs (h.faults ▸ hf) offset
  have hgranted : m.refusal? c (.seek offset) = none := Terms.refusal?_of_no_fault hf
  rw [SessionCall.ask_of_answer (c := .seek offset) hanswer, Terms.ask_of_grant hgranted]
  exact ⟨rfl, (h.entered .seek).moved offset⟩

theorem ask_read (h : Holds m path id d c) (hf : c.faults.get? .read = none) (max : Nat) :
    ((SessionCall.read max).ask d id).1 = (m.ask c (.read max)).1 ∧
      Holds m path id ((SessionCall.read max).ask d id).2 (m.ask c (.read max)).2 := by
  obtain ⟨position, hs, hposition⟩ := h.session
  obtain ⟨content, hp, hdata⟩ := h.file
  have hanswer := Device.read_in_session hs (h.faults ▸ hf) max
  have hread := Session.read_of_file (s := ⟨path, m.mode, position⟩) hp max
  rw [Content.slice_eq, hdata] at hread
  rw [hread] at hanswer
  have hgranted : m.refusal? c (.read max) = none := Terms.refusal?_of_no_fault hf
  rw [SessionCall.ask_of_answer (c := .read max) hanswer, Terms.ask_of_grant hgranted]
  have hmoved := (h.entered .read).moved
    (position + (c.data.slice position.toNat max).length.toUInt64)
  rw [toNat_add_of_lt (Bytes.add_length_slice_lt h.fits position max), hposition] at hmoved
  rw [hposition]
  exact ⟨rfl, hmoved⟩

theorem ask_write (h : Holds m path id d c) (hf : c.faults.get? .write = none) (piece : Bytes) :
    ((SessionCall.write piece).ask d id).1 = (m.ask c (.write piece)).1 ∧
      Holds m path id ((SessionCall.write piece).ask d id).2 (m.ask c (.write piece)).2 := by
  obtain ⟨position, hs, hposition⟩ := h.session
  obtain ⟨content, hp, hdata⟩ := h.file
  have hanswer := Device.write_in_session hs (h.faults ▸ hf) piece
  have hrefusal : m.refusal? c (.write piece) = m.objection? c (.write piece) :=
    Terms.refusal?_of_no_fault hf
  rw [h.write_eq hp hdata hposition, ← hrefusal] at hanswer
  cases ho : m.refusal? c (.write piece) with
  | some e =>
    rw [ho] at hanswer
    rw [SessionCall.ask_of_answer (c := .write piece) hanswer, Terms.ask_of_refusal ho]
    exact ⟨rfl, h.entered .write⟩
  | none =>
    rw [ho] at hanswer
    rw [SessionCall.ask_of_answer (c := .write piece) hanswer, Terms.ask_of_grant ho]
    have hstop := Terms.lt_of_write_allowed (hrefusal.symm.trans ho)
    have hfits : (content.overwrite (m.start c) piece).size < UInt64.size := by
      have hlength := h.fits
      rw [← hdata, content.length_toBytes] at hlength
      rw [Content.size_overwrite]
      exact max_lt hlength hstop
    have hfilled := ((h.entered .write).moved (m.start c + piece.length).toUInt64).filled hfits
    rw [Content.toBytes_overwrite, hdata, Nat.toUInt64_eq,
      UInt64.toNat_ofNat_of_lt' hstop] at hfilled
    exact ⟨rfl, hfilled⟩

theorem ask_truncate (h : Holds m path id d c) (hf : c.faults.get? .truncate = none)
    (length : UInt64) :
    ((SessionCall.truncate length).ask d id).1 = (m.ask c (.truncate length)).1 ∧
      Holds m path id ((SessionCall.truncate length).ask d id).2
        (m.ask c (.truncate length)).2 := by
  obtain ⟨position, hs, -⟩ := h.session
  obtain ⟨content, hp, hdata⟩ := h.file
  have hanswer := Device.truncate_in_session hs (h.faults ▸ hf) length
  have hrefusal : m.refusal? c (.truncate length) = m.objection? c (.truncate length) :=
    Terms.refusal?_of_no_fault hf
  rw [h.truncate_eq hp, ← hrefusal] at hanswer
  cases ho : m.refusal? c (.truncate length) with
  | some e =>
    rw [ho] at hanswer
    rw [SessionCall.ask_of_answer (c := .truncate length) hanswer, Terms.ask_of_refusal ho]
    exact ⟨rfl, h.entered .truncate⟩
  | none =>
    rw [ho] at hanswer
    rw [SessionCall.ask_of_answer (c := .truncate length) hanswer, Terms.ask_of_grant ho]
    have hfits : (content.resize length.toNat).size < UInt64.size := by
      rw [Content.size_resize]
      exact length.toNat_lt_size
    have hfilled := (h.entered .truncate).filled hfits
    rw [Content.toBytes_resize, hdata] at hfilled
    exact ⟨rfl, hfilled⟩

end Faultless

/-- A call is answered as the bytes and the position tell. -/
theorem ask (h : Holds m path id d c) (call : SessionCall) :
    (call.ask d id).1 = (m.ask c call).1 ∧ Holds m path id (call.ask d id).2 (m.ask c call).2 := by
  cases hf : c.faults.get? call.op with
  | some e => exact h.ask_of_fault hf
  | none =>
    cases call with
    | seek offset => exact h.ask_seek hf offset
    | read max => exact h.ask_read hf max
    | write piece => exact h.ask_write hf piece
    | truncate length => exact h.ask_truncate hf length

theorem listen (h : Holds m path id d c) (events : List SessionEvent) :
    (d.listen id events).1 = (m.listen c events).1 ∧
    Holds m path id (d.listen id events).2 (m.listen c events).2 := by
  induction events generalizing d c with
  | nil => exact ⟨rfl, h⟩
  | cons event events ih =>
    cases event with
    | arm op e => exact ih (h.armed op e)
    | call call =>
      obtain ⟨hanswer, hleft⟩ := h.ask call
      obtain ⟨hanswers, hend⟩ := ih hleft
      refine ⟨?_, hend⟩
      change _ :: _ = _ :: _
      rw [hanswer]
      exact congrArg (_ :: ·) hanswers

end Holds

section Reading

/-- What reads one after another should give: each one what stands behind what the earlier ones
asked for. -/
def chunks (data : Bytes) (position : Nat) : List Nat → List Bytes
  | [] => []
  | n :: sizes => data.slice position n :: chunks data (position + n) sizes

theorem flatten_chunks (data : Bytes) (position : Nat) (sizes : List Nat) :
    (chunks data position sizes).flatten = data.slice position sizes.sum := by
  induction sizes generalizing position with
  | nil => simp [chunks, Bytes.slice]
  | cons n sizes ih => rw [chunks, List.flatten_cons, ih, List.sum_cons, Bytes.slice_append]

theorem getElem?_chunks (data : Bytes) (position : Nat) (sizes : List Nat) (i : Nat) :
    (chunks data position sizes)[i]? = sizes[i]?.map fun n ↦
      data.slice (position + (sizes.take i).sum) n := by
  induction sizes generalizing position i with
  | nil => simp [chunks]
  | cons n sizes ih =>
    cases i with
    | zero => simp [chunks]
    | succ i => simp [chunks, ih, Nat.add_assoc]

theorem chunks_of_end {data : Bytes} {position : Nat} (h : data.length ≤ position)
    (sizes : List Nat) :
    chunks data position sizes = sizes.map fun _ ↦ [] := by
  induction sizes generalizing position with
  | nil => rfl
  | cons n sizes ih =>
    have hchunk : data.slice position n = [] := by
      rw [Bytes.slice, List.drop_eq_nil_of_le h, List.take_nil]
    rw [chunks, hchunk, ih (by omega), List.map_cons]

theorem chunks_behind (data : Bytes) (position n : Nat) (sizes : List Nat) :
    chunks data (position + (data.slice position n).length) sizes =
      chunks data (position + n) sizes := by
  have hlength : (data.slice position n).length = min n (data.length - position) := by
    rw [Bytes.slice, List.length_take, List.length_drop]
  by_cases h : position + n ≤ data.length
  · have hfull : (data.slice position n).length = n := by omega
    rw [hfull]
  · rw [chunks_of_end (by omega), chunks_of_end (by omega)]

variable {m : Terms} {c : Cursor}

theorem Terms.listen_reads (hf : c.faults.get? .read = none) (sizes : List Nat) :
    (m.listen c (sizes.map fun n ↦ .call (.read n))).1 =
      (chunks c.data c.position sizes).map fun chunk ↦ .ok (.data chunk) := by
  induction sizes generalizing c with
  | nil => rfl
  | cons n sizes ih =>
    have hask : m.ask c (.read n) = (.ok (.data (c.data.slice c.position n)),
        ⟨c.data, c.position + (c.data.slice c.position n).length, c.faults.erase .read⟩) :=
      Terms.ask_of_grant (Terms.refusal?_of_no_fault hf)
    have hnext : (c.faults.erase .read).get? .read = none := by rw [KeyMap.get?_erase, if_pos rfl]
    have hrest := ih (c := ⟨c.data, c.position + (c.data.slice c.position n).length,
      c.faults.erase .read⟩) hnext
    rw [chunks_behind] at hrest
    change (m.ask c (.read n)).1 :: (m.listen (m.ask c (.read n)).2 _).1 = _
    rw [hask, hrest, chunks, List.map_cons]

end Reading

section Opening

variable {t t' : Tree} {path : RemotePath} {mode : OpenMode} {position : UInt64}

theorem Tree.openFile_start (h : t.openFile path mode = .ok (t', position))
    (hfits : ∀ content, t.get? path = some (.file content) → content.size < UInt64.size) :
    ∃ content, t'.get? path = some (.file content) ∧ content.size < UInt64.size ∧
      content.toBytes = (if mode = .createWrite then [] else (t.files path).getD []) ∧
      position.toNat = (if mode = .append then content.size else 0) ∧
      t'.erase path = t.erase path := by
  have hcreated : ∃ content, (t.insert path (.file .empty)).get? path = some (.file content) ∧
      content.size < UInt64.size ∧ content.toBytes = [] ∧
        (t.insert path (.file .empty)).erase path = t.erase path :=
    ⟨.empty, KeyMap.get?_insert_self _ _ _, Nat.zero_lt_succ _, rfl, KeyMap.erase_insert _ _ _⟩
  unfold openFile at h
  split at h
  · cases h
  · rename_i content hp
    have hdata : (t.files path).getD [] = content.toBytes := by
      rw [files_of_get? hp]
      rfl
    cases mode with
    | createWrite =>
      cases h
      obtain ⟨new, hnew, hsize, hempty, herase⟩ := hcreated
      exact ⟨new, hnew, hsize, hempty, rfl, herase⟩
    | append =>
      cases h
      exact ⟨content, hp, hfits content hp, hdata.symm,
        UInt64.toNat_ofNat_of_lt' (hfits content hp), rfl⟩
    | read | write =>
      cases h
      exact ⟨content, hp, hfits content hp, hdata.symm, rfl, rfl⟩
  · cases mode with
    | createWrite =>
      obtain ⟨u, -, h⟩ := exists_of_bind_eq_ok h
      cases h
      obtain ⟨new, hnew, hsize, hempty, herase⟩ := hcreated
      exact ⟨new, hnew, hsize, hempty, rfl, herase⟩
    | _ => cases h

namespace Device

variable {d : Device} {id : SessionId}

def terms (d : Device) (path : RemotePath) (mode : OpenMode) : Terms :=
  ⟨mode, d.capacity.toNat, Tree.stored (d.tree.erase path)⟩

def startData (d : Device) (path : RemotePath) (mode : OpenMode) : Bytes :=
  if mode = .createWrite then [] else (d.tree.files path).getD []

def cursor (d : Device) (path : RemotePath) (mode : OpenMode) : Cursor :=
  ⟨d.startData path mode, if mode = .append then (d.startData path mode).length
    else 0, d.faults.erase .openFile⟩

theorem holds_of_openFile (ho : (d.answer (.openFile path mode)).1 = .ok id)
    (hfits : ∀ content, d.tree.get? path = some (.file content) → content.size < UInt64.size) :
    Holds (d.terms path mode) path id (d.answer (.openFile path mode)).2 (d.cursor path mode) := by
  obtain ⟨-, t, position, hopen, hd⟩ := answer_openFile_ok ho
  obtain ⟨content, hp, hsize, hdata, hposition, herase⟩ := Tree.openFile_start hopen hfits
  have hlength : (d.startData path mode).length = content.size := by
    rw [startData, ← hdata, content.length_toBytes]
  rw [hd]
  refine ⟨⟨position, ?_, ?_⟩, ⟨content, hp, hdata⟩, ?_, rfl, congrArg Tree.stored herase, rfl⟩
  · exact KeyMap.get?_insert_self _ _ _
  · rw [hposition, cursor, hlength]
  · exact hlength ▸ hsize

/-- In a session that nothing else disturbs, the answers, the position and the bytes are those
of the string of bytes and the position that stand for it. A call that fails leaves both. Reads
one after another give what stands there piece by piece, and from the end on nothing. -/
theorem session_follows_cursor (ho : (d.answer (.openFile path mode)).1 = .ok id)
    (hfits : ∀ content, d.tree.get? path = some (.file content) → content.size < UInt64.size)
    (events : List SessionEvent) :
    ∃ answers d' c, (d.answer (.openFile path mode)).2.listen id events = (answers, d') ∧
      (d.terms path mode).listen (d.cursor path mode) events = (answers, c) ∧
      Holds (d.terms path mode) path id d' c ∧
      (∀ call e c', (d.terms path mode).ask c call = (.error e, c') →
        c'.data = c.data ∧ c'.position = c.position) ∧
      ∀ sizes, c.faults.get? .read = none →
        (d'.listen id (sizes.map fun n ↦ .call (.read n))).1 =
          (chunks c.data c.position sizes).map (fun chunk ↦ .ok (.data chunk)) ∧
        (chunks c.data c.position sizes).flatten = c.data.slice c.position sizes.sum ∧
        ∀ i n, sizes[i]? = some n → ∃ chunk, (chunks c.data c.position sizes)[i]? = some chunk ∧
          (0 < n → (chunk = [] ↔ c.data.length ≤ c.position + (sizes.take i).sum)) := by
  obtain ⟨hanswers, hleft⟩ := (holds_of_openFile ho hfits).listen events
  refine ⟨_, _, _, rfl, Prod.ext hanswers.symm rfl, hleft, ?_, ?_⟩
  · intro call e c' hask
    rw [Terms.ask] at hask
    split at hask
    · cases hask
      exact ⟨rfl, rfl⟩
    · cases hask
  · intro sizes hf
    refine ⟨(hleft.listen _).1.trans (Terms.listen_reads hf sizes), flatten_chunks _ _ _, ?_⟩
    intro i n hn
    refine ⟨_, by rw [getElem?_chunks, hn, Option.map_some], ?_⟩
    intro hpos
    exact Bytes.slice_eq_nil_iff hpos

section Examples

def shortFile : Device := (empty 8).run
  [.request (.openFile storage .createWrite), .request (.write 0 [1, 2, 3]), .request (.close 0)]

def disturbed : List SessionEvent :=
  [.call (.seek 5), .call (.write [9]), .arm .read .timeout, .call (.read 1), .call (.seek 1),
    .call (.truncate 4), .call (.write [1, 2, 3, 4, 5, 6, 7, 8]), .call (.read 9)]

theorem session_follows_cursor_disturbed :
    (shortFile.answer (.openFile storage .write)).1 = .ok 1 ∧
    (∀ content, shortFile.tree.get? storage = some (.file content) → content.size < UInt64.size) ∧
    ((shortFile.answer (.openFile storage .write)).2.listen 1 disturbed).1 =
      [.ok .nothing, .ok (.count 1), .error .timeout, .ok .nothing, .ok .nothing,
        .error (.reported Errno.fbig "file too large"),
        .ok (.data [2, 3, 0])] := by
  have ho : (shortFile.answer (.openFile storage .write)).1 = .ok 1 := by rfl
  have hfit : shortFile.tree.Fits := by decide +kernel
  obtain ⟨answers, d', c, hd, hc, -⟩ := session_follows_cursor ho (hfit storage) disturbed
  refine ⟨ho, hfit storage, ?_⟩
  have hreference :
      ((shortFile.terms storage .write).listen (shortFile.cursor storage .write) disturbed).1 =
      [.ok .nothing, .ok (.count 1), .error .timeout, .ok .nothing, .ok .nothing,
        .error (.reported Errno.fbig "file too large"), .ok (.data [2, 3, 0])] := by rfl
  rw [hd, ← hreference, hc]

end Examples

end Device

end Opening

end Memory

end RemoteMount
