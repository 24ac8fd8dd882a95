import RemoteMount.Proofs.Memory.Growth

namespace RemoteMount.Memory

namespace Tree

variable {t : Tree} {p : RemotePath} {capacity : UInt64} {n : Nat}

/-- A length that the capacity allows for one file, and with which all files would have more
bytes than a word counts. -/
structure Overflows (t : Tree) (capacity : UInt64) (p : RemotePath) (length : Nat) : Prop where
  grows : t.storedAt p < length
  allowed : length ≤ capacity.toNat
  large : UInt64.size ≤ stored (t.erase p) + length

def room (t : Tree) (capacity : Nat) (path : RemotePath) (newLength : Nat) : Except Errno Unit :=
  if capacity < newLength then .error Errno.fbig
  else if t.storedAt path < newLength ∧ capacity < stored (t.erase path) + newLength then
    .error Errno.nospc
  else .ok ()

theorem room_of_overflows (h : t.Overflows capacity p n) :
    t.room capacity.toNat p n = .error Errno.nospc := by
  obtain ⟨hgrows, hallowed, hlarge⟩ := h
  have hcapacity := capacity.toNat_lt_size
  rw [room, if_neg (by omega), if_pos (by omega)]

theorem verdict_of_overflows (h : t.Overflows capacity p n) :
    verdict capacity.toNat (stored (t.erase p)) (t.storedAt p) n = none := by
  obtain ⟨hgrows, hallowed, hlarge⟩ := h
  rw [verdict, summed, if_neg (by omega), if_pos hgrows, if_pos hlarge]

theorem verdict_of_not_overflows (hfit : t.stored < UInt64.size) (h : ¬t.Overflows capacity p n) :
    verdict capacity.toNat (stored (t.erase p)) (t.storedAt p) n =
      some (t.room capacity.toNat p n) := by
  have hle := stored_erase_le t p
  have hsum : n ≤ capacity.toNat → ¬UInt64.size ≤ summed (stored (t.erase p)) (t.storedAt p) n := by
    intro hallowed hlarge
    rw [summed] at hlarge
    split at hlarge
    · rename_i hgrows
      exact h ⟨hgrows, hallowed, hlarge⟩
    · omega
  unfold verdict room
  split
  · rfl
  · rw [if_neg (hsum (by omega))]
    split <;> rfl

end Tree

namespace Session

variable {s : Session} {t : Tree} {capacity : UInt64} {r : Request} {id : SessionId}

def writable (s : Session) : Except Errno Unit :=
  if s.mode.isWrite then .ok () else .error Errno.badf

def present (s : Session) (t : Tree) : Except Errno Unit :=
  match t.get? s.path with
  | some (.file _) => .ok ()
  | _ => .error Errno.noent

theorem heard_content (s : Session) (t : Tree) : heard (s.content t) = some (s.present t) := by
  unfold content present
  cases t.get? s.path with
  | none => rfl
  | some node => cases node <;> rfl

theorem content_of_absent (h : ¬∃ content, t.get? s.path = some (.file content)) :
    s.content t = .error vanished := by
  unfold content
  split
  · rename_i content hp
    exact absurd ⟨content, hp⟩ h
  · rfl

theorem present_of_absent (h : ¬∃ content, t.get? s.path = some (.file content)) :
    s.present t = .error Errno.noent := by
  have hheard := s.heard_content t
  rw [content_of_absent h] at hheard
  exact (Option.some_inj.1 hheard).symm

def say (s : Session) (t : Tree) (capacity : UInt64) : Request → Option (Except Errno Unit)
  | .read _ max => heard (s.read t max)
  | .write _ data => heard (s.write t capacity data)
  | .truncate _ length => heard (s.truncate t capacity length)
  | _ => some (.ok ())

/-- What should be heard, decided by numbers. -/
def judge (s : Session) (t : Tree) (capacity : Nat) : Request → Except Errno Unit
  | .read _ _ => s.present t
  | .write _ data => do
    s.writable
    s.present t
    t.room capacity s.path ((if s.mode = .append then t.storedAt s.path else s.position.toNat) +
      data.length)
  | .truncate _ length => do
    s.writable
    t.room capacity s.path length.toNat
    s.present t
  | _ => .ok ()

/-- A request that makes the sum of all lengths too large for a word. A write looks for its file
before. -/
structure Overflows (s : Session) (t : Tree) (capacity : UInt64) (r : Request) : Prop where
  writable : s.mode.isWrite = true
  present : r.op = .write → ∃ content, t.get? s.path = some (.file content)
  overflows : t.Overflows capacity s.path (s.reach (t.storedAt s.path) r)

theorem heard_write_of_file {content : Content} (hm : s.mode.isWrite = true)
    (hp : t.get? s.path = some (.file content))
    (hfit : t.stored < UInt64.size) (capacity : UInt64) (id : SessionId) (data : Bytes) :
    heard (s.write t capacity data) =
      verdict capacity.toNat (Tree.stored (t.erase s.path)) (t.storedAt s.path)
        (s.reach (t.storedAt s.path) (.write id data)) ∧
      s.judge t capacity.toNat (.write id data) =
        t.room capacity.toNat s.path (s.reach (t.storedAt s.path) (.write id data)) := by
  have herased := t.stored_erase s.path
  have hsize : t.storedAt s.path = content.size := Tree.storedAt_of_get? hp
  constructor
  · rw [heard_write hm hp (by omega), hsize]
    rfl
  · simp only [judge, writable, if_pos hm, present, hp, reach,
      s.toNat_writeStart (show t.storedAt s.path < _ by omega)]
    rfl

theorem heard_truncate_of_writable (hm : s.mode.isWrite = true) (hfit : t.stored < UInt64.size)
    (length : UInt64) :
    heard (s.truncate t capacity length) =
      (verdict capacity.toNat (Tree.stored (t.erase s.path)) (t.storedAt s.path) length.toNat).bind
        fun said ↦
        if said = .ok () then some (s.present t) else some said := by
  have herased := t.stored_erase s.path
  have htruncate : s.truncate t capacity length = t.requireRoom capacity s.path length >>= fun _ ↦
      (s.content t).map fun old ↦ t.insert s.path (.file (old.resize length.toNat)) := by
    rw [truncate, requireWrite, if_pos hm]
    cases s.content t <;> rfl
  rw [htruncate, heard_seq, Tree.heard_requireRoom capacity length (by omega), heard_map,
    heard_content]

theorem Overflows.said (hfit : t.stored < UInt64.size) (h : s.Overflows t capacity r) :
    s.say t capacity r = none ∧ s.judge t capacity.toNat r = .error Errno.nospc := by
  obtain ⟨hm, hpresent, h⟩ := h
  have hverdict := Tree.verdict_of_overflows h
  have hroom := Tree.room_of_overflows h
  cases r with
  | write id data =>
    obtain ⟨content, hp⟩ := hpresent rfl
    obtain ⟨hheard, hjudged⟩ := heard_write_of_file hm hp hfit capacity id data
    exact ⟨hheard.trans hverdict, hjudged.trans hroom⟩
  | truncate id length =>
    simp only [reach] at hverdict hroom
    constructor
    · rw [say, heard_truncate_of_writable hm hfit, hverdict, Option.bind_none]
    · rw [judge, Session.writable, if_pos hm, hroom]
      rfl
  | _ => exact absurd h.grows (Nat.not_lt_zero _)

theorem say_write (hfit : t.stored < UInt64.size) {data : Bytes}
    (h : ¬s.Overflows t capacity (.write id data)) :
    s.say t capacity (.write id data) = some (s.judge t capacity.toNat (.write id data)) := by
  by_cases hm : s.mode.isWrite = true
  · by_cases hp : ∃ content, t.get? s.path = some (.file content)
    · obtain ⟨content, hp⟩ := hp
      obtain ⟨hheard, hjudged⟩ := heard_write_of_file hm hp hfit capacity id data
      have hkept : ¬t.Overflows capacity s.path (s.reach (t.storedAt s.path) (.write id data)) :=
        fun hlarge ↦ h ⟨hm, fun _ ↦ ⟨content, hp⟩, hlarge⟩
      rw [say, hheard, Tree.verdict_of_not_overflows hfit hkept, hjudged]
    · rw [say, write, judge, requireWrite, writable, if_pos hm, if_pos hm, content_of_absent hp,
        present_of_absent hp]
      rfl
  · rw [say, write, judge, requireWrite, writable, if_neg hm, if_neg hm]
    rfl

theorem say_truncate (hfit : t.stored < UInt64.size) {length : UInt64}
    (h : ¬s.Overflows t capacity (.truncate id length)) :
    s.say t capacity (.truncate id length) =
      some (s.judge t capacity.toNat (.truncate id length)) := by
  by_cases hm : s.mode.isWrite = true
  · have hkept : ¬t.Overflows capacity s.path length.toNat := fun hlarge ↦ h ⟨hm, nofun, hlarge⟩
    rw [say, heard_truncate_of_writable hm hfit, Tree.verdict_of_not_overflows hfit hkept, judge,
      writable, if_pos hm]
    cases t.room capacity.toNat s.path length.toNat <;> rfl
  · rw [say, truncate, judge, requireWrite, writable, if_neg hm, if_neg hm]
    rfl

theorem say_of_not_overflows (hfit : t.stored < UInt64.size) (h : ¬s.Overflows t capacity r) :
    s.say t capacity r = some (s.judge t capacity.toNat r) := by
  cases r with
  | read id max =>
    have hread : s.read t max = (s.content t).map fun content ↦
        (content.slice s.position.toNat max,
          { s with
            position := s.position + (content.slice s.position.toNat max).length.toUInt64 }) := by
      unfold Session.read
      cases s.content t <;> rfl
    rw [say, judge, hread, heard_map, heard_content]
  | write id data => exact say_write hfit h
  | truncate id length => exact say_truncate hfit h
  | _ => rfl

theorem say_cases (hfit : t.stored < UInt64.size) :
    s.Overflows t capacity r ∧ s.say t capacity r = none ∨
      ¬s.Overflows t capacity r ∧ s.say t capacity r = some (s.judge t capacity.toNat r) := by
  by_cases h : s.Overflows t capacity r
  · exact .inl ⟨h, (h.said hfit).1⟩
  · exact .inr ⟨h, say_of_not_overflows hfit h⟩

end Session

namespace Device

variable {d : Device} {r : Request} {id : SessionId} {s : Session}

theorem answer_read (hs : d.sessions.get? id = some s) (hf : d.faults.get? .read = none)
    (max : Nat) :
    (d.answer (.read id max)).1 = (s.read d.tree max).map Prod.fst := by
  rw [read_in_session hs hf]
  cases s.read d.tree max <;> rfl

theorem told_eq_say (hs : d.sessions.get? id = some s) (hr : r.session? = some id)
    (hf : d.faults.get? r.op = none) :
    d.told r = s.say d.tree d.capacity r := by
  unfold told
  cases r with
  | seek id' offset =>
    cases hr
    rw [seek_in_session hs hf]
    rfl
  | read id' max =>
    cases hr
    rw [answer_read hs hf, heard_map]
    rfl
  | write id' data =>
    cases hr
    rw [answer_write hs hf, heard_map]
    rfl
  | truncate id' length =>
    cases hr
    rw [answer_truncate hs hf, heard_map]
    rfl
  | close id' =>
    rw [answer_of_no_fault hf]
    rfl
  | _ => cases hr

/-- On a device whose files a word can count, no sum that a request in a session makes is too
large for a word but one: that of all lengths, where a file is to grow to a length within a
capacity that lies close to the largest word. There the program unwinds, although numbers tell
that there is no room. Apart from that what is said is what numbers say. -/
theorem sums_exact_iff (hs : d.sessions.get? id = some s) (hr : r.session? = some id)
    (hf : d.faults.get? r.op = none) (hfit : d.tree.stored < UInt64.size) :
    ((d.answer r).1 = .error .overflow ↔ s.Overflows d.tree d.capacity r) ∧
    (d.told r = some (s.judge d.tree d.capacity.toNat r) ↔ ¬s.Overflows d.tree d.capacity r) ∧
    (s.Overflows d.tree d.capacity r → s.judge d.tree d.capacity.toNat r = .error Errno.nospc) ∧
    (d.tree.usedBeside s.path).map UInt64.toNat = .ok (Tree.stored (d.tree.erase s.path)) ∧
    (∀ content max, d.tree.get? s.path = some (.file content) →
      s.position.toNat + (content.slice s.position.toNat max).length < UInt64.size) ∧
    (d.capacity.toNat + Tree.stored (d.tree.erase s.path) < UInt64.size →
      ¬s.Overflows d.tree d.capacity r) := by
  have herased := d.tree.stored_erase s.path
  have hsaid : s.Overflows d.tree d.capacity r ∧ d.told r = none ∨
      ¬s.Overflows d.tree d.capacity r ∧ d.told r = some (s.judge d.tree d.capacity.toNat r) := by
    rw [told_eq_say hs hr hf]
    exact Session.say_cases hfit
  refine ⟨?_, ?_, fun h ↦ (h.said hfit).2, ?_, ?_, ?_⟩
  · rw [← heard_eq_none_iff, ← told]
    rcases hsaid with ⟨h, hnone⟩ | ⟨h, hsome⟩
    · exact iff_of_true hnone h
    · exact iff_of_false (by simp [hsome]) h
  · rcases hsaid with ⟨h, hnone⟩ | ⟨h, hsome⟩
    · exact iff_of_false (by simp [hnone]) (not_not_intro h)
    · exact iff_of_true hsome h
  -- The other files together are no longer than all files, which a word counts.
  · cases hused : d.tree.usedBeside s.path with
    | error e =>
      rw [Tree.usedBeside_eq, addLength_eq_error_iff, UInt64.toNat_zero] at hused
      omega
    | ok used =>
      rw [Tree.usedBeside_eq, addLength_eq_ok_iff, UInt64.toNat_zero, Nat.zero_add] at hused
      exact congrArg Except.ok hused
  · intro content max hp
    rw [Tree.storedAt_of_get? hp] at herased
    have hdata : content.toBytes.length < UInt64.size := by
      rw [Content.length_toBytes]
      exact lt_of_le_of_lt (Nat.le_add_left _ _) (herased ▸ hfit)
    rw [Content.slice_eq]
    exact Bytes.add_length_slice_lt hdata s.position max
  · intro hcapacity h
    have hlarge := h.overflows.large
    have hallowed := h.overflows.allowed
    omega

section Examples

def lostLog : Device := (empty 18446744073709551615).run
  [.request (.openFile longLog .createWrite), .request (.write 0 [1]),
    .request (.openFile shortLog .createWrite), .request (.unlink shortLog)]

theorem faults_lostLog (op : RemoteOp) : lostLog.faults.get? op = none := by
  cases op <;> decide +kernel

theorem stored_lostLog : lostLog.tree.stored < UInt64.size := by decide +kernel

theorem shortLog_of_lostLog : lostLog.sessions.get? 1 = some ⟨shortLog, .createWrite, 0⟩ := by
  decide +kernel

theorem sums_exact_iff_lostLog :
    lostLog.tree.stored < UInt64.size ∧ lostLog.sessions.get? 0 = some ⟨longLog, .createWrite, 1⟩ ∧
    lostLog.sessions.get? 1 = some ⟨shortLog, .createWrite, 0⟩ ∧
    lostLog.told (.write 0 [2]) = some (.ok ()) ∧
    lostLog.told (.truncate 1 18446744073709551614) = some (.error Errno.noent) ∧
    (lostLog.answer (.truncate 1 18446744073709551615)).1 = .error .overflow ∧
    Session.judge ⟨shortLog, .createWrite, 0⟩ lostLog.tree lostLog.capacity.toNat
      (.truncate 1 18446744073709551615) = .error Errno.nospc := by
  have hlong : lostLog.sessions.get? 0 = some ⟨longLog, .createWrite, 1⟩ := by decide +kernel
  obtain ⟨-, hwritten, -⟩ := sums_exact_iff (r := .write 0 [2]) hlong rfl
    (faults_lostLog _) stored_lostLog
  obtain ⟨-, hbelow, -⟩ :=
    sums_exact_iff (r := .truncate 1 18446744073709551614) shortLog_of_lostLog rfl
      (faults_lostLog _) stored_lostLog
  obtain ⟨habove, -, hjudged, -⟩ :=
    sums_exact_iff (r := .truncate 1 18446744073709551615) shortLog_of_lostLog rfl
      (faults_lostLog _) stored_lostLog
  have hoverflows : Session.Overflows ⟨shortLog, .createWrite, 0⟩ lostLog.tree lostLog.capacity
      (.truncate 1 18446744073709551615) :=
    ⟨rfl, fun h ↦ absurd h (by decide), ⟨by decide +kernel, by decide +kernel, by decide +kernel⟩⟩
  refine ⟨stored_lostLog, hlong, shortLog_of_lostLog, ?_, ?_, habove.2 hoverflows,
    hjudged hoverflows⟩
  · refine (hwritten.2 fun h ↦ ?_).trans (by decide +kernel)
    exact absurd h.overflows.large (by decide +kernel)
  · refine (hbelow.2 fun h ↦ ?_).trans (by decide +kernel)
    exact absurd h.overflows.large (by decide +kernel)

/-- There is no room for a file of that length beside the other one, and the sum that would tell
so is too large. -/
theorem truncate_sum_too_large : ¬∀ (d : Device) (id : SessionId) (s : Session) (length : UInt64),
    d.tree.stored < UInt64.size → d.sessions.get? id = some s → (∀ op, d.faults.get? op = none) →
    (d.answer (.truncate id length)).1 ≠ .error .overflow ∧
      d.told (.truncate id length) =
        some (s.judge d.tree d.capacity.toNat (.truncate id length)) := by
  intro h
  obtain ⟨hfits, -⟩ := h lostLog 1 _ 18446744073709551615 stored_lostLog shortLog_of_lostLog
    faults_lostLog
  exact hfits (by decide +kernel)

end Examples

end Device

end RemoteMount.Memory
