import Mathlib.Tactic.MkIffOfInductiveProp
import RemoteMount.Proofs.Memory.Capacity
import RemoteMount.Proofs.Memory.Sessions

namespace RemoteMount.Memory

/-- The length that a request asks of a file that holds `current` bytes: where a write ends, or
what a cut leaves. -/
def Session.reach (s : Session) (current : Nat) : Request → Nat
  | .write _ data => (s.writeStart current).toNat + data.length
  | .truncate _ length => length.toNat
  | _ => 0

/-- What should be said to a request for such a length, with `used` bytes in other files. Only
growth is refused: where the file alone would exceed the capacity, and where all files together
would. -/
def growth (capacity used current length : Nat) : Except Errno Unit :=
  if length ≤ current then .ok ()
  else if capacity < length then .error Errno.fbig
  else if capacity < used + length then .error Errno.nospc
  else .ok ()

/-- What is said; nothing, where a sum does not fit a word. -/
def verdict (capacity used current length : Nat) : Option (Except Errno Unit) :=
  if capacity < length then some (.error Errno.fbig)
  else if UInt64.size ≤ summed used current length then none
  else if current < length ∧ capacity < used + length then some (.error Errno.nospc)
  else some (.ok ())

/-- Where the two differ: a file that is larger than the capacity does not grow and is still too
large, or nothing is said because the sum that would tell whether there is room does not fit a
word. -/
@[mk_iff]
inductive Misjudged (capacity used current length : Nat) : Prop
  | kept (hl : length ≤ current) (hc : capacity < length)
  | overflown (hc : length ≤ capacity) (hsum : UInt64.size ≤ summed used current length)

theorem verdict_eq_growth_iff {capacity used current length : Nat} :
    verdict capacity used current length = some (growth capacity used current length) ↔
      ¬Misjudged capacity used current length := by
  rw [misjudged_iff, verdict, growth, summed]
  split_ifs <;> simp <;> omega

theorem verdict_of_misjudged {capacity used current length : Nat}
    (h : Misjudged capacity used current length) :
    verdict capacity used current length = if capacity < length then some (.error Errno.fbig)
      else none := by
  cases h with
  | kept hl hc => rw [verdict, if_pos hc, if_pos hc]
  | overflown hc hsum =>
    rw [verdict, if_neg (Nat.not_lt.2 hc), if_pos hsum, if_neg (Nat.not_lt.2 hc)]

/-- What is heard of an answer: that it is granted, or the number of the error that it fails
with. Of a program that unwinds, nothing is. -/
def heard {α : Type} : Except RemoteError α → Option (Except Errno Unit)
  | .ok _ => some (.ok ())
  | .error .overflow => none
  | .error e => some (.error e.errno)

theorem heard_map {α β : Type} (f : α → β) (x : Except RemoteError α) :
    heard (x.map f) = heard x := by
  cases x with
  | error e => cases e <;> rfl
  | ok a => rfl

theorem heard_eq_none_iff {α : Type} {x : Except RemoteError α} :
    heard x = none ↔ x = .error .overflow := by
  cases x with
  | error e => cases e <;> simp [heard]
  | ok a => simp [heard]

theorem heard_seq {α β : Type} (x : Except RemoteError α) (y : Except RemoteError β) :
    heard (x >>= fun _ ↦ y) = (heard x).bind fun said ↦ if said = .ok () then heard y
      else some said := by
  cases x with
  | error e => cases e <;> simp [heard, Bind.bind, Except.bind]
  | ok a => simp [heard, Bind.bind, Except.bind]

variable {t : Tree} {p : RemotePath} {s : Session} {content : Content} {capacity length : UInt64}
    {data : Bytes}

theorem Tree.heard_requireRoom (capacity length : UInt64) (h : t.storedAt p < UInt64.size) :
    heard (t.requireRoom capacity p length) =
      verdict capacity.toNat (stored (t.erase p)) (t.storedAt p) length.toNat := by
  rw [requireRoom_eq capacity length h, verdict]
  split_ifs <;> rfl

namespace Session

theorem heard_truncate (hm : s.mode.isWrite = true) (hp : t.get? s.path = some (.file content))
    (hfit : content.size < UInt64.size) :
    heard (s.truncate t capacity length) =
      verdict capacity.toNat (Tree.stored (t.erase s.path)) content.size length.toNat := by
  have hsize : t.storedAt s.path = content.size := Tree.storedAt_of_get? hp
  have hroom := Tree.heard_requireRoom capacity length (hsize ▸ hfit)
  rw [truncate_of_file hm hp, heard_map, hroom, hsize]

theorem heard_write (hm : s.mode.isWrite = true) (hp : t.get? s.path = some (.file content))
    (hfit : content.size < UInt64.size) :
    heard (s.write t capacity data) =
      verdict capacity.toNat (Tree.stored (t.erase s.path)) content.size
        ((s.writeStart content.size).toNat + data.length) := by
  have hsize : t.storedAt s.path = content.size := Tree.storedAt_of_get? hp
  rw [write_of_file hm hp]
  split
  · rename_i hend
    have hc := capacity.toNat_lt_size
    rw [verdict, if_pos (by omega)]
    rfl
  · rename_i hend
    have hroom := Tree.heard_requireRoom capacity (s.writeStart content.size + data.length.toUInt64)
      (hsize ▸ hfit)
    rw [toNat_add_of_lt (by omega), hsize] at hroom
    rw [heard_map, hroom]

end Session

namespace Device

def told (d : Device) (r : Request) : Option (Except Errno Unit) := heard (d.answer r).1

variable {d : Device} {r : Request} {id : SessionId}

theorem answer_write (hs : d.sessions.get? id = some s) (hf : d.faults.get? .write = none)
    (data : Bytes) :
    (d.answer (.write id data)).1 = (s.write d.tree d.capacity data).map Prod.fst := by
  rw [write_in_session hs hf]
  cases s.write d.tree d.capacity data <;> rfl

theorem answer_truncate (hs : d.sessions.get? id = some s) (hf : d.faults.get? .truncate = none)
    (length : UInt64) :
    (d.answer (.truncate id length)).1 = (s.truncate d.tree d.capacity length).map fun _ ↦ () := by
  rw [truncate_in_session hs hf]
  cases s.truncate d.tree d.capacity length <;> rfl

theorem told_eq_verdict (hs : d.sessions.get? id = some s) (hm : s.mode.isWrite = true)
    (hp : d.tree.get? s.path = some (.file content)) (hfit : content.size < UInt64.size)
    (hr : r.stores? = some id) (hf : d.faults.get? r.op = none) :
    d.told r =
      verdict d.capacity.toNat (Tree.stored (d.tree.erase s.path)) content.size
        (s.reach content.size r) := by
  unfold told
  cases r with
  | write id' data =>
    cases hr
    rw [answer_write hs hf, heard_map]
    exact Session.heard_write hm hp hfit
  | truncate id' length =>
    cases hr
    rw [answer_truncate hs hf, heard_map]
    exact Session.heard_truncate hm hp hfit
  | _ => cases hr

theorem stored_of_granted (hs : d.sessions.get? id = some s)
    (hp : d.tree.get? s.path = some (.file content))
    (hr : r.stores? = some id) (hl : content.size < s.reach content.size r) {x : r.Reply}
    (hx : (d.answer r).1 = .ok x) :
    (d.answer r).2.tree.stored = Tree.stored (d.tree.erase s.path) + s.reach content.size r := by
  cases r with
  | write id' data =>
    cases hr
    obtain ⟨old, ho, -, -, -, ht⟩ := written_of_answer hs hx
    cases hp.symm.trans ho
    simp only [Session.reach] at hl ⊢
    rw [ht, Tree.stored_insert, Node.length, Content.size_overwrite, max_eq_right hl.le]
  | truncate id' length =>
    cases hr
    obtain ⟨old, ho, ht⟩ := cut_of_answer hs hx
    rw [ht, Tree.stored_insert, Node.length, Content.size_resize]
    rfl
  | _ => cases hr

/-- A session that writes or cuts a file, stopped by no fault, is refused just where the file
would grow and the total exceed the capacity, with two exceptions. A file that was put there
larger than the capacity is not written above it and not cut to a length above it; and where the
lengths that are added up to learn the total do not fit a word, the program unwinds. -/
theorem only_growth_refused_iff (hs : d.sessions.get? id = some s) (hm : s.mode.isWrite = true)
    (hp : d.tree.get? s.path = some (.file content)) (hfit : content.size < UInt64.size)
    (hr : r.stores? = some id) (hf : d.faults.get? r.op = none) :
    (d.told r =
        some (growth d.capacity.toNat (Tree.stored (d.tree.erase s.path)) content.size
          (s.reach content.size r)) ↔
      ¬Misjudged d.capacity.toNat (Tree.stored (d.tree.erase s.path)) content.size
        (s.reach content.size r)) ∧
    (Misjudged d.capacity.toNat (Tree.stored (d.tree.erase s.path)) content.size
      (s.reach content.size r) →
      d.told r = if d.capacity.toNat < s.reach content.size r then some (.error Errno.fbig)
        else none) ∧
    (content.size < s.reach content.size r → ∀ x, (d.answer r).1 = .ok x →
      (d.answer r).2.tree.stored = Tree.stored (d.tree.erase s.path) + s.reach content.size r) := by
  refine ⟨?_, ?_, fun hl x hx ↦ stored_of_granted hs hp hr hl hx⟩
  · rw [told_eq_verdict hs hm hp hfit hr hf]
    exact verdict_eq_growth_iff
  · rw [told_eq_verdict hs hm hp hfit hr hf]
    exact verdict_of_misjudged

section Examples

def overfull : Device :=
  { empty 2 with tree := (empty 2).tree.insertFile longLog [1, 2, 3, 4] }.run
    [.request (.openFile longLog .write)]

def overfullContent : Content := .ofBytes [1, 2, 3, 4]

theorem only_growth_refused_iff_overfull :
    overfull.sessions.get? 0 = some ⟨longLog, .write, 0⟩ ∧
    overfull.tree.get? longLog = some (.file overfullContent) ∧
    overfull.told (.truncate 0 3) = some (.error Errno.fbig) ∧
    overfull.told (.truncate 0 2) = some (.ok ()) ∧
    overfull.told (.write 0 [5, 6, 7, 8, 9]) = some (.error Errno.fbig) := by
  have hs : overfull.sessions.get? 0 = some ⟨longLog, .write, 0⟩ := by decide +kernel
  have hp : overfull.tree.get? longLog = some (.file overfullContent) := by decide +kernel
  have hf : ∀ op, overfull.faults.get? op = none := fun _ ↦ rfl
  have hthree := only_growth_refused_iff (r := .truncate 0 3) hs rfl hp (by decide) rfl (hf _)
  have htwo := only_growth_refused_iff (r := .truncate 0 2) hs rfl hp (by decide) rfl (hf _)
  have hwrite := only_growth_refused_iff (r := .write 0 [5, 6, 7, 8, 9]) hs rfl hp
    (by decide) rfl (hf _)
  refine ⟨hs, hp, ?_, ?_, ?_⟩
  · exact (hthree.2.1 (.kept (by decide) (by decide +kernel))).trans (by decide +kernel)
  · refine (htwo.1.2 ?_).trans (by decide +kernel)
    rw [misjudged_iff]
    decide +kernel
  · refine (hwrite.1.2 ?_).trans (by decide +kernel)
    rw [misjudged_iff]
    decide +kernel

theorem shrinking_refused :
    ¬∀ (d : Device) (id : SessionId) (s : Session) (content : Content) (length : UInt64),
    d.sessions.get? id = some s → s.mode.isWrite = true →
    d.tree.get? s.path = some (.file content) →
    (∀ op, d.faults.get? op = none) → length.toNat ≤ content.size →
    (d.answer (.truncate id length)).1 = .ok () := by
  intro h
  have hgranted := h overfull 0 ⟨longLog, .write, 0⟩ overfullContent 3 (by decide +kernel) rfl
    (by decide +kernel)
    (fun _ ↦ rfl) (by decide)
  have hrefused : (overfull.answer (.truncate 0 3)).1 =
      .error (.reported Errno.fbig "file too large") := by
    decide +kernel
  rw [hrefused] at hgranted
  cases hgranted

end Examples

end Device

end RemoteMount.Memory
