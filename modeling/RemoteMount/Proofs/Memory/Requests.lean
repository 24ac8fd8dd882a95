import RemoteMount.Memory.Device
import RemoteMount.Proofs.Memory.Subtree

namespace RemoteMount

open RemotePath

theorem exists_of_bind_eq_ok {ε α β : Type} {x : Except ε α} {f : α → Except ε β} {b : β}
    (h : x >>= f = .ok b) :
    ∃ a, x = .ok a ∧ f a = .ok b := by
  cases x with
  | error e => cases h
  | ok a => exact ⟨a, rfl, h⟩

namespace Request

/-- Where the request may put, take away or replace a node. -/
def Names : Request → RemotePath → Prop
  | openFile path .createWrite, p => p = path
  | mkdir path, p | rmdir path, p | unlink path, p => p = path
  | rename old new, p => p.within old = true ∨ p.within new = true
  | _, _ => False

def stores? : Request → Option SessionId
  | write s _ | truncate s _ => some s
  | _ => none

end Request

theorem Content.size_overwrite (c : Content) (start : Nat) (piece : Bytes) :
    (c.overwrite start piece).size = max c.size (start + piece.length) := by
  rw [← length_toBytes, toBytes_overwrite, Bytes.length_overwrite, length_toBytes]

theorem Content.size_resize (c : Content) (n : Nat) : (c.resize n).size = n := by
  rw [← length_toBytes, toBytes_resize, Bytes.length_resize]

theorem Bytes.add_length_slice_lt {data : Bytes} (h : data.length < UInt64.size) (position : UInt64)
    (max : Nat) :
    position.toNat + (data.slice position.toNat max).length < UInt64.size := by
  have hposition := position.toNat_lt_size
  simp only [slice, List.length_take, List.length_drop]
  omega

theorem toNat_add_of_lt {start : UInt64} {n : Nat} (h : start.toNat + n < UInt64.size) :
    (start + n.toUInt64).toNat = start.toNat + n := by
  have hsize : UInt64.size = 2 ^ 64 := rfl
  rw [UInt64.toNat_add, Nat.toUInt64_eq, UInt64.toNat_ofNat']
  omega

namespace Memory

/-- Files are so short that a 64-bit word holds their lengths, as everything is that is kept in
memory. -/
def Tree.Fits (t : Tree) : Prop :=
  ∀ p content, t.get? p = some (.file content) → content.size < UInt64.size

def Node.length : Node → Nat
  | directory => 0
  | file content => content.size

theorem Tree.fits_iff {t : Tree} : t.Fits ↔ ∀ e ∈ t.toList, e.2.length < UInt64.size := by
  constructor
  · rintro h ⟨p, node⟩ he
    cases node with
    | directory => exact Nat.zero_lt_succ _
    | file content => exact h p content (KeyMap.get?_eq_some_iff.2 he)
  · intro h p content hp
    exact h _ (KeyMap.get?_eq_some_iff.1 hp)

instance (t : Tree) : Decidable t.Fits := decidable_of_iff' _ Tree.fits_iff

theorem Tree.Fits.insert {t : Tree} {p : RemotePath} {node : Node} (h : t.Fits)
    (hn : ∀ content, node = .file content → content.size < UInt64.size) :
    Fits (t.insert p node) := by
  intro q content hq
  rw [KeyMap.get?_insert] at hq
  split at hq
  · exact hn content (Option.some_inj.1 hq)
  · exact h q content hq

theorem Tree.Fits.erase {t : Tree} {p : RemotePath} (h : t.Fits) : Fits (t.erase p) := by
  intro q content hq
  rw [KeyMap.get?_erase] at hq
  split at hq
  · cases hq
  · exact h q content hq

theorem Tree.Fits.moveNode {t : Tree} (h : t.Fits) (old new p : RemotePath) :
    Fits (moveNode old new t p) := by
  unfold Tree.moveNode
  split
  · rename_i node target hp _
    refine h.erase.insert ?_
    intro content hx
    subst hx
    exact h p content hp
  · exact h

theorem Tree.Fits.moveSubtree {t : Tree} {old new : RemotePath} (h : t.Fits) :
    Fits (t.moveSubtree old new) :=
  List.foldlRecOn _ (Tree.moveNode old new) h.erase fun _ ht p _ ↦ ht.moveNode old new p

theorem Tree.lengthAt_of_file {t : Tree} {p : RemotePath} {content : Content}
    (h : t.get? p = some (.file content)) :
    t.lengthAt p = content.size.toUInt64 := by
  rw [lengthAt, h]

namespace Session

variable {s s' : Session} {t t' : Tree} {capacity length : UInt64} {data : Bytes} {n : Nat}

theorem content_eq_ok_iff {content : Content} :
    s.content t = .ok content ↔ t.get? s.path = some (.file content) := by
  unfold Session.content
  split <;> simp_all

theorem write_eq_ok (h : s.write t capacity data = .ok (n, s', t')) :
    ∃ old, t.get? s.path = some (.file old) ∧
    (s.writeStart old.size).toNat + data.length < UInt64.size ∧
      t.requireRoom capacity s.path (s.writeStart old.size + data.length.toUInt64) = .ok () ∧
      n = data.length ∧ s'.path = s.path ∧
      t' = t.insert s.path (.file (old.overwrite (s.writeStart old.size).toNat data)) := by
  obtain ⟨_, -, h⟩ := exists_of_bind_eq_ok h
  obtain ⟨old, ho, h⟩ := exists_of_bind_eq_ok h
  dsimp only at h
  split at h
  · cases h
  · rename_i hlt
    obtain ⟨_, hroom, h⟩ := exists_of_bind_eq_ok h
    cases h
    exact ⟨old, content_eq_ok_iff.1 ho, by omega, hroom, rfl, rfl, rfl⟩

theorem truncate_eq_ok (h : s.truncate t capacity length = .ok t') :
    ∃ old, t.get? s.path = some (.file old) ∧ t.requireRoom capacity s.path length = .ok () ∧
      t' = t.insert s.path (.file (old.resize length.toNat)) := by
  obtain ⟨_, -, h⟩ := exists_of_bind_eq_ok h
  obtain ⟨_, hroom, h⟩ := exists_of_bind_eq_ok h
  obtain ⟨old, ho, h⟩ := exists_of_bind_eq_ok h
  cases h
  exact ⟨old, content_eq_ok_iff.1 ho, hroom, rfl⟩

theorem read_of_file {content : Content} (hp : t.get? s.path = some (.file content)) (max : Nat) :
    s.read t max = .ok (content.slice s.position.toNat max,
      { s with
        position := s.position + (content.slice s.position.toNat max).length.toUInt64 }) := by
  rw [read, content_eq_ok_iff.2 hp]
  rfl

theorem toNat_writeStart (s : Session) {length : Nat} (h : length < UInt64.size) :
    (s.writeStart length).toNat = if s.mode = .append then length else s.position.toNat := by
  unfold writeStart
  split
  · rw [Nat.toUInt64_eq, UInt64.toNat_ofNat_of_lt' h]
  · rfl

theorem write_of_file {content : Content} (hm : s.mode.isWrite = true)
    (hp : t.get? s.path = some (.file content)) (capacity : UInt64) (data : Bytes) :
    s.write t capacity data =
      if UInt64.size ≤ (s.writeStart content.size).toNat + data.length then
        .error (.reported Errno.fbig "offset too large")
      else (t.requireRoom capacity s.path (s.writeStart content.size + data.length.toUInt64)).map
        fun _ ↦
        (data.length, { s with position := s.writeStart content.size + data.length.toUInt64 },
          t.insert s.path (.file (content.overwrite (s.writeStart content.size).toNat data))) := by
  rw [write, requireWrite, if_pos hm, content_eq_ok_iff.2 hp]
  change (if UInt64.size ≤ (s.writeStart content.size).toNat + data.length then _ else _) = _
  split
  · rfl
  · change Except.bind (t.requireRoom capacity s.path
      (s.writeStart content.size + data.length.toUInt64)) _ = _
    cases t.requireRoom capacity s.path (s.writeStart content.size + data.length.toUInt64) <;> rfl

theorem truncate_of_file {content : Content} (hm : s.mode.isWrite = true)
    (hp : t.get? s.path = some (.file content)) (capacity length : UInt64) :
    s.truncate t capacity length =
      (t.requireRoom capacity s.path length).map fun _ ↦
        t.insert s.path (.file (content.resize length.toNat)) := by
  rw [truncate, requireWrite, if_pos hm, content_eq_ok_iff.2 hp]
  change Except.bind (t.requireRoom capacity s.path length) _ = _
  cases t.requireRoom capacity s.path length <;> rfl

end Session

namespace Device

variable {d : Device} {r : Request} {t : Tree} {p : RemotePath}

/-- The changes that a request can make to the tree. -/
inductive Effect (d : Device) : Request → Tree → Prop
  | unchanged (r : Request) : Effect d r d.tree
  | emptied {path : RemotePath} (hk : d.tree.get? path ≠ some .directory)
      (hp : d.tree.get? path = none → d.tree.get? path.parent = some .directory) :
      Effect d (.openFile path .createWrite) (d.tree.insert path (.file .empty))
  | stored {r : Request} {id : SessionId} {s : Session} {old new : Content}
    (hr : r.stores? = some id)
      (hs : d.sessions.get? id = some s) (ho : d.tree.get? s.path = some (.file old))
      (hn : old.size < UInt64.size → new.size < UInt64.size) :
        Effect d r (d.tree.insert s.path (.file new))
  | made {path : RemotePath} (hk : d.tree.get? path = none)
    (hp : d.tree.get? path.parent = some .directory) :
      Effect d (.mkdir path) (d.tree.insert path .directory)
  | removedDirectory {path : RemotePath} (hr : path ≠ root)
    (hk : d.tree.get? path = some .directory)
      (hc : d.tree.hasDescendants path = false) : Effect d (.rmdir path) (d.tree.erase path)
  | removedFile {path : RemotePath} {content : Content}
    (hk : d.tree.get? path = some (.file content)) :
      Effect d (.unlink path) (d.tree.erase path)
  | moved {old new : RemotePath} {source : Node} {u : Unit} (ho : old ≠ root) (hn : new ≠ root)
    (hne : old ≠ new)
      (hs : d.tree.get? old = some source) (hw : new.within old = false)
      (hp : d.tree.get? new.parent = some .directory)
        (hr : d.tree.requireReplaceable new source = .ok u) :
      Effect d (.rename old new) (d.tree.moveSubtree old new)

@[simp] theorem tree_release : (d.release r).tree = d.tree := by cases r <;> rfl

@[simp] theorem capacity_release : (d.release r).capacity = d.capacity := by cases r <;> rfl

@[simp] theorem nextSession_release : (d.release r).nextSession = d.nextSession := by
  cases r <;> rfl

@[simp] theorem tree_enter (op : RemoteOp) : (d.enter op).2.tree = d.tree := rfl

@[simp] theorem capacity_enter (op : RemoteOp) : (d.enter op).2.capacity = d.capacity := rfl

@[simp] theorem sessions_enter (op : RemoteOp) : (d.enter op).2.sessions = d.sessions := rfl

theorem session_eq_ok_iff {id : SessionId} {s : Session} :
    d.session id = .ok s ↔ d.sessions.get? id = some s := by
  unfold session
  split <;> simp_all

theorem tree_setTree_ok {x : Except RemoteError Tree} {u : Unit} (h : (d.setTree x).1 = .ok u) :
    ∃ t, x = .ok t ∧ (d.setTree x).2.tree = t := by
  cases x with
  | error e => cases h
  | ok t => exact ⟨t, rfl, rfl⟩

theorem tree_setTree_error {x : Except RemoteError Tree} {e : RemoteError}
    (h : (d.setTree x).1 = .error e) :
    (d.setTree x).2.tree = d.tree := by
  cases x with
  | error e' => rfl
  | ok t => cases h

theorem effect_setTree {x : Except RemoteError Tree} (h : ∀ t, x = .ok t → d.Effect r t) :
    d.Effect r (d.setTree x).2.tree := by
  cases x with
  | error e => exact .unchanged r
  | ok t => exact h t rfl

theorem openFile_effect {path : RemotePath} {mode : OpenMode} {position : UInt64}
    (h : d.tree.openFile path mode = .ok (t, position)) : d.Effect (.openFile path mode) t := by
  unfold Tree.openFile at h
  split at h
  · cases h
  · rename_i content hk
    split at h
    · cases h
      exact .emptied (by rw [hk]; simp) (by rw [hk]; simp)
    · cases h
      exact .unchanged _
    · cases h
      exact .unchanged _
    · cases h
      exact .unchanged _
  · rename_i hk
    split at h
    · obtain ⟨_, hd, h⟩ := exists_of_bind_eq_ok h
      cases h
      exact .emptied (by rw [hk]; simp) fun _ ↦ Tree.requireDirectory_eq_ok_iff.1 hd
    · cases h

theorem mkdir_effect {path : RemotePath} (h : d.tree.mkdir path = .ok t) :
    d.Effect (.mkdir path) t := by
  unfold Tree.mkdir at h
  split at h
  · cases h
  · rename_i hk
    rw [KeyMap.contains, Bool.not_eq_true, Option.isSome_eq_false_iff,
      Option.isNone_iff_eq_none] at hk
    obtain ⟨_, hd, h⟩ := exists_of_bind_eq_ok h
    cases h
    exact .made hk (Tree.requireDirectory_eq_ok_iff.1 hd)

theorem rmdir_effect {path : RemotePath} (h : d.tree.rmdir path = .ok t) :
    d.Effect (.rmdir path) t := by
  unfold Tree.rmdir at h
  split at h
  · cases h
  · rename_i hr
    obtain ⟨_, hd, h⟩ := exists_of_bind_eq_ok h
    split at h
    · cases h
    · rename_i hc
      cases h
      exact .removedDirectory (mt isRoot_iff.2 hr) (Tree.requireDirectory_eq_ok_iff.1 hd)
        (Bool.eq_false_iff.2 hc)

theorem unlink_effect {path : RemotePath} (h : d.tree.unlink path = .ok t) :
    d.Effect (.unlink path) t := by
  unfold Tree.unlink at h
  split at h
  · rename_i content hk
    cases h
    exact .removedFile hk
  · cases h
  · cases h

theorem rename_effect {old new : RemotePath} (h : d.tree.rename old new = .ok t) :
    d.Effect (.rename old new) t := by
  unfold Tree.rename at h
  split at h
  · cases h
  · rename_i hr
    rw [Bool.or_eq_true, not_or, isRoot_iff, isRoot_iff] at hr
    split at h
    · cases h
    · rename_i source hs
      split at h
      · cases h
        exact .unchanged _
      · rename_i hne
        split at h
        · cases h
        · rename_i hw
          obtain ⟨_, hd, h⟩ := exists_of_bind_eq_ok h
          obtain ⟨_, hq, h⟩ := exists_of_bind_eq_ok h
          cases h
          exact .moved hr.1 hr.2 hne hs (Bool.eq_false_iff.2 hw)
            (Tree.requireDirectory_eq_ok_iff.1 hd) hq

end Device

end Memory

end RemoteMount
