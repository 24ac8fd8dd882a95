import RemoteMount.Proofs.Host.FileCalls

namespace RemoteMount.Host

open Device

/-- What a host makes of the bytes of a file. Nothing past what it can address is read, written
or cut. -/
def storage : Storage where
  read bytes max offset :=
    if Session.offsetLimit ≤ offset.toNat ∨
        max ≠ 0 ∧ Session.offsetLimit ≤ offset.toNat + min max Session.transferLimit then
      .error Errno.inval
    else .ok (bytes.slice offset.toNat max)
  write bytes data offset :=
    if Session.offsetLimit ≤ offset.toNat ∨ data ≠ [] ∧
      Session.offsetLimit ≤ offset.toNat + data.length then
      .error Errno.inval
    else .ok (if data = [] then bytes else bytes.overwrite offset.toNat data)
  cut bytes length :=
    if Session.offsetLimit ≤ length.toNat then .error Errno.io else .ok (bytes.resize length.toNat)

theorem storage_read (content : Content) (max : Nat) (offset : UInt64) :
    storage.read content.toBytes max offset =
    (Device.readFrom content max offset).mapError RemoteError.errno := by
  dsimp only [storage, Device.readFrom]
  rw [Content.slice_eq]
  split <;> rfl

theorem storage_write (content : Content) (data : Bytes) (offset : UInt64) :
    storage.write content.toBytes data offset =
      ((Device.written content data offset).map Content.toBytes).mapError RemoteError.errno := by
  dsimp only [storage, Device.written]
  split
  · rfl
  · change Except.ok _ = Except.ok (Content.toBytes _)
    rw [apply_ite Content.toBytes, Content.toBytes_overwrite]

def Addressable (p : RemotePath) : Prop :=
  p.text.utf8ByteSize ≤ pathLimit ∧ (lastName p).length ≤ RawName.limit

namespace Device

open FileStore

variable {fs : FileStore} {chain : List NodeId} {p : RemotePath} {id : NodeId} {content : Content}

section Opening

theorem hostCall_of_short {α : Type} {f : List RawName → Except Errno α}
    (hl : p.text.utf8ByteSize ≤ pathLimit) :
    hostCall p f = (f (hostNames p)).mapError .ofHost := if_neg (Nat.not_lt.2 hl)

theorem openFile_of_directory (h : fs.Plain) (hl : p.text.utf8ByteSize ≤ pathLimit)
    (hc : fs.chainAt p = some (id :: chain)) (hd : fs.isDirectory id = true) (mode : OpenMode) :
    openFile fs p mode = .error (.reported Errno.isdir "is a directory") := by
  have hstat := h.stat_eq_ok_iff.2 ⟨chain, hc⟩
  rw [openFile, hostCall_of_short hl, hstat]
  exact if_pos hd

theorem openFile_of_file (h : fs.Plain) (hl : p.text.utf8ByteSize ≤ pathLimit)
    (hc : fs.chainAt p = some (id :: chain)) (hf : fs.nodes.get? id = some (.file content))
    (mode : OpenMode) : openFile fs p mode =
      .ok (id, if mode = .createWrite then fs.setContent id .empty else fs) := by
  have hstat := h.stat_eq_ok_iff.2 ⟨chain, hc⟩
  have hdir : ¬fs.isDirectory id = true := by
    rw [isDirectory, hf]
    exact Bool.false_ne_true
  rw [openFile, hostCall_of_short hl, hstat]
  dsimp only [Except.mapError]
  rw [if_neg hdir, hostCall_of_short hl, h.openFile_of_chainAt hc, if_neg hdir]
  simp only [decide_eq_true_eq]
  rfl

theorem openFile_of_none (h : fs.Plain) (hc : fs.chainAt p = none)
    (hl : p.text.utf8ByteSize ≤ pathLimit)
    (mode : OpenMode) : openFile fs p mode =
      (fs.openFile (hostNames p) (mode = .createWrite)).mapError .ofHost := by
  rw [openFile, hostCall_of_short hl]
  cases hs : fs.stat (hostNames p) with
  | ok id =>
    obtain ⟨chain, hchain⟩ := h.stat_eq_ok_iff.1 hs
    cases hc.symm.trans hchain
  | error e =>
    dsimp only [Except.mapError]
    rw [hostCall_of_short hl]
    rfl

theorem openFile_of_absent (h : fs.Plain) (ha : Addressable p) (hp : fs.HeldIn p chain)
    (hc : fs.chainAt p = none) (mode : OpenMode) : openFile fs p mode =
      if mode = .createWrite then .ok (fs.add (here chain) (lastName p) (.file .empty))
        else .error (.ofHost Errno.noent) := by
  have hnone : (fs.entries (here chain)).get? (lastName p) = none := by
    rw [hp.chainAt] at hc
    exact Option.map_eq_none_iff.1 hc
  have hchild : fs.child chain (lastName p) = .ok none := by
    rw [child_proper fs chain (proper_lastName p), if_neg (Nat.not_lt.2 ha.2), hnone]
  rw [openFile_of_none h hc ha.1, h.openFile_of_free hp hchild]
  simp only [decide_eq_true_eq]
  split <;> rfl

theorem openFile_of_unaddressable (h : fs.Plain) (ha : ¬Addressable p) (hp : fs.HeldIn p chain)
    (mode : OpenMode) : openFile fs p mode = .error (.ofHost Errno.nametoolong) := by
  by_cases hl : p.text.utf8ByteSize ≤ pathLimit
  · have hname : RawName.limit < (lastName p).length := Nat.not_le.1 fun hx ↦ ha ⟨hl, hx⟩
    have hchild : fs.child chain (lastName p) = .error Errno.nametoolong := by
      rw [child_proper fs chain (proper_lastName p), if_pos hname]
    have hc : fs.chainAt p = none := by
      rw [hp.chainAt, Option.map_eq_none_iff, Option.eq_none_iff_forall_ne_some]
      intro id hid
      exact Nat.not_lt.2 (h.shortNames _ _ _ hid) hname
    rw [openFile_of_none h hc hl, h.openFile_of_refused hp hchild]
    rfl
  · have hcall : ∀ {α : Type} (f : List RawName → Except Errno α),
        hostCall p f = .error (.ofHost Errno.nametoolong) :=
      fun f ↦ if_pos (Nat.not_le.1 hl)
    rw [openFile, hcall, hcall]

end Opening

theorem exists_heldIn (hp : fs.foundAt p.parent = some .directory) :
    ∃ chain, fs.HeldIn p chain := by
  obtain ⟨chain, hc, hd⟩ := Plain.foundAt_directory_iff.1 hp
  rcases p.eq_root_or_child with hroot | ⟨s, hs⟩
  · rw [hroot] at hc ⊢
    obtain ⟨c, -, hheld, -, -⟩ := exists_of_chainAt hc
    exact ⟨c, hheld⟩
  · refine ⟨chain, ?_, hd⟩
    rw [hs, namesAbove, hostNames_child, List.dropLast_concat]
    exact hc

section Outcomes

open Filesystem

def found (d : Device) : RemotePath → Option Found := d.store.foundAt

variable {policy : Policy} {caller : Caller} {m : CachedDevice Device}

theorem Settled.comes {α : Type} {store : FileStore} {cache : AttributeCache}
    {x : Except RemoteError α}
    {r : Except CallError α × CachedDevice Device} {y : Option Found} (h : Settled store cache x r)
    (f : α → CallAnswer) (hy : store.foundAt = Function.update m.device.store.foundAt p y) :
    Comes found p m.device ((x.mapError RemoteError.errno).map f, y) (r.1.map f, r.2) :=
  .of_remote f h.answer ((congrArg foundAt h.store).trans hy)

theorem comes_of_error {e : RemoteError} {call : FileCall}
    (ho : ∀ mode, (mode = .createWrite → call = .create) →
      openFile m.device.store p mode = .error e) :
    Comes found p m.device (.error e.errno, m.device.store.foundAt p)
      (((call.toCall p).program policy caller).run m) := by
  have hsame : m.device.store.foundAt =
      Function.update m.device.store.foundAt p (m.device.store.foundAt p) :=
    (Function.update_eq_self p _).symm
  rw [FileCall.run_toCall]
  cases call with
  | create =>
    obtain ⟨hx, hstore⟩ := create_eq p m
    rw [ho .createWrite fun _ ↦ rfl] at hx hstore
    exact .of_remote (fun _ ↦ .nothing) hx ((congrArg foundAt hstore).trans hsame)
  | write data offset =>
    dsimp only
    rw [Filesystem.write, run_session_of_error (ho .write (by rintro ⟨⟩))]
    exact ⟨rfl, hsame⟩
  | truncate length =>
    dsimp only
    rw [run_truncate_of_error (ho .write (by rintro ⟨⟩))]
    exact ⟨rfl, hsame⟩
  | read max offset =>
    dsimp only
    rw [Filesystem.read, run_session_of_error (ho .read (by rintro ⟨⟩))]
    exact ⟨rfl, hsame⟩

theorem comes_of_absent (h : m.device.store.Plain) (ha : Addressable p)
    (hp : m.device.store.HeldIn p chain) (hc : m.device.store.chainAt p = none) (call : FileCall) :
    Comes found p m.device (storage.outcome none call)
      (((call.toCall p).program policy caller).run m) := by
  have hnone : m.device.store.foundAt p = none := by rw [foundAt, hc, Option.bind_none]
  by_cases hcall : call = .create
  · subst hcall
    have hopen := openFile_of_absent h ha hp hc .createWrite
    rw [if_pos rfl] at hopen
    have hentry : (m.device.store.entries (here chain)).get? (lastName p) = none := by
      rw [hp.chainAt] at hc
      exact Option.map_eq_none_iff.1 hc
    obtain ⟨hx, hstore⟩ := create_eq p m
    rw [hopen] at hx hstore
    rw [FileCall.run_toCall]
    exact .of_remote (fun _ ↦ .nothing) hx
      ((congrArg foundAt hstore).trans (h.foundAt_add hp hentry (.file .empty) trivial).2)
  · have hout : storage.outcome none call =
        (.error (RemoteError.ofHost Errno.noent).errno, m.device.store.foundAt p) := by
      rw [hnone]
      cases call with
      | create => exact absurd rfl hcall
      | write | truncate | read => rfl
    rw [hout]
    refine comes_of_error fun mode hmode ↦ ?_
    rw [openFile_of_absent h ha hp hc, if_neg fun hm ↦ hcall (hmode hm)]

theorem comes_of_file (h : m.device.store.Plain) (hl : p.text.utf8ByteSize ≤ pathLimit)
    (hc : m.device.store.chainAt p = some (id :: chain))
    (hf : m.device.store.nodes.get? id = some (.file content))
    (call : FileCall) : Comes found p m.device (storage.outcome (some (.file content.toBytes)) call)
      (((call.toCall p).program policy caller).run m) := by
  have hopen := openFile_of_file h hl hc hf
  have hread : openFile m.device.store p .read = .ok (id, m.device.store) := hopen .read
  have hwrite : openFile m.device.store p .write = .ok (id, m.device.store) := hopen .write
  have hstored := fun new ↦ (h.foundAt_setContent hc hf new).2
  have hsame : m.device.store.foundAt =
      Function.update m.device.store.foundAt p (some (.file content.toBytes)) := by
    rw [← Node.found, ← foundAt_of_chainAt hc hf, Function.update_eq_self]
  have hcontent : m.device.store.content id = content := by rw [FileStore.content, hf]
  rw [FileCall.run_toCall]
  cases call with
  | create =>
    obtain ⟨hx, hstore⟩ := create_eq p m
    rw [hopen] at hx hstore
    exact .of_remote (fun _ ↦ .nothing) hx ((congrArg foundAt hstore).trans (hstored .empty))
  | read max offset =>
    have hsettled := settled_read hread max offset
    rw [hcontent] at hsettled
    dsimp only [Storage.outcome]
    rw [storage_read]
    exact hsettled.comes .data hsame
  | write data offset =>
    dsimp only [Storage.outcome]
    rw [storage_write]
    cases hw : written content data offset with
    | error e => exact (settled_write_of_error hwrite (by rwa [hcontent])).comes .count hsame
    | ok new => exact (settled_write_of_ok hwrite (by rwa [hcontent])).comes .count (hstored new)
  | truncate length =>
    dsimp only [Storage.outcome, storage]
    by_cases hlength : Session.offsetLimit ≤ length.toNat
    · rw [if_pos hlength]
      exact (settled_truncate_of_error hwrite hlength).comes (fun _ ↦ .nothing) hsame
    · have hsettled := settled_truncate_of_ok hwrite hlength
      rw [hcontent] at hsettled
      rw [if_neg hlength, ← Content.toBytes_resize]
      exact hsettled.comes (fun _ ↦ .nothing) (hstored _)

theorem comes_of_directory (h : m.device.store.Plain) (hl : p.text.utf8ByteSize ≤ pathLimit)
    (hc : m.device.store.chainAt p = some (id :: chain)) (hd : m.device.store.isDirectory id = true)
    (call : FileCall) :
    Comes found p m.device (storage.outcome (some .directory) call)
      (((call.toCall p).program policy caller).run m) := by
  have hout : storage.outcome (some .directory) call =
      (.error Errno.isdir, m.device.store.foundAt p) := by
    rw [Plain.foundAt_directory_iff.2 ⟨_, hc, hd⟩]
    cases call <;> rfl
  rw [hout]
  exact comes_of_error fun mode _ ↦ openFile_of_directory h hl hc hd mode

/-- What a call on a file answers and leaves is told by what is at its path. -/
theorem comes_of_addressable (policy : Policy) (caller : Caller) (h : m.device.store.Plain)
    (ha : Addressable p)
    (hp : m.device.store.foundAt p.parent = some .directory) (call : FileCall) :
    Comes found p m.device (storage.outcome (m.device.store.foundAt p) call)
      (((call.toCall p).program policy caller).run m) := by
  obtain ⟨above, hheld⟩ := exists_heldIn hp
  cases hc : m.device.store.chainAt p with
  | none =>
    have hnone : m.device.store.foundAt p = none := by rw [foundAt, hc, Option.bind_none]
    rw [hnone]
    exact comes_of_absent h ha hheld hc call
  | some chain =>
    obtain ⟨above, id, -, -, rfl⟩ := exists_of_chainAt hc
    obtain ⟨node, hnode⟩ := h.exists_node_of_chainAt hc
    rw [foundAt_of_chainAt hc hnode]
    cases node with
    | directory entries =>
      exact comes_of_directory h ha.1 hc (isDirectory_iff.2 ⟨entries, hnode⟩) call
    | file content => exact comes_of_file h ha.1 hc hnode call
    | symlink target => exact absurd hnode (h.noLink _ _)

theorem comes_of_unaddressable (policy : Policy) (caller : Caller) (h : m.device.store.Plain)
    (ha : ¬Addressable p)
    (hp : m.device.store.foundAt p.parent = some .directory) (call : FileCall) :
    Comes found p m.device (.error Errno.nametoolong, m.device.store.foundAt p)
      (((call.toCall p).program policy caller).run m) := by
  obtain ⟨above, hheld⟩ := exists_heldIn hp
  exact comes_of_error fun mode _ ↦ openFile_of_unaddressable h ha hheld mode

end Outcomes

end Device

end RemoteMount.Host
