import RemoteMount.Proofs.Host.TreeEffects
import RemoteMount.Proofs.OneFile

namespace RemoteMount

namespace Host.Device

open Filesystem

variable {m : CachedDevice Device} {path : RemotePath} {node : NodeId} {store : FileStore}
    {mode : OpenMode}
variable {e : RemoteError}

theorem answer_openFile_error (h : openFile m.device.store path mode = .error e) :
    RemoteDevice.answer (.openFile path mode) m.device = (.error e, m.device) := by
  change m.device.answer (.openFile path mode) = _
  rw [answer, h]

def during (d : Device) (s : Session) (store : FileStore) : Device :=
  ⟨store, d.sessions.insert d.nextSession s, d.nextSession + 1⟩

theorem answer_openFile_ok (h : openFile m.device.store path mode = .ok (node, store)) :
    RemoteDevice.answer (.openFile path mode) m.device =
      (.ok m.device.nextSession, m.device.during ⟨node, mode, 0⟩ store) := by
  change m.device.answer (.openFile path mode) = _
  rw [answer, h]
  rfl

section During

variable (d : Device) (s : Session) (store)

theorem session_during : (d.during s store).session d.nextSession = .ok s := by
  rw [session, during, KeyMap.get?_insert_self]

theorem setSession_during (s' : Session) :
    (d.during s store).setSession d.nextSession s' = d.during s' store := by
  rw [setSession, during, KeyMap.insert_insert]
  rfl

theorem size_during :
    RemoteDevice.size (d.during s store) d.nextSession = (store.content s.node).size.toUInt64 := by
  change (d.during s store).size d.nextSession = _
  rw [size, session_during]
  rfl

theorem answer_seek_during (offset : UInt64) :
    RemoteDevice.answer (.seek d.nextSession offset) (d.during s store) =
    match s.seek offset with
    | .error e => (.error e, d.during s store)
    | .ok s' => (.ok (), d.during s' store) := by
  change (d.during s store).answer (.seek d.nextSession offset) = _
  simp only [answer, session_during, bind, Except.bind]
  cases s.seek offset with
  | error e => rfl
  | ok s' => simp only [setSession_during]

theorem answer_read_during (max : Nat) :
    RemoteDevice.answer (.read d.nextSession max) (d.during s store) =
    match s.read (store.content s.node) max with
    | .error e => (.error e, d.during s store)
    | .ok (chunk, s') => (.ok chunk, d.during s' store) := by
  change (d.during s store).answer (.read d.nextSession max) = _
  simp only [answer, session_during, bind, Except.bind, contentOf]
  change (match s.read (store.content s.node) max with
    | .error e => _
    | .ok (chunk, s') => _ : _ × Device) = _
  cases s.read (store.content s.node) max with
  | error e => rfl
  | ok x => simp only [setSession_during]

theorem answer_write_during (data : Bytes) :
    RemoteDevice.answer (.write d.nextSession data) (d.during s store) =
    match s.write (store.content s.node) data with
    | .error e => (.error e, d.during s store)
    | .ok (s', content) => (.ok data.length, d.during s' (store.setContent s'.node content)) := by
  change (d.during s store).answer (.write d.nextSession data) = _
  simp only [answer, session_during, bind, Except.bind, contentOf]
  change (match s.write (store.content s.node) data with
    | .error e => _
    | .ok (s', content) => _ : _ × Device) = _
  cases s.write (store.content s.node) data with
  | error e => rfl
  | ok x =>
    simp only [setSession_during]
    rfl

theorem answer_truncate_during (length : UInt64) :
    RemoteDevice.answer (.truncate d.nextSession length) (d.during s store) =
      match s.truncate (store.content s.node) length with
      | .error e => (.error e, d.during s store)
      | .ok content => (.ok (), d.during s (store.setContent s.node content)) := by
  change (d.during s store).answer (.truncate d.nextSession length) = _
  simp only [answer, session_during, bind, Except.bind, contentOf]
  change (d.during s store).setStore
    (store.setContent s.node <$> s.truncate (store.content s.node) length) = _
  cases s.truncate (store.content s.node) length <;> rfl

theorem answer_close_during : RemoteDevice.answer (.close d.nextSession) (d.during s store) =
    (.ok (), ⟨store, (d.sessions.insert d.nextSession s).erase d.nextSession, d.nextSession + 1⟩) :=
  rfl

end During

section Calls

open Program

/-- What a call answers that has a file open, where only the device can fail it, and what it
makes of store and cache. -/
structure Settled {α : Type} (store : FileStore) (cache : AttributeCache) (x : Except RemoteError α)
    (r : Except CallError α × CachedDevice Device) : Prop where
  answer : r.1 = x.mapError .remote
  store : r.2.device.store = store
  cache : r.2.cache = cache

theorem settled_withSession {α : Type} {body : SessionId → Program (Except RemoteError α)}
    {x : Except RemoteError α}
    {store' : FileStore} {c : AttributeCache}
    (h : openFile m.device.store path mode = .ok (node, store))
    (hb : ∃ s, (body m.device.nextSession).run ⟨m.device.during ⟨node, mode, 0⟩ store, m.cache⟩ =
      (x, ⟨m.device.during s store', c⟩)) :
    Settled store' c x ((remotely (withSession path mode body)).run m) := by
  obtain ⟨s, hb⟩ := hb
  rw [run_remotely, run_withSession_of_ok (answer_openFile_ok h) hb
    (answer_close_during store' m.device s)]
  exact ⟨rfl, rfl, rfl⟩

theorem run_session_of_error {α : Type} {body : SessionId → Program (Except RemoteError α)}
    (h : openFile m.device.store path mode = .error e) :
    (remotely (withSession path mode body)).run m = (.error (.remote e), m) := by
  rw [run_remotely, run_withSession_of_error (answer_openFile_error h)]
  rfl

def readFrom (content : Content) (max : Nat) (offset : UInt64) : Except RemoteError Bytes :=
  if Session.offsetLimit ≤ offset.toNat ∨ max ≠ 0 ∧
    Session.offsetLimit ≤ offset.toNat + min max Session.transferLimit then
    .error (.ofHost Errno.inval)
  else .ok (content.slice offset.toNat max)

def written (content : Content) (data : Bytes) (offset : UInt64) : Except RemoteError Content :=
  if Session.offsetLimit ≤ offset.toNat ∨ data ≠ [] ∧
    Session.offsetLimit ≤ offset.toNat + data.length then
    .error (.ofHost Errno.inval)
  else .ok (if data = [] then content else content.overwrite offset.toNat data)

theorem read_of_seek (content : Content) (max : Nat) (offset : UInt64) :
    (Session.seek ⟨node, .read, 0⟩ offset >>= fun s ↦ Prod.fst <$> s.read content max) =
      readFrom content max offset := by
  unfold readFrom Session.seek
  by_cases ho : Session.offsetLimit ≤ offset.toNat
  · rw [if_pos ho, if_pos (.inl ho)]
    rfl
  rw [if_neg ho]
  change Prod.fst <$> Session.read ⟨node, .read, offset⟩ content max = _
  unfold Session.read
  by_cases hm : max = 0
  · subst hm
    rw [if_pos rfl, if_neg (by simp [ho]), Content.slice_eq]
    simp [Bytes.slice]
  · by_cases hl : Session.offsetLimit ≤ offset.toNat + min max Session.transferLimit
    · rw [if_neg hm, if_neg (by simp), if_pos hl, if_pos (.inr ⟨hm, hl⟩)]
      rfl
    · rw [if_neg hm, if_neg (by simp), if_neg hl, if_neg (by simp [ho, hl])]
      rfl

theorem settled_read (h : openFile m.device.store path .read = .ok (node, store)) (max : Nat)
    (offset : UInt64) :
    Settled store (m.cache.updateSize path (store.content node).size.toUInt64).2
      (readFrom (store.content node) max offset) ((Filesystem.read path max offset).run m) := by
  rw [← @read_of_seek node]
  refine settled_withSession h ?_
  rw [run_bind, run_askSize, size_during, run_bind, run_access, run_bind, run_request,
    answer_seek_during]
  cases hs : Session.seek ⟨node, .read, 0⟩ offset with
  | error e => exact ⟨_, rfl⟩
  | ok s =>
    have hnode : s.node = node := Session.node_of_seek hs
    dsimp only
    rw [run_request, answer_read_during, hnode]
    change ∃ s', _ = (Prod.fst <$> s.read (store.content node) max, _)
    cases s.read (store.content node) max with
    | error e => exact ⟨s, rfl⟩
    | ok y => exact ⟨y.2, rfl⟩

theorem write_of_seek (content : Content) (data : Bytes) (offset : UInt64) :
    (Session.seek ⟨node, .write, 0⟩ offset >>= fun s ↦ Prod.snd <$> s.write content data) =
      written content data offset := by
  unfold written Session.seek
  by_cases ho : Session.offsetLimit ≤ offset.toNat
  · rw [if_pos ho, if_pos (.inl ho)]
    rfl
  rw [if_neg ho]
  change Prod.snd <$> Session.write ⟨node, .write, offset⟩ content data = _
  unfold Session.write
  by_cases hd : data = []
  · rw [if_pos hd, if_neg (by simp [ho, hd]), if_pos hd]
    rfl
  · have happend : OpenMode.write ≠ .append := by decide
    rw [if_neg hd, if_neg (by simp)]
    simp only [if_neg happend]
    by_cases hl : Session.offsetLimit ≤ offset.toNat + data.length
    · rw [if_pos hl, if_pos (.inr ⟨hd, hl⟩)]
      rfl
    · rw [if_neg hl, if_neg (by simp [ho, hl]), if_neg hd]
      rfl

theorem content_setContent (store : FileStore) (node : NodeId) (content : Content) :
    (store.setContent node content).content node = content := by
  rw [FileStore.content, FileStore.setContent, KeyMap.get?_insert_self]

section Written

variable {data : Bytes} {offset : UInt64} {content : Content}

theorem settled_write_of_error (h : openFile m.device.store path .write = .ok (node, store))
    (hw : written (store.content node) data offset = .error e) :
    Settled store m.cache (.error e) ((Filesystem.write path data offset).run m) := by
  rw [← @write_of_seek node] at hw
  refine settled_withSession h ?_
  rw [run_bind, run_request, answer_seek_during]
  cases hs : Session.seek ⟨node, .write, 0⟩ offset with
  | error e' =>
    rw [hs] at hw
    cases hw
    exact ⟨_, rfl⟩
  | ok s =>
    have hnode : s.node = node := Session.node_of_seek hs
    dsimp only
    rw [run_bind, run_request, answer_write_during, hnode]
    rw [hs] at hw
    change Prod.snd <$> s.write (store.content node) data = _ at hw
    cases hwrite : s.write (store.content node) data with
    | error e' =>
      rw [hwrite] at hw
      cases hw
      exact ⟨_, rfl⟩
    | ok y =>
      rw [hwrite] at hw
      cases hw

/-- After a write, the length that is cached is that of the file, or the end of what was written
if that lies beyond. -/
theorem settled_write_of_ok (h : openFile m.device.store path .write = .ok (node, store))
    (hw : written (store.content node) data offset = .ok content) :
    Settled (store.setContent node content)
      (m.cache.updateSize path (max content.size.toUInt64 (saturatingEnd offset data.length))).2
        (.ok data.length)
      ((Filesystem.write path data offset).run m) := by
  rw [← @write_of_seek node] at hw
  obtain ⟨s, hs, hw⟩ := exists_of_bind_eq_ok hw
  have hnode : s.node = node := Session.node_of_seek hs
  cases hwrite : s.write (store.content node) data with
  | error e =>
    rw [hwrite] at hw
    cases hw
  | ok y =>
    obtain ⟨s', content'⟩ := y
    have hnode' : s'.node = node := (Session.node_of_write hwrite).trans hnode
    rw [hwrite] at hw
    obtain rfl : content' = content := Except.ok.inj hw
    refine settled_withSession h ?_
    rw [run_bind, run_request, answer_seek_during, hs]
    dsimp only
    rw [run_bind, run_request, answer_write_during, hnode, hwrite]
    dsimp only
    rw [run_bind, run_askSize, size_during, hnode', content_setContent, run_bind, run_access]
    exact ⟨s', rfl⟩

end Written

section Cut

variable {length : UInt64}

theorem run_truncate_of_error (h : openFile m.device.store path .write = .error e) :
    (Filesystem.truncate path length).run m = (.error (.remote e), m) := by
  rw [Filesystem.truncate, run_bind, run_withSession_of_error (answer_openFile_error h)]
  rfl

theorem truncate_write (content : Content) (length : UInt64) :
    Session.truncate ⟨node, .write, 0⟩ content length =
    if Session.offsetLimit ≤ length.toNat then
      .error (.ofText "number too large to fit in target type")
    else .ok (content.resize length.toNat) := rfl

theorem settled_truncate_of_error (h : openFile m.device.store path .write = .ok (node, store))
    (hl : Session.offsetLimit ≤ length.toNat) :
    Settled store m.cache (.error (.ofText "number too large to fit in target type") :
      Except RemoteError Unit)
      ((Filesystem.truncate path length).run m) := by
  have hbody := run_request (.truncate m.device.nextSession length)
    ⟨m.device.during ⟨node, .write, 0⟩ store, m.cache⟩
  rw [answer_truncate_during, truncate_write, if_pos hl] at hbody
  rw [Filesystem.truncate, run_bind,
    run_withSession_of_ok (answer_openFile_ok h) hbody (answer_close_during _ _ _)]
  exact ⟨rfl, rfl, rfl⟩

theorem settled_truncate_of_ok (h : openFile m.device.store path .write = .ok (node, store))
    (hl : ¬Session.offsetLimit ≤ length.toNat) :
    Settled (store.setContent node ((store.content node).resize length.toNat))
      (m.cache.updateSize path length).2 (.ok ())
      ((Filesystem.truncate path length).run m) := by
  have hbody := run_request (.truncate m.device.nextSession length)
    ⟨m.device.during ⟨node, .write, 0⟩ store, m.cache⟩
  rw [answer_truncate_during, truncate_write, if_neg hl] at hbody
  rw [Filesystem.truncate, run_bind,
    run_withSession_of_ok (answer_openFile_ok h) hbody (answer_close_during _ _ _)]
  exact ⟨rfl, rfl, rfl⟩

end Cut

section Created

theorem create_eq (path : RemotePath) (m : CachedDevice Device) :
    ((create path).run m).1 =
      (((openFile m.device.store path .createWrite).map fun _ ↦ ()).mapError .remote) ∧
      ((create path).run m).2.device.store =
        ((openFile m.device.store path .createWrite).map Prod.snd).toOption.getD
          m.device.store := by
  obtain ⟨hx, hd⟩ := run_create path m
  rw [hx, hd]
  cases ho : openFile m.device.store path .createWrite with
  | error e =>
    rw [run_withSession_of_error (answer_openFile_error ho)]
    exact ⟨rfl, rfl⟩
  | ok y =>
    rw [run_withSession_of_ok (answer_openFile_ok ho) rfl (answer_close_during _ _ _)]
    exact ⟨rfl, rfl⟩

end Created

end Calls

end Host.Device

end RemoteMount
