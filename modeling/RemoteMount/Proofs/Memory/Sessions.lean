import RemoteMount.Proofs.Memory.Effects

namespace RemoteMount

namespace Request

def session? : Request → Option SessionId
  | seek id _ | read id _ | write id _ | truncate id _ | close id => some id
  | listdir _ | openFile _ _ | mkdir _ | rmdir _ | unlink _ | rename _ _ => none

def opened? : (r : Request) → Except RemoteError r.Reply → Option SessionId
  | openFile _ _, .ok id => some id
  | _, _ => none

variable {r : Request} {x : Except RemoteError r.Reply} {id : SessionId}

theorem op_of_opened? (h : r.opened? x = some id) : r.op = .openFile ∧ r.session? = none := by
  cases r with
  | openFile path mode => exact ⟨rfl, rfl⟩
  | _ => cases h

theorem opened?_of_session? (h : r.session? = some id) : r.opened? x = none := by
  cases r with
  | openFile path mode => cases h
  | _ => rfl

end Request

namespace Memory.Device

variable {d : Device} {r : Request} {id : SessionId} {s : Session} {path : RemotePath}
    {mode : OpenMode}

theorem nextSession_le_answer (d : Device) (r : Request) :
    d.nextSession ≤ (d.answer r).2.nextSession := by
  have hentered : ((d.release r).enter r.op).2.nextSession = d.nextSession := nextSession_release
  cases hf : d.faults.get? r.op with
  | some e => rw [answer_of_fault hf, hentered]
  | none =>
    rw [answer_of_no_fault hf, ← hentered]
    exact nextSession_le_perform _ r

theorem sessions_setTree (x : Except RemoteError Tree) : (d.setTree x).2.sessions = d.sessions := by
  cases x <;> rfl

theorem path_of_setSession {id' : SessionId} {s' : Session}
    (h : (d.setSession id' s').sessions.get? id = some s)
    (hs : ∃ y, d.sessions.get? id' = some y ∧ y.path = s'.path) :
    ∃ y, d.sessions.get? id = some y ∧ y.path = s.path := by
  rw [setSession, KeyMap.get?_insert] at h
  split at h
  · rename_i he
    cases h
    rwa [he]
  · exact ⟨s, h, rfl⟩

theorem Session.path_of_read {t : Tree} {max : Nat} {chunk : Bytes} {s s' : Session}
    (h : s.read t max = .ok (chunk, s')) :
    s'.path = s.path := by
  obtain ⟨content, -, h⟩ := exists_of_bind_eq_ok h
  cases h
  rfl

theorem path_of_perform (h : (d.perform r).2.sessions.get? id = some s) (hid : id < d.nextSession) :
    ∃ y, d.sessions.get? id = some y ∧ y.path = s.path := by
  cases r with
  | listdir dir => exact ⟨s, h, rfl⟩
  | openFile path mode =>
    simp only [perform] at h
    split at h
    · exact ⟨s, h, rfl⟩
    · rw [KeyMap.get?_insert, if_neg (Nat.ne_of_lt hid)] at h
      exact ⟨s, h, rfl⟩
  | seek id' offset =>
    simp only [perform] at h
    split at h
    · exact ⟨s, h, rfl⟩
    · rename_i s' hs'
      exact path_of_setSession h ⟨s', session_eq_ok_iff.1 hs', rfl⟩
  | read id' max =>
    simp only [perform] at h
    split at h
    · exact ⟨s, h, rfl⟩
    · rename_i chunk s' hr
      obtain ⟨y, hs, hr⟩ := exists_of_bind_eq_ok hr
      exact path_of_setSession h ⟨y, session_eq_ok_iff.1 hs, (Session.path_of_read hr).symm⟩
  | write id' data =>
    simp only [perform] at h
    split at h
    · exact ⟨s, h, rfl⟩
    · rename_i count s' t hw
      obtain ⟨y, hs, hw⟩ := exists_of_bind_eq_ok hw
      obtain ⟨old, -, -, -, -, hp, -⟩ := Session.write_eq_ok hw
      exact path_of_setSession h ⟨y, session_eq_ok_iff.1 hs, hp.symm⟩
  | close id' => exact ⟨s, h, rfl⟩
  | _ => exact ⟨s, sessions_setTree (d := d) _ ▸ h, rfl⟩

theorem path_of_answer (h : (d.answer r).2.sessions.get? id = some s) (hid : id < d.nextSession) :
    ∃ y, d.sessions.get? id = some y ∧ y.path = s.path := by
  have hreleased : ∀ y, ((d.release r).enter r.op).2.sessions.get? id = some y →
      d.sessions.get? id = some y := by
    intro y hy
    cases r with
    | close id' =>
      simp only [sessions_enter, release, KeyMap.get?_erase] at hy
      split at hy
      · cases hy
      · exact hy
    | _ => exact hy
  cases hf : d.faults.get? r.op with
  | some e =>
    rw [answer_of_fault hf] at h
    exact ⟨s, hreleased s h, rfl⟩
  | none =>
    rw [answer_of_no_fault hf] at h
    have hid' : id < ((d.release r).enter r.op).2.nextSession :=
      hid.trans_eq nextSession_release.symm
    obtain ⟨y, hy, hp⟩ := path_of_perform h hid'
    exact ⟨y, hreleased y hy, hp⟩

theorem answer_openFile_ok (h : (d.answer (.openFile path mode)).1 = .ok id) :
    id = d.nextSession ∧ ∃ t position, d.tree.openFile path mode = .ok (t, position) ∧
      (d.answer (.openFile path mode)).2 =
        { (d.enter .openFile).2 with
          tree := t
          sessions := d.sessions.insert id ⟨path, mode, position⟩
          nextSession := d.nextSession + 1 } := by
  have hperform := answer_of_ok h
  rw [hperform] at h ⊢
  simp only [perform] at h ⊢
  split at h
  · cases h
  · rename_i t position ho
    cases h
    exact ⟨rfl, t, position, ho, rfl⟩

theorem opened_of_answer (h : (d.answer (.openFile path mode)).1 = .ok id) :
    id < (d.answer (.openFile path mode)).2.nextSession ∧
      ∃ s, (d.answer (.openFile path mode)).2.sessions.get? id = some s ∧ s.path = path ∧
      s.mode = mode := by
  obtain ⟨rfl, t, position, -, hd⟩ := answer_openFile_ok h
  rw [hd]
  exact ⟨Nat.lt_succ_self _, ⟨path, mode, position⟩, KeyMap.get?_insert_self _ _ _, rfl, rfl⟩

theorem sought_of_answer {offset : UInt64} {u : Unit} (hs : d.sessions.get? id = some s)
    (h : (d.answer (.seek id offset)).1 = .ok u) :
    (d.answer (.seek id offset)).2.sessions.get? id = some { s with position := offset } := by
  have hsession : ((d.release (.seek id offset)).enter (Request.seek id offset).op).2.session id =
      .ok s :=
    session_eq_ok_iff.2 hs
  rw [answer_of_ok h]
  simp only [perform, hsession, setSession, KeyMap.get?_insert, if_true]

theorem written_of_answer {data : Bytes} {n : Nat} (hs : d.sessions.get? id = some s)
    (h : (d.answer (.write id data)).1 = .ok n) :
    ∃ old, d.tree.get? s.path = some (.file old) ∧
    (s.writeStart old.size).toNat + data.length < UInt64.size ∧
      n = data.length ∧ (∃ y, (d.answer (.write id data)).2.sessions.get? id = some y ∧
        y.path = s.path) ∧
      (d.answer (.write id data)).2.tree =
        d.tree.insert s.path (.file (old.overwrite (s.writeStart old.size).toNat data)) := by
  have hsession : ((d.release (.write id data)).enter (Request.write id data).op).2.session id =
      .ok s :=
    session_eq_ok_iff.2 hs
  have hperform := answer_of_ok h
  rw [hperform] at h ⊢
  simp only [perform, hsession] at h ⊢
  split at h
  · cases h
  · rename_i count s' t hw
    cases h
    obtain ⟨old, ho, hlt, -, hcount, hpath, ht⟩ := Session.write_eq_ok hw
    refine ⟨old, ho, hlt, hcount, ⟨s', ?_, hpath⟩, ht⟩
    simp only [setSession, KeyMap.get?_insert, if_true]

theorem cut_of_answer {length : UInt64} {u : Unit} (hs : d.sessions.get? id = some s)
    (h : (d.answer (.truncate id length)).1 = .ok u) :
    ∃ old, d.tree.get? s.path = some (.file old) ∧
      (d.answer (.truncate id length)).2.tree =
        d.tree.insert s.path (.file (old.resize length.toNat)) := by
  have hperform := answer_of_ok h
  rw [hperform] at h ⊢
  obtain ⟨t, ht, htree⟩ := tree_setTree_ok h
  obtain ⟨s', hs', ht⟩ := exists_of_bind_eq_ok ht
  obtain rfl : s = s' := Option.some_inj.1 (hs.symm.trans (session_eq_ok_iff.1 hs'))
  obtain ⟨old, ho, -, rfl⟩ := Session.truncate_eq_ok ht
  exact ⟨old, ho, htree⟩

theorem size_of_session (hs : d.sessions.get? id = some s) :
    d.size id = d.tree.lengthAt s.path := by
  rw [size, session_eq_ok_iff.2 hs]
  cases hg : d.tree.get? s.path with
  | none => simp [Session.size, Session.content, Tree.lengthAt, hg]
  | some node => cases node with
    | directory => simp [Session.size, Session.content, Tree.lengthAt, hg]
    | file content => simp [Session.size, Session.content, Tree.lengthAt, hg]

section InSession

theorem session_entered (op : RemoteOp) (hs : d.sessions.get? id = some s) :
    (d.enter op).2.session id = .ok s :=
  session_eq_ok_iff.2 hs

variable (hs : d.sessions.get? id = some s)

include hs

theorem seek_in_session (hf : d.faults.get? .seek = none) (offset : UInt64) :
    d.answer (.seek id offset) = (.ok (),
      (d.enter .seek).2.setSession id { s with position := offset }) := by
  have hanswer : d.answer (.seek id offset) = (d.enter .seek).2.perform (.seek id offset) :=
    answer_of_no_fault hf
  simp only [hanswer, perform, session_entered .seek hs]

theorem read_in_session (hf : d.faults.get? .read = none) (max : Nat) :
    d.answer (.read id max) =
      match s.read d.tree max with
      | .error e => (.error e, (d.enter .read).2)
      | .ok (chunk, s') => (.ok chunk, (d.enter .read).2.setSession id s') := by
  have hanswer : d.answer (.read id max) = (d.enter .read).2.perform (.read id max) :=
    answer_of_no_fault hf
  rw [hanswer]
  cases hr : s.read d.tree max with
  | error e => simp only [perform, session_entered .read hs, tree_enter, Bind.bind, Except.bind, hr]
  | ok x => simp only [perform, session_entered .read hs, tree_enter, Bind.bind, Except.bind, hr]

theorem write_in_session (hf : d.faults.get? .write = none) (data : Bytes) :
    d.answer (.write id data) =
      match s.write d.tree d.capacity data with
      | .error e => (.error e, (d.enter .write).2)
      | .ok (count, s', t) =>
        (.ok count, { (d.enter .write).2.setSession id s' with tree := t }) := by
  have hanswer : d.answer (.write id data) = (d.enter .write).2.perform (.write id data) :=
    answer_of_no_fault hf
  rw [hanswer]
  cases hw : s.write d.tree d.capacity data with
  | error e =>
    simp only [perform, session_entered .write hs, tree_enter, capacity_enter, Bind.bind,
      Except.bind, hw]
  | ok x =>
    simp only [perform, session_entered .write hs, tree_enter, capacity_enter, Bind.bind,
      Except.bind, hw]

theorem truncate_in_session (hf : d.faults.get? .truncate = none) (length : UInt64) :
    d.answer (.truncate id length) =
      (d.enter .truncate).2.setTree (s.truncate d.tree d.capacity length) := by
  have hanswer : d.answer (.truncate id length) =
      (d.enter .truncate).2.perform (.truncate id length) :=
    answer_of_no_fault hf
  simp only [hanswer, perform, session_entered .truncate hs, tree_enter, capacity_enter, Bind.bind,
    Except.bind]

end InSession

/-- All that a request can do to the sessions of a device. -/
inductive SessionEffect (d d' : Device) (r : Request) (x : Except RemoteError r.Reply) : Prop
  | unchanged (ho : r.opened? x = none) (hc : r.op ≠ .close) (hs : d'.sessions = d.sessions)
      (hn : d'.nextSession = d.nextSession)
  | opened {s : Session} (ho : r.opened? x = some d.nextSession)
    (hs : d'.sessions = d.sessions.insert d.nextSession s)
      (hn : d'.nextSession = d.nextSession + 1)
  | moved {id : SessionId} {s : Session} (hr : r.session? = some id) (hc : r.op ≠ .close)
    (hk : id ∈ d.sessions.keys)
      (hs : d'.sessions = d.sessions.insert id s) (hn : d'.nextSession = d.nextSession)
  | closed {id : SessionId} (hr : r = .close id) (hs : d'.sessions = d.sessions.erase id)
      (hn : d'.nextSession = d.nextSession)

theorem mem_keys_of_session (h : d.session id = .ok s) : id ∈ d.sessions.keys := by
  rw [KeyMap.mem_keys_iff, session_eq_ok_iff.1 h]
  rfl

theorem mem_keys_of_bind {α : Type} {f : Session → Except RemoteError α} {a : α}
    (h : d.session id >>= f = .ok a) :
    id ∈ d.sessions.keys := by
  obtain ⟨s, hs, -⟩ := exists_of_bind_eq_ok h
  exact mem_keys_of_session hs

theorem answer_sessions (d : Device) (r : Request) :
    SessionEffect d (d.answer r).2 r (d.answer r).1 := by
  cases hf : d.faults.get? r.op with
  | some e =>
    rw [answer_of_fault hf]
    cases r with
    | close id => exact .closed rfl rfl rfl
    | _ => exact .unchanged rfl nofun rfl rfl
  | none =>
    rw [answer_of_no_fault hf]
    cases r with
    | close id => exact .closed rfl rfl rfl
    | listdir dir => exact .unchanged rfl nofun rfl rfl
    | openFile path mode =>
      simp only [perform]
      split
      · exact .unchanged rfl nofun rfl rfl
      · exact .opened rfl rfl rfl
    | seek id offset =>
      simp only [perform]
      split
      · exact .unchanged rfl nofun rfl rfl
      · rename_i s hs
        exact .moved rfl nofun (mem_keys_of_session hs) rfl rfl
    | read id max =>
      simp only [perform]
      split
      · exact .unchanged rfl nofun rfl rfl
      · rename_i h
        exact .moved rfl nofun (mem_keys_of_bind h) rfl rfl
    | write id data =>
      simp only [perform]
      split
      · exact .unchanged rfl nofun rfl rfl
      · rename_i h
        exact .moved rfl nofun (mem_keys_of_bind h) rfl rfl
    | _ =>
      obtain ⟨t, ht⟩ := exists_setTree _
      refine .unchanged rfl nofun ?_ ?_
      · rw [perform, ht]
        rfl
      · rw [perform, ht]
        rfl

def Numbered (d : Device) : Prop := ∀ id ∈ d.sessions.keys, id < d.nextSession

theorem Numbered.answer (h : d.Numbered) (r : Request) : (d.answer r).2.Numbered := by
  intro id hid
  cases answer_sessions d r with
  | unchanged ho hc hs hn =>
    rw [hs] at hid
    rw [hn]
    exact h id hid
  | opened ho hs hn =>
    rw [hs, KeyMap.mem_keys_insert] at hid
    rw [hn]
    rcases hid with rfl | hid
    · exact Nat.lt_succ_self _
    · exact Nat.lt_succ_of_lt (h id hid)
  | moved hr hc hk hs hn =>
    rw [hs, KeyMap.mem_keys_insert] at hid
    rw [hn]
    rcases hid with rfl | hid
    · exact h _ hk
    · exact h id hid
  | closed hr hs hn =>
    rw [hs, KeyMap.mem_keys_erase] at hid
    rw [hn]
    exact h id hid.2

end Memory.Device

end RemoteMount
