import RemoteMount.Program
import RemoteMount.Proofs.Host.Entries

namespace RemoteMount.Host

namespace Session

variable {s s' : Session} {content content' : Content} {data : Bytes} {max : Nat} {offset : UInt64}

theorem node_of_read (h : s.read content max = .ok (data, s')) : s'.node = s.node := by
  unfold Session.read at h
  split at h
  · cases h
    rfl
  split at h
  · cases h
  split at h
  · cases h
  · cases h
    rfl

theorem node_of_write (h : s.write content data = .ok (s', content')) : s'.node = s.node := by
  unfold Session.write at h
  split at h
  · cases h
    rfl
  split at h
  · cases h
  dsimp only at h
  generalize (if s.mode = .append then content.size else s.position.toNat) = start at h
  split at h
  · cases h
  · cases h
    rfl

theorem node_of_seek (h : s.seek offset = .ok s') : s'.node = s.node := by
  unfold Session.seek at h
  split at h
  · cases h
  · cases h
    rfl

end Session

namespace Device

open FileStore

variable {d d' : Device} {id : SessionId} {s : Session} {α : Type}

/-- The store is well-formed, and sessions are of files, whether these have a name or not. -/
structure Sound (d : Device) : Prop where
  store : d.store.WellFormed
  sessions : ∀ id s, d.sessions.get? id = some s →
    ∃ content, d.store.nodes.get? s.node = some (.file content)

theorem exists_of_session {f : Session → Except RemoteError α} {a : α}
    (h : d.session id >>= f = .ok a) :
    ∃ s, d.sessions.get? id = some s ∧ f s = .ok a := by
  obtain ⟨s, hs, h⟩ := exists_of_bind_eq_ok h
  unfold session at hs
  split at hs
  · rename_i hget
    cases hs
    exact ⟨s, hget, h⟩
  · cases hs

theorem exists_of_cut {length : UInt64} {store : FileStore} (h : (d.session id >>= fun s ↦
      d.store.setContent s.node <$> s.truncate (d.contentOf s) length) = .ok store) : ∃ s content,
    d.sessions.get? id = some s ∧ s.truncate (d.contentOf s) length = .ok content ∧
      store = d.store.setContent s.node content := by
  obtain ⟨s, hs, h⟩ := exists_of_session h
  cases hcut : s.truncate (d.contentOf s) length with
  | error e =>
    rw [hcut] at h
    cases h
  | ok content =>
    rw [hcut] at h
    cases h
    exact ⟨s, content, hs, hcut, rfl⟩

theorem change_setStore {x : Except RemoteError FileStore}
    (h : ∀ store, x = .ok store → Change d.store store) :
    Change d.store (d.setStore x).2.store := by
  cases x with
  | error e => exact .unchanged
  | ok store => exact h store rfl

theorem sessions_setStore (d : Device) (x : Except RemoteError FileStore) :
    (d.setStore x).2.sessions = d.sessions := by
  cases x <;> rfl

theorem rename_change {old new : RemotePath} {store : FileStore} (hw : d.store.WellFormed)
    (h : rename d.store old new = .ok store) : Change d.store store := by
  obtain ⟨source, dest, hs, hd, hr⟩ := exists_of_rename h
  exact FileStore.rename_change hw (parentOf_climbs hw.top hs) (parentOf_climbs hw.top hd) hr

/-- Every request makes one change to the store at most. -/
theorem Sound.change (h : d.Sound) (r : Request) : Change d.store (d.answer r).2.store := by
  cases r with
  | listdir dir => exact .unchanged
  | close id => exact .unchanged
  | seek id offset =>
    simp only [answer]
    split <;> exact .unchanged
  | read id max =>
    simp only [answer]
    split <;> exact .unchanged
  | openFile path mode =>
    simp only [answer]
    split
    · exact .unchanged
    · rename_i ho
      exact (openFile_change h.store (openFile_eq_ok ho).2.2).1
  | write id data =>
    simp only [answer]
    split
    · exact .unchanged
    · rename_i ho
      obtain ⟨s, hs, hwrite⟩ := exists_of_session ho
      obtain ⟨old, hold⟩ := h.sessions id s hs
      exact .stored (Session.node_of_write hwrite ▸ hold) _
  | truncate id length =>
    refine change_setStore fun store ho ↦ ?_
    obtain ⟨s, content, hs, -, rfl⟩ := exists_of_cut ho
    obtain ⟨old, hold⟩ := h.sessions id s hs
    exact .stored hold content
  | mkdir path => exact change_setStore fun store ho ↦ mkdir_change h.store (hostCall_eq_ok ho).2
  | rmdir path => exact change_setStore fun store ho ↦ rmdir_change h.store (hostCall_eq_ok ho).2
  | unlink path => exact change_setStore fun store ho ↦ unlink_change h.store (hostCall_eq_ok ho).2
  | rename old new => exact change_setStore fun store ho ↦ rename_change h.store ho

theorem Sound.session_of_answer (h : d.Sound) (r : Request)
    (hs : (d.answer r).2.sessions.get? id = some s) :
    (∃ s', d.sessions.get? id = some s' ∧ s.node = s'.node) ∨
      ∃ content, (d.answer r).2.store.nodes.get? s.node = some (.file content) := by
  have hset : ∀ {id' : SessionId} {s' s'' : Session}, d.sessions.get? id' = some s' →
      s''.node = s'.node →
      (d.sessions.insert id' s'').get? id = some s → ∃ s', d.sessions.get? id = some s' ∧
        s.node = s'.node := by
    intro id' s' s'' hget hnode hs
    rw [KeyMap.get?_insert] at hs
    split at hs
    · rename_i he
      cases hs
      exact ⟨s', he ▸ hget, hnode⟩
    · exact ⟨s, hs, rfl⟩
  have hsame : d.sessions.get? id = some s → ∃ s', d.sessions.get? id = some s' ∧
      s.node = s'.node :=
    fun hs ↦ ⟨s, hs, rfl⟩
  cases r with
  | listdir dir => exact .inl (hsame hs)
  | close id' =>
    simp only [answer, KeyMap.get?_erase] at hs
    split at hs
    · cases hs
    · exact .inl (hsame hs)
  | seek id' offset =>
    simp only [answer] at hs
    split at hs
    · exact .inl (hsame hs)
    · rename_i ho
      obtain ⟨s', hs', hseek⟩ := exists_of_session ho
      exact .inl (hset hs' (Session.node_of_seek hseek) hs)
  | read id' max =>
    simp only [answer] at hs
    split at hs
    · exact .inl (hsame hs)
    · rename_i ho
      obtain ⟨s', hs', hread⟩ := exists_of_session ho
      exact .inl (hset hs' (Session.node_of_read hread) hs)
  | write id' data =>
    simp only [answer] at hs
    split at hs
    · exact .inl (hsame hs)
    · rename_i ho
      obtain ⟨s', hs', hwrite⟩ := exists_of_session ho
      exact .inl (hset hs' (Session.node_of_write hwrite) hs)
  | openFile path mode =>
    simp only [answer] at hs ⊢
    split at hs
    · exact .inl (hsame hs)
    · rename_i ho
      obtain ⟨-, content, hfile⟩ := openFile_change h.store (openFile_eq_ok ho).2.2
      rw [KeyMap.get?_insert] at hs
      split at hs
      · cases hs
        exact .inr ⟨content, hfile⟩
      · exact .inl (hsame hs)
  | truncate id' length | mkdir path | rmdir path | unlink path | rename old new =>
    refine .inl (hsame ?_)
    rw [← hs]
    simp only [answer, sessions_setStore]

theorem Sound.answer (h : d.Sound) (r : Request) : (d.answer r).2.Sound := by
  refine ⟨(h.change r).wellFormed h.store, fun id s hs ↦ ?_⟩
  rcases h.session_of_answer r hs with ⟨s', hs', hnode⟩ | hfile
  · obtain ⟨content, hfile⟩ := h.sessions id s' hs'
    exact hnode ▸ ((h.change r).keeps h.store).file hfile
  · exact hfile

theorem Sound.run {m : CachedDevice Device} (h : m.device.Sound) (p : Program α) :
    (p.run m).2.device.Sound := by
  induction p generalizing m with
  | done a => exact h
  | step a next ih =>
    refine ih _ ?_
    cases a with
    | remote r => exact Sound.answer h r
    | size id => exact h
    | cache a => exact h

end Device

end RemoteMount.Host
