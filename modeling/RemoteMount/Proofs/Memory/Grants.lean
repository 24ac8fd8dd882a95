import RemoteMount.Proofs.Memory.Sessions

namespace RemoteMount

open RemotePath

namespace Memory

namespace Tree

variable {t t' : Tree} {p q path old new : RemotePath} {content : Content} {position : UInt64}

theorem openFile_eq_ok {mode : OpenMode} (h : t.openFile path mode = .ok (t', position)) :
    mode = .createWrite ∧ t.get? path ≠ some .directory ∧ t' = t.insert path (.file .empty) ∨
      mode ≠ .createWrite ∧ (∃ content, t.get? path = some (.file content)) ∧ t' = t := by
  unfold openFile at h
  split at h
  · cases h
  · rename_i content hp
    cases mode <;> cases h
    · exact .inr ⟨by simp, ⟨content, hp⟩, rfl⟩
    · exact .inr ⟨by simp, ⟨content, hp⟩, rfl⟩
    · exact .inl ⟨rfl, by rw [hp]; simp, rfl⟩
    · exact .inr ⟨by simp, ⟨content, hp⟩, rfl⟩
  · rename_i hp
    cases mode with
    | createWrite =>
      obtain ⟨_, -, h⟩ := exists_of_bind_eq_ok h
      cases h
      exact .inl ⟨rfl, by rw [hp]; simp, rfl⟩
    | _ => cases h

theorem mkdir_eq_ok (h : t.mkdir path = .ok t') :
    t.get? path = none ∧ t' = t.insert path .directory := by
  unfold mkdir at h
  split at h
  · cases h
  · rename_i hc
    obtain ⟨_, -, h⟩ := exists_of_bind_eq_ok h
    cases h
    exact ⟨by simpa [KeyMap.contains] using hc, rfl⟩

theorem rmdir_eq_ok (h : t.rmdir path = .ok t') :
    t.get? path = some .directory ∧ t' = t.erase path := by
  unfold rmdir at h
  split at h
  · cases h
  · obtain ⟨_, hd, h⟩ := exists_of_bind_eq_ok h
    split at h <;> cases h
    exact ⟨requireDirectory_eq_ok_iff.1 hd, rfl⟩

theorem unlink_eq_ok (h : t.unlink path = .ok t') :
    (∃ content, t.get? path = some (.file content)) ∧ t' = t.erase path := by
  unfold unlink at h
  split at h <;> cases h
  rename_i content hp
  exact ⟨⟨content, hp⟩, rfl⟩

/-- Renaming a place to itself changes nothing. Otherwise everything that was at the old place
or below is at the new place now, and nothing else is. -/
theorem get?_rename (ht : t.WellFormed) (h : t.rename old new = .ok t') :
    old = new ∧ t' = t ∨ old ≠ new ∧ Apart old new ∧ ∀ q, t'.get? q =
      if q.within new then (q.rebase new old).bind t.get? else if q.within old then none
        else t.get? q := by
  unfold rename at h
  split at h
  · cases h
  · split at h
    · cases h
    · rename_i source hs
      split at h
      · rename_i he
        cases h
        exact .inl ⟨he, rfl⟩
      · rename_i hne
        split at h
        · cases h
        · rename_i hw
          obtain ⟨_, hd, h⟩ := exists_of_bind_eq_ok h
          obtain ⟨_, hq, h⟩ := exists_of_bind_eq_ok h
          cases h
          obtain ⟨ha, hc⟩ := Device.apart_of_replaceable ht hne hs (Bool.eq_false_iff.2 hw) hq
          exact .inr ⟨hne, ha, fun q ↦ get?_moveSubtree ha hc⟩

end Tree

end Memory

/-- What a request asks of the tree. Sessions are left aside: they change one file at most. -/
def Request.onTree (t : Memory.Tree) : Request → Except RemoteError Memory.Tree
  | .openFile path mode => (t.openFile path mode).map Prod.fst
  | .mkdir path => t.mkdir path
  | .rmdir path => t.rmdir path
  | .unlink path => t.unlink path
  | .rename old new => t.rename old new
  | _ => .ok t

namespace Memory.Device

variable {d : Device} {r : Request} {id : SessionId} {s : Session}

theorem onTree_of_setTree {x : Except RemoteError Tree} {u : Unit} (h : (d.setTree x).1 = .ok u) :
    x = .ok (d.setTree x).2.tree := by
  obtain ⟨t, ht, htree⟩ := tree_setTree_ok h
  rw [htree, ht]

theorem onTree_of_perform {x : r.Reply} (hs : r.stores? = none) (h : (d.perform r).1 = .ok x) :
    r.onTree d.tree = .ok (d.perform r).2.tree := by
  cases r with
  | listdir dir => rfl
  | close id => rfl
  | seek id offset =>
    simp only [perform, Request.onTree]
    split <;> rfl
  | read id max =>
    simp only [perform, Request.onTree]
    split <;> rfl
  | openFile path mode =>
    simp only [perform] at h ⊢
    split at h
    · cases h
    · rename_i t position ho
      rw [Request.onTree, ho]
      rfl
  | write id data => cases hs
  | truncate id length => cases hs
  | mkdir path => exact onTree_of_setTree h
  | rmdir path => exact onTree_of_setTree h
  | unlink path => exact onTree_of_setTree h
  | rename old new => exact onTree_of_setTree h

theorem onTree_of_answer {x : r.Reply} (hs : r.stores? = none) (h : (d.answer r).1 = .ok x) :
    r.onTree d.tree = .ok (d.answer r).2.tree := by
  have hperform := answer_of_ok h
  have htree : ((d.release r).enter r.op).2.tree = d.tree := by simp
  rw [hperform] at h ⊢
  rw [← htree]
  exact onTree_of_perform hs h

theorem read_of_answer {max : Nat} {data : Bytes} (hs : d.sessions.get? id = some s)
    (h : (d.answer (.read id max)).1 = .ok data) :
    ∃ content, d.tree.get? s.path = some (.file content) ∧
    data = content.slice s.position.toNat max := by
  have hsession : ((d.release (.read id max)).enter (Request.read id max).op).2.session id =
      .ok s :=
    session_eq_ok_iff.2 hs
  rw [answer_of_ok h] at h
  simp only [perform, hsession] at h
  split at h
  · cases h
  · rename_i chunk s' hr
    cases h
    obtain ⟨_, hs', hr⟩ := exists_of_bind_eq_ok hr
    cases hs'
    obtain ⟨content, hc, hr⟩ := exists_of_bind_eq_ok hr
    cases hr
    exact ⟨content, Session.content_eq_ok_iff.1 hc, rfl⟩

theorem open_of_file {path : RemotePath} {content : Content} (hf : d.faults.get? .openFile = none)
    (h : d.tree.get? path = some (.file content)) :
    (d.answer (.openFile path .read)).1 = .ok d.nextSession := by
  have hopen : d.tree.openFile path .read = .ok (d.tree, 0) := by simp only [Tree.openFile, h]
  rw [answer_of_no_fault hf]
  simp only [perform, release, enter, hopen]

theorem seek_of_session {offset : UInt64} (hf : d.faults.get? .seek = none)
    (hs : d.sessions.get? id = some s) :
    (d.answer (.seek id offset)).1 = .ok () := by
  rw [seek_in_session hs hf]

theorem read_of_session (max : Nat) {content : Content} (hf : d.faults.get? .read = none)
    (hs : d.sessions.get? id = some s) (hc : d.tree.get? s.path = some (.file content)) :
    (d.answer (.read id max)).1 = .ok (content.slice s.position.toNat max) := by
  rw [read_in_session hs hf, Session.read_of_file hc]

theorem close_of_no_fault (id : SessionId) (h : d.faults.get? .close = none) :
    (d.answer (.close id)).1 = .ok () := by
  rw [answer_of_no_fault h]
  rfl

end Memory.Device

end RemoteMount
