import RemoteMount.Proofs.Host.Trees

namespace RemoteMount.Host

open Device

namespace FileStore.Plain

variable {fs fs' : FileStore} {chain : List NodeId} {p q old new : RemotePath} {id : NodeId}
    {create : Bool}

theorem heldIn_of_parentOf (h : fs.Plain) {x : List NodeId × RawName}
    (hp : fs.parentOf (hostNames p) = .ok x) :
    fs.HeldIn p x.1 ∧ x.2 = lastName p := by
  obtain ⟨chain, hheld, rfl⟩ := h.parentOf_eq_ok_iff'.1 hp
  exact ⟨hheld, rfl⟩

theorem foundAt_mkdir (h : fs.Plain) (hm : fs.mkdir (hostNames p) = .ok fs') :
    fs'.foundAt = Function.update fs.foundAt p (some .directory) := by
  obtain ⟨chain, name, hp, hc, rfl⟩ := mkdir_eq_ok hm
  obtain ⟨hheld, rfl⟩ := h.heldIn_of_parentOf hp
  exact (h.foundAt_add hheld (free_of_child hc).2 (.directory .empty) rfl).2

theorem foundAt_rmdir (h : fs.Plain) (hm : fs.rmdir (hostNames p) = .ok fs') :
    fs'.foundAt = Function.update fs.foundAt p none := by
  obtain ⟨chain, name, id, hp, hc, hempty, rfl⟩ := rmdir_eq_ok hm
  obtain ⟨hheld, rfl⟩ := h.heldIn_of_parentOf hp
  exact h.foundAt_unlinkName hheld (entry_of_child (proper_lastName p) hc).2
    (KeyMap.get?_of_size_eq_zero hempty)

theorem foundAt_unlink (h : fs.Plain) (hm : fs.unlink (hostNames p) = .ok fs') :
    fs'.foundAt = Function.update fs.foundAt p none := by
  obtain ⟨chain, name, id, hp, hc, hdir, rfl⟩ := unlink_eq_ok hm
  obtain ⟨hheld, rfl⟩ := h.heldIn_of_parentOf hp
  refine h.foundAt_unlinkName hheld (entry_of_child (proper_lastName p) hc).2 fun n ↦ ?_
  rw [Option.eq_none_iff_forall_ne_some]
  intro x hx
  cases (isDirectory_of_entry hx).symm.trans hdir

theorem foundAt_rename (h : fs.Plain) {source dest : List NodeId × RawName}
    (hs : fs.parentOf (hostNames old) = .ok source)
    (hd : fs.parentOf (hostNames new) = .ok dest) (hr : fs.rename source dest = .ok fs')
    (ho : q.within old = false) (hn : q.within new = false) : fs'.foundAt q = fs.foundAt q := by
  obtain ⟨hsource, hold⟩ := h.heldIn_of_parentOf hs
  obtain ⟨hdest, hnew⟩ := h.heldIn_of_parentOf hd
  obtain ⟨source, oldName⟩ := source
  obtain ⟨dest, newName⟩ := dest
  obtain rfl : oldName = lastName old := hold
  obtain rfl : newName = lastName new := hnew
  obtain ⟨id, target, hfound, -, hbelow, hx⟩ := rename_eq_ok hr
  rcases hx with ⟨-, rfl⟩ | ⟨-, -, rfl⟩
  · rfl
  · exact h.foundAt_move hsource hdest (entry_of_child (proper_lastName old) hfound).2 hbelow ho hn

/-- Opening a file leads to the node at its path. If the file may be made it is empty then, and
else nothing changes. -/
structure Opened (fs : FileStore) (p : RemotePath) (create : Bool) (id : NodeId)
    (fs' : FileStore) : Prop where
  chainAt : ∃ chain, fs'.chainAt p = some (id :: chain)
  file : ∃ content, fs'.nodes.get? id = some (.file content) ∧ (create = true → content = .empty)
  same : create = false → fs' = fs
  frame : ∀ q, q ≠ p → fs'.foundAt q = fs.foundAt q

section Opening

theorem openFile_of_lost (h : fs.Plain) (hp : ∀ chain, ¬fs.HeldIn p chain) :
    ∃ e, ∀ create, fs.openFile (hostNames p) create = .error e := by
  rcases enters_or_fails h.wellFormed.top (namesAbove p) with ⟨chain, links, henters⟩ | ⟨e, he⟩
  · obtain ⟨hdescend, hdir⟩ := (h.enters_iff (proper_namesAbove p)).1 ⟨links, henters⟩
    exact absurd ⟨hdescend, hdir⟩ (hp chain)
  · refine ⟨e, fun create ↦ ?_⟩
    rw [FileStore.openFile, hostNames_eq p, (he (lastName p)).2 (proper_lastName p).2.1]
    rfl

theorem openFile_of_refused (h : fs.Plain) (hp : fs.HeldIn p chain) {e : Errno}
    (hc : fs.child chain (lastName p) = .error e) :
    fs.openFile (hostNames p) create = .error e := by
  rw [FileStore.openFile, h.resolve_of_heldIn hp, hc]
  rfl

theorem openFile_of_free (h : fs.Plain) (hp : fs.HeldIn p chain)
    (hc : fs.child chain (lastName p) = .ok none) :
    fs.openFile (hostNames p) create =
      if create = true then .ok (fs.add (here chain) (lastName p) (.file .empty))
        else .error Errno.noent := by
  rw [FileStore.openFile, h.resolve_of_heldIn hp, hc]
  cases create <;> rfl

theorem openFile_of_chainAt (h : fs.Plain) (hc : fs.chainAt p = some (id :: chain)) :
    fs.openFile (hostNames p) create =
      if fs.isDirectory id = true then .error Errno.isdir
      else .ok (id, if create = true then fs.setContent id .empty else fs) := by
  obtain ⟨c, id', hheld, hid, he⟩ := exists_of_chainAt hc
  cases he
  rw [FileStore.openFile, h.resolve_of_heldIn hheld, h.child_of_entry (proper_lastName p) hid]
  simp only [Except.map, bind, Except.bind]
  split <;> rfl

theorem opened_add (h : fs.Plain) (hp : fs.HeldIn p chain)
    (hc : (fs.entries (here chain)).get? (lastName p) = none) :
    Opened fs p true fs.next (fs.add (here chain) (lastName p) (.file .empty)).2 := by
  obtain ⟨hchain, hfound⟩ := h.foundAt_add hp hc (.file .empty) trivial
  refine ⟨⟨chain, hchain⟩, ⟨.empty, ?_, fun _ ↦ rfl⟩, nofun, fun q hq ↦ ?_⟩
  · have hne : fs.next ≠ here chain :=
      Nat.ne_of_gt (lt_next_of_isDirectory h.wellFormed hp.directory)
    rw [get?_add h.wellFormed hp.directory, if_neg hne, if_pos rfl]
  · rw [hfound, Function.update_of_ne hq]

theorem opened_setContent (h : fs.Plain) (hc : fs.chainAt p = some (id :: chain)) {old : Content}
    (hf : fs.nodes.get? id = some (.file old)) : Opened fs p true id (fs.setContent id .empty) := by
  obtain ⟨hchain, hfound⟩ := h.foundAt_setContent hc hf .empty
  refine ⟨⟨chain, hchain⟩, ⟨.empty, ?_, fun _ ↦ rfl⟩, nofun, fun q hq ↦ ?_⟩
  · rw [FileStore.setContent, KeyMap.get?_insert_self]
  · exact (congrFun hfound q).trans (Function.update_of_ne hq _ _)

theorem opened_of_openFile (h : fs.Plain) (ho : fs.openFile (hostNames p) create = .ok (id, fs')) :
    Opened fs p create id fs' := by
  by_cases hheld : ∃ chain, fs.HeldIn p chain
  swap
  · obtain ⟨e, he⟩ := h.openFile_of_lost (not_exists.1 hheld)
    cases (he create).symm.trans ho
  obtain ⟨chain, hheld⟩ := hheld
  cases hc : fs.child chain (lastName p) with
  | error e => cases (h.openFile_of_refused hheld hc).symm.trans ho
  | ok found =>
    have hentry := (entry_of_child (proper_lastName p) hc).2
    cases found with
    | none =>
      rw [h.openFile_of_free hheld hc] at ho
      cases create with
      | false => cases ho
      | true =>
        obtain ⟨rfl, rfl⟩ := Prod.mk.inj (Except.ok.inj ho)
        exact h.opened_add hheld hentry
    | some id' =>
      have hchain := hheld.chainAt_of_entry hentry
      rw [h.openFile_of_chainAt hchain] at ho
      split at ho
      · cases ho
      rename_i hdir
      cases ho
      obtain ⟨node, hnode⟩ := h.exists_node_of_chainAt hchain
      change fs.nodes.get? id = some node at hnode
      cases node with
      | directory entries => exact absurd (isDirectory_iff.2 ⟨entries, hnode⟩) hdir
      | symlink target => exact absurd hnode (h.noLink _ _)
      | file content =>
        cases create with
        | false => exact ⟨⟨chain, hchain⟩, ⟨content, hnode, nofun⟩, fun _ ↦ rfl, fun _ _ ↦ rfl⟩
        | true => exact h.opened_setContent hchain hnode

end Opening

end FileStore.Plain

namespace Device

open FileStore

variable {d : Device} {q : RemotePath}

theorem foundAt_setStore {x : Except RemoteError FileStore}
    (h : ∀ store, x = .ok store → store.foundAt q = d.store.foundAt q) :
    (d.setStore x).2.store.foundAt q = d.store.foundAt q := by
  cases x with
  | error e => rfl
  | ok store => exact h store rfl

theorem foundAt_answer (h : d.store.Plain) {r : Request} (hs : r.stores? = none) (hn : ¬r.Names q) :
    (d.answer r).2.store.foundAt q = d.store.foundAt q := by
  cases r with
  | listdir dir => rfl
  | close id => rfl
  | seek id offset =>
    simp only [answer]
    split <;> rfl
  | read id max =>
    simp only [answer]
    split <;> rfl
  | write id data => cases hs
  | truncate id length => cases hs
  | openFile path mode =>
    simp only [answer]
    split
    · rfl
    · rename_i ho
      have hopened := h.opened_of_openFile (openFile_eq_ok ho).2.2
      cases mode with
      | createWrite => exact hopened.frame q hn
      | read | write | append => rw [hopened.same (by decide)]
  | mkdir path =>
    refine foundAt_setStore fun store ho ↦ ?_
    rw [h.foundAt_mkdir (hostCall_eq_ok ho).2, Function.update_of_ne hn]
  | rmdir path =>
    refine foundAt_setStore fun store ho ↦ ?_
    rw [h.foundAt_rmdir (hostCall_eq_ok ho).2, Function.update_of_ne hn]
  | unlink path =>
    refine foundAt_setStore fun store ho ↦ ?_
    rw [h.foundAt_unlink (hostCall_eq_ok ho).2, Function.update_of_ne hn]
  | rename old new =>
    refine foundAt_setStore fun store ho ↦ ?_
    obtain ⟨source, dest, hs, hd, hr⟩ := exists_of_rename ho
    obtain ⟨hold, hnew⟩ := not_or.1 hn
    exact h.foundAt_rename hs hd hr (Bool.eq_false_iff.2 hold) (Bool.eq_false_iff.2 hnew)

end Device

end RemoteMount.Host
