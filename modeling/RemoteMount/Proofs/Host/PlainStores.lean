import RemoteMount.Proofs.Host.Places
import RemoteMount.Proofs.Host.Serving

namespace RemoteMount.Host

/-- What an ordinary file system holds: directories, and files of a length that the host can
tell. -/
def Node.Plain : Node → Prop
  | .directory _ => True
  | .file content => content.size < Session.offsetLimit
  | .symlink _ => False

namespace FileStore

variable {fs fs' : FileStore} {create : Bool} {chain : List NodeId} {names : List RawName}
variable {dir id : NodeId} {name : RawName} {node new : Node}

theorem Plain.of_get? (h : fs.Plain) (hn : fs.nodes.get? id = some node) : node.Plain := by
  cases node with
  | directory entries => trivial
  | file content => exact h.lengths id content hn
  | symlink target => exact h.noLink id target hn

namespace Plain

theorem of_link (h : fs.Plain) (hw : fs'.WellFormed)
    (hn : ∀ x n, fs'.nodes.get? x = some n → n.Plain)
    (he : ∀ d n x, (fs'.entries d).get? n = some x → (fs.entries d).get? n = some x ∨ d = dir ∧
      n = name ∧ x = id)
    (ht : id ≠ top) (hid : ∀ d n, (fs.entries d).get? n ≠ some id)
    (hl : name.length ≤ RawName.limit) : fs'.Plain := by
  refine ⟨hw, fun x _ hx ↦ hn x _ hx, fun d n hx ↦ ?_, fun d d' n n' x hx hx' ↦ ?_,
    fun d n x hx ↦ ?_, fun x _ hx ↦ hn x _ hx⟩
  · rcases he d n top hx with hx | ⟨-, -, hx⟩
    · exact h.topUnnamed d n hx
    · exact ht hx.symm
  · rcases he d n x hx with hx | ⟨rfl, rfl, rfl⟩
    · rcases he d' n' x hx' with hx' | ⟨rfl, rfl, rfl⟩
      · exact h.oneName d d' n n' x hx hx'
      · exact absurd hx (hid _ _)
    · rcases he d' n' x hx' with hx' | ⟨rfl, rfl, -⟩
      · exact absurd hx' (hid _ _)
      · exact ⟨rfl, rfl⟩
  · rcases he d n x hx with hx | ⟨-, rfl, -⟩
    · exact h.shortNames d n x hx
    · exact hl

theorem of_fewer (h : fs.Plain) (hw : fs'.WellFormed)
    (hn : ∀ x n, fs'.nodes.get? x = some n → n.Plain)
    (he : ∀ d n x, (fs'.entries d).get? n = some x → (fs.entries d).get? n = some x) : fs'.Plain :=
  ⟨hw, fun x _ hx ↦ hn x _ hx, fun d n hx ↦ h.topUnnamed d n (he d n _ hx),
    fun d d' n n' x hx hx' ↦ h.oneName d d' n n' x (he d n x hx) (he d' n' x hx'),
    fun d n x hx ↦ h.shortNames d n x (he d n x hx), fun x _ hx ↦ hn x _ hx⟩

theorem of_insert (h : fs.Plain) {x : NodeId} {n : Node}
    (hx : (fs.nodes.insert id node).get? x = some n) (hn : node.Plain) : n.Plain := by
  rw [KeyMap.get?_insert] at hx
  split at hx
  · cases hx
    exact hn
  · exact h.of_get? hx

theorem unlinkName (h : fs.Plain) (hd : fs.isDirectory dir = true) (name : RawName) :
    (fs.unlinkName dir name).Plain := by
  refine h.of_fewer (wellFormed_unlinkName h.wellFormed hd name)
    (fun x n hx ↦ h.of_insert hx trivial) fun d n x hx ↦ ?_
  rw [get?_entries_unlinkName] at hx
  split at hx
  · cases hx
  · exact hx

theorem setContent (h : fs.Plain) {old new : Content} (hf : fs.nodes.get? id = some (.file old))
    (hn : new.size < Session.offsetLimit) : (fs.setContent id new).Plain := by
  refine h.of_fewer (wellFormed_setContent h.wellFormed hf new) (fun x n hx ↦ h.of_insert hx hn)
    fun d n x hx ↦ ?_
  rwa [entries_setContent hf] at hx

theorem link (h : fs.Plain) (hd : fs.isDirectory dir = true) (hx : fs.nodes.get? id = some node)
    (ht : id ≠ top)
    (hid : ∀ d n, (fs.entries d).get? n ≠ some id) (hl : name.length ≤ RawName.limit) :
    (fs.link dir name id).Plain := by
  refine @of_link fs _ dir id name h (wellFormed_link h.wellFormed hd hx name)
    (fun x n hx ↦ h.of_insert hx trivial)
    (fun d n x hx ↦ ?_) ht hid hl
  rw [get?_entries_link] at hx
  split at hx
  · rename_i hsame
    cases hx
    exact .inr ⟨hsame.1, hsame.2, rfl⟩
  · exact .inl hx

theorem add (h : fs.Plain) (hd : fs.isDirectory dir = true) (hb : new.Bare) (hn : new.Plain)
    (hl : name.length ≤ RawName.limit) : (fs.add dir name new).2.Plain := by
  have hnext : fs.nodes.get? fs.next = none := h.wellFormed.get?_next
  refine @of_link fs _ dir fs.next name h ((Change.added name hd hb).wellFormed h.wellFormed)
    (fun x n hx ↦ ?_)
    (fun d n x hx ↦ ?_) ?_ (fun d n hx ↦ ?_) hl
  · rw [get?_add h.wellFormed hd] at hx
    split at hx
    · cases hx
      trivial
    split at hx
    · cases hx
      exact hn
    · exact h.of_get? hx
  · rw [get?_entries_add h.wellFormed hb] at hx
    split at hx
    · rename_i hsame
      cases hx
      exact .inr ⟨hsame.1, hsame.2, rfl⟩
    · exact .inl hx
  · exact Nat.ne_of_gt (lt_next_of_isDirectory h.wellFormed h.wellFormed.top)
  · obtain ⟨node, hx⟩ := h.wellFormed.exists_node hx
    cases hnext.symm.trans hx

section Calls

theorem openFile (h : fs.Plain) {x : NodeId × FileStore} (ho : fs.openFile names create = .ok x) :
    x.2.Plain := by
  obtain ⟨chain, name, found, hr, hx⟩ := openFile_eq_ok ho
  obtain ⟨hclimbs, hchild, -⟩ := resolveFrom_sound h.wellFormed.top (climbs_top h.wellFormed.top) hr
  cases found with
  | none =>
    obtain ⟨-, rfl⟩ := hx
    exact h.add (hclimbs.here h.wellFormed.top) trivial (Nat.zero_lt_succ _)
      (free_of_child hchild).1
  | some id =>
    obtain ⟨hdir, rfl⟩ := hx
    obtain ⟨node, hnode⟩ := exists_of_child h.wellFormed hclimbs hchild
    cases create with
    | false => exact h
    | true =>
      cases node with
      | directory entries => cases (isDirectory_iff.2 ⟨entries, hnode⟩).symm.trans hdir
      | symlink target => exact absurd hnode (h.noLink id target)
      | file content => exact h.setContent hnode (Nat.zero_lt_succ _)

theorem mkdir (h : fs.Plain) (hm : fs.mkdir names = .ok fs') : fs'.Plain := by
  obtain ⟨chain, name, hp, hc, rfl⟩ := mkdir_eq_ok hm
  exact h.add ((parentOf_climbs h.wellFormed.top hp).here h.wellFormed.top) rfl trivial
    (free_of_child hc).1

theorem rmdir (h : fs.Plain) (hm : fs.rmdir names = .ok fs') : fs'.Plain := by
  obtain ⟨chain, name, id, hp, -, -, rfl⟩ := rmdir_eq_ok hm
  exact h.unlinkName ((parentOf_climbs h.wellFormed.top hp).here h.wellFormed.top) name

theorem unlink (h : fs.Plain) (hm : fs.unlink names = .ok fs') : fs'.Plain := by
  obtain ⟨chain, name, id, hp, -, -, rfl⟩ := unlink_eq_ok hm
  exact h.unlinkName ((parentOf_climbs h.wellFormed.top hp).here h.wellFormed.top) name

theorem move (h : fs.Plain) {dest : NodeId} {old : RawName} (hd : fs.isDirectory dest = true)
    (hid : (fs.entries dir).get? old = some id) (hl : name.length ≤ RawName.limit) :
    ((fs.unlinkName dir old).link dest name id).Plain := by
  have hdir := isDirectory_of_entry hid
  have hkeeps := keeps_directory hdir ((fs.entries dir).erase old)
  obtain ⟨node, hnode⟩ := h.wellFormed.exists_node hid
  obtain ⟨node', hnode', -⟩ := hkeeps id node hnode
  refine (h.unlinkName hdir old).link (hkeeps.isDirectory hd) hnode' ?_ (fun d n hx ↦ ?_) hl
  · intro he
    exact h.topUnnamed dir old (he ▸ hid)
  · rw [get?_entries_unlinkName] at hx
    split at hx
    · cases hx
    · rename_i hother
      exact hother (h.oneName d dir n old id hx hid)

theorem rename (h : fs.Plain) {old new : List NodeId × RawName} (ho : Proper old.2)
    (hn : Proper new.2)
    (hd : fs.isDirectory (here new.1) = true) (hr : fs.rename old new = .ok fs') : fs'.Plain := by
  obtain ⟨id, target, hfound, htarget, -, hx⟩ := rename_eq_ok hr
  rcases hx with ⟨-, rfl⟩ | ⟨-, -, rfl⟩
  · exact h
  · exact h.move hd (entry_of_child ho hfound).2 (entry_of_child hn htarget).1

end Calls

section Building

theorem empty : FileStore.empty.Plain := by
  have hentries : ∀ d n, (FileStore.empty.entries d).get? n = none := by
    intro d n
    by_cases hd : d = top
    · subst hd
      rfl
    · rw [FileStore.entries, FileStore.empty, KeyMap.get?_insert, if_neg hd]
      rfl
  have hnodes : ∀ x n, FileStore.empty.nodes.get? x = some n → Node.Plain n := by
    intro x n hx
    rw [FileStore.empty, KeyMap.get?_insert] at hx
    split at hx
    · cases hx
      trivial
    · cases hx
  refine ⟨wellFormed_empty, fun x target hx ↦ hnodes x _ hx, fun d n hx ↦ ?_,
    fun d d' n n' x hx _ ↦ ?_, fun d n x hx ↦ ?_, fun x content hx ↦ hnodes x _ hx⟩
  all_goals cases (hentries _ _).symm.trans hx

theorem makeDirectories (h : fs.Plain) (above names : List RawName) :
    (fs.makeDirectories above names).Plain := by
  induction names generalizing fs above with
  | nil => exact h
  | cons name names ih =>
    refine ih ?_ _
    cases hm : fs.mkdir (above ++ [name]) with
    | error e => exact h
    | ok fs' => exact h.mkdir hm

theorem putFile (h : fs.Plain) (names : List RawName) {data : Bytes}
    (hl : data.length < Session.offsetLimit) :
    (fs.putFile names data).Plain := by
  have hmade := h.makeDirectories [] names.dropLast
  unfold FileStore.putFile
  dsimp only
  split
  · rename_i ho
    obtain ⟨-, content, hfile⟩ := openFile_change hmade.wellFormed ho
    refine (hmade.openFile ho).setContent hfile ?_
    rwa [← Content.length_toBytes, Content.ofBytes, Content.toBytes, Content.toBytes,
      List.append_nil]
  · exact hmade

end Building

end Plain

end FileStore

def Entry.Plain : Entry → Prop
  | .directory _ => True
  | .file _ data => data.length < Session.offsetLimit
  | .symlink .. => False

namespace FileStore

theorem plain_foldl_put {fs : FileStore} (h : fs.Plain) {entries : List Entry}
    (he : ∀ entry ∈ entries, entry.Plain) :
    (entries.foldl put fs).Plain := by
  induction entries generalizing fs with
  | nil => exact h
  | cons entry entries ih =>
    obtain ⟨hentry, he⟩ := List.forall_mem_cons.1 he
    refine ih ?_ he
    cases entry with
    | directory path => exact h.makeDirectories [] _
    | file path data => exact h.putFile _ hentry
    | symlink path target => exact hentry.elim

end FileStore

namespace Session

variable {s s' : Session} {content content' : Content} {data : Bytes} {length : UInt64}

theorem size_of_write (h : s.write content data = .ok (s', content'))
    (hl : content.size < offsetLimit) :
    content'.size < offsetLimit := by
  unfold Session.write at h
  split at h
  · cases h
    exact hl
  split at h
  · cases h
  dsimp only at h
  generalize (if s.mode = .append then content.size else s.position.toNat) = start at h
  split at h
  · cases h
  · rename_i hfits
    cases h
    rw [Content.size_overwrite]
    exact max_lt hl (Nat.not_le.1 hfits)

theorem size_of_truncate (h : s.truncate content length = .ok content') :
    content'.size < offsetLimit := by
  unfold Session.truncate at h
  split at h
  · cases h
  split at h
  · cases h
  · rename_i hfits
    cases h
    rw [Content.size_resize]
    exact Nat.not_le.1 hfits

end Session

namespace Device

open FileStore

variable {d : Device}

theorem plain_setStore {x : Except RemoteError FileStore} (h : d.store.Plain)
    (hx : ∀ store, x = .ok store → store.Plain) :
    (d.setStore x).2.store.Plain := by
  cases x with
  | error e => exact h
  | ok store => exact hx store rfl

theorem plain_rename {old new : RemotePath} {store : FileStore} (h : d.store.Plain)
    (hr : Device.rename d.store old new = .ok store) : store.Plain := by
  obtain ⟨source, dest, hs, hd, hr⟩ := exists_of_rename hr
  have hproper : ∀ {p : RemotePath} {x : List NodeId × RawName},
      d.store.parentOf (hostNames p) = .ok x → Proper x.2 := by
    intro p x hx
    rw [snd_of_parentOf hx]
    exact proper_lastName p
  exact h.rename (hproper hs) (hproper hd)
    ((parentOf_climbs h.wellFormed.top hd).here h.wellFormed.top) hr

theorem Sound.plain_answer (hs : d.Sound) (h : d.store.Plain) (r : Request) :
    (d.answer r).2.store.Plain := by
  cases r with
  | listdir dir => exact h
  | close id => exact h
  | seek id offset =>
    simp only [Device.answer]
    split <;> exact h
  | read id max =>
    simp only [Device.answer]
    split <;> exact h
  | openFile path mode =>
    simp only [Device.answer]
    split
    · exact h
    · rename_i ho
      exact h.openFile (openFile_eq_ok ho).2.2
  | write id data =>
    simp only [Device.answer]
    split
    · exact h
    · rename_i ho
      obtain ⟨s, hs', hwrite⟩ := exists_of_session ho
      obtain ⟨old, hold⟩ := hs.sessions id s hs'
      have hcontent : d.contentOf s = old := by rw [contentOf, content, hold]
      rw [hcontent] at hwrite
      exact h.setContent (Session.node_of_write hwrite ▸ hold)
        (Session.size_of_write hwrite (h.lengths _ _ hold))
  | truncate id length =>
    refine plain_setStore h fun store ho ↦ ?_
    obtain ⟨s, content, hs', hcut, rfl⟩ := exists_of_cut ho
    obtain ⟨old, hold⟩ := hs.sessions id s hs'
    exact h.setContent hold (Session.size_of_truncate hcut)
  | mkdir path => exact plain_setStore h fun store ho ↦ h.mkdir (hostCall_eq_ok ho).2
  | rmdir path => exact plain_setStore h fun store ho ↦ h.rmdir (hostCall_eq_ok ho).2
  | unlink path => exact plain_setStore h fun store ho ↦ h.unlink (hostCall_eq_ok ho).2
  | rename old new => exact plain_setStore h fun store ho ↦ plain_rename h ho

theorem Sound.plain_run {α : Type} {m : CachedDevice Device} (hs : m.device.Sound)
    (h : m.device.store.Plain) (p : Program α) : (p.run m).2.device.store.Plain := by
  induction p generalizing m with
  | done a => exact h
  | step a next ih =>
    cases a with
    | remote r => exact ih _ (Sound.answer hs r) (hs.plain_answer h r)
    | size id => exact ih _ hs h
    | cache a => exact ih _ hs h

section Examples

def oneFile : Device := ⟨[Entry.file (Text.encode "f") [1]].foldl FileStore.put .empty, .empty, 0⟩

theorem isSegment_f : IsSegment "f" := by decide

def fileName : RemotePath := RemotePath.root.child ⟨"f", isSegment_f⟩

theorem sound_oneFile : oneFile.Sound :=
  ⟨FileStore.wellFormed_foldl_put FileStore.wellFormed_empty _, fun _ _ h ↦ by cases h⟩

theorem plain_oneFile : oneFile.store.Plain :=
  FileStore.plain_foldl_put .empty
    (List.forall_mem_singleton.2 (show 1 < Session.offsetLimit by decide))

end Examples

end Device

end RemoteMount.Host
