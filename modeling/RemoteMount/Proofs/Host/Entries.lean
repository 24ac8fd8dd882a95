import RemoteMount.Proofs.Host.Stores
import RemoteMount.Proofs.Paths
import RemoteMount.Proofs.Utf8

namespace RemoteMount.Host

namespace FileStore

/-- What stands at a path. A link there is not followed. -/
def lstat? (fs : FileStore) (names : List RawName) : Option NodeId :=
  match fs.parentOf names with
  | .error _ => none
  | .ok (chain, name) =>
    match fs.child chain name with
    | .error _ => none
    | .ok found => found

end FileStore

namespace Device

open FileStore

variable {store : FileStore} {chain : List NodeId} {links : Nat} {dir path : RemotePath}
    {s : Segment} {node : NodeId}
variable {rows : List ListingEntry} {e : Errno}

theorem hostNames_child (dir : RemotePath) (s : Segment) :
    hostNames (dir.child s) = hostNames dir ++ [Text.encode s.name] := by
  simp [hostNames, RemotePath.components, RemotePath.child]

theorem proper_encode (s : Segment) : Proper (Text.encode s.name) := by
  have hdot : Text.encode "." = RawName.dot := Text.encode_eq "."
  have hnothing : Text.encode "" = RawName.nothing := Text.encode_eq ""
  have hdotdot : Text.encode ".." = RawName.dotdot := Text.encode_eq ".."
  refine ⟨fun h ↦ s.valid.2.1 ?_, fun h ↦ s.valid.1 ?_, fun h ↦ s.valid.2.2.1 ?_⟩
  · exact Text.encode_injective (h.trans hdot.symm)
  · exact Text.encode_injective (h.trans hnothing.symm)
  · exact Text.encode_injective (h.trans hdotdot.symm)

theorem child_encode (s : Segment) : store.child chain (Text.encode s.name) =
    if RawName.limit < (Text.encode s.name).length then .error Errno.nametoolong
    else .ok ((store.entries (here chain)).get? (Text.encode s.name)) := by
  obtain ⟨hdot, -, hdotdot⟩ := proper_encode s
  rw [child, if_neg hdot, if_neg hdotdot]

theorem get?_of_child {found : Option NodeId}
    (hc : store.child chain (Text.encode s.name) = .ok found) :
    (store.entries (here chain)).get? (Text.encode s.name) = found := by
  rw [child_encode] at hc
  split at hc
  · cases hc
  · exact Except.ok.inj hc

theorem lstat?_eq_some_iff (h : store.Enters (hostNames dir) chain links) :
    store.lstat? (hostNames (dir.child s)) = some node ↔
      store.child chain (Text.encode s.name) = .ok (some node) := by
  rw [lstat?, hostNames_child, h.parentOf]
  dsimp only
  cases store.child chain (Text.encode s.name) <;> simp

theorem hostCall_eq_ok {α : Type} {f : List RawName → Except Errno α} {a : α}
    (h : hostCall path f = .ok a) :
    path.text.utf8ByteSize ≤ pathLimit ∧ f (hostNames path) = .ok a := by
  unfold hostCall at h
  split at h
  · cases h
  · rename_i hl
    cases hf : f (hostNames path) with
    | error e =>
      rw [hf] at h
      cases h
    | ok b =>
      rw [hf] at h
      cases h
      exact ⟨Nat.not_lt.1 hl, rfl⟩

theorem exists_of_rename {old new : RemotePath} {store' : FileStore}
    (h : rename store old new = .ok store') :
    ∃ source dest, store.parentOf (hostNames old) = .ok source ∧
    store.parentOf (hostNames new) = .ok dest ∧
      store.rename source dest = .ok store' := by
  obtain ⟨source, hs, h⟩ := exists_of_bind_eq_ok h
  obtain ⟨dest, hd, h⟩ := exists_of_bind_eq_ok h
  cases hr : store.rename source dest with
  | error e =>
    rw [hr] at h
    cases h
  | ok renamed =>
    rw [hr] at h
    cases h
    exact ⟨source, dest, (hostCall_eq_ok hs).2, (hostCall_eq_ok hd).2, hr⟩

theorem utf8ByteSize_text_child (dir : RemotePath) (s : Segment) :
    dir.text.utf8ByteSize ≤ (dir.child s).text.utf8ByteSize := by
  obtain ⟨l⟩ := dir
  have hchild : (RemotePath.child ⟨l⟩ s).text =
      String.join ((l.map Segment.name ++ [s.name]).map ("/" ++ ·)) := by
    simp [RemotePath.text, RemotePath.child, RemotePath.components]
  rw [hchild]
  cases l with
  | nil =>
    simp [RemotePath.text]
  | cons t l =>
    simp [RemotePath.text, RemotePath.components]

section Listing

theorem of_row? {name : RawName} {row : ListingEntry} (h : row? store name node = some row) :
    name = Text.encode row.name ∧ ∃ n, store.nodes.get? node = some n ∧ ∀ target,
      n ≠ .symlink target := by
  obtain ⟨text, htext, h⟩ := Option.bind_eq_some_iff.1 h
  obtain ⟨n, hn, h⟩ := Option.bind_eq_some_iff.1 h
  rw [Text.decode?_eq_some_iff] at htext
  cases n with
  | symlink target => cases h
  | directory entries =>
    cases h
    exact ⟨htext, _, hn, nofun⟩
  | file content =>
    cases h
    exact ⟨htext, _, hn, nofun⟩

theorem exists_row? {n : Node} (name : String) (hn : store.nodes.get? node = some n)
    (hl : ∀ target, n ≠ .symlink target) : ∃ row, row? store (Text.encode name) node = some row ∧
    row.name = name := by
  have htext : Text.decode? (Text.encode name) = some name := Text.decode?_eq_some_iff.2 rfl
  cases n with
  | symlink target => exact absurd rfl (hl target)
  | directory entries => exact ⟨.directory name, by simp [row?, htext, hn], rfl⟩
  | file content => exact ⟨.file name content.size.toUInt64, by simp [row?, htext, hn], rfl⟩

theorem listing_of_enters (ht : store.isDirectory top = true)
    (h : store.Enters (hostNames dir) chain links)
    (hl : dir.text.utf8ByteSize ≤ pathLimit) : listing store dir =
      .ok (ListingEntry.sorted ((store.entries (here chain)).toList.filterMap fun e ↦
        row? store e.1 e.2)) := by
  rw [listing, hostCall, if_neg (Nat.not_lt.2 hl), h.stat]
  simp only [bind, Except.bind, h.climbs.here ht, if_true]
  rfl

/-- A name is listed if it is that of a directory or a file, but not if it is that of a link. -/
theorem listed_iff (ht : store.isDirectory top = true)
    (h : store.Enters (hostNames dir) chain links)
    (hr : listing store dir = .ok rows) (name : String) : (∃ row ∈ rows, row.name = name) ↔
      ∃ id n, (store.entries (here chain)).get? (Text.encode name) = some id ∧
      store.nodes.get? id = some n ∧
        ∀ target, n ≠ .symlink target := by
  rw [listing_of_enters ht h (hostCall_eq_ok hr).1] at hr
  cases hr
  simp only [ListingEntry.sorted, List.mem_mergeSort, List.mem_filterMap]
  constructor
  · rintro ⟨row, ⟨entry, hentry, hrow⟩, rfl⟩
    obtain ⟨hname, n, hn, hlink⟩ := of_row? hrow
    exact ⟨entry.2, n, KeyMap.get?_eq_some_iff.2 (hname ▸ hentry), hn, hlink⟩
  · rintro ⟨id, n, hentry, hn, hlink⟩
    obtain ⟨row, hrow, hname⟩ := exists_row? name hn hlink
    exact ⟨row, ⟨_, KeyMap.get?_eq_some_iff.1 hentry, hrow⟩, hname⟩

theorem stat_of_listing (h : listing store dir = .ok rows) :
    ∃ id, store.stat (hostNames dir) = .ok id ∧ store.isDirectory id = true := by
  obtain ⟨-, h⟩ := hostCall_eq_ok h
  cases hid : store.stat (hostNames dir) with
  | error e =>
    rw [hid] at h
    cases h
  | ok id =>
    simp only [hid, bind, Except.bind] at h
    split at h
    · exact ⟨id, rfl, ‹_›⟩
    · cases h

end Listing

section Open

variable {mode : OpenMode} {x : NodeId × FileStore}

theorem openFile_eq_ok (h : openFile store path mode = .ok x) : path.text.utf8ByteSize ≤ pathLimit ∧
    (∀ id, store.stat (hostNames path) = .ok id → ¬store.isDirectory id = true) ∧
    store.openFile (hostNames path) (mode = .createWrite) = .ok x := by
  unfold openFile at h
  split at h
  · rename_i id hid
    split at h
    · cases h
    · rename_i hd
      obtain ⟨hl, ho⟩ := hostCall_eq_ok h
      refine ⟨hl, fun id' hid' ↦ ?_, ho⟩
      cases hid'.symm.trans (hostCall_eq_ok hid).2
      exact hd
  · rename_i e he
    obtain ⟨hl, ho⟩ := hostCall_eq_ok h
    refine ⟨hl, fun id hid ↦ ?_, ho⟩
    rw [hostCall, if_neg (Nat.not_lt.2 hl), hid] at he
    cases he

theorem enters_of_openFile (ht : store.isDirectory top = true)
    (h : openFile store (dir.child s) mode = .ok x) :
    ∃ chain links, store.Enters (hostNames dir) chain links := by
  refine (enters_or_fails ht (hostNames dir)).resolve_right fun ⟨e, he⟩ ↦ ?_
  have ho := (openFile_eq_ok h).2.2
  rw [hostNames_child, FileStore.openFile, (he _).2 (proper_encode s).2.1] at ho
  cases ho

theorem enters_of_lstat? (ht : store.isDirectory top = true)
    (h : store.lstat? (hostNames (dir.child s)) = some node) :
    ∃ chain links, store.Enters (hostNames dir) chain links := by
  refine (enters_or_fails ht (hostNames dir)).resolve_right fun ⟨e, he⟩ ↦ ?_
  rw [hostNames_child, lstat?, (he _).1] at h
  cases h

theorem openFile_of_refused (h : store.Enters (hostNames dir) chain links)
    (hc : store.child chain (Text.encode s.name) = .error e) :
    openFile store (dir.child s) mode ≠ .ok x := by
  intro ho
  have ho := (openFile_eq_ok ho).2.2
  rw [hostNames_child, FileStore.openFile, h.resolve _ _ (proper_encode s).2.1,
    resolveFrom_of_refused (proper_encode s) hc] at ho
  cases ho

theorem openFile_of_free (h : store.Enters (hostNames dir) chain links)
    (hc : store.child chain (Text.encode s.name) = .ok none)
    (ho : openFile store (dir.child s) .createWrite = .ok x) :
    x = store.add (here chain) (Text.encode s.name) (.file .empty) := by
  have ho := (openFile_eq_ok ho).2.2
  rw [hostNames_child, FileStore.openFile, h.resolve _ _ (proper_encode s).2.1,
    resolveFrom_of_free (proper_encode s) hc] at ho
  exact (Except.ok.inj ho).symm

/-- A new entry is found where it was put: nothing on the way to it has changed. -/
theorem lstat?_add (hw : store.WellFormed) (h : store.Enters (hostNames dir) chain links)
    (hc : store.child chain (Text.encode s.name) = .ok none) (content : Content) :
    (store.add (here chain) (Text.encode s.name) (.file content)).2.lstat?
      (hostNames (dir.child s)) = some store.next := by
  have hd : store.isDirectory (here chain) = true := h.climbs.here hw.top
  have hself := @get?_add store (here chain) (Text.encode s.name) (.file content) hw hd (here chain)
  rw [if_pos rfl] at hself
  have hextends : Extends store (store.add (here chain) (Text.encode s.name) (.file content)).2 :=
    extends_add hw hd trivial (get?_of_child hc)
  rw [hostNames_child, lstat?, hextends.parentOf (h.parentOf _)]
  rw [child_encode] at hc
  split at hc
  · cases hc
  · dsimp only
    rw [child_encode, if_neg ‹_›, entries_of_get? hself, KeyMap.get?_insert_self]

end Open

section Answers

variable {d : Device} {mode : OpenMode}

theorem answer_openFile_of_error {e : RemoteError}
    (h : (d.answer (.openFile path mode)).1 = .error e) :
    openFile d.store path mode = .error e ∧ (d.answer (.openFile path mode)).2 = d := by
  simp only [answer] at h ⊢
  split at h
  · rename_i ho
    cases h
    exact ⟨ho, rfl⟩
  · cases h

theorem openFile_of_answer {id : SessionId} (h : (d.answer (.openFile path mode)).1 = .ok id) :
    ∃ node, openFile d.store path mode = .ok (node, (d.answer (.openFile path mode)).2.store) := by
  simp only [answer] at h ⊢
  split at h
  · cases h
  · rename_i node store ho
    exact ⟨node, ho⟩

end Answers

end Device

end RemoteMount.Host
