import Mathlib.Logic.Function.Basic
import RemoteMount.Host.Device
import RemoteMount.Proofs.Host.Walks
import RemoteMount.Proofs.Memory.Requests

namespace RemoteMount.Host

def Node.Alike : Node → Node → Prop
  | .directory _, .directory _ | .file _, .file _ => True
  | .symlink target, .symlink target' => target = target'
  | _, _ => False

theorem Node.alike_refl (node : Node) : node.Alike node := by cases node <;> first | rfl | trivial

theorem Node.Alike.trans {n n' n'' : Node} (h : n.Alike n') (h' : n'.Alike n'') : n.Alike n'' := by
  cases n <;> cases n' <;> cases n'' <;>
    first | trivial | exact h.elim | exact h'.elim | exact Eq.trans h h'

def Node.Bare : Node → Prop
  | .directory entries => entries = .empty
  | .file _ | .symlink _ => True

/-- The chain climbs over directories, and an entry is what its directory holds under its name,
but no link. -/
def Place.Sound (fs : FileStore) : Place → Prop
  | .directory chain => fs.Climbs chain
  | .entry chain name found => fs.Climbs chain ∧ fs.child chain name = .ok found ∧
      ∀ id target, found = some id → fs.nodes.get? id ≠ some (.symlink target)

def Progress.Sound (fs : FileStore) : Progress → Prop
  | .arrived place => place.Sound fs
  | .failed _ => True
  | .atLink chain _ _ => fs.Climbs chain

namespace FileStore

variable {fs fs' fs'' : FileStore} {dir id : NodeId} {name : RawName} {node : Node} {create : Bool}
variable {chain : List NodeId} {names : List RawName} {links : Nat}

section WellFormed

/-- Numbers are given out in order, and all that directories hold is there. -/
structure WellFormed (fs : FileStore) : Prop where
  top : fs.isDirectory top = true
  lt_next : ∀ id ∈ fs.nodes.keys, id < fs.next
  stored : ∀ dir ∈ fs.nodes.keys, ∀ id ∈ (fs.entries dir).values, id ∈ fs.nodes.keys

instance (fs : FileStore) : Decidable fs.WellFormed :=
  decidable_of_iff (fs.isDirectory top = true ∧ (∀ id ∈ fs.nodes.keys, id < fs.next) ∧
      ∀ dir ∈ fs.nodes.keys, ∀ id ∈ (fs.entries dir).values, id ∈ fs.nodes.keys)
    ⟨fun h ↦ ⟨h.1, h.2.1, h.2.2⟩, fun h ↦ ⟨h.top, h.lt_next, h.stored⟩⟩

theorem entries_of_get? {entries : KeyMap RawName NodeId}
    (h : fs.nodes.get? dir = some (.directory entries)) :
    fs.entries dir = entries := by rw [FileStore.entries, h]

theorem isDirectory_of_entry (h : (fs.entries dir).get? name = some id) :
    fs.isDirectory dir = true := by
  unfold entries at h
  split at h
  · rename_i entries he
    exact isDirectory_iff.2 ⟨entries, he⟩
  · cases h

theorem WellFormed.get?_next (h : fs.WellFormed) : fs.nodes.get? fs.next = none :=
  KeyMap.get?_eq_none_iff.2 fun hk ↦ Nat.lt_irrefl _ (h.lt_next _ hk)

theorem WellFormed.exists_node (h : fs.WellFormed) (he : (fs.entries dir).get? name = some id) :
    ∃ node, fs.nodes.get? id = some node := by
  obtain ⟨entries, hd⟩ := isDirectory_iff.1 (isDirectory_of_entry he)
  have hdir : dir ∈ fs.nodes.keys := KeyMap.mem_keys_iff.2 (by rw [hd]; rfl)
  have hid : id ∈ (fs.entries dir).values :=
    List.mem_map.2 ⟨(name, id), KeyMap.get?_eq_some_iff.1 he, rfl⟩
  exact Option.isSome_iff_exists.1 (KeyMap.mem_keys_iff.1 (h.stored dir hdir id hid))

theorem wellFormed_of_get? (ht : fs.isDirectory top = true)
    (hl : ∀ id node, fs.nodes.get? id = some node → id < fs.next)
    (hs : ∀ dir name id, (fs.entries dir).get? name = some id →
      ∃ node, fs.nodes.get? id = some node) :
    fs.WellFormed := by
  refine ⟨ht, fun id hid ↦ ?_, fun dir _ id hid ↦ ?_⟩
  · obtain ⟨node, hnode⟩ := Option.isSome_iff_exists.1 (KeyMap.mem_keys_iff.1 hid)
    exact hl id node hnode
  · obtain ⟨⟨name, _⟩, hmem, rfl⟩ := List.mem_map.1 hid
    exact KeyMap.mem_keys_iff.2 (Option.isSome_iff_exists.2
      (hs dir name _ (KeyMap.get?_eq_some_iff.2 hmem)))

theorem WellFormed.lt_of_get? (h : fs.WellFormed) (hn : fs.nodes.get? id = some node) :
    id < fs.next :=
  h.lt_next id (KeyMap.mem_keys_iff.2 (by rw [hn]; rfl))

theorem wellFormed_insert (h : fs.WellFormed) {next : NodeId} (hn : fs.next ≤ next)
    (hid : id < next) (ht : id = top → ∃ entries, node = .directory entries)
    (hs : ∀ entries name x, node = .directory entries → entries.get? name = some x →
      x = id ∨ ∃ n, fs.nodes.get? x = some n) :
    WellFormed ⟨fs.nodes.insert id node, next⟩ := by
  have hget : ∀ x n, fs.nodes.get? x = some n →
      ∃ n', (fs.nodes.insert id node).get? x = some n' := by
    intro x n hx
    rw [KeyMap.get?_insert]
    split
    · exact ⟨node, rfl⟩
    · exact ⟨n, hx⟩
  refine wellFormed_of_get? ?_ (fun x n hx ↦ ?_) fun d name x hx ↦ ?_
  · obtain ⟨entries, he⟩ := isDirectory_iff.1 h.top
    refine isDirectory_iff.2 ?_
    dsimp only
    rw [KeyMap.get?_insert]
    split
    · obtain ⟨entries', rfl⟩ := ht (Eq.symm ‹_›)
      exact ⟨entries', rfl⟩
    · exact ⟨entries, he⟩
  · dsimp only at hx ⊢
    rw [KeyMap.get?_insert] at hx
    split at hx
    · rename_i hx'
      rwa [hx']
    · exact Nat.lt_of_lt_of_le (h.lt_of_get? hx) hn
  · dsimp only
    have hself : ∃ n', (fs.nodes.insert id node).get? id = some n' :=
      ⟨node, KeyMap.get?_insert_self _ _ _⟩
    obtain ⟨entries, hentries⟩ := isDirectory_iff.1 (isDirectory_of_entry hx)
    rw [entries_of_get? hentries] at hx
    dsimp only at hentries
    rw [KeyMap.get?_insert] at hentries
    split at hentries
    · rcases hs entries name x (Option.some_inj.1 hentries) hx with rfl | ⟨n, hn⟩
      · exact hself
      · exact hget x n hn
    · rw [← entries_of_get? hentries] at hx
      obtain ⟨n, hn⟩ := h.exists_node hx
      exact hget x n hn

theorem lt_next_of_isDirectory (h : fs.WellFormed) (hd : fs.isDirectory dir = true) :
    dir < fs.next := by
  obtain ⟨entries, he⟩ := isDirectory_iff.1 hd
  exact h.lt_of_get? he

theorem wellFormed_directory {entries : KeyMap RawName NodeId} (h : fs.WellFormed)
    (hd : fs.isDirectory dir = true)
    (hs : ∀ name x, entries.get? name = some x → ∃ node, fs.nodes.get? x = some node) :
    WellFormed ⟨fs.nodes.insert dir (.directory entries), fs.next⟩ := by
  refine wellFormed_insert h (Nat.le_refl _) (lt_next_of_isDirectory h hd)
    (fun _ ↦ ⟨entries, rfl⟩) ?_
  intro entries' name x he hx
  cases he
  exact .inr (hs name x hx)

theorem wellFormed_link (h : fs.WellFormed) (hd : fs.isDirectory dir = true)
    (hn : fs.nodes.get? id = some node) (name : RawName) : (fs.link dir name id).WellFormed := by
  refine wellFormed_directory h hd fun name' x hx ↦ ?_
  rw [KeyMap.get?_insert] at hx
  split at hx
  · cases hx
    exact ⟨node, hn⟩
  · exact h.exists_node hx

theorem wellFormed_unlinkName (h : fs.WellFormed) (hd : fs.isDirectory dir = true)
    (name : RawName) :
    (fs.unlinkName dir name).WellFormed := by
  refine wellFormed_directory h hd fun name' x hx ↦ ?_
  rw [KeyMap.get?_erase] at hx
  split at hx
  · cases hx
  · exact h.exists_node hx

theorem wellFormed_setContent {content : Content} (h : fs.WellFormed)
    (hf : fs.nodes.get? id = some (.file content))
    (new : Content) : (fs.setContent id new).WellFormed := by
  refine wellFormed_insert h (Nat.le_refl _) (h.lt_of_get? hf) (fun ht ↦ ?_) nofun
  obtain ⟨entries, he⟩ := isDirectory_iff.1 h.top
  rw [ht, he] at hf
  cases hf

end WellFormed

section Changes

/-- Nothing is lost: every node is still there, as the directory, file or link that it was. -/
def Keeps (fs fs' : FileStore) : Prop :=
  ∀ id node, fs.nodes.get? id = some node → ∃ node', fs'.nodes.get? id = some node' ∧
    node.Alike node'

theorem keeps_refl (fs : FileStore) : fs.Keeps fs := fun _ node h ↦ ⟨node, h, Node.alike_refl node⟩

theorem Keeps.trans (h : fs.Keeps fs') (h' : fs'.Keeps fs'') : fs.Keeps fs'' := by
  intro id node hn
  obtain ⟨node', hn', ha⟩ := h id node hn
  obtain ⟨node'', hn'', ha'⟩ := h' id node' hn'
  exact ⟨node'', hn'', ha.trans ha'⟩

theorem keeps_insert (h : ∀ n, fs.nodes.get? id = some n → n.Alike node) (next : NodeId) :
    fs.Keeps ⟨fs.nodes.insert id node, next⟩ := by
  intro x n hx
  dsimp only
  rw [KeyMap.get?_insert]
  split
  · rename_i he
    rw [he] at hx
    exact ⟨node, rfl, h n hx⟩
  · exact ⟨n, hx, Node.alike_refl n⟩

theorem Keeps.isDirectory (h : fs.Keeps fs') (hd : fs.isDirectory dir = true) :
    fs'.isDirectory dir = true := by
  obtain ⟨entries, he⟩ := isDirectory_iff.1 hd
  obtain ⟨node, hn, ha⟩ := h dir _ he
  cases node with
  | directory entries' => exact isDirectory_iff.2 ⟨entries', hn⟩
  | file content => exact ha.elim
  | symlink target => exact ha.elim

theorem Keeps.file {content : Content} (h : fs.Keeps fs')
    (hf : fs.nodes.get? id = some (.file content)) :
    ∃ content', fs'.nodes.get? id = some (.file content') := by
  obtain ⟨node, hn, ha⟩ := h id _ hf
  cases node with
  | directory entries => exact ha.elim
  | file content' => exact ⟨content', hn⟩
  | symlink target => exact ha.elim

theorem Keeps.symlink {target : Bytes} (h : fs.Keeps fs')
    (hs : fs.nodes.get? id = some (.symlink target)) :
    fs'.nodes.get? id = some (.symlink target) := by
  obtain ⟨node, hn, ha⟩ := h id _ hs
  cases node with
  | directory entries => exact ha.elim
  | file content => exact ha.elim
  | symlink target' => exact ha ▸ hn

theorem keeps_directory (hd : fs.isDirectory dir = true) (entries : KeyMap RawName NodeId) :
    fs.Keeps ⟨fs.nodes.insert dir (.directory entries), fs.next⟩ := by
  refine keeps_insert (fun n hn ↦ ?_) _
  obtain ⟨entries', he⟩ := isDirectory_iff.1 hd
  rw [he] at hn
  cases hn
  trivial

/-- The changes that a call can make to a store. -/
inductive Change (fs : FileStore) : FileStore → Prop
  | unchanged : Change fs fs
  | added {dir : NodeId} (name : RawName) {new : Node} (hd : fs.isDirectory dir = true)
    (hn : new.Bare) : Change fs (fs.add dir name new).2
  | stored {id : NodeId} {old : Content} (hf : fs.nodes.get? id = some (.file old))
    (new : Content) :
    Change fs (fs.setContent id new)
  | removed {dir : NodeId} (hd : fs.isDirectory dir = true) (name : RawName) :
    Change fs (fs.unlinkName dir name)
  | moved {source dest id : NodeId} {node : Node} (hs : fs.isDirectory source = true)
    (hd : fs.isDirectory dest = true)
    (hn : fs.nodes.get? id = some node) (old new : RawName) :
    Change fs ((fs.unlinkName source old).link dest new id)

theorem Change.keeps (h : Change fs fs') (hw : fs.WellFormed) : fs.Keeps fs' := by
  cases h with
  | unchanged => exact keeps_refl fs
  | @added dir name new hd hn =>
    have hnew : fs.Keeps ⟨fs.nodes.insert fs.next new, fs.next + 1⟩ := by
      refine keeps_insert (fun n hn ↦ ?_) _
      rw [hw.get?_next] at hn
      cases hn
    exact hnew.trans (keeps_directory (hnew.isDirectory hd) _)
  | stored hf new =>
    refine keeps_insert (fun n hn ↦ ?_) _
    rw [hf] at hn
    cases hn
    trivial
  | removed hd name => exact keeps_directory hd _
  | @moved source dest id node hs hd hn old new =>
    have hsource := keeps_directory hs ((fs.entries source).erase old)
    exact hsource.trans (keeps_directory (hsource.isDirectory hd) _)

theorem Change.wellFormed (h : Change fs fs') (hw : fs.WellFormed) : fs'.WellFormed := by
  cases h with
  | unchanged => exact hw
  | @added dir name new hd hn =>
    have hnew : WellFormed ⟨fs.nodes.insert fs.next new, fs.next + 1⟩ := by
      refine wellFormed_insert hw (Nat.le_succ _) (Nat.lt_succ_self _) (fun ht ↦ ?_)
        fun entries name x he hx ↦ ?_
      · exact absurd ht (Nat.ne_of_gt (lt_next_of_isDirectory hw hw.top))
      · subst he
        obtain rfl : entries = .empty := hn
        rw [KeyMap.get?_empty] at hx
        cases hx
    have hdir : FileStore.isDirectory ⟨fs.nodes.insert fs.next new, fs.next + 1⟩ dir = true := by
      obtain ⟨entries, he⟩ := isDirectory_iff.1 hd
      refine isDirectory_iff.2 ⟨entries, ?_⟩
      dsimp only
      rw [KeyMap.get?_insert, if_neg (Nat.ne_of_lt (lt_next_of_isDirectory hw hd)), he]
    exact wellFormed_link hnew hdir (KeyMap.get?_insert_self _ _ _) name
  | stored hf new => exact wellFormed_setContent hw hf new
  | removed hd name => exact wellFormed_unlinkName hw hd name
  | @moved source dest id node hs hd hn old new =>
    have hsource := keeps_directory hs ((fs.entries source).erase old)
    obtain ⟨node', hn', -⟩ := hsource _ _ hn
    exact wellFormed_link (wellFormed_unlinkName hw hs old) (hsource.isDirectory hd) hn' new

end Changes

section Add

variable {new : Node}

theorem get?_add (hw : fs.WellFormed) (hd : fs.isDirectory dir = true) (id : NodeId) :
    (fs.add dir name new).2.nodes.get? id =
      if id = dir then some (.directory ((fs.entries dir).insert name fs.next))
      else if id = fs.next then some new else fs.nodes.get? id := by
  obtain ⟨entries, hdir⟩ := isDirectory_iff.1 hd
  have hne : dir ≠ fs.next := Nat.ne_of_lt (lt_next_of_isDirectory hw hd)
  have hsame : entries = FileStore.entries ⟨fs.nodes.insert fs.next new, fs.next + 1⟩ dir := by
    rw [FileStore.entries]
    dsimp only
    rw [KeyMap.get?_insert, if_neg hne, hdir]
  rw [add, link, KeyMap.get?_insert, ← hsame, entries_of_get? hdir, KeyMap.get?_insert]

theorem extends_add (hw : fs.WellFormed) (hd : fs.isDirectory dir = true) (hn : new.Bare)
    (hf : (fs.entries dir).get? name = none) : Extends fs (fs.add dir name new).2 := by
  have hkeeps : fs.Keeps (fs.add dir name new).2 := (Change.added name hd hn).keeps hw
  refine ⟨fun id target h ↦ hkeeps.symlink h, fun id h ↦ hkeeps.isDirectory h, fun d n id h ↦ ?_⟩
  obtain ⟨entries, he⟩ := isDirectory_iff.1 (isDirectory_of_entry h)
  have hget := @get?_add fs dir name new hw hd d
  by_cases hne : d = dir
  · rw [if_pos hne] at hget
    rw [hne] at h
    have hname : n ≠ name := by
      intro heq
      rw [heq, hf] at h
      cases h
    rw [entries_of_get? hget, KeyMap.get?_insert, if_neg hname, h]
  · rw [if_neg hne, if_neg (Nat.ne_of_lt (hw.lt_of_get? he)), he] at hget
    rwa [entries_of_get? hget, ← entries_of_get? he]

def files (fs : FileStore) (id : NodeId) : Option Bytes :=
  match fs.nodes.get? id with
  | some (.file content) => some content.toBytes
  | _ => none

theorem files_add (hw : fs.WellFormed) (hd : fs.isDirectory dir = true) (content : Content) :
    (fs.add dir name (.file content)).2.files =
      Function.update fs.files fs.next (some content.toBytes) := by
  obtain ⟨entries, hdir⟩ := isDirectory_iff.1 hd
  funext id
  rw [files, get?_add hw hd, Function.update_apply]
  by_cases he : id = dir
  · have hne : id ≠ fs.next := he ▸ Nat.ne_of_lt (lt_next_of_isDirectory hw hd)
    rw [if_pos he, if_neg hne, files, he, hdir]
  · rw [if_neg he]
    by_cases hne : id = fs.next
    · rw [if_pos hne, if_pos hne]
    · rw [if_neg hne, if_neg hne]
      rfl

end Add

section Places

theorem advance_sound (h : fs.Climbs chain) (create : Bool) (names : List RawName) :
    (fs.advance create chain names).Sound fs := by
  induction names generalizing chain with
  | nil => exact h
  | cons name names ih =>
    rcases skipped_or_dotdot_or_proper name with hskip | rfl | hproper
    · rw [advance_skipped hskip]
      exact ih h
    · rw [advance_dotdot]
      exact ih h.up
    by_cases hmade : create = true ∧ names = [RawName.nothing]
    · rw [advance_made hproper hmade]
      trivial
    rw [advance_proper hproper hmade]
    have hlast : ∀ {found : Option NodeId} {p : Progress}, fs.child chain name = .ok found →
        (∀ id target, found = some id → fs.nodes.get? id ≠ some (.symlink target)) → p.Sound fs →
        (if names = [] then .arrived (.entry chain name found) else p : Progress).Sound fs := by
      intro found p hc hl hp
      split
      · exact ⟨h, hc, hl⟩
      · exact hp
    cases hc : fs.child chain name with
    | error e => trivial
    | ok found =>
      cases found with
      | none => exact hlast hc (fun _ _ he ↦ by cases he) trivial
      | some id =>
        dsimp only
        split
        · exact h
        · rename_i entries hn
          refine hlast hc (fun id' target he hs ↦ ?_)
            (ih (List.forall_mem_cons.2 ⟨isDirectory_iff.2 ⟨entries, hn⟩, h⟩))
          cases he
          rw [hn] at hs
          cases hs
        · rename_i hl _
          refine hlast hc (fun id' target he hs ↦ ?_) trivial
          cases he
          exact hl target hs

theorem resolveFrom_sound {links : Nat} {chain : List NodeId} {names : List RawName} {place : Place}
    (ht : fs.isDirectory top = true) (h : fs.Climbs chain)
    (hr : fs.resolveFrom create links chain names = .ok place) :
    place.Sound fs := by
  have hsound := advance_sound h create names
  cases hp : fs.advance create chain names with
  | arrived place' =>
    rw [resolveFrom_of_arrived hp] at hr
    rw [hp] at hsound
    exact Except.ok.inj hr ▸ hsound
  | failed e =>
    rw [resolveFrom_of_failed hp] at hr
    cases hr
  | atLink chain' target rest =>
    cases links with
    | zero =>
      rw [resolveFrom, hp] at hr
      cases hr
    | succ links =>
      rw [resolveFrom_of_atLink hp] at hr
      refine resolveFrom_sound ht ?_ hr
      rw [hp] at hsound
      split
      · exact climbs_top ht
      · exact hsound

theorem parentOf_climbs {x : List NodeId × RawName} (ht : fs.isDirectory top = true)
    (h : fs.parentOf names = .ok x) :
    fs.Climbs x.1 := by
  unfold FileStore.parentOf at h
  cases hr : fs.resolve false (names.dropLast ++ [RawName.dot]) with
  | error e =>
    rw [hr] at h
    cases h
  | ok place =>
    rw [hr] at h
    cases place with
    | directory chain =>
      cases h
      exact resolveFrom_sound ht (climbs_top ht) hr
    | entry chain name found => cases h

theorem exists_of_child (hw : fs.WellFormed) (h : fs.Climbs chain)
    (hc : fs.child chain name = .ok (some id)) :
    ∃ node, fs.nodes.get? id = some node := by
  have hdir : ∀ {c : List NodeId}, fs.Climbs c →
      ∃ node, fs.nodes.get? (here c) = some node := fun hc ↦
    (isDirectory_iff.1 (hc.here hw.top)).imp' Node.directory fun _ h ↦ h
  unfold FileStore.child at hc
  split at hc
  · cases hc
    exact hdir h
  split at hc
  · cases hc
    exact hdir h.up
  split at hc
  · cases hc
  · exact hw.exists_node (Except.ok.inj hc)

end Places

section Calls

variable {x : NodeId × FileStore}

theorem openFile_eq_ok (h : fs.openFile names create = .ok x) : ∃ chain name found,
    fs.resolve create names = .ok (.entry chain name found) ∧
      match found with
      | none => create = true ∧ x = fs.add (here chain) name (.file .empty)
      | some id =>
        fs.isDirectory id = false ∧ x = (id, if create then fs.setContent id .empty else fs) := by
  obtain ⟨place, hr, h⟩ := exists_of_bind_eq_ok h
  cases place with
  | directory chain => cases h
  | entry chain name found =>
    refine ⟨chain, name, found, hr, ?_⟩
    cases found with
    | none =>
      cases create with
      | false => cases h
      | true =>
        cases h
        exact ⟨rfl, rfl⟩
    | some id =>
      dsimp only at h ⊢
      split at h
      · cases h
      · rename_i hd
        cases h
        exact ⟨Bool.eq_false_iff.2 hd, rfl⟩

theorem mkdir_eq_ok (h : fs.mkdir names = .ok fs') :
    ∃ chain name, fs.parentOf names = .ok (chain, name) ∧
    fs.child chain name = .ok none ∧ fs' = (fs.add (here chain) name (.directory .empty)).2 := by
  obtain ⟨⟨chain, name⟩, hp, h⟩ := exists_of_bind_eq_ok h
  obtain ⟨found, hc, h⟩ := exists_of_bind_eq_ok h
  cases found with
  | some id => cases h
  | none =>
    cases h
    exact ⟨chain, name, hp, hc, rfl⟩

theorem rmdir_eq_ok (h : fs.rmdir names = .ok fs') :
    ∃ chain name id, fs.parentOf names = .ok (chain, name) ∧
    fs.child chain name = .ok (some id) ∧ (fs.entries id).size = 0 ∧
    fs' = fs.unlinkName (here chain) name := by
  obtain ⟨⟨chain, name⟩, hp, h⟩ := exists_of_bind_eq_ok h
  obtain ⟨found, hc, h⟩ := exists_of_bind_eq_ok h
  cases found with
  | none => cases h
  | some id =>
    dsimp only at h
    split at h
    · cases h
    split at h
    · cases h
    · rename_i hsize
      cases h
      exact ⟨chain, name, id, hp, hc, not_not.1 hsize, rfl⟩

theorem unlink_eq_ok (h : fs.unlink names = .ok fs') :
    ∃ chain name id, fs.parentOf names = .ok (chain, name) ∧
    fs.child chain name = .ok (some id) ∧ fs.isDirectory id = false ∧
    fs' = fs.unlinkName (here chain) name := by
  obtain ⟨⟨chain, name⟩, hp, h⟩ := exists_of_bind_eq_ok h
  obtain ⟨found, hc, h⟩ := exists_of_bind_eq_ok h
  cases found with
  | none => cases h
  | some id =>
    dsimp only at h
    split at h
    · cases h
    · rename_i hd
      cases h
      exact ⟨chain, name, id, hp, hc, Bool.eq_false_iff.2 hd, rfl⟩

theorem rename_eq_ok {old new : List NodeId × RawName} (h : fs.rename old new = .ok fs') :
    ∃ id target,
    fs.child old.1 old.2 = .ok (some id) ∧ fs.child new.1 new.2 = .ok target ∧ id ∉ new.1 ∧
      (target = some id ∧ fs' = fs ∨ target ≠ some id ∧
        (∀ t, target = some t → fs.requireReplaceable id t = .ok ()) ∧
        fs' = (fs.unlinkName (here old.1) old.2).link (here new.1) new.2 id) := by
  obtain ⟨found, hfound, h⟩ := exists_of_bind_eq_ok h
  cases found with
  | none => cases h
  | some id =>
    obtain ⟨target, htarget, h⟩ := exists_of_bind_eq_ok h
    refine ⟨id, target, hfound, htarget, ?_⟩
    dsimp only at h
    split at h
    · cases h
    rename_i hid
    refine ⟨hid, ?_⟩
    cases target with
    | none =>
      cases h
      exact .inr ⟨nofun, nofun, rfl⟩
    | some t =>
      dsimp only at h
      split at h
      · cases h
      split at h
      · rename_i he
        cases h
        exact .inl ⟨congrArg some he, rfl⟩
      · rename_i hne
        obtain ⟨_, hr, h⟩ := exists_of_bind_eq_ok h
        cases h
        exact .inr ⟨fun he ↦ hne (Option.some.inj he), fun t' ht ↦ Option.some.inj ht ▸ hr, rfl⟩

/-- Opening makes a file, cuts one or changes nothing. What it opens is a file. -/
theorem openFile_change (hw : fs.WellFormed) (h : fs.openFile names create = .ok x) :
    Change fs x.2 ∧ ∃ content, x.2.nodes.get? x.1 = some (.file content) := by
  obtain ⟨chain, name, found, hr, hx⟩ := openFile_eq_ok h
  obtain ⟨hclimbs, hchild, hlink⟩ := resolveFrom_sound hw.top (climbs_top hw.top) hr
  have hd : fs.isDirectory (here chain) = true := hclimbs.here hw.top
  cases found with
  | none =>
    obtain ⟨-, rfl⟩ := hx
    refine ⟨.added name hd trivial, .empty, ?_⟩
    have hne : fs.next ≠ here chain := Nat.ne_of_gt (lt_next_of_isDirectory hw hd)
    rw [get?_add hw hd]
    exact (if_neg hne).trans (if_pos rfl)
  | some id =>
    obtain ⟨hdir, rfl⟩ := hx
    obtain ⟨node, hnode⟩ := exists_of_child hw hclimbs hchild
    cases node with
    | directory entries => cases (isDirectory_iff.2 ⟨entries, hnode⟩).symm.trans hdir
    | symlink target => exact absurd hnode (hlink id target rfl)
    | file content =>
      cases create with
      | false => exact ⟨.unchanged, content, hnode⟩
      | true =>
        exact ⟨.stored hnode .empty, .empty,
          by rw [if_pos rfl, setContent, KeyMap.get?_insert_self]⟩

theorem mkdir_change (hw : fs.WellFormed) (h : fs.mkdir names = .ok fs') : Change fs fs' := by
  obtain ⟨chain, name, hp, -, rfl⟩ := mkdir_eq_ok h
  exact .added name ((parentOf_climbs hw.top hp).here hw.top) rfl

theorem rmdir_change (hw : fs.WellFormed) (h : fs.rmdir names = .ok fs') : Change fs fs' := by
  obtain ⟨chain, name, id, hp, -, -, rfl⟩ := rmdir_eq_ok h
  exact .removed ((parentOf_climbs hw.top hp).here hw.top) name

theorem unlink_change (hw : fs.WellFormed) (h : fs.unlink names = .ok fs') : Change fs fs' := by
  obtain ⟨chain, name, id, hp, -, -, rfl⟩ := unlink_eq_ok h
  exact .removed ((parentOf_climbs hw.top hp).here hw.top) name

theorem rename_change {old new : List NodeId × RawName} (hw : fs.WellFormed) (ho : fs.Climbs old.1)
    (hn : fs.Climbs new.1) (h : fs.rename old new = .ok fs') : Change fs fs' := by
  obtain ⟨id, target, hfound, -, -, hx⟩ := rename_eq_ok h
  obtain ⟨node, hnode⟩ := exists_of_child hw ho hfound
  rcases hx with ⟨-, rfl⟩ | ⟨-, -, rfl⟩
  · exact .unchanged
  · exact .moved (ho.here hw.top) (hn.here hw.top) hnode old.2 new.2

end Calls

section Building

theorem wellFormed_empty : FileStore.empty.WellFormed := by decide

theorem wellFormed_makeDirectories (hw : fs.WellFormed) (above names : List RawName) :
    (fs.makeDirectories above names).WellFormed := by
  induction names generalizing fs above with
  | nil => exact hw
  | cons name names ih =>
    refine ih ?_ _
    cases hm : fs.mkdir (above ++ [name]) with
    | error e => exact hw
    | ok fs' => exact (mkdir_change hw hm).wellFormed hw

theorem wellFormed_putFile (hw : fs.WellFormed) (names : List RawName) (data : Bytes) :
    (fs.putFile names data).WellFormed := by
  have hmade := wellFormed_makeDirectories hw [] names.dropLast
  unfold putFile
  dsimp only
  split
  · rename_i ho
    obtain ⟨hchange, content, hfile⟩ := openFile_change hmade ho
    exact wellFormed_setContent (hchange.wellFormed hmade) hfile _
  · exact hmade

theorem wellFormed_putLink (hw : fs.WellFormed) (names : List RawName) (target : Bytes) :
    (fs.putLink names target).WellFormed := by
  have hmade := wellFormed_makeDirectories hw [] names.dropLast
  unfold putLink
  dsimp only
  split
  · exact hmade
  rename_i hp
  split
  · have hclimbs := parentOf_climbs hmade.top hp
    exact Change.wellFormed (.added _ (hclimbs.here hmade.top) trivial) hmade
  · exact hmade

theorem wellFormed_put (hw : fs.WellFormed) (entry : Entry) : (fs.put entry).WellFormed := by
  cases entry with
  | directory path => exact wellFormed_makeDirectories hw [] _
  | file path data => exact wellFormed_putFile hw _ data
  | symlink path target => exact wellFormed_putLink hw _ target

theorem wellFormed_foldl_put (hw : fs.WellFormed) (entries : List Entry) :
    (entries.foldl put fs).WellFormed := by
  induction entries generalizing fs with
  | nil => exact hw
  | cons entry entries ih => exact ih (wellFormed_put hw entry)

end Building

end FileStore

end RemoteMount.Host
