import RemoteMount.Proofs.Mount.HeldInodes

namespace RemoteMount

open Memory Program Interleaving

namespace InodeTable

variable {t : InodeTable} {p q old new : RemotePath} {extra : Nat} {x : Nat × InodeTable}
    {tree tree' : Tree}
variable {kind : EntryKind}

structure Rooted (t : InodeTable) : Prop where
  path : t.path? rootInode = some .root
  inode : t.inode? .root = some rootInode

namespace Rooted

theorem tracks (h : t.Rooted) (ht : t.Sound) : t.Tracks rootInode .root :=
  ⟨ht.lt_next _ _ h.path, .inr ⟨h.path, h.inode⟩⟩

theorem of_tracks (h : t.Tracks rootInode .root) (hp : t.path? rootInode ≠ none) : t.Rooted := by
  obtain ⟨hpath, hinode⟩ := h.2.resolve_left hp
  exact ⟨hpath, hinode⟩

theorem numbers (h : t.Rooted) (ht : t.Sound) (hx : t.Numbers q extra x) : x.2.Rooted :=
  ⟨hx.path?_of_known ht h.path, hx.inode?_of_known h.inode⟩

theorem forget (h : t.Rooted) (ht : t.Sound) (j n : Nat) : (t.forget j n).2.Rooted := by
  by_cases hj : j = rootInode
  · rw [InodeTable.forget, if_pos hj]
    exact h
  · refine of_tracks ((h.tracks ht).forget ht j n) ?_
    rw [path?_forget, if_neg fun he ↦ hj he.2.symm, h.path]
    exact nofun

theorem invalidate (h : t.Rooted) (hq : q ≠ .root) : (t.invalidate q).Rooted := by
  refine ⟨h.path, ?_⟩
  rw [inode?_invalidate, if_neg (Ne.symm hq), h.inode]

theorem rename (h : t.Rooted) (ht : t.Sound) (ho : old ≠ .root) (hn : new ≠ .root) :
    (t.rename old new).Rooted := by
  have hout : ∀ q : RemotePath, q ≠ .root → RemotePath.root.within q = false :=
    fun q hq ↦ Bool.eq_false_iff.2 (mt RemotePath.within_root_iff.1 hq)
  have htracks : (t.rename old new).Tracks rootInode _ :=
    (h.tracks ht).rename ht fun _ ↦ hout new hn
  rw [RemotePath.rebase_eq_none_iff.2 (hout old ho), Option.getD_none] at htracks
  refine of_tracks htracks ?_
  rw [Ne, path?_rename_eq_none_iff, h.path]
  exact nofun

end Rooted

def MappedIn (t : InodeTable) (tree : Tree) : Prop :=
  ∀ p i, t.inode? p = some i → ∃ kind, KindAt tree p kind

namespace MappedIn

theorem mono (h : t.MappedIn tree) (ht : ∀ p kind, KindAt tree p kind → KindAt tree' p kind) :
    t.MappedIn tree' :=
  fun p i hp ↦ (h p i hp).imp fun kind hk ↦ ht p kind hk

theorem numbers (h : t.MappedIn tree) (hx : t.Numbers q extra x) (hq : KindAt tree q kind) :
    x.2.MappedIn tree := by
  intro p i hp
  rw [hx.inode] at hp
  split at hp
  · rename_i he
    exact ⟨kind, he ▸ hq⟩
  · exact h p i hp

theorem forget (h : t.MappedIn tree) (ht : t.Sound) (j n : Nat) :
    (t.forget j n).2.MappedIn tree := by
  intro p i hp
  rw [inode?_forget ht] at hp
  split at hp
  · cases hp
  · exact h p i hp

theorem invalidate (h : t.MappedIn tree) (q : RemotePath) :
    (t.invalidate q).MappedIn (tree.erase q) := by
  intro p i hp
  rw [inode?_invalidate] at hp
  split at hp
  · cases hp
  · rename_i hne
    exact (h p i hp).imp fun kind hk ↦ kindAt_erase hk hne

/-- Of the paths in the moved subtree each keeps its node; what was in their place has lost both
number and node. -/
theorem rename (h : t.MappedIn tree) (hw : tree.WellFormed) (hr : tree.rename old new = .ok tree') :
    (t.rename old new).MappedIn tree' := by
  intro q i hq
  rcases Tree.get?_rename hw hr with ⟨he, rfl⟩ | ⟨hne, -⟩
  · rw [InodeTable.rename, if_pos he] at hq
    exact h q i hq
  · rw [inode?_rename hne] at hq
    split at hq
    · obtain ⟨p, hp, hi⟩ := Option.bind_eq_some_iff.1 hq
      split at hi
      · cases hi
      · rename_i hout
        obtain ⟨kind, hk⟩ := h p i hi
        have hmoved := kindAt_rename hw hr hk fun _ ↦ Bool.eq_false_iff.2 hout
        rw [RemotePath.rebase_symm hp, Option.getD_some] at hmoved
        exact ⟨kind, hmoved⟩
    · rename_i hqn
      split at hq
      · cases hq
      · rename_i hqo
        obtain ⟨kind, hk⟩ := h q i hq
        have hkept := kindAt_rename hw hr hk fun _ ↦ Bool.eq_false_iff.2 hqn
        rw [RemotePath.rebase_eq_none_iff.2 (Bool.eq_false_iff.2 hqo), Option.getD_none] at hkept
        exact ⟨kind, hkept⟩

end MappedIn

end InodeTable

namespace Filesystem

variable {policy : Policy} {caller : Caller} {m : CachedDevice Device} {dir path : RemotePath}

theorem kindAt_of_readdir {rows : List DirectoryRow} {row : DirectoryRow}
    (h : ((readdir policy caller dir).run m).1 = .ok rows) (hr : row ∈ rows)
    (hself : row.name ≠ ".")
    (hparent : row.name ≠ "..") (hj : dir.join row.name = .ok path) :
    KindAt m.device.tree path row.kind := by
  rw [readdir, run_bind] at h
  cases hx : (RemoteDevice.answer (.listdir dir) m.device).1 with
  | error e =>
    rw [run_refresh_of_error hx] at h
    cases h
  | ok listed =>
    rw [run_refresh_of_ok hx] at h
    cases h
    rcases List.mem_cons.1 hr with rfl | hr
    · exact absurd rfl hself
    rcases List.mem_cons.1 hr with rfl | hr
    · exact absurd rfl hparent
    obtain ⟨⟨name, a⟩, hrecord, rfl⟩ := List.mem_map.1 hr
    obtain ⟨entry, hentry, q, -, rfl, rfl⟩ := mem_recordsOf.1 hrecord
    obtain ⟨node, hnode, hrow⟩ := Tree.node_of_listing (Device.listing_of_answer hx) hentry hj
    have hkind : node.kind = entry.kind := by rw [← Node.entry_kind node entry.name, ← hrow]
    rw [KindAt, hnode, Option.map_some, hkind]
    rfl

end Filesystem

namespace Mount

variable {m m' : Mount Device} {caller : Caller} {c : Callback} {x : Except CallError Reply}
    {e : Event}
variable {t : InodeTable} {path : RemotePath} {r : Reply}

theorem Peeked.rooted {t t' : InodeTable} (h : Peeked t t') (ht : t.Sound) (hr : t.Rooted) :
    t'.Rooted :=
  h.induct (P := InodeTable.Rooted) ht hr fun _ q ht hr ↦
    hr.numbers ht (InodeTable.peek_numbers ht q)

theorem removal?_ne_root {removal : Program (Except CallError Unit)}
    (h : m.removal? c = some (path, removal)) :
    path ≠ .root := by
  cases c with
  | unlink parent name =>
    obtain ⟨q, hq, he⟩ := Option.map_eq_some_iff.1 h
    cases he
    exact given?_ne_root (c := .lookup parent name) hq
  | rmdir parent name =>
    obtain ⟨q, hq, he⟩ := Option.map_eq_some_iff.1 h
    cases he
    exact given?_ne_root (c := .lookup parent name) hq
  | _ => cases h

theorem move?_ne_root {old new : RemotePath} (h : m.move? c = some (old, new)) :
    old ≠ .root ∧ new ≠ .root := by
  cases c with
  | rename parent name newParent newName flags =>
    obtain ⟨p, hp, h⟩ := Option.bind_eq_some_iff.1 h
    obtain ⟨q, hq, h⟩ := Option.bind_eq_some_iff.1 h
    cases h
    exact ⟨given?_ne_root (c := .lookup parent name) hp,
      given?_ne_root (c := .lookup newParent newName) hq⟩
  | _ => cases h

theorem Answered.rooted (h : m.Answered caller c x m') (hm : m.Sound) (hr : m.inodes.Rooted) :
    m'.inodes.Rooted := by
  cases h with
  | calm hb ht => exact ht.rooted hm.inodes hr
  | @entered r b path => exact hr.numbers hm.inodes (InodeTable.lookup_numbers hm.inodes path)
  | forgot =>
    exact foldl_forget_induct (P := InodeTable.Rooted) _ hm.inodes hr fun _ j n ht hr ↦
      hr.forget ht j n
  | removed hc =>
    dsimp only
    split
    · exact hr.invalidate (removal?_ne_root hc)
    · exact hr
  | moved hc =>
    dsimp only
    split
    · exact hr.rename hm.inodes (move?_ne_root hc).1 (move?_ne_root hc).2
    · exact hr

section Quiet

variable {σ : Type} {m : Mount σ}

theorem child?_of_reply {y : Except CallError FileAttributes × Mount σ} {f : FileAttributes → Reply}
    (hf : ∀ a, (f a).child? = some a) (h : (reply y f).1 = .ok r) : r.child? ≠ none := by
  obtain ⟨y, m'⟩ := y
  cases y with
  | error e => cases h
  | ok a =>
    cases h
    rw [hf a]
    exact nofun

variable [RemoteDevice σ]

theorem remove_of_no_child {parent : Nat} {name : FileName}
    {removal : RemotePath → Program (Except CallError Unit)}
    (h : (m.childOf parent name).toOption = none) : (m.remove parent name removal).2 = m := by
  unfold remove
  split
  · rfl
  · rename_i path hp
    rw [hp] at h
    cases h

theorem rename_of_no_move {parent newParent : Nat} {name newName : FileName} {flags : UInt32}
    (h : m.move? (.rename parent name newParent newName flags) = none) :
    (m.rename parent name newParent newName flags).2 = m := by
  unfold rename
  split
  · rfl
  · split
    · rfl
    · rename_i old ho
      split
      · rfl
      · rename_i new hn
        simp only [move?, ho, hn] at h
        cases h

theorem inodes_of_quiet (h : (m.answer caller c).1 = .ok r) (hc : r.child? = none) (hn : m.Plain c)
    (hd : ∀ ino offset room, c ≠ .readdir ino offset room) :
    (m.answer caller c).2.inodes = m.inodes := by
  have hcalls : ∀ {α : Type} {y : Except CallError α × Mount σ}, m.Calls caller y →
      y.2.inodes = m.inodes := by
    rintro α y ⟨b, -, he⟩
    rw [he]
  cases c with
  | lookup parent name => exact absurd hc (child?_of_reply (fun _ ↦ rfl) h)
  | mkdir parent name => exact absurd hc (child?_of_reply (fun _ ↦ rfl) h)
  | create parent name flags => exact absurd hc (child?_of_reply (fun _ ↦ rfl) h)
  | unlink parent name =>
    exact congrArg inodes (remove_of_no_child (Option.map_eq_none_iff.1 hn.removal))
  | rmdir parent name =>
    exact congrArg inodes (remove_of_no_child (Option.map_eq_none_iff.1 hn.removal))
  | rename parent name newParent newName flags => exact congrArg inodes (rename_of_no_move hn.move)
  | forget ino n => cases hn.forgets
  | forgetAll counts =>
    obtain rfl : counts = [] := hn.forgets
    rfl
  | getattr ino => exact hcalls (getattr_calls m caller ino)
  | setattr ino changes => exact hcalls (setattr_calls ino changes)
  | read ino max offset => exact hcalls (read_calls ino max offset)
  | write ino data offset => exact hcalls (write_calls ino data offset)
  | readdir ino offset room => exact absurd rfl (hd ino offset room)
  | openFile | opendir | release | releasedir | flush | fsync | statfs | getxattr | setxattr
  | listxattr
  | removexattr | destroy => rfl

theorem numberRows_induct {P : InodeTable → Prop} {ino parentIno index : Nat}
    {rows : List Filesystem.DirectoryRow}
    (ht : t.Sound) (hp : P t) (hstep : ∀ t row q, t.Sound → P t → row ∈ rows → row.name ≠ "." →
      row.name ≠ ".." →
      path.join row.name = .ok q → P (t.peek q).2) :
      P (numberRows path ino parentIno index t rows).2 := by
  induction rows generalizing t index with
  | nil => exact hp
  | cons row rows ih =>
    have hrest : ∀ t, t.Sound → P t → P (numberRows path ino parentIno (index + 1) t rows).2 :=
      fun t ht hp ↦ ih ht hp fun t row' q ht hp hr ↦
        hstep t row' q ht hp (List.mem_cons_of_mem row hr)
    have hrow : ∀ n t', rowInode t path ino parentIno row.name = .ok (n, t') → t'.Sound ∧ P t' := by
      intro n t' h
      unfold rowInode at h
      split at h
      · cases h
        exact ⟨ht, hp⟩
      · rename_i hself
        split at h
        · cases h
          exact ⟨ht, hp⟩
        · rename_i hparent
          split at h
          · rename_i q hq
            have hpeek : t.peek q = (n, t') := Except.ok.inj h
            have hsound := (InodeTable.peek_numbers ht q).sound ht
            have hnumbered := hstep t row q ht hp List.mem_cons_self hself hparent hq
            rw [hpeek] at hsound hnumbered
            exact ⟨hsound, hnumbered⟩
          · cases h
    unfold numberRows
    split
    · exact hp
    · rename_i n t' h
      have hdone := hrest t' (hrow n t' h).1 (hrow n t' h).2
      generalize numberRows path ino parentIno (index + 1) t' rows = x at hdone ⊢
      obtain ⟨x, t''⟩ := x
      cases x <;> exact hdone

end Quiet

def Mapped (m : Mount Device) : Prop := m.inodes.MappedIn m.base.device.tree

theorem Mapped.reaches {b : CachedDevice Device} (h : m.Mapped)
    (hb : Reaches m.config.policy caller m.base b) :
    m.inodes.MappedIn b.device.tree :=
  h.mono fun _ _ hk ↦ hb.kindAt hk

/-- The children that a listing shows are there when they get their numbers. -/
theorem mapped_readdir (hm : m.Sound) (h : m.Mapped) (ino : Nat) (offset : Int) (room : Nat) :
    (m.readdir caller ino offset room).2.Mapped := by
  have hall : (m.allRows caller ino).2.Mapped := by
    unfold allRows
    split
    · exact h
    · rename_i path _
      have hreaches : Reaches m.config.policy caller m.base
          ((Filesystem.readdir m.config.policy caller path).run m.base).2 :=
        (Reaches.refl _).map (.readdir path) rfl rfl
      have hrows : ∀ rows, ((Filesystem.readdir m.config.policy caller path).run m.base).1 =
          .ok rows →
          ∀ row ∈ rows, row.name ≠ "." → row.name ≠ ".." → ∀ q, path.join row.name = .ok q →
            KindAt m.base.device.tree q row.kind :=
        fun rows hx row hr hself hparent q hq ↦ Filesystem.kindAt_of_readdir hx hr hself hparent hq
      rw [call_eq]
      generalize (Filesystem.readdir m.config.policy caller path).run m.base = x at hreaches hrows ⊢
      obtain ⟨x, b⟩ := x
      have hkept := h.reaches hreaches
      cases x with
      | error e => exact hkept
      | ok rows =>
        refine numberRows_induct (P := fun t ↦ t.MappedIn b.device.tree) hm.inodes hkept ?_
        intro t row q ht hmapped hr hself hparent hq
        have hnode := hreaches.kindAt (hrows rows rfl row hr hself hparent q hq)
        exact hmapped.numbers (InodeTable.peek_numbers ht q) hnode
  rwa [readdir, readdirInto_eq]

theorem mapped_answer (hm : m.Sound) (h : m.Mapped) (caller : Caller) (c : Callback) :
    (m.answer caller c).2.Mapped := by
  by_cases hd : ∃ ino offset room, c = .readdir ino offset room
  · obtain ⟨ino, offset, room, rfl⟩ := hd
    exact mapped_readdir hm h ino offset room
  -- Reading a directory numbers its children. Any other callback that gives no child, and takes
  -- nothing away, leaves the table.
  have hquiet : ∀ r, (m.answer caller c).1 = .ok r → r.child? = none → m.Plain c →
      (∀ ino offset room, c ≠ .readdir ino offset room) → (m.answer caller c).2.inodes = m.inodes :=
    fun _ ↦ inodes_of_quiet
  have hanswer := answered m caller c
  generalize m.answer caller c = y at hanswer hquiet ⊢
  obtain ⟨x, m'⟩ := y
  cases hanswer with
  | @calm _ b t hb ht hf hx he =>
    have htable : t = m.inodes := by
      cases x with
      | error e => exact he e rfl
      | ok r =>
        obtain ⟨hc, hr, hv⟩ := hx r rfl
        exact hquiet r rfl hc ⟨hf, hr, hv⟩ fun ino offset room hc ↦ hd ⟨ino, offset, room, hc⟩
    rw [htable]
    exact h.reaches hb
  | @entered r b path a hb hp ha =>
    have hkind := Filesystem.kindAt_of_getattr (hb.cachedKinds hm.base) (given?_ne_root hp) ha
    have hkept := (h.reaches hb).numbers (InodeTable.lookup_numbers hm.inodes path) hkind
    rw [Mapped]
    dsimp only
    rw [Filesystem.tree_run_getattr]
    exact hkept
  | forgot =>
    exact foldl_forget_induct (P := fun t ↦ t.MappedIn m.base.device.tree) _ hm.inodes h
      fun _ j n ht hmapped ↦ hmapped.forget ht j n
  | @removed y b path removal hc hx =>
    have htree := tree_run_removal hc hx
    rw [Mapped]
    dsimp only
    rw [htree]
    split
    · exact h.invalidate path
    · exact h
  | @moved y b old new hc hx =>
    have htree := tree_run_of_outcome (Filesystem.outcome_rename (s := ⟨m.base, []⟩)) hx
    rw [Mapped]
    dsimp only
    split
    · rename_i hy
      rw [if_pos hy] at htree
      exact h.rename hm.base.wellFormed htree
    · rename_i hy
      rw [if_neg hy] at htree
      rw [htree]
      exact h

structure Charted (m : Mount Device) : Prop where
  sound : m.Sound
  rooted : m.inodes.Rooted
  mapped : m.Mapped

theorem charted_start {d : Device} (config : Config) (ht : d.tree.WellFormed) :
    (start d config).Charted := by
  refine ⟨sound_start config ht, ⟨rfl, rfl⟩, fun p i hp ↦ ⟨.directory, ?_⟩⟩
  have hroot : p = .root := by
    have hindex : InodeTable.initial.inode? p = if p = .root then some InodeTable.rootInode
        else none :=
      KeyMap.get?_insert _ _ _ _
    by_contra hne
    rw [if_neg hne] at hindex
    cases hindex.symm.trans hp
  rw [hroot]
  exact congrArg (Option.map Node.kind) ht.1

theorem charted_next (h : m.Charted) (e : Event) : (m.next e).Charted := by
  refine ⟨sound_next h.sound e, ?_, ?_⟩
  · cases e with
    | arm op e => exact h.rooted
    | callback caller c => exact (answered m caller c).rooted h.sound h.rooted
  · cases e with
    | arm op e => exact h.mapped
    | callback caller c => exact mapped_answer h.sound h.mapped caller c

theorem charted_run (h : m.Charted) (events : List Event) : (m.run events).Charted := by
  induction events generalizing m with
  | nil => exact h
  | cons e events ih => exact ih (charted_next h e)

/-- Whatever the kernel asks for, and whatever faults are armed in between: the first number is
that of the root and the root has the first number, and every path that has a number is that of
a node. -/
theorem mapped_paths_exist (d : Device) (config : Config) (events : List Event)
    (ht : d.tree.WellFormed) :
    ((start d config).run events).inodes.path? 1 = some .root ∧
    ((start d config).run events).inodes.inode? .root = some 1 ∧
    ∀ p i, ((start d config).run events).inodes.inode? p = some i →
      ∃ node, ((start d config).run events).base.device.tree.get? p = some node := by
  have hrun := charted_run (charted_start config ht) events
  refine ⟨hrun.rooted.path, hrun.rooted.inode, fun p i hp ↦ ?_⟩
  obtain ⟨kind, hk⟩ := hrun.mapped p i hp
  obtain ⟨node, hnode, -⟩ := Option.map_eq_some_iff.1 hk
  exact ⟨node, hnode⟩

section Examples

open Turns (pilot)

def listedLog : List Event :=
  openedLogs ++ .callback pilot madeLog :: renamedLog ++
    [.callback pilot (.readdir 4 0 4096), .callback pilot (.forgetAll [(1, 9), (2, 9), (3, 1)])]

theorem mapped_paths_exist_listedLog :
    ((start Device.px4 .standard).run listedLog).inodes.path? 1 = some .root ∧
    ((start Device.px4 .standard).run listedLog).inodes.inode? keptLog = some 5 ∧
    ∃ node, ((start Device.px4 .standard).run listedLog).base.device.tree.get? keptLog =
      some node := by
  obtain ⟨hroot, -, hmapped⟩ :=
    mapped_paths_exist Device.px4 .standard listedLog Device.wellFormed_px4
  have hkept : ((start Device.px4 .standard).run listedLog).inodes.inode? keptLog = some 5 := by
    decide +kernel
  exact ⟨hroot, hkept, hmapped keptLog 5 hkept⟩

end Examples

end Mount

end RemoteMount
