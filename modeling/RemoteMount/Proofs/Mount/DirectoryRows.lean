import RemoteMount.Proofs.Mount.LookupAccounts
import RemoteMount.Proofs.RepeatedGetattr

namespace RemoteMount

open RemotePath

namespace Mount

open InodeTable (rootInode)

section Rows

variable {t t' : InodeTable} {dir : RemotePath} {ino parentIno index : Nat}
    {rows : List Filesystem.DirectoryRow}
variable {children : List InodeRow}

theorem peeked_of_numberRows {x : Except CallError (List InodeRow)}
    (h : numberRows dir ino parentIno index t rows = (x, t')) : Peeked t t' := by
  have hpeeked : Peeked t (numberRows dir ino parentIno index t rows).2 := peeked_numberRows ..
  rwa [h] at hpeeked

def Numbered (dir : RemotePath) (t : InodeTable) (children : List InodeRow) : Prop :=
  ∀ row ∈ children, ∃ q, dir.join row.name = .ok q ∧ t.inode? q = some row.ino

theorem Numbered.path? (h : Numbered dir t children) (ht : t.Sound) :
    ∀ row ∈ children, ∃ q, dir.join row.name = .ok q ∧ t.path? row.ino = some q := by
  intro row hrow
  obtain ⟨q, hjoin, hq⟩ := h row hrow
  exact ⟨q, hjoin, ht.path_of_inode q row.ino hq⟩

/-- Rows have one number exactly if they have one name. -/
theorem Numbered.ino_eq_iff {row row' : InodeRow} (h : Numbered dir t children) (ht : t.Sound)
    (hrow : row ∈ children)
    (hrow' : row' ∈ children) : row.ino = row'.ino ↔ row.name = row'.name := by
  obtain ⟨q, hjoin, hq⟩ := h row hrow
  obtain ⟨q', hjoin', hq'⟩ := h row' hrow'
  constructor
  · intro hino
    rw [← hino] at hq'
    obtain rfl := ht.inode_injective hq hq'
    exact Option.some_inj.1 ((join_eq_ok_iff.1 hjoin).2.symm.trans (join_eq_ok_iff.1 hjoin').2)
  · intro hname
    rw [hname] at hjoin
    obtain rfl := Except.ok.inj (hjoin.symm.trans hjoin')
    exact Option.some_inj.1 (hq.symm.trans hq')

theorem numberRows_children (dir : RemotePath) (ino parentIno index : Nat) (ht : t.Sound)
    (h : ∀ row ∈ rows, IsSegment row.name) :
    ∃ children t', numberRows dir ino parentIno index t rows = (.ok children, t') ∧
      children.map (fun row ↦ (⟨row.name, row.kind⟩ : Filesystem.DirectoryRow)) = rows ∧
      children.map InodeRow.next = List.range' (index + 1) rows.length ∧
      Numbered dir t' children := by
  induction rows generalizing t index with
  | nil => exact ⟨[], t, rfl, rfl, rfl, nofun⟩
  | cons row rows ih =>
    obtain ⟨hname, hnames⟩ := List.forall_mem_cons.1 h
    have hjoin := join_of_isSegment dir hname
    have hnumbers := InodeTable.peek_numbers ht (dir.child ⟨row.name, hname⟩)
    have hrow : rowInode t dir ino parentIno row.name =
        .ok (t.peek (dir.child ⟨row.name, hname⟩)) := by
      rw [rowInode, if_neg hname.2.1, if_neg hname.2.2.1, hjoin]
    generalize t.peek (dir.child ⟨row.name, hname⟩) = x at hnumbers hrow
    obtain ⟨children, t', hrest, hrows, hnext, hchildren⟩ :=
      ih (index + 1) (hnumbers.sound ht) hnames
    -- The other rows leave the path of the first with its number.
    have hpeeked := peeked_of_numberRows hrest
    refine ⟨⟨x.1, index + 1, row.kind, row.name⟩ :: children, t', ?_, ?_, ?_,
      List.forall_mem_cons.2 ⟨?_, hchildren⟩⟩
    · rw [numberRows, hrow]
      dsimp only
      rw [hrest]
    · rw [List.map_cons, hrows]
    · rw [List.map_cons, hnext, List.length_cons, List.range'_succ]
    · refine ⟨_, hjoin, hpeeked.inode? (hnumbers.sound ht) ?_⟩
      rw [hnumbers.inode, if_pos rfl]

theorem numberRows_dots (h : numberRows dir ino parentIno 2 t rows = (.ok children, t')) :
    numberRows dir ino parentIno 0 t (⟨".", .directory⟩ :: ⟨"..", .directory⟩ :: rows) =
      (.ok (⟨ino, 1, .directory, "."⟩ :: ⟨parentIno, 2, .directory, ".."⟩ :: children), t') := by
  have hself : rowInode t dir ino parentIno "." = .ok (ino, t) := rfl
  have hparent : rowInode t dir ino parentIno ".." = .ok (parentIno, t) := rfl
  simp only [numberRows, hself, hparent, h]

end Rows

section Listing

variable {σ : Type} [RemoteDevice σ] {m : Mount σ} {caller : Caller} {ino i : Nat}
    {dir q : RemotePath} {name : String}
variable {listed : List ListingEntry} {a : FileAttributes}

theorem ino_of_lookup (h : (m.lookup caller ino (.text name)).1 = .ok a)
    (hdir : m.inodes.path? ino = some dir)
    (hjoin : dir.join name = .ok q) (hq : m.inodes.inode? q = some i) : a.ino = i := by
  have hchild : m.childOf ino (.text name) = .ok q := by
    have hpath : m.pathOf ino = .ok dir := by
      rw [pathOf, hdir]
    rw [childOf, hpath]
    exact congrArg (Except.mapError CallError.ofInvalidPath) hjoin
  rw [lookup, hchild] at h
  dsimp only [entryFor, call_eq] at h
  generalize (Filesystem.getattr m.config.policy caller q).run m.base = x at h
  obtain ⟨x, b⟩ := x
  cases x with
  | error e => cases h
  | ok record =>
    cases h
    change (m.inodes.lookup q).1 = i
    rw [InodeTable.lookup, hq]

theorem allRows_eq {children : List InodeRow} {t : InodeTable} (caller : Caller)
    (hdir : m.inodes.path? ino = some dir)
    (hlisted : (RemoteDevice.answer (.listdir dir) m.base.device).1 = .ok listed)
    (h : numberRows dir ino ((m.inodes.inode? dir.parent).getD rootInode) 2 m.inodes
      (Filesystem.childRows listed) = (.ok children, t)) :
    ∃ b, m.allRows caller ino = (.ok (⟨ino, 1, .directory, "."⟩ ::
      ⟨(m.inodes.inode? dir.parent).getD rootInode, 2, .directory, ".."⟩ :: children),
        ⟨b, t, m.config⟩) := by
  have hread := Filesystem.run_readdir_of_ok m.config.policy caller hlisted
  unfold allRows pathOf
  rw [hdir]
  dsimp only
  rw [call_eq]
  generalize (Filesystem.readdir m.config.policy caller dir).run m.base = x at hread ⊢
  obtain ⟨x, b⟩ := x
  obtain rfl : x = _ := hread
  refine ⟨b, ?_⟩
  dsimp only
  rw [numberRows_dots h]

/-- The rows of a directory's children, and the mount after they were numbered. -/
structure Lists (m : Mount σ) (ino : Nat) (dir : RemotePath) (listed : List ListingEntry)
    (children : List InodeRow) (m' : Mount σ) : Prop where
  shown : children.map (fun row ↦ (⟨row.name, row.kind⟩ : Filesystem.DirectoryRow)) =
    Filesystem.childRows listed
  next : children.map InodeRow.next = List.range' 3 children.length
  child : ∀ row ∈ children, ∃ q, dir.join row.name = .ok q ∧ m'.inodes.path? row.ino = some q
  shared : ∀ row ∈ children, ∀ row' ∈ children, row.ino = row'.ino ↔ row.name = row'.name
  held : ∀ i, m'.inodes.held i = m.inodes.held i
  lookups : ∀ i n, m.inodes.lookups? i = some n → m'.inodes.lookups? i = some n
  looked : ∀ row ∈ children, ∀ d caller a,
    ((m'.happen (.device d)).lookup caller ino (.text row.name)).1 = .ok a →
    a.ino = row.ino

theorem allRows_of_listed (caller : Caller) (hm : m.inodes.Sound)
    (hdir : m.inodes.path? ino = some dir)
    (hlisted : (RemoteDevice.answer (.listdir dir) m.base.device).1 = .ok listed) :
    ∃ children m', m.allRows caller ino = (.ok (⟨ino, 1, .directory, "."⟩ ::
        ⟨(m.inodes.inode? dir.parent).getD rootInode, 2, .directory, ".."⟩ :: children), m') ∧
      m.Lists ino dir listed children m' := by
  have hsegments : ∀ row ∈ Filesystem.childRows listed, IsSegment row.name :=
    fun _ ↦ Filesystem.isSegment_of_mem_childRows
  obtain ⟨children, t, hnumber, hrows, hnext, hnumbered⟩ := numberRows_children dir ino
    ((m.inodes.inode? dir.parent).getD rootInode) 2 hm hsegments
  have hpeeked := peeked_of_numberRows hnumber
  have hsound := hpeeked.sound hm
  have hlength : children.length = (Filesystem.childRows listed).length := by
    rw [← hrows, List.length_map]
  obtain ⟨b, hall⟩ := allRows_eq caller hdir hlisted hnumber
  refine ⟨children, ⟨b, t, m.config⟩, hall, hrows, ?_, hnumbered.path? hsound, ?_, ?_, ?_, ?_⟩
  · rw [hnext, hlength]
  · exact fun row hrow row' hrow' ↦ hnumbered.ino_eq_iff hsound hrow hrow'
  · exact fun i ↦ hpeeked.held hm
  · exact fun i n ↦ hpeeked.lookups? hm
  · intro row hrow d caller a ha
    obtain ⟨q, hjoin, hq⟩ := hnumbered row hrow
    exact ino_of_lookup ha (hpeeked.path? hm hdir) hjoin hq

/-- Whatever names a device lists, a directory can be read. Its rows are those for itself and
its parent, and then one for each entry that is listed under the name of a child, in the order
and with the kinds of the device. -/
theorem readdir_shows_children (d : σ) (config : Config) (happenings : List (Happening σ))
    (caller : Caller)
    (hm : (start d config).after happenings = m) (hdir : m.inodes.path? ino = some dir)
    (hlisted : (RemoteDevice.answer (.listdir dir) m.base.device).1 = .ok listed) :
    ∃ rows children m', rows = ⟨ino, 1, .directory, "."⟩ ::
        ⟨(m.inodes.inode? dir.parent).getD rootInode, 2, .directory, ".."⟩ :: children ∧
      m.allRows caller ino = (.ok rows, m') ∧
      (∀ buffer offset, readdirInto buffer m caller ino offset =
        (.ok (buffer.taken (rows.drop offset.toNat)), m')) ∧
      m.Lists ino dir listed children m' := by
  subst hm
  have hsound := sound_after (m := start d config) InodeTable.sound_initial happenings
  obtain ⟨children, m', hall, hlists⟩ := allRows_of_listed caller hsound hdir hlisted
  refine ⟨_, children, m', rfl, hall, fun buffer offset ↦ ?_, hlists⟩
  rw [readdirInto_eq, hall]
  rfl

end Listing

section Examples

open Filesystem (bentRoot visitor)
open Memory (Device)
open Scenario (Scripted)

def hostileRows : List ListingEntry :=
  [.file "g" 1, .directory "", .file "." 2, .directory "..", .file "a/b" 3, .file "b\x00" 4,
    .directory "f", .directory "g"]

def lookedUpChild : Mount (Scripted Device) :=
  (start (bentRoot hostileRows) .standard).after [.callback visitor (.lookup 1 (.text "f"))]

theorem readdir_shows_children_hostileRows : ∃ children m',
    lookedUpChild.allRows visitor 1 =
      (.ok (⟨1, 1, .directory, "."⟩ :: ⟨1, 2, .directory, ".."⟩ :: children), m') ∧
    children.map InodeRow.name = ["g", "f", "g"] ∧ m'.inodes.lookups? 2 = some 1 := by
  have hroot : lookedUpChild.inodes.path? 1 = some .root := by decide +kernel
  have hlisted : (RemoteDevice.answer (.listdir .root) lookedUpChild.base.device).1 =
      .ok hostileRows := by
    decide +kernel
  obtain ⟨_, children, m', rfl, hall, -, hlists⟩ :=
    readdir_shows_children (bentRoot hostileRows) .standard
    [.callback visitor (.lookup 1 (.text "f"))] visitor rfl hroot hlisted
  have hnames : children.map InodeRow.name =
      (Filesystem.childRows hostileRows).map Filesystem.DirectoryRow.name := by
    rw [← hlists.shown, List.map_map]
    rfl
  refine ⟨children, m', hall, ?_, hlists.lookups 2 1 (by decide +kernel)⟩
  rw [hnames]
  decide +kernel

end Examples

end Mount

end RemoteMount
