import RemoteMount.Proofs.Memory.Walk
import RemoteMount.Proofs.WrittenPaths

namespace RemoteMount

open RemotePath

/-- Paths in one directory are ordered like their names. -/
theorem RemotePath.bytes_child_lt {s t : Segment} (dir : RemotePath) (h : s.name < t.name) :
    (dir.child s).bytes < (dir.child t).bytes := by
  have hbytes (s : Segment) : (dir.child s).bytes =
      (dir.components.map Text.encode).flatMap (slashByte :: ·) ++
        slashByte :: Text.encode s.name := by
    rw [bytes_eq_write, components_child, List.map_append, PathText.write_of_ne_nil _ (by simp)]
    simp
  rw [hbytes, hbytes]
  exact List.append_left_lt (List.cons_lt_cons_iff.2 (.inr ⟨rfl, Text.encode_lt_encode_iff.2 h⟩))

namespace Memory

theorem Node.toNat_entry_size {node : Node} (h : node.length < UInt64.size) (name : String) :
    (node.entry name).size.toNat = node.length := by
  cases node with
  | directory => rfl
  | file content => exact UInt64.toNat_ofNat_of_lt' h

namespace Tree

variable {t : Tree} {dir p q : RemotePath} {node : Node} {row : ListingEntry}
    {rows : List ListingEntry}

def inOrder (t : Tree) : List (RemotePath × Node) :=
  t.toList.mergeSort fun e e' ↦ decide (e.1.bytes ≤ e'.1.bytes)

def rowIn (dir : RemotePath) (e : RemotePath × Node) : Option ListingEntry :=
  if !e.1.isRoot && e.1.parent = dir then e.1.name?.map e.2.entry else none

/-- The rows of a directory, found by going through all nodes in order. -/
def scan (t : Tree) (dir : RemotePath) : List ListingEntry := t.inOrder.filterMap (rowIn dir)

theorem rowIn_child (dir : RemotePath) (s : Segment) (node : Node) :
    rowIn dir (dir.child s, node) = some (node.entry s.name) := by
  simp [rowIn]

theorem rowIn_eq_some_iff {e : RemotePath × Node} :
    rowIn dir e = some row ↔ ∃ s, e.1 = dir.child s ∧ row = e.2.entry s.name := by
  constructor
  · intro h
    unfold rowIn at h
    split at h
    · rename_i hin
      simp only [Bool.and_eq_true, Bool.not_eq_true', decide_eq_true_eq, ← Bool.not_eq_true,
        isRoot_iff] at hin
      rcases e.1.eq_root_or_child with hroot | ⟨s, hs⟩
      · exact absurd hroot hin.1
      · rw [hin.2] at hs
        rw [hs, name?_child, Option.map_some, Option.some_inj] at h
        exact ⟨s, hs, h.symm⟩
    · cases h
  · intro h
    obtain ⟨s, hs, rfl⟩ := h
    obtain ⟨p, node⟩ := e
    obtain rfl : p = dir.child s := hs
    exact rowIn_child dir s node

theorem pairwise_inOrder (t : Tree) : t.inOrder.Pairwise fun e e' ↦ e.1.bytes ≤ e'.1.bytes := by
  unfold inOrder
  refine (List.pairwise_mergeSort ?_ ?_ t.toList).imp of_decide_eq_true
  · intro e e' e'' h h'
    simp only [decide_eq_true_eq] at h h' ⊢
    exact List.le_trans h h'
  · intro e e'
    simpa using List.le_total e.1.bytes e'.1.bytes

theorem pairwise_scan (t : Tree) (dir : RemotePath) :
    (t.scan dir).Pairwise fun a b ↦ a.name ≤ b.name := by
  refine t.pairwise_inOrder.filterMap _ ?_
  intro e e' hle row hrow row' hrow'
  obtain ⟨s, hs, rfl⟩ := rowIn_eq_some_iff.1 hrow
  obtain ⟨s', hs', rfl⟩ := rowIn_eq_some_iff.1 hrow'
  rw [Node.entry_name, Node.entry_name]
  intro hlt
  rw [hs, hs'] at hle
  exact hle (bytes_child_lt dir hlt)

theorem scan_perm (h : t.listing dir = .ok rows) : (t.scan dir).Perm rows := by
  have hrow : (t.childrenOf dir).map (fun e ↦ e.2.entry e.1) = t.toList.filterMap (rowIn dir) := by
    rw [childrenOf, List.map_filterMap]
    congr 1
    funext e
    obtain ⟨p, node⟩ := e
    rcases p.eq_root_or_child with hp | ⟨s, hp⟩
    · simp [rowIn, hp]
    · generalize p.parent = d at hp
      subst hp
      by_cases hd : d = dir <;> simp [rowIn, hd]
  rw [(listing_eq_ok_iff.1 h).2, ListingEntry.sorted, hrow]
  exact ((List.mergeSort_perm _ _).filterMap _).trans (List.mergeSort_perm _ _).symm

theorem pairwise_listing (h : t.listing dir = .ok rows) :
    rows.Pairwise fun a b ↦ a.name < b.name := by
  have hsorted : rows.Pairwise fun a b ↦ a.name ≤ b.name := by
    rw [(listing_eq_ok_iff.1 h).2, ListingEntry.sorted]
    refine (List.pairwise_mergeSort ?_ ?_ _).imp of_decide_eq_true
    · intro a b c hab hbc
      simp only [decide_eq_true_eq] at hab hbc ⊢
      exact String.le_trans hab hbc
    · intro a b
      simpa using String.le_total a.name b.name
  have hnames : rows.Pairwise fun a b ↦ a.name ≠ b.name :=
    List.pairwise_map.1 (nodup_names_of_listing h)
  refine (hsorted.and hnames).imp ?_
  intro a b hab
  rw [← String.not_le]
  exact fun hba ↦ hab.2 (String.le_antisymm hab.1 hba)

/-- Going through the nodes in the order of their paths, one meets the rows in the order of
their names. -/
theorem listing_eq_scan (h : t.listing dir = .ok rows) : rows = t.scan dir := by
  have hsorted : rows.Pairwise fun a b ↦ a.name ≤ b.name :=
    (pairwise_listing h).imp fun hab ↦ String.lt_asymm hab
  refine List.Perm.eq_of_pairwise ?_ hsorted (t.pairwise_scan dir) (scan_perm h).symm
  intro a b ha hb hab hba
  have hb' := (scan_perm h).mem_iff.1 hb
  exact List.inj_on_of_nodup_map (nodup_names_of_listing h) ha hb' (String.le_antisymm hab hba)

end Tree

namespace Device

variable {d : Device}

/-- Listing a directory shows each node right in it once, and nothing else, with the length it
has now. What is no directory is not listed. The rows come in the order of the bytes of their
names. -/
theorem listdir_shows_children (hd : d.tree.WellFormed) (hfit : d.tree.Fits)
    (hf : d.faults.get? .listdir = none) (dir : RemotePath) :
    ((∃ rows, (d.answer (.listdir dir)).1 = .ok rows) ↔ d.tree.get? dir = some .directory) ∧
    (∀ p node, d.tree.get? p = some node → p ≠ root → p.parent = dir →
      ∃ rows, (d.answer (.listdir dir)).1 = .ok rows ∧ ∃! row,
        row ∈ rows ∧ dir.join row.name = .ok p) ∧
    ∀ rows, (d.answer (.listdir dir)).1 = .ok rows →
      rows = d.tree.scan dir ∧ (rows.Pairwise fun a b ↦ Text.encode a.name < Text.encode b.name) ∧
      ∀ row ∈ rows, IsSegment row.name ∧ ∃ p node, dir.join row.name = .ok p ∧
      d.tree.get? p = some node ∧ p ≠ root ∧
        p.parent = dir ∧ row.kind = node.kind ∧ row.size.toNat = node.length := by
  rw [answer_listdir hf]
  have hlisted : (∃ rows, d.tree.listing dir = .ok rows) ↔ d.tree.get? dir = some .directory := by
    simp [Tree.listing_eq_ok_iff]
  refine ⟨hlisted, ?_, ?_⟩
  · intro p node hp hr hparent
    have hkey : p ∈ d.tree.keys := by
      rw [KeyMap.mem_keys_iff, hp]
      rfl
    have hdirectory : d.tree.get? dir = some .directory := hparent ▸ hd.2 p hkey
    obtain ⟨rows, hrows⟩ := hlisted.2 hdirectory
    obtain ⟨row, hrow, hj⟩ := Tree.exists_row_of_child hrows hp hr hparent
    refine ⟨rows, hrows, row, ⟨hrow, hj⟩, ?_⟩
    intro row' hx
    obtain ⟨hrow', hj'⟩ := hx
    have hname : row'.name = row.name := by
      have hlast := (join_eq_ok_iff.1 hj').2.symm.trans (join_eq_ok_iff.1 hj).2
      exact Option.some_inj.1 hlast
    exact List.inj_on_of_nodup_map (Tree.nodup_names_of_listing hrows) hrow' hrow hname
  · intro rows hrows
    refine ⟨Tree.listing_eq_scan hrows,
      (Tree.pairwise_listing hrows).imp Text.encode_lt_encode_iff.2, ?_⟩
    intro row hrow
    obtain ⟨p, node, hp, hr, hparent, hj⟩ := Tree.exists_of_mem_listing hrows hrow
    obtain ⟨node', hp', hrow'⟩ := Tree.node_of_listing hrows hrow hj
    obtain rfl : node' = node := Option.some_inj.1 (hp'.symm.trans hp)
    refine ⟨(join_eq_ok_iff_components.1 hj).1, p, node', hj, hp, hr, hparent, ?_, ?_⟩
    · rw [hrow', Node.entry_kind]
    · rw [hrow', Node.toNat_entry_size
        (Tree.fits_iff.1 hfit (p, node') (KeyMap.get?_eq_some_iff.1 hp))]

section Examples

theorem isSegment_raw : IsSegment "raw" := by decide

theorem isSegment_part : IsSegment "part" := by decide

theorem isSegment_rawAccented : IsSegment "raw.é" := by decide

def rawDirectory : RemotePath := storage.child ⟨"raw", isSegment_raw⟩

def rawAccented : RemotePath := storage.child ⟨"raw.é", isSegment_rawAccented⟩

def neighbours : Device := (empty 8).run
  [.request (.mkdir storage), .request (.mkdir rawDirectory),
    .request (.openFile (rawDirectory.child ⟨"part", isSegment_part⟩) .createWrite),
    .request (.openFile rawAccented .createWrite), .request (.write 1 [1, 2])]

theorem listdir_shows_children_neighbours :
    neighbours.tree.WellFormed ∧ neighbours.tree.Fits ∧ neighbours.faults.get? .listdir = none ∧
    ∃ rows, (neighbours.answer (.listdir storage)).1 = .ok rows ∧
      (rows.Pairwise fun a b ↦ Text.encode a.name < Text.encode b.name) ∧
      ∃! row, row ∈ rows ∧ storage.join row.name = .ok rawAccented := by
  have hd : neighbours.tree.WellFormed := by decide +kernel
  have hfit : neighbours.tree.Fits := by decide +kernel
  have hf : neighbours.faults.get? .listdir = none := by decide +kernel
  have hsome : (neighbours.tree.get? rawAccented).isSome = true := by decide +kernel
  obtain ⟨node, hp⟩ := Option.isSome_iff_exists.1 hsome
  obtain ⟨-, hshown, hrows⟩ := listdir_shows_children hd hfit hf storage
  obtain ⟨rows, hlisted, hrow⟩ := hshown _ _ hp (child_ne_root _) (parent_child _)
  exact ⟨hd, hfit, hf, rows, hlisted, (hrows rows hlisted).2.1, hrow⟩

end Examples

end Device

end Memory

end RemoteMount
