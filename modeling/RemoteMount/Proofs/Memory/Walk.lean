import Mathlib.Data.List.Nodup
import Mathlib.Data.List.Perm.Subperm
import RemoteMount.Proofs.Memory.Effects
import RemoteMount.Proofs.Memory.Listings

namespace RemoteMount

namespace RemotePath

variable {p q r dir : RemotePath}

theorem exists_child_around (h : p.within dir = true) (hne : p ≠ dir) :
    ∃ q, q ≠ root ∧ q.parent = dir ∧ p.within q = true := by
  obtain ⟨l, hl⟩ := within_iff.1 h
  cases l with
  | nil => exact absurd (segments_injective (by simpa using hl.symm)) hne
  | cons s l =>
    refine ⟨dir.child s, ?_, parent_child s, within_iff.2 ⟨l, ?_⟩⟩
    · intro he
      have hname : (dir.child s).name? = some s.name := name?_child s
      rw [he, name?_root] at hname
      cases hname
    · rw [child, ← hl, List.append_assoc]
      rfl

theorem eq_of_within_of_parent (hp : r.within p = true) (hq : r.within q = true) (hpr : p ≠ root)
    (hqr : q ≠ root) (h : p.parent = q.parent) : p = q := by
  have hdepth : p.depth = q.depth := by rw [depth_parent hpr, depth_parent hqr, h]
  by_contra hne
  rcases within_or_within hp hq with hw | hw
  · have hlt := depth_lt_of_within hw hne
    omega
  · have hlt := depth_lt_of_within hw (Ne.symm hne)
    omega

end RemotePath

namespace Memory

open RemotePath

def Node.found : Node → Found
  | directory => .directory
  | file content => .file content.toBytes

namespace Tree

variable {t : Tree} {p q dir : RemotePath} {node : Node} {row : ListingEntry}
    {rows : List ListingEntry} {n : Nat}

theorem nodup_names_of_childrenOf (t : Tree) (dir : RemotePath) :
    ((t.childrenOf dir).map Prod.fst).Nodup := by
  have hnames : (t.childrenOf dir).map Prod.fst =
      t.keys.filterMap fun p ↦ if p.parent = dir then p.name? else none := by
    rw [childrenOf, KeyMap.keys, List.map_filterMap, List.filterMap_map]
    congr 1
    funext e
    cases hn : e.1.name? <;> by_cases hp : e.1.parent = dir <;> simp [hn, hp]
  rw [hnames]
  refine List.Nodup.filterMap ?_ t.nodup
  intro p q name hp hq
  simp only [Option.mem_def, Option.ite_none_right_eq_some] at hp hq
  exact eq_of_parent_of_name (hp.1.trans hq.1.symm) (hp.2.trans hq.2.symm)

theorem nodup_names_of_listing (h : t.listing dir = .ok rows) :
    (rows.map ListingEntry.name).Nodup := by
  rw [(listing_eq_ok_iff.1 h).2, ListingEntry.sorted]
  refine ((List.mergeSort_perm _ _).map _).nodup_iff.2 ?_
  rw [List.map_map]
  have hname : ListingEntry.name ∘ (fun e : String × Node ↦ e.2.entry e.1) = Prod.fst := by
    funext e
    exact Node.entry_name e.2 e.1
  rw [hname]
  exact nodup_names_of_childrenOf t dir

theorem exists_of_mem_listing (h : t.listing dir = .ok rows) (hr : row ∈ rows) :
    ∃ p node, t.get? p = some node ∧ p ≠ root ∧ p.parent = dir ∧ dir.join row.name = .ok p := by
  obtain ⟨p, name, node, hp, hparent, hname, hrow⟩ := (mem_listing h).1 hr
  refine ⟨p, node, hp, ?_, hparent, ?_⟩
  · intro he
    rw [he, name?_root] at hname
    cases hname
  · rw [hrow, Node.entry_name]
    exact join_eq_ok_iff.2 ⟨hparent, hname⟩

theorem exists_row_of_child (h : t.listing dir = .ok rows) (hp : t.get? p = some node)
    (hr : p ≠ root) (hparent : p.parent = dir) : ∃ row ∈ rows, dir.join row.name = .ok p := by
  obtain ⟨name, hname⟩ := Option.ne_none_iff_exists'.1 (mt name?_eq_none_iff.1 hr)
  refine ⟨node.entry name, (mem_listing h).2 ⟨p, name, node, hp, hparent, hname, rfl⟩, ?_⟩
  rw [Node.entry_name]
  exact join_eq_ok_iff.2 ⟨hparent, hname⟩

def walkRow (t : Tree) (levels : Nat) (dir : RemotePath) (row : ListingEntry) :
    List (RemotePath × Found) :=
  match dir.join row.name with
  | .error _ => []
  | .ok path =>
    match t.get? path with
    | some (.file content) => [(path, .file content.toBytes)]
    | _ => (path, .directory) :: t.walkFrom levels path

theorem walkFrom_succ (h : t.listing dir = .ok rows) :
    t.walkFrom (n + 1) dir = rows.flatMap (t.walkRow n dir) := by
  rw [walkFrom, h]
  rfl

theorem walkFrom_file {content : Content} (h : t.get? p = some (.file content)) :
    t.walkFrom n p = [] := by
  have hlisting : ∀ rows, t.listing p ≠ .ok rows := by
    intro rows hl
    have hd := (listing_eq_ok_iff.1 hl).1
    rw [h] at hd
    cases hd
  cases n with
  | zero => rfl
  | succ n =>
    rw [walkFrom]
    split
    · rfl
    · rename_i rows hl
      exact absurd hl (hlisting rows)

theorem walkRow_eq (hj : dir.join row.name = .ok p) (hp : t.get? p = some node) :
    t.walkRow n dir row = (p, node.found) :: t.walkFrom n p := by
  cases node with
  | directory => simp only [walkRow, hj, hp, Node.found]
  | file content => simp only [walkRow, hj, hp, Node.found, walkFrom_file hp]

/-- A walk of so many levels shows what is below its start and no further down. -/
theorem mem_walkFrom {f : Found} (ht : t.WellFormed) (hdir : t.get? dir = some .directory) :
    (q, f) ∈ t.walkFrom n dir ↔
      (∃ node, t.get? q = some node ∧ f = node.found) ∧ q.within dir = true ∧ q ≠ dir ∧
      q.depth ≤ dir.depth + n := by
  -- By induction on the levels: below a child of the directory there is one level less to go.
  induction n generalizing dir with
  | zero =>
    constructor
    · intro h
      cases h
    · rintro ⟨-, hw, hne, hd⟩
      have hlt := depth_lt_of_within hw hne
      omega
  | succ n ih =>
    have hlisting := listing_eq_ok_iff.2 ⟨hdir, rfl⟩
    rw [walkFrom_succ hlisting, List.mem_flatMap]
    constructor
    · rintro ⟨row, hr, hm⟩
      obtain ⟨p, node, hp, hroot, hparent, hj⟩ := exists_of_mem_listing hlisting hr
      have hdepth : p.depth = dir.depth + 1 := by rw [depth_parent hroot, hparent]
      have hwp : p.within dir = true := hparent ▸ p.within_parent
      rw [walkRow_eq hj hp, List.mem_cons] at hm
      rcases hm with he | hm
      · cases he
        refine ⟨⟨node, hp, rfl⟩, hwp, ?_, by omega⟩
        intro he
        rw [he] at hparent
        exact parent_ne_self (he ▸ hroot) hparent
      · cases node with
        | file content =>
          rw [walkFrom_file hp] at hm
          cases hm
        | directory =>
          obtain ⟨hnode, hw, hne, hd⟩ := (ih hp).1 hm
          refine ⟨hnode, within_trans hw hwp, ?_, by omega⟩
          intro he
          have hlt := depth_lt_of_within hw hne
          rw [he] at hlt
          omega
    · rintro ⟨⟨node, hq, hf⟩, hw, hne, hd⟩
      obtain ⟨p, hroot, hparent, hqp⟩ := exists_child_around hw hne
      have hdepth : p.depth = dir.depth + 1 := by rw [depth_parent hroot, hparent]
      by_cases he : q = p
      · subst he
        obtain ⟨row, hr, hj⟩ := exists_row_of_child hlisting hq hroot hparent
        refine ⟨row, hr, ?_⟩
        rw [walkRow_eq hj hq, hf]
        exact List.mem_cons_self
      · have hp := ht.directory_of_within hq hqp he
        obtain ⟨row, hr, hj⟩ := exists_row_of_child hlisting hp hroot hparent
        refine ⟨row, hr, ?_⟩
        rw [walkRow_eq hj hp]
        exact List.mem_cons_of_mem _ ((ih hp).2 ⟨⟨node, hq, hf⟩, hqp, he, by omega⟩)

theorem within_of_mem_walkRow {f : Found} (ht : t.WellFormed) (hj : dir.join row.name = .ok p)
    (hp : t.get? p = some node) (h : (q, f) ∈ t.walkRow n dir row) : q.within p = true := by
  rw [walkRow_eq hj hp, List.mem_cons] at h
  rcases h with he | h
  · cases he
    exact within_self p
  · cases node with
    | file content =>
      rw [walkFrom_file hp] at h
      cases h
    | directory => exact ((mem_walkFrom ht hp).1 h).2.1

theorem nodup_walkFrom (ht : t.WellFormed) (hdir : t.get? dir = some .directory) :
    ((t.walkFrom n dir).map Prod.fst).Nodup := by
  induction n generalizing dir with
  | zero => exact List.nodup_nil
  | succ n ih =>
    have hlisting := listing_eq_ok_iff.2 ⟨hdir, rfl⟩
    rw [walkFrom_succ hlisting, List.map_flatMap, List.nodup_flatMap]
    constructor
    · intro row hr
      obtain ⟨p, node, hp, hroot, hparent, hj⟩ := exists_of_mem_listing hlisting hr
      rw [walkRow_eq hj hp, List.map_cons, List.nodup_cons]
      cases node with
      | file content => simp [walkFrom_file hp]
      | directory =>
        refine ⟨?_, ih hp⟩
        intro hm
        obtain ⟨e, he, hep⟩ := List.mem_map.1 hm
        exact ((mem_walkFrom ht hp).1 he).2.2.1 hep
    -- What is shown for two rows lies within two children, and no path lies within both.
    · have hnames := List.pairwise_map.1 (nodup_names_of_listing hlisting)
      refine hnames.imp_of_mem ?_
      intro row row' hr hr' hne q hq hq'
      obtain ⟨p, node, hp, hroot, hparent, hj⟩ := exists_of_mem_listing hlisting hr
      obtain ⟨p', node', hp', hroot', hparent', hj'⟩ := exists_of_mem_listing hlisting hr'
      obtain ⟨e, he, rfl⟩ := List.mem_map.1 hq
      obtain ⟨e', he', hee'⟩ := List.mem_map.1 hq'
      have hw := within_of_mem_walkRow ht hj hp he
      have hw' := within_of_mem_walkRow ht hj' hp' he'
      rw [hee'] at hw'
      have hpp' := eq_of_within_of_parent hw hw' hroot hroot' (hparent.trans hparent'.symm)
      rw [hpp'] at hj
      have hn := (join_eq_ok_iff.1 hj).2
      have hn' := (join_eq_ok_iff.1 hj').2
      exact hne (Option.some_inj.1 (hn.symm.trans hn'))

/-- The ancestors of a node are nodes too, so no way down has more levels than there are
nodes. -/
theorem depth_lt_size (ht : t.WellFormed) (hp : t.get? p = some node) : p.depth < t.size := by
  -- The path and its ancestors differ in their depths, so there is one more of them than it is
  -- deep.
  have hnodup : ((List.range (p.depth + 1)).map fun k ↦
      RemotePath.mk (p.segments.take k)).Nodup := by
    refine List.Nodup.map_on ?_ List.nodup_range
    intro j hj k hk he
    have hlength := congrArg (List.length ∘ segments) he
    simp only [Function.comp_apply, List.length_take, List.mem_range, depth] at hlength hj hk
    omega
  have hsubset : ((List.range (p.depth + 1)).map fun k ↦ RemotePath.mk (p.segments.take k)) ⊆
      t.keys := by
    intro q hq
    obtain ⟨k, -, rfl⟩ := List.mem_map.1 hq
    rw [KeyMap.mem_keys_iff]
    by_cases he : p = ⟨p.segments.take k⟩
    · rw [← he, hp]
      rfl
    · rw [ht.directory_of_within hp (within_iff.2 (List.take_prefix k _)) he]
      rfl
  have hle := (List.subperm_of_subset hnodup hsubset).length_le
  simp only [List.length_map, List.length_range] at hle
  have hsize : t.keys.length = t.size := List.length_map _
  omega

/-- Together with the root, a walk from there shows every node of a well-formed tree once. -/
theorem walk_perm (ht : t.WellFormed) :
    ((root, .directory) :: t.walk).Perm (t.toList.map fun e ↦ (e.1, e.2.found)) := by
  have hwalk : ∀ q f, (q, f) ∈ t.walk ↔ (∃ node, t.get? q = some node ∧ f = node.found) ∧
      q ≠ root := by
    intro q f
    rw [walk, mem_walkFrom ht ht.1]
    constructor
    · rintro ⟨hnode, -, hne, -⟩
      exact ⟨hnode, hne⟩
    · rintro ⟨⟨node, hq, hf⟩, hne⟩
      have hlt := depth_lt_size ht hq
      exact ⟨⟨node, hq, hf⟩, within_root q, hne, by omega⟩
  have hnodup : ((root, Found.directory) :: t.walk).Nodup := by
    refine List.nodup_cons.2 ⟨?_, (nodup_walkFrom ht ht.1).of_map⟩
    intro hm
    exact ((hwalk _ _).1 hm).2 rfl
  have hnodup' : (t.toList.map fun e ↦ (e.1, e.2.found)).Nodup := by
    refine List.Nodup.of_map Prod.fst ?_
    rw [List.map_map]
    exact t.nodup
  -- Neither list shows anything twice, so it is enough that they show the same.
  refine (List.perm_ext_iff_of_nodup hnodup hnodup').2 ?_
  rintro ⟨q, f⟩
  simp only [List.mem_cons, hwalk, List.mem_map, Prod.mk.injEq, Prod.exists,
    ← KeyMap.get?_eq_some_iff]
  constructor
  · rintro (⟨rfl, rfl⟩ | ⟨⟨node, hq, rfl⟩, -⟩)
    · exact ⟨root, .directory, ht.1, rfl, rfl⟩
    · exact ⟨q, node, hq, rfl, rfl⟩
  · rintro ⟨p, node, hp, rfl, rfl⟩
    by_cases he : p = root
    · subst he
      rw [ht.1, Option.some_inj] at hp
      subst hp
      exact .inl ⟨rfl, rfl⟩
    · exact .inr ⟨⟨node, hp, rfl⟩, he⟩

end Tree

namespace Device

/-- What a device meets from outside: requests, and faults that are armed. -/
inductive Event
  | request (r : Request)
  | arm (op : RemoteOp) (e : RemoteError)

def after (d : Device) : Event → Device
  | .request r => (d.answer r).2
  | .arm op e => d.armFault op e

def run (d : Device) (events : List Event) : Device := events.foldl after d

variable {d : Device}

theorem wellFormed_answer (ht : d.tree.WellFormed) (r : Request) : (d.answer r).2.tree.WellFormed :=
  (answer_effect d r).wellFormed ht

theorem wellFormed_run (ht : d.tree.WellFormed) (events : List Event) :
    (d.run events).tree.WellFormed := by
  induction events generalizing d with
  | nil => exact ht
  | cons event events ih =>
    cases event with
    | request r => exact ih (wellFormed_answer ht r)
    | arm op e => exact ih (d := d.armFault op e) ht

theorem wellFormed_empty (capacity : UInt64) : (empty capacity).tree.WellFormed := by
  change Tree.WellFormed (KeyMap.empty.insert .root .directory)
  decide

theorem wellFormed_px4 : px4.tree.WellFormed := by decide

theorem answer_listdir (hf : d.faults.get? .listdir = none) (dir : RemotePath) :
    (d.answer (.listdir dir)).1 = d.tree.listing dir := by
  rw [answer_of_no_fault hf]
  rfl

/-- Requests keep the root a directory and every node in one, whatever faults are armed and
whatever is answered. So on a device that began empty, or with directories for logs, walking by
listings from the root shows every node once, and nothing else. -/
theorem requests_keep_shape :
    (∀ (d : Device) (r : Request), d.tree.WellFormed → (d.answer r).2.tree.WellFormed) ∧
    ∀ (d : Device) (events : List Event), (d = px4 ∨ ∃ capacity, d = empty capacity) →
      ((root, .directory) :: (d.run events).tree.walk).Perm
        ((d.run events).tree.toList.map fun e ↦ (e.1, e.2.found)) ∧
      ((d.run events).faults.get? .listdir = none →
        ∀ dir, ((d.run events).answer (.listdir dir)).1 = (d.run events).tree.listing dir) := by
  refine ⟨fun d r ht ↦ wellFormed_answer ht r, fun d events hd ↦ ?_⟩
  have ht : d.tree.WellFormed := by
    rcases hd with rfl | ⟨capacity, rfl⟩
    · exact wellFormed_px4
    · exact wellFormed_empty capacity
  exact ⟨Tree.walk_perm (wellFormed_run ht events), answer_listdir⟩

section Examples

def flight : RemotePath := logDirectory.child ⟨"flight", by decide⟩

def storage : RemotePath := ⟨[⟨"storage", by decide⟩]⟩

def movedLogs : List Event :=
  [.request (.mkdir flight), .request
    (.openFile (flight.child ⟨"first.ulg", by decide⟩) .createWrite),
    .request (.write 0 [1, 2]), .arm .rename .timeout, .request (.rename logDirectory storage),
    .request (.rename logDirectory storage)]

theorem requests_keep_shape_movedLogs :
    (px4.answer (.rename logDirectory storage)).2.tree.WellFormed ∧
    ((root, .directory) :: (px4.run movedLogs).tree.walk).Perm
      ((px4.run movedLogs).tree.toList.map fun e ↦ (e.1, e.2.found)) ∧
    ((px4.run movedLogs).answer (.listdir storage)).1 = (px4.run movedLogs).tree.listing storage :=
  ⟨requests_keep_shape.1 px4 (.rename logDirectory storage) (by decide),
    (requests_keep_shape.2 px4 movedLogs (.inl rfl)).1,
    (requests_keep_shape.2 px4 movedLogs (.inl rfl)).2 (by decide +kernel) storage⟩

end Examples

end Device

end Memory

end RemoteMount
