import RemoteMount.Proofs.Memory.Walk

namespace RemoteMount.Memory

open RemotePath

namespace Tree

variable {t : Tree} {p q dir : RemotePath} {node : Node} {data : Bytes}

/-- Walking by listings from the root shows every node once. -/
def WalkedWhole (t : Tree) : Prop :=
  ((root, .directory) :: t.walk).Perm (t.toList.map fun e ↦ (e.1, e.2.found))

def ClearAbove (t : Tree) (p : RemotePath) : Prop :=
  ∀ q ∈ t.keys, p.within q = true → q ≠ p → t.get? q = some .directory

instance (t : Tree) (p : RemotePath) : Decidable (t.ClearAbove p) :=
  inferInstanceAs (Decidable (∀ q ∈ t.keys, _))

theorem clearAbove_iff :
    t.ClearAbove p ↔ ∀ q node, t.get? q = some node → p.within q = true → q ≠ p →
    node = .directory := by
  simp only [ClearAbove, KeyMap.mem_keys_iff, Option.isSome_iff_exists]
  constructor
  · intro h q node hq hw hne
    have hd := h q ⟨node, hq⟩ hw hne
    rw [hq] at hd
    exact Option.some_inj.1 hd
  · rintro h q ⟨node, hq⟩ hw hne
    rw [hq, h q node hq hw hne]

theorem parent_of_mem_walkFrom {f : Found} {n : Nat} (h : (q, f) ∈ t.walkFrom n dir) :
    t.get? q.parent = some .directory := by
  induction n generalizing dir with
  | zero => cases h
  | succ n ih =>
    cases hlisting : t.listing dir with
    | error e =>
      rw [walkFrom, hlisting] at h
      cases h
    | ok rows =>
      rw [walkFrom_succ hlisting, List.mem_flatMap] at h
      obtain ⟨row, hr, hm⟩ := h
      obtain ⟨p, node, hp, -, hparent, hj⟩ := exists_of_mem_listing hlisting hr
      rw [walkRow_eq hj hp, List.mem_cons] at hm
      rcases hm with he | hm
      · cases he
        rw [hparent]
        exact (listing_eq_ok_iff.1 hlisting).1
      · exact ih hm

/-- A tree that is not well-formed has nodes that no walk comes to. -/
theorem walkedWhole_iff : t.WalkedWhole ↔ t.WellFormed := by
  refine ⟨fun h ↦ ?_, walk_perm⟩
  have hroot : t.get? root = some .directory := by
    obtain ⟨⟨q, node⟩, hm, he⟩ := List.mem_map.1 (h.mem_iff.1 List.mem_cons_self)
    obtain ⟨rfl, hf⟩ := Prod.mk.inj he
    rw [KeyMap.get?_eq_some_iff.2 hm]
    cases node with
    | directory => rfl
    | file content => exact absurd hf (by simp [Node.found])
  refine wellFormed_iff.2 ⟨hroot, fun q hq ↦ ?_⟩
  obtain ⟨node, hnode⟩ := Option.isSome_iff_exists.1 hq
  have hshown : (q, node.found) ∈ (root, Found.directory) :: t.walk :=
    h.mem_iff.2 (List.mem_map.2 ⟨(q, node), KeyMap.get?_eq_some_iff.1 hnode, rfl⟩)
  rcases List.mem_cons.1 hshown with he | hm
  · obtain ⟨rfl, -⟩ := Prod.mk.inj he
    exact hroot
  · exact parent_of_mem_walkFrom hm

theorem on_way_iff {s : Segment} (hp : p.within (dir.child s) = true) :
    q ≠ dir ∧ q.within dir = true ∧ p.within q = true ↔
      q = dir.child s ∨ q ≠ dir.child s ∧ q.within (dir.child s) = true ∧ p.within q = true := by
  have hchild : (dir.child s).within dir = true := by
    have hw := (dir.child s).within_parent
    rwa [parent_child] at hw
  have hne : dir.child s ≠ dir := by
    intro he
    have hroot : dir.child s ≠ root := child_ne_root s
    have hparent := parent_ne_self hroot
    rw [parent_child] at hparent
    exact hparent he.symm
  constructor
  · rintro ⟨hqd, hw, hpq⟩
    by_cases hq : q = dir.child s
    · exact .inl hq
    · obtain ⟨c, hc, hparent, hqc⟩ := exists_child_around hw hqd
      have hcs : c = dir.child s :=
        eq_of_within_of_parent (within_trans hpq hqc) hp hc (child_ne_root s)
        (hparent.trans (parent_child s).symm)
      exact .inr ⟨hq, hcs ▸ hqc, hpq⟩
  · rintro (rfl | ⟨-, hw, hpq⟩)
    · exact ⟨hne, hchild, hp⟩
    · refine ⟨?_, within_trans hw hchild, hpq⟩
      rintro rfl
      exact hne (within_antisymm hchild hw)

/-- Filling leaves what is there, and puts directories on the rest of the way. -/
theorem get?_fillDirectories (t : Tree) (dir : RemotePath) (l : List Segment) (q : RemotePath) :
    (t.fillDirectories dir l).get? q =
      (t.get? q).or (if q ≠ dir ∧ q.within dir = true ∧
        (RemotePath.mk (dir.segments ++ l)).within q = true
        then some .directory else none) := by
  induction l generalizing t dir with
  | nil =>
    have hnone : ¬(q ≠ dir ∧ q.within dir = true ∧
        (RemotePath.mk (dir.segments ++ [])).within q = true) := by
      rintro ⟨hne, hw, hw'⟩
      rw [List.append_nil] at hw'
      exact hne (within_antisymm hw hw')
    rw [if_neg hnone, Option.or_none]
    rfl
  | cons s l ih =>
    have hway : (dir.child s).segments ++ l = dir.segments ++ s :: l := by
      rw [child, List.append_assoc]
      rfl
    have hstart : (RemotePath.mk (dir.segments ++ s :: l)).within (dir.child s) = true :=
      within_iff.2 ⟨l, hway⟩
    -- The first step puts a directory on the way right below the start, unless something is there.
    have hfirst : (if t.contains (dir.child s) then t
        else t.insert (dir.child s) .directory).get? q =
        (t.get? q).or (if q = dir.child s then some .directory else none) := by
      by_cases hq : q = dir.child s
      · subst hq
        rw [if_pos rfl]
        cases hn : t.get? (dir.child s) with
        | none => simp [KeyMap.contains, hn, KeyMap.get?_insert]
        | some node => simp [KeyMap.contains, hn]
      · rw [if_neg hq, Option.or_none]
        split
        · rfl
        · rw [KeyMap.get?_insert, if_neg hq]
    rw [fillDirectories, ih, hfirst, hway, Option.or_assoc]
    congr 1
    rw [if_congr (on_way_iff hstart) rfl rfl]
    by_cases hq : q = dir.child s
    · simp [hq]
    · simp [hq]

theorem get?_insertDirectory (hroot : t.get? root = some .directory) (p q : RemotePath) :
    (t.insertDirectory p).get? q =
      (t.get? q).or (if p.within q = true then some .directory else none) := by
  rw [insertDirectory, get?_fillDirectories]
  by_cases hq : q = root
  · rw [hq, hroot, Option.some_or, Option.some_or]
  · simp only [ne_eq, hq, not_false_eq_true, within_root, true_and]
    rfl

theorem get?_insertDirectory_of_get? (hroot : t.get? root = some .directory)
    (hq : t.get? q = some node) :
    (t.insertDirectory p).get? q = some node := by
  rw [get?_insertDirectory hroot, hq, Option.some_or]

theorem get?_insertDirectory_of_within (hroot : t.get? root = some .directory)
    (hw : p.within q = true)
    (hq : ∀ node, t.get? q = some node → node = .directory) :
    (t.insertDirectory p).get? q = some .directory := by
  rw [get?_insertDirectory hroot, if_pos hw]
  cases hold : t.get? q with
  | none => rfl
  | some node => rw [Option.some_or, hq node hold]

theorem within_of_seeded (hroot : t.get? root = some .directory) (hold : t.get? q = none)
    (hq : ((t.insertDirectory p).get? q).isSome) : p.within q = true := by
  by_contra hw
  rw [get?_insertDirectory hroot, hold, if_neg hw] at hq
  cases hq

theorem wellFormed_insertDirectory_iff (ht : t.WellFormed) :
    (t.insertDirectory p).WellFormed ↔ t.ClearAbove p := by
  rw [clearAbove_iff]
  constructor
  · intro h q node hq hw hne
    obtain ⟨last, hlast⟩ : ∃ last, (t.insertDirectory p).get? p = some last := by
      rw [get?_insertDirectory ht.1, if_pos (within_self p)]
      cases t.get? p <;> exact ⟨_, rfl⟩
    have hd := h.directory_of_within hlast hw (Ne.symm hne)
    rw [get?_insertDirectory_of_get? ht.1 hq] at hd
    exact Option.some_inj.1 hd
  · intro h
    refine wellFormed_iff.2 ⟨get?_insertDirectory_of_get? ht.1 ht.1, fun q hq ↦ ?_⟩
    cases hold : t.get? q with
    | some node => exact get?_insertDirectory_of_get? ht.1 (ht.parent_directory hold)
    | none =>
      have hw := within_of_seeded ht.1 hold hq
      have hroot : q ≠ root := by
        rintro rfl
        rw [ht.1] at hold
        cases hold
      refine get?_insertDirectory_of_within ht.1 (within_trans hw q.within_parent) fun node hnode ↦
        ?_
      refine h _ node hnode (within_trans hw q.within_parent) fun he ↦ ?_
      -- The way ends at `p`, so it does not go on below it.
      exact parent_ne_self hroot (he.trans (within_antisymm hw (he ▸ q.within_parent)))

theorem get?_insertFile (t : Tree) (p q : RemotePath) (data : Bytes) :
    (t.insertFile p data).get? q =
    if q = p then some (.file (.ofBytes data)) else (t.insertDirectory p.parent).get? q := by
  rw [insertFile, KeyMap.get?_insert]

theorem clear_of_wellFormed_insertFile (ht : t.WellFormed) (h : (t.insertFile p data).WellFormed) :
    p ≠ root ∧ t.ClearAbove p ∧ t.hasDescendants p = false := by
  have hfile : (t.insertFile p data).get? p = some (.file (.ofBytes data)) := by
    rw [get?_insertFile, if_pos rfl]
  have hkept : ∀ q node, q ≠ p → t.get? q = some node →
      (t.insertFile p data).get? q = some node := by
    intro q node hne hq
    rw [get?_insertFile, if_neg hne, get?_insertDirectory_of_get? ht.1 hq]
  refine ⟨?_, clearAbove_iff.2 fun q node hq hw hne ↦ ?_,
    hasDescendants_eq_false_iff.2 fun q hq hw ↦ ?_⟩
  · rintro rfl
    have hd := h.1
    rw [hfile] at hd
    cases hd
  · have hd := h.directory_of_within hfile hw (Ne.symm hne)
    rw [hkept q node hne hq] at hd
    exact Option.some_inj.1 hd
  · obtain ⟨node, hnode⟩ := Option.isSome_iff_exists.1 hq
    by_contra hne
    have hd := h.directory_of_within (hkept q node hne hnode) hw hne
    rw [hfile] at hd
    cases hd

theorem wellFormed_insertFile (ht : t.WellFormed) (hroot : p ≠ root) (hclear : t.ClearAbove p)
    (hbare : t.hasDescendants p = false) : (t.insertFile p data).WellFormed := by
  rw [clearAbove_iff] at hclear
  have habove : (t.insertDirectory p.parent).WellFormed := by
    refine (wellFormed_insertDirectory_iff ht).2 (clearAbove_iff.2 fun q node hq hw hne ↦ ?_)
    refine hclear q node hq (within_of_parent_within hw) ?_
    rintro rfl
    exact hne (within_antisymm (within_parent _) hw)
  have hparent : (t.insertDirectory p.parent).get? p.parent = some .directory :=
    get?_insertDirectory_of_within ht.1 (within_self _) fun node hnode ↦
      hclear _ node hnode p.within_parent (parent_ne_self hroot)
  refine habove.insert hparent (fun q hq hqp ↦ absurd hqp ?_) fun hp ↦ absurd hp hroot
  -- Nothing was right below the file, and the way to it does not lead there.
  have hsame : ∀ q : RemotePath, q.within p = true → ((t.insertDirectory p.parent).get? q).isSome →
      q = p := by
    intro q hwq hq
    cases hold : t.get? q with
    | some node => exact hasDescendants_eq_false_iff.1 hbare q (by rw [hold]; rfl) hwq
    | none => exact within_antisymm hwq (within_of_parent_within (within_of_seeded ht.1 hold hq))
  rintro rfl
  have hq' := hsame q q.within_parent hq
  by_cases hr : q = root
  · exact hroot (by rw [hr]; rfl)
  · exact parent_ne_self hr hq'.symm

/-- Seeding keeps the root a directory and every node in one exactly if nothing above the path
is a file, and, for a file, it is not the root and has nothing below it. In all other cases
there are nodes that no walk from the root comes to. -/
theorem seeding_keeps_tree_iff (ht : t.WellFormed) (p : RemotePath) (data : Bytes) :
    ((t.insertDirectory p).WellFormed ↔ t.ClearAbove p) ∧
    ((t.insertDirectory p).WalkedWhole ↔ t.ClearAbove p) ∧
    ((t.insertFile p data).WellFormed ↔ p ≠ root ∧ t.ClearAbove p ∧ t.hasDescendants p = false) ∧
    ((t.insertFile p data).WalkedWhole ↔
      p ≠ root ∧ t.ClearAbove p ∧ t.hasDescendants p = false) := by
  rw [walkedWhole_iff, walkedWhole_iff]
  have hfile : (t.insertFile p data).WellFormed ↔
      p ≠ root ∧ t.ClearAbove p ∧ t.hasDescendants p = false :=
    ⟨clear_of_wellFormed_insertFile ht,
      fun ⟨hroot, hclear, hbare⟩ ↦ wellFormed_insertFile ht hroot hclear hbare⟩
  exact ⟨wellFormed_insertDirectory_iff ht, wellFormed_insertDirectory_iff ht, hfile, hfile⟩

section Examples

theorem isSegment_first : IsSegment "1.ulg" := by decide

theorem isSegment_second : IsSegment "2.ulg" := by decide

def firstLog : RemotePath := Device.logDirectory.child ⟨"1.ulg", isSegment_first⟩

def secondLog : RemotePath := Device.logDirectory.child ⟨"2.ulg", isSegment_second⟩

def seededLog : Tree := Device.px4.tree.insertFile firstLog [1, 2]

theorem seeding_keeps_tree_iff_seededLog :
    seededLog.WellFormed ∧ (seededLog.insertFile secondLog [3]).WellFormed ∧
    ¬(seededLog.insertFile Device.logDirectory [3]).WalkedWhole ∧
    ¬(seededLog.insertDirectory (firstLog.child ⟨"2.ulg", isSegment_second⟩)).WellFormed := by
  have ht : seededLog.WellFormed := by decide +kernel
  refine ⟨ht, ?_, ?_, ?_⟩
  · exact (seeding_keeps_tree_iff ht _ [3]).2.2.1.2 (by decide +kernel)
  · exact mt (seeding_keeps_tree_iff ht _ [3]).2.2.2.1 (by decide +kernel)
  · exact mt (seeding_keeps_tree_iff ht _ []).1.1 (by decide +kernel)

theorem isSegment_a : IsSegment "a" := by decide

def noteA : RemotePath := root.child ⟨"a", isSegment_a⟩

def seededNote : Tree := (Device.empty 8).tree.insertFile noteA [1]

/-- A file seeded at the root of a device with a note on it. The root is no directory any more,
and the note is still there, where no listing leads to. -/
theorem seeded_root_hides_note : seededNote.WellFormed ∧
    (seededNote.insertFile root [2]).get? root = some (.file (.ofBytes [2])) ∧
    (seededNote.insertFile root [2]).get? noteA = some (.file (.ofBytes [1])) ∧
    (seededNote.insertFile root [2]).walk = [] ∧ ¬(seededNote.insertFile root [2]).WellFormed := by
  decide +kernel

end Examples

end Tree

end RemoteMount.Memory
