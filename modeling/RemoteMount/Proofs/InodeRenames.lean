import RemoteMount.Proofs.InodeTables
import RemoteMount.Proofs.MovedKeys

namespace RemoteMount.InodeTable

open RemotePath

variable {t : InodeTable} {p q old new target : RemotePath} {i j : Nat}
    {l : List (RemotePath × Nat)}

theorem index_moveMapping (old new : RemotePath) {m : RemotePath × Nat}
    (hm : t.inode? m.1 = some m.2) :
    (moveMapping old new t m).index = KeyMap.moveKey old new t.index m.1 := by
  have hget : t.index.get? m.1 = some m.2 := hm
  unfold moveMapping KeyMap.moveKey
  rw [hget]
  cases m.1.rebase old new <;> rfl

theorem index_foldl_moveMapping (hl : (l.map Prod.fst).Nodup)
    (hm : ∀ m ∈ l, t.inode? m.1 = some m.2)
    (ho : ∀ m ∈ l, m.1.within old = true) (hn : ∀ m ∈ l, m.1.within new = false) :
    (l.foldl (moveMapping old new) t).index =
      (l.map Prod.fst).foldl (KeyMap.moveKey old new) t.index := by
  induction l generalizing t with
  | nil => rfl
  | cons m l ih =>
    rw [List.map_cons, List.nodup_cons] at hl
    have hmove := index_moveMapping old new (hm m List.mem_cons_self)
    rw [List.foldl_cons, List.map_cons, List.foldl_cons, ← hmove]
    refine ih hl.2 ?_ (fun m' hm' ↦ ho m' (List.mem_cons_of_mem m hm')) fun m' hm' ↦
      hn m' (List.mem_cons_of_mem m hm')
    intro m' hm'
    obtain ⟨target, ht⟩ := exists_rebase new (ho m List.mem_cons_self)
    have hne : m'.1 ≠ m.1 := fun he ↦ hl.1 (he ▸ List.mem_map_of_mem hm')
    have hnt : m'.1 ≠ target := by
      intro he
      have hwithin := hn m' (List.mem_cons_of_mem m hm')
      rw [he, rebase_within ht] at hwithin
      cases hwithin
    rw [inode?, hmove, KeyMap.get?_moveKey (hm m List.mem_cons_self) ht, if_neg hnt, if_neg hne]
    exact hm m' (List.mem_cons_of_mem m hm')

theorem lookups?_moveMapping (m : RemotePath × Nat) (j : Nat) :
    (moveMapping old new t m).lookups? j = t.lookups? j := by
  unfold moveMapping
  split
  · rfl
  · simp only [lookups?, KeyMap.get?_modify]
    split
    · simp [Function.comp_def]
    · rfl

theorem path?_moveMapping {m : RemotePath × Nat} (ht : m.1.rebase old new = some target) (j : Nat) :
    (moveMapping old new t m).path? j = if j = m.2 then (t.path? j).map fun _ ↦ target
      else t.path? j := by
  simp only [moveMapping, ht, path?, KeyMap.get?_modify]
  split
  · simp [Function.comp_def]
  · rfl

theorem lookups?_foldl_moveMapping (j : Nat) :
    (l.foldl (moveMapping old new) t).lookups? j = t.lookups? j := by
  induction l generalizing t with
  | nil => rfl
  | cons m l ih => rw [List.foldl_cons, ih, lookups?_moveMapping]

theorem next_foldl_moveMapping : (l.foldl (moveMapping old new) t).next = t.next := by
  induction l generalizing t with
  | nil => rfl
  | cons m l ih =>
    rw [List.foldl_cons, ih]
    unfold moveMapping
    split <;> rfl

theorem path?_foldl_moveMapping_of_not_mem (ho : ∀ m ∈ l, m.1.within old = true)
    (hl : ∀ p, (p, j) ∉ l) :
    (l.foldl (moveMapping old new) t).path? j = t.path? j := by
  induction l generalizing t with
  | nil => rfl
  | cons m l ih =>
    obtain ⟨target, ht⟩ := exists_rebase new (ho m List.mem_cons_self)
    have hj : j ≠ m.2 := fun he ↦ hl m.1 (he ▸ List.mem_cons_self)
    have hrest : ∀ p, (p, j) ∉ l := fun p hp ↦ hl p (List.mem_cons_of_mem m hp)
    rw [List.foldl_cons, ih (fun m' hm' ↦ ho m' (List.mem_cons_of_mem m hm')) hrest,
      path?_moveMapping ht, if_neg hj]

theorem path?_foldl_moveMapping (ho : ∀ m ∈ l, m.1.within old = true) (hl : ∃ p, (p, j) ∈ l)
    (hu : ∀ p, (p, j) ∈ l → p.rebase old new = some target) :
    (l.foldl (moveMapping old new) t).path? j = (t.path? j).map fun _ ↦ target := by
  induction l generalizing t with
  | nil =>
    obtain ⟨p, hp⟩ := hl
    cases hp
  | cons m l ih =>
    have hrest : ∀ m' ∈ l, m'.1.within old = true := fun m' hm' ↦ ho m' (List.mem_cons_of_mem m hm')
    obtain ⟨target', ht'⟩ := exists_rebase new (ho m List.mem_cons_self)
    have hhead : j = m.2 → target' = target := by
      intro he
      have hm := hu m.1 (he ▸ List.mem_cons_self)
      rw [ht'] at hm
      exact Option.some_inj.1 hm
    rw [List.foldl_cons]
    by_cases hj : ∃ p, (p, j) ∈ l
    · rw [ih hrest hj fun p hp ↦ hu p (List.mem_cons_of_mem m hp), path?_moveMapping ht']
      split
      · rw [Option.map_map]
        rfl
      · rfl
    · have hjm : j = m.2 := by
        obtain ⟨p, hp⟩ := hl
        rcases List.mem_cons.1 hp with he | hp
        · rw [← he]
        · exact absurd ⟨p, hp⟩ hj
      rw [path?_foldl_moveMapping_of_not_mem hrest fun p hp ↦ hj ⟨p, hp⟩, path?_moveMapping ht',
        if_pos hjm, hhead hjm]

theorem keys_moveMapping (m : RemotePath × Nat) :
    (moveMapping old new t m).entries.keys = t.entries.keys := by
  unfold moveMapping
  split <;> simp

theorem keys_foldl_moveMapping :
    (l.foldl (moveMapping old new) t).entries.keys = t.entries.keys := by
  induction l generalizing t with
  | nil => rfl
  | cons m l ih => rw [List.foldl_cons, ih, keys_moveMapping]

/-- The mappings that renaming keeps at first, and those among them that it moves then. -/
def keptIndex (t : InodeTable) (new : RemotePath) : KeyMap RemotePath Nat :=
  t.index.filter fun p _ ↦ !p.within new

def movedMappings (t : InodeTable) (old new : RemotePath) : List (RemotePath × Nat) :=
  (t.keptIndex new).toList.filter fun m ↦ m.1.within old

/-- Renaming that comes to the mappings in the given order. The table promises none. -/
def renameInOrder (t : InodeTable) (old new : RemotePath)
    (moved : List (RemotePath × Nat)) : InodeTable :=
  moved.foldl (moveMapping old new) { t with index := t.keptIndex new }

theorem rename_of_ne (hne : old ≠ new) :
    t.rename old new = t.renameInOrder old new (t.movedMappings old new) := by
  rw [rename, if_neg hne]
  rfl

theorem get?_keptIndex : (t.keptIndex new).get? p = if p.within new then none else t.inode? p := by
  rw [keptIndex, KeyMap.get?_filter, inode?]
  cases t.index.get? p <;> cases p.within new <;> rfl

theorem mem_movedMappings {m : RemotePath × Nat} : m ∈ t.movedMappings old new ↔
    t.inode? m.1 = some m.2 ∧ m.1.within new = false ∧ m.1.within old = true := by
  rw [movedMappings, List.mem_filter, ← KeyMap.get?_eq_some_iff, get?_keptIndex,
    Option.ite_none_left_eq_some, Bool.not_eq_true]
  tauto

theorem nodup_movedMappings : ((t.movedMappings old new).map Prod.fst).Nodup :=
  (t.keptIndex new).nodup.sublist (List.filter_sublist.map _)

section Orders

variable {moved : List (RemotePath × Nat)}

theorem mem_order {m : RemotePath × Nat} (hmoved : moved.Perm (t.movedMappings old new)) :
    m ∈ moved ↔ t.inode? m.1 = some m.2 ∧ m.1.within new = false ∧ m.1.within old = true :=
  hmoved.mem_iff.trans mem_movedMappings

theorem nodup_order (hmoved : moved.Perm (t.movedMappings old new)) : (moved.map Prod.fst).Nodup :=
  (hmoved.map Prod.fst).nodup_iff.2 nodup_movedMappings

theorem mem_order_fst (hmoved : moved.Perm (t.movedMappings old new)) : p ∈ moved.map Prod.fst ↔
    (t.inode? p).isSome ∧ p.within new = false ∧ p.within old = true := by
  rw [List.mem_map, Option.isSome_iff_exists]
  constructor
  · intro hx
    obtain ⟨m, hm, rfl⟩ := hx
    obtain ⟨hi, hw⟩ := (mem_order hmoved).1 hm
    exact ⟨⟨m.2, hi⟩, hw⟩
  · intro hx
    obtain ⟨⟨i, hi⟩, hw⟩ := hx
    exact ⟨(p, i), (mem_order hmoved).2 ⟨hi, hw⟩, rfl⟩

theorem index_renameInOrder (hmoved : moved.Perm (t.movedMappings old new)) :
    (t.renameInOrder old new moved).index =
    (moved.map Prod.fst).foldl (KeyMap.moveKey old new) (t.keptIndex new) := by
  refine index_foldl_moveMapping (nodup_order hmoved) ?_ ?_ ?_
  · intro m hm
    obtain ⟨hi, hn, -⟩ := (mem_order hmoved).1 hm
    rw [inode?, get?_keptIndex, if_neg (Bool.eq_false_iff.1 hn), hi]
  · exact fun m hm ↦ ((mem_order hmoved).1 hm).2.2
  · exact fun m hm ↦ ((mem_order hmoved).1 hm).2.1

/-- Renaming moves the index as a subtree. What was at or below the new place is unmapped, also
if it was to be moved itself. -/
theorem inode?_renameInOrder (hmoved : moved.Perm (t.movedMappings old new)) :
    (t.renameInOrder old new moved).inode? q =
      if q.within new then (q.rebase new old).bind fun p ↦ if p.within new then none else t.inode? p
      else if q.within old then none else t.inode? q := by
  have hsources : ∀ p ∈ moved.map Prod.fst, p.within old = true ∧
      ((t.keptIndex new).get? p).isSome := by
    intro p hp
    obtain ⟨hs, hn, ho⟩ := (mem_order_fst hmoved).1 hp
    exact ⟨ho, by rwa [get?_keptIndex, if_neg (Bool.eq_false_iff.1 hn)]⟩
  obtain ⟨hrest, hnew⟩ := KeyMap.get?_foldl_moveKey (nodup_order hmoved) hsources fun p hp ↦
    ((mem_order_fst hmoved).1 hp).2.1
  rw [inode?, index_renameInOrder hmoved]
  by_cases hqn : q.within new = true
  · obtain ⟨p, hp⟩ := exists_rebase old hqn
    rw [if_pos hqn, hp, Option.bind_some, hnew p q (rebase_symm hp), get?_keptIndex, get?_keptIndex,
      if_pos hqn]
    split
    · rfl
    · rename_i hpl
      split
      · rfl
      · rename_i hpn
        -- What was mapped below the old place and not dropped is among what was moved.
        by_contra hs
        have hsome := Option.isSome_iff_ne_none.2 (Ne.symm hs)
        exact hpl ((mem_order_fst hmoved).2 ⟨hsome, Bool.eq_false_iff.2 hpn, rebase_within hp⟩)
  · rw [if_neg hqn, hrest q (Bool.eq_false_iff.2 hqn), get?_keptIndex, if_neg hqn]
    by_cases hqo : q.within old = true
    · rw [if_pos hqo]
      split
      · rfl
      · rename_i hql
        by_contra hs
        exact hql ((mem_order_fst hmoved).2 ⟨Option.isSome_iff_ne_none.2 hs,
          Bool.eq_false_iff.2 hqn, hqo⟩)
    · have hql : q ∉ moved.map Prod.fst := fun hq ↦ hqo ((mem_order_fst hmoved).1 hq).2.2
      rw [if_neg hqo, if_neg hql]

theorem path?_renameInOrder_of_moved (hmoved : moved.Perm (t.movedMappings old new)) (h : t.Sound)
    (hp : t.inode? p = some i) (hn : p.within new = false) (ht : p.rebase old new = some target) :
    (t.renameInOrder old new moved).path? i = some target := by
  have hmem : (p, i) ∈ moved := (mem_order hmoved).2 ⟨hp, hn, within_of_rebase ht⟩
  have honly : ∀ p', (p', i) ∈ moved → p'.rebase old new = some target := by
    intro p' hp'
    obtain rfl : p' = p := h.inode_injective ((mem_order hmoved).1 hp').1 hp
    exact ht
  rw [renameInOrder, path?_foldl_moveMapping (fun m hm ↦ ((mem_order hmoved).1 hm).2.2)
    ⟨p, hmem⟩ honly]
  exact congrArg (Option.map fun _ ↦ target) (h.path_of_inode p i hp)

theorem path?_renameInOrder_of_kept (hmoved : moved.Perm (t.movedMappings old new))
    (hk : ∀ p, t.inode? p = some i → p.within old = true → p.within new = true) :
    (t.renameInOrder old new moved).path? i = t.path? i := by
  have hnone : ∀ p, (p, i) ∉ moved := by
    intro p hp
    obtain ⟨hi, hpn, hpo⟩ := (mem_order hmoved).1 hp
    rw [hk p hi hpo] at hpn
    cases hpn
  rw [renameInOrder, path?_foldl_moveMapping_of_not_mem
    (fun m hm ↦ ((mem_order hmoved).1 hm).2.2) hnone]
  rfl

theorem lookups?_renameInOrder (moved : List (RemotePath × Nat)) (j : Nat) :
    (t.renameInOrder old new moved).lookups? j = t.lookups? j := by
  rw [renameInOrder, lookups?_foldl_moveMapping]
  rfl

theorem keys_renameInOrder (moved : List (RemotePath × Nat)) :
    (t.renameInOrder old new moved).entries.keys = t.entries.keys := by
  rw [renameInOrder, keys_foldl_moveMapping]

end Orders

theorem inode?_rename (hne : old ≠ new) : (t.rename old new).inode? q =
    if q.within new then (q.rebase new old).bind fun p ↦ if p.within new then none else t.inode? p
    else if q.within old then none else t.inode? q := by
  rw [rename_of_ne hne, inode?_renameInOrder (List.Perm.refl _)]

theorem lookups?_rename : (t.rename old new).lookups? j = t.lookups? j := by
  by_cases hne : old = new
  · rw [rename, if_pos hne]
  · rw [rename_of_ne hne, lookups?_renameInOrder]

theorem next_rename : (t.rename old new).next = t.next := by
  by_cases hne : old = new
  · rw [rename, if_pos hne]
  · rw [rename_of_ne hne, renameInOrder, next_foldl_moveMapping]

theorem path?_rename_of_moved (h : t.Sound) (hne : old ≠ new) (hp : t.inode? p = some i)
    (hn : p.within new = false)
    (ht : p.rebase old new = some target) : (t.rename old new).path? i = some target := by
  rw [rename_of_ne hne, path?_renameInOrder_of_moved (List.Perm.refl _) h hp hn ht]

theorem path?_rename_of_kept (hk : ∀ p, t.inode? p = some i → p.within old = true →
      p.within new = true) :
    (t.rename old new).path? i = t.path? i := by
  by_cases hne : old = new
  · rw [rename, if_pos hne]
  · rw [rename_of_ne hne, path?_renameInOrder_of_kept (List.Perm.refl _) hk]

theorem path?_rename_eq_none_iff : (t.rename old new).path? i = none ↔ t.path? i = none := by
  rw [← lookups?_eq_none_iff, ← lookups?_eq_none_iff, lookups?_rename]

theorem Sound.rename (h : t.Sound) : (t.rename old new).Sound := by
  by_cases hne : old = new
  · rw [InodeTable.rename, if_pos hne]
    exact h
  constructor
  · intro q i hq
    rw [inode?_rename hne] at hq
    split at hq
    · obtain ⟨p, hp, hi⟩ := Option.bind_eq_some_iff.1 hq
      split at hi
      · cases hi
      · rename_i hpn
        exact path?_rename_of_moved h hne hi (Bool.eq_false_iff.2 hpn) (rebase_symm hp)
    · split at hq
      · cases hq
      · rename_i hqo
        rw [path?_rename_of_kept, h.path_of_inode q i hq]
        intro p hp hpo
        rw [h.inode_injective hp hq] at hpo
        exact absurd hpo hqo
  · intro i p hp
    have hkept : t.path? i ≠ none := by
      rw [Ne, ← path?_rename_eq_none_iff, hp]
      exact nofun
    obtain ⟨p', hp'⟩ := Option.ne_none_iff_exists'.1 hkept
    rw [next_rename]
    exact h.lt_next i p' hp'

end RemoteMount.InodeTable
