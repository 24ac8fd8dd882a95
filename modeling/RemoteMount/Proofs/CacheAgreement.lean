import RemoteMount.Proofs.CacheAccesses
import RemoteMount.Proofs.Memory.Effects
import RemoteMount.Proofs.Memory.Listings

namespace RemoteMount

open Memory RemotePath

namespace Memory.Tree

variable {t t' : Tree} {policy : Policy} {caller : Caller} {p : RemotePath} {a : Attributes}
    {old new : Content}

/-- The attributes that a listing gives of what is at `p`. The root is in no listing. -/
def attributesAt (t : Tree) (policy : Policy) (caller : Caller) (p : RemotePath) :
    Option Attributes :=
  p.name?.bind fun name ↦ (t.get? p).map fun node ↦ .ofEntry p (node.entry name) policy caller

theorem attributesAt_eq_some_iff : t.attributesAt policy caller p = some a ↔
    ∃ name node, p.name? = some name ∧ t.get? p = some node ∧
    a = .ofEntry p (node.entry name) policy caller := by
  simp only [attributesAt, Option.bind_eq_some_iff, Option.map_eq_some_iff]
  constructor
  · intro hx
    obtain ⟨name, hn, node, hg, rfl⟩ := hx
    exact ⟨name, node, hn, hg, rfl⟩
  · intro hx
    obtain ⟨name, node, hn, hg, rfl⟩ := hx
    exact ⟨name, hn, node, hg, rfl⟩

theorem attributesAt_congr (h : t'.get? p = t.get? p) :
    t'.attributesAt policy caller p = t.attributesAt policy caller p := by
  rw [attributesAt, h]
  rfl

theorem size_of_attributesAt (h : t.attributesAt policy caller p = some a) :
    a.size = t.lengthAt p := by
  obtain ⟨name, node, -, hg, rfl⟩ := attributesAt_eq_some_iff.1 h
  cases node with
  | directory => simp [Attributes.ofEntry, Node.entry, ListingEntry.directory, lengthAt, hg]
  | file content => simp [Attributes.ofEntry, Node.entry, ListingEntry.file, lengthAt, hg]

theorem attributesAt_insert (ho : t.get? p = some (.file old)) :
    attributesAt (t.insert p (.file new)) policy caller p =
      (t.attributesAt policy caller p).map fun a ↦ { a with size := new.size.toUInt64 } := by
  rw [attributesAt, attributesAt, KeyMap.get?_insert_self, ho]
  cases p.name? <;> rfl

theorem attributesAt_of_mem {dir : RemotePath} {rows : List ListingEntry} {name : String}
    (h : t.listing dir = .ok rows)
    (hp : p.parent = dir) (hn : p.name? = some name)
    (ha : (name, a) ∈ Filesystem.recordsOf policy caller dir rows) :
    t.attributesAt policy caller p = some a := by
  obtain ⟨row, hr, q, hq, rfl, rfl⟩ := Filesystem.mem_recordsOf.1 ha
  obtain ⟨hqp, hqn⟩ := join_eq_ok_iff.1 hq
  obtain rfl : p = q := eq_of_parent_of_name (hp.trans hqp.symm) (hn.trans hqn.symm)
  obtain ⟨node, hnode, hrow⟩ := node_of_listing h hr hq
  exact attributesAt_eq_some_iff.2 ⟨row.name, node, hn, hnode, by rw [← hrow]⟩

theorem mem_of_attributesAt {dir : RemotePath} {rows : List ListingEntry} {name : String}
    (h : t.listing dir = .ok rows)
    (hp : p.parent = dir) (hn : p.name? = some name)
    (ha : t.attributesAt policy caller p = some a) :
    (name, a) ∈ Filesystem.recordsOf policy caller dir rows := by
  obtain ⟨name', node, hn', hnode, rfl⟩ := attributesAt_eq_some_iff.1 ha
  obtain rfl : name = name' := Option.some_inj.1 (hn.symm.trans hn')
  have hrow : node.entry name ∈ rows := (mem_listing h).2 ⟨p, name, node, hnode, hp, hn, rfl⟩
  refine Filesystem.mem_recordsOf.2 ⟨node.entry name, hrow, p, ?_, ?_, rfl⟩
  · rw [Node.entry_name]
    exact join_eq_ok_iff.2 ⟨hp, hn⟩
  · rw [Node.entry_name]

end Memory.Tree

/-- The size that is cached for `p`, if any, is the length of the file there. -/
def SizeAgrees (t : Tree) (c : AttributeCache) (p : RemotePath) : Prop :=
  ∀ a, c.lookup p = some a → a.size = t.lengthAt p

/-- The record that is cached for `p`, if any, is the one that a listing would give. -/
def Faithful (policy : Policy) (caller : Caller) (t : Tree) (c : AttributeCache)
    (p : RemotePath) : Prop :=
  ∀ a, c.lookup p = some a → t.attributesAt policy caller p = some a

namespace Faithful

variable {policy : Policy} {caller : Caller} {t t' : Tree} {c : AttributeCache}
    {p path dir : RemotePath}
variable {a : CacheAccess} {old new : Content}

theorem sizeAgrees (h : Faithful policy caller t c p) : SizeAgrees t c p :=
  fun a ha ↦ Tree.size_of_attributesAt (h a ha)

theorem of_get?_eq (h : Faithful policy caller t c p) (ht : t'.get? p = t.get? p) :
    Faithful policy caller t' c p :=
  fun a ha ↦ (Tree.attributesAt_congr ht).trans (h a ha)

theorem run_of_not_stores (h : Faithful policy caller t c p) (hs : a.stores c p = false) :
    Faithful policy caller t (a.run c).2 p := by
  intro r hr
  by_cases hd : a.Drops p.parent
  · rw [CacheAccess.lookup_of_drops hd] at hr
    cases hr
  · rw [CacheAccess.lookup_run_of_not_stores hd hs] at hr
    exact h r hr

theorem of_drops (hd : a.Drops p.parent) : Faithful policy caller t (a.run c).2 p := by
  intro r hr
  rw [CacheAccess.lookup_of_drops hd] at hr
  cases hr

theorem populateIfCurrent {g : Nat} {rows : List ListingEntry} (h : Faithful policy caller t c p)
    (hl : t.listing dir = .ok rows) : Faithful policy caller t
      (c.populateIfCurrent dir g (Filesystem.recordsOf policy caller dir rows)).2 p := by
  unfold AttributeCache.populateIfCurrent
  split
  · exact h
  · intro r hr
    rcases AttributeCache.lookup_populate_cases hr with ⟨name, hp, hn, hm⟩ | ⟨-, hr⟩
    · exact Tree.attributesAt_of_mem hl hp hn hm
    · exact h r hr

theorem updateSize_lengthAt (h : Faithful policy caller t c p) :
    Faithful policy caller t (c.updateSize path (t.lengthAt path)).2 p := by
  intro r hr
  rw [AttributeCache.lookup_updateSize] at hr
  split at hr
  · rename_i hp
    obtain ⟨r', hr', rfl⟩ := Option.map_eq_some_iff.1 hr
    rw [h r' hr', ← hp, ← Tree.size_of_attributesAt (h r' hr')]
  · exact h r hr

theorem updateSize_insert (h : Faithful policy caller t c p) (ho : t.get? path = some (.file old)) :
    Faithful policy caller (t.insert path (.file new))
      (c.updateSize path new.size.toUInt64).2 p := by
  intro r hr
  rw [AttributeCache.lookup_updateSize] at hr
  split at hr
  · rename_i hp
    subst hp
    obtain ⟨r', hr', rfl⟩ := Option.map_eq_some_iff.1 hr
    rw [Tree.attributesAt_insert ho, h r' hr']
    rfl
  · rename_i hp
    refine (Tree.attributesAt_congr ?_).trans (h r hr)
    rw [KeyMap.get?_insert, if_neg hp]

end Faithful

end RemoteMount
