import RemoteMount.Filesystem
import RemoteMount.Proofs.Memory.Subtree

namespace RemoteMount

open RemotePath

namespace Memory

variable {t : Tree} {dir : RemotePath} {name : String} {node : Node} {rows : List ListingEntry}

@[simp] theorem Node.entry_name (node : Node) (name : String) : (node.entry name).name = name := by
  cases node <;> rfl

@[simp] theorem Node.entry_kind (node : Node) (name : String) :
    (node.entry name).kind = node.kind := by
  cases node <;> rfl

namespace Tree

theorem mem_childrenOf : (name, node) ∈ t.childrenOf dir ↔
    ∃ p, t.get? p = some node ∧ p.parent = dir ∧ p.name? = some name := by
  simp only [childrenOf, List.mem_filterMap, Prod.exists, KeyMap.get?_eq_some_iff]
  constructor
  · intro hx
    obtain ⟨p, node', hm, h⟩ := hx
    split at h
    · rename_i name' hname
      split at h
      · rename_i hp
        simp only [Option.some_inj, Prod.mk.injEq] at h
        exact ⟨p, h.2 ▸ hm, hp, h.1 ▸ hname⟩
      · cases h
    · cases h
  · intro hx
    obtain ⟨p, hm, hp, hname⟩ := hx
    refine ⟨p, node, hm, ?_⟩
    simp only [hname, hp, if_true]

theorem listing_eq_ok_iff : t.listing dir = .ok rows ↔ t.get? dir = some .directory ∧
    rows = ListingEntry.sorted ((t.childrenOf dir).map fun e ↦ e.2.entry e.1) := by
  rw [← requireDirectory_eq_ok_iff (u := ())]
  cases h : t.requireDirectory dir with
  | error e => simp [listing, h, bind, Except.bind]
  | ok u => simpa [listing, h, bind, Except.bind, pure, Except.pure] using eq_comm

theorem mem_listing {row : ListingEntry} (h : t.listing dir = .ok rows) : row ∈ rows ↔
    ∃ p name node, t.get? p = some node ∧ p.parent = dir ∧ p.name? = some name ∧
    row = node.entry name := by
  rw [(listing_eq_ok_iff.1 h).2, ListingEntry.sorted, List.mem_mergeSort, List.mem_map]
  simp only [Prod.exists, mem_childrenOf]
  constructor
  · intro hx
    obtain ⟨name, node, ⟨p, hp, hparent, hname⟩, rfl⟩ := hx
    exact ⟨p, name, node, hp, hparent, hname, rfl⟩
  · intro hx
    obtain ⟨p, name, node, hp, hparent, hname, rfl⟩ := hx
    exact ⟨name, node, ⟨p, hp, hparent, hname⟩, rfl⟩

theorem node_of_listing {row : ListingEntry} {p : RemotePath} (h : t.listing dir = .ok rows)
    (hr : row ∈ rows)
    (hj : dir.join row.name = .ok p) : ∃ node, t.get? p = some node ∧
    row = node.entry row.name := by
  obtain ⟨q, name, node, hq, hparent, hname, rfl⟩ := (mem_listing h).1 hr
  rw [Node.entry_name] at hj ⊢
  obtain ⟨hp, hn⟩ := join_eq_ok_iff.1 hj
  obtain rfl : p = q := eq_of_parent_of_name (hp.trans hparent.symm) (hn.trans hname.symm)
  exact ⟨node, hq, rfl⟩

end Tree

end Memory

namespace Filesystem

theorem mem_recordsOf {policy : Policy} {caller : Caller} {dir : RemotePath}
    {rows : List ListingEntry} {name : String}
    {a : Attributes} : (name, a) ∈ recordsOf policy caller dir rows ↔
      ∃ row ∈ rows, ∃ p, dir.join row.name = .ok p ∧ name = row.name ∧
      a = .ofEntry p row policy caller := by
  simp only [recordsOf, List.mem_filterMap]
  constructor
  · intro hx
    obtain ⟨row, hr, h⟩ := hx
    split at h
    · rename_i p hp
      simp only [Option.some_inj, Prod.mk.injEq] at h
      exact ⟨row, hr, p, hp, h.1.symm, h.2.symm⟩
    · cases h
  · intro hx
    obtain ⟨row, hr, p, hp, rfl, rfl⟩ := hx
    exact ⟨row, hr, by simp only [hp]⟩

theorem exists_rows_of_refresh {σ : Type} [RemoteDevice σ] {policy : Policy} {caller : Caller}
    {dir : RemotePath}
    {m : CachedDevice σ} {records : List (String × Attributes)}
    (h : ((refresh policy caller dir).run m).1 = .ok records) :
    ∃ rows, records = recordsOf policy caller dir rows := by
  unfold refresh at h
  simp only [Program.run, Program.interpret_bind, Program.access, Program.request,
    Program.interpret] at h
  split at h
  · cases h
  · rename_i rows _
    cases h
    exact ⟨rows, rfl⟩

end Filesystem

end RemoteMount
