import RemoteMount.Proofs.ListingCalls
import RemoteMount.Proofs.Host.TreeEffects

namespace RemoteMount

/-- Listing the directory of the path now, and taking the row of its name. -/
def freshRecord {σ : Type} [RemoteDevice σ] (policy : Policy) (caller : Caller) (d : σ)
    (p : RemotePath) :
    Option Attributes :=
  match (RemoteDevice.answer (.listdir p.parent) d).1 with
  | .error _ => none
  | .ok rows =>
    (rows.find? fun row ↦ p.name? = some row.name).map fun row ↦ .ofEntry p row policy caller

namespace Host

open Device FileStore

variable {policy : Policy} {caller : Caller} {d d' : Device} {dir p path : RemotePath} {s : Segment}
    {a : Attributes}
variable {rows : List ListingEntry}

theorem freshRecord_root (d : Device) : freshRecord policy caller d .root = none := by
  unfold freshRecord
  split
  · rfl
  · simp [RemotePath.name?_root]

theorem find?_listing (h : d.store.Plain) (hl : listing d.store dir = .ok rows) :
    rows.find? (fun row ↦ (dir.child s).name? = some row.name) =
      (d.store.foundAt (dir.child s)).bind (Found.row? s.name) := by
  apply Option.ext
  intro row
  rw [← h.mem_listing_iff hl, RemotePath.name?_child]
  simp only [Option.some_inj]
  constructor
  · intro hf
    exact ⟨List.mem_of_find?_eq_some hf,
      (by simpa using List.find?_some hf : s.name = row.name).symm⟩
  · intro hx
    obtain ⟨hmem, hname⟩ := hx
    have hunique : ∀ row' ∈ rows, row'.name = s.name → row' = row := by
      intro row' hmem' hname'
      exact Option.some_inj.1 (((h.mem_listing_iff hl).1 ⟨hmem', hname'⟩).symm.trans
        ((h.mem_listing_iff hl).1 ⟨hmem, hname⟩))
    cases hf : rows.find? fun row ↦ decide (s.name = row.name) with
    | none => simpa [hname] using List.find?_eq_none.1 hf row hmem
    | some row' =>
      have hname' : s.name = row'.name := by simpa using List.find?_some hf
      rw [hunique row' (List.mem_of_find?_eq_some hf) hname'.symm]

theorem freshRecord_child (h : d.store.Plain) : freshRecord policy caller d (dir.child s) =
    if dir.text.utf8ByteSize ≤ pathLimit then
      ((d.store.foundAt (dir.child s)).bind (Found.row? s.name)).map fun row ↦
        .ofEntry (dir.child s) row policy caller
    else none := by
  have hanswer : (RemoteDevice.answer (.listdir dir) d).1 = listing d.store dir := rfl
  rw [freshRecord, RemotePath.parent_child, hanswer]
  cases hl : listing d.store dir with
  | ok rows => rw [if_pos (hostCall_eq_ok hl).1, ← find?_listing h hl]
  | error e =>
    dsimp only
    split
    · rename_i hfits
      cases hfound : d.store.foundAt (dir.child s) with
      | none => rfl
      | some f =>
        obtain ⟨chain, node, hc, -, -⟩ := foundAt_eq_some_iff.1 hfound
        rw [chainAt_child] at hc
        obtain ⟨c, hdir, hc⟩ := Option.bind_eq_some_iff.1 hc
        obtain ⟨id, hid, -⟩ := Option.map_eq_some_iff.1 hc
        have hok := h.listing_eq_ok_iff.2 ⟨hfits, c, hdir, isDirectory_of_entry hid, rfl⟩
        cases hl.symm.trans hok
    · rfl

theorem freshRecord_congr (h : d.store.Plain) (h' : d'.store.Plain)
    (hp : d'.store.foundAt p = d.store.foundAt p) :
    freshRecord policy caller d' p = freshRecord policy caller d p := by
  rcases p.eq_root_or_child with rfl | ⟨s, hs⟩
  · rw [freshRecord_root, freshRecord_root]
  · rw [hs] at hp ⊢
    rw [freshRecord_child h, freshRecord_child h', hp]

theorem size_of_freshRecord (h : d.store.Plain) {data : Bytes}
    (hf : d.store.foundAt p = some (.file data))
    (ha : freshRecord policy caller d p = some a) : a.size = data.length.toUInt64 := by
  rcases p.eq_root_or_child with rfl | ⟨s, hs⟩
  · rw [freshRecord_root] at ha
    cases ha
  · rw [hs] at hf ha
    rw [freshRecord_child h, hf] at ha
    split at ha
    · cases ha
      rfl
    · cases ha

theorem freshRecord_of_file (h : d.store.Plain) (h' : d'.store.Plain) {old new : Bytes}
    (ho : d.store.foundAt p = some (.file old)) (hn : d'.store.foundAt p = some (.file new)) :
    freshRecord policy caller d' p =
      (freshRecord policy caller d p).map fun a ↦ { a with size := new.length.toUInt64 } := by
  rcases p.eq_root_or_child with rfl | ⟨s, hs⟩
  · rw [freshRecord_root, freshRecord_root, Option.map_none]
  · rw [hs] at ho hn ⊢
    rw [freshRecord_child h, freshRecord_child h', ho, hn]
    split <;> rfl

/-- The records of a listing are those that a fresh listing gives. -/
theorem freshRecord_of_mem (h : d.store.Plain) (hl : listing d.store dir = .ok rows) {name : String}
    (hp : p.parent = dir) (hn : p.name? = some name)
    (ha : (name, a) ∈ Filesystem.recordsOf policy caller dir rows) :
    freshRecord policy caller d p = some a := by
  obtain ⟨row, hr, q, hq, rfl, rfl⟩ := Filesystem.mem_recordsOf.1 ha
  obtain ⟨hqp, hqn⟩ := RemotePath.join_eq_ok_iff.1 hq
  obtain rfl : p = q := RemotePath.eq_of_parent_of_name (hp.trans hqp.symm) (hn.trans hqn.symm)
  rcases p.eq_root_or_child with rfl | ⟨s, hs⟩
  · cases hn
  · rw [hs, RemotePath.name?_child] at hn
    rw [hs, hp, freshRecord_child h, if_pos (hostCall_eq_ok hl).1,
      (h.mem_listing_iff hl).1 ⟨hr, (Option.some_inj.1 hn).symm⟩]
    rfl

end Host

end RemoteMount
