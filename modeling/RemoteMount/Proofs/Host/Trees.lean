import RemoteMount.Proofs.Host.PlainStores

namespace RemoteMount

def Found.row? (name : String) : Found → Option ListingEntry
  | .directory => some (.directory name)
  | .file data => some (.file name data.length.toUInt64)
  | .link => none

namespace Host

def Node.found : Node → Found
  | .directory _ => .directory
  | .file content => .file content.toBytes
  | .symlink _ => .link

namespace FileStore

open Device

variable {fs fs' : FileStore} {chain chain' : List NodeId} {p q dir : RemotePath} {id : NodeId}
    {new : Node} {f : Found}
variable {n : RawName} {create : Bool} {rows : List ListingEntry} {s : Segment}

/-- The nodes from what is at a path up to the top. No link is followed. -/
def chainAt (fs : FileStore) (p : RemotePath) : Option (List NodeId) :=
  fs.descend [top] (hostNames p)

def foundAt (fs : FileStore) (p : RemotePath) : Option Found :=
  (fs.chainAt p).bind fun chain ↦ (fs.nodes.get? (here chain)).map Node.found

structure HeldIn (fs : FileStore) (p : RemotePath) (chain : List NodeId) : Prop where
  descend : fs.descend [top] (namesAbove p) = some chain
  directory : fs.isDirectory (here chain) = true

theorem foundAt_eq_some_iff : fs.foundAt p = some f ↔
    ∃ chain node, fs.chainAt p = some chain ∧ fs.nodes.get? (here chain) = some node ∧
    node.found = f := by
  simp only [foundAt, Option.bind_eq_some_iff, Option.map_eq_some_iff]
  constructor
  · intro h
    obtain ⟨chain, hc, node, hn, hf⟩ := h
    exact ⟨chain, node, hc, hn, hf⟩
  · intro h
    obtain ⟨chain, node, hc, hn, hf⟩ := h
    exact ⟨chain, hc, node, hn, hf⟩

theorem foundAt_of_chainAt {node : Node} (hc : fs.chainAt p = some chain)
    (hn : fs.nodes.get? (here chain) = some node) :
    fs.foundAt p = some node.found := foundAt_eq_some_iff.2 ⟨chain, node, hc, hn, rfl⟩

theorem chainAt_child (fs : FileStore) (dir : RemotePath) (s : Segment) : fs.chainAt (dir.child s) =
    (fs.chainAt dir).bind fun c ↦
      ((fs.entries (here c)).get? (Text.encode s.name)).map (· :: c) := by
  rw [chainAt, hostNames_child, descend_append]
  refine Option.bind_congr fun c _ ↦ ?_
  rw [descend]
  cases (fs.entries (here c)).get? (Text.encode s.name) <;> rfl

theorem HeldIn.chainAt (h : fs.HeldIn p chain) :
    fs.chainAt p = ((fs.entries (here chain)).get? (lastName p)).map (· :: chain) := by
  rw [FileStore.chainAt, hostNames_eq p, descend_append, h.descend, Option.bind_some,
    FileStore.descend]
  cases (fs.entries (here chain)).get? (lastName p) <;> rfl

theorem HeldIn.chainAt_of_entry (h : fs.HeldIn p chain)
    (hid : (fs.entries (here chain)).get? (lastName p) = some id) :
    fs.chainAt p = some (id :: chain) := by rw [h.chainAt, hid, Option.map_some]

theorem exists_of_chainAt (hc : fs.chainAt p = some chain) : ∃ c id, fs.HeldIn p c ∧
    (fs.entries (here c)).get? (lastName p) = some id ∧ chain = id :: c := by
  rw [chainAt, hostNames_eq p] at hc
  obtain ⟨c, id, hdescend, hid, he⟩ := descend_concat_eq_some_iff.1 hc
  exact ⟨c, id, ⟨hdescend, isDirectory_of_entry hid⟩, hid, he⟩

theorem foundAt_below (hq : q.within p = true) (hne : q ≠ p)
    (hb : ∀ c, fs.chainAt p = some c → ∀ n, (fs.entries (here c)).get? n = none) :
    fs.foundAt q = none := by
  obtain ⟨rest, hrest⟩ := hostNames_prefix_iff.2 hq
  cases rest with
  | nil =>
    rw [List.append_nil] at hrest
    exact absurd (hostNames_injective hrest).symm hne
  | cons n rest =>
    rw [foundAt, chainAt, ← hrest, descend_append]
    cases hc : fs.descend [top] (hostNames p) with
    | none => rfl
    | some c => rw [Option.bind_some, descend, hb c hc n, Option.bind_none, Option.bind_none]

def Shows (fs fs' : FileStore) : Prop :=
  ∀ id node, fs.nodes.get? id = some node → (fs'.nodes.get? id).map Node.found = some node.found

theorem shows_directory (hd : fs.isDirectory id = true) (entries : KeyMap RawName NodeId) :
    Shows fs ⟨fs.nodes.insert id (.directory entries), fs.next⟩ := by
  intro x node hx
  dsimp only
  rw [KeyMap.get?_insert]
  split
  · rename_i he
    obtain ⟨entries', hentries⟩ := isDirectory_iff.1 hd
    rw [he, hentries] at hx
    cases hx
    rfl
  · rw [hx]
    rfl

namespace Plain

theorem exists_node_of_chainAt (h : fs.Plain) (hc : fs.chainAt p = some chain) :
    ∃ node, fs.nodes.get? (here chain) = some node := by
  obtain ⟨c, id, -, hid, rfl⟩ := exists_of_chainAt hc
  exact h.wellFormed.exists_node hid

theorem eq_of_chainAt (h : fs.Plain) (hp : fs.chainAt p = some chain)
    (hq : fs.chainAt q = some chain')
    (he : here chain = here chain') : p = q := hostNames_injective (h.eq_of_descend hp hq he)

section Calls

theorem parentOf_eq_ok_iff' (h : fs.Plain) {x : List NodeId × RawName} :
    fs.parentOf (hostNames p) = .ok x ↔ ∃ chain, fs.HeldIn p chain ∧ x = (chain, lastName p) := by
  have hiff := @parentOf_eq_ok_iff fs (namesAbove p) (lastName p) x h (proper_namesAbove p)
  rw [← hostNames_eq p] at hiff
  rw [hiff]
  constructor
  · intro hx
    obtain ⟨c, hc, hd, he⟩ := hx
    exact ⟨c, ⟨hc, hd⟩, he⟩
  · intro hx
    obtain ⟨c, hc, he⟩ := hx
    exact ⟨c, hc.descend, hc.directory, he⟩

theorem resolve_of_heldIn (h : fs.Plain) (hp : fs.HeldIn p chain) (create : Bool) :
    fs.resolve create (hostNames p) =
    (fs.child chain (lastName p)).map (.entry chain (lastName p)) := by
  have hr := h.resolve_concat (proper_namesAbove p)
    (proper_lastName p) hp.descend hp.directory create
  rwa [← hostNames_eq p] at hr

theorem stat_eq_ok_iff (h : fs.Plain) :
    fs.stat (hostNames p) = .ok id ↔ ∃ chain, fs.chainAt p = some (id :: chain) := by
  constructor
  · intro hs
    rcases enters_or_fails h.wellFormed.top (namesAbove p) with ⟨c, links, henters⟩ | ⟨e, he⟩
    · obtain ⟨hdescend, hd⟩ := (h.enters_iff (proper_namesAbove p)).1 ⟨links, henters⟩
      have hheld : fs.HeldIn p c := ⟨hdescend, hd⟩
      obtain ⟨place, hr, hs⟩ := exists_of_bind_eq_ok hs
      rw [h.resolve_of_heldIn hheld] at hr
      cases hc : fs.child c (lastName p) with
      | error e =>
        rw [hc] at hr
        cases hr
      | ok found =>
        rw [hc] at hr
        cases hr
        cases found with
        | none => cases hs
        | some id' =>
          cases hs
          exact ⟨c, hheld.chainAt_of_entry (entry_of_child (proper_lastName p) hc).2⟩
    -- A walk that does not enter the directory around the path does not find the path.
    · have hr := (he (lastName p)).2 (proper_lastName p).2.1 false
      rw [← hostNames_eq p] at hr
      rw [FileStore.stat, hr] at hs
      cases hs
  · intro hx
    obtain ⟨chain, hc⟩ := hx
    obtain ⟨c, id', hheld, hid, he⟩ := exists_of_chainAt hc
    cases he
    rw [FileStore.stat, h.resolve_of_heldIn hheld, h.child_of_entry (proper_lastName p) hid]
    rfl

end Calls

section Changes

/-- A change of one entry concerns the paths through it alone. -/
theorem foundAt_frame (h : fs.Plain) (hp : fs.HeldIn p chain)
    (he : ∀ d n, ¬(d = here chain ∧ n = lastName p) →
      (fs'.entries d).get? n = (fs.entries d).get? n) (hn : Shows fs fs')
        (hq : q.within p = false) :
    fs'.foundAt q = fs.foundAt q := by
  have hout : ¬namesAbove p ++ [lastName p] <+: hostNames q := by
    rw [← hostNames_eq p, hostNames_prefix_iff, hq]
    exact Bool.false_ne_true
  rw [foundAt, foundAt, chainAt, chainAt, h.descend_frame hp.descend he hout]
  refine Option.bind_congr fun c hc ↦ ?_
  obtain ⟨node, hnode⟩ := h.exists_node_of_chainAt hc
  rw [hn _ node hnode, hnode, Option.map_some]

theorem foundAt_update (h : fs.Plain) (hp : fs.HeldIn p chain)
    (he : ∀ d n, ¬(d = here chain ∧ n = lastName p) →
      (fs'.entries d).get? n = (fs.entries d).get? n) (hn : Shows fs fs')
    (hb : ∀ c, fs.chainAt p = some c → ∀ n, (fs.entries (here c)).get? n = none)
    (hb' : ∀ c, fs'.chainAt p = some c → ∀ n, (fs'.entries (here c)).get? n = none) :
    fs'.foundAt = Function.update fs.foundAt p (fs'.foundAt p) := by
  funext q
  rw [Function.update_apply]
  split
  · rename_i hq
    rw [hq]
  · rename_i hne
    by_cases hq : q.within p = true
    · rw [foundAt_below hq hne hb', foundAt_below hq hne hb]
    · exact h.foundAt_frame hp he hn (Bool.eq_false_iff.2 hq)

theorem heldIn_of_frame (h : fs.Plain) (hp : fs.HeldIn p chain)
    (he : ∀ d n, ¬(d = here chain ∧ n = lastName p) →
      (fs'.entries d).get? n = (fs.entries d).get? n) (hd : fs'.isDirectory (here chain) = true) :
      fs'.HeldIn p chain := by
  have hout : ¬namesAbove p ++ [lastName p] <+: namesAbove p := by
    intro hx
    have hlength := hx.length_le
    rw [List.length_append, List.length_singleton] at hlength
    exact Nat.not_succ_le_self _ hlength
  exact ⟨(h.descend_frame hp.descend he hout).trans hp.descend, hd⟩

theorem foundAt_add (h : fs.Plain) (hp : fs.HeldIn p chain)
    (hfree : (fs.entries (here chain)).get? (lastName p) = none) (new : Node) (hb : new.Bare) :
    (fs.add (here chain) (lastName p) new).2.chainAt p = some (fs.next :: chain) ∧
      (fs.add (here chain) (lastName p) new).2.foundAt =
        Function.update fs.foundAt p (some new.found) := by
  have hget := @get?_add fs (here chain) (lastName p) new h.wellFormed hp.directory
  have hentries := @get?_entries_add fs (here chain) (lastName p) new h.wellFormed hb
  -- The two look-ups say all that is needed of the new store.
  generalize (fs.add (here chain) (lastName p) new).2 = fs' at hget hentries ⊢
  have hne : fs.next ≠ here chain := Nat.ne_of_gt (lt_next_of_isDirectory h.wellFormed hp.directory)
  have he : ∀ d n, ¬(d = here chain ∧ n = lastName p) →
      (fs'.entries d).get? n = (fs.entries d).get? n := fun d n hx ↦ by rw [hentries, if_neg hx]
  have hshows : Shows fs fs' := by
    intro x node hx
    rw [hget]
    split
    · rename_i hx'
      obtain ⟨entries, hdir⟩ := isDirectory_iff.1 hp.directory
      rw [hx', hdir] at hx
      cases hx
      rfl
    · rw [if_neg (Nat.ne_of_lt (h.wellFormed.lt_of_get? hx)), hx]
      rfl
  have hdir : fs'.isDirectory (here chain) = true :=
    isDirectory_iff.2 ⟨_, (hget _).trans (if_pos rfl)⟩
  have hchain : fs'.chainAt p = some (fs.next :: chain) :=
    (h.heldIn_of_frame hp he hdir).chainAt_of_entry ((hentries _ _).trans (if_pos ⟨rfl, rfl⟩))
  have hnew : fs'.nodes.get? fs.next = some new := by rw [hget, if_neg hne, if_pos rfl]
  refine ⟨hchain, ?_⟩
  rw [h.foundAt_update hp he hshows, foundAt_of_chainAt hchain hnew]
  · intro c hc
    rw [hp.chainAt, hfree] at hc
    cases hc
  · intro c hc n
    cases hchain.symm.trans hc
    have hnone : fs.entries fs.next = .empty := by rw [entries, h.wellFormed.get?_next]
    change (fs'.entries fs.next).get? n = none
    rw [hentries, if_neg fun hx ↦ hne hx.1, hnone]
    rfl

theorem foundAt_setContent (h : fs.Plain) {old : Content} (hc : fs.chainAt p = some (id :: chain))
    (hf : fs.nodes.get? id = some (.file old)) (content : Content) :
    (fs.setContent id content).chainAt p = some (id :: chain) ∧
      (fs.setContent id content).foundAt =
        Function.update fs.foundAt p (some (.file content.toBytes)) := by
  have hchain : ∀ q, (fs.setContent id content).chainAt q = fs.chainAt q := fun q ↦
    descend_congr (fun d n ↦ by rw [entries_setContent hf]) [top] (hostNames q)
  refine ⟨(hchain p).trans hc, ?_⟩
  funext q
  rw [Function.update_apply, FileStore.foundAt, hchain]
  split
  · rename_i hq
    rw [hq, hc, Option.bind_some, FileStore.setContent, KeyMap.get?_insert]
    exact congrArg (Option.map Node.found) (if_pos rfl)
  · rename_i hne
    refine Option.bind_congr fun c hc' ↦ ?_
    rw [FileStore.setContent, KeyMap.get?_insert,
      if_neg fun he : here c = id ↦ hne (h.eq_of_chainAt hc' hc he)]

theorem foundAt_unlinkName (h : fs.Plain) (hp : fs.HeldIn p chain)
    (hid : (fs.entries (here chain)).get? (lastName p) = some id)
    (hb : ∀ n, (fs.entries id).get? n = none) :
    (fs.unlinkName (here chain) (lastName p)).foundAt = Function.update fs.foundAt p none := by
  have hentries := get?_entries_unlinkName fs (here chain) (lastName p)
  have hshows : Shows fs (fs.unlinkName (here chain) (lastName p)) := shows_directory hp.directory _
  have hkeeps := keeps_directory hp.directory ((fs.entries (here chain)).erase (lastName p))
  change fs.Keeps (fs.unlinkName (here chain) (lastName p)) at hkeeps
  generalize fs.unlinkName (here chain) (lastName p) = fs' at hentries hshows hkeeps ⊢
  have he : ∀ d n, ¬(d = here chain ∧ n = lastName p) →
      (fs'.entries d).get? n = (fs.entries d).get? n := fun d n hx ↦ by rw [hentries, if_neg hx]
  have hchain : fs'.chainAt p = none := by
    rw [(h.heldIn_of_frame hp he (hkeeps.isDirectory hp.directory)).chainAt, hentries,
      if_pos ⟨rfl, rfl⟩]
    rfl
  rw [h.foundAt_update hp he hshows, foundAt, hchain, Option.bind_none]
  · intro c hc
    cases (hp.chainAt_of_entry hid).symm.trans hc
    exact hb
  · intro c hc
    cases hchain.symm.trans hc

theorem foundAt_move (h : fs.Plain) {source dest : List NodeId} (hp : fs.HeldIn p source)
    (hq : fs.HeldIn q dest)
    (hid : (fs.entries (here source)).get? (lastName p) = some id) (hd : id ∉ dest)
    {r : RemotePath} (hrp : r.within p = false) (hrq : r.within q = false) :
    ((fs.unlinkName (here source) (lastName p)).link (here dest)
      (lastName q) id).foundAt r = fs.foundAt r := by
  have hentries := get?_entries_unlinkName fs (here source) (lastName p)
  have hshows : Shows fs (fs.unlinkName (here source) (lastName p)) :=
    shows_directory hp.directory _
  have hkeeps := keeps_directory hp.directory ((fs.entries (here source)).erase (lastName p))
  change fs.Keeps (fs.unlinkName (here source) (lastName p)) at hkeeps
  have hplain := h.unlinkName hp.directory (lastName p)
  generalize fs.unlinkName (here source) (lastName p) = fs' at hentries hshows hkeeps hplain ⊢
  have he : ∀ d n, ¬(d = here source ∧ n = lastName p) →
      (fs'.entries d).get? n = (fs.entries d).get? n := fun d n hx ↦ by rw [hentries, if_neg hx]
  -- The way to the new place does not lead through what is moved, so it is the same without it.
  have hout : ¬namesAbove p ++ [lastName p] <+: namesAbove q := by
    intro hx
    rw [← hostNames_eq p] at hx
    obtain ⟨rest, hrest⟩ := hx
    have hdest := hq.descend
    rw [← hrest, descend_append, show fs.descend [top] (hostNames p) =
      _ from hp.chainAt_of_entry hid, Option.bind_some] at hdest
    exact hd ((suffix_of_descend hdest).subset List.mem_cons_self)
  have hheld : fs'.HeldIn q dest :=
    ⟨(h.descend_frame hp.descend he hout).trans hq.descend, hkeeps.isDirectory hq.directory⟩
  have hlinked : Shows fs' (fs'.link (here dest) (lastName q) id) :=
    shows_directory hheld.directory _
  rw [hplain.foundAt_frame hheld _ hlinked hrq, h.foundAt_frame hp he hshows hrp]
  intro d n hx
  rw [get?_entries_link, if_neg hx]

end Changes

section Listing

variable {store : FileStore} {name : String} {row : ListingEntry}

theorem row?_eq (store : FileStore) (name : String) (id : NodeId) :
    row? store (Text.encode name) id =
      ((store.nodes.get? id).map Node.found).bind (Found.row? name) := by
  have htext : Text.decode? (Text.encode name) = some name := Text.decode?_eq_some_iff.2 rfl
  rw [Device.row?, htext]
  cases store.nodes.get? id with
  | none => rfl
  | some node =>
    cases node with
    | directory entries => rfl
    | symlink target => rfl
    | file content =>
      simp only [Option.map_some, Node.found, Option.bind_some, Found.row?, Content.length_toBytes]
      rfl

theorem listing_eq_ok_iff (h : fs.Plain) : listing fs dir = .ok rows ↔
    dir.text.utf8ByteSize ≤ pathLimit ∧ ∃ chain, fs.chainAt dir = some chain ∧
    fs.isDirectory (here chain) = true ∧
      rows = ListingEntry.sorted ((fs.entries (here chain)).toList.filterMap fun e ↦
        row? fs e.1 e.2) := by
  have hlisted : ∀ {chain : List NodeId}, dir.text.utf8ByteSize ≤ pathLimit →
      fs.chainAt dir = some chain →
      fs.isDirectory (here chain) = true → listing fs dir =
        .ok (ListingEntry.sorted ((fs.entries (here chain)).toList.filterMap fun e ↦
          row? fs e.1 e.2)) := by
    intro chain hl hc hd
    obtain ⟨c, id, -, -, rfl⟩ := exists_of_chainAt hc
    rw [listing, hostCall, if_neg (Nat.not_lt.2 hl), h.stat_eq_ok_iff.2 ⟨c, hc⟩]
    simp only [bind, Except.bind]
    rw [if_pos (show fs.isDirectory id = true from hd)]
    rfl
  constructor
  · intro hr
    have hl := (hostCall_eq_ok hr).1
    obtain ⟨id, hs, hd⟩ := stat_of_listing hr
    obtain ⟨c, hc⟩ := h.stat_eq_ok_iff.1 hs
    exact ⟨hl, id :: c, hc, hd, Except.ok.inj (hr.symm.trans (hlisted hl hc hd))⟩
  · intro hx
    obtain ⟨hl, chain, hc, hd, rfl⟩ := hx
    exact hlisted hl hc hd

theorem foundAt_directory_iff : fs.foundAt dir = some .directory ↔
    ∃ chain, fs.chainAt dir = some chain ∧ fs.isDirectory (here chain) = true := by
  rw [foundAt_eq_some_iff]
  refine exists_congr fun chain ↦ ?_
  constructor
  · intro hx
    obtain ⟨node, hc, hn, hf⟩ := hx
    cases node with
    | directory entries => exact ⟨hc, isDirectory_iff.2 ⟨entries, hn⟩⟩
    | file content => cases hf
    | symlink target => cases hf
  · intro hx
    obtain ⟨hc, hd⟩ := hx
    obtain ⟨entries, hn⟩ := isDirectory_iff.1 hd
    exact ⟨.directory entries, hc, hn, rfl⟩

/-- A listing has one row for each child of the directory, by what is there. -/
theorem mem_listing_iff (h : fs.Plain) (hl : listing fs dir = .ok rows) :
    row ∈ rows ∧ row.name = s.name ↔
    (fs.foundAt (dir.child s)).bind (Found.row? s.name) = some row := by
  obtain ⟨-, chain, hc, -, rfl⟩ := h.listing_eq_ok_iff.1 hl
  have hfound : (fs.foundAt (dir.child s)).bind (Found.row? s.name) =
      ((fs.entries (here chain)).get? (Text.encode s.name)).bind fun id ↦
        row? fs (Text.encode s.name) id := by
    rw [foundAt, chainAt_child, hc, Option.bind_some]
    cases (fs.entries (here chain)).get? (Text.encode s.name) with
    | none => rfl
    | some id => exact (row?_eq fs s.name id).symm
  simp only [hfound, Option.bind_eq_some_iff, ListingEntry.sorted, List.mem_mergeSort,
    List.mem_filterMap]
  constructor
  · intro hx
    obtain ⟨⟨entry, hentry, hrow⟩, hname⟩ := hx
    have hraw := (of_row? hrow).1
    rw [hname] at hraw
    exact ⟨entry.2, KeyMap.get?_eq_some_iff.2 (hraw ▸ hentry), hraw ▸ hrow⟩
  · intro hx
    obtain ⟨id, hid, hrow⟩ := hx
    exact ⟨⟨(Text.encode s.name, id), KeyMap.get?_eq_some_iff.1 hid, hrow⟩,
      (Text.encode_injective (of_row? hrow).1).symm⟩

end Listing

end Plain

end FileStore

end Host

end RemoteMount
