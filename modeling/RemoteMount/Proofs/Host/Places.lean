import Mathlib.Data.List.Induction
import RemoteMount.Proofs.Host.Entries

namespace RemoteMount.Host

namespace FileStore

variable {fs fs' : FileStore} {create : Bool} {chain chain' : List NodeId}
    {names names' : List RawName}
variable {dir id : NodeId} {name last : RawName} {place : Place} {x : List NodeId × RawName}

section Entries

variable (fs dir name id)

theorem get?_entries_link (d : NodeId) (n : RawName) : ((fs.link dir name id).entries d).get? n =
    if d = dir ∧ n = name then some id else (fs.entries d).get? n := by
  by_cases hd : d = dir
  · subst hd
    have hself : (fs.link d name id).entries d = (fs.entries d).insert name id := by
      rw [link, entries, KeyMap.get?_insert_self]
    rw [hself, KeyMap.get?_insert]
    simp only [true_and]
  · have hother : (fs.link dir name id).entries d = fs.entries d := by
      rw [link, entries, KeyMap.get?_insert, if_neg hd, ← entries]
    rw [hother, if_neg fun h ↦ hd h.1]

theorem get?_entries_unlinkName (d : NodeId) (n : RawName) :
    ((fs.unlinkName dir name).entries d).get? n =
    if d = dir ∧ n = name then none else (fs.entries d).get? n := by
  by_cases hd : d = dir
  · subst hd
    have hself : (fs.unlinkName d name).entries d = (fs.entries d).erase name := by
      rw [unlinkName, entries, KeyMap.get?_insert_self]
    rw [hself, KeyMap.get?_erase]
    simp only [true_and]
  · have hother : (fs.unlinkName dir name).entries d = fs.entries d := by
      rw [unlinkName, entries, KeyMap.get?_insert, if_neg hd, ← entries]
    rw [hother, if_neg fun h ↦ hd h.1]

variable {fs dir name id}

theorem entries_of_file {content : Content} (hf : fs.nodes.get? id = some (.file content)) :
    fs.entries id = .empty := by
  rw [entries, hf]

theorem entries_setContent {old : Content} (hf : fs.nodes.get? id = some (.file old))
    (new : Content) (d : NodeId) :
    (fs.setContent id new).entries d = fs.entries d := by
  by_cases hd : d = id
  · subst hd
    rw [entries_of_file hf, setContent, entries, KeyMap.get?_insert_self]
  · rw [setContent, entries, KeyMap.get?_insert, if_neg hd, ← entries]

theorem get?_entries_add {new : Node} (hw : fs.WellFormed) (hb : new.Bare) (d : NodeId)
    (n : RawName) :
    ((fs.add dir name new).2.entries d).get? n =
      if d = dir ∧ n = name then some fs.next else (fs.entries d).get? n := by
  have hmade : (FileStore.entries ⟨fs.nodes.insert fs.next new, fs.next + 1⟩ d).get? n =
      (fs.entries d).get? n := by
    by_cases hd : d = fs.next
    · subst hd
      have hnone : fs.entries fs.next = .empty := by rw [entries, hw.get?_next]
      rw [hnone, entries, KeyMap.get?_insert_self]
      cases new with
      | directory entries =>
        obtain rfl : entries = .empty := hb
        rfl
      | file content => rfl
      | symlink target => rfl
    · rw [entries, KeyMap.get?_insert, if_neg hd, ← entries]
  rw [add, get?_entries_link, hmade]

end Entries

section Descend

/-- The nodes to which names lead on from the first of a chain, before it. No link is
followed. -/
def descend (fs : FileStore) : List NodeId → List RawName → Option (List NodeId)
  | chain, [] => some chain
  | chain, name :: names =>
    ((fs.entries (here chain)).get? name).bind fun id ↦ fs.descend (id :: chain) names

theorem descend_append (fs : FileStore) (chain : List NodeId) (names names' : List RawName) :
    fs.descend chain (names ++ names') = (fs.descend chain names).bind fun c ↦
      fs.descend c names' := by
  induction names generalizing chain with
  | nil => rfl
  | cons name names ih =>
    rw [List.cons_append, descend, descend]
    cases (fs.entries (here chain)).get? name with
    | none => rfl
    | some id => exact ih (id :: chain)

theorem descend_concat_eq_some_iff : fs.descend chain (names ++ [name]) = some chain' ↔
    ∃ c id, fs.descend chain names = some c ∧ (fs.entries (here c)).get? name = some id ∧
    chain' = id :: c := by
  rw [descend_append, Option.bind_eq_some_iff]
  simp only [descend, Option.bind_eq_some_iff, Option.some_inj]
  constructor
  · intro h
    obtain ⟨c, hc, id, hid, he⟩ := h
    exact ⟨c, id, hc, hid, he.symm⟩
  · intro h
    obtain ⟨c, id, hc, hid, he⟩ := h
    exact ⟨c, hc, id, hid, he.symm⟩

theorem suffix_of_descend (h : fs.descend chain names = some chain') : chain <:+ chain' := by
  induction names generalizing chain with
  | nil =>
    cases h
    exact List.suffix_refl _
  | cons name names ih =>
    obtain ⟨id, -, h⟩ := Option.bind_eq_some_iff.1 h
    exact (List.suffix_cons id chain).trans (ih h)

theorem eq_nil_of_descend_file {content : Content}
    (hf : fs.nodes.get? (here chain) = some (.file content))
    (h : fs.descend chain names = some chain') : names = [] := by
  cases names with
  | nil => rfl
  | cons name names =>
    obtain ⟨id, hid, -⟩ := Option.bind_eq_some_iff.1 h
    rw [entries_of_file hf] at hid
    cases hid

theorem descend_congr (h : ∀ d n, (fs'.entries d).get? n = (fs.entries d).get? n)
    (chain : List NodeId)
    (names : List RawName) : fs'.descend chain names = fs.descend chain names := by
  induction names generalizing chain with
  | nil => rfl
  | cons name names ih =>
    rw [descend, descend, h]
    simp only [ih]

end Descend

theorem child_proper (fs : FileStore) (chain : List NodeId) (hn : Proper name) :
    fs.child chain name =
    if RawName.limit < name.length then .error Errno.nametoolong
      else .ok ((fs.entries (here chain)).get? name) := by
  rw [FileStore.child, if_neg hn.1, if_neg hn.2.2]

theorem entry_of_child (hn : Proper name) {found : Option NodeId}
    (hc : fs.child chain name = .ok found) :
    name.length ≤ RawName.limit ∧ (fs.entries (here chain)).get? name = found := by
  rw [child_proper fs chain hn] at hc
  split at hc
  · cases hc
  · exact ⟨Nat.not_lt.1 ‹_›, Except.ok.inj hc⟩

theorem free_of_child (hc : fs.child chain name = .ok none) :
    name.length ≤ RawName.limit ∧ (fs.entries (here chain)).get? name = none := by
  unfold FileStore.child at hc
  split at hc
  · cases hc
  split at hc
  · cases hc
  split at hc
  · cases hc
  · rename_i hl
    exact ⟨Nat.not_lt.1 hl, Except.ok.inj hc⟩

/-- As ordinary file systems are without links: each node has one name, and names and lengths
are such as the host can tell. -/
structure Plain (fs : FileStore) : Prop where
  wellFormed : fs.WellFormed
  noLink : ∀ id target, fs.nodes.get? id ≠ some (.symlink target)
  topUnnamed : ∀ dir name, (fs.entries dir).get? name ≠ some top
  oneName : ∀ dir dir' name name' id, (fs.entries dir).get? name = some id →
    (fs.entries dir').get? name' = some id →
    dir = dir' ∧ name = name'
  shortNames : ∀ dir name id, (fs.entries dir).get? name = some id → name.length ≤ RawName.limit
  lengths : ∀ id content, fs.nodes.get? id = some (.file content) →
    content.size < Session.offsetLimit

namespace Plain

theorem eq_of_descend (h : fs.Plain) (hn : fs.descend [top] names = some chain)
    (hn' : fs.descend [top] names' = some chain')
    (he : here chain = here chain') : names = names' := by
  -- Each node has one name in one directory, so both lists of names are told from their ends.
  induction names using List.reverseRecOn generalizing chain names' chain' with
  | nil =>
    cases hn
    rcases List.eq_nil_or_concat' names' with rfl | ⟨above, name, rfl⟩
    · rfl
    · obtain ⟨c, id, -, hid, rfl⟩ := descend_concat_eq_some_iff.1 hn'
      obtain rfl : top = id := he
      exact absurd hid (h.topUnnamed _ _)
  | append_singleton names name ih =>
    obtain ⟨c, id, hc, hid, rfl⟩ := descend_concat_eq_some_iff.1 hn
    rcases List.eq_nil_or_concat' names' with rfl | ⟨above, name', rfl⟩
    · cases hn'
      obtain rfl : id = top := he
      exact absurd hid (h.topUnnamed _ _)
    · obtain ⟨c', id', hc', hid', rfl⟩ := descend_concat_eq_some_iff.1 hn'
      obtain rfl : id = id' := he
      obtain ⟨hdir, rfl⟩ := h.oneName _ _ _ _ _ hid hid'
      rw [ih hc hc' hdir]

/-- A change to one entry is nothing to names that do not lead through it. -/
theorem descend_frame (h : fs.Plain) (hc : fs.descend [top] names = some chain)
    (hs : ∀ d n, ¬(d = here chain ∧ n = name) → (fs'.entries d).get? n = (fs.entries d).get? n)
    (hn : ¬names ++ [name] <+: names') : fs'.descend [top] names' = fs.descend [top] names' := by
  -- From the end: the last name is looked up where the names before it lead, and there is one way
  -- only to each directory.
  induction names' using List.reverseRecOn with
  | nil => rfl
  | append_singleton above last ih =>
    rw [descend_append, descend_append, ih fun hp ↦ hn (hp.trans (List.prefix_append _ _))]
    cases hd : fs.descend [top] above with
    | none => rfl
    | some c =>
      have hother : ¬(here c = here chain ∧ last = name) := by
        intro hx
        obtain ⟨hhere, rfl⟩ := hx
        exact hn (h.eq_of_descend hd hc hhere ▸ List.prefix_refl _)
      simp only [Option.bind_some, descend, hs _ _ hother]

theorem child_of_entry (h : fs.Plain) (hn : Proper name)
    (hid : (fs.entries (here chain)).get? name = some id) :
    fs.child chain name = .ok (some id) := by
  rw [child_proper fs chain hn, if_neg (Nat.not_lt.2 (h.shortNames _ _ _ hid)), hid]

theorem advance_ne_atLink (h : fs.Plain) {c : List NodeId} {target : Bytes} {rest : List RawName} :
    fs.advance create chain names ≠ .atLink c target rest := by
  have hlast : ∀ {l : List RawName} {p q : Progress}, p ≠ .atLink c target rest →
      q ≠ .atLink c target rest →
      (if l = [] then p else q) ≠ .atLink c target rest := by
    intro l p q hp hq
    split
    · exact hp
    · exact hq
  induction names generalizing chain with
  | nil => exact nofun
  | cons name names ih =>
    rcases skipped_or_dotdot_or_proper name with hskip | rfl | hproper
    · rw [advance_skipped hskip]
      exact ih
    · rw [advance_dotdot]
      exact ih
    by_cases hmade : create = true ∧ names = [RawName.nothing]
    · rw [advance_made hproper hmade]
      exact nofun
    rw [advance_proper hproper hmade]
    cases fs.child chain name with
    | error e => exact nofun
    | ok found =>
      cases found with
      | none => exact hlast nofun nofun
      | some id =>
        dsimp only
        split
        · exact absurd ‹_› (h.noLink _ _)
        · exact hlast nofun ih
        · exact hlast nofun nofun

theorem resolve_eq_ok_iff (h : fs.Plain) :
    fs.resolve create names = .ok place ↔ fs.advance create [top] names = .arrived place := by
  constructor
  · intro hr
    cases ha : fs.advance create [top] names with
    | arrived place' => rw [← Except.ok.inj ((resolveFrom_of_arrived ha linkLimit).symm.trans hr)]
    | failed e => cases (resolveFrom_of_failed ha linkLimit).symm.trans hr
    | atLink c target rest => exact absurd ha h.advance_ne_atLink
  · intro ha
    exact resolveFrom_of_arrived ha linkLimit

section Walks

theorem advance_dot_iff (h : fs.Plain) (hp : ∀ n ∈ names, Proper n) :
    fs.advance create chain (names ++ [RawName.dot]) = .arrived place ↔
      ∃ c, fs.descend chain names = some c ∧ (names ≠ [] → fs.isDirectory (here c) = true) ∧
      place = .directory c := by
  have hdot : RawName.dot ≠ RawName.nothing := by decide
  induction names generalizing chain with
  | nil =>
    rw [List.nil_append, advance_skipped (.inl rfl), advance, descend, Progress.arrived.injEq]
    constructor
    · intro hx
      exact ⟨chain, rfl, absurd rfl, hx.symm⟩
    · intro hx
      obtain ⟨c, hc, -, rfl⟩ := hx
      cases hc
      rfl
  | cons n names ih =>
    obtain ⟨hn, hp⟩ := List.forall_mem_cons.1 hp
    rw [advance_proper_concat fs chain names hn create hdot, child_proper fs chain hn, descend]
    cases hid : (fs.entries (here chain)).get? n with
    | none => by_cases hl : RawName.limit < n.length <;> simp [hl]
    | some id =>
      rw [if_neg (Nat.not_lt.2 (h.shortNames _ _ _ hid)), Option.bind_some]
      dsimp only
      obtain ⟨node, hnode⟩ := h.wellFormed.exists_node hid
      cases node with
      | symlink target => exact absurd hnode (h.noLink _ _)
      | directory entries =>
        rw [hnode]
        -- The hypothesis asks for a directory only behind further names, but this one is a
        -- directory anyway.
        refine (@ih (id :: chain) hp).trans ?_
        refine exists_congr fun c ↦ and_congr_right fun hc ↦ and_congr_left fun _ ↦ ?_
        cases names with
        | nil =>
          cases hc
          simp [here, isDirectory_iff, hnode]
        | cons n' names => simp
      | file content =>
        rw [hnode]
        constructor
        · rintro ⟨⟩
        · intro hx
          obtain ⟨c, hc, hdir, -⟩ := hx
          have hlast := hdir (List.cons_ne_nil _ _)
          obtain rfl := eq_nil_of_descend_file hnode hc
          cases hc
          obtain ⟨entries, hentries⟩ := isDirectory_iff.1 hlast
          cases hnode.symm.trans hentries

theorem parentOf_eq_ok_iff (h : fs.Plain) (hp : ∀ n ∈ names, Proper n) :
    fs.parentOf (names ++ [name]) = .ok x ↔
    ∃ c, fs.descend [top] names = some c ∧ fs.isDirectory (here c) = true ∧ x = (c, name) := by
  have hresolve : ∀ {p : Place}, fs.resolve false (names ++ [RawName.dot]) = .ok p ↔
      ∃ c, fs.descend [top] names = some c ∧ fs.isDirectory (here c) = true ∧ p = .directory c := by
    intro p
    rw [h.resolve_eq_ok_iff, h.advance_dot_iff hp]
    refine exists_congr fun c ↦ and_congr_right fun hc ↦ and_congr_left fun _ ↦ ?_
    constructor
    · intro hdir
      cases names with
      | nil =>
        cases hc
        exact h.wellFormed.top
      | cons n names => exact hdir (List.cons_ne_nil _ _)
    · exact fun hdir _ ↦ hdir
  -- The directory around a path is resolved by putting a dot for the last name.
  rw [FileStore.parentOf, List.dropLast_concat, List.getLastD_concat]
  constructor
  · intro hx
    obtain ⟨p, hr, hx⟩ := exists_of_bind_eq_ok hx
    obtain ⟨c, hc, hdir, rfl⟩ := hresolve.1 hr
    cases hx
    exact ⟨c, hc, hdir, rfl⟩
  · intro hx
    obtain ⟨c, hc, hdir, rfl⟩ := hx
    rw [hresolve.2 ⟨c, hc, hdir, rfl⟩]
    rfl

theorem enters_iff (h : fs.Plain) (hp : ∀ n ∈ names, Proper n) :
    (∃ links, fs.Enters names chain links) ↔
    fs.descend [top] names = some chain ∧ fs.isDirectory (here chain) = true := by
  constructor
  · intro hx
    obtain ⟨links, hx⟩ := hx
    obtain ⟨c, hc, hdir, he⟩ := (h.parentOf_eq_ok_iff hp).1 (hx.parentOf RawName.dot)
    cases he
    exact ⟨hc, hdir⟩
  · intro hx
    obtain ⟨hc, hdir⟩ := hx
    have hparent : fs.parentOf (names ++ [RawName.dot]) = .ok (chain, RawName.dot) :=
      (h.parentOf_eq_ok_iff hp).2 ⟨chain, hc, hdir, rfl⟩
    rcases enters_or_fails h.wellFormed.top names with ⟨c, links, henters⟩ | ⟨e, he⟩
    · cases (henters.parentOf RawName.dot).symm.trans hparent
      exact ⟨links, henters⟩
    · cases hparent.symm.trans (he RawName.dot).1

theorem resolve_concat (h : fs.Plain) (hp : ∀ n ∈ names, Proper n) (hn : Proper name)
    (hc : fs.descend [top] names = some chain) (hd : fs.isDirectory (here chain) = true)
    (create : Bool) :
    fs.resolve create (names ++ [name]) = (fs.child chain name).map (.entry chain name) := by
  obtain ⟨links, henters⟩ := (h.enters_iff hp).2 ⟨hc, hd⟩
  rw [henters.resolve create name hn.2.1]
  have hlast : ¬(create = true ∧ ([] : List RawName) = [RawName.nothing]) := by simp
  cases hchild : fs.child chain name with
  | error e => exact resolveFrom_of_refused hn hchild
  | ok found =>
    cases found with
    | none => exact resolveFrom_of_free hn hchild
    | some id =>
      refine resolveFrom_of_arrived ?_ links
      rw [advance_proper hn hlast, hchild]
      dsimp only
      split
      · exact absurd ‹_› (h.noLink _ _)
      · rfl
      · rfl

end Walks

end Plain

end FileStore

namespace Device

open FileStore

variable {p q dir : RemotePath} {fs : FileStore} {name : RawName} {x : List NodeId × RawName}

theorem proper_of_mem_hostNames (h : name ∈ hostNames p) : Proper name := by
  have hserved : Proper servedName := proper_encode ⟨"storage", by decide⟩
  rcases List.mem_cons.1 h with rfl | h
  · exact hserved
  · obtain ⟨_, ht, rfl⟩ := List.mem_map.1 h
    obtain ⟨s, -, rfl⟩ := List.mem_map.1 ht
    exact proper_encode s

def namesAbove (p : RemotePath) : List RawName := (hostNames p).dropLast

def lastName (p : RemotePath) : RawName := (hostNames p).getLastD RawName.dot

theorem hostNames_eq (p : RemotePath) : hostNames p = namesAbove p ++ [lastName p] := by
  have hne : hostNames p ≠ [] := List.cons_ne_nil _ _
  rw [lastName, namesAbove, List.getLastD_eq_getLast?, List.getLast?_eq_some_getLast hne,
    Option.getD_some, List.dropLast_append_getLast hne]

theorem proper_lastName (p : RemotePath) : Proper (lastName p) :=
  proper_of_mem_hostNames (by rw [hostNames_eq p]; simp)

theorem proper_namesAbove (p : RemotePath) : ∀ name ∈ namesAbove p, Proper name :=
  fun _ h ↦ proper_of_mem_hostNames (List.mem_of_mem_dropLast h)

theorem hostNames_prefix_iff : hostNames p <+: hostNames q ↔ q.within p = true := by
  have hinjective : Function.Injective Text.encode := fun _ _ ↦ Text.encode_injective
  rw [hostNames, hostNames, List.cons_prefix_cons, ← RemotePath.components_prefix_iff]
  exact (and_iff_right rfl).trans (List.prefix_map_iff_of_injective hinjective)

theorem hostNames_injective (h : hostNames p = hostNames q) : p = q :=
  RemotePath.within_antisymm (hostNames_prefix_iff.1 (h ▸ List.prefix_refl _))
    (hostNames_prefix_iff.1 (h ▸ List.prefix_refl _))

theorem snd_of_parentOf {names : List RawName} (h : fs.parentOf names = .ok x) :
    x.2 = names.getLastD RawName.dot := by
  obtain ⟨place, -, h⟩ := exists_of_bind_eq_ok h
  cases place with
  | directory chain =>
    cases h
    rfl
  | entry chain name found => cases h

end Device

end RemoteMount.Host
