import RemoteMount.Proofs.Host.TreeEffects

namespace RemoteMount.Host

open Device (servedName hostNames)

namespace FileStore

variable {fs fs' : FileStore} {names : List RawName} {chain : List NodeId} {dir id : NodeId}
    {name n : RawName} {p : RemotePath}

def Rooted (fs : FileStore) : Prop :=
  ∃ id, (fs.entries top).get? servedName = some id ∧ fs.isDirectory id = true

theorem proper_servedName : Proper servedName :=
  Device.proper_of_mem_hostNames (p := .root) List.mem_cons_self

section Entries

theorem entry_add {new : Node} (hw : fs.WellFormed) (hb : new.Bare)
    (hc : fs.child chain n = .ok none)
    (hid : (fs.entries dir).get? name = some id) :
    ((fs.add (here chain) n new).2.entries dir).get? name = some id := by
  rw [get?_entries_add hw hb, if_neg, hid]
  intro h
  obtain ⟨rfl, rfl⟩ := h
  cases hid.symm.trans (free_of_child hc).2

theorem entry_openFile {x : NodeId × FileStore} {create : Bool} (hw : fs.WellFormed)
    (ho : fs.openFile names create = .ok x) (hid : (fs.entries dir).get? name = some id) :
    (x.2.entries dir).get? name = some id := by
  obtain ⟨chain, n, found, hr, hx⟩ := openFile_eq_ok ho
  obtain ⟨hclimbs, hchild, hlink⟩ := resolveFrom_sound hw.top (climbs_top hw.top) hr
  cases found with
  | none =>
    obtain ⟨-, rfl⟩ := hx
    exact entry_add hw trivial hchild hid
  | some opened =>
    obtain ⟨hdir, rfl⟩ := hx
    obtain ⟨node, hnode⟩ := exists_of_child hw hclimbs hchild
    cases create with
    | false => exact hid
    | true =>
      cases node with
      | directory entries => cases (isDirectory_iff.2 ⟨entries, hnode⟩).symm.trans hdir
      | symlink target => exact absurd hnode (hlink opened target rfl)
      | file content =>
        rw [if_pos rfl, entries_setContent hnode]
        exact hid

theorem entry_mkdir (hw : fs.WellFormed) (hm : fs.mkdir names = .ok fs')
    (hid : (fs.entries dir).get? name = some id) :
    (fs'.entries dir).get? name = some id := by
  obtain ⟨chain, n, -, hc, rfl⟩ := mkdir_eq_ok hm
  exact entry_add hw rfl hc hid

theorem entry_unlinkName {x : NodeId} (hn : Proper name) (hc : fs.child chain n = .ok (some x))
    (hid : (fs.entries dir).get? name = some id) (hx : x ≠ id) :
    ((fs.unlinkName (here chain) n).entries dir).get? name = some id := by
  rw [get?_entries_unlinkName, if_neg, hid]
  intro h
  obtain ⟨rfl, rfl⟩ := h
  exact hx (Option.some.inj ((entry_of_child hn hc).2.symm.trans hid))

theorem entry_unlink (hn : Proper name) (hm : fs.unlink names = .ok fs')
    (hid : (fs.entries dir).get? name = some id)
    (hd : fs.isDirectory id = true) : (fs'.entries dir).get? name = some id := by
  obtain ⟨chain, n, x, -, hc, hx, rfl⟩ := unlink_eq_ok hm
  refine entry_unlinkName hn hc hid ?_
  intro he
  cases (he ▸ hx).symm.trans hd

theorem entry_rmdir (hn : Proper name) (hm : fs.rmdir names = .ok fs')
    (hid : (fs.entries dir).get? name = some id)
    (hd : (fs.entries id).size ≠ 0) : (fs'.entries dir).get? name = some id := by
  obtain ⟨chain, n, x, -, hc, hx, rfl⟩ := rmdir_eq_ok hm
  exact entry_unlinkName hn hc hid fun he ↦ hd (he ▸ hx)

/-- An entry for a directory is lost to a renaming if it is the one that moves, and moves
elsewhere. If something is moved in its place, then a directory. -/
theorem entry_rename {old new : List NodeId × RawName} (ho : Proper old.2) (hn : Proper new.2)
    (hr : fs.rename old new = .ok fs') (hid : (fs.entries dir).get? name = some id)
    (hd : fs.isDirectory id = true) :
    if here old.1 = dir ∧ old.2 = name ∧ (fs.entries (here new.1)).get? new.2 ≠ some id then
      (fs'.entries dir).get? name = none
    else ∃ id', (fs'.entries dir).get? name = some id' ∧ fs.isDirectory id' = true := by
  obtain ⟨moved, target, hmoved, htarget, -, hx⟩ := rename_eq_ok hr
  have hold := (entry_of_child ho hmoved).2
  have hnew := (entry_of_child hn htarget).2
  rcases hx with ⟨hsame, rfl⟩ | ⟨hne, hreplaceable, rfl⟩
  · rw [if_neg]
    · exact ⟨id, hid, hd⟩
    · intro h
      obtain ⟨rfl, rfl, hother⟩ := h
      exact hother (hnew.trans (hsame.trans (hold.symm.trans hid)))
  · simp only [get?_entries_link, get?_entries_unlinkName]
    by_cases hplace : dir = here new.1 ∧ name = new.2
    -- Something takes its place, and that is checked to be a directory.
    · obtain ⟨rfl, rfl⟩ := hplace
      rw [if_neg fun h ↦ h.2.2 hid, if_pos ⟨rfl, rfl⟩]
      refine ⟨moved, rfl, ?_⟩
      have hreplaced := hreplaceable id (hnew.symm.trans hid)
      rw [requireReplaceable, hd] at hreplaced
      cases hdir : fs.isDirectory moved with
      | true => rfl
      | false =>
        rw [hdir] at hreplaced
        cases hreplaced
    · rw [if_neg hplace]
      by_cases hsource : dir = here old.1 ∧ name = old.2
      -- It is what moves, and away, since the old entry and the new one are not for the same node.
      · obtain ⟨rfl, rfl⟩ := hsource
        have hmoves : (fs.entries (here new.1)).get? new.2 ≠ some id := by
          rw [hnew, ← hid, hold]
          exact hne
        rw [if_pos ⟨rfl, rfl, hmoves⟩, if_pos ⟨rfl, rfl⟩]
      · rw [if_neg hsource, if_neg fun h ↦ hsource ⟨h.1.symm, h.2.1.symm⟩]
        exact ⟨id, hid, hd⟩

end Entries

section Root

variable {rest : List RawName}

theorem child_root (fs : FileStore) :
    fs.child [top] servedName = .ok ((fs.entries top).get? servedName) := by
  rw [child_proper fs [top] proper_servedName, if_neg (by decide +kernel)]
  rfl

theorem parentOf_root (fs : FileStore) : fs.parentOf (hostNames .root) = .ok ([top], servedName) :=
  rfl

theorem advance_root (hid : (fs.entries top).get? servedName = some id)
    (hd : fs.isDirectory id = true) (hr : rest ≠ []) :
    fs.advance false [top] (servedName :: rest) = fs.advance false [id, top] rest := by
  obtain ⟨entries, hnode⟩ := isDirectory_iff.1 hd
  rw [advance_proper proper_servedName (by simp), child_root, hid]
  simp only [hnode, if_neg hr]

theorem stat_root (hid : (fs.entries top).get? servedName = some id)
    (hd : fs.isDirectory id = true) :
    fs.stat (hostNames .root) = .ok id := by
  obtain ⟨entries, hnode⟩ := isDirectory_iff.1 hd
  have hadvance : fs.advance false [top] [servedName] =
      .arrived (.entry [top] servedName (some id)) := by
    rw [advance_proper proper_servedName (by simp), child_root, hid]
    simp only [hnode, if_true]
  rw [stat, resolve, hostNames]
  change (fs.resolveFrom false linkLimit [top] [servedName] >>= _) = _
  rw [resolveFrom_of_arrived hadvance]
  rfl

theorem stat_root_of_bare (h : (fs.entries top).get? servedName = none) :
    fs.stat (hostNames .root) = .error Errno.noent := by
  have hadvance : fs.advance false [top] [servedName] =
      .arrived (.entry [top] servedName none) := by
    rw [advance_proper proper_servedName (by simp), child_root, h]
    rfl
  rw [stat, resolve, hostNames]
  change (fs.resolveFrom false linkLimit [top] [servedName] >>= _) = _
  rw [resolveFrom_of_arrived hadvance]
  rfl

theorem rmdir_root (hid : (fs.entries top).get? servedName = some id)
    (hd : fs.isDirectory id = true) :
    fs.rmdir (hostNames .root) =
      if (fs.entries id).size ≠ 0 then .error Errno.notempty
        else .ok (fs.unlinkName top servedName) := by
  rw [rmdir, parentOf_root]
  change (fs.child [top] servedName >>= _) = _
  rw [child_root, hid]
  change (if (!fs.isDirectory id) = true then _ else _) = _
  rw [hd]
  rfl

theorem exists_names_of_ne_root (hne : p ≠ .root) :
    ∃ first rest, hostNames p = servedName :: first :: rest := by
  obtain ⟨segments⟩ := p
  cases segments with
  | nil => exact absurd rfl hne
  | cons s segments => exact ⟨_, _, rfl⟩

theorem exists_entry_of_child {x : NodeId} (hne : p ≠ .root)
    (hid : (fs.entries top).get? servedName = some id)
    (hd : fs.isDirectory id = true) (hp : fs.parentOf (hostNames p) = .ok (chain, n))
    (hc : fs.child chain n = .ok (some x)) : ∃ m y, (fs.entries id).get? m = some y := by
  -- If the first name is free, the walk to the directory around the path fails or ends at that
  -- name.
  obtain ⟨first, rest, hnames⟩ := exists_names_of_ne_root hne
  have hproper : Proper first := Device.proper_of_mem_hostNames (p := p) (by rw [hnames]; simp)
  rw [hnames] at hp
  cases hfirst : (fs.entries id).get? first with
  | some y => exact ⟨first, y, hfirst⟩
  | none =>
    exfalso
    cases rest with
    | nil =>
      have hparent : fs.parentOf [servedName, first] = .ok ([id, top], first) := by
        have hdot : fs.advance false [top] [servedName, RawName.dot] =
            .arrived (.directory [id, top]) := by
          rw [advance_root hid hd (by simp), advance_skipped (.inl rfl), advance]
        change (fs.resolveFrom false linkLimit [top] [servedName, RawName.dot] >>= _) = _
        rw [resolveFrom_of_arrived hdot]
        rfl
      obtain ⟨rfl, rfl⟩ := Prod.mk.inj (Except.ok.inj (hparent.symm.trans hp))
      cases hfirst.symm.trans (entry_of_child hproper hc).2
    | cons second rest =>
      have hchild : ∀ found, fs.child [id, top] first ≠ .ok (some found) := fun found hf ↦ by
        cases hfirst.symm.trans (entry_of_child hproper hf).2
      obtain ⟨e, he⟩ : ∃ e, fs.advance false [top]
          (servedName :: first :: (second :: rest).dropLast ++ [RawName.dot]) =
          .failed e := by
        rw [List.cons_append, advance_root hid hd (by simp),
          advance_proper_concat fs _ _ hproper false (by decide)]
        split
        · exact ⟨_, rfl⟩
        · exact ⟨_, rfl⟩
        · exact absurd ‹_› (hchild _)
      obtain ⟨place, hplace, -⟩ := exists_of_bind_eq_ok hp
      cases hplace.symm.trans (resolveFrom_of_failed he linkLimit)

end Root

end FileStore

namespace Device

open FileStore

variable {d : Device} {id : NodeId} {p : RemotePath}

/-- The request takes the served directory away: it removes it while nothing is in it, or has it
moved. -/
inductive Uproots (d : Device) : Request → Prop
  | removed {id : NodeId} (hid : (d.store.entries top).get? servedName = some id)
        (he : (d.store.entries id).size = 0) :
    Uproots d (.rmdir .root)
  | moved {old new : RemotePath} {source dest : List NodeId × RawName} {store : FileStore}
    (hs : d.store.parentOf (hostNames old) = .ok source)
      (hd : d.store.parentOf (hostNames new) = .ok dest)
    (hplace : here source.1 = top ∧ source.2 = servedName)
    (hdest : (d.store.entries (here dest.1)).get? dest.2 ≠ (d.store.entries top).get? servedName)
    (hr : rename d.store old new = .ok store) : Uproots d (.rename old new)

/-- What a request makes of the place of the served directory: it is bare if the request
uproots, and else a directory. -/
structure Leaves (d : Device) (r : Request) (store : FileStore) : Prop where
  bare : Uproots d r → (store.entries top).get? servedName = none
  rooted : ¬Uproots d r → store.Rooted

theorem leaves_of_entry {r : Request} {store : FileStore} (hu : ¬Uproots d r)
    (hk : d.store.Keeps store)
    (hid : (store.entries top).get? servedName = some id) (hd : d.store.isDirectory id = true) :
    Leaves d r store :=
  ⟨fun h ↦ absurd h hu, fun _ ↦ ⟨id, hid, hk.isDirectory hd⟩⟩

theorem proper_of_parentOf {x : List NodeId × RawName}
    (h : d.store.parentOf (hostNames p) = .ok x) : Proper x.2 := by
  rw [snd_of_parentOf h]
  exact proper_lastName p

theorem entry_setStore {x : Except RemoteError FileStore}
    (hid : (d.store.entries top).get? servedName = some id)
    (h : ∀ store, x = .ok store → (store.entries top).get? servedName = some id) :
    ((d.setStore x).2.store.entries top).get? servedName = some id := by
  cases x with
  | error e => exact hid
  | ok store => exact h store rfl

theorem leaves_rmdir (hs : d.Sound) (hid : (d.store.entries top).get? servedName = some id)
    (hd : d.store.isDirectory id = true) (path : RemotePath) :
    Leaves d (.rmdir path) (d.answer (.rmdir path)).2.store := by
  have hkeeps := (hs.change (.rmdir path)).keeps hs.store
  by_cases hempty : path = .root ∧ (d.store.entries id).size = 0
  · obtain ⟨rfl, hsize⟩ := hempty
    have hstore : (d.answer (.rmdir .root)).2.store = d.store.unlinkName top servedName := by
      have hshort : ¬pathLimit < RemotePath.root.text.utf8ByteSize := by decide +kernel
      rw [answer, hostCall, if_neg hshort, rmdir_root hid hd, if_neg (not_not.2 hsize)]
      rfl
    refine ⟨fun _ ↦ ?_, fun hu ↦ absurd (.removed hid hsize) hu⟩
    rw [hstore, get?_entries_unlinkName, if_pos ⟨rfl, rfl⟩]
  · refine leaves_of_entry (fun hu ↦ ?_) hkeeps (entry_setStore hid fun store ho ↦ ?_) hd
    · cases hu with
      | removed hid' he => exact hempty ⟨rfl, Option.some.inj (hid'.symm.trans hid) ▸ he⟩
    · have ho := (hostCall_eq_ok ho).2
      refine entry_rmdir proper_servedName ho hid fun hsize ↦ ?_
      obtain ⟨chain, n, x, hp, hc, -, -⟩ := rmdir_eq_ok ho
      obtain ⟨m, y, hy⟩ := exists_entry_of_child (fun he ↦ hempty ⟨he, hsize⟩) hid hd hp hc
      cases hy.symm.trans (KeyMap.get?_of_size_eq_zero hsize m)

theorem leaves_rename (hs : d.Sound) (hid : (d.store.entries top).get? servedName = some id)
    (hd : d.store.isDirectory id = true) (old new : RemotePath) :
    Leaves d (.rename old new) (d.answer (.rename old new)).2.store := by
  have hkeeps := (hs.change (.rename old new)).keeps hs.store
  have hanswer : (d.answer (.rename old new)).2 = (d.setStore (rename d.store old new)).2 := rfl
  rw [hanswer] at hkeeps ⊢
  cases hr : rename d.store old new with
  | error e =>
    refine leaves_of_entry (fun hu ↦ ?_) (keeps_refl d.store) hid hd
    cases hu with
    | moved _ _ _ _ hr' => cases hr.symm.trans hr'
  | ok store =>
    rw [hr] at hkeeps
    obtain ⟨source, dest, hsource, hdest, hrenamed⟩ := exists_of_rename hr
    have hentry := entry_rename (proper_of_parentOf hsource)
      (proper_of_parentOf hdest) hrenamed hid hd
    have hiff : Uproots d (.rename old new) ↔
        here source.1 = top ∧ source.2 = servedName ∧
          (d.store.entries (here dest.1)).get? dest.2 ≠ some id := by
      constructor
      · intro hu
        cases hu with
        | moved hs' hd' hplace hother =>
          cases hsource.symm.trans hs'
          cases hdest.symm.trans hd'
          exact ⟨hplace.1, hplace.2, hid ▸ hother⟩
      · intro h
        exact .moved hsource hdest ⟨h.1, h.2.1⟩ (hid ▸ h.2.2) hr
    refine ⟨fun hu ↦ ?_, fun hu ↦ ?_⟩
    · rw [if_pos (hiff.1 hu)] at hentry
      exact hentry
    · rw [if_neg fun h ↦ hu (hiff.2 h)] at hentry
      obtain ⟨id', hid', hd'⟩ := hentry
      exact ⟨id', hid', hkeeps.isDirectory hd'⟩

theorem leaves_answer (hs : d.Sound) (hr : d.store.Rooted) (r : Request) :
    Leaves d r (d.answer r).2.store := by
  obtain ⟨id, hid, hd⟩ := hr
  have hkeeps := (hs.change r).keeps hs.store
  cases r with
  | rmdir path => exact leaves_rmdir hs hid hd path
  | rename old new => exact leaves_rename hs hid hd old new
  | listdir dir => exact leaves_of_entry (by rintro ⟨⟩) hkeeps hid hd
  | close s => exact leaves_of_entry (by rintro ⟨⟩) hkeeps hid hd
  | seek s offset =>
    refine leaves_of_entry (by rintro ⟨⟩) hkeeps ?_ hd
    simp only [answer]
    split <;> exact hid
  | read s max =>
    refine leaves_of_entry (by rintro ⟨⟩) hkeeps ?_ hd
    simp only [answer]
    split <;> exact hid
  | write s data =>
    refine leaves_of_entry (by rintro ⟨⟩) hkeeps ?_ hd
    simp only [answer]
    split
    · exact hid
    · rename_i ho
      obtain ⟨session, hsession, hwrite⟩ := exists_of_session ho
      obtain ⟨old, hold⟩ := hs.sessions s session hsession
      rw [entries_setContent (Session.node_of_write hwrite ▸ hold)]
      exact hid
  | truncate s length =>
    refine leaves_of_entry (by rintro ⟨⟩) hkeeps (entry_setStore hid fun store ho ↦ ?_) hd
    obtain ⟨session, content, hsession, -, rfl⟩ := exists_of_cut ho
    obtain ⟨old, hold⟩ := hs.sessions s session hsession
    rw [entries_setContent hold]
    exact hid
  | openFile path mode =>
    refine leaves_of_entry (by rintro ⟨⟩) hkeeps ?_ hd
    simp only [answer]
    split
    · exact hid
    · rename_i ho
      exact entry_openFile hs.store (openFile_eq_ok ho).2.2 hid
  | mkdir path =>
    refine leaves_of_entry (by rintro ⟨⟩) hkeeps (entry_setStore hid fun store ho ↦ ?_) hd
    exact entry_mkdir hs.store (hostCall_eq_ok ho).2 hid
  | unlink path =>
    refine leaves_of_entry (by rintro ⟨⟩) hkeeps (entry_setStore hid fun store ho ↦ ?_) hd
    exact entry_unlink proper_servedName (hostCall_eq_ok ho).2 hid hd

theorem listing_of_rooted (h : d.store.Rooted) : ∃ rows, listing d.store .root = .ok rows := by
  obtain ⟨id, hid, hd⟩ := h
  have hshort : ¬pathLimit < RemotePath.root.text.utf8ByteSize := by decide +kernel
  rw [listing, hostCall, if_neg hshort, stat_root hid hd]
  change ∃ rows, (if d.store.isDirectory id = true then _ else _ : Except Errno _).mapError _ =
    .ok rows
  rw [if_pos hd]
  exact ⟨_, rfl⟩

theorem listing_of_bare (h : (d.store.entries top).get? servedName = none) :
    listing d.store .root = .error (.ofHost Errno.noent) := by
  have hshort : ¬pathLimit < RemotePath.root.text.utf8ByteSize := by decide +kernel
  rw [listing, hostCall, if_neg hshort, stat_root_of_bare h]
  rfl

/-- Without links no path leads out of the served directory. -/
theorem Uproots.eq_rmdir {r : Request} (hu : Uproots d r) (h : d.store.Plain) :
    r = .rmdir .root := by
  cases hu with
  | removed => rfl
  | @moved old new source dest store hs hd hplace hdest hr =>
    exfalso
    obtain ⟨hnew, -⟩ := h.heldIn_of_parentOf hd
    obtain ⟨source', dest', hs', hd', hrenamed⟩ := exists_of_rename hr
    cases hs.symm.trans hs'
    cases hd.symm.trans hd'
    obtain ⟨id, target, hmoved, -, hbelow, -⟩ := rename_eq_ok hrenamed
    have hid := (entry_of_child (proper_of_parentOf hs) hmoved).2
    rw [hplace.1, hplace.2] at hid
    by_cases hroot : new = .root
    · subst hroot
      cases hd.symm.trans (parentOf_root d.store)
      exact hdest rfl
    -- The way to any other path leads through the served directory, which cannot be moved below
    -- itself.
    · obtain ⟨first, rest, hnames⟩ := exists_names_of_ne_root hroot
      have hdescend := hnew.descend
      rw [namesAbove, hnames, List.dropLast_cons_cons, FileStore.descend] at hdescend
      obtain ⟨x, hx, hdescend⟩ := Option.bind_eq_some_iff.1 hdescend
      obtain rfl : x = id := Option.some.inj (hx.symm.trans hid)
      exact hbelow ((suffix_of_descend hdescend).subset List.mem_cons_self)

end Device

end RemoteMount.Host
