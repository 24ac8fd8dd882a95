import RemoteMount.Proofs.ListingCalls
import RemoteMount.Proofs.Memory.OrderedListings
import RemoteMount.Proofs.Mount.HeldInodes
import RemoteMount.Proofs.Mount.Steps

namespace RemoteMount

open Memory Program RemotePath Turns

namespace Memory.Tree

variable {t t' : Tree} {dir dir' p : RemotePath} {rows : List Filesystem.DirectoryRow}
    {row : Filesystem.DirectoryRow}
variable {listed : List ListingEntry}

def kind? (t : Tree) (p : RemotePath) : Option EntryKind := (t.get? p).map Node.kind

/-- The names and kinds that are listed of a directory, in the order of the listing. -/
def entries (t : Tree) (dir : RemotePath) : Except RemoteError (List Filesystem.DirectoryRow) :=
  (t.listing dir).map fun listed ↦ listed.map fun row ↦ ⟨row.name, row.kind⟩

theorem kind?_eq_directory_iff : t.kind? p = some .directory ↔ t.get? p = some .directory := by
  unfold kind?
  cases t.get? p with
  | none => simp
  | some node => cases node <;> simp [Node.kind]

theorem entries_eq_ok_iff : t.entries dir = .ok rows ↔
    ∃ listed, t.listing dir = .ok listed ∧ listed.map (fun row ↦ ⟨row.name, row.kind⟩) = rows := by
  unfold Tree.entries
  cases t.listing dir with
  | error e => simp [Except.map]
  | ok listed => simp [Except.map]

theorem directory_of_entries (h : t.entries dir = .ok rows) : t.get? dir = some .directory := by
  obtain ⟨listed, hlisted, -⟩ := entries_eq_ok_iff.1 h
  exact (listing_eq_ok_iff.1 hlisted).1

theorem exists_entries (h : t.get? dir = some .directory) : ∃ rows, t.entries dir = .ok rows :=
  ⟨_, entries_eq_ok_iff.2 ⟨_, listing_eq_ok_iff.2 ⟨h, rfl⟩, rfl⟩⟩

theorem mem_entries (h : t.entries dir = .ok rows) :
    row ∈ rows ↔ ∃ s : Segment, row.name = s.name ∧ t.kind? (dir.child s) = some row.kind := by
  obtain ⟨listed, hlisted, rfl⟩ := entries_eq_ok_iff.1 h
  rw [List.mem_map]
  constructor
  · rintro ⟨entry, hentry, rfl⟩
    obtain ⟨p, name, node, hp, hparent, hname, rfl⟩ := (mem_listing hlisted).1 hentry
    rcases p.eq_root_or_child with hroot | ⟨s, hs⟩
    · rw [hroot, name?_root] at hname
      cases hname
    · rw [hs, name?_child, Option.some_inj] at hname
      rw [hparent] at hs
      refine ⟨s, by rw [Node.entry_name, hname], ?_⟩
      rw [kind?, ← hs, hp, Option.map_some, Node.entry_kind]
  · rintro ⟨s, hname, hkind⟩
    obtain ⟨node, hnode, hk⟩ := Option.map_eq_some_iff.1 hkind
    refine ⟨node.entry s.name, (mem_listing hlisted).2 ⟨_, s.name, node, hnode, parent_child s,
      name?_child s, rfl⟩, ?_⟩
    rw [Node.entry_name, Node.entry_kind, hk, ← hname]

theorem pairwise_entries (h : t.entries dir = .ok rows) :
    rows.Pairwise fun a b ↦ a.name < b.name := by
  obtain ⟨listed, hlisted, rfl⟩ := entries_eq_ok_iff.1 h
  exact List.pairwise_map.2 (pairwise_listing hlisted)

theorem nodup_names_of_entries (h : t.entries dir = .ok rows) :
    (rows.map Filesystem.DirectoryRow.name).Nodup := by
  refine List.pairwise_map.2 ((pairwise_entries h).imp ?_)
  intro a b hlt he
  exact String.lt_irrefl _ (he ▸ hlt)

/-- All that counts for the entries is of which kind the children are. -/
theorem entries_congr (h : t.entries dir = .ok rows) (hdir : t'.get? dir' = some .directory)
    (hkind : ∀ s, t'.kind? (dir'.child s) = t.kind? (dir.child s)) :
    t'.entries dir' = .ok rows := by
  obtain ⟨rows', h'⟩ := exists_entries hdir
  have hmem : ∀ row, row ∈ rows ↔ row ∈ rows' := by
    intro row
    simp only [mem_entries h, mem_entries h', hkind]
  have hperm := (List.perm_ext_iff_of_nodup (nodup_names_of_entries h).of_map
    (nodup_names_of_entries h').of_map).2 hmem
  rw [h', hperm.eq_of_pairwise (fun a b _ _ hab hba ↦ absurd hba (String.lt_asymm hab))
    (pairwise_entries h)
    (pairwise_entries h')]

end Memory.Tree

namespace Call

/-- The paths at which the call may make a node, remove it or put one of another kind. -/
def Alters : Call RemotePath → RemotePath → Prop
  | mkdir path, p | rmdir path, p | unlink path, p | create path, p | createNew path, p => p = path
  | rename old new, p => p.within old = true ∨ p.within new = true
  | getattr _, _ | readdir _, _ | read .., _ | write .., _ | truncate .., _ | destroy, _ => False

variable {t t' : Tree} {call : Call RemotePath} {x : CallAnswer} {p path : RemotePath} {node : Node}

theorem kind?_insert_of_ne (h : p ≠ path) : Tree.kind? (t.insert path node) p = t.kind? p := by
  rw [Tree.kind?, KeyMap.get?_insert, if_neg h]
  rfl

theorem kind?_erase_of_ne (h : p ≠ path) : Tree.kind? (t.erase path) p = t.kind? p := by
  rw [Tree.kind?, KeyMap.get?_erase, if_neg h]
  rfl

theorem kind?_insert_file {content content' : Content} (h : t.get? path = some (.file content)) :
    Tree.kind? (t.insert path (.file content')) p = t.kind? p := by
  by_cases hp : p = path
  · rw [Tree.kind?, Tree.kind?, KeyMap.get?_insert, if_pos hp, hp, h]
    rfl
  · exact kind?_insert_of_ne hp

theorem kind?_rename {old new : RemotePath} (h : t.rename old new = .ok t')
    (ho : p.within old = false) (hn : p.within new = false) : t'.kind? p = t.kind? p := by
  have hkept : t' = t ∨ t' = t.moveSubtree old new := by
    unfold Tree.rename at h
    split at h
    · cases h
    · split at h
      · cases h
      · split at h
        · exact .inl (Except.ok.inj h).symm
        · split at h
          · cases h
          · obtain ⟨_, -, h⟩ := exists_of_bind_eq_ok h
            obtain ⟨_, -, h⟩ := exists_of_bind_eq_ok h
            exact .inr (Except.ok.inj h).symm
  rcases hkept with rfl | rfl
  · rfl
  · rw [Tree.kind?, Tree.get?_moveSubtree_of_outside ho hn]
    rfl

theorem Granted.kind?_eq (h : call.Granted t x t') (hp : ¬call.Alters p) :
    t'.kind? p = t.kind? p := by
  cases call with
  | getattr path | readdir path | destroy =>
    obtain rfl : t' = t := h
    rfl
  | read path max offset =>
    obtain rfl : t' = t := h.1
    rfl
  | mkdir path =>
    obtain ⟨-, rfl⟩ := Tree.mkdir_eq_ok h
    exact kind?_insert_of_ne hp
  | rmdir path =>
    obtain ⟨-, rfl⟩ := Tree.rmdir_eq_ok h
    exact kind?_erase_of_ne hp
  | unlink path =>
    obtain ⟨-, rfl⟩ := Tree.unlink_eq_ok h
    exact kind?_erase_of_ne hp
  | rename old new =>
    obtain ⟨ho, hn⟩ := not_or.1 hp
    exact kind?_rename h (Bool.eq_false_iff.2 ho) (Bool.eq_false_iff.2 hn)
  | create path | createNew path =>
    obtain ⟨position, h⟩ := h
    rcases Tree.openFile_eq_ok h with ⟨-, -, rfl⟩ | ⟨-, -, rfl⟩
    · exact kind?_insert_of_ne hp
    · rfl
  | write path data offset =>
    obtain ⟨-, content, hc, rfl⟩ := h
    exact kind?_insert_file hc
  | truncate path length =>
    obtain ⟨content, hc, rfl⟩ := h
    exact kind?_insert_file hc

end Call

namespace Program

variable {α β ε : Type} {p : RemotePath}

def Leaves (q : Program α) (p : RemotePath) : Prop :=
  ∀ b : CachedDevice Device, (q.run b).2.device.tree.kind? p = b.device.tree.kind? p

theorem leaves_done (a : α) : (done a).Leaves p := fun _ ↦ rfl

theorem Leaves.silent {q : Program (Except ε α)} (h : q.Leaves p) : q.silent.Leaves p := by
  intro b
  rw [run_silent]
  exact h b

theorem Leaves.andThen {q : Program (Except ε α)} {r : α → Program (Except ε β)} (hq : q.Leaves p)
    (hr : ∀ a, (r a).Leaves p) : (q.andThen r).Leaves p := by
  intro b
  have hfirst := hq b
  rw [run_andThen]
  generalize q.run b = x at hfirst
  obtain ⟨x, b'⟩ := x
  cases x with
  | error e => exact hfirst
  | ok a => exact (hr a b').trans hfirst

theorem leaves_checked {x : Except ε α} {r : α → Program (Except ε β)}
    (h : ∀ a, x = .ok a → (r a).Leaves p) :
    (andThen (done x) r).Leaves p := by
  cases x with
  | error e => exact fun _ ↦ rfl
  | ok a => exact h a rfl

theorem leaves_call {q : Program (Except CallError α)}
    {f : Except CallError α → Except CallError CallAnswer}
    (policy : Policy) (caller : Caller) (call : Call RemotePath)
    (hq : call.program policy caller = f <$> q) (hp : ¬call.Alters p) : q.Leaves p := by
  intro b
  have hrun := Outcome.run_cases (call.outcome (s := ⟨b, []⟩) policy caller)
  rw [hq, run_map] at hrun
  rcases hrun with hsame | ⟨x, hgranted⟩
  · exact congrArg (Tree.kind? · p) hsame
  · exact hgranted.kind?_eq hp

end Program

namespace Mount

def Alters {σ : Type} (m : Mount σ) : Callback → RemotePath → Prop
  | .mkdir parent name, p | .create parent name _, p | .unlink parent name,
        p | .rmdir parent name, p =>
    m.childOf parent name = .ok p
  | .rename parent name newParent newName _, p => ∃ old new, m.childOf parent name = .ok old ∧
      m.childOf newParent newName = .ok new ∧ (p.within old = true ∨ p.within new = true)
  | _, _ => False

variable {m : Mount Device} {caller : Caller} {c : Callback} {dir p : RemotePath}

theorem leaves_getattr (policy : Policy) (path : RemotePath) :
    (Filesystem.getattr policy caller path).Leaves p :=
  leaves_call policy caller (.getattr path) rfl id

theorem leaves_steps (h : ¬m.Alters c p) : (m.steps caller c).Leaves p := by
  have hinspect : ∀ ino, (m.inspect caller ino).Leaves p :=
    fun ino ↦ leaves_checked fun path _ ↦ (leaves_getattr _ path).silent
  have hne : ∀ path, m.Alters c path → p ≠ path := by
    rintro path ha rfl
    exact h ha
  cases c with
  | lookup parent name => exact leaves_checked fun path _ ↦ (leaves_getattr _ path).silent
  | getattr ino => exact hinspect ino
  | setattr ino changes =>
    refine leaves_checked fun path _ ↦ ?_
    split
    · exact leaves_done _
    · split
      · exact hinspect ino
      · rename_i size _
        exact (leaves_call m.config.policy caller (.truncate path size) rfl id).andThen fun _ ↦
          hinspect ino
  | mkdir parent name =>
    refine leaves_checked fun path hpath ↦ Leaves.andThen ?_ fun _ ↦ (leaves_getattr _ path).silent
    exact leaves_call m.config.policy caller (.mkdir path) rfl (hne path hpath)
  | create parent name flags =>
    refine leaves_checked fun _ _ ↦ leaves_checked fun path hpath ↦
      Leaves.andThen ?_ fun _ ↦ (leaves_getattr _ path).silent
    split
    · exact leaves_call m.config.policy caller (.createNew path) rfl (hne path hpath)
    · exact leaves_call m.config.policy caller (.create path) rfl (hne path hpath)
  | unlink parent name =>
    exact leaves_checked fun path hpath ↦
      leaves_call m.config.policy caller (.unlink path) rfl (hne path hpath)
  | rmdir parent name =>
    exact leaves_checked fun path hpath ↦
      leaves_call m.config.policy caller (.rmdir path) rfl (hne path hpath)
  | rename parent name newParent newName flags =>
    rw [steps]
    split
    · exact leaves_done _
    · refine leaves_checked fun old hold ↦ leaves_checked fun new hnew ↦ ?_
      exact leaves_call m.config.policy caller (.rename old new) rfl fun hw ↦
        h ⟨old, new, hold, hnew, hw⟩
  | openFile ino flags => exact leaves_done _
  | opendir ino => exact (leaves_done _).silent
  | read ino max offset =>
    exact leaves_checked fun place _ ↦
      (leaves_call m.config.policy caller (.read place.1 max place.2) rfl id).silent
  | write ino data offset =>
    exact leaves_checked fun place _ ↦
      (leaves_call m.config.policy caller (.write place.1 data place.2) rfl id).andThen fun _ ↦
        leaves_done _
  | readdir ino offset room =>
    exact leaves_checked fun path _ ↦
      (leaves_call m.config.policy caller (.readdir path) rfl id).silent
  | getxattr ino name | setxattr ino name | listxattr ino | removexattr ino name =>
    exact leaves_done _
  | forget ino n | forgetAll counts | release ino | releasedir ino | flush ino | fsync ino
  | statfs ino =>
    exact leaves_done _
  | destroy => exact fun _ ↦ rfl

theorem kind?_answer (h : ¬m.Alters c p) :
    (m.answer caller c).2.base.device.tree.kind? p = m.base.device.tree.kind? p := by
  rw [(m.answer_steps caller c).2]
  exact leaves_steps h m.base

/-- The callback touches neither the directory nor anything right in it, or it is a rename that
takes the directory along. Only of a well-formed tree is everything below the old place moved as
one. -/
def Spares (m : Mount Device) (dir : RemotePath) (c : Callback) : Prop :=
  (∀ p, m.Alters c p → p ≠ dir ∧ p.parent ≠ dir) ∨
    m.base.device.tree.WellFormed ∧ ∃ old new, m.move? c = some (old, new) ∧ dir.within old = true

variable {rows : List Filesystem.DirectoryRow} {path old new : RemotePath}
    {x : Except CallError Reply}
variable {removal : Program (Except CallError Unit)}

theorem alters_of_removal? (h : m.removal? c = some (path, removal)) : m.Alters c path := by
  cases c with
  | unlink parent name | rmdir parent name =>
    obtain ⟨_, hpath, he⟩ := Option.map_eq_some_iff.1 h
    cases he
    exact toOption_childOf_iff.1 hpath
  | _ => cases h

theorem alters_of_move? (h : m.move? c = some (old, new))
    (hp : p.within old = true ∨ p.within new = true) :
    m.Alters c p := by
  cases c with
  | rename parent name newParent newName flags =>
    obtain ⟨_, hold, h⟩ := Option.bind_eq_some_iff.1 h
    obtain ⟨_, hnew, h⟩ := Option.bind_eq_some_iff.1 h
    cases h
    exact ⟨old, new, toOption_childOf_iff.1 hold, toOption_childOf_iff.1 hnew, hp⟩
  | _ => cases h

theorem relocatedBy_of_not_alters (h : ¬m.Alters c dir) : m.relocatedBy dir c x = some dir := by
  cases x with
  | error e => rfl
  | ok r =>
    rw [relocatedBy]
    cases hr : m.removal? c with
    | some removed =>
      obtain ⟨path, removal⟩ := removed
      refine if_neg ?_
      rintro rfl
      exact h (alters_of_removal? hr)
    | none =>
      cases hv : m.move? c with
      | none => rfl
      | some moved =>
        obtain ⟨old, new⟩ := moved
        have hold : dir.within old = false :=
          Bool.eq_false_iff.2 fun hw ↦ h (alters_of_move? hv (.inl hw))
        have hnew : dir.within new = false :=
          Bool.eq_false_iff.2 fun hw ↦ h (alters_of_move? hv (.inr hw))
        dsimp only
        rw [hnew, rebase_eq_none_iff.2 hold, Option.getD_none]
        exact if_neg (by simp)

/-- A rename that is granted takes what is right in a directory along with it. -/
theorem entries_rename {t t' : Tree} (ht : t.WellFormed) (h : t.rename old new = .ok t')
    (hw : dir.within old = true) (hrows : t.entries dir = .ok rows) :
    ¬(old ≠ new ∧ dir.within new = true) ∧
    t'.entries ((dir.rebase old new).getD dir) = .ok rows := by
  rcases Tree.get?_rename ht h with ⟨rfl, rfl⟩ | ⟨-, ha, hget⟩
  · exact ⟨fun hne ↦ hne.1 rfl, by rwa [getD_rebase_self]⟩
  · obtain ⟨q, hq⟩ := exists_rebase new hw
    obtain ⟨l, hdir, hqs⟩ := rebase_eq_some_iff.1 hq
    have hkept : ∀ (l' : List Segment),
        t'.get? ⟨q.segments ++ l'⟩ = t.get? ⟨dir.segments ++ l'⟩ := by
      intro l'
      have hback : (RemotePath.mk (q.segments ++ l')).rebase new old = some ⟨dir.segments ++ l'⟩ :=
        rebase_eq_some_iff.2 ⟨l ++ l', by simp [hqs], by simp [hdir]⟩
      rw [hget, if_pos (within_of_rebase hback), hback, Option.bind_some]
    rw [hq, Option.getD_some, ha dir hw]
    refine ⟨by simp, Tree.entries_congr hrows ?_ fun s ↦
      congrArg (Option.map Node.kind) (hkept [s])⟩
    have hplace := hkept []
    simp only [List.append_nil] at hplace
    exact hplace.trans (Tree.directory_of_entries hrows)

theorem answer_of_move? (caller : Caller) (hc : m.move? c = some (old, new)) :
    (∃ e, m.answer caller c = (.error e, m)) ∨
      (m.answer caller c).1 = ((Filesystem.rename old new).run m.base).1.map (fun _ ↦ .nothing) ∧
        (m.answer caller c).2.base = ((Filesystem.rename old new).run m.base).2 := by
  cases c with
  | rename parent name newParent newName flags =>
    obtain ⟨_, hold, hc⟩ := Option.bind_eq_some_iff.1 hc
    obtain ⟨_, hnew, hc⟩ := Option.bind_eq_some_iff.1 hc
    cases hc
    have hchild := toOption_childOf_iff.1 hold
    have hchild' := toOption_childOf_iff.1 hnew
    simp only [answer, rename, hchild, hchild', call_eq]
    split
    · exact .inl ⟨_, rfl⟩
    · right
      generalize (Filesystem.rename old new).run m.base = y
      obtain ⟨y, b⟩ := y
      cases y <;> exact ⟨rfl, rfl⟩
  | _ => cases hc

theorem entries_of_moved (caller : Caller) (ht : m.base.device.tree.WellFormed)
    (hc : m.move? c = some (old, new))
    (hw : dir.within old = true) (hrows : m.base.device.tree.entries dir = .ok rows) :
    ∃ cur, m.relocatedBy dir c (m.answer caller c).1 = some cur ∧
      (m.answer caller c).2.base.device.tree.entries cur = .ok rows := by
  have hn : m.removal? c = none := by
    cases c with
    | rename => rfl
    | _ => cases hc
  rcases answer_of_move? caller hc with ⟨e, he⟩ | ⟨hx, hbase⟩
  · rw [he]
    exact ⟨dir, rfl, hrows⟩
  · rw [hx, hbase, relocatedBy_moved hc hn]
    have htree := tree_run_of_outcome (Filesystem.outcome_rename (s := ⟨m.base, []⟩))
      (Prod.eta ((Filesystem.rename old new).run m.base)).symm
    split at htree
    · rename_i hy
      obtain ⟨hkept, hentries⟩ := entries_rename ht htree hw hrows
      exact ⟨_, by rw [if_pos hy, if_neg hkept], hentries⟩
    · rename_i hy
      exact ⟨dir, if_neg hy, by rw [htree, hrows]⟩

/-- A callback that spares a directory leaves its entries, where the directory is then. -/
theorem entries_of_spared (caller : Caller) (hrows : m.base.device.tree.entries dir = .ok rows)
    (h : m.Spares dir c) :
    ∃ cur, m.relocatedBy dir c (m.answer caller c).1 = some cur ∧
      (m.answer caller c).2.base.device.tree.entries cur = .ok rows := by
  rcases h with hout | ⟨ht, old, new, hc, hw⟩
  · have hdir : ¬m.Alters c dir := fun ha ↦ (hout dir ha).1 rfl
    refine ⟨dir, relocatedBy_of_not_alters hdir, Tree.entries_congr hrows ?_ fun s ↦
      kind?_answer fun ha ↦ ?_⟩
    · rw [← Tree.kind?_eq_directory_iff, kind?_answer hdir, Tree.kind?_eq_directory_iff]
      exact Tree.directory_of_entries hrows
    · exact (hout _ ha).2 (parent_child s)
  · exact entries_of_moved caller ht hc hw hrows

def Spared : Mount Device → RemotePath → List Event → Prop
  | _, _, [] => True
  | m, cur, .arm op e :: rest => Spared (m.next (.arm op e)) cur rest
  | m, cur, .callback caller c :: rest => m.Spares cur c ∧
      ∀ cur', m.relocatedBy cur c (m.answer caller c).1 = some cur' →
        Spared (m.next (.callback caller c)) cur' rest

theorem entries_run {events : List Event} (hrows : m.base.device.tree.entries dir = .ok rows)
    (h : m.Spared dir events) :
    ∃ cur, m.follow dir events = some cur ∧
    (m.run events).base.device.tree.entries cur = .ok rows := by
  induction events generalizing m dir with
  | nil => exact ⟨dir, rfl, hrows⟩
  | cons e events ih =>
    cases e with
    | arm op e => exact ih (m := m.next (.arm op e)) hrows h
    | callback caller c =>
      obtain ⟨cur, hcur, hkept⟩ := entries_of_spared caller hrows h.1
      obtain ⟨last, hlast, hrun⟩ := ih hkept (h.2 cur hcur)
      refine ⟨last, ?_, hrun⟩
      rw [follow, relocated, hcur]
      exact hlast

end Mount

end RemoteMount
