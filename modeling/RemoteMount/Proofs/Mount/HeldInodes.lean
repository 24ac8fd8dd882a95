import RemoteMount.Proofs.Memory.Walk
import RemoteMount.Proofs.Mount.Runs

namespace RemoteMount

open Memory Program Interleaving

namespace InodeTable

variable {t t' : InodeTable} {p q old new : RemotePath} {i n extra : Nat} {x : Nat × InodeTable}

/-- The number is the one of the path, or was given up and never comes back. -/
def Tracks (t : InodeTable) (i : Nat) (p : RemotePath) : Prop :=
  i < t.next ∧ (t.path? i = none ∨ t.path? i = some p ∧ t.inode? p = some i)

namespace Tracks

theorem numbers (h : t.Tracks i p) (ht : t.Sound) (hx : t.Numbers q extra x) : x.2.Tracks i p := by
  obtain ⟨hi, hnone | ⟨hpath, hinode⟩⟩ := h
  · have hne := hx.ne_of_path? ht hi (by rw [hnone]; exact nofun)
    refine ⟨Nat.lt_of_lt_of_le hi hx.next_le, .inl ?_⟩
    rw [hx.path, if_neg hne, hnone]
  · exact ⟨Nat.lt_of_lt_of_le hi hx.next_le,
      .inr ⟨hx.path?_of_known ht hpath, hx.inode?_of_known hinode⟩⟩

theorem forget (h : t.Tracks i p) (ht : t.Sound) (j n : Nat) : (t.forget j n).2.Tracks i p := by
  obtain ⟨hi, h⟩ := h
  refine ⟨next_forget.symm ▸ hi, ?_⟩
  rw [path?_forget, inode?_forget ht]
  split
  · exact .inl rfl
  · rename_i hkept
    refine h.imp_right fun hp ↦ ⟨hp.1, ?_⟩
    have hne : ¬((t.forget j n).1 = true ∧ t.inode? p = some j) := by
      rintro ⟨he, hj⟩
      exact hkept ⟨he, Option.some_inj.1 (hp.2.symm.trans hj)⟩
    rw [if_neg hne, hp.2]

theorem invalidate (h : t.Tracks i p) (hne : p ≠ q) : (t.invalidate q).Tracks i p := by
  refine ⟨h.1, h.2.imp_right fun hp ↦ ⟨hp.1, ?_⟩⟩
  rw [inode?_invalidate, if_neg hne, hp.2]

theorem rename (h : t.Tracks i p) (ht : t.Sound) (hn : old ≠ new → p.within new = false) :
    (t.rename old new).Tracks i ((p.rebase old new).getD p) := by
  obtain ⟨hi, h⟩ := h
  refine ⟨next_rename.symm ▸ hi, ?_⟩
  rcases h with hnone | ⟨hpath, hinode⟩
  · exact .inl (path?_rename_eq_none_iff.2 hnone)
  · right
    by_cases hne : old = new
    · subst hne
      rw [InodeTable.rename, if_pos rfl, RemotePath.getD_rebase_self]
      exact ⟨hpath, hinode⟩
    · have hpn := hn hne
      cases hpo : p.within old with
      | false =>
        -- The number moves only with a mapped path, and it has no other than `p`.
        have hkept : ∀ q, t.inode? q = some i → q.within old = true → q.within new = true := by
          intro q hq hqo
          rw [ht.inode_injective hq hinode, hpo] at hqo
          cases hqo
        rw [RemotePath.rebase_eq_none_iff.2 hpo, Option.getD_none, path?_rename_of_kept hkept,
          inode?_rename hne]
        simp [hpn, hpo, hpath, hinode]
      | true =>
        obtain ⟨q, hq⟩ := RemotePath.exists_rebase new hpo
        rw [hq, Option.getD_some, path?_rename_of_moved ht hne hinode hpn hq, inode?_rename hne,
          if_pos (RemotePath.rebase_within hq), RemotePath.rebase_symm hq, Option.bind_some]
        simp [hpn, hinode]

end Tracks

end InodeTable

namespace Mount

/-- Where a file at `cur` is after a callback that was answered so; `none` if it was removed, or
something was moved in its place. -/
def relocatedBy (m : Mount Device) (cur : RemotePath) (c : Callback) :
    Except CallError Reply → Option RemotePath
  | .error _ => some cur
  | .ok _ =>
    match m.removal? c, m.move? c with
    | some (path, _), _ => if path = cur then none else some cur
    | none, some (old, new) =>
      if old ≠ new ∧ cur.within new = true then none else some ((cur.rebase old new).getD cur)
    | none, none => some cur

def relocated (m : Mount Device) (cur : RemotePath) : Event → Option RemotePath
  | .arm _ _ => some cur
  | .callback caller c => m.relocatedBy cur c (m.answer caller c).1

def follow : Mount Device → RemotePath → List Event → Option RemotePath
  | _, cur, [] => some cur
  | m, cur, e :: rest => (m.relocated cur e).bind fun cur ↦ follow (m.next e) cur rest

variable {m m' : Mount Device} {caller : Caller} {c : Callback} {x : Except CallError Reply}
    {e : Event}
variable {t t' : InodeTable} {cur path p : RemotePath} {i : Nat} {kind : EntryKind}

theorem Peeked.tracks (h : Peeked t t') (ht : t.Sound) (hi : t.Tracks i p) : t'.Tracks i p :=
  h.induct (P := fun t ↦ t.Tracks i p) ht hi fun _ q ht hi ↦
    hi.numbers ht (InodeTable.peek_numbers ht q)

theorem foldl_forget_tracks (l : List (Nat × Nat)) (ht : t.Sound) (hi : t.Tracks i p) :
    (l.foldl (fun t f ↦ (t.forget f.1 f.2).2) t).Tracks i p :=
  foldl_forget_induct (P := fun t ↦ t.Tracks i p) l ht hi fun _ j n ht hi ↦ hi.forget ht j n

theorem relocatedBy_of_plain (hx : ∀ r, x = .ok r → m.removal? c = none ∧ m.move? c = none) :
    m.relocatedBy cur c x = some cur := by
  cases x with
  | error e => rfl
  | ok r => rw [relocatedBy, (hx r rfl).1, (hx r rfl).2]

section Relocation

variable {removal : Program (Except CallError Unit)} {y : Except CallError Unit}
    {old new : RemotePath}

theorem relocatedBy_removed (hc : m.removal? c = some (path, removal)) :
    m.relocatedBy cur c (y.map fun _ ↦ .nothing) = if y.isOk ∧ path = cur then none
      else some cur := by
  cases y with
  | error e => rfl
  | ok u =>
    rw [Except.map, relocatedBy, hc]
    simp [Except.isOk, Except.toBool]

theorem relocatedBy_moved (hc : m.move? c = some (old, new)) (hn : m.removal? c = none) :
    m.relocatedBy cur c (y.map fun _ ↦ .nothing) =
      if y.isOk then if old ≠ new ∧ cur.within new = true then none
        else some ((cur.rebase old new).getD cur)
      else some cur := by
  cases y with
  | error e => rfl
  | ok u =>
    rw [Except.map, relocatedBy, hn, hc]
    rfl

end Relocation

/-- A number stays with its path, wherever that is moved, whatever else the device does. -/
theorem Answered.tracks {cur' : RemotePath} (h : m.Answered caller c x m') (hm : m.inodes.Sound)
    (hi : m.inodes.Tracks i cur) (hcur : m.relocatedBy cur c x = some cur') :
    m'.inodes.Tracks i cur' := by
  cases h with
  | calm hb ht hforgets hx =>
    rw [relocatedBy_of_plain fun r hr ↦ (hx r hr).2] at hcur
    obtain rfl := Option.some_inj.1 hcur
    exact ht.tracks hm hi
  | @entered r b path a hb hp ha hr hforgets hn =>
    rw [relocatedBy_of_plain fun _ _ ↦ hn] at hcur
    obtain rfl := Option.some_inj.1 hcur
    exact hi.numbers hm (InodeTable.lookup_numbers hm path)
  | forgot hn =>
    rw [relocatedBy_of_plain fun _ _ ↦ hn] at hcur
    obtain rfl := Option.some_inj.1 hcur
    exact foldl_forget_tracks _ hm hi
  | @removed y b path removal hc =>
    rw [relocatedBy_removed hc] at hcur
    split at hcur
    · cases hcur
    · rename_i hkept
      obtain rfl := Option.some_inj.1 hcur
      dsimp only
      split
      · rename_i hy
        exact hi.invalidate fun he ↦ hkept ⟨hy, he.symm⟩
      · exact hi
  | @moved y b old new hc hx hforgets hn =>
    rw [relocatedBy_moved hc hn] at hcur
    dsimp only
    split
    · rename_i hy
      rw [if_pos hy] at hcur
      split at hcur
      · cases hcur
      · rename_i hfree
        obtain rfl := Option.some_inj.1 hcur
        exact hi.rename hm fun hne ↦ Bool.eq_false_iff.2 fun hw ↦ hfree ⟨hne, hw⟩
    · rename_i hy
      rw [if_neg hy] at hcur
      obtain rfl := Option.some_inj.1 hcur
      exact hi

structure Follows (m : Mount Device) (i : Nat) (kind : EntryKind) (cur : RemotePath) : Prop where
  tracks : m.inodes.Tracks i cur
  node : KindAt m.base.device.tree cur kind

theorem Answered.follows {cur' : RemotePath} (h : m.Answered caller c x m') (hm : m.Sound)
    (hf : m.Follows i kind cur)
    (hcur : m.relocatedBy cur c x = some cur') : m'.Follows i kind cur' := by
  refine ⟨h.tracks hm.inodes hf.tracks hcur, ?_⟩
  cases h with
  | calm hb ht hforgets hx =>
    rw [relocatedBy_of_plain fun r hr ↦ (hx r hr).2] at hcur
    obtain rfl := Option.some_inj.1 hcur
    exact hb.kindAt hf.node
  | @entered r b path a hb hp ha hr hforgets hn =>
    rw [relocatedBy_of_plain fun _ _ ↦ hn] at hcur
    obtain rfl := Option.some_inj.1 hcur
    exact (hb.map (.getattr path) rfl rfl).kindAt hf.node
  | forgot hn =>
    rw [relocatedBy_of_plain fun _ _ ↦ hn] at hcur
    obtain rfl := Option.some_inj.1 hcur
    exact hf.node
  | @removed y b path removal hc hx =>
    have htree := tree_run_removal hc hx
    rw [relocatedBy_removed hc] at hcur
    split at hcur
    · cases hcur
    · rename_i hkept
      obtain rfl := Option.some_inj.1 hcur
      rw [htree]
      split
      · rename_i hy
        exact kindAt_erase hf.node fun he ↦ hkept ⟨hy, he.symm⟩
      · exact hf.node
  | @moved y b old new hc hx hforgets hn =>
    have htree := tree_run_of_outcome (Filesystem.outcome_rename (s := ⟨m.base, []⟩)) hx
    rw [relocatedBy_moved hc hn] at hcur
    -- A granted renaming takes the file along or leaves it, unless something takes its place.
    split at htree
    · rename_i hy
      rw [if_pos hy] at hcur
      split at hcur
      · cases hcur
      · rename_i hfree
        obtain rfl := Option.some_inj.1 hcur
        exact kindAt_rename hm.base.wellFormed htree hf.node fun hne ↦ Bool.eq_false_iff.2 fun hw ↦
          hfree ⟨hne, hw⟩
    · rename_i hy
      rw [if_neg hy] at hcur
      obtain rfl := Option.some_inj.1 hcur
      rw [htree]
      exact hf.node

theorem follows_next {cur' : RemotePath} (hm : m.Sound) (hf : m.Follows i kind cur)
    (hcur : m.relocated cur e = some cur') : (m.next e).Follows i kind cur' := by
  cases e with
  | arm op e =>
    obtain rfl : cur = cur' := Option.some_inj.1 hcur
    exact ⟨hf.tracks, hf.node⟩
  | callback caller c => exact (answered m caller c).follows hm hf hcur

theorem follows_run {last : RemotePath} (hm : m.Sound) (hf : m.Follows i kind cur)
    (events : List Event)
    (hlast : m.follow cur events = some last) : (m.run events).Follows i kind last := by
  induction events generalizing m cur with
  | nil =>
    obtain rfl : cur = last := Option.some_inj.1 hlast
    exact hf
  | cons e events ih =>
    obtain ⟨cur', hcur, hrest⟩ := Option.bind_eq_some_iff.1 hlast
    exact ih (sound_next hm e) (follows_next hm hf hcur) hrest

theorem Answered.follows_of_child {r : Reply} {a : FileAttributes} (h : m.Answered caller c x m')
    (hm : m.Sound)
    (hp : m.given? c = some path) (hr : x = .ok r) (ha : r.child? = some a) :
    m'.Follows a.ino a.kind path := by
  cases h with
  | calm hb ht hforgets hx =>
    rw [(hx r hr).1] at ha
    cases ha
  | @entered r' b path' a' hb hp' ha' hr' =>
    obtain rfl : path = path' := Option.some_inj.1 (hp.symm.trans hp')
    obtain rfl : r' = r := Except.ok.inj hr
    obtain rfl := Option.some_inj.1 (hr'.symm.trans ha)
    have hx := InodeTable.lookup_numbers hm.inodes path
    have hkind := Filesystem.kindAt_of_getattr (hb.cachedKinds hm.base) (given?_ne_root hp) ha'
    refine ⟨⟨hx.lt_next, .inr ⟨?_, ?_⟩⟩, ?_⟩
    · exact (hx.path _).trans (if_pos rfl)
    · exact (hx.inode _).trans (if_pos rfl)
    · dsimp only
      rw [Filesystem.tree_run_getattr]
      exact hkind
  | forgot =>
    cases hr
    cases ha
  | @removed y =>
    cases y <;> cases hr
    cases ha
  | @moved y =>
    cases y <;> cases hr
    cases ha

/-- A number that a lookup, a `mkdir` or a `create` gave for a path, and of which the kernel
still holds a lookup: as long as nothing removes or replaces the file, however often it or a
directory above it is renamed and whatever else happens, the number is that of the path where
the file is now, and the file is there. -/
theorem held_inode_follows (d : Device) (config : Config) (before after : List Event)
    (caller : Caller) (c : Callback)
    {p last : RemotePath} {r : Reply} {a : FileAttributes} (ht : d.tree.WellFormed)
    (hp : given? ((start d config).run before) c = some p)
    (hr : (((start d config).run before).answer caller c).1 = .ok r) (ha : r.child? = some a)
    (hheld : 0 < holds a.ino (start d config) 0 (before ++ .callback caller c :: after))
    (hlast : (((start d config).run before).next (.callback caller c)).follow p after = some last) :
    ((start d config).run (before ++ .callback caller c :: after)).inodes.path? a.ino = some last ∧
    ((start d config).run (before ++ .callback caller c :: after)).inodes.inode? last = some a.ino ∧
    ∃ node, ((start d config).run (before ++ .callback caller c :: after)).base.device.tree.get?
      last = some node ∧
      node.kind = a.kind := by
  have hsound := sound_start config ht
  have hrun : (start d config).run (before ++ .callback caller c :: after) =
      (((start d config).run before).next (.callback caller c)).run after := by
    rw [run, List.foldl_append]
    rfl
  have hcount := holds_le_run hsound (before ++ .callback caller c :: after)
    (Nat.zero_le (InodeTable.held _ a.ino))
  have hmid := sound_run hsound before
  have hgiven : (((start d config).run before).next (.callback caller c)).Follows a.ino a.kind p :=
    (answered _ caller c).follows_of_child hmid hp hr ha
  have hfollows := follows_run (sound_next hmid (.callback caller c)) hgiven after hlast
  rw [← hrun] at hfollows
  obtain ⟨-, hnone | hpath⟩ := hfollows.tracks
  · -- A number that was given up counts no lookups, but the kernel holds some.
    have hzero : InodeTable.held ((start d config).run
        (before ++ .callback caller c :: after)).inodes a.ino = 0 := by
      rw [InodeTable.held, InodeTable.lookups?_eq_none_iff.2 hnone]
      rfl
    omega
  · exact ⟨hpath.1, hpath.2, Option.map_eq_some_iff.1 hfollows.node⟩

section Examples

open Turns (pilot logFile)

def openedLogs : List Event :=
  [.callback pilot (.lookup 1 (.text "fs")), .callback pilot (.lookup 2 (.text "microsd")),
    .callback pilot (.lookup 3 (.text "log"))]

def madeLog : Callback := .create 4 (.text "1.ulg") 1

def newLog : FileAttributes := .ofAttributes 5 (.ofEntry logFile (.file "1.ulg" 0) .standard pilot)

def renamedLog : List Event :=
  [.callback pilot (.write 5 [1, 2, 3] 0), .callback pilot (.lookup 4 (.text "1.ulg")),
    .callback pilot (.forget 5 1),
    .arm .rename RemoteError.timeout,
      .callback pilot (.rename 4 (.text "1.ulg") 4 (.text "kept.ulg") 0),
    .callback pilot (.rename 4 (.text "1.ulg") 4 (.text "kept.ulg") 0)]

def keptLog : RemotePath := Device.logDirectory.child ⟨"kept.ulg", by decide⟩

theorem held_inode_follows_renamedLog :
    ((start Device.px4 .standard).run
      (openedLogs ++ .callback pilot madeLog :: renamedLog)).inodes.path? 5 = some keptLog := by
  have h := @held_inode_follows Device.px4 .standard openedLogs renamedLog pilot madeLog
    logFile keptLog
    (.created newLog) newLog Device.wellFormed_px4 (by decide +kernel) (by decide +kernel) rfl
    (by decide +kernel) (by decide +kernel)
  exact h.1

end Examples

end Mount

end RemoteMount
