import RemoteMount.Proofs.Mount.LookupCounts

namespace RemoteMount

open Memory Program Interleaving

namespace Mount

/-- What happens to a mount over a device in memory. -/
inductive Event
  | arm (op : RemoteOp) (e : RemoteError)
  | callback (caller : Caller) (c : Callback)

def next (m : Mount Device) : Event → Mount Device
  | .arm op e => { m with base := { m.base with device := m.base.device.armFault op e } }
  | .callback caller c => (m.answer caller c).2

def run (m : Mount Device) (events : List Event) : Mount Device := events.foldl next m

/-- What every event keeps of a mount. -/
structure Sound (m : Mount Device) : Prop where
  base : CachedKinds m.base
  inodes : m.inodes.Sound

variable {m m' : Mount Device} {caller : Caller} {c : Callback} {x : Except CallError Reply}
    {policy : Policy}
variable {b b' : CachedDevice Device} {path p : RemotePath} {i : Nat} {kind : EntryKind}

theorem Reaches.cachedKinds (h : Reaches policy caller b b') (hb : CachedKinds b) :
    CachedKinds b' := by
  induction h with
  | refl => exact hb
  | call _ call _ ih => exact cachedKinds_run ih call

theorem Reaches.kindAt (h : Reaches policy caller b b') (hk : KindAt b.device.tree p kind) :
    KindAt b'.device.tree p kind := by
  induction h with
  | refl => exact hk
  | call _ call hc ih => exact kindAt_run hc ih

section Removal

variable {removal : Program (Except CallError Unit)} {y : Except CallError Unit}

theorem removal_cases (hc : m.removal? c = some (path, removal)) :
    removal = Filesystem.unlink path ∨ removal = Filesystem.rmdir path := by
  cases c with
  | unlink parent name =>
    obtain ⟨_, -, he⟩ := Option.map_eq_some_iff.1 hc
    cases he
    exact .inl rfl
  | rmdir parent name =>
    obtain ⟨_, -, he⟩ := Option.map_eq_some_iff.1 hc
    cases he
    exact .inr rfl
  | _ => cases hc

theorem tree_run_of_outcome {granted : Unit → Tree → Prop}
    (h : removal.Ensures (Turns.Outcome false b.device.tree granted) ⟨b, []⟩)
    (hx : removal.run b = (y, b')) :
    if y.isOk then granted () b'.device.tree else b'.device.tree = b.device.tree := by
  have hrun := Turns.Outcome.run h
  rw [hx] at hrun
  cases y with
  | ok u => exact hrun.1 u rfl
  | error e => exact hrun.2 e rfl (.inl rfl)

theorem tree_run_removal (hc : m.removal? c = some (path, removal))
    (hx : removal.run m.base = (y, b)) :
    b.device.tree = if y.isOk then m.base.device.tree.erase path else m.base.device.tree := by
  rcases removal_cases hc with rfl | rfl
  · have htree := tree_run_of_outcome (Filesystem.outcome_unlink (s := ⟨m.base, []⟩)) hx
    split at htree
    · rename_i hy
      rw [if_pos hy]
      exact (Tree.unlink_eq_ok htree).2
    · rename_i hy
      rw [if_neg hy]
      exact htree
  · have htree := tree_run_of_outcome (Filesystem.outcome_rmdir (s := ⟨m.base, []⟩)) hx
    split at htree
    · rename_i hy
      rw [if_pos hy]
      exact (Tree.rmdir_eq_ok htree).2
    · rename_i hy
      rw [if_neg hy]
      exact htree

theorem cachedKinds_run_removal (hc : m.removal? c = some (path, removal))
    (hx : removal.run m.base = (y, b))
    (hm : CachedKinds m.base) (caller : Caller) : CachedKinds b := by
  have hrun : CachedKinds (removal.run m.base).2 := by
    rcases removal_cases hc with rfl | rfl
    · exact cachedKinds_run_of_map m.config.policy caller (.unlink path) rfl hm
    · exact cachedKinds_run_of_map m.config.policy caller (.rmdir path) rfl hm
  rw [hx] at hrun
  exact hrun

end Removal

theorem Answered.sound (h : m.Answered caller c x m') (hm : m.Sound) : m'.Sound := by
  refine ⟨?_, h.inodes_sound hm.inodes⟩
  cases h with
  | calm hb ht => exact hb.cachedKinds hm.base
  | @entered r b path a hb => exact (hb.map (.getattr path) rfl rfl).cachedKinds hm.base
  | forgot => exact hm.base
  | removed hc hx => exact cachedKinds_run_removal hc hx hm.base caller
  | @moved y b old new hc hx =>
    have hbase := cachedKinds_run_of_map m.config.policy caller (.rename old new) rfl hm.base
    rw [hx] at hbase
    exact hbase

theorem sound_next (hm : m.Sound) (e : Event) : (m.next e).Sound := by
  cases e with
  | arm op e => exact ⟨⟨hm.base.wellFormed, hm.base.records⟩, hm.inodes⟩
  | callback caller c => exact (answered m caller c).sound hm

theorem sound_run (hm : m.Sound) (events : List Event) : (m.run events).Sound := by
  induction events generalizing m with
  | nil => exact hm
  | cons e events ih => exact ih (sound_next hm e)

theorem sound_start {d : Device} (config : Config) (ht : d.tree.WellFormed) :
    (start d config).Sound :=
  ⟨cachedKinds_start ht, InodeTable.sound_initial⟩

def holds (i : Nat) : Mount Device → Nat → List Event → Nat
  | _, n, [] => n
  | m, n, .arm op e :: rest => holds i (m.next (.arm op e)) n rest
  | m, n, .callback caller c :: rest =>
    holds i (m.next (.callback caller c)) (c.keeps i n + Reply.gives i (m.answer caller c).1) rest

theorem holds_le_run {n : Nat} (hm : m.Sound) (events : List Event) (hn : n ≤ m.inodes.held i) :
    holds i m n events ≤ (m.run events).inodes.held i := by
  induction events generalizing m n with
  | nil => exact hn
  | cons e events ih =>
    have hnext := sound_next hm e
    cases e with
    | arm op e => exact ih hnext hn
    | callback caller c => exact ih hnext ((answered m caller c).holds_le hm.inodes hn)

end Mount

end RemoteMount
