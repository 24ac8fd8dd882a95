import RemoteMount.Proofs.Memory.Disarmed
import RemoteMount.Proofs.Mount.FailureReplies

namespace RemoteMount

open Memory Program Turns

variable {α β : Type} {policy : Policy} {caller : Caller} {b : CachedDevice Device}
    {path : RemotePath} {e : CallError}

/-- If the program fails with an error that is not the device's, the tree stays as it was. -/
def Spares (p : Program (Except CallError α)) (b : CachedDevice Device) : Prop :=
  ∀ e, (p.run b).1 = .error e → e.isLocal = true → (p.run b).2.device.tree = b.device.tree

theorem Reported.noFailure_of_local {own : CallError → List Attempt → Prop} {making : Bool}
    {log : List Attempt}
    {x : Except CallError α} (h : Reported own making x log) (hx : x = .error e)
    (hl : e.isLocal = true) :
    firstFailure? log = none := by
  rw [Option.eq_none_iff_forall_ne_some]
  intro e' he
  cases hx.symm.trans (h.remote e' he)
  cases hl

theorem spares_of_heeds {own : CallError → List Attempt → Prop} {making : Bool}
    {p : Program (Except CallError α)}
    (h : p.Heeds (Reported own making) []) (ho : ∀ e log, own e log → Untouched log) :
    Spares p b := by
  intro e he hl
  have hreported := (h.run b).1
  have hown := hreported.own (hreported.noFailure_of_local he hl) e he
  exact tree_run_of_quiet p fun a ha _ ↦ (ho e _ hown a ha).2

theorem spares_noneOwn {making : Bool} {p : Program (Except CallError α)}
    (h : p.Heeds (Reported noneOwn making) []) :
    Spares p b :=
  spares_of_heeds h fun _ _ ho ↦ ho.elim

theorem spares_done (x : Except CallError α) : Spares (.done x) b := fun _ _ _ ↦ rfl

theorem spares_checked {x : Except CallError α} {q : α → Program (Except CallError β)}
    (h : ∀ a, x = .ok a → Spares (q a) b) : Spares (andThen (.done x) q) b := by
  cases x with
  | error e => exact spares_done _
  | ok a => exact h a rfl

theorem error_of_silent {p : Program (Except CallError α)} (h : ((silent p).run b).1 = .error e) :
    (p.run b).1 = .error e := by
  rw [run_silent] at h
  exact map_eq_error_iff.1 h

theorem spares_silent {p : Program (Except CallError α)} (h : Spares p b) :
    Spares (silent p) b := by
  intro e he hl
  have htree := h e (error_of_silent he) hl
  rwa [run_silent]

theorem spares_andThen {p : Program (Except CallError α)} {q : α → Program (Except CallError β)}
    (hp : Spares p b)
    (hq : ∀ a b', p.run b = (.ok a, b') → ∀ e, ((q a).run b').1 = .error e → e.isLocal = false) :
    Spares (p.andThen q) b := by
  intro e he hl
  rw [run_andThen] at he ⊢
  cases hx : p.run b with
  | mk x b' =>
    rw [hx] at he
    cases x with
    | error e' =>
      cases he
      have htree := hp e (congrArg Prod.fst hx) hl
      rw [hx] at htree
      exact htree
    | ok a =>
      rw [hq a b' hx e he] at hl
      cases hl

namespace Filesystem

theorem remote_of_getattr {node : Node} (hn : b.device.tree.get? path = some node)
    (he : ((getattr policy caller path).run b).1 = .error e) : e.isLocal = false := by
  cases hname : path.name? with
  | none =>
    unfold getattr at he
    rw [hname] at he
    cases he
  | some name =>
    cases hcached : b.cache.lookup path with
    | some a =>
      rw [run_getattr_hit hname hcached] at he
      cases he
    | none =>
      rw [run_getattr_miss hname hcached] at he
      cases hlist : (RemoteDevice.answer (.listdir path.parent) b.device).1 with
      | error e' =>
        rw [hlist] at he
        cases he
        rfl
      | ok rows =>
        rw [hlist] at he
        have hat : b.device.tree.attributesAt policy caller path =
            some (.ofEntry path (node.entry name) policy caller) :=
          Tree.attributesAt_eq_some_iff.2 ⟨name, node, hname, hn, rfl⟩
        have hrecord := Tree.mem_of_attributesAt (Device.listing_of_answer hlist) rfl hname hat
        dsimp only at he
        split at he
        · cases he
        · rename_i hnone
          simpa using List.find?_eq_none.1 hnone _ hrecord

end Filesystem

theorem exists_of_insert {t : Tree} {node : Node} :
    ∃ found, (t.insert path node).get? path = some found :=
  ⟨node, KeyMap.get?_insert_self _ _ _⟩

theorem exists_of_creation {t t' : Tree} {position : UInt64}
    (h : t.openFile path .createWrite = .ok (t', position)) :
    ∃ node, t'.get? path = some node := by
  obtain ⟨-, -, rfl⟩ | ⟨hmode, -⟩ := Tree.openFile_eq_ok h
  · exact exists_of_insert
  · exact absurd rfl hmode

/-- After a call that makes the node at a path, looking it up fails by the device only. -/
theorem spares_make {held making : Bool} {granted : Unit → Tree → Prop}
    {p : Program (Except CallError Unit)}
    {own : CallError → List Attempt → Prop} (hp : p.Heeds (Reported own making) [])
    (ho : ∀ e log, own e log → Untouched log)
    (hout : p.Ensures (Outcome held b.device.tree granted) ⟨b, []⟩)
    (hg : ∀ u t, granted u t → ∃ node, t.get? path = some node) :
    Spares (p.andThen fun _ ↦ silent (Filesystem.getattr policy caller path)) b := by
  refine spares_andThen (spares_of_heeds hp ho) fun u b' hx e he ↦ ?_
  have hgranted := (Outcome.run hout).1 u (congrArg Prod.fst hx)
  rw [hx] at hgranted
  obtain ⟨node, hn⟩ := hg u _ hgranted
  exact Filesystem.remote_of_getattr hn (error_of_silent he)

namespace Mount

/-- Bytes that are so many that a reply cannot hold their number. No request of the kernel has
room for them. -/
def Callback.Oversized : Callback → Prop
  | .write _ data _ => UInt32.size ≤ data.length
  | _ => False

theorem spares_getattr {path : RemotePath} :
    Spares (silent (Filesystem.getattr policy caller path)) b := by
  refine spares_silent (spares_of_heeds (Filesystem.heeds_getattr (.inl untouched_nil) rfl) ?_)
  rintro e log ⟨-, rfl⟩
  exact untouched_singleton.2 ⟨rfl, rfl⟩

theorem spares_steps (m : Mount Device) (caller : Caller) (c : Callback) (hc : ¬c.Oversized) :
    Spares (m.steps caller c) m.base := by
  have hu := untouched_nil
  cases c with
  | lookup parent name => exact spares_checked fun _ _ ↦ spares_getattr
  | getattr ino => exact spares_checked fun _ _ ↦ spares_getattr
  | setattr ino changes =>
    refine spares_checked fun path hp ↦ ?_
    have hinspect : m.inspect caller ino =
        silent (Filesystem.getattr m.config.policy caller path) := by
      rw [inspect, hp]
      rfl
    split
    · exact spares_done _
    · split
      · rw [hinspect]
        exact spares_getattr
      · rw [hinspect]
        refine spares_make (Filesystem.heeds_truncate hu) (fun _ _ ho ↦ ho.elim)
          (Filesystem.outcome_truncate (s := ⟨m.base, []⟩)) fun _ t hg ↦ ?_
        obtain ⟨content, -, rfl⟩ := hg
        exact exists_of_insert
  | mkdir parent name =>
    refine spares_checked fun path _ ↦ ?_
    refine spares_make (Filesystem.heeds_mkdir hu) (fun _ _ ho ↦ ho.elim)
      (Filesystem.outcome_mkdir (s := ⟨m.base, []⟩)) fun _ t hg ↦ ?_
    obtain ⟨-, rfl⟩ := Tree.mkdir_eq_ok hg
    exact exists_of_insert
  | create parent name flags =>
    refine spares_checked fun _ _ ↦ spares_checked fun path _ ↦ ?_
    have hgranted (u : Unit) (t : Tree)
        (hg : ∃ position, m.base.device.tree.openFile path .createWrite = .ok (t, position)) :
        ∃ node, t.get? path = some node := by
      obtain ⟨position, hg⟩ := hg
      exact exists_of_creation hg
    split
    · refine spares_make (Filesystem.heeds_createNew hu) ?_
        (Filesystem.outcome_createNew (s := ⟨m.base, []⟩)) hgranted
      rintro e log ⟨-, rfl⟩
      exact untouched_singleton.2 ⟨rfl, rfl⟩
    · exact spares_make (Filesystem.heeds_create hu) (fun _ _ ho ↦ ho.elim)
        (Filesystem.outcome_create (s := ⟨m.base, []⟩)) hgranted
  | unlink parent name => exact spares_checked fun _ _ ↦ spares_noneOwn (Filesystem.heeds_unlink hu)
  | rmdir parent name => exact spares_checked fun _ _ ↦ spares_noneOwn (Filesystem.heeds_rmdir hu)
  | rename parent name newParent newName flags =>
    rw [steps]
    split
    · exact spares_done _
    · exact spares_checked fun _ _ ↦ spares_checked fun _ _ ↦
        spares_noneOwn (Filesystem.heeds_rename hu)
  | read ino max offset =>
    exact spares_checked fun _ _ ↦ spares_silent (spares_noneOwn (Filesystem.heeds_read hu))
  | write ino data offset =>
    refine spares_checked fun place _ ↦ ?_
    refine spares_andThen (spares_noneOwn (Filesystem.heeds_write hu)) fun n b' hx e he ↦ ?_
    have hgranted := (Outcome.run (Filesystem.outcome_write (s := ⟨m.base, []⟩))).1 n
      (congrArg Prod.fst hx)
    have hfits : n < UInt32.size := by
      rw [hgranted.1]
      exact Nat.lt_of_not_le hc
    rw [if_pos hfits] at he
    cases he
  | readdir ino offset room =>
    exact spares_checked fun _ _ ↦ spares_silent (spares_noneOwn (Filesystem.heeds_readdir hu))
  | openFile ino flags => exact spares_done _
  | opendir ino => exact spares_silent (spares_done _)
  | getxattr ino name | setxattr ino name | listxattr ino | removexattr ino name =>
    exact spares_done _
  | forget ino n | forgetAll counts | release ino | releasedir ino | flush ino | fsync ino
  | statfs ino =>
    exact spares_done _
  | destroy => rintro _ ⟨⟩

def disarmed (m : Mount Device) : Mount Device := { m with base := m.base.disarmed }

end Mount

theorem error_of_failureOf {x : Except CallError α} (h : failureOf x = some e) : x = .error e := by
  cases x with
  | error e' => rw [Option.some.inj h]
  | ok a => cases h

theorem Call.Own.untouched {c : Call String} {log : List Attempt} (h : c.Own e log) :
    Untouched log := by
  cases h with
  | malformed => exact untouched_nil
  | missing | existing => exact untouched_singleton.2 ⟨rfl, rfl⟩

theorem tree_run_of_lawful {p : Program α} {failure : RemoteError} (h : Lawful (p.attempts b))
    (hf : firstFailure? (p.attempts b) = some failure) (hl : ¬FailedLate (p.attempts b)) :
    (p.run b).2.device.tree = b.device.tree := by
  refine tree_run_of_quiet p fun a ha hn ↦ ?_
  by_contra ht
  exact hl (h.failedLate hf ha hn (Bool.not_eq_false _ ▸ ht))

/-- What a call or callback has made of the tree, beside what it makes of it where no faults are
armed. -/
structure AllOrNothing (before after unhindered : Tree) (log : List Attempt) : Prop where
  either : after = before ∨ after = unhindered
  undone : ∀ e, firstFailure? log = some e → ¬FailedLate log → after = before

/-- Every call and every callback, in any state of the device and of the cache and with any
faults armed, leaves the tree as it was or as it would without faults. If a request of it fails,
the tree stays as it was, unless the first to fail closes a session or lists what was made.
Without a request that fails, a failure leaves the tree as it was, too; the one exception is a
write of more bytes than a reply can count. -/
theorem all_or_nothing (policy : Policy) (caller : Caller) :
    (∀ (c : Call String) (b : CachedDevice Device),
      AllOrNothing b.device.tree ((c.programOfText policy caller).run b).2.device.tree
        ((c.programOfText policy caller).run b.disarmed).2.device.tree
          ((c.programOfText policy caller).attempts b) ∧
      ∀ e, ((c.programOfText policy caller).run b).1 = .error e →
        firstFailure? ((c.programOfText policy caller).attempts b) = none →
          ((c.programOfText policy caller).run b).2.device.tree = b.device.tree) ∧
    ∀ (m : Mount Device) (c : Mount.Callback),
      AllOrNothing m.base.device.tree (m.answer caller c).2.base.device.tree
        (m.disarmed.answer caller c).2.base.device.tree (m.attempts caller c) ∧
      ∀ e, (m.answer caller c).1 = .error e → firstFailure? (m.attempts caller c) = none →
        (m.answer caller c).2.base.device.tree = m.base.device.tree ∨ c.Oversized := by
  refine ⟨fun c b ↦ ?_, fun m c ↦ ?_⟩
  · have hheeds := c.heeds_programOfText policy caller
    obtain ⟨hreported, hlawful⟩ := hheeds.run b
    refine ⟨⟨tree_run_cases hheeds b, fun e he hlate ↦ tree_run_of_lawful hlawful he hlate⟩,
      fun e he hn ↦ ?_⟩
    exact tree_run_of_quiet _ fun a ha _ ↦ ((hreported.own hn e he).untouched a ha).2
  · have hheeds := m.heeds_steps caller c
    obtain ⟨hanswer, hbase⟩ := m.answer_steps caller c
    have hunhindered : (m.disarmed.answer caller c).2.base =
        ((m.steps caller c).run m.base.disarmed).2 := by
      rw [(m.disarmed.answer_steps caller c).2, Mount.disarmed, Mount.steps_rebase]
    obtain ⟨hreported, hlawful⟩ := m.reported_answer caller c
    rw [hbase, hunhindered]
    refine ⟨⟨tree_run_cases hheeds m.base, fun e he hlate ↦ ?_⟩, fun e he hn ↦ ?_⟩
    · rw [m.attempts_eq] at hlawful he hlate
      exact tree_run_of_lawful hlawful he hlate
    · by_cases hc : c.Oversized
      · exact .inr hc
      · rw [he] at hanswer
        exact .inl (m.spares_steps caller c hc e (error_of_failureOf hanswer.symm)
          (hreported.own hn e he))

section Examples

def makingFails : Device where
  __ := Device.px4
  faults := (KeyMap.empty.insert .mkdir (.reported Errno.nospc "card full")).insert .close
    (.reported Errno.io "link lost")

theorem all_or_nothing_makingFails :
    ((Mount.mk ⟨makingFails, .empty⟩ .initial .standard).answer pilot
      (.mkdir 1 (.text "log"))).2.base.device.tree = makingFails.tree := by
  have hlog : (Mount.mk ⟨makingFails, .empty⟩ .initial .standard).attempts pilot
      (.mkdir 1 (.text "log")) =
      [⟨.mkdir ⟨[⟨"log", by decide⟩]⟩, some (.reported Errno.nospc "card full")⟩] := by
    decide +kernel
  refine ((all_or_nothing .standard pilot).2 _ _).1.undone _ (congrArg firstFailure? hlog) ?_
  rw [hlog]
  rintro ⟨before, a, after, he, -, -, hlate⟩
  obtain ⟨rfl, ha⟩ | ⟨-, hnone⟩ := List.singleton_eq_append_iff.1 he
  · obtain ⟨rfl, -⟩ := List.cons.inj ha
    rcases hlate with hop | ⟨hop, -⟩ <;> cases hop
  · cases hnone

example :
    let x := (Mount.mk ⟨makingFails, .empty⟩ .initial .standard).answer pilot
      (.create 1 (.text "1.ulg") 1)
    x.1 = .error (.remote (.reported Errno.io "link lost")) ∧
      x.2.base.device.tree.get? ⟨[⟨"1.ulg", by decide⟩]⟩ = some (.file .empty) := by
  decide +kernel

end Examples

end RemoteMount
