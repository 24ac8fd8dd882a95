import RemoteMount.Proofs.FileContents
import RemoteMount.Proofs.Mount.HeldInodes

namespace RemoteMount

open Memory Program Turns Interleaving

namespace InodeTable

variable {t t' : InodeTable} {p q old new : RemotePath} {i n extra : Nat} {x : Nat × InodeTable}

/-- The number is that of no path. It has the path that it had last, or was given up. -/
structure Detached (t : InodeTable) (i : Nat) (p : RemotePath) : Prop where
  lt_next : i < t.next
  path : t.path? i = none ∨ t.path? i = some p
  unmapped : ∀ q, t.inode? q ≠ some i

theorem detached_invalidate (hi : i < t.next) (hp : t.path? i = none ∨ t.path? i = some p)
    (hq : ∀ q', t.inode? q' = some i → q' = q) : (t.invalidate q).Detached i p := by
  refine ⟨hi, hp, fun q' ↦ ?_⟩
  rw [inode?_invalidate]
  split
  · exact nofun
  · exact fun h ↦ absurd (hq q' h) ‹_›

theorem detached_rename (hi : i < t.next) (hp : t.path? i = none ∨ t.path? i = some p)
    (hne : old ≠ new)
    (hq : ∀ q, t.inode? q = some i → q.within new = true) : (t.rename old new).Detached i p := by
  have hpath : (t.rename old new).path? i = t.path? i := path?_rename_of_kept fun q h _ ↦ hq q h
  refine ⟨next_rename.symm ▸ hi, hpath ▸ hp, fun q ↦ ?_⟩
  rw [inode?_rename hne]
  split
  · intro h
    obtain ⟨q', -, h⟩ := Option.bind_eq_some_iff.1 h
    split at h
    · cases h
    · rename_i hout
      exact hout (hq q' h)
  · rename_i hout
    split
    · exact nofun
    · exact fun h ↦ hout (hq q h)

namespace Detached

theorem numbers (h : t.Detached i p) (hx : t.Numbers q extra x) : x.2.Detached i p := by
  -- A path is given its own number or the next one, and `i` is no path's number and below the next.
  have hne : i ≠ x.1 := by
    intro he
    rw [hx.number] at he
    cases hq : t.inode? q with
    | none =>
      have hlt := h.lt_next
      rw [hq, Option.getD_none] at he
      omega
    | some j =>
      rw [hq, Option.getD_some] at he
      exact h.unmapped q (he ▸ hq)
  refine ⟨Nat.lt_of_lt_of_le h.lt_next hx.next_le, ?_, fun q' ↦ ?_⟩
  · rw [hx.path, if_neg hne]
    exact h.path
  · rw [hx.inode]
    split
    · exact fun he ↦ hne (Option.some_inj.1 he).symm
    · exact h.unmapped q'

theorem forget (h : t.Detached i p) (ht : t.Sound) (j n : Nat) : (t.forget j n).2.Detached i p := by
  refine ⟨next_forget.symm ▸ h.lt_next, ?_, fun q ↦ ?_⟩
  · rw [path?_forget]
    split
    · exact .inl rfl
    · exact h.path
  · rw [inode?_forget ht]
    split
    · exact nofun
    · exact h.unmapped q

theorem invalidate (h : t.Detached i p) : (t.invalidate q).Detached i p :=
  detached_invalidate h.lt_next h.path fun q' hq ↦ absurd hq (h.unmapped q')

theorem rename (h : t.Detached i p) : (t.rename old new).Detached i p := by
  by_cases hne : old = new
  · rw [InodeTable.rename, if_pos hne]
    exact h
  · exact detached_rename h.lt_next h.path hne fun q hq ↦ absurd hq (h.unmapped q)

end Detached

theorem Tracks.path (h : t.Tracks i p) : t.path? i = none ∨ t.path? i = some p :=
  h.2.imp_right And.left

theorem Tracks.eq_of_inode? (h : t.Tracks i p) (ht : t.Sound) (hq : t.inode? q = some i) :
    q = p := by
  have hpath := ht.path_of_inode q i hq
  rcases h.path with hnone | hp
  · cases hnone.symm.trans hpath
  · exact Option.some_inj.1 (hpath.symm.trans hp)

end InodeTable

namespace Filesystem

theorem exists_getattr_of_node {policy : Policy} {caller : Caller} {m : CachedDevice Device}
    {path : RemotePath}
    {node : Node} (hm : CachedKinds m) (hf : m.device.faults.get? .listdir = none)
    (hn : m.device.tree.get? path = some node) :
    ∃ a, ((getattr policy caller path).run m).1 = .ok a ∧ a.kind = node.kind := by
  by_cases hroot : path = .root
  · subst hroot
    obtain rfl : node = .directory := Option.some_inj.1 (hn.symm.trans hm.wellFormed.1)
    exact ⟨.ofRoot caller, rfl, rfl⟩
  · obtain ⟨name, hname⟩ := Option.ne_none_iff_exists'.1 (mt RemotePath.name?_eq_none_iff.1 hroot)
    have hfound : ∃ a, ((getattr policy caller path).run m).1 = .ok a := by
      cases hcached : m.cache.lookup path with
      | some a => exact ⟨a, by rw [run_getattr_hit hname hcached]⟩
      | none =>
        have hlisting := Tree.listing_eq_ok_iff.2 ⟨hm.wellFormed.parent_directory hn, rfl⟩
        have hanswer : (RemoteDevice.answer (.listdir path.parent) m.device).1 =
            m.device.tree.listing path.parent :=
          congrArg Prod.fst (Device.answer_of_no_fault hf)
        have hat : m.device.tree.attributesAt policy caller path =
            some (.ofEntry path (node.entry name) policy caller) :=
          Tree.attributesAt_eq_some_iff.2 ⟨name, node, hname, hn, rfl⟩
        have hrecord := Tree.mem_of_attributesAt hlisting rfl hname hat
        rw [run_getattr_miss hname hcached, hanswer, hlisting]
        dsimp only
        split
        · exact ⟨_, rfl⟩
        · rename_i hnone
          simpa using List.find?_eq_none.1 hnone _ hrecord
    obtain ⟨a, ha⟩ := hfound
    have hkind := kindAt_of_getattr hm hroot ha
    rw [KindAt, hn, Option.map_some, Option.some_inj] at hkind
    exact ⟨a, ha, hkind.symm⟩

end Filesystem

namespace Mount

variable {m m' : Mount Device} {caller : Caller} {c : Callback} {x : Except CallError Reply}
    {e : Event}
variable {t t' : InodeTable} {cur path p : RemotePath} {i : Nat} {kind : EntryKind}

theorem Peeked.detached (h : Peeked t t') (ht : t.Sound) (hi : t.Detached i p) : t'.Detached i p :=
  h.induct (P := fun t ↦ t.Detached i p) ht hi fun _ q ht hi ↦
    hi.numbers (InodeTable.peek_numbers ht q)

theorem foldl_forget_detached (l : List (Nat × Nat)) (ht : t.Sound) (hi : t.Detached i p) :
    (l.foldl (fun t f ↦ (t.forget f.1 f.2).2) t).Detached i p :=
  foldl_forget_induct (P := fun t ↦ t.Detached i p) l ht hi fun _ j n ht hi ↦ hi.forget ht j n

theorem Answered.detached (h : m.Answered caller c x m') (hm : m.Sound)
    (hi : m.inodes.Detached i cur) :
    m'.inodes.Detached i cur := by
  cases h with
  | calm hb ht => exact ht.detached hm.inodes hi
  | @entered r b path => exact hi.numbers (InodeTable.lookup_numbers hm.inodes path)
  | forgot => exact foldl_forget_detached _ hm.inodes hi
  | removed =>
    dsimp only
    split
    · exact hi.invalidate
    · exact hi
  | moved =>
    dsimp only
    split
    · exact hi.rename
    · exact hi

theorem Answered.detached_of_relocatedBy (h : m.Answered caller c x m') (hm : m.Sound)
    (hi : m.inodes.Tracks i cur)
    (hcur : m.relocatedBy cur c x = none) : m'.inodes.Detached i cur := by
  cases h with
  | calm hb ht hforgets hx =>
    cases x with
    | error e => cases hcur
    | ok r =>
      obtain ⟨-, hr, hv⟩ := hx r rfl
      rw [relocatedBy, hr, hv] at hcur
      cases hcur
  | entered hb hp ha hr hforgets hn =>
    rw [relocatedBy, hn.1, hn.2] at hcur
    cases hcur
  | forgot hn =>
    rw [relocatedBy, hn.1, hn.2] at hcur
    cases hcur
  | @removed y b path removal hc hx hforgets hn =>
    cases y with
    | error e => cases hcur
    | ok u =>
      rw [Except.map, relocatedBy, hc] at hcur
      dsimp only at hcur
      split at hcur
      · rename_i he
        subst he
        exact InodeTable.detached_invalidate hi.1 hi.path fun q hq ↦ hi.eq_of_inode? hm.inodes hq
      · cases hcur
  | @moved y b old new hc hx hforgets hn =>
    cases y with
    | error e => cases hcur
    | ok u =>
      rw [Except.map, relocatedBy, hn, hc] at hcur
      dsimp only at hcur
      split at hcur
      · rename_i hover
        refine InodeTable.detached_rename hi.1 hi.path hover.1 fun q hq ↦ ?_
        rw [hi.eq_of_inode? hm.inodes hq, hover.2]
      · cases hcur

theorem detached_next (hm : m.Sound) (hi : m.inodes.Detached i cur) (e : Event) :
    (m.next e).inodes.Detached i cur := by
  cases e with
  | arm op e => exact hi
  | callback caller c => exact (answered m caller c).detached hm hi

theorem detached_run (hm : m.Sound) (hi : m.inodes.Detached i cur) (events : List Event) :
    (m.run events).inodes.Detached i cur := by
  induction events generalizing m with
  | nil => exact hi
  | cons e events ih => exact ih (sound_next hm e) (detached_next hm hi e)

theorem detached_of_relocated (hm : m.Sound) (hi : m.inodes.Tracks i cur)
    (hcur : m.relocated cur e = none) :
    (m.next e).inodes.Detached i cur := by
  cases e with
  | arm op e => cases hcur
  | callback caller c => exact (answered m caller c).detached_of_relocatedBy hm hi hcur

/-- The number of which the callback asks for attributes or bytes, or which it asks to
change. -/
def Callback.subject? : Callback → Option Nat
  | .getattr ino | .setattr ino _ | .read ino _ _ | .write ino _ _ => some ino
  | _ => none

def Refused {α : Type} (m : Mount Device) (x : Except CallError α × Mount Device) : Prop :=
  (∃ e, x.1 = .error e) ∧ x.2.base.device.tree = m.base.device.tree

section Refused

variable {α : Type} {x : Except CallError α × Mount Device} {held : Bool}
    {granted : α → Tree → Prop}
variable {q : Program (Except CallError α)}

theorem Refused.reply (h : m.Refused x) (f : α → Reply) : m.Refused (reply x f) := by
  obtain ⟨⟨e, he⟩, ht⟩ := h
  refine ⟨⟨e, ?_⟩, ht⟩
  rw [Mount.reply, he]
  rfl

theorem pathOf_eq_ok (hi : m.inodes.path? i = some p) : m.pathOf i = .ok p := by rw [pathOf, hi]

theorem refused_call (h : q.Ensures (Outcome held m.base.device.tree granted) ⟨m.base, []⟩)
    (hn : ∀ a t, ¬granted a t) : m.Refused (m.call q) := by
  refine ⟨?_, (Outcome.run_cases h).resolve_right fun ⟨a, ha⟩ ↦ hn a _ ha⟩
  cases hx : (q.run m.base).1 with
  | error e => exact ⟨e, hx⟩
  | ok a => exact absurd ((Outcome.run h).1 a hx) (hn a _)

theorem tree_getattr (hi : m.inodes.path? i = some p) :
    (m.getattr caller i).2.base.device.tree = m.base.device.tree := by
  have htree : ((Filesystem.getattr m.config.policy caller p).run m.base).2.device.tree =
      m.base.device.tree :=
    Filesystem.tree_run_getattr
  unfold getattr
  rw [pathOf_eq_ok hi]
  dsimp only
  rw [call_eq]
  generalize (Filesystem.getattr m.config.policy caller p).run m.base = x at htree ⊢
  obtain ⟨x, b⟩ := x
  cases x <;> exact htree

theorem refused_getattr (hm : m.Sound) (hi : m.inodes.path? i = some p)
    (hnone : m.base.device.tree.get? p = none) :
    m.Refused (m.getattr caller i) := by
  have hroot : p ≠ .root := by
    rintro rfl
    cases hm.base.wellFormed.1.symm.trans hnone
  refine ⟨?_, tree_getattr hi⟩
  unfold getattr
  rw [pathOf_eq_ok hi]
  dsimp only
  rw [call_eq]
  cases hx : (Filesystem.getattr m.config.policy caller p).run m.base with
  | mk x b =>
    cases x with
    | error e => exact ⟨e, rfl⟩
    | ok a =>
      have hkind := Filesystem.kindAt_of_getattr hm.base hroot (congrArg Prod.fst hx)
      rw [KindAt, hnone] at hkind
      cases hkind

theorem positionOf_cases (hi : m.inodes.path? i = some p) (offset : Int) :
    (∃ e, m.positionOf i offset = .error e) ∨ ∃ n, m.positionOf i offset = .ok (p, n) := by
  rw [positionOf, pathOf_eq_ok hi]
  cases offsetOf offset with
  | error e => exact .inl ⟨e, rfl⟩
  | ok n => exact .inr ⟨n, rfl⟩

variable (hi : m.inodes.path? i = some p)
    (hfile : ∀ content, m.base.device.tree.get? p ≠ some (.file content))

include hi hfile

theorem refused_read {max : Nat} {offset : Int} : m.Refused (m.read i max offset) := by
  unfold read
  rcases positionOf_cases hi offset with ⟨e, hpos⟩ | ⟨n, hpos⟩
  · rw [hpos]
    exact ⟨⟨e, rfl⟩, rfl⟩
  · rw [hpos]
    apply refused_call (Filesystem.outcome_read (s := ⟨m.base, []⟩))
    rintro data t ⟨-, content, hc, -⟩
    exact hfile content hc

theorem refused_write {data : Bytes} {offset : Int} : m.Refused (m.write i data offset) := by
  unfold write
  rcases positionOf_cases hi offset with ⟨e, hpos⟩ | ⟨n, hpos⟩
  · rw [hpos]
    exact ⟨⟨e, rfl⟩, rfl⟩
  · rw [hpos]
    have hcall : m.Refused (m.call (Filesystem.write p data n)) := by
      apply refused_call (Filesystem.outcome_write (s := ⟨m.base, []⟩))
      rintro count t ⟨-, content, hc, -⟩
      exact hfile content hc
    dsimp only
    generalize m.call (Filesystem.write p data n) = x at hcall ⊢
    obtain ⟨x, m'⟩ := x
    obtain ⟨⟨e, rfl⟩, ht⟩ := hcall
    exact ⟨⟨e, rfl⟩, ht⟩

end Refused

theorem refused_setattr (hm : m.Sound) (hi : m.inodes.path? i = some p)
    (hnone : m.base.device.tree.get? p = none)
    {changes : Changes} : m.Refused (m.setattr caller i changes) := by
  unfold setattr
  rw [pathOf_eq_ok hi]
  dsimp only
  split
  · exact ⟨⟨_, rfl⟩, rfl⟩
  · cases changes.size with
    | none => exact refused_getattr hm hi hnone
    | some length =>
      have hcut : m.Refused (m.call (Filesystem.truncate p length)) := by
        apply refused_call (Filesystem.outcome_truncate (s := ⟨m.base, []⟩))
        rintro u t ⟨content, hc, -⟩
        cases hnone.symm.trans hc
      dsimp only
      generalize m.call (Filesystem.truncate p length) = x at hcut ⊢
      obtain ⟨x, m'⟩ := x
      obtain ⟨⟨e, rfl⟩, ht⟩ := hcut
      exact ⟨⟨e, rfl⟩, ht⟩

theorem refused_of_missing (hm : m.Sound) (hi : m.inodes.path? i = some p)
    (hnone : m.base.device.tree.get? p = none)
    (hc : c.subject? = some i) : m.Refused (m.answer caller c) := by
  have hfile : ∀ content, m.base.device.tree.get? p ≠ some (.file content) := by
    intro content hfile
    cases hnone.symm.trans hfile
  cases c with
  | getattr ino =>
    obtain rfl : ino = i := Option.some_inj.1 hc
    exact (refused_getattr hm hi hnone).reply _
  | setattr ino changes =>
    obtain rfl : ino = i := Option.some_inj.1 hc
    exact (refused_setattr hm hi hnone).reply _
  | read ino max offset =>
    obtain rfl : ino = i := Option.some_inj.1 hc
    exact (refused_read hi hfile).reply _
  | write ino data offset =>
    obtain rfl : ino = i := Option.some_inj.1 hc
    exact (refused_write hi hfile).reply _
  | _ => cases hc

theorem positionOf_eq_ok (hi : m.inodes.path? i = some p) (offset : UInt64) :
    m.positionOf i offset.toNat = .ok (p, offset) := by
  have hoffset : offsetOf offset.toNat = .ok offset := by simp [offsetOf]
  rw [positionOf, pathOf_eq_ok hi, hoffset]
  rfl

theorem written_of_count {data : Bytes} {offset : UInt64} {n : Nat} (hi : m.inodes.path? i = some p)
    (hn : (m.answer caller (.write i data offset.toNat)).1 = .ok (.count n)) :
    ∃ content, m.base.device.tree.get? p = some (.file content) ∧
      (m.answer caller (.write i data offset.toNat)).2.base.device.tree =
        m.base.device.tree.insert p (.file (content.overwrite offset.toNat data)) := by
  have hgranted : ∀ k, ((Filesystem.write p data offset).run m.base).1 = .ok k →
      ∃ content, m.base.device.tree.get? p = some (.file content) ∧
        ((Filesystem.write p data offset).run m.base).2.device.tree =
          m.base.device.tree.insert p (.file (content.overwrite offset.toNat data)) :=
    fun k hk ↦ ((Outcome.run (Filesystem.outcome_write (s := ⟨m.base, []⟩))).1 k hk).2
  rw [answer, write, positionOf_eq_ok hi] at hn ⊢
  dsimp only at hn ⊢
  rw [call_eq] at hn ⊢
  generalize (Filesystem.write p data offset).run m.base = x at hgranted hn ⊢
  obtain ⟨x, b⟩ := x
  cases x with
  | error e => cases hn
  | ok k =>
    obtain ⟨content, hfile, htree⟩ := hgranted k rfl
    refine ⟨content, hfile, ?_⟩
    dsimp only
    split <;> exact htree

def Changes.cut (length : UInt64) : Changes := ⟨none, none, none, some length⟩

theorem cut_of_setattr {length : UInt64} {r : Reply} (hi : m.inodes.path? i = some p)
    (hr : (m.answer caller (.setattr i (.cut length))).1 = .ok r) :
    ∃ content, m.base.device.tree.get? p = some (.file content) ∧
      (m.answer caller (.setattr i (.cut length))).2.base.device.tree =
        m.base.device.tree.insert p (.file (content.resize length.toNat)) := by
  have hgranted : ∀ u, ((Filesystem.truncate p length).run m.base).1 = .ok u →
      ∃ content, m.base.device.tree.get? p = some (.file content) ∧
        ((Filesystem.truncate p length).run m.base).2.device.tree =
          m.base.device.tree.insert p (.file (content.resize length.toNat)) :=
    fun u hu ↦ (Outcome.run (Filesystem.outcome_truncate (s := ⟨m.base, []⟩))).1 u hu
  rw [answer, reply, setattr, pathOf_eq_ok hi] at hr ⊢
  simp only [Changes.cut, Option.isSome_none, Bool.or_false, Bool.false_eq_true, if_false,
    call_eq] at hr ⊢
  generalize (Filesystem.truncate p length).run m.base = x at hgranted hr ⊢
  obtain ⟨x, b⟩ := x
  cases x with
  | error e => cases hr
  | ok u =>
    obtain ⟨content, hfile, htree⟩ := hgranted u rfl
    exact ⟨content, hfile, (tree_getattr (m := { m with base := b }) hi).trans htree⟩

section Present

variable {node : Node} (hi : m.inodes.path? i = some p)
    (hf : ∀ op, m.base.device.faults.get? op = none)

include hi hf

theorem attributes_of_present (hm : m.Sound) (hn : m.base.device.tree.get? p = some node) :
    ∃ a, (m.answer caller (.getattr i)).1 = .ok (.attributes a) ∧ a.ino = i ∧
    a.kind = node.kind := by
  obtain ⟨a, ha, hkind⟩ : ∃ a, ((Filesystem.getattr m.config.policy caller p).run m.base).1 =
      .ok a ∧
      a.kind = node.kind := Filesystem.exists_getattr_of_node hm.base (hf _) hn
  refine ⟨.ofAttributes i a, ?_, rfl, hkind⟩
  rw [answer, getattr, pathOf_eq_ok hi]
  dsimp only
  rw [call_eq]
  generalize (Filesystem.getattr m.config.policy caller p).run m.base = x at ha ⊢
  obtain ⟨x, b⟩ := x
  obtain rfl : x = .ok a := ha
  rfl

theorem data_of_present {content : Content} (hn : m.base.device.tree.get? p = some (.file content))
    (max : Nat) (offset : UInt64) :
    (m.answer caller (.read i max offset.toNat)).1 =
      .ok (.data (content.slice offset.toNat max)) := by
  have hread : ((Filesystem.read p max offset).run m.base).1 =
      .ok (content.slice offset.toNat max) :=
    FileContents.run_read_of_file hf hn
  rw [answer, read, positionOf_eq_ok hi]
  dsimp only
  rw [call_eq, reply, hread]
  rfl

end Present

/-- The number of a file that is gone, and the path it went from: whatever is asked of the
number is refused if nothing stands there, and is otherwise asked of what stands there, which is
not the file of the number. -/
structure DeadAt (m : Mount Device) (i : Nat) (p : RemotePath) : Prop where
  path : m.inodes.path? i = some p
  unmapped : ∀ q, m.inodes.inode? q ≠ some i
  refused : m.base.device.tree.get? p = none → ∀ caller c, c.subject? = some i →
    m.Refused (m.answer caller c)
  described : (∀ op, m.base.device.faults.get? op = none) →
    ∀ node, m.base.device.tree.get? p = some node →
    ∀ caller, ∃ a, (m.answer caller (.getattr i)).1 = .ok (.attributes a) ∧ a.ino = i ∧
      a.kind = node.kind
  data : (∀ op, m.base.device.faults.get? op = none) →
    ∀ content, m.base.device.tree.get? p = some (.file content) →
    ∀ caller max (offset : UInt64),
      (m.answer caller (.read i max offset.toNat)).1 = .ok (.data (content.slice offset.toNat max))
  written : ∀ caller data (offset : UInt64) n,
    (m.answer caller (.write i data offset.toNat)).1 = .ok (.count n) →
    ∃ content, m.base.device.tree.get? p = some (.file content) ∧
      (m.answer caller (.write i data offset.toNat)).2.base.device.tree =
        m.base.device.tree.insert p (.file (content.overwrite offset.toNat data))
  cut : ∀ caller length r, (m.answer caller (.setattr i (.cut length))).1 = .ok r →
    ∃ content, m.base.device.tree.get? p = some (.file content) ∧
      (m.answer caller (.setattr i (.cut length))).2.base.device.tree =
        m.base.device.tree.insert p (.file (content.resize length.toNat))

/-- A number that a lookup, a `mkdir` or a `create` gave for a path, of which the kernel still
holds a lookup, and whose file was removed or replaced: whatever happened before and since, what
is asked of it fails if nothing stands at the path where its file was last, and is asked of what
stands there if something does. -/
theorem dead_inode_reaches_path (d : Device) (config : Config) (before mid after : List Event)
    (caller : Caller)
    (c : Callback) (e : Event) {p last : RemotePath} {r : Reply} {a : FileAttributes}
    (ht : d.tree.WellFormed) (hp : given? ((start d config).run before) c = some p)
    (hr : (((start d config).run before).answer caller c).1 = .ok r) (ha : r.child? = some a)
    (hlast : (((start d config).run before).next (.callback caller c)).follow p mid = some last)
    (hgone : ((((start d config).run before).next (.callback caller c)).run mid).relocated last e =
      none)
    (hheld : 0 < holds a.ino (start d config) 0
      (before ++ .callback caller c :: (mid ++ e :: after))) :
    DeadAt ((start d config).run (before ++ .callback caller c :: (mid ++ e :: after))) a.ino
      last := by
  have hrun : (start d config).run (before ++ .callback caller c :: (mid ++ e :: after)) =
      (((((start d config).run before).next (.callback caller c)).run mid).next e).run after := by
    simp only [run, List.foldl_append, List.foldl_cons]
  have hsound := sound_start config ht
  have hbefore := sound_run hsound before
  have hgiven : (((start d config).run before).next (.callback caller c)).Follows a.ino a.kind p :=
    (answered _ caller c).follows_of_child hbefore hp hr ha
  have hcallback := sound_next hbefore (.callback caller c)
  have hmid := sound_run hcallback mid
  have hfollows := follows_run hcallback hgiven mid hlast
  have hdetached := detached_run (sound_next hmid e)
    (detached_of_relocated hmid hfollows.tracks hgone) after
  have hfinal := sound_run hsound (before ++ .callback caller c :: (mid ++ e :: after))
  have hcount := holds_le_run hsound (before ++ .callback caller c :: (mid ++ e :: after))
    (Nat.zero_le (InodeTable.held _ a.ino))
  rw [← hrun] at hdetached
  generalize (start d config).run (before ++ .callback caller c :: (mid ++ e :: after)) =
    m at hdetached hfinal hcount
  have hpath : m.inodes.path? a.ino = some last := by
    refine hdetached.path.resolve_left fun hnone ↦ ?_
    -- A number that was given up counts no lookups, but the kernel holds some.
    have hzero : m.inodes.held a.ino = 0 := by
      rw [InodeTable.held, InodeTable.lookups?_eq_none_iff.2 hnone]
      rfl
    omega
  exact {
    path := hpath
    unmapped := hdetached.unmapped
    refused := fun hnone caller c hc ↦ refused_of_missing hfinal hpath hnone hc
    described := fun hf node hn caller ↦ attributes_of_present hpath hf hfinal hn
    data := fun hf content hn caller max offset ↦ data_of_present hpath hf hn max offset
    written := fun caller data offset n hn ↦ written_of_count hpath hn
    cut := fun caller length r hr ↦ cut_of_setattr hpath hr }

section Examples

open Turns (pilot)

theorem isSegment_note : IsSegment "note" := by decide

def notePath : RemotePath := RemotePath.root.child ⟨"note", isSegment_note⟩

def bareDevice : Device := Device.empty Device.defaultCapacity

def makeNote : Callback := .create 1 (.text "note") 1

def removeNote : Event := .callback pilot (.unlink 1 (.text "note"))

def anotherNote : List Event := [.callback pilot makeNote, .callback pilot (.write 3 [1, 2] 0)]

def firstNote : FileAttributes :=
  .ofAttributes 2 (.ofEntry notePath (.file "note" 0) .standard pilot)

theorem dead_inode_reaches_path_anotherNote :
    (((start bareDevice .standard).run
      (.callback pilot makeNote :: removeNote :: anotherNote)).answer pilot
      (.read 2 16 0)).1 = .ok (.data [1, 2]) := by
  have hdead := @dead_inode_reaches_path bareDevice .standard []
    [] anotherNote pilot makeNote removeNote notePath
    notePath (.created firstNote) firstNote (by decide +kernel) (by decide +kernel)
      (by decide +kernel) rfl
    (by decide +kernel) (by decide +kernel) (by decide +kernel)
  obtain ⟨content, hcontent, hbytes⟩ : ∃ content, ((start bareDevice .standard).run
      (.callback pilot makeNote :: removeNote :: anotherNote)).base.device.tree.get? notePath =
        some (.file content) ∧
        content.slice 0 16 = [1, 2] :=
          ⟨Content.empty.overwrite 0 [1, 2], by decide +kernel, by decide +kernel⟩
  have hfaults : ((start bareDevice .standard).run
      (.callback pilot makeNote :: removeNote :: anotherNote)).base.device.faults = .empty := by
    decide +kernel
  rw [← hbytes]
  refine hdead.data (fun op ↦ ?_) content hcontent pilot 16 0
  exact (congrArg (·.get? op) hfaults).trans rfl

/-- What is asked of the number of a file that is gone may reach another file. -/
theorem dead_inode_reaches_other :
    ¬∀ (d : Device) (config : Config) (before mid after : List Event) (caller : Caller)
    (c : Callback) (e : Event) (p last : RemotePath) (r : Reply) (a : FileAttributes),
      d.tree.WellFormed →
    given? ((start d config).run before) c = some p →
    (((start d config).run before).answer caller c).1 = .ok r → r.child? = some a →
    (((start d config).run before).next (.callback caller c)).follow p mid = some last →
    ((((start d config).run before).next (.callback caller c)).run mid).relocated last e = none →
    0 < holds a.ino (start d config) 0 (before ++ .callback caller c :: (mid ++ e :: after)) →
    ∀ caller' c', c'.subject? = some a.ino →
      Refused ((start d config).run (before ++ .callback caller c :: (mid ++ e :: after)))
        (((start d config).run (before ++ .callback caller c :: (mid ++ e :: after))).answer
          caller' c') := by
  intro h
  obtain ⟨⟨e, he⟩, -⟩ := h bareDevice .standard []
    [] anotherNote pilot makeNote removeNote notePath notePath
    (.created firstNote) firstNote (by decide +kernel) (by decide +kernel) (by decide +kernel) rfl
      (by decide +kernel)
    (by decide +kernel) (by decide +kernel) pilot (.read 2 16 0) rfl
  have hread : (((start bareDevice .standard).run
      (.callback pilot makeNote :: removeNote :: anotherNote)).answer pilot
      (.read 2 16 0)).1 = .ok (.data [1, 2]) := by decide +kernel
  cases he.symm.trans hread

end Examples

end Mount

end RemoteMount
