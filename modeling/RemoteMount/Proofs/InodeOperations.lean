import RemoteMount.Proofs.InodeRenames

namespace RemoteMount

def InodeOp.gives? (t : InodeTable) : InodeOp → Option Nat
  | .lookup path => some (t.lookup path).1
  | .peek path => some (t.peek path).1
  | _ => none

namespace InodeTable

def after (t : InodeTable) (ops : List InodeOp) : InodeTable :=
  ops.foldl (fun t op ↦ (op.run t).2) t

def handedOut : InodeTable → List InodeOp → List Nat
  | _, [] => []
  | t, op :: ops => (op.gives? t).toList ++ handedOut (op.run t).2 ops

/-- What becomes of a table by one operation or by many. -/
structure Grows (t t' : InodeTable) : Prop where
  sound : t'.Sound
  next_le : t.next ≤ t'.next
  root : t.path? rootInode ≠ none → t'.path? rootInode ≠ none
  gone : ∀ i, i < t.next → t.path? i = none → t'.path? i = none

variable {t t' t'' : InodeTable} {p old new : RemotePath} {i n extra : Nat} {x : Nat × InodeTable}

theorem Grows.refl (h : t.Sound) : t.Grows t := ⟨h, Nat.le_refl _, id, fun _ _ h ↦ h⟩

theorem Grows.trans (h : t.Grows t') (h' : t'.Grows t'') : t.Grows t'' :=
  ⟨h'.sound, Nat.le_trans h.next_le h'.next_le, fun hr ↦ h'.root (h.root hr),
    fun i hi hn ↦ h'.gone i (Nat.lt_of_lt_of_le hi h.next_le) (h.gone i hi hn)⟩

theorem grows_of_path?_eq (h : t.Sound) (hindex : ∀ q j, t'.inode? q = some j → t.inode? q = some j)
    (hpath : ∀ j, t'.path? j = t.path? j) (hnext : t'.next = t.next) : t.Grows t' := by
  refine ⟨⟨fun q j hq ↦ ?_, fun j q hj ↦ ?_⟩, hnext.ge, fun hr ↦ ?_, fun j _ hj ↦ ?_⟩
  · rw [hpath, h.path_of_inode q j (hindex q j hq)]
  · rw [hpath] at hj
    rw [hnext]
    exact h.lt_next j q hj
  · rwa [hpath]
  · rw [hpath, hj]

theorem Numbers.grows (h : t.Numbers p extra x) (ht : t.Sound) : t.Grows x.2 := by
  refine ⟨h.sound ht, h.next_le, fun hr ↦ ?_, fun i hi hn ↦ ?_⟩
  · rw [h.path]
    split
    · exact nofun
    · exact hr
  · have hne := h.ne_of_path? ht hi (by rw [hn]; exact nofun)
    rw [h.path, if_neg hne, hn]

theorem grows_forget (h : t.Sound) : t.Grows (t.forget i n).2 := by
  refine ⟨h.forget, next_forget.ge, fun hr ↦ ?_, fun j _ hj ↦ ?_⟩
  · have hkept : ¬((t.forget i n).1 = true ∧ rootInode = i) := by
      rintro ⟨he, rfl⟩
      rw [forget, if_pos rfl] at he
      cases he
    rwa [path?_forget, if_neg hkept]
  · rw [path?_forget, hj, ite_self]

theorem grows_rename (h : t.Sound) : t.Grows (t.rename old new) :=
  ⟨h.rename, next_rename.ge, mt path?_rename_eq_none_iff.1,
    fun _ _ hn ↦ path?_rename_eq_none_iff.2 hn⟩

theorem grows_run (h : t.Sound) (op : InodeOp) : t.Grows (op.run t).2 := by
  cases op with
  | lookup path => exact (lookup_numbers h path).grows h
  | peek path => exact (peek_numbers h path).grows h
  | pathOf ino | lookupsOf ino | inodeOf path => exact .refl h
  | forget ino n => exact grows_forget h
  | rename old new => exact grows_rename h
  | invalidate path =>
    refine grows_of_path?_eq h (fun q j hq ↦ ?_) (fun _ ↦ rfl) rfl
    change (t.invalidate path).inode? q = some j at hq
    rw [inode?_invalidate] at hq
    split at hq
    · cases hq
    · exact hq
  | increment ino => exact grows_of_path?_eq h (fun _ _ hq ↦ hq) (fun _ ↦ path?_increment) rfl
  | decrement ino n =>
    rw [InodeOp.run]
    split
    · rename_i t' ht'
      obtain ⟨hindex, hnext⟩ := index_of_decrement ht'
      refine grows_of_path?_eq h (fun q j hq ↦ ?_) (path?_of_decrement ht') hnext
      rwa [inode?, hindex] at hq
    · exact .refl h

theorem grows_after (h : t.Sound) (ops : List InodeOp) : t.Grows (t.after ops) := by
  induction ops generalizing t with
  | nil => exact .refl h
  | cons op ops ih =>
    have hstep := grows_run h op
    exact hstep.trans (ih hstep.sound)

theorem lt_next_of_gives? (h : t.Sound) {op : InodeOp} (hi : op.gives? t = some i) :
    i < (op.run t).2.next := by
  cases op with
  | lookup path =>
    obtain rfl := Option.some_inj.1 hi
    exact (lookup_numbers h path).lt_next
  | peek path =>
    obtain rfl := Option.some_inj.1 hi
    exact (peek_numbers h path).lt_next
  | _ => cases hi

theorem lt_next_of_handedOut (h : t.Sound) {ops : List InodeOp} (hi : i ∈ t.handedOut ops) :
    i < (t.after ops).next := by
  induction ops generalizing t with
  | nil => cases hi
  | cons op ops ih =>
    have hsound := (grows_run h op).sound
    rcases List.mem_append.1 hi with hi | hi
    · exact Nat.lt_of_lt_of_le (lt_next_of_gives? h (Option.mem_toList.1 hi))
        (grows_after hsound ops).next_le
    · exact ih hsound hi

/-- A path is given the number that it has, or one above all numbers below the next. -/
theorem Numbers.known_or_fresh (h : t.Numbers p extra x) :
    t.inode? p = some x.1 ∨ ∀ i, i < t.next → i < x.1 := by
  rw [h.number]
  cases hp : t.inode? p with
  | none => exact .inr fun _ hi ↦ hi
  | some i => exact .inl rfl

/-- Whatever was done to a table: a path that is mapped to a number is the path of that number,
so no two paths share one; the root is still there; a path that is not mapped is given a number
above all that were ever given out; and a number that was given out and evicted never stands for
a path again. -/
theorem operations_keep_numbering (ops : List InodeOp) :
    (∀ p i, (initial.after ops).inode? p = some i → (initial.after ops).path? i = some p) ∧
    (∀ p q i, (initial.after ops).inode? p = some i →
      (initial.after ops).inode? q = some i → p = q) ∧
    (initial.after ops).path? rootInode ≠ none ∧
    (∀ p, ∀ x ∈ [(initial.after ops).lookup p, (initial.after ops).peek p],
      (initial.after ops).inode? p = some x.1 ∨ ∀ i ∈ rootInode :: initial.handedOut ops, i < x.1) ∧
    ∀ i ∈ initial.handedOut ops, (initial.after ops).path? i = none → ∀ later,
      ((initial.after ops).after later).path? i = none ∧ ∀ p,
        ((initial.after ops).after later).inode? p ≠ some i := by
  have hgrown := grows_after sound_initial ops
  have hlt : ∀ i ∈ rootInode :: initial.handedOut ops, i < (initial.after ops).next := by
    intro i hi
    rcases List.mem_cons.1 hi with rfl | hi
    · exact Nat.lt_of_lt_of_le (Nat.lt_succ_self _) hgrown.next_le
    · exact lt_next_of_handedOut sound_initial hi
  refine ⟨hgrown.sound.path_of_inode, fun p q i hp hq ↦ hgrown.sound.inode_injective hp hq,
    hgrown.root nofun, ?_, ?_⟩
  · intro p x hx
    have hnumbers : ∃ extra, (initial.after ops).Numbers p extra x := by
      rcases List.mem_pair.1 hx with rfl | rfl
      · exact ⟨1, lookup_numbers hgrown.sound p⟩
      · exact ⟨0, peek_numbers hgrown.sound p⟩
    obtain ⟨extra, hx⟩ := hnumbers
    exact hx.known_or_fresh.imp_right fun hfresh i hi ↦ hfresh i (hlt i hi)
  · intro i hi hn later
    have hlater := grows_after hgrown.sound later
    have hgone := hlater.gone i (hlt i (List.mem_cons_of_mem _ hi)) hn
    refine ⟨hgone, fun p hp ↦ ?_⟩
    rw [hlater.sound.path_of_inode p i hp] at hgone
    cases hgone

section Examples

def logs : RemotePath := RemotePath.root.child ⟨"logs", by decide⟩

def forgottenLogs : List InodeOp := [.lookup logs, .peek logs, .forget 2 1]

example : initial.handedOut (forgottenLogs ++ [.lookup logs]) = [2, 2, 3] := by decide +kernel

theorem operations_keep_numbering_forgottenLogs :
    2 ∈ initial.handedOut forgottenLogs ∧ (initial.after forgottenLogs).path? 2 = none ∧
    (initial.after forgottenLogs).inode? .root = some 1 ∧
    (initial.after forgottenLogs).path? 1 = some .root ∧
    2 < ((initial.after forgottenLogs).lookup logs).1 ∧
    ∀ later p, ((initial.after forgottenLogs).after later).inode? p ≠ some 2 := by
  obtain ⟨hmapped, -, -, hfresh, hgone⟩ := operations_keep_numbering forgottenLogs
  have hgiven : 2 ∈ initial.handedOut forgottenLogs := by decide +kernel
  have hevicted : (initial.after forgottenLogs).path? 2 = none := by decide +kernel
  have hroot : (initial.after forgottenLogs).inode? .root = some 1 := by decide +kernel
  have hunmapped : (initial.after forgottenLogs).inode? logs = none := by decide +kernel
  refine ⟨hgiven, hevicted, hroot, hmapped .root 1 hroot, ?_,
    fun later p ↦ (hgone 2 hgiven hevicted later).2 p⟩
  rcases hfresh logs _ (List.mem_cons_self ..) with hknown | hnew
  · rw [hunmapped] at hknown
    cases hknown
  · exact hnew 2 (List.mem_cons_of_mem _ hgiven)

end Examples

end InodeTable

end RemoteMount
