import Mathlib.Algebra.BigOperators.Group.List.Basic
import Mathlib.Algebra.GroupWithZero.Nat
import RemoteMount.Proofs.Memory.Walk

namespace RemoteMount.Memory

section Sums

variable {sum total : UInt64} {n m : Nat}

theorem addLength_of_lt (h : sum.toNat + n < UInt64.size) :
    addLength sum n = .ok (sum + n.toUInt64) := if_pos h

theorem addLength_of_le (h : UInt64.size ≤ sum.toNat + n) : addLength sum n = .error .overflow :=
  if_neg (Nat.not_lt.2 h)

theorem addLength_eq_ok_iff : addLength sum n = .ok total ↔ total.toNat = sum.toNat + n := by
  unfold addLength
  split
  · rename_i h
    rw [Except.ok.injEq, ← UInt64.toNat_inj, toNat_add_of_lt h]
    exact eq_comm
  · rename_i h
    have ht := total.toNat_lt_size
    simp
    omega

theorem addLength_eq_error_iff {e : RemoteError} :
    addLength sum n = .error e ↔ e = .overflow ∧ UInt64.size ≤ sum.toNat + n := by
  unfold addLength
  split <;> simp [eq_comm] <;> omega

theorem addLength_zero (sum : UInt64) : addLength sum 0 = .ok sum := addLength_eq_ok_iff.2 rfl

theorem addLength_add (sum : UInt64) (n m : Nat) :
    (addLength sum n >>= fun next ↦ addLength next m) = addLength sum (n + m) := by
  by_cases h : sum.toNat + n < UInt64.size
  · rw [addLength_of_lt h]
    change addLength _ m = _
    unfold addLength
    rw [toNat_add_of_lt h, Nat.add_assoc]
    split
    · rename_i hm
      rw [Except.ok.injEq, ← UInt64.toNat_inj, toNat_add_of_lt hm, toNat_add_of_lt,
        toNat_add_of_lt h, Nat.add_assoc]
      rwa [toNat_add_of_lt h, Nat.add_assoc]
    · rfl
  · rw [addLength_of_le (by omega), addLength_of_le (by omega)]
    rfl

/-- What is added up before a file of `current` bytes may come to have `length`, with so many
bytes in other files. -/
def summed (beside current length : Nat) : Nat :=
  if current < length then beside + length else beside

end Sums

namespace Tree

variable {t : Tree} {p q old new : RemotePath} {node : Node} {content : Content}
    {capacity length : UInt64}

def stored (t : Tree) : Nat := (t.toList.map fun e ↦ e.2.length).sum

def storedAt (t : Tree) (p : RemotePath) : Nat := ((t.get? p).map Node.length).getD 0

theorem storedAt_of_get? (h : t.get? p = some node) : t.storedAt p = node.length := by
  simp [storedAt, h]

theorem sum_filter_add_find? {l : List (RemotePath × Node)} (h : (l.map Prod.fst).Nodup)
    (p : RemotePath) :
    ((l.filter (·.1 ≠ p)).map fun e ↦ e.2.length).sum +
      (((l.find? (·.1 = p)).map Prod.snd).map Node.length).getD 0 =
        (l.map fun e ↦ e.2.length).sum := by
  induction l with
  | nil => simp
  | cons e l ih =>
    obtain ⟨he, hl⟩ := List.nodup_cons.1 h
    by_cases hp : e.1 = p
    · -- The keys differ, so nothing else is left out.
      have hothers : ∀ e' ∈ l, e'.1 ≠ p := by
        intro e' he' hp'
        exact he (List.mem_map.2 ⟨e', he', hp'.trans hp.symm⟩)
      have hrest : l.filter (·.1 ≠ p) = l := List.filter_eq_self.2 (by simpa using hothers)
      rw [List.filter_cons_of_neg (by simpa using hp), hrest,
        List.find?_cons_of_pos (by simpa using hp)]
      simp [Nat.add_comm]
    · rw [List.filter_cons_of_pos (by simpa using hp), List.find?_cons_of_neg (by simpa using hp)]
      simp only [List.map_cons, List.sum_cons, Nat.add_assoc, ih hl]

theorem stored_erase (t : Tree) (p : RemotePath) : stored (t.erase p) + t.storedAt p = t.stored :=
  sum_filter_add_find? t.nodup p

theorem stored_insert (t : Tree) (p : RemotePath) (node : Node) :
    stored (t.insert p node) = stored (t.erase p) + node.length := by
  have h := stored_erase (t.insert p node) p
  have hnode : KeyMap.get? (t.insert p node) p = some node := by simp [KeyMap.get?_insert]
  rw [KeyMap.erase_insert, storedAt_of_get? hnode] at h
  exact h.symm

theorem stored_erase_le (t : Tree) (p : RemotePath) : stored (t.erase p) ≤ t.stored := by
  have h := t.stored_erase p
  omega

theorem stored_moveNode_le (old new : RemotePath) (t : Tree) (p : RemotePath) :
    (moveNode old new t p).stored ≤ t.stored := by
  unfold moveNode
  split
  · rename_i node target hp _
    have herased := t.stored_erase p
    have hplace := stored_erase_le (t.erase p) target
    rw [storedAt_of_get? hp] at herased
    rw [stored_insert]
    omega
  · exact le_rfl

theorem stored_moveSubtree_le (t : Tree) (old new : RemotePath) :
    (t.moveSubtree old new).stored ≤ t.stored :=
  List.foldlRecOn _ (moveNode old new) (stored_erase_le t new) fun t' h p _ ↦
    (stored_moveNode_le old new t' p).trans h

/-- Adding lengths up finds their sum, if a word holds it. -/
theorem foldlM_word_eq {α : Type} {f : UInt64 → α → Except RemoteError UInt64} {g : α → Nat}
    (hf : ∀ used a, f used a = addLength used (g a)) (l : List α) (used : UInt64) :
    l.foldlM f used = addLength used (l.map g).sum := by
  induction l generalizing used with
  | nil => exact (addLength_zero used).symm
  | cons a l ih =>
    rw [List.foldlM_cons, hf, List.map_cons, List.sum_cons, ← addLength_add]
    cases addLength used (g a) with
    | error e => rfl
    | ok next => exact ih next

theorem sum_beside (t : Tree) (p : RemotePath) :
    (t.toList.map fun e ↦ if e.1 = p then 0 else e.2.length).sum = stored (t.erase p) := by
  rw [List.sum_map_ite]
  simp [stored, KeyMap.erase, KeyMap.filter]

theorem usedBeside_eq (t : Tree) (p : RemotePath) :
    t.usedBeside p = addLength 0 (stored (t.erase p)) := by
  rw [← sum_beside]
  refine foldlM_word_eq (g := fun e : RemotePath × Node ↦ if e.1 = p then 0 else e.2.length) ?_ _ _
  intro used e
  cases hnode : e.2 with
  | directory => simp [Node.length, addLength_zero]
  | file content => by_cases hp : e.1 = p <;> simp [hp, Node.length, addLength_zero]

theorem toNat_lengthAt (t : Tree) (p : RemotePath) :
    (t.lengthAt p).toNat = t.storedAt p % UInt64.size := by
  unfold lengthAt storedAt
  split
  · rename_i content h
    simp [h, Node.length]
  · rename_i h
    cases hg : t.get? p with
    | none => simp
    | some node => cases node with
      | directory => simp [Node.length]
      | file content => exact absurd hg (h content)

theorem requireRoom_eq_sum (capacity length : UInt64) :
    t.requireRoom capacity p length =
      if capacity < length then .error (.reported Errno.fbig "file too large")
      else addLength 0 (summed (stored (t.erase p)) (t.lengthAt p).toNat length.toNat) >>=
        fun total ↦
        if t.lengthAt p < length ∧ capacity < total then
          .error (.reported Errno.nospc "no space left on device")
        else .ok () := by
  unfold requireRoom summed
  rw [usedBeside_eq]
  split
  · rfl
  · by_cases hl : t.lengthAt p < length
    · simp only [hl, UInt64.lt_iff_toNat_lt.1 hl, if_true, true_and, ← addLength_add, bind_assoc]
    · simp only [hl, mt UInt64.lt_iff_toNat_lt.2 hl, if_false, false_and]

theorem requireRoom_eq_error {e : RemoteError} (h : t.requireRoom capacity p length = .error e) :
    e ∈ [.reported Errno.fbig "file too large", .overflow,
      .reported Errno.nospc "no space left on device"] := by
  rw [requireRoom_eq_sum] at h
  split at h
  · cases h
    decide
  · cases hsum : addLength 0 (summed (stored (t.erase p)) (t.lengthAt p).toNat length.toNat) with
    | error e' =>
      obtain ⟨rfl, -⟩ := addLength_eq_error_iff.1 hsum
      rw [hsum] at h
      cases h
      decide
    | ok total =>
      rw [hsum] at h
      change (if _ then _ else _) = _ at h
      split at h <;> cases h
      decide

theorem requireRoom_eq (capacity length : UInt64) (h : t.storedAt p < UInt64.size) :
    t.requireRoom capacity p length =
      if capacity.toNat < length.toNat then .error (.reported Errno.fbig "file too large")
      else if UInt64.size ≤ summed (stored (t.erase p)) (t.storedAt p) length.toNat then
        .error .overflow
      else if t.storedAt p < length.toNat ∧ capacity.toNat < stored (t.erase p) + length.toNat then
        .error (.reported Errno.nospc "no space left on device")
      else .ok () := by
  have hlength : (t.lengthAt p).toNat = t.storedAt p := by rw [toNat_lengthAt, Nat.mod_eq_of_lt h]
  rw [requireRoom_eq_sum]
  simp only [UInt64.lt_iff_toNat_lt, hlength]
  split
  · rfl
  · cases hsum : addLength 0 (summed (stored (t.erase p)) (t.storedAt p) length.toNat) with
    | error e =>
      obtain ⟨rfl, hlarge⟩ := addLength_eq_error_iff.1 hsum
      rw [UInt64.toNat_zero, Nat.zero_add] at hlarge
      rw [if_pos hlarge]
      rfl
    | ok total =>
      have htotal := addLength_eq_ok_iff.1 hsum
      have hlt := total.toNat_lt_size
      rw [UInt64.toNat_zero, Nat.zero_add] at htotal
      rw [if_neg (by omega)]
      change (if _ ∧ _ then _ else _) = _
      refine if_congr (and_congr_right fun hl ↦ ?_) rfl rfl
      rw [htotal, summed, if_pos hl]

/-- Where no sum is too large for a word, a length for which there is room keeps the total
within the capacity, or where it was before. -/
theorem stored_le_of_room (h : t.requireRoom capacity p length = .ok ())
    (hfit : capacity.toNat + t.stored < UInt64.size) :
    stored (t.erase p) + length.toNat ≤ max capacity.toNat t.stored := by
  have herased := t.stored_erase p
  rw [requireRoom_eq capacity length (by omega)] at h
  split_ifs at h
  omega

theorem stored_insert_file_le {new : Content} (hp : t.get? p = some (.file content))
    (hroom : t.requireRoom capacity p length = .ok ())
    (hn : new.size ≤ max content.size length.toNat)
    (hfit : capacity.toNat + t.stored < UInt64.size) :
    stored (t.insert p (.file new)) ≤ max capacity.toNat t.stored := by
  have hbound := stored_le_of_room hroom hfit
  have herased := t.stored_erase p
  rw [storedAt_of_get? hp] at herased
  rw [stored_insert]
  simp only [Node.length] at herased ⊢
  omega

end Tree

namespace Device

variable {d : Device} {r : Request} {t : Tree}

theorem Effect.stored_le (h : d.Effect r t) (hr : r.stores? = none) : t.stored ≤ d.tree.stored := by
  cases h with
  | unchanged => exact le_rfl
  | @emptied path =>
    rw [Tree.stored_insert]
    exact Tree.stored_erase_le d.tree path
  | stored hs =>
    rw [hr] at hs
    cases hs
  | @made path =>
    rw [Tree.stored_insert]
    exact Tree.stored_erase_le d.tree path
  | removedDirectory => exact Tree.stored_erase_le d.tree _
  | removedFile => exact Tree.stored_erase_le d.tree _
  | moved => exact Tree.stored_moveSubtree_le d.tree _ _

theorem stored_perform_le (h : d.capacity.toNat + d.tree.stored < UInt64.size) (r : Request) :
    (d.perform r).2.tree.stored ≤ max d.capacity.toNat d.tree.stored := by
  have hquiet : ∀ r : Request, r.stores? = none →
      (d.perform r).2.tree.stored ≤ max d.capacity.toNat d.tree.stored := by
    intro r hr
    exact ((perform_effect d r).stored_le hr).trans (le_max_right _ _)
  cases r with
  | write id data =>
    simp only [perform]
    split
    · exact le_max_right _ _
    · rename_i count s' t hw
      obtain ⟨s, -, hw⟩ := exists_of_bind_eq_ok hw
      obtain ⟨old, ho, hlt, hroom, -, -, rfl⟩ := Session.write_eq_ok hw
      refine Tree.stored_insert_file_le ho hroom ?_ h
      rw [Content.size_overwrite, toNat_add_of_lt hlt]
  | truncate id length =>
    simp only [perform]
    cases ht : d.session id >>= (·.truncate d.tree d.capacity length) with
    | error e => exact le_max_right _ _
    | ok t =>
      obtain ⟨s, -, ht⟩ := exists_of_bind_eq_ok ht
      obtain ⟨old, ho, hroom, rfl⟩ := Session.truncate_eq_ok ht
      refine Tree.stored_insert_file_le ho hroom ?_ h
      rw [Content.size_resize]
      exact le_max_right _ _
  | _ => exact hquiet _ rfl

theorem stored_answer_le (h : d.capacity.toNat + d.tree.stored < UInt64.size) (r : Request) :
    (d.answer r).2.tree.stored ≤ max d.capacity.toNat d.tree.stored := by
  cases hf : d.faults.get? r.op with
  | some e =>
    rw [answer_of_fault hf, tree_enter, tree_release]
    exact le_max_right _ _
  | none =>
    rw [answer_of_no_fault hf]
    have hentered := stored_perform_le (d := ((d.release r).enter r.op).2) (by simpa using h) r
    simpa using hentered

theorem capacity_answer (d : Device) (r : Request) : (d.answer r).2.capacity = d.capacity := by
  cases hf : d.faults.get? r.op with
  | some e =>
    rw [answer_of_fault hf]
    simp
  | none =>
    obtain ⟨t, sessions, next, -, hperform⟩ := exists_perform ((d.release r).enter r.op).2 r
    rw [answer_of_no_fault hf, hperform]
    simp

theorem run_concat (d : Device) (events : List Event) (event : Event) :
    d.run (events ++ [event]) = (d.run events).after event :=
  List.foldl_concat _ _ _ _

theorem capacity_run (d : Device) (events : List Event) : (d.run events).capacity = d.capacity := by
  induction events using List.reverseRecOn with
  | nil => rfl
  | append_singleton events event ih =>
    rw [run_concat, ← ih]
    cases event with
    | request r => exact capacity_answer _ r
    | arm op e => rfl

theorem stored_run_le (d : Device) (events : List Event)
    (h : ∀ before event, before ++ [event] <+: events →
      (d.run before).tree.stored ≤ max d.capacity.toNat d.tree.stored →
      d.capacity.toNat + (d.run before).tree.stored < UInt64.size) :
    (d.run events).tree.stored ≤ max d.capacity.toNat d.tree.stored := by
  induction events using List.reverseRecOn with
  | nil => exact le_max_right _ _
  | append_singleton events event ih =>
    have hbound := ih fun before event' hb ↦ h before event' (hb.trans (List.prefix_append _ _))
    have hfit := h events event (List.prefix_refl _) hbound
    rw [run_concat]
    cases event with
    | request r =>
      have hstep := stored_answer_le (d := d.run events) (by rwa [capacity_run]) r
      rw [capacity_run] at hstep
      exact hstep.trans (max_le (le_max_left _ _) hbound)
    | arm op e => exact hbound

theorem stored_empty (capacity : UInt64) : (empty capacity).tree.stored = 0 := rfl

/-- Whatever is requested, and whatever faults are armed, the files hold no more bytes together
than the capacity or than they did before, as long as the capacity and what is stored add up to
a word. So a device that began empty holds at most its capacity, and below half the range of
words nothing else is needed. -/
theorem requests_keep_capacity :
    (∀ (d : Device) (r : Request), d.capacity.toNat + d.tree.stored < UInt64.size →
      (d.answer r).2.tree.stored ≤ max d.capacity.toNat d.tree.stored) ∧
    (∀ (capacity : UInt64) (events : List Event),
      (∀ before event, before ++ [event] <+: events →
        capacity.toNat + ((empty capacity).run before).tree.stored < UInt64.size) →
      ((empty capacity).run events).tree.stored ≤ capacity.toNat) ∧
    ∀ (capacity : UInt64) (events : List Event), 2 * capacity.toNat < UInt64.size →
      ((empty capacity).run events).tree.stored ≤ capacity.toNat := by
  have hempty : ∀ capacity : UInt64,
      max (empty capacity).capacity.toNat (empty capacity).tree.stored = capacity.toNat := by
    intro capacity
    rw [stored_empty, Nat.max_zero]
    rfl
  refine ⟨fun d r h ↦ stored_answer_le h r, fun capacity events h ↦ ?_, fun capacity events h ↦ ?_⟩
  · have hrun := stored_run_le (empty capacity) events fun before event hb _ ↦ h before event hb
    rwa [hempty] at hrun
  · have hrun := stored_run_le (empty capacity) events ?_
    · rwa [hempty] at hrun
    · intro before event _ hbound
      rw [hempty] at hbound
      change capacity.toNat + _ < _
      omega

section Examples

def longLog : RemotePath := RemotePath.root.child ⟨"long.ulg", by decide⟩

def shortLog : RemotePath := RemotePath.root.child ⟨"short.ulg", by decide⟩

def competingLogs : List Event :=
  [.request (.openFile longLog .createWrite), .request (.write 0 [1, 2, 3]),
    .arm .truncate .timeout,
    .request (.openFile shortLog .createWrite), .request (.truncate 0 0),
      .request (.write 1 [4, 5]),
    .request (.openFile shortLog .append), .request (.write 2 [6]),
      .request (.rename shortLog longLog),
    .request (.truncate 0 4)]

theorem requests_keep_capacity_competingLogs :
    ((empty 4).run (competingLogs.take 8)).tree.stored = 4 ∧
    (((empty 4).run (competingLogs.take 8)).answer (.rename shortLog longLog)).2.tree.stored ≤ 4 ∧
    ((empty 4).run competingLogs).tree.stored = 4 ∧ ((empty 4).run competingLogs).tree.stored ≤ 4 ∧
    ((empty 18446744073709551608).run competingLogs).tree.stored ≤ 18446744073709551608 := by
  have hfull : ((empty 4).run (competingLogs.take 8)).tree.stored = 4 := by decide +kernel
  have hcapacity : ((empty 4).run (competingLogs.take 8)).capacity.toNat = 4 := by
    rw [capacity_run]; rfl
  have hstep := requests_keep_capacity.1 ((empty 4).run (competingLogs.take 8))
    (.rename shortLog longLog)
    (by rw [hfull, hcapacity]; decide)
  rw [hfull, hcapacity] at hstep
  refine ⟨hfull, hstep, by decide +kernel,
    requests_keep_capacity.2.2 4 competingLogs (by decide), ?_⟩
  refine requests_keep_capacity.2.1 18446744073709551608 competingLogs fun before event hb ↦ ?_
  have hstored : ∀ n ≤ competingLogs.length,
      ((empty 18446744073709551608).run (competingLogs.take n)).tree.stored < 8 := by decide +kernel
  have hbefore := (List.prefix_append before [event]).trans hb
  have h := hstored before.length hbefore.length_le
  rw [← List.prefix_iff_eq_take.1 hbefore] at h
  change 18446744073709551608 + _ < 18446744073709551616
  omega

end Examples

end Device

end RemoteMount.Memory
