import RemoteMount.Proofs.Memory.Requests

namespace RemoteMount.Memory

open RemotePath

namespace Device

variable {d : Device} {r : Request} {t : Tree} {p : RemotePath}

theorem perform_effect (d : Device) (r : Request) : d.Effect r (d.perform r).2.tree := by
  cases r with
  | listdir dir => exact .unchanged _
  | openFile path mode =>
    simp only [perform]
    split
    · exact .unchanged _
    · rename_i t position h
      exact openFile_effect h
  | seek id offset =>
    simp only [perform]
    split <;> exact .unchanged _
  | read id max =>
    simp only [perform]
    split <;> exact .unchanged _
  | write id data =>
    simp only [perform]
    split
    · exact .unchanged _
    · rename_i count s' t h
      obtain ⟨s, hs, h⟩ := exists_of_bind_eq_ok h
      obtain ⟨old, ho, hlt, -, -, -, rfl⟩ := Session.write_eq_ok h
      refine .stored rfl (session_eq_ok_iff.1 hs) ho fun hf ↦ ?_
      rw [Content.size_overwrite]
      omega
  | truncate id length =>
    refine effect_setTree fun t h ↦ ?_
    obtain ⟨s, hs, h⟩ := exists_of_bind_eq_ok h
    obtain ⟨old, ho, -, rfl⟩ := Session.truncate_eq_ok h
    refine .stored rfl (session_eq_ok_iff.1 hs) ho fun _ ↦ ?_
    rw [Content.size_resize]
    exact length.toNat_lt_size
  | close id => exact .unchanged _
  | mkdir path => exact effect_setTree fun t h ↦ mkdir_effect h
  | rmdir path => exact effect_setTree fun t h ↦ rmdir_effect h
  | unlink path => exact effect_setTree fun t h ↦ unlink_effect h
  | rename old new => exact effect_setTree fun t h ↦ rename_effect h

theorem answer_of_fault {e : RemoteError} (h : d.faults.get? r.op = some e) :
    d.answer r = (.error e, ((d.release r).enter r.op).2) := by
  have hf : ((d.release r).enter r.op).1 = some e := by cases r <;> exact h
  unfold answer
  split
  · rename_i e' d' he
    rw [he] at hf ⊢
    cases hf
    rfl
  · rename_i d' he
    rw [he] at hf
    cases hf

theorem answer_of_no_fault (h : d.faults.get? r.op = none) :
    d.answer r = ((d.release r).enter r.op).2.perform r := by
  have hf : ((d.release r).enter r.op).1 = none := by cases r <;> exact h
  unfold answer
  split
  · rename_i e' d' he
    rw [he] at hf
    cases hf
  · rename_i d' he
    rw [he]

theorem answer_of_ok {x : r.Reply} (h : (d.answer r).1 = .ok x) :
    d.answer r = ((d.release r).enter r.op).2.perform r := by
  cases hf : d.faults.get? r.op with
  | some e =>
    rw [answer_of_fault hf] at h
    cases h
  | none => exact answer_of_no_fault hf

theorem exists_setTree (x : Except RemoteError Tree) :
    ∃ t, (d.setTree x).2 = { d with tree := t } := by
  cases x with
  | error e => exact ⟨d.tree, rfl⟩
  | ok t => exact ⟨t, rfl⟩

theorem exists_perform (d : Device) (r : Request) : ∃ t sessions next, d.nextSession ≤ next ∧
    (d.perform r).2 = { d with tree := t, sessions := sessions, nextSession := next } := by
  cases r with
  | listdir dir => exact ⟨d.tree, d.sessions, d.nextSession, le_refl _, rfl⟩
  | close id => exact ⟨d.tree, d.sessions, d.nextSession, le_refl _, rfl⟩
  | openFile path mode =>
    simp only [perform]
    split
    · exact ⟨d.tree, d.sessions, d.nextSession, le_refl _, rfl⟩
    · exact ⟨_, _, d.nextSession + 1, Nat.le_succ _, rfl⟩
  | seek id offset =>
    simp only [perform]
    split
    · exact ⟨d.tree, d.sessions, d.nextSession, le_refl _, rfl⟩
    · exact ⟨d.tree, _, d.nextSession, le_refl _, rfl⟩
  | read id max =>
    simp only [perform]
    split
    · exact ⟨d.tree, d.sessions, d.nextSession, le_refl _, rfl⟩
    · exact ⟨d.tree, _, d.nextSession, le_refl _, rfl⟩
  | write id data =>
    simp only [perform]
    split
    · exact ⟨d.tree, d.sessions, d.nextSession, le_refl _, rfl⟩
    · exact ⟨_, _, d.nextSession, le_refl _, rfl⟩
  | _ =>
    obtain ⟨t, ht⟩ := exists_setTree _
    exact ⟨t, d.sessions, d.nextSession, le_refl _, ht⟩

theorem faults_perform (d : Device) (r : Request) : (d.perform r).2.faults = d.faults := by
  obtain ⟨t, sessions, next, -, h⟩ := exists_perform d r
  rw [h]

theorem nextSession_le_perform (d : Device) (r : Request) :
    d.nextSession ≤ (d.perform r).2.nextSession := by
  obtain ⟨t, sessions, next, hle, h⟩ := exists_perform d r
  rw [h]
  exact hle

theorem faults_answer (h : ∀ op, d.faults.get? op = none) (op : RemoteOp) :
    (d.answer r).2.faults.get? op = none := by
  rw [answer_of_no_fault (h r.op), faults_perform]
  have hreleased : (d.release r).faults = d.faults := by cases r <;> rfl
  simp only [enter, KeyMap.get?_erase, hreleased, h, ite_self]

/-- Only closing ends a session, and it changes no tree. -/
theorem Effect.of_entered (h : ((d.release r).enter r.op).2.Effect r t) : d.Effect r t := by
  have hsession : ∀ id s, ((d.release r).enter r.op).2.sessions.get? id = some s →
      r.stores? = some id →
      d.sessions.get? id = some s := by
    intro id s hs hr
    cases r with
    | close id' => cases hr
    | _ => exact hs
  have htree : ((d.release r).enter r.op).2.tree = d.tree := by simp
  cases h with
  | unchanged =>
    rw [htree]
    exact .unchanged r
  | emptied hk hp => exact .emptied hk hp
  | stored hr hs ho hn =>
    rw [htree] at ho ⊢
    exact .stored hr (hsession _ _ hs hr) ho hn
  | made hk hp => exact .made hk hp
  | removedDirectory hr hk hc => exact .removedDirectory hr hk hc
  | removedFile hk => exact .removedFile hk
  | moved ho hn hne hs hw hp hr => exact .moved ho hn hne hs hw hp hr

theorem answer_effect (d : Device) (r : Request) : d.Effect r (d.answer r).2.tree := by
  cases hf : d.faults.get? r.op with
  | some e =>
    rw [answer_of_fault hf]
    simpa using Effect.unchanged r
  | none =>
    rw [answer_of_no_fault hf]
    exact (perform_effect _ r).of_entered

theorem tree_perform_of_error {e : RemoteError} (h : (d.perform r).1 = .error e) :
    (d.perform r).2.tree = d.tree := by
  cases r with
  | listdir dir => rfl
  | openFile path mode =>
    simp only [perform] at h ⊢
    split at h
    · rfl
    · cases h
  | seek id offset =>
    simp only [perform]
    split <;> rfl
  | read id max =>
    simp only [perform]
    split <;> rfl
  | write id data =>
    simp only [perform] at h ⊢
    split at h
    · rfl
    · cases h
  | truncate id length => exact tree_setTree_error h
  | close id => rfl
  | mkdir path => exact tree_setTree_error h
  | rmdir path => exact tree_setTree_error h
  | unlink path => exact tree_setTree_error h
  | rename old new => exact tree_setTree_error h

/-- A request that fails leaves the tree as it was. -/
theorem tree_answer_of_error {e : RemoteError} (h : (d.answer r).1 = .error e) :
    (d.answer r).2.tree = d.tree := by
  cases hf : d.faults.get? r.op with
  | some e' =>
    rw [answer_of_fault hf]
    simp
  | none =>
    rw [answer_of_no_fault hf] at h ⊢
    rw [tree_perform_of_error h]
    simp

theorem Effect.fits (h : d.Effect r t) (hf : d.tree.Fits) : t.Fits := by
  cases h with
  | unchanged => exact hf
  | emptied =>
    refine hf.insert ?_
    rintro content h
    cases h
    exact Nat.zero_lt_succ _
  | stored hr hs ho hn =>
    refine hf.insert ?_
    rintro content h
    cases h
    exact hn (hf _ _ ho)
  | made =>
    refine hf.insert ?_
    rintro content h
    cases h
  | removedDirectory => exact hf.erase
  | removedFile => exact hf.erase
  | moved => exact hf.moveSubtree

theorem apart_of_replaceable {old new : RemotePath} {source : Node} {u : Unit} (ht : t.WellFormed)
    (hne : old ≠ new) (hs : t.get? old = some source) (hw : new.within old = false)
    (hr : t.requireReplaceable new source = .ok u) :
    Tree.Apart old new ∧ ∀ p, (t.get? p).isSome → p.within new = true → p = new := by
  have hempty : ∀ p, (t.get? p).isSome → p.within new = true → p = new := by
    intro p hp hpw
    by_contra hpn
    obtain ⟨node, hnode⟩ := Option.isSome_iff_exists.1 hp
    have hd := ht.directory_of_within hnode hpw hpn
    unfold Tree.requireReplaceable at hr
    cases source with
    | file content =>
      simp only [hd] at hr
      cases hr
    | directory =>
      simp only [hd] at hr
      split at hr
      · cases hr
      · rename_i hc
        exact hpn (Tree.hasDescendants_eq_false_iff.1 (Bool.eq_false_iff.2 hc) p hp hpw)
  refine ⟨Tree.apart_of_not_within ?_ hw, hempty⟩
  by_contra how
  exact hne (hempty old (by rw [hs]; rfl) (Bool.not_eq_false _ ▸ how))

theorem wellFormed_moveSubtree {old new : RemotePath} (ht : t.WellFormed) (ho : old ≠ root)
    (hn : new ≠ root)
    (ha : Tree.Apart old new) (hc : ∀ p, (t.get? p).isSome → p.within new = true → p = new)
    (hp : t.get? new.parent = some .directory) : (t.moveSubtree old new).WellFormed := by
  have hget (q : RemotePath) := Tree.get?_moveSubtree (q := q) ha hc
  have houtside : ∀ q, q.within new = false → q.within old = false →
      (t.moveSubtree old new).get? q = t.get? q := by
    intro q hqn hqo
    exact Tree.get?_moveSubtree_of_outside hqo hqn
  have hroot : ∀ q : RemotePath, q ≠ root → root.within q = false := by
    intro q hq
    exact Bool.eq_false_iff.2 (mt within_root_iff.1 hq)
  rw [Tree.wellFormed_iff]
  constructor
  · rw [houtside _ (hroot new hn) (hroot old ho)]
    exact ht.1
  · intro q hq
    rw [hget] at hq
    by_cases hqn : q.within new = true
    · obtain ⟨p, hqp⟩ := exists_rebase old hqn
      rw [if_pos hqn, hqp, Option.bind_some] at hq
      by_cases hqe : q = new
      · -- The new place lies outside of both subtrees.
        subst hqe
        have hno : q.parent.within old = false := by
          by_contra hw
          have := ha q (within_of_parent_within (Bool.not_eq_false _ ▸ hw))
          rw [within_self] at this
          cases this
        have hnn : q.parent.within q = false := by
          by_contra hw
          exact parent_ne_self hn (within_antisymm (Bool.not_eq_false _ ▸ hw) q.within_parent)
        rw [houtside _ hnn hno]
        exact hp
      · have hpp := rebase_parent hqp hqe
        rw [hget, if_pos (parent_within hqn hqe), hpp, Option.bind_some]
        exact (Tree.wellFormed_iff.1 ht).2 p hq
    · rw [if_neg hqn] at hq
      by_cases hqo : q.within old = true
      · rw [if_pos hqo] at hq
        cases hq
      · rw [if_neg hqo] at hq
        have hpn : q.parent.within new = false :=
          Bool.eq_false_iff.2 (mt within_of_parent_within hqn)
        have hpo : q.parent.within old = false :=
          Bool.eq_false_iff.2 (mt within_of_parent_within hqo)
        rw [houtside _ hpn hpo]
        exact (Tree.wellFormed_iff.1 ht).2 q hq

theorem Effect.wellFormed (h : d.Effect r t) (ht : d.tree.WellFormed) : t.WellFormed := by
  cases h with
  | unchanged => exact ht
  | @emptied path hk hp =>
    have hchild : ∀ q, (d.tree.get? q).isSome → q.parent = path →
        Node.file .empty = .directory := by
      intro q hq hx
      subst hx
      exact absurd ((Tree.wellFormed_iff.1 ht).2 q hq) hk
    have hroot : path = root → Node.file .empty = .directory := by
      intro hx
      subst hx
      exact absurd ht.1 hk
    cases hg : d.tree.get? path with
    | none => exact ht.insert (hp hg) hchild hroot
    | some node => exact ht.insert (ht.parent_directory hg) hchild hroot
  | @stored r id s old new hr hs ho hn =>
    refine ht.insert (ht.parent_directory ho) ?_ ?_
    · rintro q hq hqp
      have hd := (Tree.wellFormed_iff.1 ht).2 q hq
      rw [hqp, ho] at hd
      cases hd
    · intro hroot
      have hd := ht.1
      rw [← hroot, ho] at hd
      cases hd
  | made hk hp => exact ht.insert hp (fun _ _ _ ↦ rfl) fun _ ↦ rfl
  | removedDirectory hr hk hc => exact ht.erase hr (Tree.hasDescendants_eq_false_iff.1 hc)
  | removedFile hk =>
    refine ht.erase ?_ fun q hq hw ↦ ht.eq_of_within_file hk hq hw
    intro hx
    subst hx
    have hd := ht.1
    rw [hk] at hd
    cases hd
  | moved ho hn hne hs hw hp hr =>
    obtain ⟨ha, hc⟩ := apart_of_replaceable ht hne hs hw hr
    exact wellFormed_moveSubtree ht ho hn ha hc hp

theorem Effect.get?_of_not_names (h : d.Effect r t) (hn : ¬r.Names p)
    (hs : ∀ id s, r.stores? = some id → d.sessions.get? id = some s → s.path ≠ p) :
    t.get? p = d.tree.get? p := by
  cases h with
  | unchanged => rfl
  | @emptied path =>
    have hne : p ≠ path := hn
    rw [KeyMap.get?_insert, if_neg hne]
  | stored hr hs' => rw [KeyMap.get?_insert, if_neg (hs _ _ hr hs').symm]
  | @made path =>
    have hne : p ≠ path := hn
    rw [KeyMap.get?_insert, if_neg hne]
  | @removedDirectory path =>
    have hne : p ≠ path := hn
    rw [KeyMap.get?_erase, if_neg hne]
  | @removedFile path =>
    have hne : p ≠ path := hn
    rw [KeyMap.get?_erase, if_neg hne]
  | moved =>
    obtain ⟨ho, hn⟩ := not_or.1 hn
    exact Tree.get?_moveSubtree_of_outside (Bool.eq_false_iff.2 ho) (Bool.eq_false_iff.2 hn)

theorem Effect.eq_of_quiet (h : d.Effect r t) (hn : ∀ p, ¬r.Names p) (hs : r.stores? = none) :
    t = d.tree := by
  cases h with
  | unchanged => rfl
  | emptied => exact absurd rfl (hn _)
  | stored hr =>
    rw [hs] at hr
    cases hr
  | made => exact absurd rfl (hn _)
  | removedDirectory => exact absurd rfl (hn _)
  | removedFile => exact absurd rfl (hn _)
  | @moved old => exact absurd (.inl (within_self old)) (hn old)

theorem tree_answer_listdir (d : Device) (dir : RemotePath) :
    (d.answer (.listdir dir)).2.tree = d.tree :=
  (answer_effect d (.listdir dir)).eq_of_quiet (fun _ h ↦ h) rfl

theorem listing_of_answer {dir : RemotePath} {rows : List ListingEntry}
    (h : (d.answer (.listdir dir)).1 = .ok rows) : d.tree.listing dir = .ok rows := by
  rw [answer_of_ok h] at h
  exact h

theorem Effect.kind_of_not_names (h : d.Effect r t) (hn : ¬r.Names p) :
    (t.get? p).map Node.kind = (d.tree.get? p).map Node.kind := by
  by_cases hs : ∀ id s, r.stores? = some id → d.sessions.get? id = some s → s.path ≠ p
  · rw [h.get?_of_not_names hn hs]
  · cases h with
    | unchanged => rfl
    | stored hr hs' ho =>
      rw [KeyMap.get?_insert]
      split
      · rename_i hp
        rw [hp, ho]
        rfl
      · rfl
    | _ => exact absurd (fun id s hr ↦ by cases hr) hs

end Device

end RemoteMount.Memory
