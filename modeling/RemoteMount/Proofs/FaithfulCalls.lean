import RemoteMount.Proofs.CacheAgreement
import RemoteMount.Proofs.SessionCalls

namespace RemoteMount

open Memory Turns Program

def AllFaithful (policy : Policy) (caller : Caller) (t : Tree) (c : AttributeCache) : Prop :=
  ∀ p, Faithful policy caller t c p

/-- A mutation may leave records that are not faithful, until the listings are dropped that hold
them. -/
def FaithfulBut (policy : Policy) (caller : Caller) (E : RemotePath → Prop) (t : Tree)
    (c : AttributeCache) : Prop :=
  ∀ p, ¬E p → Faithful policy caller t c p

variable {policy : Policy} {caller : Caller} {E E' : RemotePath → Prop} {s s' : State}
variable {path dir old new : RemotePath}

theorem AllFaithful.but (h : AllFaithful policy caller s.tree s.cache) :
    FaithfulBut policy caller E s.tree s.cache :=
  fun p _ ↦ h p

namespace FaithfulBut

theorem mono (h : FaithfulBut policy caller E s.tree s.cache) (hE : ∀ p, E p → E' p) :
    FaithfulBut policy caller E' s.tree s.cache :=
  fun p hp ↦ h p (mt (hE p) hp)

theorem all (h : FaithfulBut policy caller E s.tree s.cache) (hE : ∀ p, ¬E p) :
    AllFaithful policy caller s.tree s.cache :=
  fun p ↦ h p (hE p)

theorem drop {a : CacheAccess} (h : FaithfulBut policy caller E s.tree s.cache) (faults : Faults)
    (hs : ∀ c p, a.stores c p = false) : FaithfulBut policy caller (fun p ↦ E p ∧ ¬a.Drops p.parent)
      (s.take faults (.cache a)).2.tree (s.take faults (.cache a)).2.cache := by
  intro p hp
  rw [State.tree_take_access, State.cache_take_access]
  by_cases hd : a.Drops p.parent
  · exact .of_drops hd
  · have hE : ¬E p := fun hE ↦ hp ⟨hE, hd⟩
    exact (h p hE).run_of_not_stores (hs _ p)

theorem request {r : Request} {x : Except RemoteError r.Reply}
    (h : FaithfulBut policy caller E s.tree s.cache)
    (hans : s.Answers r x s') (hs : r.stores? = none) :
    FaithfulBut policy caller (fun p ↦ E p ∨ r.Names p) s'.tree s'.cache := by
  intro p hp
  obtain ⟨hE, hn⟩ := not_or.1 hp
  obtain ⟨faults, heffect⟩ := hans.effect
  have hget : s'.tree.get? p = s.tree.get? p := by
    rw [heffect.get?_of_not_names hn fun id x hid ↦ by simp [hs] at hid, Device.tree_arm]
    rfl
  rw [hans.cache_eq]
  exact (h p hE).of_get?_eq hget

end FaithfulBut

theorem AllFaithful.access {a : CacheAccess} (h : AllFaithful policy caller s.tree s.cache)
    (faults : Faults) (hs : ∀ c p, a.stores c p = false) :
    AllFaithful policy caller (s.take faults (.cache a)).2.tree
      (s.take faults (.cache a)).2.cache := by
  intro p
  rw [State.tree_take_access, State.cache_take_access]
  exact (h p).run_of_not_stores (hs _ p)

namespace Filesystem

theorem ensures_refresh (h : AllFaithful policy caller s.tree s.cache) :
    (refresh policy caller dir).Ensures (fun _ t ↦ AllFaithful policy caller t.tree t.cache) s := by
  refine fun faults ↦ ensures_remote fun x s₁ hlist ↦ ?_
  have htree : s₁.tree = s.tree := by
    rw [hlist.tree_of_quiet (fun _ h ↦ h) rfl, State.tree_take_access]
  have hcache : s₁.cache = s.cache := hlist.cache_eq
  rcases x with e | rows
  · rw [← htree, ← hcache] at h
    exact h
  · refine fun faults' p ↦ ?_
    have hrows := hlist.listing
    rw [State.tree_take_access] at hrows
    rw [State.tree_take_access, State.cache_take_access, htree, hcache]
    exact (h p).populateIfCurrent hrows

theorem ensures_getattr (h : AllFaithful policy caller s.tree s.cache) :
    (getattr policy caller path).Ensures
      (fun _ t ↦ AllFaithful policy caller t.tree t.cache) s := by
  unfold getattr
  split
  · exact h
  · intro faults
    have h' := h.access (a := .lookup path) faults fun _ _ ↦ rfl
    dsimp only [Program.bind]
    split
    · exact h'
    · refine (ensures_refresh h').bind fun x t ht ↦ ?_
      rcases x with e | records
      · exact ht
      · dsimp only
        split <;> exact ht

theorem ensures_readdir (h : AllFaithful policy caller s.tree s.cache) :
    (readdir policy caller path).Ensures
      (fun _ t ↦ AllFaithful policy caller t.tree t.cache) s := by
  refine (ensures_refresh h).bind fun x t ht ↦ ?_
  rcases x with e | records <;> exact ht

theorem ensures_invalidateAll {touched : List RemotePath}
    (h : FaithfulBut policy caller E s.tree s.cache) :
    (invalidateAll touched).Ensures
      (fun _ t ↦ FaithfulBut policy caller (fun p ↦ E p ∧ p.parent ∉ touched) t.tree t.cache)
        s := by
  induction touched generalizing s E with
  | nil => exact h.mono fun p hp ↦ ⟨hp, List.not_mem_nil⟩
  | cons dir touched ih =>
    refine fun faults ↦ (ih (h.drop faults fun _ _ ↦ rfl)).mono fun _ t ht ↦ ht.mono ?_
    intro p hx
    obtain ⟨⟨hE, hd⟩, hp⟩ := hx
    exact ⟨hE, List.not_mem_cons_of_ne_of_not_mem hd hp⟩

/-- What a mutation leaves unsettled is settled as far as it lies in the touched directories. -/
theorem ensures_mutate {touched : List RemotePath} {mutation : Program (Except RemoteError Unit)}
    (h : AllFaithful policy caller s.tree s.cache)
    (hm : ∀ s', AllFaithful policy caller s'.tree s'.cache →
      mutation.Ensures (fun _ t ↦ FaithfulBut policy caller E t.tree t.cache) s') :
    (mutate touched mutation).Ensures
      (fun _ t ↦ FaithfulBut policy caller (fun p ↦ E p ∧ p.parent ∉ touched) t.tree t.cache)
        s := by
  refine (ensures_invalidateAll (h.but (E := fun _ ↦ False))).bind fun _ s₁ h₁ ↦ ?_
  refine (hm s₁ (h₁.all fun _ hp ↦ hp.1)).bind fun result s₂ h₂ ↦ ?_
  exact (ensures_invalidateAll h₂).bind fun _ _ h₃ ↦ h₃

theorem ensures_mutate_parent {mutation : Program (Except RemoteError Unit)}
    (h : AllFaithful policy caller s.tree s.cache)
    (hm : ∀ s, AllFaithful policy caller s.tree s.cache →
      mutation.Ensures (fun _ t ↦ FaithfulBut policy caller (· = path) t.tree t.cache) s) :
    (remotely (mutate [path.parent] mutation)).Ensures
      (fun _ t ↦ AllFaithful policy caller t.tree t.cache) s := by
  refine ensures_remotely ((ensures_mutate h hm).mono fun _ t ht ↦ ht.all ?_)
  intro p hx
  obtain ⟨rfl, hp⟩ := hx
  exact hp (List.mem_singleton_self _)

theorem ensures_request {r : Request} (h : AllFaithful policy caller s.tree s.cache)
    (hs : r.stores? = none)
    (hn : ∀ p, r.Names p → E p) :
    (request r).Ensures (fun _ t ↦ FaithfulBut policy caller E t.tree t.cache) s :=
  ensures_remote fun _ _ hans ↦ (h.but.request hans hs).mono fun p hp ↦
    hn p (hp.resolve_left not_false)

theorem ensures_mkdir (h : AllFaithful policy caller s.tree s.cache) :
    (mkdir path).Ensures (fun _ t ↦ AllFaithful policy caller t.tree t.cache) s :=
  ensures_mutate_parent h fun _ h' ↦ ensures_request h' rfl fun _ hp ↦ hp

theorem ensures_unlink (h : AllFaithful policy caller s.tree s.cache) :
    (unlink path).Ensures (fun _ t ↦ AllFaithful policy caller t.tree t.cache) s :=
  ensures_mutate_parent h fun _ h' ↦ ensures_request h' rfl fun _ hp ↦ hp

theorem ensures_rmdir (h : AllFaithful policy caller s.tree s.cache) :
    (rmdir path).Ensures (fun _ t ↦ AllFaithful policy caller t.tree t.cache) s := by
  intro faults
  have h' := h.access (a := .invalidateTree path) faults fun _ _ ↦ rfl
  exact ensures_mutate_parent h' fun _ h' ↦ ensures_request h' rfl fun _ hp ↦ hp

theorem ensures_create (h : AllFaithful policy caller s.tree s.cache) :
    (create path).Ensures (fun _ t ↦ AllFaithful policy caller t.tree t.cache) s := by
  refine ensures_mutate_parent h fun s₁ h₁ ↦ ensures_withSession ?_ ?_
  · exact fun e s₂ hans ↦ (h₁.but.request hans rfl).mono fun _ hp ↦ hp.resolve_left not_false
  · exact fun id s₂ hans ↦ (h₁.but.request hans rfl).mono fun _ hp ↦ hp.resolve_left not_false

theorem ensures_createNew (h : AllFaithful policy caller s.tree s.cache) :
    (createNew policy caller path).Ensures
      (fun _ t ↦ AllFaithful policy caller t.tree t.cache) s := by
  refine (ensures_refresh h).bind fun x t ht ↦ ?_
  rcases x with e | records
  · exact ht
  · dsimp only
    split
    · exact ht
    · exact ensures_create ht

/-- A moved path is listed in a touched directory, or in one below the two places. -/
theorem ensures_rename (h : AllFaithful policy caller s.tree s.cache) :
    (rename old new).Ensures (fun _ t ↦ AllFaithful policy caller t.tree t.cache) s := by
  have hmutate : ∀ s, AllFaithful policy caller s.tree s.cache →
      (mutate [old.parent, new.parent] (request (.rename old new))).Ensures
        (fun _ t ↦ FaithfulBut policy caller
        (fun p ↦ (p.within old = true ∨ p.within new = true) ∧ p.parent ∉ [old.parent, new.parent])
          t.tree t.cache) s :=
    fun _ h ↦ ensures_mutate h fun _ h ↦ ensures_request h rfl fun _ hp ↦ hp
  intro faults faults'
  have h₁ := h.access (a := .invalidateTree old) faults fun _ _ ↦ rfl
  have h₂ := h₁.access (a := .invalidateTree new) faults' fun _ _ ↦ rfl
  refine (ensures_remotely (hmutate _ h₂)).bind fun result s₃ h₃ faults faults' ↦ ?_
  have h₄ := h₃.drop (a := .invalidateTree old) faults fun _ _ ↦ rfl
  have h₅ := h₄.drop (a := .invalidateTree new) faults' fun _ _ ↦ rfl
  refine h₅.all ?_
  intro p hx
  obtain ⟨⟨⟨hp | hp, htouched⟩, ho⟩, hn⟩ := hx
  · by_cases he : p = old
    · exact htouched (by simp [he])
    · exact ho (RemotePath.parent_within hp he)
  · by_cases he : p = new
    · exact htouched (by simp [he])
    · exact hn (RemotePath.parent_within hp he)

theorem ensures_read {max : Nat} {offset : UInt64} (h : AllFaithful policy caller s.tree s.cache) :
    (read path max offset).Ensures (fun _ t ↦ AllFaithful policy caller t.tree t.cache) s := by
  refine read_outcomes.mono fun _ t ht p ↦ ?_
  obtain ⟨htree, hcache | hcache⟩ := ht
  · rw [htree, hcache]
    exact h p
  · rw [htree, hcache]
    exact (h p).updateSize_lengthAt

theorem ensures_write {data : Bytes} {offset : UInt64}
    (h : AllFaithful policy caller s.tree s.cache)
    (hf : s.tree.Fits) : (write path data offset).Ensures
      (fun _ t ↦ AllFaithful policy caller t.tree t.cache) s := by
  refine (write_outcomes hf).mono fun _ t ht p ↦ ?_
  rcases ht with ⟨htree, hcache⟩ | ⟨old, new, ho, htree, hcache⟩
  · rw [htree, hcache]
    exact h p
  · rw [htree, hcache]
    exact (h p).updateSize_insert ho

theorem ensures_truncate {length : UInt64} (h : AllFaithful policy caller s.tree s.cache)
    (hl : s.log = []) :
    (truncate path length).Ensures
      (fun _ t ↦ cutUnclosed t.log = false → AllFaithful policy caller t.tree t.cache) s := by
  refine (truncate_outcomes hl).mono fun _ t ht hclosed p ↦ ?_
  cases ht with
  | refused ht hc =>
    rw [ht, hc]
    exact h p
  | unclosed ho ht hc hu =>
    rw [hclosed] at hu
    cases hu
  | @restated old ho ht hc =>
    have hsize : (old.resize length.toNat).size.toUInt64 = length := by
      rw [Content.size_resize]
      exact UInt64.ofNat_toNat
    have h' : Faithful policy caller (s.tree.insert path (.file (old.resize length.toNat)))
        (s.cache.updateSize path (old.resize length.toNat).size.toUInt64).2 p :=
          (h p).updateSize_insert ho
    rw [hsize] at h'
    rw [ht, hc]
    exact h'

theorem ensures_destroy (h : AllFaithful policy caller s.tree s.cache) :
    destroy.Ensures (fun _ t ↦ AllFaithful policy caller t.tree t.cache) s :=
  fun faults ↦ h.access (a := .clear) faults fun _ _ ↦ rfl

end Filesystem

theorem ensures_map_faithful {α β : Type} {f : α → β} {p : Program α} {P : State → Prop}
    (h : p.Ensures (fun _ t ↦ AllFaithful policy caller t.tree t.cache) s) :
    (f <$> p).Ensures (fun _ t ↦ P t → AllFaithful policy caller t.tree t.cache) s := by
  refine Ensures.map (h.mono ?_)
  exact fun _ t ht _ ↦ ht

theorem Call.ensures_program (call : Call RemotePath) (h : AllFaithful policy caller s.tree s.cache)
    (hf : s.tree.Fits) (hl : s.log = []) : (call.program policy caller).Ensures
      (fun _ t ↦ (call.cuts = true → cutUnclosed t.log = false) →
        AllFaithful policy caller t.tree t.cache) s := by
  cases call with
  | getattr path => exact ensures_map_faithful (Filesystem.ensures_getattr h)
  | readdir path => exact ensures_map_faithful (Filesystem.ensures_readdir h)
  | mkdir path => exact ensures_map_faithful (Filesystem.ensures_mkdir h)
  | rmdir path => exact ensures_map_faithful (Filesystem.ensures_rmdir h)
  | unlink path => exact ensures_map_faithful (Filesystem.ensures_unlink h)
  | create path => exact ensures_map_faithful (Filesystem.ensures_create h)
  | createNew path => exact ensures_map_faithful (Filesystem.ensures_createNew h)
  | read path max offset => exact ensures_map_faithful (Filesystem.ensures_read h)
  | write path data offset => exact ensures_map_faithful (Filesystem.ensures_write h hf)
  | rename old new => exact ensures_map_faithful (Filesystem.ensures_rename h)
  | truncate path length =>
    refine ((Filesystem.ensures_truncate h hl).mono ?_).map
    exact fun _ t ht hclosed ↦ ht (hclosed rfl)
  | destroy => exact ensures_map_faithful (Filesystem.ensures_destroy h)

end RemoteMount
