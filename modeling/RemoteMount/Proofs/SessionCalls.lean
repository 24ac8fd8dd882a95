import RemoteMount.Proofs.Turns

namespace RemoteMount

open Memory Turns Program

def Call.cuts {π : Type} : Call π → Bool
  | truncate .. => true
  | _ => false

def Turns.cutUnclosed (log : List Exchange) : Bool :=
  log.any (fun x ↦ x.request.op = .truncate ∧ x.granted) && log.any fun x ↦ x.request.op = .close ∧
    !x.granted

/-- All ways in which `truncate` can end. -/
inductive TruncateOutcome (s : State) (path : RemotePath) (length : UInt64) (t : State) : Prop
  | refused (ht : t.tree = s.tree) (hc : t.cache = s.cache) (hl : cutUnclosed t.log = false)
  | unclosed {old : Content} (ho : s.tree.get? path = some (.file old))
      (ht : t.tree = s.tree.insert path (.file (old.resize length.toNat))) (hc : t.cache = s.cache)
      (hl : cutUnclosed t.log = true)
  | restated {old : Content} (ho : s.tree.get? path = some (.file old))
      (ht : t.tree = s.tree.insert path (.file (old.resize length.toNat)))
      (hc : t.cache = (s.cache.updateSize path length).2) (hl : cutUnclosed t.log = false)

namespace Filesystem

variable {α : Type} {s : State} {path : RemotePath} {mode : OpenMode}

theorem ensures_remotely {Q : State → Prop} {p : Program (Except RemoteError α)}
    (h : p.Ensures (fun _ ↦ Q) s) :
    (remotely p).Ensures (fun _ ↦ Q) s :=
  h.bind fun _ _ hq ↦ hq

theorem ensures_withSession {Q : Tree → AttributeCache → Prop}
    {body : SessionId → Program (Except RemoteError α)}
    (he : ∀ e s', s.Answers (.openFile path mode) (.error e) s' → Q s'.tree s'.cache)
    (hb : ∀ id s', s.Answers (.openFile path mode) (.ok id) s' →
      (body id).Ensures (fun _ t ↦ Q t.tree t.cache) s') :
    (withSession path mode body).Ensures (fun _ t ↦ Q t.tree t.cache) s := by
  refine ensures_remote fun x s' h ↦ ?_
  rcases x with e | id
  · exact he e s' h
  · refine (hb id s' h).bind fun value t hq ↦ ensures_remote fun closed t' hclose ↦ ?_
    rw [← hclose.tree_of_quiet (fun _ h ↦ h) rfl, ← hclose.cache_eq] at hq
    rcases value with e | a
    · exact hq
    · rcases closed with e | u
      · exact hq
      · exact hq

theorem max_saturatingEnd {offset : UInt64} {count size : Nat} (h : offset.toNat + count ≤ size)
    (hs : size < UInt64.size) :
    max size.toUInt64 (saturatingEnd offset count) = size.toUInt64 := by
  have hlimit : UInt64.size = 2 ^ 64 := rfl
  have hend : (saturatingEnd offset count).toNat = offset.toNat + count := by
    rw [saturatingEnd, if_pos (by omega), toNat_add_of_lt (by omega)]
  have hle : saturatingEnd offset count ≤ size.toUInt64 := by
    rw [UInt64.le_iff_toNat_le, hend, Nat.toUInt64_eq, UInt64.toNat_ofNat']
    omega
  change (if size.toUInt64 ≤ saturatingEnd offset count then saturatingEnd offset count
    else size.toUInt64) = _
  split
  · rename_i hge
    exact UInt64.le_antisymm hle hge
  · rfl

theorem max_size_overwrite {offset : UInt64} {data : Bytes} {old : Content}
    (ho : old.size < UInt64.size) (hd : offset.toNat + data.length < UInt64.size) :
    max (old.overwrite offset.toNat data).size.toUInt64 (saturatingEnd offset data.length) =
      (old.overwrite offset.toNat data).size.toUInt64 := by
  have hsize := Content.size_overwrite old offset.toNat data
  refine max_saturatingEnd ?_ ?_
  · omega
  · omega

theorem read_outcomes {max : Nat} {offset : UInt64} :
    (read path max offset).Ensures (fun _ t ↦ t.tree = s.tree ∧
    (t.cache = s.cache ∨ t.cache = (s.cache.updateSize path (s.tree.lengthAt path)).2)) s := by
  refine ensures_remotely (ensures_withSession
    (Q := fun t c ↦ t = s.tree ∧ (c = s.cache ∨
      c = (s.cache.updateSize path (s.tree.lengthAt path)).2)) ?_ ?_)
  · exact fun e s' h ↦ ⟨h.tree_of_error, .inl h.cache_eq⟩
  · intro id s₁ hopen faults faults'
    have htree : s₁.tree = s.tree := hopen.tree_of_quiet (fun _ h ↦ h) rfl
    have hlength : (s₁.take faults (.size id)).1 = s.tree.lengthAt path := by
      obtain ⟨x, hx, hpath, -⟩ := hopen.opened
      rw [State.answer_take_size ⟨x, hx, hpath⟩, htree]
    rw [hlength]
    refine ensures_remote fun x s₂ hseek ↦ ?_
    have htree₂ : s₂.tree = s.tree := by
      rw [hseek.tree_of_quiet (fun _ h ↦ h) rfl]
      simp [htree]
    have hcache₂ : s₂.cache = (s.cache.updateSize path (s.tree.lengthAt path)).2 := by
      rw [hseek.cache_eq, ← hopen.cache_eq]
      rfl
    rcases x with e | u
    · exact ⟨htree₂, .inr hcache₂⟩
    · refine ensures_remote fun x s₃ hread ↦ ⟨?_, .inr ?_⟩
      · rw [hread.tree_of_quiet (fun _ h ↦ h) rfl, htree₂]
      · rw [hread.cache_eq, hcache₂]

/-- A write that is granted restates the size, also if the session is not closed in order. -/
theorem write_outcomes {data : Bytes} {offset : UInt64} (hf : s.tree.Fits) :
    (write path data offset).Ensures (fun _ t ↦ t.tree = s.tree ∧ t.cache = s.cache ∨
      ∃ old new, s.tree.get? path = some (.file old) ∧ t.tree = s.tree.insert path (.file new) ∧
        t.cache = (s.cache.updateSize path new.size.toUInt64).2) s := by
  refine ensures_remotely (ensures_withSession (Q := fun t c ↦ t = s.tree ∧ c = s.cache ∨
    ∃ old new, s.tree.get? path = some (.file old) ∧ t = s.tree.insert path (.file new) ∧
      c = (s.cache.updateSize path new.size.toUInt64).2) ?_ ?_)
  · exact fun e s' h ↦ .inl ⟨h.tree_of_error, h.cache_eq⟩
  · intro id s₁ hopen
    have htree : s₁.tree = s.tree := hopen.tree_of_quiet (fun _ h ↦ h) rfl
    obtain ⟨x, hx, hpath, hmode⟩ := hopen.opened
    refine ensures_remote fun sought s₂ hseek ↦ ?_
    have htree₂ : s₂.tree = s.tree := by rw [hseek.tree_of_quiet (fun _ h ↦ h) rfl, htree]
    have hcache₂ : s₂.cache = s.cache := by rw [hseek.cache_eq, hopen.cache_eq]
    rcases sought with e | u
    · exact .inl ⟨htree₂, hcache₂⟩
    refine ensures_remote fun written s₃ hwrite ↦ ?_
    have hcache₃ : s₃.cache = s.cache := by rw [hwrite.cache_eq, hcache₂]
    rcases written with e | n
    · exact .inl ⟨by rw [hwrite.tree_of_error, htree₂], hcache₃⟩
    obtain ⟨old, ho, hlt, rfl, hholds, htree₃⟩ := hwrite.written (hseek.sought hx)
    have hstart : Session.writeStart { x with position := offset } old.size = offset := by
      simp [Session.writeStart, hmode]
    rw [hstart] at hlt htree₃
    simp only [hpath, htree₂] at ho hholds htree₃
    refine fun faults faults' ↦ .inr ⟨old, old.overwrite offset.toNat data, ho, ?_, ?_⟩
    · simpa using htree₃
    · have hget : s₃.tree.get? path = some (.file (old.overwrite offset.toNat data)) := by
        rw [htree₃, KeyMap.get?_insert_self]
      have hsize : max (s₃.take faults (.size id)).1 (saturatingEnd offset data.length) =
          (old.overwrite offset.toNat data).size.toUInt64 := by
        rw [State.answer_take_size hholds, Tree.lengthAt_of_file hget]
        exact max_size_overwrite (hf path old ho) hlt
      rw [← hsize, ← hcache₃]
      rfl

/-- The session in which a file is cut succeeds only if the cut is granted and the session is
closed. -/
theorem ensures_cut {length : UInt64} (hl : s.log = []) :
    (withSession path .write fun id ↦ request (.truncate id length)).Ensures
      (fun x t ↦ (∃ e, x = .error e ∧ TruncateOutcome s path length t) ∨ ∃ u old, x = .ok u ∧
        s.tree.get? path = some (.file old) ∧
        t.tree = s.tree.insert path (.file (old.resize length.toNat)) ∧
        t.cache = s.cache ∧ cutUnclosed t.log = false) s := by
  refine ensures_remote fun opened s₁ hopen ↦ ?_
  rcases opened with e | id
  · refine .inl ⟨e, rfl, .refused hopen.tree_of_error hopen.cache_eq ?_⟩
    rw [hopen.log_eq, hl]
    rfl
  have htree : s₁.tree = s.tree := hopen.tree_of_quiet (fun _ h ↦ h) rfl
  obtain ⟨x, hx, hpath, -⟩ := hopen.opened
  refine ensures_remote fun cut s₂ hcut ↦ ensures_remote fun closed s₃ hclose ↦ ?_
  have htree₃ : s₃.tree = s₂.tree := hclose.tree_of_quiet (fun _ h ↦ h) rfl
  have hcache₃ : s₃.cache = s.cache := by rw [hclose.cache_eq, hcut.cache_eq, hopen.cache_eq]
  have hlog : s₃.log = [⟨.close id, closed.isOk⟩, ⟨.truncate id length, cut.isOk⟩,
      ⟨.openFile path .write, true⟩] := by
    rw [hclose.log_eq, hcut.log_eq, hopen.log_eq, hl]
    rfl
  rcases cut with e | u
  · refine .inl ⟨e, rfl, .refused ?_ hcache₃ ?_⟩
    · rw [htree₃, hcut.tree_of_error, htree]
    · rw [hlog]
      cases closed <;> rfl
  obtain ⟨old, ho, hcuttree⟩ := hcut.cut ⟨x, hx, hpath⟩
  rw [htree] at ho hcuttree
  rcases closed with e | u
  · refine .inl ⟨e, rfl, .unclosed ho (htree₃.trans hcuttree) hcache₃ ?_⟩
    rw [hlog]
    rfl
  · refine .inr ⟨_, old, rfl, ho, htree₃.trans hcuttree, hcache₃, ?_⟩
    rw [hlog]
    rfl

theorem truncate_outcomes {length : UInt64} (hl : s.log = []) :
    (truncate path length).Ensures (fun _ ↦ TruncateOutcome s path length) s := by
  refine (ensures_cut hl).bind ?_
  intro x t y
  rcases y with ⟨e, rfl, h⟩ | ⟨u, old, rfl, ho, ht, hc, hlog⟩
  · exact h
  · refine fun faults ↦ .restated ho ?_ ?_ hlog
    · simpa using ht
    · rw [← hc]
      rfl

end Filesystem

end RemoteMount
