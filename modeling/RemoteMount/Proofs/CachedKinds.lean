import RemoteMount.Proofs.CacheTransparency
import RemoteMount.Proofs.CallOutcomes
import RemoteMount.Proofs.NamespaceCoherence

namespace RemoteMount

open Memory Program Interleaving

namespace Program

variable {σ α β : Type} [RemoteDevice σ]

theorem run_map (f : α → β) (p : Program α) (m : CachedDevice σ) :
    (f <$> p).run m = (f (p.run m).1, (p.run m).2) := by
  rw [map_eq_pure_bind, Program.run, interpret_bind]
  rfl

end Program

def Call.calm {π : Type} : Call π → Bool
  | rmdir _ | unlink _ | rename _ _ => false
  | getattr _ | readdir _ | mkdir _ | create _ | createNew _ | read .. | write .. | truncate ..
  | destroy => true

/-- What calls in turn keep of a device and its cache. -/
structure CachedKinds (m : CachedDevice Device) : Prop where
  wellFormed : m.device.tree.WellFormed
  records : ∀ p a, m.cache.lookup p = some a → KindAt m.device.tree p a.kind

variable {α ε : Type} {policy : Policy} {caller : Caller} {m : CachedDevice Device}
    {path p : RemotePath}
variable {kind : EntryKind} {t t' : Tree} {call : Call RemotePath} {x : CallAnswer}

theorem cachedKinds_start {d : Device} (h : d.tree.WellFormed) : CachedKinds ⟨d, .empty⟩ := by
  refine ⟨h, fun p a ha ↦ ?_⟩
  rw [AttributeCache.lookup_empty] at ha
  cases ha

theorem records_run_rest {s : Interleaving.State} {c : BegunCall}
    {q : Program (Except CallError CallAnswer)}
    (hs : s.calls = [c]) (hc : c.rest = q) (h : Coherent policy s) :
    ∀ p a, (q.run s.shared).2.cache.lookup p = some a →
    KindAt (q.run s.shared).2.device.tree p a.kind := by
  induction q generalizing s c with
  | done answer =>
    intro p a ha
    refine (h.records p a ha).resolve_right (not_due fun c' hc' _ ↦ ?_)
    rw [hs, List.mem_singleton] at hc'
    rw [hc', BegunCall.finished, hc]
  | step a next ih =>
    have hfirst : s.calls[0]? = some c := by rw [hs]; rfl
    have hcalls : (s.take 0 c a next).calls = [{ c with rest := next (a.run s.shared).1 }] := by
      rw [State.take, hs]
      rfl
    exact ih (a.run s.shared).1 (s := s.take 0 c a next) hcalls rfl (coherent_take h hfirst hc)

theorem cachedKinds_run (h : CachedKinds m) (call : Call RemotePath) :
    CachedKinds ((call.program policy caller).run m).2 := by
  refine ⟨wellFormed_run _ h.wellFormed, ?_⟩
  have hbegun : Coherent policy ⟨m, [⟨call, caller, call.program policy caller⟩], []⟩ := by
    refine ⟨fun p a ha ↦ .inl (h.records p a ha), fun c hc ↦ ?_⟩
    rw [List.mem_singleton] at hc
    subst hc
    exact ⟨fun _ ↦ False, fun _ hf ↦ hf.elim, call.keeps_program policy caller _ _⟩
  exact records_run_rest (s := ⟨m, [⟨call, caller, call.program policy caller⟩], []⟩) rfl rfl hbegun

theorem cachedKinds_run_of_map {f : Except CallError α → Except CallError CallAnswer}
    {q : Program (Except CallError α)}
    (policy : Policy) (caller : Caller) (call : Call RemotePath)
    (hq : call.program policy caller = f <$> q) (h : CachedKinds m) : CachedKinds (q.run m).2 := by
  have hrun : CachedKinds ((call.program policy caller).run m).2 := cachedKinds_run h call
  rw [hq, run_map] at hrun
  exact hrun

theorem kindAt_insert {node : Node} (h : KindAt t p kind)
    (hn : ∀ old, t.get? path = some old → old.kind = node.kind) :
    KindAt (t.insert path node) p kind := by
  rw [KindAt, KeyMap.get?_insert]
  split
  · rename_i he
    obtain ⟨old, hold, hkind⟩ := Option.map_eq_some_iff.1 h
    rw [Option.map_some, ← hn old (he ▸ hold), hkind]
  · exact h

theorem kindAt_erase (h : KindAt t p kind) (hne : p ≠ path) : KindAt (t.erase path) p kind := by
  rw [KindAt, KeyMap.get?_erase, if_neg hne]
  exact h

theorem Call.Granted.kindAt (h : call.Granted t x t') (hc : call.calm = true)
    (hk : KindAt t p kind) :
    KindAt t' p kind := by
  cases call with
  | getattr path | readdir path | destroy =>
    obtain rfl : t' = t := h
    exact hk
  | read path max offset =>
    obtain rfl : t' = t := h.1
    exact hk
  | mkdir path =>
    obtain ⟨hnone, rfl⟩ := Tree.mkdir_eq_ok h
    refine kindAt_insert hk fun old hold ↦ ?_
    rw [hnone] at hold
    cases hold
  | create path | createNew path =>
    obtain ⟨position, h⟩ := h
    rcases Tree.openFile_eq_ok h with ⟨-, hfile, rfl⟩ | ⟨-, -, rfl⟩
    · refine kindAt_insert hk fun old hold ↦ ?_
      cases old with
      | directory => exact absurd hold hfile
      | file content => rfl
    · exact hk
  | write path data offset =>
    obtain ⟨-, content, hc, rfl⟩ := h
    refine kindAt_insert hk fun old hold ↦ ?_
    rw [hc, Option.some_inj] at hold
    rw [← hold]
    rfl
  | truncate path length =>
    obtain ⟨content, hc, rfl⟩ := h
    refine kindAt_insert hk fun old hold ↦ ?_
    rw [hc, Option.some_inj] at hold
    rw [← hold]
    rfl
  | rmdir path | unlink path | rename old new => cases hc

theorem kindAt_rename {old new : RemotePath} (ht : t.WellFormed) (h : t.rename old new = .ok t')
    (hk : KindAt t p kind) (hn : old ≠ new → p.within new = false) :
    KindAt t' ((p.rebase old new).getD p) kind := by
  rcases Tree.get?_rename ht h with ⟨rfl, rfl⟩ | ⟨hne, -, hget⟩
  · rwa [RemotePath.getD_rebase_self]
  · have hpn := hn hne
    cases hpo : p.within old with
    | false =>
      have hkept : t'.get? p = t.get? p := by simp [hget, hpn, hpo]
      rwa [RemotePath.rebase_eq_none_iff.2 hpo, Option.getD_none, KindAt, hkept]
    | true =>
      obtain ⟨q, hq⟩ := RemotePath.exists_rebase new hpo
      rw [hq, Option.getD_some, KindAt, hget, if_pos (RemotePath.rebase_within hq),
        RemotePath.rebase_symm hq]
      exact hk

theorem kindAt_run (hc : call.calm = true) (hk : KindAt m.device.tree p kind) :
    KindAt ((call.program policy caller).run m).2.device.tree p kind := by
  rcases Turns.Outcome.run_cases (call.outcome (s := ⟨m, []⟩) policy caller) with h | ⟨x, h⟩
  · rw [h]
    exact hk
  · exact h.kindAt hc hk

namespace Filesystem

theorem tree_run_getattr : ((getattr policy caller path).run m).2.device.tree = m.device.tree := by
  have hkept : (getattr policy caller path).Ensures (fun _ t ↦ t.tree = m.device.tree) ⟨m, []⟩ :=
    getattr_keeps_tree (s := ⟨m, []⟩)
  rw [← (Turns.perform_of_no_faults _ m).2]
  exact hkept.perform []

theorem kindAt_of_getattr {a : Attributes} (hm : CachedKinds m) (hp : path ≠ .root)
    (h : ((getattr policy caller path).run m).1 = .ok a) : KindAt m.device.tree path a.kind := by
  obtain ⟨name, hname⟩ := Option.ne_none_iff_exists'.1 (mt RemotePath.name?_eq_none_iff.1 hp)
  cases hcached : m.cache.lookup path with
  | some a' =>
    rw [run_getattr_hit hname hcached] at h
    cases h
    exact hm.records path a hcached
  | none =>
    rw [run_getattr_miss hname hcached] at h
    cases hx : (RemoteDevice.answer (.listdir path.parent) m.device).1 with
    | error e =>
      rw [hx] at h
      cases h
    | ok rows =>
      rw [hx] at h
      dsimp only at h
      split at h
      · rename_i name' a' hfind
        cases h
        obtain ⟨row, hrow, q, hq, hn, ha⟩ := mem_recordsOf.1 (List.mem_of_find?_eq_some hfind)
        have hname' : name' = name := by simpa using List.find?_some hfind
        obtain ⟨hqp, hqn⟩ := RemotePath.join_eq_ok_iff.1 hq
        obtain rfl : path = q := by
          refine RemotePath.eq_of_parent_of_name hqp.symm ?_
          rw [hname, hqn, ← hn, hname']
        obtain ⟨node, hnode, hentry⟩ := Tree.node_of_listing (Device.listing_of_answer hx) hrow hq
        have hkind : node.kind = a.kind := by
          rw [ha, ← Node.entry_kind node row.name, ← hentry]
          rfl
        rw [KindAt, hnode, Option.map_some, hkind]
      · cases h

end Filesystem

end RemoteMount
