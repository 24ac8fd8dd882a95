import RemoteMount.Proofs.CallDuties
import RemoteMount.Proofs.Memory.Listings
import RemoteMount.Proofs.Memory.Sessions

namespace RemoteMount

open Memory

namespace Duty

/-- Only calls that change names have the duty to drop listings. -/
def LiesWith : Duty → Call RemotePath → Prop
  | drop _, call => call.changesNames = true
  | restate _, _ => True

end Duty

namespace Interleaving

/-- A call that was begun is yet to meet the duty. -/
def State.Due (s : State) (duty : Duty) : Prop :=
  ∃ c ∈ s.calls, duty.LiesWith c.call ∧ c.rest.Meets duty

def KindAt (t : Tree) (p : RemotePath) (kind : EntryKind) : Prop :=
  (t.get? p).map Node.kind = some kind

/-- What a fact that a call has learnt still tells in a later state. -/
def FactHolds (s : State) : Fact → Prop
  | .begun g => g ≤ s.cache.generation
  | .listed dir g rows => g ≤ s.cache.generation ∧ (s.cache.staleSince dir g = true ∨
      ∀ row ∈ rows, ∀ p, dir.join row.name = .ok p → KindAt s.tree p row.kind ∨ s.Due (.drop dir))
  | .opened id path => id < s.shared.device.nextSession ∧
      ∀ x, s.shared.device.sessions.get? id = some x → x.path = path

structure Coherent (policy : Policy) (s : State) : Prop where
  records : ∀ p a, s.cache.lookup p = some a → KindAt s.tree p a.kind ∨ s.Due (.drop p.parent)
  calls : ∀ c ∈ s.calls, ∃ known : Fact → Prop, (∀ f, known f → FactHolds s f) ∧
    c.rest.Keeps policy c.caller c.call.changesNames (fun _ ↦ False) known

variable {policy : Policy} {s : State} {i : Nat} {c : BegunCall} {a : Step}
variable {k : a.Answer → Program (Except CallError CallAnswer)} {duty : Duty} {known : Fact → Prop}

theorem due_take (hc : s.calls[i]? = some c) (hk : c.rest = .step a k) (hd : s.Due duty)
    (he : duty.Expects a (a.run s.shared).1) : (s.take i c a k).Due duty ∨ duty.MetBy a := by
  obtain ⟨c', hm, hl, hmeets⟩ := hd
  rcases State.mem_take_of_mem (a := a) (k := k) hc hm with rfl | hm'
  · rw [hk] at hmeets
    rcases hmeets with h | h
    · exact .inr h
    · exact .inl ⟨_, State.take_mem hc, hl, h _ he⟩
  · exact .inl ⟨c', hm', hl, hmeets⟩

theorem due_drop_take {dir : RemotePath} (hc : s.calls[i]? = some c) (hk : c.rest = .step a k)
    (hd : s.Due (.drop dir)) : (s.take i c a k).Due (.drop dir) ∨ a.Drops dir :=
  due_take hc hk hd (by unfold Duty.Expects; split <;> trivial)

/-- A step that changes what is at a path leaves its call with the duty to drop the listing. -/
theorem kindAt_take {p : RemotePath} {kind : EntryKind} (hc : s.calls[i]? = some c)
    (ha : Program.Allows policy c.caller c.call.changesNames (fun _ ↦ False) known a k)
    (h : KindAt s.tree p kind) : KindAt (s.take i c a k).tree p kind ∨
    (s.take i c a k).Due (.drop p.parent) := by
  cases a with
  | remote r =>
    by_cases hn : r.Names p
    · obtain ⟨hcall, hmeets⟩ := ha.1 p hn
      exact .inr ⟨_, State.take_mem hc, hcall, (hmeets _).resolve_left id⟩
    · exact .inl (((Device.answer_effect s.shared.device r).kind_of_not_names hn).trans h)
  | size id => exact .inl h
  | cache a => exact .inl h

theorem begun_take {g : Nat} (h : FactHolds s (.begun g)) :
    FactHolds (s.take i c a k) (.begun g) := by
  cases a with
  | remote r => exact h
  | size id => exact h
  | cache a => exact le_trans h (CacheAccess.generation_le _ a)

theorem opened_take {id : SessionId} {path : RemotePath} (h : FactHolds s (.opened id path)) :
    FactHolds (s.take i c a k) (.opened id path) := by
  cases a with
  | remote r =>
    refine ⟨lt_of_lt_of_le h.1 (Device.nextSession_le_answer _ r), fun x hx ↦ ?_⟩
    obtain ⟨y, hy, hp⟩ := Device.path_of_answer hx h.1
    rw [← hp]
    exact h.2 y hy
  | size id => exact h
  | cache a => exact h

theorem listed_take {dir : RemotePath} {g : Nat} {rows : List ListingEntry}
    (hc : s.calls[i]? = some c)
    (hk : c.rest = .step a k)
    (ha : Program.Allows policy c.caller c.call.changesNames (fun _ ↦ False) known a k)
    (h : FactHolds s (.listed dir g rows)) : FactHolds (s.take i c a k) (.listed dir g rows) := by
  obtain ⟨hg, h⟩ := h
  refine ⟨begun_take hg, ?_⟩
  by_cases hd : a.Drops dir
  · cases a with
    | cache a => exact .inl (CacheAccess.staleSince_of_drops hd hg)
    | remote r => exact hd.elim
    | size id => exact hd.elim
  rcases h with h | h
  · cases a with
    | cache a => exact .inl (CacheAccess.staleSince_run h hg)
    | remote r => exact .inl h
    | size id => exact .inl h
  · refine .inr fun row hr p hp ↦ ?_
    rcases h row hr p hp with h | h
    · have hparent := (RemotePath.join_eq_ok_iff.1 hp).1
      exact hparent ▸ kindAt_take hc ha h
    · exact .inr ((due_drop_take hc hk h).resolve_right hd)

theorem factHolds_take {f : Fact} (hc : s.calls[i]? = some c) (hk : c.rest = .step a k)
    (ha : Program.Allows policy c.caller c.call.changesNames (fun _ ↦ False) known a k)
    (h : FactHolds s f) : FactHolds (s.take i c a k) f := by
  cases f with
  | begun g => exact begun_take h
  | listed dir g rows => exact listed_take hc hk ha h
  | opened id path => exact opened_take h

theorem factHolds_after {f : Fact} (hc : s.calls[i]? = some c) (hk : c.rest = .step a k)
    (ha : Program.Allows policy c.caller c.call.changesNames (fun _ ↦ False) known a k)
    (hknown : ∀ f, known f → FactHolds s f) (h : Fact.After known a (a.run s.shared).1 f) :
    FactHolds (s.take i c a k) f := by
  have hold : ∀ f, known f → FactHolds (s.take i c a k) f :=
    fun f hf ↦ factHolds_take hc hk ha (hknown f hf)
  cases a with
  | size id => exact hold f h
  | cache a =>
    cases a with
    | generation =>
      rcases h with h | rfl
      · exact hold f h
      · exact le_refl _
    | _ => exact hold f h
  | remote r =>
    cases r with
    | listdir dir =>
      cases hx : (Device.answer (.listdir dir) s.shared.device).1 with
      | error e =>
        refine hold f ?_
        simp only [Step.run, RemoteDevice.answer, hx, Fact.After] at h
        exact h
      | ok rows =>
        simp only [Step.run, RemoteDevice.answer, hx, Fact.After] at h
        rcases h with h | ⟨g, hg, rfl⟩
        · exact hold f h
        -- The rows were read by this very step, so nothing can have changed since.
        · refine ⟨begun_take (hknown _ hg), .inr fun row hr p hp ↦ .inl ?_⟩
          obtain ⟨node, hnode, hrow⟩ := Tree.node_of_listing (Device.listing_of_answer hx) hr hp
          have htree : (s.take i c (.remote (.listdir dir)) k).tree = s.tree :=
            Device.tree_answer_listdir _ dir
          rw [KindAt, htree, State.tree, hnode, hrow, Node.entry_kind]
          rfl
    | openFile path mode =>
      cases hx : (Device.answer (.openFile path mode) s.shared.device).1 with
      | error e =>
        refine hold f ?_
        simp only [Step.run, RemoteDevice.answer, hx, Fact.After] at h
        exact h
      | ok id =>
        simp only [Step.run, RemoteDevice.answer, hx, Fact.After] at h
        rcases h with h | rfl
        · exact hold f h
        · obtain ⟨hid, x, hx, hpath, -⟩ := Device.opened_of_answer hx
          refine ⟨hid, fun y hy ↦ ?_⟩
          rw [← Option.some_inj.1 (hx.symm.trans hy), hpath]
    | _ => exact hold f h

theorem records_take (h : Coherent policy s) (hc : s.calls[i]? = some c) (hk : c.rest = .step a k)
    (hknown : ∀ f, known f → FactHolds s f)
    (ha : Program.Allows policy c.caller c.call.changesNames (fun _ ↦ False) known a k)
    {p : RemotePath} {r : Attributes} (hr : (s.take i c a k).cache.lookup p = some r) :
    KindAt (s.take i c a k).tree p r.kind ∨ (s.take i c a k).Due (.drop p.parent) := by
  have hkeep : ∀ r', ¬a.Drops p.parent → s.cache.lookup p = some r' →
      KindAt (s.take i c a k).tree p r'.kind ∨ (s.take i c a k).Due (.drop p.parent) := by
    intro r' hd hr'
    rcases h.records p r' hr' with h | h
    · exact kindAt_take hc ha h
    · exact .inr ((due_drop_take hc hk h).resolve_right hd)
  cases a with
  | remote r' => exact hkeep r id hr
  | size id' => exact hkeep r id hr
  | cache a =>
    rcases CacheAccess.lookup_run_cases hr with
      ⟨hd, r', hr', hkind⟩ | ⟨name, dir, records, hp, hn, hm, he⟩
    · exact hkind ▸ hkeep r' hd hr'
    · rcases he with rfl | ⟨g, rfl, hstale⟩
      · exact ha.elim
      -- The stored listing is no older than the last drop of its directory.
      obtain ⟨rows, hlisted, rfl⟩ := ha
      obtain ⟨row, hrow, q, hq, rfl, rfl⟩ := Filesystem.mem_recordsOf.1 hm
      obtain ⟨hqp, hqn⟩ := RemotePath.join_eq_ok_iff.1 hq
      obtain rfl : p = q := RemotePath.eq_of_parent_of_name (hp.trans hqp.symm) (hn.trans hqn.symm)
      rcases (hknown _ hlisted).2 with hs | hs
      · rw [State.cache, hstale] at hs
        cases hs
      · rcases hs row hrow p hq with h | h
        · exact .inl h
        · refine .inr ((due_drop_take hc hk (hp ▸ h)).resolve_right ?_)
          exact id

theorem coherent_take (h : Coherent policy s) (hc : s.calls[i]? = some c)
    (hk : c.rest = .step a k) :
    Coherent policy (s.take i c a k) := by
  obtain ⟨known, hknown, hkeeps⟩ := h.calls c (List.mem_of_getElem? hc)
  rw [hk] at hkeeps
  obtain ⟨ha, hnext⟩ := hkeeps
  refine ⟨fun p r hr ↦ records_take h hc hk hknown ha hr, fun c' hc' ↦ ?_⟩
  rcases State.mem_take hc' with rfl | hc'
  · exact ⟨_, fun f hf ↦ factHolds_after hc hk ha hknown hf, hnext _⟩
  · obtain ⟨known', hknown', hkeeps'⟩ := h.calls c' hc'
    exact ⟨known', fun f hf ↦ factHolds_take hc hk ha (hknown' f hf), hkeeps'⟩

theorem Due.start {caller : Caller} {call : Call RemotePath} (h : s.Due duty) :
    State.Due { s with calls := s.calls ++ [⟨call, caller, call.program policy caller⟩] } duty := by
  obtain ⟨c, hc, hd⟩ := h
  exact ⟨c, List.mem_append_left _ hc, hd⟩

theorem FactHolds.start {caller : Caller} {call : Call RemotePath} {f : Fact} (h : FactHolds s f) :
    FactHolds { s with calls := s.calls ++ [⟨call, caller, call.program policy caller⟩] } f := by
  cases f with
  | listed dir g rows =>
    exact ⟨h.1, h.2.imp_right fun h row hr p hp ↦ (h row hr p hp).imp_right Due.start⟩
  | _ => exact h

theorem coherent_next (choice : Choice) (h : Coherent policy s) :
    Coherent policy (next policy s choice) := by
  refine next_cases policy choice h ?_ (fun i c a k hc hk ↦ coherent_take h hc hk) ?_
  · intro caller call _
    refine ⟨fun p a ha ↦ (h.records p a ha).imp_right Due.start, fun c hc ↦ ?_⟩
    rcases List.mem_append.1 hc with hc | hc
    · obtain ⟨known, hknown, hkeeps⟩ := h.calls c hc
      exact ⟨known, fun f hf ↦ (hknown f hf).start, hkeeps⟩
    · rw [List.mem_singleton] at hc
      subst hc
      exact ⟨fun _ ↦ False, fun _ hf ↦ hf.elim, call.keeps_program policy caller _ _⟩
  · intro op e _
    exact ⟨h.records, h.calls⟩

theorem coherent_initial (d : Device) : Coherent policy (.initial d) := by
  refine ⟨fun p a ha ↦ ?_, fun c hc ↦ nomatch hc⟩
  have hnone := AttributeCache.lookup_empty p
  rw [State.cache, State.initial, hnone] at ha
  cases ha

theorem coherent_run (d : Device) (schedule : List Choice) :
    Coherent policy (run policy (.initial d) schedule) :=
  run_induction policy (coherent_initial d) fun _ choice _ h ↦ coherent_next choice h

theorem not_due (h : ∀ c ∈ s.calls, duty.LiesWith c.call → c.finished = true) : ¬s.Due duty := by
  intro hx
  obtain ⟨c, hc, hl, hm⟩ := hx
  have hf := h c hc hl
  unfold BegunCall.finished at hf
  split at hf
  · rename_i hrest
    rw [hrest] at hm
    exact hm
  · cases hf

/-- However calls are interleaved and whatever faults are armed: while no call that changes
names is in flight, every cached record is matched by a node of its kind. -/
theorem cached_names_exist (policy : Policy) (d : Device) (schedule : List Choice)
    (hq : ∀ c ∈ (run policy (.initial d) schedule).calls, c.call.changesNames = true →
      c.finished = true)
    {p : RemotePath} {a : Attributes}
    (ha : (run policy (.initial d) schedule).cache.lookup p = some a) :
    ∃ node, (run policy (.initial d) schedule).tree.get? p = some node ∧ node.kind = a.kind :=
  Option.map_eq_some_iff.1 (((coherent_run d schedule).records p a ha).resolve_right (not_due hq))

section Examples

def fileA : RemotePath := ⟨[⟨"a", by decide⟩]⟩

def fileB : RemotePath := ⟨[⟨"b", by decide⟩]⟩

def user : Caller := ⟨1000, 100, 42⟩

def twoFiles : Device :=
  { Device.empty 64 with tree := ((Device.empty 64).tree.insertFile fileA []).insertFile fileB [1] }

def overtakenByUnlink : List Choice :=
  [.start user (.getattr fileA), .advance 0, .advance 0, .advance 0,
    .start user (.unlink fileA), .advance 1, .advance 1, .advance 1, .advance 0,
    .start user (.getattr fileB), .advance 2, .advance 2, .advance 2, .advance 2]

theorem cached_names_exist_overtaken : ∃ node,
    (run .standard (.initial twoFiles) overtakenByUnlink).tree.get? fileB = some node ∧
    node.kind = .file :=
  cached_names_exist .standard twoFiles overtakenByUnlink (by decide +kernel)
    (a := ⟨.file, 0o444, 1, 1000, 100⟩) (by decide +kernel)

end Examples

end Interleaving

end RemoteMount
