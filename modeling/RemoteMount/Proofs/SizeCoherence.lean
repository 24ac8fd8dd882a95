import RemoteMount.Proofs.CacheAgreement
import RemoteMount.Proofs.NamespaceCoherence

namespace RemoteMount

open Memory

namespace Interleaving

namespace Moment

def after (m : Moment) : CachedDevice Device := (m.step.run m.found).2

def stores (p : RemotePath) (m : Moment) : Bool :=
  match m.step with
  | .cache a => a.stores m.found.cache p
  | _ => false

end Moment

/-- The size of `p` that was stored last was the length of the file at that moment. -/
def State.StoredPromptly (s : State) (p : RemotePath) : Prop :=
  ∀ m, s.past.find? (·.stores p) = some m → SizeAgrees m.after.device.tree m.after.cache p

/-- A cached size is right exactly if it was right when it was stored, or a call is yet to
restate it. -/
structure SizesTracked (s : State) : Prop where
  faultless : ∀ op, s.shared.device.faults.get? op = none
  sizes : ∀ p a, s.cache.lookup p = some a →
    (a.size = s.tree.lengthAt p ↔ s.StoredPromptly p) ∨ s.Due (.restate p)

variable {policy : Policy} {s : State} {i : Nat} {c : BegunCall} {a : Step}
variable {k : a.Answer → Program (Except CallError CallAnswer)} {known : Fact → Prop}
    {p : RemotePath}

theorem faultless_take (h : ∀ op, s.shared.device.faults.get? op = none) (op : RemoteOp) :
    (s.take i c a k).shared.device.faults.get? op = none := by
  cases a with
  | remote r => exact Device.faults_answer h op
  | size id => exact h op
  | cache a => exact h op

theorem expects_of_faultless (h : ∀ op, s.shared.device.faults.get? op = none) (duty : Duty) :
    duty.Expects a (a.run s.shared).1 := by
  have hclose : ∀ id, (s.shared.device.answer (.close id)).1 = .ok () := by
    intro id
    rw [Device.answer_of_no_fault (h _)]
    rfl
  cases duty with
  | drop dir => cases a with
    | remote r => cases r <;> trivial
    | _ => trivial
  | restate path => cases a with
    | remote r => cases r with
      | close id => exact ⟨(), hclose id⟩
      | _ => trivial
    | _ => trivial

/-- A step that changes the length of a file leaves its call with the duty to restate the
size. -/
theorem lengthAt_take (hc : s.calls[i]? = some c)
    (ha : Program.Allows policy c.caller c.call.changesNames (fun _ ↦ False) known a k)
    (hknown : ∀ f, known f → FactHolds s f) :
    (s.take i c a k).tree.lengthAt p = s.tree.lengthAt p ∨ (s.take i c a k).Due (.restate p) := by
  cases a with
  | size id => exact .inl rfl
  | cache a => exact .inl rfl
  | remote r =>
    have heffect := Device.answer_effect s.shared.device r
    by_cases hn : r.Names p
    · have hmeets := ((ha.1 p hn).2 (s.shared.device.answer r).1).resolve_left id
      exact .inr ⟨_, State.take_mem hc, trivial, hmeets.restate⟩
    by_cases hs : ∀ id x, r.stores? = some id → s.shared.device.sessions.get? id = some x →
      x.path ≠ p
    · refine .inl ?_
      have hget := heffect.get?_of_not_names hn hs
      change Tree.lengthAt (s.shared.device.answer r).2.tree p =
        Tree.lengthAt s.shared.device.tree p
      rw [Tree.lengthAt, hget]
      rfl
    -- The session that stores bytes was opened by this call, for this path.
    push Not at hs
    obtain ⟨id, x, hid, hx, rfl⟩ := hs
    obtain ⟨path, hopened, hmeets⟩ := ha.2 id hid
    obtain rfl : x.path = path := (hknown _ hopened).2 x hx
    cases hr : (s.shared.device.answer r).1 with
    | error e =>
      refine .inl ?_
      change Tree.lengthAt (s.shared.device.answer r).2.tree _ = _
      rw [Device.tree_answer_of_error hr]
      rfl
    | ok reply =>
      refine .inr ⟨_, State.take_mem hc, trivial, ?_⟩
      change (k (s.shared.device.answer r).1).Meets _
      rw [hr]
      exact (hmeets reply).resolve_left not_false

theorem storedPromptly_of_stores (h : Moment.stores p ⟨s.shared, a⟩ = true) :
    (s.take i c a k).StoredPromptly p ↔
    SizeAgrees (s.take i c a k).tree (s.take i c a k).cache p := by
  have hlast : (s.take i c a k).past.find? (·.stores p) = some ⟨s.shared, a⟩ :=
    List.find?_cons_of_pos h
  rw [State.StoredPromptly, hlast]
  constructor
  · intro hm
    exact hm _ rfl
  · rintro hm m hsome
    cases hsome
    exact hm

theorem storedPromptly_of_not_stores (h : Moment.stores p ⟨s.shared, a⟩ = false) :
    (s.take i c a k).StoredPromptly p ↔ s.StoredPromptly p := by
  have hlast : (s.take i c a k).past.find? (·.stores p) = s.past.find? (·.stores p) :=
    List.find?_cons_of_neg (by simp [h])
  rw [State.StoredPromptly, hlast]
  rfl

theorem lookup_take (hd : ¬a.Drops p.parent) (hs : Moment.stores p ⟨s.shared, a⟩ = false) :
    (s.take i c a k).cache.lookup p = s.cache.lookup p := by
  cases a with
  | remote r => rfl
  | size id => rfl
  | cache a => exact CacheAccess.lookup_run_of_not_stores hd hs

theorem lookup_take_of_drops (hd : a.Drops p.parent) : (s.take i c a k).cache.lookup p = none := by
  cases a with
  | remote r => exact hd.elim
  | size id => exact hd.elim
  | cache a => exact CacheAccess.lookup_of_drops hd

theorem sizes_take (h : SizesTracked s) (hc : s.calls[i]? = some c) (hk : c.rest = .step a k)
    (ha : Program.Allows policy c.caller c.call.changesNames (fun _ ↦ False) known a k)
    (hknown : ∀ f, known f → FactHolds s f) {r : Attributes}
    (hr : (s.take i c a k).cache.lookup p = some r) :
    (r.size = (s.take i c a k).tree.lengthAt p ↔ (s.take i c a k).StoredPromptly p) ∨
      (s.take i c a k).Due (.restate p) := by
  cases hs : Moment.stores p ⟨s.shared, a⟩ with
  | true =>
    refine .inl ?_
    rw [storedPromptly_of_stores hs]
    constructor
    · intro he r' hr'
      obtain rfl : r = r' := Option.some_inj.1 (hr.symm.trans hr')
      exact he
    · intro hagrees
      exact hagrees r hr
  | false =>
    by_cases hd : a.Drops p.parent
    · rw [lookup_take_of_drops hd] at hr
      cases hr
    rw [lookup_take hd hs] at hr
    -- No size was stored, so what is cached is as right as before unless the length has changed.
    rcases lengthAt_take hc ha hknown with hlength | hdue
    · rcases h.sizes p r hr with hiff | hdue
      · refine .inl ?_
        rw [hlength, storedPromptly_of_not_stores hs]
        exact hiff
      · refine (due_take hc hk hdue (expects_of_faultless h.faultless _)).elim .inr ?_
        intro x
        rcases x with hdrops | ⟨size, rfl⟩
        · exact absurd hdrops hd
        · simp [Moment.stores, CacheAccess.stores] at hs
    · exact .inr hdue

theorem sizesTracked_take (hcoherent : Coherent policy s) (h : SizesTracked s)
    (hc : s.calls[i]? = some c) (hk : c.rest = .step a k) : SizesTracked (s.take i c a k) := by
  obtain ⟨known, hknown, hkeeps⟩ := hcoherent.calls c (List.mem_of_getElem? hc)
  rw [hk] at hkeeps
  exact ⟨faultless_take h.faultless, fun p r hr ↦ sizes_take h hc hk hkeeps.1 hknown hr⟩

theorem sizesTracked_next {choice : Choice} (hcoherent : Coherent policy s) (h : SizesTracked s)
    (harm : ∀ op e, choice ≠ .arm op e) : SizesTracked (next policy s choice) := by
  refine next_cases policy choice h ?_ (fun i c a k hc hk ↦ sizesTracked_take hcoherent h hc hk) ?_
  · intro caller call _
    exact ⟨h.faultless, fun p a ha ↦ (h.sizes p a ha).imp_right Due.start⟩
  · intro op e he
    exact absurd he (harm op e)

theorem sizesTracked_run {d : Device} {schedule : List Choice} (hd : ∀ op, d.faults.get? op = none)
    (harm : ∀ op e, .arm op e ∉ schedule) : SizesTracked (run policy (.initial d) schedule) := by
  have h : Coherent policy (run policy (.initial d) schedule) ∧
      SizesTracked (run policy (.initial d) schedule) := by
    refine run_induction policy (P := fun s ↦ Coherent policy s ∧ SizesTracked s)
      ⟨coherent_initial d, hd, fun p a ha ↦ ?_⟩ ?_
    · have hnone := AttributeCache.lookup_empty p
      rw [State.cache, State.initial, hnone] at ha
      cases ha
    · intro s choice hchoice hx
      obtain ⟨hcoherent, h⟩ := hx
      exact ⟨coherent_next choice hcoherent, sizesTracked_next hcoherent h fun op e he ↦
        harm op e (he ▸ hchoice)⟩
  exact h.2

/-- However calls are interleaved: once all of them are finished without a fault, the cached
size of a file is its length exactly if it was so at the moment the size was stored. -/
theorem cached_size_exact_iff (policy : Policy) (d : Device) (schedule : List Choice)
    (hd : ∀ op, d.faults.get? op = none) (harm : ∀ op e, .arm op e ∉ schedule)
    (hq : ∀ c ∈ (run policy (.initial d) schedule).calls, c.finished = true) {p : RemotePath}
    {a : Attributes}
    (ha : (run policy (.initial d) schedule).cache.lookup p = some a) (hk : a.kind = .file) :
    ∃ content, (run policy (.initial d) schedule).tree.get? p = some (.file content) ∧
      (a.size = content.size.toUInt64 ↔ (run policy (.initial d) schedule).StoredPromptly p) := by
  have hkind := ((coherent_run d schedule).records p a ha).resolve_right
    (not_due fun c hc _ ↦ hq c hc)
  have hsize := ((sizesTracked_run hd harm).sizes p a ha).resolve_right
    (not_due fun c hc _ ↦ hq c hc)
  obtain ⟨node, hnode, hnk⟩ := Option.map_eq_some_iff.1 hkind
  cases node with
  | directory =>
    rw [hk] at hnk
    cases hnk
  | file content =>
    refine ⟨content, hnode, ?_⟩
    rw [← Tree.lengthAt_of_file hnode]
    exact hsize

section Examples

def emptyFile : Device :=
  { Device.empty 64 with tree := (Device.empty 64).tree.insertFile fileA [] }

/-- The root is listed for a call, two bytes are written to the empty `fileA`, and then the
listing is stored. -/
def overtakenByWrite : List Choice :=
  [.start user (.getattr fileA), .advance 0, .advance 0, .advance 0,
    .start user (.write fileA [1, 2] 0), .advance 1, .advance 1, .advance 1, .advance 1, .advance 1,
      .advance 1,
    .advance 0]

theorem cached_size_exact_iff_overtaken : ∃ content,
    (run .standard (.initial emptyFile) overtakenByWrite).tree.get? fileA = some (.file content) ∧
      ((0 : UInt64) = content.size.toUInt64 ↔
        (run .standard (.initial emptyFile) overtakenByWrite).StoredPromptly fileA) :=
  cached_size_exact_iff .standard emptyFile overtakenByWrite (fun _ ↦ rfl)
    (by simp [overtakenByWrite]) (by decide +kernel)
    (a := ⟨.file, 0o444, 0, 1000, 100⟩) (by decide +kernel) rfl

/-- A size that was overtaken before it was stored stays wrong after all calls are finished. -/
theorem cached_size_outdated :
    ¬∀ (policy : Policy) (d : Device) (schedule : List Choice), d.tree.WellFormed →
    (∀ op, d.faults.get? op = none) → (∀ op e, .arm op e ∉ schedule) →
    (∀ c ∈ (run policy (.initial d) schedule).calls, c.finished = true) →
    ∀ p a, (run policy (.initial d) schedule).cache.lookup p = some a → a.kind = .file →
      ∃ content, (run policy (.initial d) schedule).tree.get? p = some (.file content) ∧
        a.size = content.size.toUInt64 := by
  intro h
  obtain ⟨content, hc, hs⟩ := h .standard emptyFile overtakenByWrite (by decide +kernel)
    (fun _ ↦ rfl)
    (by simp [overtakenByWrite]) (by decide +kernel) fileA ⟨.file, 0o444, 0, 1000, 100⟩
      (by decide +kernel) rfl
  have hlength : (run .standard (.initial emptyFile) overtakenByWrite).tree.lengthAt fileA = 2 := by
    decide +kernel
  rw [Tree.lengthAt_of_file hc, ← hs] at hlength
  cases hlength

end Examples

end Interleaving

end RemoteMount
