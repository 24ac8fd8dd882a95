import RemoteMount.Proofs.Attempts
import RemoteMount.Proofs.Memory.Effects

namespace RemoteMount

namespace Memory.Device

variable {d : Device} {r : Request}

def disarmed (d : Device) : Device := { d with faults := .empty }

@[simp] theorem tree_disarmed (d : Device) : d.disarmed.tree = d.tree := rfl

theorem perform_disarmed (d : Device) (r : Request) :
    d.disarmed.perform r = ((d.perform r).1, (d.perform r).2.disarmed) := by
  cases r with
  | listdir dir => rfl
  | close id => rfl
  | openFile path mode =>
    simp only [perform, tree_disarmed]
    split <;> rfl
  | seek id offset =>
    simp only [perform, show d.disarmed.session id = d.session id from rfl]
    split <;> rfl
  | read id max =>
    simp only [perform, tree_disarmed, show d.disarmed.session id = d.session id from rfl]
    split <;> rfl
  | write id data =>
    simp only [perform, tree_disarmed, show d.disarmed.session id = d.session id from rfl,
      show d.disarmed.capacity = d.capacity from rfl]
    split <;> rfl
  | truncate id length =>
    simp only [perform, tree_disarmed, show d.disarmed.session id = d.session id from rfl,
      show d.disarmed.capacity = d.capacity from rfl]
    cases d.session id >>= (·.truncate d.tree d.capacity length) <;> rfl
  | mkdir path =>
    simp only [perform, tree_disarmed]
    cases d.tree.mkdir path <;> rfl
  | rmdir path =>
    simp only [perform, tree_disarmed]
    cases d.tree.rmdir path <;> rfl
  | unlink path =>
    simp only [perform, tree_disarmed]
    cases d.tree.unlink path <;> rfl
  | rename old new =>
    simp only [perform, tree_disarmed]
    cases d.tree.rename old new <;> rfl

theorem answer_disarmed (h : d.faults.get? r.op = none) :
    d.disarmed.answer r = ((d.answer r).1, (d.answer r).2.disarmed) := by
  have hentered : ((d.disarmed.release r).enter r.op).2 =
      ((d.release r).enter r.op).2.disarmed := by
    cases r <;> rfl
  rw [answer_of_no_fault h, answer_of_no_fault (KeyMap.get?_empty r.op), hentered, perform_disarmed]

theorem tree_answer_of_not_touches (d : Device) (h : r.touches = false) :
    (d.answer r).2.tree = d.tree := by
  refine (answer_effect d r).eq_of_quiet (fun p hp ↦ ?_) ?_
  · cases r with
    | openFile path mode =>
      cases mode with
      | createWrite => cases h
      | _ => exact hp
    | mkdir | rmdir | unlink | rename | write | truncate => cases h
    | _ => exact hp
  · cases r with
    | write | truncate => cases h
    | _ => rfl

end Memory.Device

open Memory Program

theorem not_touches_of_admits {log : List Attempt} {r : Request} (h : Admits log r)
    (hl : ¬Untouched log) :
    r.touches = false := by
  rcases h.resolve_left hl with h | ⟨h, -⟩
  · cases r <;> cases h
    rfl
  · cases r <;> cases h
    rfl

def CachedDevice.disarmed (b : CachedDevice Device) : CachedDevice Device :=
  { b with device := b.device.disarmed }

def Watched.disarmed (w : CachedDevice (Watched Device)) : CachedDevice (Watched Device) :=
  { w with device := { w.device with device := w.device.device.disarmed } }

namespace Program

variable {α : Type} {p : Program α} {Q : α → List Attempt → Prop}
    {w : CachedDevice (Watched Device)}

theorem mem_log_of_mem {σ : Type} [RemoteDevice σ] {w : CachedDevice (Watched σ)} {a : Attempt}
    (p : Program α) (h : a ∈ w.device.log) : a ∈ (p.run w).2.device.log := by
  induction p generalizing w with
  | done x => exact h
  | step s next ih =>
    have hlog := (s.run_watched w).2.2
    refine ih (s.run w).1 (w := (s.run w).2) ?_
    rw [hlog]
    cases s with
    | remote r => exact List.mem_append_left _ h
    | size id => exact h
    | cache a => exact h

/-- A program changes nothing unless a request that can change something is granted. -/
theorem tree_run_of_spared (p : Program α)
    (h : ∀ a ∈ (p.run w).2.device.log, a.failure? = none → a.request.touches = false) :
    (p.run w).2.device.device.tree = w.device.device.tree := by
  induction p generalizing w with
  | done a => rfl
  | step s next ih =>
    refine (ih (s.run w).1 (w := (s.run w).2) h).trans ?_
    cases s with
    | size id => rfl
    | cache a => rfl
    | remote r =>
      cases hx : (w.device.device.answer r).1 with
      | error e => exact Device.tree_answer_of_error hx
      | ok x =>
        have hlast : (⟨r, none⟩ : Attempt) ∈ w.device.log ++
            [⟨r, failureOf (w.device.device.answer r).1⟩] := by
          rw [hx]
          exact List.mem_append_right _ (List.mem_singleton_self _)
        have hlogged := mem_log_of_mem (w := ((Step.remote r).run w).2)
          (next ((Step.remote r).run w).1) hlast
        exact Device.tree_answer_of_not_touches _ (h ⟨r, none⟩ hlogged rfl)

/-- Nothing changes any more after a change or a failure. -/
theorem tree_run_of_touched (h : p.Heeds Q w.device.log) (hl : ¬Untouched w.device.log) :
    (p.run w).2.device.device.tree = w.device.device.tree := by
  induction p generalizing w with
  | done a => rfl
  | step s next ih =>
    have hlog := (s.run_watched w).2.2
    have hlater := h.2 (s.run w).1
    rw [← hlog] at hlater
    refine (ih (s.run w).1 (w := (s.run w).2) hlater ?_).trans ?_
    · rw [hlog]
      cases s with
      | remote r => exact fun hu ↦ hl (untouched_append.1 hu).1
      | size id => exact hl
      | cache a => exact hl
    · cases s with
      | remote r => exact Device.tree_answer_of_not_touches _ (not_touches_of_admits h.1 hl)
      | size id => rfl
      | cache a => rfl

/-- As long as no fault has struck, the two runs are in step. -/
theorem tree_run_watched (h : p.Heeds Q w.device.log) (hu : Untouched w.device.log) :
    (p.run w).2.device.device.tree = w.device.device.tree ∨
      (p.run w).2.device.device.tree = (p.run (Watched.disarmed w)).2.device.device.tree := by
  induction p generalizing w with
  | done a => exact .inl rfl
  | step s next ih =>
    cases s with
    | size id => exact ih _ (h.2 _) hu
    | cache a => exact ih _ (h.2 _) hu
    | remote r =>
      obtain ⟨x, hx⟩ : ∃ x, (w.device.device.answer r).1 = x := ⟨_, rfl⟩
      let w' : CachedDevice (Watched Device) :=
        ⟨⟨(w.device.device.answer r).2, w.device.log ++ [⟨r, failureOf x⟩]⟩, w.cache⟩
      have hlater : (next x).Heeds Q w'.device.log := h.2 x
      have hrun : (Program.step (.remote r) next).run w = (next x).run w' := by
        subst hx
        rfl
      rw [hrun]
      cases hf : w.device.device.faults.get? r.op with
      | some e =>
        obtain rfl : .error e = x := by rw [← hx, Device.answer_of_fault hf]
        -- A fault that strikes is the first failure, and nothing changes after it.
        have hl : ¬Untouched w'.device.log :=
          fun hu ↦ nomatch (untouched_singleton.1 (untouched_append.1 hu).2).1
        exact .inl ((tree_run_of_touched hlater hl).trans (Device.tree_answer_of_error hx))
      | none =>
        -- Without a fault both devices answer alike, and the two runs stay in step.
        have hrun' : (Program.step (.remote r) next).run (Watched.disarmed w) =
            (next x).run (Watched.disarmed w') := by
          have hanswer := Device.answer_disarmed hf
          rw [hx] at hanswer
          change (next (w.device.device.disarmed.answer r).1).run
            (⟨⟨(w.device.device.disarmed.answer r).2,
            w.device.log ++ [⟨r, failureOf (w.device.device.disarmed.answer r).1⟩]⟩, w.cache⟩ :
              CachedDevice (Watched Device)) = _
          rw [hanswer]
          rfl
        rw [hrun']
        by_cases hl : Untouched w'.device.log
        · have hquiet : r.touches = false := (untouched_singleton.1 (untouched_append.1 hl).2).2
          have htree : w'.device.device.tree = w.device.device.tree :=
            Device.tree_answer_of_not_touches _ hquiet
          rw [← htree]
          exact ih x hlater hl
        · refine .inr ?_
          rw [tree_run_of_touched hlater hl,
            tree_run_of_touched (w := Watched.disarmed w') hlater hl]
          rfl

variable {b : CachedDevice Device}

theorem tree_run_cases (h : p.Heeds Q []) (b : CachedDevice Device) :
    (p.run b).2.device.tree = b.device.tree ∨
    (p.run b).2.device.tree = (p.run b.disarmed).2.device.tree := by
  have hrun (b : CachedDevice Device) : (p.run b.watched).2.unwatched = (p.run b).2 :=
    (p.run_watched b.watched).2
  have hcases := tree_run_watched (w := b.watched) h untouched_nil
  rw [← hrun b, ← hrun b.disarmed]
  exact hcases

theorem tree_run_of_quiet (p : Program α)
    (h : ∀ a ∈ p.attempts b, a.failure? = none → a.request.touches = false) :
    (p.run b).2.device.tree = b.device.tree := by
  have hrun : (p.run b.watched).2.unwatched = (p.run b).2 := (p.run_watched b.watched).2
  rw [← hrun]
  exact tree_run_of_spared (w := b.watched) p h

end Program

/-- The first request that failed comes too late to keep anything from being done: it closes a
session, or lists what was made before. -/
def FailedLate (log : List Attempt) : Prop :=
  ∃ before a after, log = before ++ a :: after ∧ firstFailure? before = none ∧ a.failure? ≠ none ∧
    (a.request.op = .close ∨ a.request.op = .listdir ∧ Makes before)

theorem Lawful.failedLate {log : List Attempt} {e : RemoteError} {a : Attempt} (h : Lawful log)
    (he : firstFailure? log = some e) (ha : a ∈ log) (hn : a.failure? = none)
    (ht : a.request.touches = true) :
    FailedLate log := by
  obtain ⟨before, first, after, rfl, hfirst, hbefore⟩ := List.findSome?_eq_some_iff.1 he
  have hnone : firstFailure? before = none := List.findSome?_eq_none_iff.2 hbefore
  have hfailed : first.failure? ≠ none := by
    rw [hfirst]
    exact nofun
  rcases h before first after rfl with hu | hclose | ⟨hlist, -, hmakes⟩
  · -- The change was made after the failure, and nothing is changed after a failure.
    exfalso
    rcases List.mem_append.1 ha with hm | hm
    · have htouches := (hu a hm).2
      rw [ht] at htouches
      cases htouches
    rcases List.mem_cons.1 hm with rfl | hm
    · exact hfailed hn
    obtain ⟨l, r, rfl⟩ := List.append_of_mem hm
    have hadmits := h (before ++ first :: l) a r (by simp)
    have hl : ¬Untouched (before ++ first :: l) := fun hu' ↦ hfailed (hu' first (by simp)).1
    rw [not_touches_of_admits hadmits hl] at ht
    cases ht
  · exact ⟨before, first, after, rfl, hnone, hfailed, .inl hclose⟩
  · exact ⟨before, first, after, rfl, hnone, hfailed, .inr ⟨hlist, hmakes⟩⟩

end RemoteMount
