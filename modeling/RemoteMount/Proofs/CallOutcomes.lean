import RemoteMount.Proofs.Memory.Grants
import RemoteMount.Proofs.SessionCalls

namespace RemoteMount

open Memory Turns Program

namespace Turns

def Unclosed (log : List Exchange) : Prop := ∃ x ∈ log, x.request.op = .close ∧ x.granted = false

variable {ε ε' α β : Type} {held : Bool} {t : Tree} {granted : α → Tree → Prop} {s s' : State}
    {x : Except ε α}

/-- The ways in which something can end that was begun with the tree `t`. The last is there only
for what holds a session on the way. -/
inductive Outcome (held : Bool) (t : Tree) (granted : α → Tree → Prop) : Except ε α → State → Prop
  | granted {a : α} {s : State} (h : granted a s.tree) : Outcome held t granted (.ok a) s
  | failed {e : ε} {s : State} (h : s.tree = t) : Outcome held t granted (.error e) s
  | unclosed {e : ε} {a : α} {s : State} (hh : held = true) (h : granted a s.tree)
    (hl : Unclosed s.log) :
    Outcome held t granted (.error e) s

namespace Outcome

theorem congr (h : Outcome held t granted x s) (ht : s'.tree = s.tree)
    (hl : Unclosed s.log → Unclosed s'.log) :
    Outcome held t granted x s' := by
  cases h with
  | granted h => exact .granted (ht ▸ h)
  | failed h => exact .failed (ht.trans h)
  | unclosed hh h hu => exact .unclosed hh (ht ▸ h) (hl hu)

theorem map {f : α → β} {granted' : β → Tree → Prop} (h : Outcome held t granted x s)
    (hf : ∀ a t', granted a t' → granted' (f a) t') : Outcome held t granted' (x.map f) s := by
  cases h with
  | granted h => exact .granted (hf _ _ h)
  | failed h => exact .failed h
  | unclosed hh h hu => exact .unclosed hh (hf _ _ h) hu

theorem mapError {f : ε → ε'} (h : Outcome held t granted x s) :
    Outcome held t granted (x.mapError f) s := by
  cases h with
  | granted h => exact .granted h
  | failed h => exact .failed h
  | unclosed hh h hu => exact .unclosed hh h hu

theorem granted_of_ok {a : α} (h : Outcome held t granted x s) (hx : x = .ok a) :
    granted a s.tree := by
  cases h with
  | granted h =>
    cases hx
    exact h
  | failed | unclosed => cases hx

theorem hold (h : Outcome held t granted x s) : Outcome true t granted x s := by
  cases h with
  | granted h => exact .granted h
  | failed h => exact .failed h
  | unclosed _ h hu => exact .unclosed rfl h hu

end Outcome

namespace State.Answers

variable {r : Request} {id : SessionId} {path : RemotePath} {y : Except RemoteError r.Reply}

theorem unclosed (h : s.Answers r y s') (hl : Unclosed s.log) : Unclosed s'.log := by
  obtain ⟨x, hx, hclose⟩ := hl
  exact ⟨x, h.log_eq ▸ List.mem_cons_of_mem _ hx, hclose⟩

theorem unclosed_of_error {e : RemoteError} (h : s.Answers (.close id) (.error e) s') :
    Unclosed s'.log := by
  rw [Unclosed, h.log_eq]
  exact ⟨_, List.mem_cons_self, rfl, rfl⟩

theorem onTree {a : r.Reply} (h : s.Answers r (.ok a) s') (hs : r.stores? = none) :
    r.onTree s.tree = .ok s'.tree := by
  obtain ⟨faults, hx, hd⟩ := h.exists_answer
  have hgranted := Device.onTree_of_answer hs hx.symm
  rw [Device.tree_arm, ← hd] at hgranted
  exact hgranted

theorem readAt {max : Nat} {data : Bytes} {x : Session} (h : s.Answers (.read id max) (.ok data) s')
    (hs : s.shared.device.sessions.get? id = some x) :
    ∃ content, s.tree.get? x.path = some (.file content) ∧
    data = content.slice x.position.toNat max := by
  obtain ⟨faults, hx, -⟩ := h.exists_answer
  rw [← Device.sessions_arm] at hs
  have hread := Device.read_of_answer hs hx.symm
  rw [Device.tree_arm] at hread
  exact hread

end State.Answers

theorem State.sessions_take_access (s : State) (faults : Faults) (a : CacheAccess) :
    (s.take faults (.cache a)).2.shared.device.sessions = s.shared.device.sessions :=
  Device.sessions_arm

theorem State.sessions_take_size (s : State) (faults : Faults) (id : SessionId) :
    (s.take faults (.size id)).2.shared.device.sessions = s.shared.device.sessions :=
  Device.sessions_arm

end Turns

namespace Filesystem

variable {policy : Policy} {caller : Caller} {path dir old new : RemotePath} {mode : OpenMode}
    {α : Type}
variable {held : Bool} {s : State} {granted : α → Tree → Prop}

theorem outcome_remotely {p : Program (Except RemoteError α)} {t : Tree}
    (h : p.Ensures (Outcome held t granted) s) :
    (remotely p).Ensures (Outcome held t granted) s :=
  h.bind fun _ _ hx ↦ hx.mapError

theorem invalidateAll_keeps (touched : List RemotePath) :
    (invalidateAll touched).Ensures (fun _ t ↦ t.tree = s.tree ∧ t.log = s.log) s := by
  induction touched generalizing s with
  | nil => exact ⟨rfl, rfl⟩
  | cons dir touched ih =>
    intro faults
    refine ih.mono fun _ t ht ↦ ⟨?_, ht.2⟩
    rw [ht.1, State.tree_take_access]

theorem outcome_mutate {touched : List RemotePath} {mutation : Program (Except RemoteError Unit)}
    {granted : Unit → Tree → Prop}
    (hm : ∀ s', s'.tree = s.tree → mutation.Ensures (Outcome held s.tree granted) s') :
    (mutate touched mutation).Ensures (Outcome held s.tree granted) s := by
  refine (invalidateAll_keeps touched).bind fun _ s₁ h₁ ↦ ?_
  refine (hm s₁ h₁.1).bind fun x s₂ h₂ ↦ ?_
  refine (invalidateAll_keeps touched).bind fun _ s₃ h₃ ↦ ?_
  exact h₂.congr h₃.1 fun hu ↦ h₃.2.symm ▸ hu

theorem outcome_request {r : Request} {t : Tree} (hs : r.stores? = none) (ht : s.tree = t) :
    (request r).Ensures (Outcome false t fun _ t' ↦ r.onTree t = .ok t') s := by
  subst ht
  refine ensures_remote fun x s' h ↦ ?_
  rcases x with e | a
  · exact .failed h.tree_of_error
  · exact .granted (h.onTree hs)

theorem outcome_mkdir :
    (mkdir path).Ensures (Outcome false s.tree fun _ t ↦ s.tree.mkdir path = .ok t) s :=
  outcome_remotely (outcome_mutate fun _ ht ↦ outcome_request (r := .mkdir path) rfl ht)

theorem outcome_rmdir :
    (rmdir path).Ensures (Outcome false s.tree fun _ t ↦ s.tree.rmdir path = .ok t) s := by
  intro faults
  have htree : (s.take faults (.cache (.invalidateTree path))).2.tree = s.tree :=
    State.tree_take_access _
  rw [← htree]
  exact outcome_remotely (outcome_mutate fun _ ht ↦ outcome_request (r := .rmdir path) rfl ht)

theorem outcome_unlink :
    (unlink path).Ensures (Outcome false s.tree fun _ t ↦ s.tree.unlink path = .ok t) s :=
  outcome_remotely (outcome_mutate fun _ ht ↦ outcome_request (r := .unlink path) rfl ht)

theorem outcome_rename :
    (rename old new).Ensures (Outcome false s.tree fun _ t ↦ s.tree.rename old new = .ok t) s := by
  have hmutate : ∀ s', s'.tree = s.tree →
      (remotely (mutate [old.parent, new.parent] (request (.rename old new)))).Ensures
        (Outcome false s.tree fun _ t ↦ s.tree.rename old new = .ok t) s' := by
    intro s' ht
    rw [← ht]
    exact outcome_remotely (outcome_mutate fun _ ht ↦ outcome_request (r := .rename old new) rfl ht)
  intro faults faults'
  refine (hmutate _ ?_).bind fun x s₁ h₁ faults faults' ↦ h₁.congr ?_ id
  · rw [State.tree_take_access, State.tree_take_access]
  · rw [State.tree_take_access, State.tree_take_access]

theorem outcome_withSession {body : SessionId → Program (Except RemoteError α)}
    (hb : ∀ id s', s.Answers (.openFile path mode) (.ok id) s' →
      (body id).Ensures (Outcome true s.tree granted) s') :
    (withSession path mode body).Ensures (Outcome true s.tree granted) s := by
  refine ensures_remote fun x s₁ hopen ↦ ?_
  rcases x with e | id
  · exact .failed hopen.tree_of_error
  · refine (hb id s₁ hopen).bind fun value s₂ hvalue ↦ ensures_remote fun closed s₃ hclose ↦ ?_
    have hkept := hvalue.congr (hclose.tree_of_quiet (fun _ h ↦ h) rfl) hclose.unclosed
    rcases value with e | a
    · exact hkept
    · rcases closed with e | u
      · exact .unclosed rfl (hkept.granted_of_ok rfl) hclose.unclosed_of_error
      · exact hkept

theorem outcome_create : (create path).Ensures
    (Outcome true s.tree fun _ t ↦ ∃ position,
      s.tree.openFile path .createWrite = .ok (t, position)) s := by
  refine outcome_remotely (outcome_mutate fun s₁ ht ↦ ?_)
  rw [← ht]
  refine outcome_withSession fun id s₂ hopen ↦ .granted ?_
  have hgranted := hopen.onTree rfl
  rw [Request.onTree] at hgranted
  cases ho : s₁.tree.openFile path .createWrite with
  | error e =>
    rw [ho] at hgranted
    cases hgranted
  | ok opened =>
    rw [ho] at hgranted
    have htree : opened.1 = s₂.tree := Except.ok.inj hgranted
    exact ⟨opened.2, by rw [← htree]⟩

theorem refresh_keeps_tree : (refresh policy caller dir).Ensures (fun _ t ↦ t.tree = s.tree) s := by
  refine fun faults ↦ ensures_remote fun x s₁ hlist ↦ ?_
  have htree : s₁.tree = s.tree := by
    rw [hlist.tree_of_quiet (fun _ h ↦ h) rfl, State.tree_take_access]
  rcases x with e | rows
  · exact htree
  · intro faults'
    exact (State.tree_take_access _).trans htree

theorem outcome_createNew : (createNew policy caller path).Ensures
    (Outcome true s.tree fun _ t ↦ ∃ position,
      s.tree.openFile path .createWrite = .ok (t, position)) s := by
  refine refresh_keeps_tree.bind fun x s₁ ht ↦ ?_
  rcases x with e | records
  · exact .failed ht
  · dsimp only
    split
    · exact .failed ht
    · rw [← ht]
      exact outcome_create

theorem getattr_keeps_tree :
    (getattr policy caller path).Ensures (fun _ t ↦ t.tree = s.tree) s := by
  unfold getattr
  split
  · rfl
  · intro faults
    dsimp only [Program.bind]
    split
    · exact State.tree_take_access _
    · refine refresh_keeps_tree.bind fun x t ht ↦ ?_
      have htree : t.tree = s.tree := ht.trans (State.tree_take_access _)
      rcases x with e | records
      · exact htree
      · dsimp only
        split <;> exact htree

theorem readdir_keeps_tree :
    (readdir policy caller path).Ensures (fun _ t ↦ t.tree = s.tree) s := by
  refine refresh_keeps_tree.bind fun x t ht ↦ ?_
  rcases x with e | records <;> exact ht

theorem outcome_read {max : Nat} {offset : UInt64} : (read path max offset).Ensures
    (Outcome true s.tree fun data t ↦ t = s.tree ∧
      ∃ content, s.tree.get? path = some (.file content) ∧
      data = content.slice offset.toNat max) s := by
  refine outcome_remotely (outcome_withSession fun id s₁ hopen faults faults' ↦
    ensures_remote fun x s₂ hseek ↦ ?_)
  obtain ⟨session, hsession, hpath, -⟩ := hopen.opened
  have htree : s₁.tree = s.tree := hopen.tree_of_quiet (fun _ h ↦ h) rfl
  have htree₂ : s₂.tree = s.tree := by
    rw [hseek.tree_of_quiet (fun _ h ↦ h) rfl, State.tree_take_access, State.tree_take_size, htree]
  rcases x with e | u
  · exact .failed htree₂
  · refine ensures_remote fun x s₃ hread ↦ ?_
    have htree₃ : s₃.tree = s.tree := (hread.tree_of_quiet (fun _ h ↦ h) rfl).trans htree₂
    rcases x with e | data
    · exact .failed htree₃
    · rw [← State.sessions_take_size s₁ faults id,
        ← State.sessions_take_access _ faults'] at hsession
      obtain ⟨content, hc, hdata⟩ := hread.readAt (hseek.sought hsession)
      rw [htree₂, hpath] at hc
      exact .granted ⟨htree₃, content, hc, hdata⟩

theorem outcome_write {data : Bytes} {offset : UInt64} : (write path data offset).Ensures
    (Outcome true s.tree fun n t ↦ n = data.length ∧ ∃ content,
      s.tree.get? path = some (.file content) ∧
      t = s.tree.insert path (.file (content.overwrite offset.toNat data))) s := by
  refine outcome_remotely (outcome_withSession fun id s₁ hopen ↦ ensures_remote fun x s₂ hseek ↦ ?_)
  obtain ⟨session, hsession, hpath, hmode⟩ := hopen.opened
  have htree : s₁.tree = s.tree := hopen.tree_of_quiet (fun _ h ↦ h) rfl
  have htree₂ : s₂.tree = s.tree := (hseek.tree_of_quiet (fun _ h ↦ h) rfl).trans htree
  rcases x with e | u
  · exact .failed htree₂
  · refine ensures_remote fun x s₃ hwrite ↦ ?_
    rcases x with e | n
    · exact .failed (hwrite.tree_of_error.trans htree₂)
    · obtain ⟨content, hc, -, hn, -, htree₃⟩ := hwrite.written (hseek.sought hsession)
      have hstart : Session.writeStart { session with position := offset } content.size =
          offset := by
        simp [Session.writeStart, hmode]
      rw [hstart, htree₂] at htree₃
      simp only [htree₂, hpath] at hc htree₃
      refine fun faults faults' ↦ .granted ⟨hn, content, hc, ?_⟩
      rw [State.tree_take_access, State.tree_take_size, htree₃]

theorem outcome_truncate {length : UInt64} : (truncate path length).Ensures
    (Outcome true s.tree fun _ t ↦ ∃ content, s.tree.get? path = some (.file content) ∧
      t = s.tree.insert path (.file (content.resize length.toNat))) s := by
  have hcut : (withSession path .write fun id ↦ request (.truncate id length)).Ensures
      (Outcome true s.tree fun _ t ↦ ∃ content, s.tree.get? path = some (.file content) ∧
        t = s.tree.insert path (.file (content.resize length.toNat))) s := by
    refine outcome_withSession fun id s₁ hopen ↦ ensures_remote fun x s₂ htruncate ↦ ?_
    have htree : s₁.tree = s.tree := hopen.tree_of_quiet (fun _ h ↦ h) rfl
    rcases x with e | u
    · exact .failed (htruncate.tree_of_error.trans htree)
    · obtain ⟨session, hsession, hpath, -⟩ := hopen.opened
      have hcut := htruncate.cut ⟨session, hsession, hpath⟩
      rw [htree] at hcut
      exact .granted hcut
  refine hcut.bind fun x t ht ↦ ?_
  rcases x with e | u
  · exact ht.mapError (f := CallError.remote)
  · refine fun faults ↦ .granted ?_
    rw [State.tree_take_access]
    exact ht.granted_of_ok rfl

end Filesystem

namespace Call

/-- What a granted call answers with and has made of the tree. -/
def Granted (t : Tree) : Call RemotePath → CallAnswer → Tree → Prop
  | getattr _, _, t' | readdir _, _, t' | destroy, _, t' => t' = t
  | mkdir path, _, t' => t.mkdir path = .ok t'
  | rmdir path, _, t' => t.rmdir path = .ok t'
  | unlink path, _, t' => t.unlink path = .ok t'
  | rename old new, _, t' => t.rename old new = .ok t'
  | create path, _, t' | createNew path, _, t' =>
    ∃ position, t.openFile path .createWrite = .ok (t', position)
  | read path max offset, x, t' =>
    t' = t ∧ ∃ content, t.get? path = some (.file content) ∧
      x = .data (content.slice offset.toNat max)
  | write path data offset, x, t' =>
    x = .count data.length ∧ ∃ content, t.get? path = some (.file content) ∧
      t' = t.insert path (.file (content.overwrite offset.toNat data))
  | truncate path length, _, t' => ∃ content, t.get? path = some (.file content) ∧
      t' = t.insert path (.file (content.resize length.toNat))

variable {s : State}

theorem outcome (policy : Policy) (caller : Caller) (call : Call RemotePath) :
    (call.program policy caller).Ensures (Outcome true s.tree (call.Granted s.tree)) s := by
  cases call with
  | getattr path =>
    refine Ensures.map (Filesystem.getattr_keeps_tree.mono fun x t ht ↦ ?_)
    rcases x with e | a
    · exact .failed ht
    · exact .granted ht
  | readdir path =>
    refine Ensures.map (Filesystem.readdir_keeps_tree.mono fun x t ht ↦ ?_)
    rcases x with e | rows
    · exact .failed ht
    · exact .granted ht
  | destroy => exact fun faults ↦ .granted (State.tree_take_access _)
  | mkdir path =>
    exact Ensures.map (Filesystem.outcome_mkdir.mono fun _ _ h ↦ (h.map fun _ _ h ↦ h).hold)
  | rmdir path =>
    exact Ensures.map (Filesystem.outcome_rmdir.mono fun _ _ h ↦ (h.map fun _ _ h ↦ h).hold)
  | unlink path =>
    exact Ensures.map (Filesystem.outcome_unlink.mono fun _ _ h ↦ (h.map fun _ _ h ↦ h).hold)
  | rename old new =>
    exact Ensures.map (Filesystem.outcome_rename.mono fun _ _ h ↦ (h.map fun _ _ h ↦ h).hold)
  | create path =>
    exact Ensures.map (Filesystem.outcome_create.mono fun _ _ h ↦ h.map fun _ _ h ↦ h)
  | createNew path =>
    exact Ensures.map (Filesystem.outcome_createNew.mono fun _ _ h ↦ h.map fun _ _ h ↦ h)
  | read path max offset =>
    refine Ensures.map (Filesystem.outcome_read.mono fun _ _ h ↦ h.map ?_)
    rintro data t' ⟨ht, content, hc, rfl⟩
    exact ⟨ht, content, hc, rfl⟩
  | write path data offset =>
    refine Ensures.map (Filesystem.outcome_write.mono fun _ _ h ↦ h.map ?_)
    rintro n t' ⟨rfl, hx⟩
    exact ⟨rfl, hx⟩
  | truncate path length =>
    exact Ensures.map (Filesystem.outcome_truncate.mono fun _ _ h ↦ h.map fun _ _ h ↦ h)

end Call

theorem Program.wellFormed_run {α : Type} {m : CachedDevice Device} (p : Program α)
    (h : m.device.tree.WellFormed) : (p.run m).2.device.tree.WellFormed := by
  induction p generalizing m with
  | done a => exact h
  | step a next ih =>
    refine ih _ ?_
    cases a with
    | remote r => exact (Device.answer_effect _ r).wellFormed h
    | size id => exact h
    | cache a => exact h

namespace Turns

variable {ε α : Type} {m : CachedDevice Device} {s : State}

theorem not_unclosed_take {a : Step} (hf : ∀ op, s.shared.device.faults.get? op = none)
    (hl : ¬Unclosed s.log) :
    ¬Unclosed (s.take [] a).2.log := by
  cases a with
  | size id => exact hl
  | cache a => exact hl
  | remote r =>
    rintro ⟨x, hx, hop, hrefused⟩
    rcases List.mem_cons.1 hx with rfl | hx
    · cases r with
      | close id =>
        have hclose := Device.close_of_no_fault (d := s.shared.device) id (hf _)
        have hgranted : (((s.shared.device.arm []).answer (.close id)).1).isOk = false := hrefused
        rw [show s.shared.device.arm [] = s.shared.device from rfl, hclose] at hgranted
        cases hgranted
      | _ => cases hop
    · exact hl ⟨x, hx, hop, hrefused⟩

theorem faults_take {a : Step} (hf : ∀ op, s.shared.device.faults.get? op = none) :
    ∀ op, (s.take [] a).2.shared.device.faults.get? op = none := by
  cases a with
  | size id => exact hf
  | cache a => exact hf
  | remote r => exact Device.faults_answer hf

theorem perform_faultless (p : Program α) (hf : ∀ op, m.device.faults.get? op = none) :
    (∀ op, (perform p m []).2.shared.device.faults.get? op = none) ∧
    ¬Unclosed (perform p m []).2.log := by
  suffices hgen : ∀ s : State, (∀ op, s.shared.device.faults.get? op = none) → ¬Unclosed s.log →
      (∀ op, (p.interpret handle (s, [])).2.1.shared.device.faults.get? op = none) ∧
        ¬Unclosed (p.interpret handle (s, [])).2.1.log by
    refine hgen ⟨m, []⟩ hf ?_
    rintro ⟨x, hx, -⟩
    cases hx
  induction p with
  | done a => exact fun _ hf hl ↦ ⟨hf, hl⟩
  | step a next ih => exact fun s hf hl ↦ ih _ _ (faults_take hf) (not_unclosed_take hf hl)

theorem faults_run (p : Program α) (hf : ∀ op, m.device.faults.get? op = none) :
    ∀ op, (p.run m).2.device.faults.get? op = none := by
  rw [← (perform_of_no_faults p m).2]
  exact (perform_faultless p hf).1

variable {held : Bool} {granted : α → Tree → Prop} {q : Program (Except ε α)}

/-- What becomes of the tree in a run of its own, without faults that are armed on the way. -/
theorem Outcome.run (h : q.Ensures (Outcome held m.device.tree granted) ⟨m, []⟩) :
    (∀ a, (q.run m).1 = .ok a → granted a (q.run m).2.device.tree) ∧
    ∀ e, (q.run m).1 = .error e → held = false ∨ (∀ op, m.device.faults.get? op = none) →
      (q.run m).2.device.tree = m.device.tree := by
  have houtcome := h.perform []
  obtain ⟨hx, hshared⟩ := perform_of_no_faults q m
  have htree : (perform q m []).2.tree = (q.run m).2.device.tree := by rw [← hshared]; rfl
  constructor
  · intro a ha
    rw [← htree]
    exact houtcome.granted_of_ok (hx.trans ha)
  · intro e he hheld
    rw [← htree]
    rw [hx, he] at houtcome
    cases houtcome with
    | failed h => exact h
    | unclosed hh _ hu =>
      rcases hheld with hheld | hf
      · rw [hheld] at hh
        cases hh
      · exact absurd hu (perform_faultless q hf).2

theorem Outcome.run_cases (h : q.Ensures (Outcome held m.device.tree granted) ⟨m, []⟩) :
    (q.run m).2.device.tree = m.device.tree ∨ ∃ a, granted a (q.run m).2.device.tree := by
  have houtcome := h.perform []
  rw [← (perform_of_no_faults q m).2]
  generalize (perform q m []).1 = x at houtcome
  cases houtcome with
  | granted h => exact .inr ⟨_, h⟩
  | failed h => exact .inl h
  | unclosed _ h => exact .inr ⟨_, h⟩

end Turns

end RemoteMount
